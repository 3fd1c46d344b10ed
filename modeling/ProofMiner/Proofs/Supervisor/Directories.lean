/-
# Whose directories there are

A worker makes its directory before it loads its program, and every way in which it can leave takes the
directory away, if the loading of a program fails only in ways that the construction of a context knows of.
What a step does to the directories is therefore told by one slot (`Rehousing`): its worker moves in, or it
moves out, or nothing changes. As names tell workers and generations apart
(`Scratch.directoryName_injective`), the directories are at every moment those of the workers that hold one
(`Housed`).

A worker is created only where there is none, so what the earlier generation held is gone by then; and when
the call to stop returns no worker is left.
-/

import ProofMiner.Proofs.Supervisor.Shutdown
import ProofMiner.Proofs.Supervisor.Succession

namespace ProofMiner

namespace Scratch

/-! ### Names -/

/-- The name ends in the digits of the generation. -/
theorem toList_directoryName (worker : UInt32) (generation : UInt64) :
    (directoryName worker generation).toList = "worker-".toList ++
      (Nat.toDigits 10 worker.toNat ++ '-' :: ("gen-".toList ++ Nat.toDigits 10 generation.toNat)) := by
  have hname : directoryName worker generation =
      "worker-" ++ worker.toNat.repr ++ "-gen-" ++ generation.toNat.repr := rfl
  rw [hname, String.toList_append, String.toList_append, String.toList_append, Nat.toList_repr,
    Nat.toList_repr, List.append_assoc, List.append_assoc]
  rfl

/-- Two numbers with the same digits are the same. -/
theorem toDigits_injective {m n : ℕ} (h : Nat.toDigits 10 m = Nat.toDigits 10 n) : m = n := by
  have hnumber := congrArg (Nat.ofDigitChars 10 · 0) h
  rwa [Nat.ofDigitChars_toDigits (by decide) (by decide),
    Nat.ofDigitChars_toDigits (by decide) (by decide)] at hnumber

/-- The digits of a number end where something else begins. -/
theorem takeWhile_toDigits (n : ℕ) (rest : List Char) :
    (Nat.toDigits 10 n ++ '-' :: rest).takeWhile Char.isDigit = Nat.toDigits 10 n := by
  rw [List.takeWhile_append_of_pos fun d hd =>
    Nat.isDigit_of_mem_toDigits (by decide) (by decide) hd,
    List.takeWhile_cons_of_neg (by decide), List.append_nil]

/-- **A name tells which worker and which generation it is of.** -/
theorem directoryName_injective {a b : UInt32} {g k : UInt64}
    (h : directoryName a g = directoryName b k) : a = b ∧ g = k := by
  have hlist := congrArg String.toList h
  rw [toList_directoryName, toList_directoryName] at hlist
  have hnumbers := List.append_cancel_left hlist
  have hworker := congrArg (List.takeWhile Char.isDigit) hnumbers
  rw [takeWhile_toDigits, takeWhile_toDigits] at hworker
  rw [hworker] at hnumbers
  have hgeneration := List.append_cancel_left (List.cons.inj (List.append_cancel_left hnumbers)).2
  exact ⟨UInt32.toNat_inj.1 (toDigits_injective hworker),
    UInt64.toNat_inj.1 (toDigits_injective hgeneration)⟩

/-! ### Making and removing -/

/-- The names of the directories, in the order in which they were made. -/
def made (s : Scratch) : List String := s.directories.map Directory.name

/-- Names are listed in their order, and all of them. -/
theorem mem_names {s : Scratch} {name : String} : name ∈ s.names ↔ name ∈ s.made :=
  List.mem_mergeSort

/-- The system does not refuse to remove the directory of this name. -/
def Removable (s : Scratch) (name : String) : Prop := s.held.lookup name = none

/-- A removal drops the directory unless something in it is held. -/
theorem made_remove (s : Scratch) (old : String) :
    (s.remove old).made = s.made.filter fun name => name != old || (s.held.lookup old).isSome := by
  rw [made, made, remove, List.map_filterMap, ← List.filterMap_eq_filter, List.filterMap_map]
  refine congrArg (List.filterMap · s.directories) (funext fun d => ?_)
  by_cases hd : d.name = old
  · cases hheld : s.held.lookup old <;> simp [remnant?, Option.guard, hd, hheld]
  · simp [remnant?, Option.guard, hd]

/-- Other directories stay. -/
theorem mem_made_remove {s : Scratch} {old name : String} :
    name ∈ (s.remove old).made ↔ name ∈ s.made ∧ (name = old → ¬ s.Removable old) := by
  rw [made_remove, List.mem_filter, Removable]
  simp [imp_iff_not_or, Option.isSome_iff_ne_none]

/-- A directory that can be removed is gone, and the others are left. -/
theorem Removable.mem_made_remove {s : Scratch} {old : String} (h : s.Removable old) {name : String} :
    name ∈ (s.remove old).made ↔ name ∈ s.made ∧ name ≠ old := by
  rw [Scratch.mem_made_remove]
  exact and_congr_right' (imp_congr_right fun _ => iff_of_false (not_not.2 h) not_false)

/-- A removal makes no directory twice. -/
theorem nodup_made_remove {s : Scratch} (h : s.made.Nodup) (old : String) :
    (s.remove old).made.Nodup := by
  rw [made_remove]
  exact h.filter _

/-- A directory is made where there is none, and it is empty. -/
theorem create_eq_some {s s' : Scratch} {name : String} (h : s.create? name = some s') :
    (s.remove name).contains name = false ∧
      s' = { s.remove name with directories := (s.remove name).directories ++ [{ name }] } := by
  rw [create?, Option.ite_none_left_eq_some] at h
  obtain ⟨hfree, h⟩ := h
  rw [Bool.or_eq_true, not_or, Bool.not_eq_true, Bool.not_eq_true] at hfree
  exact ⟨hfree.2, (Option.some.inj h).symm⟩

/-- It is the last one that was made. -/
theorem made_create {s s' : Scratch} {name : String} (h : s.create? name = some s') :
    s'.made = (s.remove name).made ++ [name] := by
  obtain ⟨-, rfl⟩ := create_eq_some h
  exact List.map_append

/-- What the system refuses to remove does not depend on what is made. -/
theorem held_create {s s' : Scratch} {name : String} (h : s.create? name = some s') :
    s'.held = s.held := by
  obtain ⟨-, rfl⟩ := create_eq_some h
  rfl

end Scratch

namespace Dispatcher

variable {c : Config} {d d' : Dispatcher} {action : Action} {actions : List Action}
variable {i w : ℕ} {s s' : Slot}

/-! ### Who lives where -/

/-- The directory of a worker goes by its number and generation. -/
theorem directory_eq (hgeneration : s'.workerGeneration = s.workerGeneration) (i : ℕ) :
    directory i s' = directory i s := by
  rw [directory, directory, owner, owner, hgeneration]

/-- The directories are those of the workers that hold one. -/
structure Housed (d : Dispatcher) : Prop where
  /-- The numbers of the workers fit their type. -/
  bound : d.slots.length ≤ 2 ^ 32
  nodup : d.scratch.made.Nodup
  mem : ∀ name, name ∈ d.scratch.made ↔
    ∃ i s, d.slots[i]? = some s ∧ s.phase.holdsDirectory = true ∧ name = directory i s
  removable : ∀ worker generation, d.scratch.Removable (Scratch.directoryName worker generation)

/-- In the beginning there are no directories. -/
theorem housed_new (hempty : c.scratch.directories = [])
    (hremovable : ∀ worker generation, c.scratch.Removable (Scratch.directoryName worker generation))
    (hworkers : c.workerCount ≤ 2 ^ 32) : Housed (new c) where
  bound := by
    rw [new, List.length_replicate]
    omega
  nodup := by
    rw [Scratch.made, show (new c).scratch = c.scratch from rfl, hempty]
    exact List.nodup_nil
  mem name := by
    rw [Scratch.made, show (new c).scratch = c.scratch from rfl, hempty]
    refine ⟨fun hname => absurd hname List.not_mem_nil, ?_⟩
    rintro ⟨i, s, hs, hholds, -⟩
    obtain rfl := List.eq_of_mem_replicate (List.mem_of_getElem? hs)
    cases hholds
  removable := hremovable

/-- The directory of a worker can be removed. -/
theorem Housed.removable_directory (h : Housed d) (i : ℕ) (s : Slot) :
    d.scratch.Removable (directory i s) := h.removable _ _

/-- The number of a worker can be read off any name with it. -/
theorem Housed.index_eq (h : Housed d) {j : ℕ} (hi : i < d.slots.length) (hj : j < d.slots.length)
    {g k : UInt64}
    (hname : Scratch.directoryName (.ofNat i) g = Scratch.directoryName (.ofNat j) k) : i = j := by
  have hbound := h.bound
  have heq := congrArg UInt32.toNat (Scratch.directoryName_injective hname).1
  rwa [UInt32.toNat_ofNat_of_lt' (hi.trans_le hbound),
    UInt32.toNat_ofNat_of_lt' (hj.trans_le hbound)] at heq

/-- What a step does to the directories. -/
inductive Rehousing (d d' : Dispatcher) : Prop
  | keep (scratch : d'.scratch = d.scratch) (length : d'.slots.length = d.slots.length)
    (slots : ∀ (i : ℕ) (s : Slot), d.slots[i]? = some s → ∃ s', d'.slots[i]? = some s' ∧
      s'.phase.holdsDirectory = s.phase.holdsDirectory ∧
      (s.phase.holdsDirectory = true → s'.workerGeneration = s.workerGeneration))
  | enter (w : ℕ) (s s' : Slot) (slot : d.slots[w]? = some s) (slots : d'.slots = d.slots.set w s')
    (outside : s.phase.holdsDirectory = false) (holds : s'.phase.holdsDirectory = true)
    (generation : s'.workerGeneration = s.workerGeneration)
    (scratch : d.scratch.create? (directory w s) = some d'.scratch)
  | leave (w : ℕ) (s s' : Slot) (slot : d.slots[w]? = some s) (slots : d'.slots = d.slots.set w s')
    (outside : s'.phase.holdsDirectory = false)
    (scratch : d'.scratch = d.scratch.remove (directory w s))

/-- When the directory of one slot is taken away, those of the others are left. -/
theorem Housed.mem_others (h : Housed d) (hs : d.slots[w]? = some s)
    (hslots : d'.slots = d.slots.set w s') {name : String} :
    name ∈ (d.scratch.remove (directory w s)).made ↔
      ∃ i t, i ≠ w ∧ d'.slots[i]? = some t ∧ t.phase.holdsDirectory = true ∧
        name = directory i t := by
  rw [(h.removable_directory w s).mem_made_remove, h.mem]
  constructor
  · rintro ⟨⟨i, t, ht, hholds, rfl⟩, hne⟩
    have hi : i ≠ w := by
      rintro rfl
      obtain rfl := Option.some.inj (hs.symm.trans ht)
      exact hne rfl
    exact ⟨i, t, hi, by rwa [hslots, List.getElem?_set_ne hi.symm], hholds, rfl⟩
  · rintro ⟨i, t, hi, ht, hholds, rfl⟩
    rw [hslots, List.getElem?_set_ne hi.symm] at ht
    refine ⟨⟨i, t, ht, hholds, rfl⟩, fun heq => hi ?_⟩
    exact h.index_eq (List.getElem?_eq_some_iff.1 ht).1 (List.getElem?_eq_some_iff.1 hs).1 heq

/-- **A step keeps everybody housed.** -/
theorem Housed.rehouse (h : Housed d) (hstep : Rehousing d d') : Housed d' := by
  cases hstep with
  | keep scratch length slots =>
    refine ⟨length ▸ h.bound, scratch ▸ h.nodup, fun name => ?_, scratch ▸ h.removable⟩
    rw [scratch, h.mem]
    constructor
    · rintro ⟨i, s, hs, hholds, rfl⟩
      obtain ⟨s', hs', hphase, hgeneration⟩ := slots i s hs
      exact ⟨i, s', hs', hphase.trans hholds, (directory_eq (hgeneration hholds) i).symm⟩
    · rintro ⟨i, s', hs', hholds, rfl⟩
      have hlt : i < d.slots.length := length ▸ (List.getElem?_eq_some_iff.1 hs').1
      obtain ⟨t, ht, hphase, hgeneration⟩ := slots i _ (List.getElem?_eq_getElem hlt)
      obtain rfl := Option.some.inj (ht.symm.trans hs')
      have hheld := hphase.symm.trans hholds
      exact ⟨i, _, List.getElem?_eq_getElem hlt, hheld, directory_eq (hgeneration hheld) i⟩
  | enter w s s' slot slots outside holds generation scratch =>
    have hw := (List.getElem?_eq_some_iff.1 slot).1
    -- What is in the way is taken away before, so that no name is there twice.
    have hmade := Scratch.made_create scratch
    refine ⟨?_, ?_, fun name => ?_, fun worker generation => ?_⟩
    · rw [slots, List.length_set]
      exact h.bound
    · rw [hmade]
      refine List.nodup_append.2 ⟨Scratch.nodup_made_remove h.nodup _, List.nodup_singleton _, ?_⟩
      intro old hold new hnew
      rw [List.mem_singleton.1 hnew]
      exact ((h.removable_directory w s).mem_made_remove.1 hold).2
    · have hin : d'.slots[w]? = some s' := by rw [slots, List.getElem?_set_self hw]
      rw [hmade, List.mem_append, List.mem_singleton, h.mem_others slot slots]
      constructor
      · rintro (⟨i, t, -, ht, hholds, rfl⟩ | rfl)
        · exact ⟨i, t, ht, hholds, rfl⟩
        · exact ⟨w, s', hin, holds, (directory_eq generation w).symm⟩
      · rintro ⟨i, t, ht, hholds, rfl⟩
        by_cases hi : i = w
        · subst hi
          obtain rfl := Option.some.inj (hin.symm.trans ht)
          exact .inr (directory_eq generation i)
        · exact .inl ⟨i, t, hi, ht, hholds, rfl⟩
    · rw [Scratch.Removable, Scratch.held_create scratch]
      exact h.removable worker generation
  | leave w s s' slot slots outside scratch =>
    have hw := (List.getElem?_eq_some_iff.1 slot).1
    refine ⟨?_, scratch ▸ Scratch.nodup_made_remove h.nodup _, fun name => ?_,
      scratch ▸ h.removable⟩
    · rw [slots, List.length_set]
      exact h.bound
    · have hout : d'.slots[w]? = some s' := by rw [slots, List.getElem?_set_self hw]
      rw [scratch, h.mem_others slot slots]
      constructor
      · rintro ⟨i, t, -, ht, hholds, rfl⟩
        exact ⟨i, t, ht, hholds, rfl⟩
      · rintro ⟨i, t, ht, hholds, rfl⟩
        refine ⟨i, t, ?_, ht, hholds, rfl⟩
        rintro rfl
        obtain rfl := Option.some.inj (hout.symm.trans ht)
        cases outside.symm.trans hholds

/-! ### Steps -/

/-- Steps that touch neither slots nor directories. -/
theorem Rehousing.of_slots_eq (hslots : d'.slots = d.slots)
    (hscratch : d'.scratch = d.scratch := by rfl) : Rehousing d d' :=
  .keep hscratch (by rw [hslots]) fun _ s hs => ⟨s, hslots ▸ hs, rfl, fun _ => rfl⟩

/-- One slot is changed, and its worker stays where it is. -/
theorem Rehousing.of_set (hs : d.slots[w]? = some s) (hslots : d'.slots = d.slots.set w s')
    (hholds : s'.phase.holdsDirectory = s.phase.holdsDirectory)
    (hgeneration : s.phase.holdsDirectory = true → s'.workerGeneration = s.workerGeneration :=
      by exact fun _ => rfl)
    (hscratch : d'.scratch = d.scratch := by rfl) : Rehousing d d' := by
  refine .keep hscratch (by rw [hslots, List.length_set]) fun i t ht => ?_
  rw [hslots]
  by_cases hi : w = i
  · subst hi
    obtain rfl := Option.some.inj (hs.symm.trans ht)
    exact ⟨s', List.getElem?_set_self (List.getElem?_eq_some_iff.1 hs).1, hholds, hgeneration⟩
  · exact ⟨t, by rwa [List.getElem?_set_ne hi], rfl, fun _ => rfl⟩

/-- A worker that leaves takes its directory with it. -/
theorem rehousing_leave (hs : d.slots[w]? = some s) (reason : ExitReason) (error : String) :
    Rehousing d (d.leave w s reason error) :=
  .leave w s { s with phase := .leaving reason error } hs (leave_slots hs reason error) rfl rfl

/-- A construction that fails leaves none. -/
theorem rehousing_failConstruction (hs : d.slots[w]? = some s) {e : ContextFault}
    (he : e.isConstruction = true) : Rehousing d (d.failConstruction w s e) := by
  rw [failConstruction, if_pos he]
  exact .leave w s { s with phase := .leaving .constructionFailed e.message } hs
    (modify_eq_set hs _) rfl rfl

/-- Whatever a worker goes on with, it keeps its directory until it leaves. -/
theorem holdsDirectory_emit (proofs : List MinedProof) :
    (Phase.emit proofs).holdsDirectory = true := by
  cases proofs <;> rfl

/-- What a worker's step does to the directories, if the loading of its program fails in no way that the
construction of a context does not know of. -/
theorem rehousing_of_worker (hw : action.worker? = some w) (hstep : d.step? action = some d')
    (hload : ∀ e, action = .load w (.error e) → e.isConstruction = true) : Rehousing d d' := by
  cases action with
  | prepare v =>
    obtain rfl : v = w := Option.some.inj hw
    obtain ⟨s, hs, hphase, ⟨scratch, hcreated, rfl⟩ | ⟨e, he, rfl⟩⟩ := prepare_step hstep
    · exact .enter v s { s with phase := .loading } hs (modify_eq_set hs _) (by rw [hphase]; rfl) rfl
        rfl hcreated
    · exact rehousing_failConstruction hs he
  | load v result =>
    obtain rfl : v = w := Option.some.inj hw
    obtain ⟨s, hs, hphase, rfl | ⟨e, rfl, rfl⟩⟩ := load_step hstep
    · exact .of_set hs (modify_eq_set hs _) (by rw [hphase]; rfl)
    · exact rehousing_failConstruction hs (hload e rfl)
  | take v =>
    obtain rfl : v = w := Option.some.inj hw
    obtain ⟨s, hs, hphase, ⟨-, c, rest, -, rfl⟩ | ⟨-, rfl⟩⟩ := take_step hstep
    · exact .of_set hs (modify_eq_set hs _) (by rw [hphase]; rfl)
    · exact rehousing_leave hs _ _
  | finish v result =>
    obtain rfl : v = w := Option.some.inj hw
    obtain ⟨s, x, hs, hphase, rfl⟩ := finish_step hstep
    cases result with
    | ok proofs =>
      refine .of_set hs (modify_eq_set hs _) ?_
      rw [hphase]
      exact holdsDirectory_emit proofs
    | error e =>
      unfold finishAttempt
      dsimp only
      split
      · exact rehousing_leave hs _ _
      · exact .of_set hs (modify_eq_set hs _) (by rw [hphase]; rfl)
  | emit v result =>
    obtain rfl : v = w := Option.some.inj hw
    obtain ⟨s, p, rest, hs, hphase, rfl⟩ := emit_step hstep
    unfold emitProof
    dsimp only
    split
    · exact .leave v s { s with phase := .leaving .crashed Raised.unknown.message } hs
        (modify_eq_set hs _) rfl rfl
    · refine .of_set hs (modify_eq_set hs _) ?_
      rw [hphase]
      exact holdsDirectory_emit rest
  | _ => cases hw

/-- Events have nothing to do with directories. -/
theorem post_scratch (d : Dispatcher) (event : Event) : (d.post event).scratch = d.scratch := by
  unfold post
  split <;> rfl

/-- A handled event changes one slot at most, and leaves its worker where it is. -/
theorem rehousing_handleEvent (d : Dispatcher) (event : Event) (rest : List Event) :
    Rehousing d (d.handleEvent event rest) := by
  cases event with
  | stop => exact .of_slots_eq rfl
  | candidate x =>
    rcases handleCandidate_cases { d with mailbox := rest } x with
      ⟨-, heq⟩ | ⟨-, -, -, heq⟩ | ⟨-, -, -, heq⟩ | ⟨-, -, heq⟩ <;>
      rw [handleEvent, heq] <;> exact .of_slots_eq rfl
  | exited v generation reason error =>
    rcases handleExit_cases { d with mailbox := rest } v generation reason error with
      ⟨-, heq⟩ | ⟨s, hs, -, ⟨-, heq⟩ | ⟨-, -, ⟨due, heq⟩ | heq⟩⟩ <;>
      rw [handleEvent, heq]
    · exact .of_slots_eq rfl
    all_goals exact .of_set hs rfl rfl

/-- The others leave the directories alone, and create a worker only where there is none. -/
theorem rehousing_of_others (hd : Carried d) (hworker : action.worker? = none)
    (hstep : d.step? action = some d') : Rehousing d d' := by
  cases action with
  | start | deliver =>
    obtain rfl := Option.some.inj hstep
    split <;> exact .of_slots_eq rfl
  | spawn =>
    obtain ⟨-, hlt, rfl⟩ := spawn_step hstep
    have hs := List.getElem?_eq_getElem hlt
    have habsent : (d.slots[d.spawned]).phase = .absent :=
      hd.absent_of_created hs (.spawn rfl) (.inl List.mem_cons_self)
    have houtside : (d.slots[d.spawned]).phase.holdsDirectory = false := by rw [habsent]; rfl
    exact .of_set hs (modify_eq_set hs _) houtside.symm fun hholds => by
      cases houtside.symm.trans hholds
  | stop => rcases stop_step hstep with ⟨-, rfl⟩ | ⟨-, -, -, rfl⟩ <;> exact .of_slots_eq rfl
  | postStop =>
    obtain ⟨-, rfl⟩ := postStop_step hstep
    exact .of_slots_eq (post_slots d .stop) (post_scratch d .stop)
  | cancelWorkers =>
    obtain ⟨-, -, rfl⟩ := cancelWorkers_step hstep
    refine .keep rfl (List.length_map ..) fun i s hs => ?_
    rw [List.getElem?_map, hs]
    exact ⟨_, rfl, rfl, fun _ => rfl⟩
  | closeQueue =>
    obtain ⟨-, rfl⟩ := closeQueue_step hstep
    exact .of_slots_eq rfl
  | join =>
    obtain ⟨v, -, ⟨-, rfl⟩ | ⟨s, hs, -, rfl⟩⟩ := join_step hstep
    · exact .of_slots_eq rfl
    · exact .of_set hs (modify_eq_set hs _) rfl
  | arrive n =>
    obtain ⟨x, -, rfl⟩ := arrive_step hstep
    exact .of_slots_eq (post_slots _ _) (post_scratch _ _)
  | enable | wait =>
    obtain rfl := Option.some.inj hstep
    exact .of_slots_eq rfl
  | kill v =>
    obtain rfl := Option.some.inj hstep
    cases hs : d.slots[v]? with
    | none => exact .of_slots_eq (List.modify_eq_self (List.getElem?_eq_none_iff.1 hs))
    | some s =>
      refine .of_set hs (modify_eq_set hs _) ?_ fun _ => ?_ <;> split <;> rfl
  | handle =>
    obtain ⟨event, rest, -, -, rfl⟩ := handle_step hstep
    exact rehousing_handleEvent d event rest
  | collect =>
    obtain ⟨-, -, rfl⟩ := collect_step hstep
    exact .of_slots_eq rfl
  | decide =>
    obtain ⟨v, rest, -, rfl⟩ := decide_step hstep
    exact .of_slots_eq rfl
  | respawn =>
    obtain ⟨v, rest, hcontrol, rfl⟩ := respawn_step hstep
    obtain ⟨s, hs, habsent⟩ := hd.resting hcontrol
    have houtside : s.phase.holdsDirectory = false := by rw [habsent]; rfl
    exact .of_set hs (modify_eq_set hs _) houtside.symm fun hholds => by
      cases houtside.symm.trans hholds
  | exit v =>
    obtain ⟨s, reason, error, hs, hphase, rfl⟩ := exit_step hstep
    exact .of_set hs ((post_slots _ _).trans (modify_eq_set hs _)) (by rw [hphase]; rfl)
      (fun _ => rfl) (post_scratch _ _)
  | _ => cases hworker

/-- A failed loading that a run shows is one that the construction of a context knows of. -/
def Tame (actions : List Action) : Prop :=
  ∀ w e, .load w (.error e) ∈ actions → e.isConstruction = true

/-- **Workers and directories stay together**, by induction on the run. -/
theorem housed_of_run (hd : Carried d) (h : Housed d) (htame : Tame actions)
    (hrun : d.run? actions = some d') : Housed d' := by
  induction actions generalizing d with
  | nil =>
    obtain rfl := Option.some.inj hrun
    exact h
  | cons action rest ih =>
    obtain ⟨next, hnext, hrest⟩ := Option.bind_eq_some_iff.1 hrun
    refine ih (hd.step hnext) (h.rehouse ?_) (fun w e he => htame w e (List.mem_cons_of_mem _ he)) hrest
    cases hworker : action.worker? with
    | some w =>
      refine rehousing_of_worker hworker hnext fun e he => ?_
      exact htame w e (he ▸ List.mem_cons_self)
    | none => exact rehousing_of_others hd hworker hnext

/-! ### Runs with a loader -/

end Dispatcher

/-- A loader that fails only by returning nothing or by raising an error, and whose programs have a name. -/
def Loader.Plain {σ : Type} (load : Loader σ) : Prop :=
  ∀ env s, match (load env s).1 with
    | .program program => ∃ name, program.name = .ok name
    | .nothing | .refused _ | .raised (.error _) => True
    | .raised .unknown => False

/-- A plain loader fails in no other way than the construction does. -/
theorem Loader.Plain.isConstruction {σ : Type} {load : Loader σ} (h : load.Plain) {env : WorkerEnv}
    {s : Scratch} {e : ContextFault} (he : Context.ofLoaded env (load env s).1 = .error e) :
    e.isConstruction = true := by
  have hplain := h env s
  cases hloaded : (load env s).1 with
  | program program =>
    rw [hloaded] at hplain he
    obtain ⟨name, hname⟩ := hplain
    rw [Context.ofLoaded, hname] at he
    cases he
  | nothing | refused message =>
    rw [hloaded] at he
    obtain rfl := Except.error.inj he
    rfl
  | raised exception =>
    rw [hloaded] at hplain he
    cases exception with
    | error message =>
      obtain rfl := Except.error.inj he
      rfl
    | unknown => exact hplain.elim

namespace Dispatcher

variable {c : Config} {d d' : Dispatcher} {action : Action} {actions : List Action}
variable {i w : ℕ} {s s' : Slot} {σ : Type} {load : Loader σ}

/-- What the loadings of a run come to is what the loader does for some worker and some directories. -/
def LoadedBy (load : Loader σ) (actions : List Action) : Prop :=
  ∀ w result, .load w result ∈ actions →
    ∃ env s, result = (Context.ofLoaded env (load env s).1).map fun _ => ()

/-- With a plain loader no context escapes. -/
theorem tame_of_plain (hplain : load.Plain) (hloaded : LoadedBy load actions) : Tame actions := by
  intro w e he
  obtain ⟨env, s, hresult⟩ := hloaded w (.error e) he
  cases hcontext : Context.ofLoaded env (load env s).1 with
  | ok context =>
    rw [hcontext] at hresult
    cases hresult
  | error fault =>
    rw [hcontext] at hresult
    obtain rfl := Except.error.inj hresult
    exact hplain.isConstruction hcontext

/-- The directories are those of the workers that have made theirs and have not given it up. -/
structure Lodged (d : Dispatcher) : Prop where
  exact : ∀ name, name ∈ d.scratch.names ↔ ∃ i s, d.slots[i]? = some s ∧
    s.phase.holdsDirectory = true ∧
    name = Scratch.directoryName (.ofNat i) s.workerGeneration
  nodup : d.scratch.names.Nodup
  /-- No two workers share one. -/
  distinct : ∀ i j s t, d.slots[i]? = some s → d.slots[j]? = some t →
    directory i s = directory j t → i = j
  /-- There is one for a slot at most. -/
  single : ∀ i < d.slots.length, ∀ g k, Scratch.directoryName (.ofNat i) g ∈ d.scratch.names →
    Scratch.directoryName (.ofNat i) k ∈ d.scratch.names → g = k
  /-- There is none for a slot whose next generation is about to be created. -/
  vacated : ∀ i rest, d.control = .respawning i rest →
    ∀ g, Scratch.directoryName (.ofNat i) g ∉ d.scratch.names
  /-- There is none when the call to stop has returned. -/
  cleared : d.stopCall = .returned → d.scratch.names = []

/-- **Every directory is that of a worker**, and every worker that holds a context has its own, in a run
that begins with no directories and with a plain loader, on a system that does not refuse to remove them.
There are no more workers than numbers for them. -/
theorem directories_follow_workers (hplain : load.Plain) (hloaded : LoadedBy load actions)
    (hempty : c.scratch.directories = [])
    (hremovable : ∀ worker generation, c.scratch.Removable (Scratch.directoryName worker generation))
    (hworkers : c.workerCount ≤ 2 ^ 32) (hrun : (new c).run? actions = some d) : Lodged d := by
  have hhoused := housed_of_run (carried_new c) (housed_new hempty hremovable hworkers)
    (tame_of_plain hplain hloaded) hrun
  have hcarried := carried_of_reachable (reachable_of_run hrun)
  have hunderway := (underway_new c).run hrun
  have hexact (name : String) := Scratch.mem_names.trans (hhoused.mem name)
  have howner (i : ℕ) (hi : i < d.slots.length) (g : UInt64)
      (hmem : Scratch.directoryName (.ofNat i) g ∈ d.scratch.names) :
      ∃ s, d.slots[i]? = some s ∧ s.phase.holdsDirectory = true ∧ g = s.workerGeneration := by
    obtain ⟨j, s, hs, hholds, hname⟩ := (hexact _).1 hmem
    obtain rfl := hhoused.index_eq hi (List.getElem?_eq_some_iff.1 hs).1 hname
    exact ⟨s, hs, hholds, (Scratch.directoryName_injective hname).2⟩
  refine {
    exact := hexact
    nodup := (List.mergeSort_perm _ _).nodup_iff.2 hhoused.nodup
    distinct := fun i j s t hs ht hname => hhoused.index_eq
      (List.getElem?_eq_some_iff.1 hs).1 (List.getElem?_eq_some_iff.1 ht).1 hname
    single := fun i hi g k hg hk => ?_
    vacated := fun i rest hcontrol g hmem => ?_
    cleared := fun hreturned => ?_ }
  · obtain ⟨s, hs, -, rfl⟩ := howner i hi g hg
    obtain ⟨t, ht, -, rfl⟩ := howner i hi k hk
    rw [Option.some.inj (hs.symm.trans ht)]
  · obtain ⟨s, hs, habsent⟩ := hcarried.resting hcontrol
    obtain ⟨t, ht, hholds, -⟩ := howner i (List.getElem?_eq_some_iff.1 hs).1 g hmem
    obtain rfl := Option.some.inj (hs.symm.trans ht)
    rw [habsent] at hholds
    cases hholds
  · have hshut := hunderway.closing.shutDown hunderway.orderly hreturned
    refine List.eq_nil_iff_forall_not_mem.2 fun name hmem => ?_
    obtain ⟨i, s, hs, hholds, -⟩ := (hexact name).1 hmem
    have hdead := (hshut.workers s (List.mem_of_getElem? hs)).1
    rw [Phase.eq_absent_of_isLive hdead] at hholds
    cases hholds

/-- A loader that has no program for the first generation of a worker. -/
def secondTry : Loader Unit := fun env s =>
  if env.generation = 0 then (.nothing, s)
  else (.program { name := .ok "stark", poke := fun _ shared => (.ok [], shared) }, s)

/-- The first worker finds no program and is replaced. Its second generation holds a context, while the
second worker has only made its directory. -/
def moving : List Action := [
  .start, .spawn, .spawn, .prepare 0, .load 0 (.error .noProgram), .exit 0, .handle, .respawn,
  .prepare 0, .load 0 (.ok ()), .prepare 1]

theorem directories_follow_workers_moving : ∃ d,
    secondTry.Plain ∧ LoadedBy secondTry moving ∧ pair.scratch.directories = [] ∧
    (∀ worker generation, pair.scratch.Removable (Scratch.directoryName worker generation)) ∧
    pair.workerCount ≤ 2 ^ 32 ∧ (new pair).run? moving = some d ∧ Lodged d ∧
    d.scratch.made = ["worker-0-gen-1", "worker-1-gen-0"] := by
  have hplain : secondTry.Plain := fun env s => by
    by_cases h : env.generation = 0
    · rw [secondTry, if_pos h]
      trivial
    · rw [secondTry, if_neg h]
      exact ⟨_, rfl⟩
  have hloaded : LoadedBy secondTry moving := fun w result h => by
    obtain ⟨-, rfl⟩ | ⟨-, rfl⟩ : w = 0 ∧ result = .error .noProgram ∨ w = 0 ∧ result = .ok () := by
      simpa [moving] using h
    · exact ⟨{}, {}, rfl⟩
    · exact ⟨{ generation := 1 }, {}, rfl⟩
  have hremovable : ∀ worker generation,
      pair.scratch.Removable (Scratch.directoryName worker generation) := fun _ _ => rfl
  have hrun : (new pair).run? moving = some _ := rfl
  have hlodged := directories_follow_workers hplain hloaded rfl hremovable (by decide) hrun
  exact ⟨_, hplain, hloaded, rfl, hremovable, by decide, hrun, hlodged, rfl⟩

end Dispatcher
end ProofMiner
