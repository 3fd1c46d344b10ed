/-
# One generation after the other

While the dispatcher runs, something always carries a slot on, and only one thing at a time
(`carriers`): its worker, or the event that reports the worker's end, or a restart that was decided on,
or, when no restart is allowed any more, nothing but the slot's retirement.

To follow a slot through its generations, a run is observed for the workers that are created, that
end, and that replace an earlier one (`lifecycle`). The account of a slot puts these counts beside
what waits for the slot in the mailbox and with the control loop, and a slot is tended if the two fit
(`Tended`). Each kind of step moves one slot from one stand to the next, which is one lemma about a
slot and its account, or touches no account at all.
-/

import Mathlib.Algebra.BigOperators.Fin
import ProofMiner.Proofs.Supervisor.Runs

namespace ProofMiner

/-- Something that happens to the worker of a slot. -/
inductive Lifecycle where
  | created (worker : ℕ)
  /-- The next generation replaces one that has ended. -/
  | restarted (worker : ℕ)
  /-- It takes its last step. -/
  | ended (worker : ℕ)
  deriving DecidableEq, Repr

/-- The worker that an event is about. -/
def Lifecycle.worker : Lifecycle → ℕ
  | created w | restarted w | ended w => w

/-- The generation whose end an event reports, if it is one of the given worker. -/
def Event.exit? (worker : ℕ) : Event → Option UInt64
  | .exited w generation _ _ => if w = worker then some generation else none
  | _ => none

/-- The workers that the control loop is about to restart. -/
def Control.workers : Control → List ℕ
  | restarting workers => workers
  | respawning worker rest => worker :: rest
  | absent | waiting | ended => []

/-- What carries a slot on. -/
inductive Carrier where
  /-- A worker of this generation. -/
  | worker (generation : UInt64)
  /-- The event that reports the end of this generation. -/
  | exit (generation : UInt64)
  /-- A restart that was decided on. -/
  | restart
  /-- Nothing will, as no restart is allowed any more. -/
  | retirement
  deriving DecidableEq, Repr

/-- All that carries a slot on, with the given exit events and restarts that wait. -/
def Slot.carriers (s : Slot) (p : RestartPolicy) (exits : List UInt64) (due : ℕ) : List Carrier :=
  (if s.phase.isLive then [.worker s.workerGeneration] else []) ++ exits.map .exit ++
    List.replicate due .restart ++
    if s.status = .terminated ∧ p.allows s.restarts = false then [.retirement] else []

/-! ### The account of a slot -/

/-- What is known of a slot from outside of it. -/
@[ext]
structure Account where
  /-- The call to start has created its first worker. -/
  spawned : Bool
  /-- The generations of its exit events in the mailbox. -/
  exits : List UInt64
  /-- The restarts that were decided on and are not carried out. -/
  due : ℕ
  created : ℕ
  restarted : ℕ
  ended : ℕ

/-- How a slot can stand. -/
inductive Stand (p : RestartPolicy) (s : Slot) (a : Account) : Prop where
  | unspawned (spawned : a.spawned = false) (live : s.phase.isLive = false) (exits : a.exits = [])
    (due : a.due = 0) (status : s.status = .terminated) (restarted : a.restarted = 0)
  | working (spawned : a.spawned = true) (live : s.phase.isLive = true) (exits : a.exits = [])
    (due : a.due = 0) (status : s.status ≠ .terminated)
    (generation : s.workerGeneration = s.generation)
  | reported (spawned : a.spawned = true) (live : s.phase.isLive = false)
    (exits : a.exits = [s.generation]) (due : a.due = 0) (status : s.status ≠ .terminated)
  | awaiting (spawned : a.spawned = true) (live : s.phase.isLive = false) (exits : a.exits = [])
    (due : a.due = 1) (status : s.status = .terminated) (allowed : p.allows s.restarts = true)
  | retired (spawned : a.spawned = true) (live : s.phase.isLive = false) (exits : a.exits = [])
    (due : a.due = 0) (status : s.status = .terminated) (refused : p.allows s.restarts = false)

/-- A slot fits its account. -/
structure Tended (p : RestartPolicy) (s : Slot) (a : Account) : Prop where
  stand : Stand p s a
  generation : s.generation = .ofNat a.restarted
  restarts : s.restarts = .ofNat a.restarted
  ceiling : p.maxRestarts ≠ 0 → a.restarted ≤ p.maxRestarts.toNat
  created : a.created = a.restarted + a.spawned.toNat
  ended : a.created = a.ended + s.phase.isLive.toNat

/-- Two states of a slot that differ in what its worker, if there is one, does. -/
structure Slot.Akin (s s' : Slot) : Prop where
  live : s'.phase.isLive = s.phase.isLive
  status : s'.status = s.status ∨ (s.phase.isLive = true ∧ s'.status = .running)
  generation : s'.generation = s.generation
  restarts : s'.restarts = s.restarts
  workerGeneration : s'.workerGeneration = s.workerGeneration

/-- A slot is akin to itself. -/
theorem Slot.Akin.refl (s : Slot) : s.Akin s := ⟨rfl, .inl rfl, rfl, rfl, rfl⟩

/-- The status can only change while there is a worker. -/
theorem Slot.Akin.status_eq {s s' : Slot} (h : s.Akin s') (hlive : s.phase.isLive = false) :
    s'.status = s.status :=
  h.status.resolve_right fun hrunning => by cases hlive.symm.trans hrunning.1

theorem Slot.Akin.status_ne {s s' : Slot} (h : s.Akin s') (hstatus : s.status ≠ .terminated) :
    s'.status ≠ .terminated := by
  rcases h.status with heq | ⟨-, hrunning⟩
  · rwa [heq]
  · simp [hrunning]

/-- One restart more stays below the ceiling if it is allowed. -/
theorem RestartPolicy.lt_of_allows {p : RestartPolicy} {n : ℕ} (hlimit : p.maxRestarts ≠ 0)
    (hn : n ≤ p.maxRestarts.toNat) (h : p.allows (.ofNat n) = true) : n < p.maxRestarts.toNat := by
  have hlt : UInt32.ofNat n < p.maxRestarts := by
    simpa [allows, hlimit] using h
  rwa [UInt32.lt_iff_toNat_lt, UInt32.toNat_ofNat_of_lt' (hn.trans_lt p.maxRestarts.toNat_lt)]
    at hlt

namespace Tended

variable {p : RestartPolicy} {s s' : Slot} {a : Account}

/-- What happens inside a worker is no matter of its account. -/
theorem akin (h : Tended p s a) (hakin : s.Akin s') : Tended p s' a where
  stand := by
    have hlive := hakin.live
    cases h.stand with
    | unspawned spawned live exits due status restarted =>
      exact .unspawned spawned (hlive.trans live) exits due ((hakin.status_eq live).trans status)
        restarted
    | working spawned live exits due status generation =>
      refine .working spawned (hlive.trans live) exits due (hakin.status_ne status) ?_
      rw [hakin.workerGeneration, hakin.generation, generation]
    | reported spawned live exits due status =>
      exact .reported spawned (hlive.trans live) (hakin.generation ▸ exits) due
        (hakin.status_ne status)
    | awaiting spawned live exits due status allowed =>
      exact .awaiting spawned (hlive.trans live) exits due ((hakin.status_eq live).trans status)
        (hakin.restarts ▸ allowed)
    | retired spawned live exits due status refused =>
      exact .retired spawned (hlive.trans live) exits due ((hakin.status_eq live).trans status)
        (hakin.restarts ▸ refused)
  generation := hakin.generation.trans h.generation
  restarts := hakin.restarts.trans h.restarts
  ceiling := h.ceiling
  created := h.created
  ended := hakin.live ▸ h.ended

/-- The call to start creates a worker. -/
theorem spawn (h : Tended p s a) (hspawned : a.spawned = false) :
    Tended p { s with
      status := .starting, completedAttempt := false, cancelled := false, phase := .preparing
      workerGeneration := s.generation } { a with spawned := true, created := a.created + 1 } := by
  cases h.stand with
  | unspawned spawned live exits due status restarted =>
    have hcreated := h.created
    have hended := h.ended
    rw [spawned, restarted] at hcreated
    rw [live] at hended
    exact {
      stand := .working rfl rfl exits due (by simp) rfl
      generation := h.generation
      restarts := h.restarts
      ceiling := h.ceiling
      created := congrArg (· + 1) (hcreated.trans restarted.symm)
      ended := congrArg (· + 1) hended }
  | _ => simp_all

/-- The worker takes its last step. -/
theorem exit (h : Tended p s a) (hlive : s.phase.isLive = true) :
    Tended p { s with phase := .absent }
      { a with exits := a.exits ++ [s.workerGeneration], ended := a.ended + 1 } := by
  cases h.stand with
  | working spawned live exits due status generation =>
    have hended := h.ended
    rw [live] at hended
    exact { h with
      stand := .reported spawned rfl (by rw [exits, generation]; rfl) due status
      ended := hended }
  | _ => simp_all

/-- The end of the worker is put down, and there is no restart. -/
theorem retire {generation : UInt64} {rest : List UInt64} (h : Tended p s a)
    (hexits : a.exits = generation :: rest) (hrefused : p.allows s.restarts = false)
    (reason : ExitReason) (error : String) :
    Tended p (s.ended reason error) { a with exits := rest } := by
  cases h.stand with
  | reported spawned live exits due status =>
    obtain ⟨-, rfl⟩ := List.cons.inj (hexits.symm.trans exits)
    exact { h with stand := .retired spawned live rfl due rfl hrefused }
  | _ => simp_all

/-- The end of the worker is put down, and a restart is decided on. -/
theorem await {generation : UInt64} {rest : List UInt64} (h : Tended p s a)
    (hexits : a.exits = generation :: rest) (hallowed : p.allows s.restarts = true)
    (reason : ExitReason) (error : String) :
    Tended p (s.ended reason error) { a with exits := rest, due := a.due + 1 } := by
  cases h.stand with
  | reported spawned live exits due status =>
    obtain ⟨-, rfl⟩ := List.cons.inj (hexits.symm.trans exits)
    exact { h with stand := .awaiting spawned live rfl (congrArg (· + 1) due) rfl hallowed }
  | _ => simp_all

/-- An event reports the end of the present generation. -/
theorem generation_eq {generation : UInt64} (h : Tended p s a) (hmem : generation ∈ a.exits) :
    generation = s.generation := by
  cases h.stand with
  | reported spawned live exits due status =>
    exact List.mem_singleton.1 (exits ▸ hmem)
  | _ => simp_all

/-- The next generation begins. -/
theorem respawn {n : ℕ} (h : Tended p s a) (hdue : a.due = n + 1) :
    Tended p (Dispatcher.nextGeneration s)
      { a with due := n, created := a.created + 1, restarted := a.restarted + 1 } := by
  cases h.stand with
  | awaiting spawned live exits due status allowed =>
    have hended := h.ended
    rw [live] at hended
    refine {
      stand := .working spawned rfl exits (Nat.succ.inj (hdue.symm.trans due))
        (by simp [Dispatcher.nextGeneration]) rfl
      generation := ?_
      restarts := ?_
      ceiling := fun hlimit => ?_
      created := ?_
      ended := congrArg (· + 1) hended }
    · exact (congrArg (· + 1) h.generation).trans (UInt64.ofNat_add _ 1).symm
    · exact (congrArg (· + 1) h.restarts).trans (UInt32.ofNat_add _ 1).symm
    · exact RestartPolicy.lt_of_allows hlimit (h.ceiling hlimit) (h.restarts ▸ allowed)
    · rw [h.created]
      exact Nat.add_right_comm _ _ _
  | _ => simp_all

/-- One thing carries the slot on. -/
theorem carriers_mem (h : Tended p s a) (hspawned : a.spawned = true) :
    s.carriers p a.exits a.due ∈
      [[.worker s.generation], [.exit s.generation], [.restart], [.retirement]] := by
  cases h.stand with
  | unspawned spawned => cases spawned.symm.trans hspawned
  | working spawned live exits due status generation =>
    simp [Slot.carriers, live, exits, due, status, generation]
  | reported spawned live exits due status => simp [Slot.carriers, live, exits, due, status]
  | awaiting spawned live exits due status allowed =>
    simp [Slot.carriers, live, exits, due, allowed]
  | retired spawned live exits due status refused =>
    simp [Slot.carriers, live, exits, due, status, refused]

/-- Each restart comes after an end of its own. -/
theorem restarted_le (h : Tended p s a) : a.restarted ≤ a.ended := by
  have hbalance := h.created.symm.trans h.ended
  cases h.stand with
  | unspawned spawned live exits due status restarted =>
    rw [restarted]
    exact Nat.zero_le _
  | working spawned | reported spawned | awaiting spawned | retired spawned =>
    rw [spawned] at hbalance
    have hlive := Bool.toNat_le s.phase.isLive
    simp only [Bool.toNat_true] at hbalance
    omega

/-- The counter is exact as long as it does not wrap. -/
theorem toNat_restarts (h : Tended p s a) (hlt : a.restarted < 2 ^ 32) :
    s.restarts.toNat = a.restarted := by
  rw [h.restarts, UInt32.toNat_ofNat_of_lt' hlt]

/-- The generation counts the restarts. -/
theorem toNat_generation (h : Tended p s a) (hlt : a.restarted < 2 ^ 32) :
    s.generation.toNat = a.restarted := by
  rw [h.generation, UInt64.toNat_ofNat_of_lt' (hlt.trans (by decide))]

end Tended

namespace Dispatcher

variable {c : Config} {d d' : Dispatcher} {action : Action} {actions : List Action}
variable {h shown : List Lifecycle} {i w : ℕ} {s s' : Slot}

/-! ### What is observed -/

/-- What a step shows of workers. -/
def lifecycle (d : Dispatcher) (action : Action) (_ : Dispatcher) : List Lifecycle :=
  match action with
  | .spawn => [.created d.spawned]
  | .respawn =>
    match d.control with
    | .respawning w _ => [.restarted w, .created w]
    | _ => []
  | .exit w => [.ended w]
  | _ => []

/-- The generations of a worker whose ends are reported in the mailbox. -/
def exits (d : Dispatcher) (worker : ℕ) : List UInt64 := d.mailbox.filterMap (Event.exit? worker)

/-- The restarts of a worker that were decided on, now or for later. -/
def due (d : Dispatcher) (worker : ℕ) : ℕ :=
  (d.pending.map PendingRestart.worker ++ d.control.workers).count worker

/-- The account of a slot after `h`, which is all that was shown of workers so far. -/
def account (d : Dispatcher) (h : List Lifecycle) (worker : ℕ) : Account where
  spawned := decide (worker < d.spawned)
  exits := d.exits worker
  due := d.due worker
  created := h.count (.created worker)
  restarted := h.count (.restarted worker)
  ended := h.count (.ended worker)

/-- Every slot fits its account, and nothing is due for a slot that there is not. -/
structure Supervised (p : RestartPolicy) (d : Dispatcher) (h : List Lifecycle) : Prop where
  policy : d.policy = p
  slot : ∀ (i : ℕ) (s : Slot), d.slots[i]? = some s → Tended p s (d.account h i)
  none : ∀ i, d.slots.length ≤ i → d.exits i = [] ∧ d.due i = 0
  total : d.totals.restarts = ∑ i ∈ Finset.range d.slots.length, h.count (.restarted i)

/-- No worker is created in the beginning. -/
theorem supervised_new (c : Config) : Supervised c.policy (new c) [] where
  policy := rfl
  slot i s hs := by
    obtain rfl := List.eq_of_mem_replicate (List.mem_of_getElem? hs)
    exact {
      stand := .unspawned rfl rfl rfl rfl rfl rfl
      generation := rfl
      restarts := rfl
      ceiling := fun _ => Nat.zero_le _
      created := rfl
      ended := rfl }
  none _ _ := ⟨rfl, rfl⟩
  total := Finset.sum_const_zero.symm

/-- A step that touches no account. -/
theorem Supervised.akin {p : RestartPolicy} (hd : Supervised p d h)
    (hslots : ∀ (i : ℕ) (s' : Slot), d'.slots[i]? = some s' → ∃ s, d.slots[i]? = some s ∧ s.Akin s')
    (hlength : d'.slots.length = d.slots.length)
    (hexits : ∀ i, d'.exits i = d.exits i) (hdue : ∀ i, d'.due i = d.due i)
    (hspawned : d'.spawned = d.spawned := by rfl)
    (htotal : d'.totals.restarts = d.totals.restarts := by rfl)
    (hpolicy : d'.policy = d.policy := by rfl) : Supervised p d' (h ++ []) := by
  have haccount (i : ℕ) : d'.account (h ++ []) i = d.account h i := by
    rw [account, account, hexits, hdue, hspawned, List.append_nil]
  refine ⟨hpolicy.trans hd.policy, fun i s' hs' => ?_, fun i hi => ?_, ?_⟩
  · obtain ⟨s, hs, hakin⟩ := hslots i s' hs'
    rw [haccount]
    exact (hd.slot i s hs).akin hakin
  · rw [hexits, hdue]
    exact hd.none i (hlength ▸ hi)
  · rw [htotal, hlength, List.append_nil]
    exact hd.total

/-- A step that leaves the slots as they are, and touches no account. -/
theorem Supervised.same {p : RestartPolicy} (hd : Supervised p d h)
    (hexits : ∀ i, d'.exits i = d.exits i := by exact fun _ => rfl)
    (hdue : ∀ i, d'.due i = d.due i := by exact fun _ => rfl)
    (hslots : d'.slots = d.slots := by rfl) (hspawned : d'.spawned = d.spawned := by rfl)
    (htotal : d'.totals.restarts = d.totals.restarts := by rfl)
    (hpolicy : d'.policy = d.policy := by rfl) : Supervised p d' (h ++ []) :=
  hd.akin (fun _ s hs => ⟨s, hslots ▸ hs, .refl s⟩) (by rw [hslots]) hexits hdue hspawned htotal
    hpolicy

/-- A step that touches the account of one slot. -/
theorem Supervised.update {p : RestartPolicy} {a : Account} (hd : Supervised p d h)
    (hs : d.slots[w]? = some s) (hslots : d'.slots = d.slots.set w s') (htended : Tended p s' a)
    (haccount : d'.account (h ++ shown) w = a) (hshown : ∀ e ∈ shown, e.worker = w)
    (htotal : d'.totals.restarts = d.totals.restarts + shown.count (.restarted w))
    (hexits : ∀ i ≠ w, d'.exits i = d.exits i := by exact fun _ _ => rfl)
    (hdue : ∀ i ≠ w, d'.due i = d.due i := by exact fun _ _ => rfl)
    (hspawned : ∀ i ≠ w, (i < d'.spawned ↔ i < d.spawned) := by exact fun _ _ => .rfl)
    (hpolicy : d'.policy = d.policy := by rfl) : Supervised p d' (h ++ shown) := by
  have hw : w < d.slots.length := (List.getElem?_eq_some_iff.1 hs).1
  have hcount (e : Lifecycle) (he : e.worker ≠ w) : (h ++ shown).count e = h.count e := by
    rw [List.count_append, List.count_eq_zero_of_not_mem fun hmem => he (hshown e hmem),
      Nat.add_zero]
  have hothers (i : ℕ) (hi : i ≠ w) : d'.account (h ++ shown) i = d.account h i := by
    rw [account, account, hexits i hi, hdue i hi, decide_eq_decide.2 (hspawned i hi),
      hcount (.created i) hi, hcount (.restarted i) hi, hcount (.ended i) hi]
  refine ⟨hpolicy.trans hd.policy, fun i t ht => ?_, fun i hi => ?_, ?_⟩
  · rw [hslots, List.getElem?_set] at ht
    split at ht
    next heq =>
      obtain rfl := Option.some.inj ht
      exact heq ▸ haccount ▸ htended
    next hne =>
      rw [hothers i (Ne.symm hne)]
      exact hd.slot i t ht
  · rw [hslots, List.length_set] at hi
    have hne : i ≠ w := by omega
    rw [hexits i hne, hdue i hne]
    exact hd.none i hi
  · have hrestarted (i : ℕ) : (h ++ shown).count (.restarted i) =
        h.count (.restarted i) + if i = w then shown.count (.restarted w) else 0 := by
      split_ifs with heq
      · rw [heq, List.count_append]
      · exact hcount (.restarted i) heq
    rw [htotal, hd.total, hslots, List.length_set, Finset.sum_congr rfl fun i _ => hrestarted i,
      Finset.sum_add_distrib, Finset.sum_ite_eq', if_pos (Finset.mem_range.2 hw)]

/-! ### The steps that carry a slot on -/

/-- The call to start creates a worker. -/
theorem Supervised.spawn {p : RestartPolicy} (hd : Supervised p d h)
    (hlt : d.spawned < d.slots.length) :
    Supervised p { d.spawnWorker d.spawned with spawned := d.spawned + 1 }
      (h ++ [.created d.spawned]) := by
  have hs := List.getElem?_eq_getElem hlt
  have htended := (hd.slot _ _ hs).spawn (decide_eq_false (lt_irrefl _))
  refine hd.update hs (modify_eq_set hs _) htended (Account.ext ?_ rfl rfl ?_ ?_ ?_) ?_ rfl
    (fun _ _ => rfl) (fun _ _ => rfl) fun i hi => ?_
  · exact decide_eq_true (Nat.lt_succ_self _)
  · simp [account]
  · simp [account]
  · simp [account]
  · simp [Lifecycle.worker]
  · exact Nat.lt_succ_iff_lt_or_eq.trans (or_iff_left hi)

/-- A worker takes its last step, and its end is reported. -/
theorem Supervised.exit {p : RestartPolicy} (hd : Supervised p d h) (hended : d.control ≠ .ended)
    {reason : ExitReason} {error : String} (hs : d.slots[w]? = some s)
    (hphase : s.phase = .leaving reason error) :
    Supervised p ((d.modifySlot w fun s => { s with phase := .absent }).post
      (.exited w s.workerGeneration reason error)) (h ++ [.ended w]) := by
  have hopen : (d.modifySlot w fun s => { s with phase := .absent }).control ≠ .ended := hended
  have hmailbox (i : ℕ) (hi : i ≠ w) :
      (d.mailbox ++ [Event.exited w s.workerGeneration reason error]).filterMap (Event.exit? i) =
        d.exits i := by
    simp [exits, Event.exit?, hi.symm]
  have htended := (hd.slot _ _ hs).exit (by rw [hphase]; rfl)
  rw [post_of_ne_ended hopen]
  refine hd.update hs (modify_eq_set hs _) htended (Account.ext rfl ?_ rfl ?_ ?_ ?_) ?_ rfl hmailbox
  · simp [account, exits, modifySlot, Event.exit?]
  · simp [account]
  · simp [account]
  · simp [account]
  · simp [Lifecycle.worker]

/-- The end of a worker is handled. -/
theorem Supervised.handleExit {p : RestartPolicy} (hd : Supervised p d h)
    (hcall : d.stopCall = .none) (hcontrol : d.control = .waiting) {generation : UInt64}
    {reason : ExitReason} {error : String} {rest : List Event}
    (hmailbox : d.mailbox = .exited w generation reason error :: rest) :
    Supervised p (d.handleEvent (.exited w generation reason error) rest) (h ++ []) := by
  have hexits : d.exits w = generation :: rest.filterMap (Event.exit? w) := by
    simp [exits, hmailbox, Event.exit?]
  have hothers (i : ℕ) (hi : i ≠ w) : rest.filterMap (Event.exit? i) = d.exits i := by
    simp [exits, hmailbox, Event.exit?, hi.symm]
  have hcount (e : Lifecycle) : (h ++ []).count e = h.count e := by rw [List.append_nil]
  rcases handleExit_cases { d with mailbox := rest } w generation reason error with
    ⟨hold, -⟩ | ⟨s, hs, -, ⟨hquiet, heq⟩ | ⟨-, hallowed, ⟨due, heq⟩ | heq⟩⟩
  · -- The event is of the present generation of a slot, so it is not passed over.
    cases hs : d.slots[w]? with
    | none =>
      have hnone := (hd.none w (List.getElem?_eq_none_iff.1 hs)).1
      cases hexits.symm.trans hnone
    | some s =>
      have hgeneration := (hd.slot w s hs).generation_eq (a := d.account h w)
        (hexits ▸ List.mem_cons_self)
      exact absurd hgeneration.symm (hold s hs)
  · have hrefused : d.policy.allows s.restarts = false := by
      simpa [stopping, hcall] using hquiet
    have htended := (hd.slot _ _ hs).retire hexits (hd.policy ▸ hrefused) reason error
    rw [handleEvent, heq]
    exact hd.update hs rfl htended (Account.ext rfl rfl rfl (hcount _) (hcount _) (hcount _))
      (by simp) rfl hothers
  · have htended := (hd.slot _ _ hs).await hexits (hd.policy ▸ hallowed) reason error
    rw [handleEvent, heq]
    refine hd.update hs rfl htended (Account.ext rfl rfl ?_ (hcount _) (hcount _) (hcount _))
      (by simp) rfl hothers fun i hi => ?_
    · simp only [account, Dispatcher.due, List.map_append, List.count_append, List.map_singleton,
        List.count_singleton_self]
      omega
    · simp [Dispatcher.due, hi.symm]
  · have htended := (hd.slot _ _ hs).await hexits (hd.policy ▸ hallowed) reason error
    rw [handleEvent, heq]
    refine hd.update hs rfl htended (Account.ext rfl rfl ?_ (hcount _) (hcount _) (hcount _))
      (by simp) rfl hothers fun i hi => ?_
    · simp [account, Dispatcher.due, hcontrol, Control.workers]
    · simp [Dispatcher.due, hcontrol, Control.workers, hi.symm]

/-- The slots that are left to be restarted. -/
theorem workers_afterRestart (workers : List ℕ) : (afterRestart workers).workers = workers := by
  cases workers <;> rfl

/-- The next generation of a worker begins. -/
theorem Supervised.respawn {p : RestartPolicy} (hd : Supervised p d h) {rest : List ℕ}
    (hcontrol : d.control = .respawning w rest) :
    Supervised p { d with
        slots := d.slots.modify w nextGeneration
        totals.restarts := d.totals.restarts + 1, control := afterRestart rest }
      (h ++ [.restarted w, .created w]) := by
  have hdue : d.due w = (d.pending.map PendingRestart.worker ++ rest).count w + 1 := by
    simp [due, hcontrol, Control.workers, Nat.add_assoc]
  have hlt : w < d.slots.length := by
    by_contra hge
    have hnone := (hd.none w (Nat.not_lt.1 hge)).2
    omega
  have hs := List.getElem?_eq_getElem hlt
  have htended := (hd.slot _ _ hs).respawn hdue
  refine hd.update hs (modify_eq_set hs _) htended (Account.ext rfl rfl ?_ ?_ ?_ ?_) ?_ ?_
    (fun _ _ => rfl) fun i hi => ?_
  · rw [account, due, workers_afterRestart]
  · simp [account]
  · simp [account]
  · simp [account]
  · simp [Lifecycle.worker]
  · simp
  · rw [due, due, workers_afterRestart, hcontrol]
    simp [Control.workers, hi.symm]

/-! ### The other steps -/

/-- To turn to the restarts whose delay has passed leaves the same restarts due. -/
theorem count_due_collect (pending : List PendingRestart) (clock : ℤ) (i : ℕ) :
    ((pending.filter fun q => !decide (q.due.toInt ≤ clock)).map PendingRestart.worker ++
      (pending.filter fun q => decide (q.due.toInt ≤ clock)).map PendingRestart.worker).count i =
    (pending.map PendingRestart.worker).count i := by
  rw [← List.map_append]
  refine List.Perm.count_eq (List.Perm.map _ ?_) i
  exact List.perm_append_comm.trans (List.filter_append_perm _ pending)

/-- A step of a worker other than its last one touches no account. -/
theorem WorkerStep.supervised {p : RestartPolicy} (hstep : WorkerStep d w s s' d')
    (hd : Supervised p d h) : Supervised p d' (h ++ []) := by
  refine hd.akin (fun i t ht => ?_) (by rw [hstep.slots, List.length_set]) (fun i => ?_)
    (fun i => ?_) ?_ ?_ ?_
  · rw [hstep.slots, List.getElem?_set] at ht
    split at ht
    next heq =>
      obtain rfl := Option.some.inj (Option.ite_none_right_eq_some.1 ht).2
      exact ⟨s, heq ▸ hstep.slot, hstep.live'.trans hstep.live.symm,
        hstep.status.imp_right fun hrunning => ⟨hstep.live, hrunning⟩, hstep.generation,
        hstep.restarts, hstep.workerGeneration⟩
    next => exact ⟨t, ht, .refl t⟩
  · rw [exits, hstep.frame]
    rfl
  · rw [due, hstep.frame]
    rfl
  · rw [hstep.frame]
  · rw [hstep.totals]
  · rw [hstep.frame]

/-- A candidate is handled. -/
theorem Supervised.handleCandidate {p : RestartPolicy} (hd : Supervised p d h) {x : Candidate}
    {rest : List Event} (hmailbox : d.mailbox = .candidate x :: rest) :
    Supervised p (d.handleEvent (.candidate x) rest) (h ++ []) := by
  have hexits (i : ℕ) : rest.filterMap (Event.exit? i) = d.exits i := by
    rw [exits, hmailbox]
    rfl
  rcases handleCandidate_cases { d with mailbox := rest } x with
    ⟨-, heq⟩ | ⟨-, -, -, heq⟩ | ⟨-, -, -, heq⟩ | ⟨-, -, heq⟩ <;>
    rw [handleEvent, heq] <;> exact hd.same hexits

/-- A delivery reaches the mailbox. -/
theorem Supervised.arrive {p : RestartPolicy} (hd : Supervised p d h) (x : Candidate)
    (delivering : List Candidate) :
    Supervised p ({ d with delivering }.post (.candidate x)) (h ++ []) := by
  unfold post
  split
  · exact hd.same
  · refine hd.same fun i => ?_
    simp [exits, Event.exit?]

/-- **A step tends every slot**, as long as nobody asks the dispatcher to stop. -/
theorem Supervised.step {p : RestartPolicy} (hd : d.stopCall = .none → Supervised p d h)
    (ho : Orderly d) (hstep : d.step? action = some d') (hcall' : d'.stopCall = .none) :
    Supervised p d' (h ++ lifecycle d action d') := by
  -- No step takes a call to stop back, so `hcall'` says the same of `d` wherever `hd` is used.
  cases hworker : action.worker? with
  | some w =>
    have hshown : lifecycle d action d' = [] := by
      cases action with
      | prepare | load | take | finish | emit => rfl
      | _ => cases hworker
    rw [hshown]
    rcases worker_step hworker hstep with ⟨s, s', hquiet⟩ | ⟨-, s, s', x, rest, htaking⟩
    · rw [hquiet.frame] at hcall'
      exact hquiet.supervised (hd hcall')
    · rw [htaking.frame] at hcall'
      exact htaking.supervised (hd hcall')
  | none =>
    cases action with
    | start =>
      obtain rfl := Option.some.inj hstep
      by_cases hon : d.started = true
      · rw [if_pos hon] at hcall' ⊢
        exact (hd hcall').same
      · rw [if_neg hon] at hcall' ⊢
        refine (hd hcall').same (fun _ => rfl) fun i => ?_
        rw [due, due, (ho.unstarted (Bool.eq_false_iff.2 hon)).1]
        rfl
    | spawn =>
      obtain ⟨-, hlt, rfl⟩ := spawn_step hstep
      exact (hd hcall').spawn hlt
    | stop =>
      rcases stop_step hstep with ⟨-, rfl⟩ | ⟨-, -, -, rfl⟩
      · exact (hd hcall').same
      · cases hcall'
    | postStop =>
      obtain ⟨-, rfl⟩ := postStop_step hstep
      cases hcall'
    | cancelWorkers =>
      obtain ⟨-, -, rfl⟩ := cancelWorkers_step hstep
      cases hcall'
    | closeQueue =>
      obtain ⟨-, rfl⟩ := closeQueue_step hstep
      cases hcall'
    | join =>
      obtain ⟨worker, -, ⟨-, rfl⟩ | ⟨s, -, -, rfl⟩⟩ := join_step hstep <;> cases hcall'
    | deliver x =>
      obtain rfl := Option.some.inj hstep
      by_cases hstopping : d.stopping = true
      · rw [if_pos hstopping] at hcall' ⊢
        exact (hd hcall').same
      · rw [if_neg hstopping] at hcall' ⊢
        exact (hd hcall').same
    | arrive i =>
      obtain ⟨x, -, rfl⟩ := arrive_step hstep
      have hcalls := post_calls { d with delivering := d.delivering.eraseIdx i } (.candidate x)
      exact (hd (hcalls.stopCall.symm.trans hcall')).arrive x _
    | enable on =>
      obtain rfl := Option.some.inj hstep
      exact (hd hcall').same
    | kill w =>
      obtain rfl := Option.some.inj hstep
      refine (hd hcall').akin (fun i s' hs' => ?_) (List.length_modify ..) (fun _ => rfl)
        fun _ => rfl
      rw [modifySlot, List.getElem?_modify] at hs'
      obtain ⟨s, hs, rfl⟩ := Option.map_eq_some_iff.1 hs'
      refine ⟨s, hs, ?_⟩
      repeat' split
      all_goals exact ⟨rfl, .inl rfl, rfl, rfl, rfl⟩
    | handle =>
      obtain ⟨event, rest, hcontrol, hmailbox, rfl⟩ := handle_step hstep
      have hcall : d.stopCall = .none := (handleEvent_calls d event rest).stopCall ▸ hcall'
      cases event with
      | candidate x => exact (hd hcall).handleCandidate hmailbox
      | exited w generation reason error =>
        exact (hd hcall).handleExit hcall hcontrol hmailbox
      | stop => exact absurd List.mem_cons_self (hmailbox ▸ (ho.serving (.inl hcall)).2)
    | collect =>
      obtain ⟨hcontrol, -, rfl⟩ := collect_step hstep
      refine (hd hcall').same (fun _ => rfl) fun i => ?_
      rw [due, due, hcontrol]
      exact (count_due_collect d.pending d.clock i).trans (by rw [Control.workers, List.append_nil])
    | decide =>
      obtain ⟨worker, rest, hcontrol, rfl⟩ := decide_step hstep
      have hgoing : d.stopping = false := decide_eq_false (not_not.2 hcall')
      refine (hd hcall').same (fun _ => rfl) fun i => ?_
      rw [due, due, hcontrol, hgoing]
      rfl
    | respawn =>
      obtain ⟨worker, rest, hcontrol, rfl⟩ := respawn_step hstep
      rw [lifecycle, hcontrol]
      exact (hd hcall').respawn hcontrol
    | exit w =>
      obtain ⟨s, reason, error, hs, hphase, rfl⟩ := exit_step hstep
      have hcall : d.stopCall = .none := (post_calls (d.modifySlot w _) _).stopCall ▸ hcall'
      exact (hd hcall).exit (ho.serving (.inl hcall)).1 hs hphase
    | wait ms =>
      obtain rfl := Option.some.inj hstep
      exact (hd hcall').same
    | _ => cases hworker

/-- Every slot fits its account after a run, if nobody has asked the dispatcher to stop. -/
theorem supervised_of_run (hrun : (new c).run? actions = some d) (hcall : d.stopCall = .none) :
    Supervised c.policy d (observed lifecycle (new c) actions) := by
  have hboth := run_induction lifecycle
    (fun d h => Orderly d ∧ (d.stopCall = .none → Supervised c.policy d h))
    (fun _ _ _ _ hd hstep => ⟨hd.1.step hstep, Supervised.step hd.2 hd.1 hstep⟩)
    ⟨orderly_new c, fun _ => supervised_new c⟩ hrun
  exact hboth.2 hcall

/-- How the generations of all slots follow each other in a run that shows `h` of them and ends in
`d`. -/
structure Successive (c : Config) (d : Dispatcher) (h : List Lifecycle) : Prop where
  /-- One thing carries each slot on: its worker, or the event that reports its end, which are both of
  the present generation, or a restart, or its retirement. -/
  carried : ∀ (i : ℕ) (s : Slot), d.slots[i]? = some s → i < d.spawned →
    s.carriers c.policy (d.exits i) (d.due i) ∈
      [[.worker s.generation], [.exit s.generation], [.restart], [.retirement]]
  /-- All workers but at most one have ended. -/
  oneWorker : ∀ (i : ℕ) (s : Slot), d.slots[i]? = some s →
    h.count (.created i) = h.count (.ended i) + s.phase.isLive.toNat
  /-- There is at most one restart for each end. -/
  oneRestart : ∀ (i : ℕ) (s : Slot), d.slots[i]? = some s →
    h.count (.restarted i) ≤ h.count (.ended i)
  exits : ∀ (w : ℕ) (generation : UInt64) (reason : ExitReason) (error : String),
    .exited w generation reason error ∈ d.mailbox →
      ∃ s, d.slots[w]? = some s ∧ generation = s.generation
  generation : ∀ (i : ℕ) (s : Slot), d.slots[i]? = some s → h.count (.restarted i) < 2 ^ 32 →
    s.restarts.toNat = h.count (.restarted i) ∧ s.generation.toNat = s.restarts.toNat
  /-- However many restarts there are, the shorter one of the two numbers is cut off the longer one. -/
  wrapped : ∀ (i : ℕ) (s : Slot), d.slots[i]? = some s → s.restarts = s.generation.toUInt32
  total : d.totals.restarts = ∑ i ∈ Finset.range d.slots.length, h.count (.restarted i)
  sum : (∀ i < d.slots.length, h.count (.restarted i) < 2 ^ 32) →
    d.totals.restarts = (d.slots.map fun s => s.restarts.toNat).sum
  ceiling : 0 < c.policy.maxRestarts → ∀ s ∈ d.slots, s.restarts ≤ c.policy.maxRestarts

/-- **One generation after the other**: in every state that a running dispatcher comes to. -/
theorem generations_successive (hrun : (new c).run? actions = some d) (hrunning : d.running = true) :
    Successive c d (observed lifecycle (new c) actions) := by
  have hcall : d.stopCall = .none := by
    simpa [running, stopping] using (Bool.and_eq_true_iff.1 hrunning).2
  have hd := supervised_of_run hrun hcall
  refine {
    carried := fun i s hs hi => (hd.slot i s hs).carriers_mem (decide_eq_true hi)
    oneWorker := fun i s hs => (hd.slot i s hs).ended
    oneRestart := fun i s hs => (hd.slot i s hs).restarted_le
    exits := fun w generation reason error hmem => ?_
    generation := fun i s hs hlt => ?_
    wrapped := fun i s hs => ?_
    total := hd.total
    sum := fun hlt => ?_
    ceiling := fun hlimit s hs => ?_ }
  · have hexits : generation ∈ d.exits w := List.mem_filterMap.2 ⟨_, hmem, if_pos rfl⟩
    cases hs : d.slots[w]? with
    | none =>
      rw [(hd.none w (List.getElem?_eq_none_iff.1 hs)).1] at hexits
      cases hexits
    | some s => exact ⟨s, rfl, (hd.slot w s hs).generation_eq (a := d.account _ w) hexits⟩
  · have htended := hd.slot i s hs
    exact ⟨htended.toNat_restarts hlt,
      (htended.toNat_generation hlt).trans (htended.toNat_restarts hlt).symm⟩
  · rw [(hd.slot i s hs).restarts, (hd.slot i s hs).generation, UInt64.toUInt32_ofNat']
  · rw [hd.total, Finset.sum_range, ← Fin.sum_univ_fun_getElem]
    refine Finset.sum_congr rfl fun i _ => ?_
    have htended := hd.slot i _ (List.getElem?_eq_getElem i.isLt)
    exact (htended.toNat_restarts (hlt i i.isLt)).symm
  · obtain ⟨i, hs⟩ := List.mem_iff_getElem?.1 hs
    have htended := hd.slot i s hs
    have hle := htended.ceiling (UInt32.pos_iff_ne_zero.1 hlimit)
    rw [UInt32.le_iff_toNat_le,
      htended.toNat_restarts (hle.trans_lt c.policy.maxRestarts.toNat_lt)]
    exact hle

/-- One worker, which may be restarted once. -/
def onceMore : Config := { workers := 1, policy := { maxRestarts := 1 } }

/-- The first generation finds no program, and the second one is killed. -/
def retiring : List Action := [
  .start, .spawn, .prepare 0, .load 0 (.error .noLoader), .exit 0, .handle, .respawn,
  .prepare 0, .load 0 (.ok ()), .kill 0, .take 0, .exit 0, .handle]

theorem generations_successive_retiring : ∃ d, (new onceMore).run? retiring = some d ∧
    d.running = true ∧ Successive onceMore d (observed lifecycle (new onceMore) retiring) ∧
    (d.slots.map fun s => (s.status, s.generation, s.restarts, s.lastExit)) =
      [(.terminated, 1, 1, .killed)] :=
  ⟨_, rfl, rfl, generations_successive rfl rfl, rfl⟩

end Dispatcher
end ProofMiner
