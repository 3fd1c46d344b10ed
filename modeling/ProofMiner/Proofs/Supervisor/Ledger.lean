/-
# What the totals and the slots count

The dispatcher counts attempts when they begin, failed attempts when they have failed, proofs when they are
passed on, and restarts. A slot counts its attempts when they have ended, its proofs when an attempt has
found them, and its restarts in a word of 32 bits. Both are followed by the deeds of the slots: what a step
adds to the totals (`Billed`) and what it adds to a slot (`Booked`) is told by what it shows, and what a
worker has in hand is what lies between the two (`Worked`).

So when no attempt is in progress, the totals differ from the sums over the slots by the attempts that
ended their workers, by the proofs that a worker left behind when the receiver ended it, and by the restarts
that were cut off; and they agree exactly if there are none of these (`totals_agree_iff`).
-/

import Mathlib.Algebra.Order.BigOperators.Group.Finset
import ProofMiner.Proofs.Supervisor.Succession

namespace ProofMiner

namespace Deed

/-- An attempt ends its worker: it fails for good, or in an unknown way. -/
def isBreak : Deed → Bool
  | finished (.error (.fatal _)) | finished (.error .unknown) => true
  | _ => false

/-- An attempt fails, and its worker goes on: the candidate is rejected, or the program raises an error. -/
def isFailure : Deed → Bool
  | finished (.error (.rejected _)) | finished (.error (.raised _)) => true
  | _ => false

@[simp]
theorem isBreak_ok (proofs : List MinedProof) : (finished (.ok proofs)).isBreak = false := rfl

/-- The worker goes by the same faults. -/
@[simp]
theorem isBreak_error (e : AttemptFault) : (finished (.error e)).isBreak = e.endsWorker := by
  cases e <;> rfl

@[simp]
theorem isFailure_error (e : AttemptFault) : (finished (.error e)).isFailure = !e.endsWorker := by
  cases e <;> rfl

/-- It adds to no total. -/
def isIdle : Deed → Bool
  | spawned | asked | ended _ => true
  | _ => false

end Deed

namespace Dispatcher

open Finset (range)

variable {c : Config} {d d' d'' : Dispatcher} {action : Action} {actions : List Action}
variable {i w : ℕ} {s s' s'' : Slot} {shown g g' : List Deed} {h h' : ℕ → List Deed}

/-! ### The totals -/

/-- What is added to the totals, and to the proofs that were passed on, is what `h` shows of the slots. -/
structure Billed (d d' : Dispatcher) (h : ℕ → List Deed) : Prop where
  length : d'.slots.length = d.slots.length
  attempts : d'.totals.attempts = d.totals.attempts +
    ∑ i ∈ range d.slots.length, (h i).countP Deed.isTake
  failedAttempts : d'.totals.failedAttempts = d.totals.failedAttempts +
    ∑ i ∈ range d.slots.length, (h i).countP Deed.isFailure
  proofs : d'.totals.proofs = d.totals.proofs +
    ∑ i ∈ range d.slots.length, ((h i).flatMap Deed.passes).length
  restarts : d'.totals.restarts = d.totals.restarts +
    ∑ i ∈ range d.slots.length, (h i).countP Deed.isRestart
  /-- The proofs of each worker are passed on in its order. -/
  emitted : ∃ passed, d'.emitted = d.emitted ++ passed ∧
    passed.length = ∑ i ∈ range d.slots.length, ((h i).flatMap Deed.passes).length ∧
    ∀ i, ((h i).flatMap Deed.passes).Sublist passed

/-- What a step adds to the totals if it shows this of a slot and nothing of the others. -/
structure Entry (d d' : Dispatcher) (shown : List Deed) : Prop where
  attempts : d'.totals.attempts = d.totals.attempts + shown.countP Deed.isTake
  failedAttempts : d'.totals.failedAttempts = d.totals.failedAttempts + shown.countP Deed.isFailure
  proofs : d'.totals.proofs = d.totals.proofs + (shown.flatMap Deed.passes).length
  restarts : d'.totals.restarts = d.totals.restarts + shown.countP Deed.isRestart
  emitted : d'.emitted = d.emitted ++ shown.flatMap Deed.passes

/-- Nothing is added before the first step. -/
theorem billed_refl (d : Dispatcher) : Billed d d fun _ => [] where
  length := rfl
  attempts := by simp
  failedAttempts := by simp
  proofs := by simp
  restarts := by simp
  emitted := ⟨[], by simp, by simp, by simp⟩

/-- What is added adds up. -/
theorem Billed.trans (hfirst : Billed d d' h) (hnext : Billed d' d'' h') :
    Billed d d'' fun i => h i ++ h' i := by
  have hlength := hfirst.length
  obtain ⟨passed, hpassed, hcount, hsub⟩ := hfirst.emitted
  obtain ⟨passed', hpassed', hcount', hsub'⟩ := hnext.emitted
  constructor
  · exact hnext.length.trans hlength
  · simp only [hnext.attempts, hfirst.attempts, hlength, List.countP_append,
      Finset.sum_add_distrib, Nat.add_assoc]
  · simp only [hnext.failedAttempts, hfirst.failedAttempts, hlength, List.countP_append,
      Finset.sum_add_distrib, Nat.add_assoc]
  · simp only [hnext.proofs, hfirst.proofs, hlength, List.flatMap_append, List.length_append,
      Finset.sum_add_distrib, Nat.add_assoc]
  · simp only [hnext.restarts, hfirst.restarts, hlength, List.countP_append,
      Finset.sum_add_distrib, Nat.add_assoc]
  · refine ⟨passed ++ passed', by rw [hpassed', hpassed, List.append_assoc], ?_, fun i => ?_⟩
    · simp only [hcount, hcount', hlength, List.flatMap_append, List.length_append,
        Finset.sum_add_distrib]
    · rw [List.flatMap_append]
      exact (hsub i).append (hsub' i)

/-- Nothing is shown of any slot but one. -/
theorem Entry.billed (hentry : Entry d d' (h w)) (hw : w < d.slots.length)
    (hlength : d'.slots.length = d.slots.length) (hothers : ∀ i ≠ w, h i = []) : Billed d d' h := by
  have hsum (f : List Deed → ℕ) (hf : f [] = 0) : ∑ i ∈ range d.slots.length, f (h i) = f (h w) :=
    Finset.sum_eq_single w (fun i _ hi => by rw [hothers i hi, hf])
      fun hnot => absurd (Finset.mem_range.2 hw) hnot
  have hpassed := hsum (fun shown => (shown.flatMap Deed.passes).length) rfl
  refine ⟨hlength, ?_, ?_, ?_, ?_, (h w).flatMap Deed.passes, hentry.emitted, hpassed.symm,
    fun i => ?_⟩
  · rw [hsum (List.countP Deed.isTake) rfl, hentry.attempts]
  · rw [hsum (List.countP Deed.isFailure) rfl, hentry.failedAttempts]
  · rw [hpassed, hentry.proofs]
  · rw [hsum (List.countP Deed.isRestart) rfl, hentry.restarts]
  · by_cases hi : i = w
    · rw [hi]
    · rw [hothers i hi]
      exact List.nil_sublist _

/-- Nothing is shown, and nothing is added. -/
theorem Entry.nothing (hattempts : d'.totals.attempts = d.totals.attempts := by rfl)
    (hfailed : d'.totals.failedAttempts = d.totals.failedAttempts := by rfl)
    (hproofs : d'.totals.proofs = d.totals.proofs := by rfl)
    (hrestarts : d'.totals.restarts = d.totals.restarts := by rfl)
    (hemitted : d'.emitted = d.emitted := by rfl) : Entry d d' [] :=
  ⟨hattempts, hfailed, hproofs, hrestarts, hemitted.trans (List.append_nil _).symm⟩

/-- Nothing is shown that adds to the totals. -/
theorem Entry.idle (hentry : Entry d d' []) (hlength : d'.slots.length = d.slots.length)
    (hidle : ∀ i, ∀ x ∈ h i, x.isIdle = true) : Billed d d' h := by
  have hnone (p : Deed → Bool) (hp : ∀ x : Deed, x.isIdle = true → p x = false) (i : ℕ) :
      (h i).countP p = 0 :=
    List.countP_eq_zero.2 fun x hx => by simp [hp x (hidle i x hx)]
  have hpasses (i : ℕ) : (h i).flatMap Deed.passes = [] := by
    refine List.flatMap_eq_nil_iff.2 fun x hx => ?_
    have hx := hidle i x hx
    cases x <;> first | rfl | cases hx
  constructor
  · exact hlength
  · simp [hentry.attempts, hnone Deed.isTake (by rintro ⟨⟩ <;> simp [Deed.isIdle, Deed.isTake])]
  · simp [hentry.failedAttempts,
      hnone Deed.isFailure (by rintro ⟨⟩ <;> simp [Deed.isIdle, Deed.isFailure])]
  · simp [hentry.proofs, hpasses]
  · simp [hentry.restarts,
      hnone Deed.isRestart (by rintro ⟨⟩ <;> simp [Deed.isIdle, Deed.isRestart])]
  · exact ⟨[], by simp [hentry.emitted], by simp [hpasses], by simp [hpasses]⟩

/-- What a worker's step adds to the totals. -/
theorem entry_of_worker (hw : action.worker? = some w) (hstep : d.step? action = some d') :
    Entry d d' (deeds w d action d') := by
  cases action with
  | prepare v =>
    obtain rfl : v = w := Option.some.inj hw
    obtain ⟨s, hs, -, ⟨scratch, -, rfl⟩ | ⟨e, he, rfl⟩⟩ := prepare_step hstep
    · exact .nothing
    · rw [failConstruction, if_pos he]
      exact .nothing
  | load v result =>
    obtain rfl : v = w := Option.some.inj hw
    obtain ⟨s, hs, -, rfl | ⟨e, -, rfl⟩⟩ := load_step hstep
    · exact .nothing
    · unfold failConstruction
      split <;> exact .nothing
  | take v =>
    obtain rfl : v = w := Option.some.inj hw
    obtain ⟨s, hs, -, ⟨-, c, rest, -, rfl⟩ | ⟨-, rfl⟩⟩ := take_step hstep
    · have hslots := modifySlot_slots (d := { d with
        queue := { d.queue with items := rest }, totals.attempts := d.totals.attempts + 1 }) hs
        fun s => { s with phase := .attempting c }
      rw [deeds, if_pos rfl, attempting?_eq hs hslots]
      exact ⟨rfl, rfl, rfl, rfl, (List.append_nil _).symm⟩
    · rw [deeds, if_pos rfl, attempting?_eq hs (leave_slots hs _ _)]
      exact .nothing
  | finish v result =>
    obtain rfl : v = w := Option.some.inj hw
    obtain ⟨s, c, hs, -, rfl⟩ := finish_step hstep
    rw [deeds, if_pos rfl]
    cases result with
    | ok proofs => exact ⟨rfl, rfl, rfl, rfl, (List.append_nil _).symm⟩
    | error e =>
      unfold finishAttempt
      dsimp only
      split
      next hends =>
        refine ⟨rfl, ?_, rfl, rfl, (List.append_nil _).symm⟩
        rw [List.countP_singleton, Deed.isFailure_error, hends]
        rfl
      next hends =>
        refine ⟨rfl, ?_, rfl, rfl, (List.append_nil _).symm⟩
        rw [List.countP_singleton, Deed.isFailure_error, Bool.eq_false_iff.2 hends]
        rfl
  | emit v result =>
    obtain rfl : v = w := Option.some.inj hw
    obtain ⟨s, p, rest, hs, hphase, rfl⟩ := emit_step hstep
    have hemitted := (labour_emitProof hs hphase result).1
    rw [deeds, if_pos rfl, hemitted, List.drop_left]
    unfold emitProof
    dsimp only
    split <;> exact ⟨rfl, rfl, rfl, rfl, rfl⟩
  | _ => cases hw

/-- A worker shows deeds of its own slot only. -/
theorem deeds_of_worker (hw : action.worker? = some w) (hi : i ≠ w) :
    deeds i d action d' = [] := by
  refine List.eq_nil_iff_forall_not_mem.2 fun x hx => hi ?_
  have hcomes := comesOf_of_mem hx
  cases x with
  | spawned | ended | restarted =>
    rw [hcomes.1] at hw
    cases hw
  | asked =>
    rw [show action = _ from hcomes] at hw
    cases hw
  | took | finished | passed =>
    rw [show action = _ from hcomes] at hw
    exact Option.some.inj hw

/-- The steps of callers, of the call to stop and of the control loop add to no total that is counted
for slots, other than a restart. -/
theorem entry_of_others (hworker : action.worker? = none) (haction : action ≠ .respawn)
    (hstep : d.step? action = some d') : Entry d d' [] := by
  have hpost (x : Dispatcher) (event : Event) (hentry : Entry d x []) :
      Entry d (x.post event) [] := by
    unfold post
    split
    · exact hentry
    · exact ⟨hentry.attempts, hentry.failedAttempts, hentry.proofs, hentry.restarts, hentry.emitted⟩
  cases action with
  | start | deliver =>
    obtain rfl := Option.some.inj hstep
    split <;> exact .nothing
  | spawn =>
    obtain ⟨-, -, rfl⟩ := spawn_step hstep
    exact .nothing
  | stop =>
    rcases stop_step hstep with ⟨-, rfl⟩ | ⟨-, -, -, rfl⟩ <;> exact .nothing
  | postStop =>
    obtain ⟨-, rfl⟩ := postStop_step hstep
    have hposted := hpost d .stop .nothing
    exact ⟨hposted.attempts, hposted.failedAttempts, hposted.proofs, hposted.restarts,
      hposted.emitted⟩
  | cancelWorkers =>
    obtain ⟨-, -, rfl⟩ := cancelWorkers_step hstep
    exact .nothing
  | closeQueue =>
    obtain ⟨-, rfl⟩ := closeQueue_step hstep
    exact .nothing
  | join =>
    obtain ⟨v, -, ⟨-, rfl⟩ | ⟨s, -, -, rfl⟩⟩ := join_step hstep <;> exact .nothing
  | arrive n =>
    obtain ⟨x, -, rfl⟩ := arrive_step hstep
    exact hpost _ _ .nothing
  | enable | kill | wait =>
    obtain rfl := Option.some.inj hstep
    exact .nothing
  | handle =>
    obtain ⟨event, rest, -, -, rfl⟩ := handle_step hstep
    cases event with
    | stop => exact .nothing
    | candidate x =>
      rcases handleCandidate_cases { d with mailbox := rest } x with
        ⟨-, heq⟩ | ⟨-, -, -, heq⟩ | ⟨-, -, -, heq⟩ | ⟨-, -, heq⟩ <;>
        rw [handleEvent, heq] <;> exact .nothing
    | exited v generation reason error =>
      rcases handleExit_cases { d with mailbox := rest } v generation reason error with
        ⟨-, heq⟩ | ⟨s, -, -, ⟨-, heq⟩ | ⟨-, -, ⟨due, heq⟩ | heq⟩⟩ <;>
        rw [handleEvent, heq] <;> exact .nothing
  | collect =>
    obtain ⟨-, -, rfl⟩ := collect_step hstep
    exact .nothing
  | decide =>
    obtain ⟨v, rest, -, rfl⟩ := decide_step hstep
    exact .nothing
  | respawn => exact absurd rfl haction
  | exit v =>
    obtain ⟨s, reason, error, -, -, rfl⟩ := exit_step hstep
    exact hpost _ _ .nothing
  | _ => cases hworker

/-- **What a step adds to the totals.** -/
theorem billed_of_step (hd : Carried d) (hstep : d.step? action = some d') :
    Billed d d' fun i => deeds i d action d' := by
  have hlength := (slotSteps_of_step hstep).length
  cases hworker : action.worker? with
  | some w =>
    obtain ⟨s, -, hs, -⟩ := labour_of_step hworker hstep
    exact (entry_of_worker hworker hstep).billed (List.getElem?_eq_some_iff.1 hs).1 hlength
      fun i hi => deeds_of_worker hworker hi
  | none =>
    by_cases haction : action = .respawn
    · subst haction
      obtain ⟨w, rest, hcontrol, rfl⟩ := respawn_step hstep
      obtain ⟨s, hs, -⟩ := hd.resting hcontrol
      have hdeeds (i : ℕ) (x : Dispatcher) :
          deeds i d .respawn x = if w = i then [.restarted] else [] := by
        rw [deeds, hcontrol]
      refine Entry.billed (w := w) ?_ (List.getElem?_eq_some_iff.1 hs).1 hlength fun i hi => ?_
      · rw [hdeeds, if_pos rfl]
        exact ⟨rfl, rfl, rfl, rfl, (List.append_nil _).symm⟩
      · rw [hdeeds, if_neg hi.symm]
    · refine (entry_of_others hworker haction hstep).idle hlength fun i x hx => ?_
      have hcomes := comesOf_of_mem hx
      cases x with
      | spawned | asked | ended => rfl
      | restarted => exact absurd hcomes.1 haction
      | took | finished | passed =>
        rw [show action = _ from hcomes] at hworker
        cases hworker

/-- **The totals follow the deeds**, by induction on the run. -/
theorem billed_of_run (hd : Carried d) (hrun : d.run? actions = some d') :
    Billed d d' fun i => observed (deeds i) d actions := by
  induction actions generalizing d with
  | nil =>
    obtain rfl := Option.some.inj hrun
    exact billed_refl d
  | cons action rest ih =>
    obtain ⟨next, hnext, hrest⟩ := Option.bind_eq_some_iff.1 hrun
    simp only [observed, hnext]
    exact (billed_of_step hd hnext).trans (ih (hd.step hnext) hrest)

/-! ### The slots -/

/-- What is added to the counts of a slot is what its deeds show. -/
structure Booked (s s' : Slot) (g : List Deed) : Prop where
  attempts : s'.attempts + g.countP Deed.isBreak = s.attempts + g.countP Deed.isFinish
  failedAttempts : s'.failedAttempts = s.failedAttempts + g.countP Deed.isFailure
  proofs : s'.proofs = s.proofs + (g.flatMap Deed.yields).length
  restarts : s'.restarts = s.restarts + .ofNat (g.countP Deed.isRestart)

/-- Nothing is booked before the first step. -/
theorem booked_refl (s : Slot) : Booked s s [] := ⟨rfl, rfl, rfl, (UInt32.add_zero _).symm⟩

/-- What is booked adds up, the restarts in their word. -/
theorem Booked.trans (hfirst : Booked s s' g) (hnext : Booked s' s'' g') :
    Booked s s'' (g ++ g') where
  attempts := by
    have hbefore := hfirst.attempts
    have hafter := hnext.attempts
    rw [List.countP_append, List.countP_append]
    omega
  failedAttempts := by
    rw [hnext.failedAttempts, hfirst.failedAttempts, List.countP_append, Nat.add_assoc]
  proofs := by
    rw [hnext.proofs, hfirst.proofs, List.flatMap_append, List.length_append, Nat.add_assoc]
  restarts := by
    rw [hnext.restarts, hfirst.restarts, List.countP_append, UInt32.ofNat_add, UInt32.add_assoc]

/-- A worker books its attempts when they have ended, unless they end it. -/
theorem Labour.booked (hlabour : Labour d s shown s') : Booked s s' shown := by
  cases hlabour with
  | finish c phase proofs =>
    exact ⟨rfl, rfl, by simp [Deed.yields], (UInt32.add_zero _).symm⟩
  | fail c phase e survives =>
    refine ⟨?_, ?_, rfl, (UInt32.add_zero _).symm⟩
    · rw [List.countP_singleton, Deed.isBreak_error, survives]
      rfl
    · rw [List.countP_singleton, Deed.isFailure_error, survives]
      rfl
  | «break» c phase e ends =>
    refine ⟨?_, ?_, rfl, (UInt32.add_zero _).symm⟩
    · rw [List.countP_singleton, Deed.isBreak_error, ends]
      rfl
    · rw [List.countP_singleton, Deed.isFailure_error, ends]
      rfl
  | _ => exact ⟨rfl, rfl, rfl, (UInt32.add_zero _).symm⟩

/-- The other steps of a slot book its restarts. -/
theorem SlotStep.booked (hslot : SlotStep d i s shown s') : Booked s s' shown := by
  cases hslot with
  | work labour => exact labour.booked
  | _ => exact ⟨rfl, rfl, rfl, by first | rfl | exact (UInt32.add_zero _).symm⟩

/-- What a worker has in hand is what it has taken and not yet done. -/
structure Worked (s s' : Slot) (g : List Deed) : Prop where
  taken : g.countP Deed.isTake + s.phase.candidate?.isSome.toNat =
    g.countP Deed.isFinish + s'.phase.candidate?.isSome.toNat
  passed : (g.flatMap Deed.passes ++ s'.phase.owed).Sublist (s.phase.owed ++ g.flatMap Deed.yields)
  /-- Nothing is left behind, unless the receiver ends the worker. -/
  complete : (∀ x ∈ g, x.isFatal = false) →
    g.flatMap Deed.passes ++ s'.phase.owed = s.phase.owed ++ g.flatMap Deed.yields

/-- Nothing is taken before the first step. -/
theorem worked_refl (s : Slot) : Worked s s [] := ⟨rfl, by simp, by simp⟩

/-- What is taken and what is ended add up. -/
theorem Worked.trans (hfirst : Worked s s' g) (hnext : Worked s' s'' g') :
    Worked s s'' (g ++ g') where
  taken := by
    have hbefore := hfirst.taken
    have hafter := hnext.taken
    rw [List.countP_append, List.countP_append]
    omega
  passed := by
    have hkept := (List.Sublist.refl (g.flatMap Deed.passes)).append hnext.passed
    have hadded := hfirst.passed.append (List.Sublist.refl (g'.flatMap Deed.yields))
    rw [List.flatMap_append, List.flatMap_append]
    simp only [List.append_assoc] at hkept hadded ⊢
    exact hkept.trans hadded
  complete hreceived := by
    rw [List.forall_mem_append] at hreceived
    rw [List.flatMap_append, List.flatMap_append, List.append_assoc, hnext.complete hreceived.2,
      ← List.append_assoc, hfirst.complete hreceived.1, List.append_assoc]

/-- A step on which nothing is taken, found or passed on. -/
theorem Worked.idle (hcandidate : s'.phase.candidate? = s.phase.candidate?)
    (howed : s'.phase.owed = s.phase.owed) (htake : g.countP Deed.isTake = 0 := by rfl)
    (hfinish : g.countP Deed.isFinish = 0 := by rfl)
    (hpasses : g.flatMap Deed.passes = [] := by rfl)
    (hyields : g.flatMap Deed.yields = [] := by rfl) : Worked s s' g where
  taken := by rw [htake, hfinish, hcandidate]
  passed := by rw [hpasses, hyields, howed, List.append_nil, List.nil_append]
  complete _ := by rw [hpasses, hyields, howed, List.append_nil, List.nil_append]

/-- A worker ends what it takes, and passes on what it finds. -/
theorem Labour.worked (hlabour : Labour d s shown s') : Worked s s' shown := by
  cases hlabour with
  | prepare phase | unprepared phase | load phase | unloaded phase | quit phase =>
    exact .idle (by rw [phase]; rfl) (by rw [phase]; rfl)
  | take phase =>
    exact ⟨by rw [phase]; rfl, by rw [phase]; rfl, fun _ => by rw [phase]; rfl⟩
  | finish c phase proofs =>
    refine ⟨?_, ?_, fun _ => ?_⟩ <;> rw [phase]
    · rw [Phase.candidate?_emit]
      rfl
    · rw [Phase.owed_emit]
      exact (List.append_nil _).symm ▸ .refl _
    · rw [Phase.owed_emit]
      exact (List.append_nil _).symm
  | fail c phase | «break» c phase =>
    exact ⟨by rw [phase]; rfl, by rw [phase]; rfl, fun _ => by rw [phase]; rfl⟩
  | pass p rest phase =>
    refine ⟨?_, ?_, fun _ => ?_⟩ <;> rw [phase]
    · rw [Phase.candidate?_emit]
      rfl
    · rw [Phase.owed_emit]
      exact (List.append_nil _).symm ▸ .refl _
    · rw [Phase.owed_emit]
      exact (List.append_nil _).symm
  | drop p rest phase =>
    refine ⟨by rw [phase]; rfl, ?_, fun hreceived => ?_⟩
    · rw [phase]
      simp [Deed.passes, Deed.yields, Phase.owed]
    · cases hreceived _ List.mem_cons_self

/-- A worker that is created finds nothing in hand. -/
theorem SlotStep.worked (hslot : SlotStep d i s shown s')
    (habsent : .spawned ∈ shown ∨ .restarted ∈ shown → s.phase = .absent) :
    Worked s s' shown := by
  cases hslot with
  | work labour => exact labour.worked
  | exit reason error phase => exact .idle (by rw [phase]; rfl) (by rw [phase]; rfl)
  | spawn =>
    have hphase := habsent (.inl List.mem_cons_self)
    exact .idle (by rw [hphase]; rfl) (by rw [hphase]; rfl)
  | restart =>
    have hphase := habsent (.inr List.mem_cons_self)
    exact .idle (by rw [hphase]; rfl) (by rw [hphase]; rfl)
  | idle | ask | handle | cancel | join => exact .idle rfl rfl

/-- **What the deeds of a slot say of its counts** and of what its worker has in hand. -/
theorem slot_of_run (hd : Carried d) (hrun : d.run? actions = some d') (hs : d.slots[i]? = some s) :
    ∃ s', d'.slots[i]? = some s' ∧ Booked s s' (observed (deeds i) d actions) ∧
      Worked s s' (observed (deeds i) d actions) := by
  induction actions generalizing d s with
  | nil =>
    obtain rfl := Option.some.inj hrun
    exact ⟨s, hs, booked_refl s, worked_refl s⟩
  | cons action rest ih =>
    obtain ⟨next, hnext, hrest⟩ := Option.bind_eq_some_iff.1 hrun
    obtain ⟨t, ht, hslot⟩ := (slotSteps_of_step hnext).slot i s hs
    obtain ⟨s', hs', hbooked, hworked⟩ := ih (hd.step hnext) hrest ht
    rw [observed, hnext]
    exact ⟨s', hs', hslot.booked.trans hbooked,
      (hslot.worked (hd.absent_of_created hs hslot)).trans hworked⟩

/-! ### The totals beside the slots -/

/-- A sum over the slots, with what is missing of each. -/
theorem sum_slots_add {f : Slot → ℕ} {k n : ℕ → ℕ}
    (hslots : ∀ i s, d.slots[i]? = some s → f s + k i = n i) :
    (d.slots.map f).sum + ∑ i ∈ range d.slots.length, k i = ∑ i ∈ range d.slots.length, n i := by
  rw [Finset.sum_range, Finset.sum_range, ← Fin.sum_univ_fun_getElem, ← Finset.sum_add_distrib]
  exact Finset.sum_congr rfl fun i _ => hslots i _ (List.getElem?_eq_getElem i.isLt)

/-- Nobody makes an attempt, or passes on what it has found. -/
def AtRest (d : Dispatcher) : Prop :=
  ∀ s ∈ d.slots, s.phase.candidate? = none ∧ s.phase.owed = []

instance (d : Dispatcher) : Decidable (AtRest d) :=
  inferInstanceAs (Decidable (∀ s ∈ d.slots, s.phase.candidate? = none ∧ s.phase.owed = []))

/-- The totals are the sums over the slots. -/
structure Agree (d : Dispatcher) : Prop where
  attempts : d.totals.attempts = (d.slots.map Slot.attempts).sum
  failedAttempts : d.totals.failedAttempts = (d.slots.map Slot.failedAttempts).sum
  proofs : d.totals.proofs = (d.slots.map Slot.proofs).sum
  restarts : d.totals.restarts = (d.slots.map fun s => s.restarts.toNat).sum

/-- The slots after a run in which the deeds `h` were shown, when no attempt is in progress. -/
structure Reckoned (d : Dispatcher) (h : ℕ → List Deed) : Prop where
  /-- An attempt that ends its worker is missing in the slot. -/
  attempts : (d.slots.map Slot.attempts).sum +
    ∑ i ∈ range d.slots.length, (h i).countP Deed.isBreak = d.totals.attempts
  failedAttempts : d.totals.failedAttempts = (d.slots.map Slot.failedAttempts).sum
  /-- The slots count the proofs that were found, -/
  found : (d.slots.map Slot.proofs).sum =
    ∑ i ∈ range d.slots.length, ((h i).flatMap Deed.yields).length
  /-- and the totals those that were passed on, -/
  proofs : d.totals.proofs = ∑ i ∈ range d.slots.length, ((h i).flatMap Deed.passes).length
  /-- which are all, but for those that a worker left behind. -/
  passed : ∀ i < d.slots.length, ((h i).flatMap Deed.passes).Sublist ((h i).flatMap Deed.yields)
  restarts : d.totals.restarts = ∑ i ∈ range d.slots.length, (h i).countP Deed.isRestart
  cut : (d.slots.map fun s => s.restarts.toNat).sum =
    ∑ i ∈ range d.slots.length, (h i).countP Deed.isRestart % 2 ^ 32

/-- **What each sum is**, once no attempt is in progress. -/
theorem reckoned_of_run (hrun : (new c).run? actions = some d) (hrest : AtRest d) :
    Reckoned d fun i => observed (deeds i) (new c) actions := by
  have hbilled := billed_of_run (carried_new c) hrun
  have hlength := hbilled.length
  have hslot (i : ℕ) (s : Slot) (hs : d.slots[i]? = some s) :
      Booked {} s (observed (deeds i) (new c) actions) ∧
        Worked {} s (observed (deeds i) (new c) actions) ∧
        s.phase.candidate? = none ∧ s.phase.owed = [] := by
    have hlt : i < (new c).slots.length := hlength ▸ (List.getElem?_eq_some_iff.1 hs).1
    obtain ⟨t, ht, hbooked, hworked⟩ :=
      slot_of_run (carried_new c) hrun (List.getElem?_eq_getElem hlt)
    obtain rfl := Option.some.inj (ht.symm.trans hs)
    rw [show (new c).slots[i] = {} from List.getElem_replicate _] at hbooked hworked
    exact ⟨hbooked, hworked, hrest t (List.mem_of_getElem? hs)⟩
  have hsum (f : Slot → ℕ) (n : ℕ → ℕ) (hf : ∀ i s, d.slots[i]? = some s → f s = n i) :
      (d.slots.map f).sum = ∑ i ∈ range d.slots.length, n i := by
    have hsum := sum_slots_add (k := fun _ => 0) hf
    rwa [Finset.sum_const_zero, Nat.add_zero] at hsum
  exact {
    attempts := by
      rw [hbilled.attempts, ← hlength]
      refine (sum_slots_add fun i s hs => ?_).trans (Nat.zero_add _).symm
      obtain ⟨hbooked, hworked, hcandidate, -⟩ := hslot i s hs
      have htaken := hworked.taken
      rw [hcandidate] at htaken
      exact (hbooked.attempts.trans (Nat.zero_add _)).trans htaken.symm
    failedAttempts := by
      rw [hbilled.failedAttempts, ← hlength]
      refine (Nat.zero_add _).trans (hsum _ _ fun i s hs => ?_).symm
      exact (hslot i s hs).1.failedAttempts.trans (Nat.zero_add _)
    found := hsum _ _ fun i s hs => (hslot i s hs).1.proofs.trans (Nat.zero_add _)
    proofs := by
      rw [hbilled.proofs, ← hlength]
      exact Nat.zero_add _
    passed := fun i hi => by
      obtain ⟨-, hworked, -, howed⟩ := hslot i _ (List.getElem?_eq_getElem hi)
      have hpassed := hworked.passed
      rwa [howed, List.append_nil] at hpassed
    restarts := by
      rw [hbilled.restarts, ← hlength]
      exact Nat.zero_add _
    cut := hsum _ _ fun i s hs => by
      rw [(hslot i s hs).1.restarts, UInt32.zero_add, UInt32.toNat_ofNat'] }

/-- **When the totals agree with the slots**: no attempt has ended its worker, no proof was left behind, and
no slot has been restarted too often for its count. -/
theorem totals_agree_iff (hrun : (new c).run? actions = some d) (hrest : AtRest d) :
    Reckoned d (fun i => observed (deeds i) (new c) actions) ∧
    (Agree d ↔ ∀ i < d.slots.length,
      (∀ x ∈ observed (deeds i) (new c) actions, x.isBreak = false) ∧
      (observed (deeds i) (new c) actions).flatMap Deed.passes =
        (observed (deeds i) (new c) actions).flatMap Deed.yields ∧
      (observed (deeds i) (new c) actions).countP Deed.isRestart < 2 ^ 32) := by
  have hd := reckoned_of_run hrun hrest
  refine ⟨hd, ?_⟩
  set h : ℕ → List Deed := fun i => observed (deeds i) (new c) actions
  -- No slot makes up for what another one misses: each count differs from its total in one direction only.
  have hattempts : d.totals.attempts = (d.slots.map Slot.attempts).sum ↔
      ∀ i < d.slots.length, ∀ x ∈ h i, x.isBreak = false := by
    have hreckoned := hd.attempts
    have hzero : ∑ i ∈ range d.slots.length, (h i).countP Deed.isBreak = 0 ↔
        ∀ i < d.slots.length, ∀ x ∈ h i, x.isBreak = false := by
      simp [Finset.sum_eq_zero_iff, List.countP_eq_zero]
    rw [← hzero]
    omega
  have hproofs : d.totals.proofs = (d.slots.map Slot.proofs).sum ↔
      ∀ i < d.slots.length, (h i).flatMap Deed.passes = (h i).flatMap Deed.yields := by
    have hle (i : ℕ) (hi : i ∈ range d.slots.length) := (hd.passed i (Finset.mem_range.1 hi)).length_le
    rw [hd.proofs, hd.found, Finset.sum_eq_sum_iff_of_le hle]
    refine forall_congr' fun i => ?_
    rw [Finset.mem_range]
    exact forall_congr' fun hi => ⟨(hd.passed i hi).eq_of_length, congrArg _⟩
  have hrestarts : d.totals.restarts = (d.slots.map fun s => s.restarts.toNat).sum ↔
      ∀ i < d.slots.length, (h i).countP Deed.isRestart < 2 ^ 32 := by
    have hle (i : ℕ) (_ : i ∈ range d.slots.length) := Nat.mod_le ((h i).countP Deed.isRestart) (2 ^ 32)
    rw [hd.restarts, hd.cut, eq_comm, Finset.sum_eq_sum_iff_of_le hle]
    refine forall_congr' fun i => ?_
    rw [Finset.mem_range]
    exact forall_congr' fun _ => Nat.mod_eq_iff_lt (by decide)
  constructor
  · intro hagree i hi
    exact ⟨hattempts.1 hagree.attempts i hi, hproofs.1 hagree.proofs i hi,
      hrestarts.1 hagree.restarts i hi⟩
  · intro hall
    exact ⟨hattempts.2 fun i hi => (hall i hi).1, hd.failedAttempts,
      hproofs.2 fun i hi => (hall i hi).2.1, hrestarts.2 fun i hi => (hall i hi).2.2⟩

/-- One worker finds a proof, and fails at the next candidate, and it is killed and restarted. -/
def eventful : List Action := [
  .start, .spawn, .spawn, .deliver { id := 1 }, .arrive 0, .handle, .deliver { id := 2 }, .arrive 0,
  .handle, .prepare 0, .load 0 (.ok ()), .take 0, .finish 0 (.ok [{}]), .emit 0 (.ok ()), .take 0,
  .finish 0 (.error (.raised "no")), .kill 0, .take 0, .exit 0, .handle, .respawn]

theorem totals_agree_iff_eventful : ∃ d, (new pair).run? eventful = some d ∧ AtRest d ∧
    Reckoned d (fun i => observed (deeds i) (new pair) eventful) ∧ Agree d ∧
    d.totals.toList = [2, 0, 0, 2, 1, 1, 1, 0] := by
  have hrun : (new pair).run? eventful = some _ := rfl
  obtain ⟨hreckoned, hagree⟩ := totals_agree_iff hrun (by decide)
  exact ⟨_, rfl, by decide, hreckoned, hagree.2 (by decide), rfl⟩

/-- The only worker makes an attempt that ends it, and a new one is ready in its place. -/
def breaking : List Action := [
  .start, .spawn, .prepare 0, .load 0 (.ok ()), .deliver { id := 1 }, .arrive 0, .handle, .take 0,
  .finish 0 (.error (.fatal "worker state corrupted")), .exit 0, .handle, .respawn, .prepare 0,
  .load 0 (.ok ())]

/-- The attempt is counted in the totals and in no slot. -/
theorem breaking_uncounted : ∃ d, (new { workers := 1 }).run? breaking = some d ∧ AtRest d ∧
    d.totals.attempts = 1 ∧ d.work = [0, 0, 0] ∧ ¬ Agree d := by
  refine ⟨_, rfl, by decide, rfl, rfl, fun hagree => ?_⟩
  have hattempts := hagree.attempts
  exact absurd hattempts (by decide)

end Dispatcher
end ProofMiner
