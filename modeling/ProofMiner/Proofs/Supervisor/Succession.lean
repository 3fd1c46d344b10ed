/-
# One carrier at most

A slot is carried on by its worker, by the event that reports the worker's end, or by a restart that was
decided on. While the dispatcher runs there is always one of them. While it stops, events and restarts
are dropped, so that nothing may be left, but there are never two (`Carried`): a worker that ends adds no
more than its own report, a report becomes no more than one restart, and a restart is used up by the worker
that it creates (`waiting_of_step`).

So a worker is created only where there is none, in every state that can be reached.
-/

import ProofMiner.Proofs.Supervisor.Killing

namespace ProofMiner

/-- The call to start creates the first worker. -/
def Deed.isFirst : Deed → Bool
  | spawned => true
  | _ => false

namespace Dispatcher

variable {c : Config} {d d' : Dispatcher} {action : Action} {actions : List Action}
variable {i w : ℕ} {s s' : Slot} {shown : List Deed}

/-- What waits for a slot: the reports of its worker's ends, and the restarts that were decided on. -/
def waiting (d : Dispatcher) (i : ℕ) : ℕ := (d.exits i).length + d.due i

/-- One thing at most carries a slot on, and there is nothing for a slot that there is not. -/
structure Carried (d : Dispatcher) : Prop where
  slot : ∀ (i : ℕ) (s : Slot), d.slots[i]? = some s →
    s.phase.isLive.toNat + d.waiting i ≤ (decide (i < d.spawned)).toNat
  none : ∀ i, d.slots.length ≤ i → d.waiting i = 0

/-- No slot has a carrier in the beginning. -/
theorem carried_new (c : Config) : Carried (new c) where
  slot i s hs := by
    obtain rfl := List.eq_of_mem_replicate (List.mem_of_getElem? hs)
    exact Nat.zero_le _
  none _ _ := rfl

/-! ### Where deeds come from -/

/-- The step, in `d`, that shows a deed of slot `i`. -/
def ComesOf (i : ℕ) (d : Dispatcher) (action : Action) : Deed → Prop
  | .spawned => action = .spawn ∧ d.spawned = i
  | .asked => action = .kill i
  | .took _ => action = .take i
  | .finished result => action = .finish i result
  | .passed _ result => action = .emit i result
  | .ended _ => action = .exit i ∧ i < d.slots.length
  | .restarted => action = .respawn ∧ ∃ rest, d.control = .respawning i rest

/-- Each deed comes of the actions that can show it. -/
theorem comesOf_of_mem {x : Deed} (hx : x ∈ deeds i d action d') : ComesOf i d action x := by
  cases action with
  | spawn =>
    obtain ⟨hi, hx⟩ := List.mem_ite_nil_right.1 hx
    obtain rfl := List.mem_singleton.1 hx
    exact ⟨rfl, hi⟩
  | kill w =>
    obtain ⟨hi, hx⟩ := List.mem_ite_nil_right.1 hx
    obtain rfl := List.mem_singleton.1 hx
    exact congrArg _ hi.1
  | take w =>
    obtain ⟨hi, hx⟩ := List.mem_ite_nil_right.1 hx
    obtain ⟨c, -, rfl⟩ := List.mem_map.1 hx
    exact congrArg _ hi
  | finish w result =>
    obtain ⟨rfl, hmem⟩ := List.mem_ite_nil_right.1 hx
    obtain rfl := List.mem_singleton.1 hmem
    rfl
  | emit w result =>
    obtain ⟨rfl, hmem⟩ := List.mem_ite_nil_right.1 hx
    obtain ⟨p, -, rfl⟩ := List.mem_map.1 hmem
    rfl
  | exit w =>
    obtain ⟨rfl, hmem⟩ := List.mem_ite_nil_right.1 hx
    obtain ⟨reason, hreason, rfl⟩ := List.mem_map.1 hmem
    refine ⟨rfl, ?_⟩
    obtain ⟨s, hs, -⟩ := Option.bind_eq_some_iff.1 (Option.mem_toList.1 hreason)
    exact (List.getElem?_eq_some_iff.1 hs).1
  | respawn =>
    rw [deeds] at hx
    split at hx
    next w rest hcontrol =>
      obtain ⟨rfl, hmem⟩ := List.mem_ite_nil_right.1 hx
      obtain rfl := List.mem_singleton.1 hmem
      exact ⟨rfl, rest, hcontrol⟩
    next => cases hx
  | _ => cases hx

/-- Only the control loop restarts a worker. -/
theorem countP_isRestart_deeds (haction : action ≠ .respawn) :
    (deeds i d action d').countP Deed.isRestart = 0 := by
  refine List.countP_eq_zero.2 fun x hx => ?_
  have hcomes := comesOf_of_mem hx
  cases x with
  | restarted => exact absurd hcomes.1 haction
  | _ => exact Bool.false_ne_true

/-- Only a worker of a slot ends. -/
theorem countP_isEnd_deeds (hi : d.slots.length ≤ i) :
    (deeds i d action d').countP (Deed.isEnd fun _ => true) = 0 := by
  refine List.countP_eq_zero.2 fun x hx => ?_
  have hcomes := comesOf_of_mem hx
  cases x with
  | ended => exact absurd hcomes.2 (Nat.not_lt.2 hi)
  | _ => exact Bool.false_ne_true

/-- The call to start creates the workers one after the other. -/
theorem countP_isFirst_deeds (hstep : d.step? action = some d') :
    (decide (i < d.spawned)).toNat + (deeds i d action d').countP Deed.isFirst ≤
      (decide (i < d'.spawned)).toNat := by
  by_cases haction : action = .spawn
  · subst haction
    obtain ⟨-, -, rfl⟩ := spawn_step hstep
    by_cases hi : d.spawned = i
    · subst hi
      simp [deeds, Deed.isFirst]
    · have hiff : (i < d.spawned + 1) = (i < d.spawned) := propext (by omega)
      simp [deeds, hi, hiff]
  · have hnone : (deeds i d action d').countP Deed.isFirst = 0 := by
      refine List.countP_eq_zero.2 fun x hx => ?_
      have hcomes := comesOf_of_mem hx
      cases x with
      | spawned => exact absurd hcomes.1 haction
      | _ => exact Bool.false_ne_true
    have hmono := (framed_of_step hstep).spawned
    rw [hnone]
    by_cases hi : i < d.spawned
    · simp [hi, hi.trans_le hmono]
    · simp [hi]

/-! ### What waits for a slot -/

/-- What waits depends on the mailbox, the restarts for later, and the control loop. -/
theorem waiting_congr (i : ℕ) (hmailbox : d'.mailbox = d.mailbox := by rfl)
    (hpending : d'.pending = d.pending := by rfl) (hcontrol : d'.control = d.control := by rfl) :
    d'.waiting i = d.waiting i := by
  rw [waiting, waiting, exits, exits, due, due, hmailbox, hpending, hcontrol]

/-- What waits when an event is put into the mailbox. -/
theorem waiting_post (d : Dispatcher) (event : Event) (i : ℕ) :
    (d.post event).waiting i ≤ d.waiting i + (event.exit? i).toList.length := by
  by_cases hended : d.control = .ended
  · rw [post_of_ended hended]
    exact Nat.le_add_right _ _
  · rw [post_of_ne_ended hended, waiting, exits, List.filterMap_append, List.length_append]
    cases hexit : event.exit? i <;> simp [waiting, exits, due, hexit, Nat.add_right_comm]

/-- What waits when the control loop turns to other workers. -/
theorem waiting_turn (d d' : Dispatcher) (i : ℕ) (hmailbox : d'.mailbox = d.mailbox := by rfl)
    (hpending : d'.pending = d.pending := by rfl) :
    d'.waiting i + d.control.workers.count i = d.waiting i + d'.control.workers.count i := by
  rw [waiting, waiting, exits, exits, due, due, hmailbox, hpending, List.count_append,
    List.count_append]
  omega

/-- A handled event becomes no more than one restart. -/
theorem waiting_handleEvent {event : Event} {rest : List Event} (hcontrol : d.control = .waiting)
    (hmailbox : d.mailbox = event :: rest) (i : ℕ) :
    (d.handleEvent event rest).waiting i ≤ d.waiting i := by
  have hpopped : { d with mailbox := rest }.waiting i + (event.exit? i).toList.length =
      d.waiting i := by
    simp only [waiting, exits, due, hmailbox, List.filterMap_cons]
    cases event.exit? i with
    | none => rfl
    | some generation => exact Nat.add_right_comm _ _ _
  cases event with
  | stop =>
    simp [handleEvent, waiting, exits, due, hcontrol, Control.workers]
  | candidate x =>
    refine le_of_eq_of_le ?_ (Nat.le.intro hpopped)
    rcases handleCandidate_cases { d with mailbox := rest } x with
      ⟨-, heq⟩ | ⟨-, -, -, heq⟩ | ⟨-, -, -, heq⟩ | ⟨-, -, heq⟩ <;>
      rw [handleEvent, heq] <;> exact waiting_congr i
  | exited v generation reason error =>
    have hexit : (Event.exit? i (.exited v generation reason error)).toList.length =
        [v].count i := by
      by_cases hv : v = i <;> simp [Event.exit?, hv]
    rw [hexit] at hpopped
    rcases handleExit_cases { d with mailbox := rest } v generation reason error with
      ⟨-, heq⟩ | ⟨s, hs, hgeneration, ⟨-, heq⟩ | ⟨-, -, ⟨due, heq⟩ | heq⟩⟩ <;>
      rw [handleEvent, heq]
    · exact Nat.le.intro hpopped
    · exact (waiting_congr i).trans_le (Nat.le.intro hpopped)
    · refine le_of_eq (Eq.trans ?_ hpopped)
      simp only [waiting, exits, Dispatcher.due, List.map_append, List.map_singleton,
        List.count_append]
      omega
    · have hturn := waiting_turn { d with mailbox := rest } { d with
        mailbox := rest, slots := d.slots.set v (s.ended reason error)
        control := .respawning v [] } i
      rw [show d.control.workers = [] by rw [hcontrol]; rfl] at hturn
      exact (hturn.trans hpopped).le

/-- **What waits for a slot**: an end adds one report at most, and a restart uses one up. -/
theorem waiting_of_step (h : d.step? action = some d') (i : ℕ) :
    d'.waiting i + (deeds i d action d').countP Deed.isRestart ≤
      d.waiting i + (deeds i d action d').countP (Deed.isEnd fun _ => true) := by
  -- Every other step leaves what waits as it is, or drops some of it.
  have hother (haction : action ≠ .respawn) (hle : d'.waiting i ≤ d.waiting i) :
      d'.waiting i + (deeds i d action d').countP Deed.isRestart ≤
        d.waiting i + (deeds i d action d').countP (Deed.isEnd fun _ => true) := by
    rw [countP_isRestart_deeds haction]
    exact hle.trans (Nat.le_add_right _ _)
  cases hworker : action.worker? with
  | some w =>
    refine hother (by rintro rfl; cases hworker) (le_of_eq ?_)
    rcases worker_step hworker h with ⟨s, s', hquiet⟩ | ⟨-, s, s', x, rest, htaking⟩
    · rw [hquiet.frame]
      exact waiting_congr i
    · rw [htaking.frame]
      exact waiting_congr i
  | none =>
    cases action with
    | start =>
      obtain rfl := Option.some.inj h
      refine hother (by simp) ?_
      split
      · exact Nat.le_refl _
      · exact Nat.le.intro (waiting_turn d _ i)
    | spawn =>
      obtain ⟨-, -, rfl⟩ := spawn_step h
      exact hother (by simp) (waiting_congr i).le
    | stop =>
      rcases stop_step h with ⟨-, rfl⟩ | ⟨-, -, -, rfl⟩
      · exact hother (by simp) (Nat.le_refl _)
      · exact hother (by simp) (waiting_congr i).le
    | postStop =>
      obtain ⟨-, rfl⟩ := postStop_step h
      exact hother (by simp) ((waiting_congr (d := d.post .stop) i).trans_le (waiting_post d .stop i))
    | cancelWorkers =>
      obtain ⟨-, -, rfl⟩ := cancelWorkers_step h
      exact hother (by simp) (waiting_congr i).le
    | closeQueue =>
      obtain ⟨-, rfl⟩ := closeQueue_step h
      exact hother (by simp) (waiting_congr i).le
    | join =>
      obtain ⟨v, -, ⟨-, rfl⟩ | ⟨s, -, -, rfl⟩⟩ := join_step h <;>
      exact hother (by simp) (waiting_congr i).le
    | deliver x =>
      obtain rfl := Option.some.inj h
      refine hother (by simp) ?_
      split
      · exact Nat.le_refl _
      · exact (waiting_congr i).le
    | arrive n =>
      obtain ⟨x, -, rfl⟩ := arrive_step h
      exact hother (by simp) (waiting_post _ (.candidate x) i)
    | enable | kill | wait =>
      obtain rfl := Option.some.inj h
      exact hother (by simp) (waiting_congr i).le
    | handle =>
      obtain ⟨event, rest, hcontrol, hmailbox, rfl⟩ := handle_step h
      exact hother (by simp) (waiting_handleEvent hcontrol hmailbox i)
    | collect =>
      obtain ⟨hcontrol, -, rfl⟩ := collect_step h
      refine hother (by simp) (le_of_eq (congrArg ((d.exits i).length + ·) ?_))
      rw [due, due, hcontrol]
      exact (count_due_collect d.pending d.clock i).trans (by rw [Control.workers, List.append_nil])
    | decide =>
      obtain ⟨v, rest, hcontrol, rfl⟩ := decide_step h
      refine hother (by simp) ?_
      have hturn := waiting_turn d
        { d with control := if d.stopping then afterRestart rest else .respawning v rest } i
      have hworkers : d.control.workers = v :: rest := by rw [hcontrol]; rfl
      have hle : (if d.stopping then afterRestart rest else .respawning v rest).workers.count i ≤
          (v :: rest).count i := by
        split_ifs
        · rw [workers_afterRestart]
          exact List.count_le_count_cons
        · exact Nat.le_refl _
      rw [hworkers] at hturn
      dsimp only at hturn
      omega
    | respawn =>
      obtain ⟨v, rest, hcontrol, rfl⟩ := respawn_step h
      have hturn := waiting_turn d { d with
        slots := d.slots.modify v nextGeneration, totals.restarts := d.totals.restarts + 1
        control := afterRestart rest } i
      have hworkers : d.control.workers = v :: rest := by rw [hcontrol]; rfl
      have hcount : (deeds i d .respawn { d with
          slots := d.slots.modify v nextGeneration, totals.restarts := d.totals.restarts + 1
          control := afterRestart rest }).countP Deed.isRestart = if v == i then 1 else 0 := by
        simp only [deeds, hcontrol]
        split_ifs <;> simp_all [Deed.isRestart]
      rw [hworkers, workers_afterRestart, List.count_cons] at hturn
      rw [hcount]
      omega
    | exit v =>
      obtain ⟨s, reason, error, hs, hphase, rfl⟩ := exit_step h
      rw [countP_isRestart_deeds (by simp)]
      refine (waiting_post _ _ i).trans (Nat.add_le_add (waiting_congr i).le ?_)
      by_cases hv : v = i
      · subst hv
        simp [deeds, hs, hphase, Phase.reason?, Deed.isEnd, Event.exit?]
      · simp [Event.exit?, hv]
    | _ => cases hworker

/-! ### Slots -/

/-- A worker is there after it was created, and gone after its end. -/
theorem SlotStep.live (h : SlotStep d i s shown s') :
    s'.phase.isLive.toNat + shown.countP (Deed.isEnd fun _ => true) ≤
      s.phase.isLive.toNat + shown.countP Deed.isRestart + shown.countP Deed.isFirst := by
  cases h with
  | work labour =>
    have hnone : shown.countP (Deed.isEnd fun _ => true) = 0 := by
      cases labour <;> rfl
    rw [labour.live, labour.live', hnone, Nat.add_assoc]
    exact Nat.le_add_right _ _
  | exit reason error phase =>
    rw [phase]
    exact Nat.le_refl _
  | spawn | restart => exact Nat.le_add_left _ _
  | idle | ask | handle | cancel | join => exact Nat.le_refl _

/-- **A step gives no slot a second carrier.** -/
theorem Carried.step (h : Carried d) (hstep : d.step? action = some d') : Carried d' := by
  have hsteps := slotSteps_of_step hstep
  refine ⟨fun i s' hs' => ?_, fun i hi => ?_⟩
  · obtain ⟨s, hs, hslot⟩ := hsteps.slot' hs'
    have hbefore := h.slot i s hs
    have hwaiting := waiting_of_step hstep i
    have hlive := hslot.live
    have hfirst := countP_isFirst_deeds (i := i) hstep
    omega
  · rw [hsteps.length] at hi
    have hbefore := h.none i hi
    have hwaiting := waiting_of_step hstep i
    rw [countP_isEnd_deeds hi] at hwaiting
    omega

/-- **Every slot has one carrier at most** in each state that can be reached. -/
theorem carried_of_reachable (h : Reachable c d) : Carried d := by
  induction h with
  | new => exact carried_new c
  | step _ _ hstep ih => exact ih.step hstep

/-! ### Where workers are created -/

/-- A slot that has a worker is one for which the call to start has created one. -/
theorem Carried.spawned_of_isLive (h : Carried d) (hs : d.slots[i]? = some s)
    (hlive : s.phase.isLive = true) : i < d.spawned := by
  have hslot := h.slot i s hs
  rw [hlive] at hslot
  by_contra hnot
  rw [decide_eq_false hnot] at hslot
  exact absurd ((Nat.le_add_right _ _).trans hslot) (by simp)

/-- A restart is for a slot, and finds no worker there. -/
theorem Carried.resting (h : Carried d) {rest : List ℕ} (hcontrol : d.control = .respawning i rest) :
    ∃ s, d.slots[i]? = some s ∧ s.phase = .absent := by
  have hdue : 0 < d.waiting i := by
    rw [waiting, due, hcontrol, Control.workers, List.count_append, List.count_cons_self]
    omega
  have hlt : i < d.slots.length := by
    by_contra hnot
    exact hdue.ne' (h.none i (Nat.not_lt.1 hnot))
  have hs := List.getElem?_eq_getElem hlt
  refine ⟨_, hs, Phase.eq_absent_of_isLive (Bool.toNat_eq_zero.1 ?_)⟩
  have hslot := h.slot i _ hs
  have hspawned := Bool.toNat_le (decide (i < d.spawned))
  omega

/-- A worker is created only where there is none. -/
theorem Carried.absent_of_created (h : Carried d) (hs : d.slots[i]? = some s)
    (hslot : SlotStep d i s shown s') (hcreated : .spawned ∈ shown ∨ .restarted ∈ shown) :
    s.phase = .absent := by
  cases hslot with
  | spawn next =>
    refine Phase.eq_absent_of_isLive (Bool.eq_false_iff.2 fun hlive => ?_)
    exact absurd (h.spawned_of_isLive hs hlive) (by omega)
  | restart rest control =>
    obtain ⟨t, ht, habsent⟩ := h.resting control
    obtain rfl := Option.some.inj (hs.symm.trans ht)
    exact habsent
  | work labour => cases labour <;> simp at hcreated
  | _ => simp at hcreated

end Dispatcher
end ProofMiner
