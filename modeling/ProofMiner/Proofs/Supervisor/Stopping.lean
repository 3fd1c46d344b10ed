/-
# How the call to stop comes to its return

The call to stop raises a flag, tells the control loop, waits for its end, asks every worker to end,
closes the queue, and waits for the workers one after the other. Everybody else goes on in the meantime:
workers exit, the control loop handles what is in its mailbox and carries out a restart that it had
decided on, and callers deliver candidates and ask for the end of workers.

What the call has seen to stays so all the same (`Closing`): restarts are the control loop's business,
and it has ended before the first worker is waited for. And the call is never stuck (`Flowing`): the
control loop gets to the event that ends it, and each worker that is waited for gets to its last step,
as long as programs come back. So from wherever the call has got to, some steps lead to its return
(`Underway.canReturn`).
-/

import ProofMiner.Proofs.Supervisor.Generations
import ProofMiner.Proofs.Supervisor.Slots

namespace ProofMiner

/-- Every worker has been asked to end. -/
def StopCall.hasCancelled : StopCall → Bool
  | cancelled | joining _ | returned => true
  | none | requested | posted => false

/-- The workers below this number, of so many workers, have been seen to end. -/
def StopCall.joined (workers : ℕ) : StopCall → ℕ
  | joining w => w
  | returned => workers
  | none | requested | posted | cancelled => 0

/-- Workers are joined only after all of them were cancelled. -/
theorem StopCall.hasCancelled_of_lt_joined {call : StopCall} {i workers : ℕ}
    (h : i < call.joined workers) : call.hasCancelled = true := by
  cases call with
  | joining | returned => rfl
  | _ => cases h

/-- A slot without a worker has none in any other phase. -/
theorem Phase.eq_absent_of_isLive {phase : Phase} (h : phase.isLive = false) : phase = .absent := by
  cases phase with
  | absent => rfl
  | _ => cases h

/-- A worker with nothing left to pass on is idle. -/
theorem Phase.emit_ne_emitting_nil (proofs : List MinedProof) :
    Phase.emit proofs ≠ .emitting [] := by
  cases proofs <;> simp [Phase.emit]

/-- How many steps a worker that is asked to end takes at most, if its attempt finds nothing. -/
def Phase.distance : Phase → ℕ
  | absent => 0
  | leaving _ _ => 1
  | idle => 2
  | emitting proofs => proofs.length + 2
  | attempting _ | loading => 3
  | preparing => 4

/-- It takes a step for each proof, and two to the end. -/
theorem Phase.distance_emit (proofs : List MinedProof) :
    (Phase.emit proofs).distance = proofs.length + 2 := by
  cases proofs <;> rfl

namespace Dispatcher

variable {c : Config} {d d' : Dispatcher} {action : Action} {actions : List Action}
variable {i w : ℕ} {s s' : Slot} {shown : List Deed}

/-! ### Who changes what -/

/-- A step of the call to stop. -/
def Action.stops : Action → Bool
  | .stop | .postStop | .cancelWorkers | .closeQueue | .join => true
  | _ => false

/-- A step of the control loop, or the one that starts it. -/
def Action.controls : Action → Bool
  | .start | .handle | .collect | .decide | .respawn => true
  | _ => false

/-- What a step leaves to others. -/
structure Framed (d : Dispatcher) (action : Action) (d' : Dispatcher) : Prop where
  stopCall : action.stops = false → d'.stopCall = d.stopCall
  started : action ≠ .start → d'.started = d.started
  spawned : d.spawned ≤ d'.spawned
  control : action.controls = false → d'.control = d.control
  mailbox : action ≠ .handle → d.mailbox <+: d'.mailbox

/-- An event leaves the rest of the state as it is. -/
theorem framed_post (d : Dispatcher) (event : Event) (action : Action) :
    Framed d action (d.post event) := by
  unfold post
  split
  · exact ⟨fun _ => rfl, fun _ => rfl, Nat.le_refl _, fun _ => rfl, fun _ => List.prefix_rfl⟩
  · exact ⟨fun _ => rfl, fun _ => rfl, Nat.le_refl _, fun _ => rfl, fun _ => List.prefix_append _ _⟩

theorem framed_handleEvent (d : Dispatcher) (event : Event) (rest : List Event) :
    Framed d .handle (d.handleEvent event rest) := by
  have hnew (x : Dispatcher) (hstopCall : x.stopCall = d.stopCall := by rfl)
      (hstarted : x.started = d.started := by rfl) (hspawned : x.spawned = d.spawned := by rfl) :
      Framed d .handle x :=
    ⟨fun _ => hstopCall, fun _ => hstarted, Nat.le_of_eq hspawned.symm, nofun, fun h => absurd rfl h⟩
  cases event with
  | stop => exact hnew _
  | candidate c =>
    rcases handleCandidate_cases { d with mailbox := rest } c with
      ⟨-, heq⟩ | ⟨-, -, -, heq⟩ | ⟨-, -, -, heq⟩ | ⟨-, -, heq⟩ <;>
      rw [handleEvent, heq] <;> exact hnew _
  | exited w generation reason error =>
    rcases handleExit_cases { d with mailbox := rest } w generation reason error with
      ⟨-, heq⟩ | ⟨s, -, -, ⟨-, heq⟩ | ⟨-, -, ⟨due, heq⟩ | heq⟩⟩ <;>
      rw [handleEvent, heq] <;> exact hnew _

/-- **What a step leaves alone.** One case for each action. -/
theorem framed_of_step (h : d.step? action = some d') : Framed d action d' := by
  have hself : Framed d action d :=
    ⟨fun _ => rfl, fun _ => rfl, Nat.le_refl _, fun _ => rfl, fun _ => List.prefix_rfl⟩
  cases hworker : action.worker? with
  | some w =>
    rcases worker_step hworker h with ⟨s, s', hquiet⟩ | ⟨-, s, s', c, rest, htaking⟩
    · rw [hquiet.frame]
      exact { hself with }
    · rw [htaking.frame]
      exact { hself with }
  | none =>
    cases action with
    | start =>
      obtain rfl := Option.some.inj h
      split
      · exact hself
      · exact { hself with started := fun h => absurd rfl h, control := nofun }
    | spawn =>
      obtain ⟨-, -, rfl⟩ := spawn_step h
      exact { hself with spawned := Nat.le_succ _ }
    | stop =>
      rcases stop_step h with ⟨-, rfl⟩ | ⟨-, -, -, rfl⟩
      · exact hself
      · exact { hself with stopCall := nofun }
    | postStop =>
      obtain ⟨-, rfl⟩ := postStop_step h
      exact { framed_post d .stop .postStop with stopCall := nofun }
    | cancelWorkers =>
      obtain ⟨-, -, rfl⟩ := cancelWorkers_step h
      exact { hself with stopCall := nofun }
    | closeQueue =>
      obtain ⟨-, rfl⟩ := closeQueue_step h
      exact { hself with stopCall := nofun }
    | join =>
      obtain ⟨w, -, ⟨-, rfl⟩ | ⟨s, -, -, rfl⟩⟩ := join_step h
      · exact { hself with stopCall := nofun }
      · exact { hself with stopCall := nofun }
    | deliver c =>
      obtain rfl := Option.some.inj h
      split
      · exact hself
      · exact { hself with }
    | arrive n =>
      obtain ⟨c, -, rfl⟩ := arrive_step h
      exact { framed_post { d with delivering := d.delivering.eraseIdx n } (.candidate c)
        (.arrive n) with }
    | enable | kill | wait =>
      obtain rfl := Option.some.inj h
      exact { hself with }
    | handle =>
      obtain ⟨event, rest, -, -, rfl⟩ := handle_step h
      exact framed_handleEvent d event rest
    | collect =>
      obtain ⟨-, -, rfl⟩ := collect_step h
      exact { hself with control := nofun }
    | decide =>
      obtain ⟨w, rest, -, rfl⟩ := decide_step h
      exact { hself with control := nofun }
    | respawn =>
      obtain ⟨w, rest, -, rfl⟩ := respawn_step h
      exact { hself with control := nofun }
    | exit w =>
      obtain ⟨s, reason, error, -, -, rfl⟩ := exit_step h
      exact { framed_post (d.modifySlot w fun s => { s with phase := .absent })
        (.exited w s.workerGeneration reason error) (.exit w) with }
    | _ => cases hworker

/-! ### What the call to stop has seen -/

/-- What the call to stop has seen to for good. -/
structure Closing (d : Dispatcher) : Prop where
  /-- It begins after the call to start has returned. -/
  spawned : d.stopCall ≠ .none → d.slots.length ≤ d.spawned
  cancelled : d.stopCall.hasCancelled = true →
    ∀ (i : ℕ) (s : Slot), d.slots[i]? = some s → s.cancelled = true
  gone : ∀ (i : ℕ) (s : Slot), d.slots[i]? = some s → i < d.stopCall.joined d.slots.length →
    s.phase = .absent ∧ s.status = .terminated

/-- Workers are asked to end, and waited for, after the end of the control loop. -/
theorem Orderly.ended_of_hasCancelled (ho : Orderly d) (h : d.stopCall.hasCancelled = true) :
    d.control = .ended := by
  refine ho.joining ?_ ?_ ?_ <;>
  · intro hcall
    rw [hcall] at h
    cases h

/-- A slot that has been asked to end stays asked, when no worker is created any more. -/
theorem SlotStep.cancelled_stays (h : SlotStep d i s shown s') (hspawned : d.spawned ≠ i)
    (hended : d.control = .ended) (hcancelled : s.cancelled = true) : s'.cancelled = true := by
  cases h with
  | work labour => exact labour.same.1.trans hcancelled
  | spawn next => exact absurd next hspawned
  | restart rest control => cases hended.symm.trans control
  | ask | cancel => rfl
  | _ => exact hcancelled

/-- A slot without a worker stays without one, when no worker is created any more. -/
theorem SlotStep.over_stays (h : SlotStep d i s shown s') (hspawned : d.spawned ≠ i)
    (hended : d.control = .ended) (hover : s.phase = .absent ∧ s.status = .terminated) :
    s'.phase = .absent ∧ s'.status = .terminated := by
  cases h with
  | work labour => cases (congrArg Phase.isLive hover.1).symm.trans labour.live
  | exit reason error phase => cases hover.1.symm.trans phase
  | spawn next => exact absurd next hspawned
  | ask status => exact absurd hover.2 status
  | restart rest control => cases hended.symm.trans control
  | join => exact ⟨hover.1, rfl⟩
  | handle reason error rest control => cases hended.symm.trans control
  | idle | cancel => exact hover

/-- Nothing is closing before the call to stop. -/
theorem closing_new (c : Config) : Closing (new c) where
  spawned h := absurd rfl h
  cancelled h := by cases h
  gone i s _ h := absurd h (Nat.not_lt_zero i)

/-- Nobody creates a first worker when workers have been asked to end. -/
theorem Closing.spawned_ne (h : Closing d) (hasked : d.stopCall.hasCancelled = true)
    (hs : d.slots[i]? = some s) : d.spawned ≠ i := by
  have hnone : d.stopCall ≠ .none := by
    intro hnone
    rw [hnone] at hasked
    cases hasked
  exact Nat.ne_of_gt (Nat.lt_of_lt_of_le (List.getElem?_eq_some_iff.1 hs).1 (h.spawned hnone))

/-- What the call to stop has seen to stays so: workers that were cancelled stay so. -/
theorem Closing.cancelled_stays (h : Closing d) (ho : Orderly d) (hstep : d.step? action = some d')
    (hasked : d.stopCall.hasCancelled = true) (i : ℕ) (s' : Slot) (hs' : d'.slots[i]? = some s') :
    s'.cancelled = true := by
  obtain ⟨s, hs, hslot⟩ := (slotSteps_of_step hstep).slot' hs'
  exact hslot.cancelled_stays (h.spawned_ne hasked hs) (ho.ended_of_hasCancelled hasked)
    (h.cancelled hasked i s hs)

/-- Workers that were joined stay away. -/
theorem Closing.over_stays (h : Closing d) (ho : Orderly d) (hstep : d.step? action = some d')
    (i : ℕ) (s' : Slot) (hs' : d'.slots[i]? = some s') (hi : i < d.stopCall.joined d.slots.length) :
    s'.phase = .absent ∧ s'.status = .terminated := by
  have hasked := StopCall.hasCancelled_of_lt_joined hi
  obtain ⟨s, hs, hslot⟩ := (slotSteps_of_step hstep).slot' hs'
  exact hslot.over_stays (h.spawned_ne hasked hs) (ho.ended_of_hasCancelled hasked)
    (h.gone i s hs hi)

/-- A step of anybody but the call to stop. -/
theorem Closing.aside (h : Closing d) (ho : Orderly d) (hstops : action.stops = false)
    (hstep : d.step? action = some d') : Closing d' := by
  have hlength := (slotSteps_of_step hstep).length
  have hframed := framed_of_step hstep
  constructor
  · rw [hframed.stopCall hstops, hlength]
    exact fun hbegun => Nat.le_trans (h.spawned hbegun) hframed.spawned
  · rw [hframed.stopCall hstops]
    exact h.cancelled_stays ho hstep
  · rw [hframed.stopCall hstops, hlength]
    exact h.over_stays ho hstep

/-- **What has been seen to stays so.** -/
theorem Closing.step (h : Closing d) (ho : Orderly d) (hstep : d.step? action = some d') :
    Closing d' := by
  cases hstops : action.stops with
  | false => exact h.aside ho hstops hstep
  | true =>
    cases action with
    | stop =>
      rcases stop_step hstep with ⟨-, rfl⟩ | ⟨-, -, hspawned, rfl⟩
      · exact h
      · exact ⟨fun _ => hspawned, nofun, fun i _ _ hi => absurd hi (Nat.not_lt_zero i)⟩
    | postStop =>
      obtain ⟨hcall, rfl⟩ := postStop_step hstep
      refine ⟨fun _ => ?_, nofun, fun i _ _ hi => absurd hi (Nat.not_lt_zero i)⟩
      have hspawned := h.spawned (by simp [hcall])
      have hslots := post_slots d .stop
      have hframed := framed_post d .stop .postStop
      rw [← hslots] at hspawned
      exact Nat.le_trans hspawned hframed.spawned
    | cancelWorkers =>
      obtain ⟨hcall, -, rfl⟩ := cancelWorkers_step hstep
      refine ⟨fun _ => ?_, fun _ i s' hs' => ?_, fun i _ _ hi => absurd hi (Nat.not_lt_zero i)⟩
      · rw [List.length_map]
        exact h.spawned (by simp [hcall])
      · rw [List.getElem?_map] at hs'
        obtain ⟨s, -, rfl⟩ := Option.map_eq_some_iff.1 hs'
        rfl
    | closeQueue =>
      obtain ⟨hcall, rfl⟩ := closeQueue_step hstep
      exact ⟨fun _ => h.spawned (by simp [hcall]), fun _ => h.cancelled (by rw [hcall]; rfl),
        fun i _ _ hi => absurd hi (Nat.not_lt_zero i)⟩
    | join =>
      have hstays := h.over_stays ho hstep
      have hasks := h.cancelled_stays ho hstep
      obtain ⟨w, hcall, ⟨hlast, rfl⟩ | ⟨s, hs, hover, rfl⟩⟩ := join_step hstep
      · refine ⟨fun _ => h.spawned (by simp [hcall]), fun _ => hasks (by rw [hcall]; rfl), ?_⟩
        intro i s hs hi
        exact hstays i s hs (by rw [hcall]; exact Nat.lt_of_lt_of_le hi hlast)
      · refine ⟨fun _ => ?_, fun _ => hasks (by rw [hcall]; rfl), fun i t ht hi => ?_⟩
        · rw [modifySlot_slots hs, List.length_set]
          exact h.spawned (by simp [hcall])
        · obtain hlt | rfl := Nat.lt_succ_iff_lt_or_eq.1 hi
          · exact hstays i t ht (by rw [hcall]; exact hlt)
          · have hlength := (List.getElem?_eq_some_iff.1 hs).1
            rw [modifySlot_slots hs, List.getElem?_set_self hlength] at ht
            obtain rfl := Option.some.inj ht
            exact ⟨Phase.eq_absent_of_isLive hover, rfl⟩
    | _ => cases hstops

/-! ### The way to its return -/

/-- Nothing that the call to stop waits for can get stuck. -/
structure Flowing (d : Dispatcher) : Prop where
  emitting : ∀ s ∈ d.slots, s.phase ≠ .emitting []
  restarting : d.control ≠ .restarting []
  started : d.started = true → d.control ≠ .absent
  /-- The control loop has ended, or will find the event that ends it. -/
  told : d.stopCall = .posted → d.control = .ended ∨ Event.stop ∈ d.mailbox

/-- No worker is left with an empty list to pass on. -/
theorem SlotStep.emitting_ne_nil (h : SlotStep d i s shown s') (hs : s.phase ≠ .emitting []) :
    s'.phase ≠ .emitting [] := by
  cases h with
  | work labour =>
    cases labour with
    | finish | pass => exact Phase.emit_ne_emitting_nil _
    | _ => simp
  | exit | spawn | restart => simp [firstGeneration, nextGeneration]
  | _ => exact hs

/-- The control loop never restarts an empty list of slots. -/
theorem collect_ne_nil (h : d.step? .collect = some d') : d'.control ≠ .restarting [] := by
  rw [step?, Option.ite_none_right_eq_some] at h
  have h := h.2
  dsimp only at h
  split at h
  · cases h
  next hdue =>
    obtain rfl := Option.some.inj h
    simpa using hdue

theorem afterRestart_cases (workers : List ℕ) :
    afterRestart workers ≠ .restarting [] ∧ afterRestart workers ≠ .absent := by
  cases workers <;> simp [afterRestart]

/-- A handled event ends the control loop, or it is taken away, and a restart is decided on at most. -/
theorem handleEvent_control (d : Dispatcher) (event : Event) (rest : List Event) :
    (event = .stop ∧ (d.handleEvent event rest).control = .ended) ∨
    (event ≠ .stop ∧ (d.handleEvent event rest).mailbox = rest ∧
      ((d.handleEvent event rest).control = d.control ∨
        d.stopping = false ∧ ∃ w, (d.handleEvent event rest).control = .respawning w [])) := by
  cases event with
  | stop => exact .inl ⟨rfl, rfl⟩
  | candidate c =>
    refine .inr ⟨by simp, ?_⟩
    rcases handleCandidate_cases { d with mailbox := rest } c with
      ⟨-, heq⟩ | ⟨-, -, -, heq⟩ | ⟨-, -, -, heq⟩ | ⟨-, -, heq⟩ <;>
      rw [handleEvent, heq] <;> exact ⟨rfl, .inl rfl⟩
  | exited w generation reason error =>
    refine .inr ⟨by simp, ?_⟩
    rcases handleExit_cases { d with mailbox := rest } w generation reason error with
      ⟨-, heq⟩ | ⟨s, -, -, ⟨-, heq⟩ | ⟨hrunning, -, ⟨due, heq⟩ | heq⟩⟩ <;>
      rw [handleEvent, heq]
    · exact ⟨rfl, .inl rfl⟩
    · exact ⟨rfl, .inl rfl⟩
    · exact ⟨rfl, .inl rfl⟩
    · exact ⟨rfl, .inr ⟨hrunning, w, rfl⟩⟩

/-- In the beginning nothing is in progress. -/
theorem flowing_new (c : Config) : Flowing (new c) where
  emitting s hs := by
    obtain rfl := List.eq_of_mem_replicate hs
    simp
  restarting := by simp [new]
  started := by simp [new]
  told := by simp [new]

/-- What the control loop turns to after one of its own steps. -/
theorem controls_cases (ho : Orderly d) (h : d.step? action = some d')
    (hcontrols : action.controls = true) :
    d' = d ∨ d.control ≠ .ended ∧ d'.control ≠ .restarting [] ∧ d'.control ≠ .absent ∧
      (Event.stop ∈ d.mailbox → d'.control = .ended ∨ Event.stop ∈ d'.mailbox) := by
  cases action with
  | start =>
    obtain rfl := Option.some.inj h
    split
    · exact .inl rfl
    next hnot =>
      have habsent := (ho.unstarted (Bool.eq_false_iff.2 hnot)).1
      exact .inr ⟨by simp [habsent], by simp, by simp, .inr⟩
  | handle =>
    obtain ⟨event, rest, hcontrol, hmailbox, rfl⟩ := handle_step h
    refine .inr ⟨by simp [hcontrol], ?_⟩
    obtain ⟨-, hended⟩ | ⟨hevent, hrest, hsame | ⟨-, w, hrespawning⟩⟩ :=
      handleEvent_control d event rest
    · exact ⟨by simp [hended], by simp [hended], fun _ => .inl hended⟩
    · rw [hsame, hrest, hmailbox]
      refine ⟨by simp [hcontrol], by simp [hcontrol], fun hmem => .inr ?_⟩
      exact (List.mem_cons.1 hmem).resolve_left (Ne.symm hevent)
    · rw [hrespawning, hrest, hmailbox]
      refine ⟨by simp, by simp, fun hmem => .inr ?_⟩
      exact (List.mem_cons.1 hmem).resolve_left (Ne.symm hevent)
  | collect =>
    have hne := collect_ne_nil h
    obtain ⟨hcontrol, -, rfl⟩ := collect_step h
    exact .inr ⟨by simp [hcontrol], hne, by simp, .inr⟩
  | decide =>
    obtain ⟨w, rest, hcontrol, rfl⟩ := decide_step h
    refine .inr ⟨by simp [hcontrol], ?_, ?_, .inr⟩ <;> dsimp only <;> split
    · exact (afterRestart_cases rest).1
    · simp
    · exact (afterRestart_cases rest).2
    · simp
  | respawn =>
    obtain ⟨w, rest, hcontrol, rfl⟩ := respawn_step h
    exact .inr ⟨by simp [hcontrol], (afterRestart_cases rest).1, (afterRestart_cases rest).2, .inr⟩
  | _ => cases hcontrols

/-- Nobody but the control loop takes the event that ends it. -/
theorem Flowing.told_of_step (h : Flowing d) (hstep : d.step? action = some d')
    (hcontrols : action.controls = false) (hposted : d'.stopCall = .posted) :
    d'.control = .ended ∨ Event.stop ∈ d'.mailbox := by
  have hframed := framed_of_step hstep
  cases hstops : action.stops with
  | false =>
    have hhandle : action ≠ .handle := by
      rintro rfl
      cases hcontrols
    rw [hframed.stopCall hstops] at hposted
    rw [hframed.control hcontrols]
    exact (h.told hposted).imp_right fun hmem => (hframed.mailbox hhandle).subset hmem
  | true =>
    cases action with
    | stop =>
      obtain ⟨-, rfl⟩ | ⟨-, -, -, rfl⟩ := stop_step hstep
      · exact h.told hposted
      · cases hposted
    | postStop =>
      obtain ⟨-, rfl⟩ := postStop_step hstep
      by_cases hended : d.control = .ended
      · exact .inl ((hframed.control rfl).trans hended)
      · right
        rw [post_of_ne_ended hended]
        exact List.mem_append_right _ List.mem_cons_self
    | cancelWorkers =>
      obtain ⟨-, -, rfl⟩ := cancelWorkers_step hstep
      cases hposted
    | closeQueue =>
      obtain ⟨-, rfl⟩ := closeQueue_step hstep
      cases hposted
    | join =>
      obtain ⟨w, -, ⟨-, rfl⟩ | ⟨s, -, -, rfl⟩⟩ := join_step hstep <;> cases hposted
    | _ => cases hstops

/-- A step leaves nothing stuck. -/
theorem Flowing.step (h : Flowing d) (ho : Orderly d) (hstep : d.step? action = some d') :
    Flowing d' := by
  have hframed := framed_of_step hstep
  have hemitting (s' : Slot) (hs' : s' ∈ d'.slots) : s'.phase ≠ .emitting [] := by
    obtain ⟨i, hs'⟩ := List.mem_iff_getElem?.1 hs'
    obtain ⟨s, hs, hslot⟩ := (slotSteps_of_step hstep).slot' hs'
    exact hslot.emitting_ne_nil (h.emitting s (List.mem_of_getElem? hs))
  cases hcontrols : action.controls with
  | true =>
    obtain rfl | ⟨hended, hrestarting, habsent, htold⟩ := controls_cases ho hstep hcontrols
    · exact h
    · have hstops : action.stops = false := by
        cases action <;> first | rfl | cases hcontrols
      refine ⟨hemitting, hrestarting, fun _ => habsent, fun hposted => ?_⟩
      exact htold ((h.told (hframed.stopCall hstops ▸ hposted)).resolve_left hended)
  | false =>
    refine ⟨hemitting, ?_, ?_, h.told_of_step hstep hcontrols⟩
    · rw [hframed.control hcontrols]
      exact h.restarting
    · have hstart : action ≠ .start := by
        rintro rfl
        cases hcontrols
      rw [hframed.control hcontrols, hframed.started hstart]
      exact h.started

/-- What is known of every state that a dispatcher comes to. -/
structure Underway (d : Dispatcher) : Prop where
  orderly : Orderly d
  closing : Closing d
  flowing : Flowing d

/-- What is known of every state is kept by a step. -/
theorem Underway.step (h : Underway d) (hstep : d.step? action = some d') : Underway d' :=
  ⟨h.orderly.step hstep, h.closing.step h.orderly hstep, h.flowing.step h.orderly hstep⟩

/-- Some steps lead to the return of the call to stop. -/
def CanReturn (d : Dispatcher) : Prop :=
  ∃ rest e, d.run? rest = some e ∧ e.stopCall = .returned

/-- If the call can return from the next state, it can from this one. -/
theorem CanReturn.of_step (h : CanReturn d') (hstep : d.step? action = some d') : CanReturn d := by
  obtain ⟨rest, e, hrun, hreturned⟩ := h
  exact ⟨action :: rest, e, by rw [run?, hstep, Option.bind_some, hrun], hreturned⟩

/-- Some step, which is not one of the call to stop, brings the worker of slot `w` closer to its
end. -/
def Approaches (d : Dispatcher) (w : ℕ) (s : Slot) : Prop :=
  ∃ action d', action.stops = false ∧ d.step? action = some d' ∧
    ∃ s', d'.slots[w]? = some s' ∧ s'.phase.distance < s.phase.distance

/-- A worker that does something comes closer to its end. -/
theorem approaches_of_labour (action : Action) (hs : d.slots[w]? = some s)
    (hw : action.worker? = some w)
    (hstep : ∃ d', d.step? action = some d')
    (hcloser : ∀ d' s', Labour d s (deeds w d action d') s' →
      s'.phase.distance < s.phase.distance) : Approaches d w s := by
  obtain ⟨d', hstep⟩ := hstep
  obtain ⟨t, s', ht, hslots, hlabour⟩ := labour_of_step hw hstep
  obtain rfl := Option.some.inj (hs.symm.trans ht)
  refine ⟨action, d', ?_, hstep, s', ?_, hcloser d' s' hlabour⟩
  · cases action <;> first | rfl | cases hw
  · rw [hslots, List.getElem?_set_self (List.getElem?_eq_some_iff.1 hs).1]

/-- A worker that is asked to end can take a step towards its end. -/
theorem approaches (hs : d.slots[w]? = some s) (hlive : s.phase.isLive = true)
    (hcancelled : s.cancelled = true) (hemitting : s.phase ≠ .emitting []) : Approaches d w s := by
  cases hphase : s.phase with
  | absent =>
    rw [hphase] at hlive
    cases hlive
  | preparing =>
    refine approaches_of_labour (.prepare w) hs rfl ?_ fun d' s' hlabour => ?_
    · simp only [step?, hs, Option.bind_eq_bind, Option.bind_some, hphase, if_true]
      split <;> exact ⟨_, rfl⟩
    · rw [hphase]
      cases hlabour <;> simp_all [Phase.distance]
  | loading =>
    refine approaches_of_labour (.load w (.ok ())) hs rfl ?_ fun d' s' hlabour => ?_
    · simp only [step?, hs, Option.bind_eq_bind, Option.bind_some, hphase, if_true]
      exact ⟨_, rfl⟩
    · rw [hphase]
      cases hlabour <;> simp_all [Phase.distance]
  | idle =>
    refine approaches_of_labour (.take w) hs rfl ?_ fun d' s' hlabour => ?_
    · simp only [step?, hs, Option.bind_eq_bind, Option.bind_some, hphase, if_true, hcancelled,
        BoundedQueue.pop_cancelled]
      exact ⟨_, rfl⟩
    · generalize deeds w d (.take w) d' = shown at hlabour
      rw [hphase]
      cases hlabour <;> simp_all [Phase.distance]
  | attempting c =>
    refine approaches_of_labour (.finish w (.ok [])) hs rfl ?_ fun d' s' hlabour => ?_
    · simp only [step?, hs, Option.bind_eq_bind, Option.bind_some, hphase]
      exact ⟨_, rfl⟩
    · have hshown : deeds w d (.finish w (.ok [])) d' = [.finished (.ok [])] := if_pos rfl
      rw [hshown] at hlabour
      cases hlabour with
      | finish c' phase proofs =>
        rw [hphase, Phase.distance_emit]
        exact Nat.lt_succ_self _
  | emitting proofs =>
    obtain _ | ⟨p, rest⟩ := proofs
    · exact absurd hphase hemitting
    refine approaches_of_labour (.emit w (.ok ())) hs rfl ?_ fun d' s' hlabour => ?_
    · simp only [step?, hs, Option.bind_eq_bind, Option.bind_some, hphase]
      exact ⟨_, rfl⟩
    · generalize deeds w d (.emit w (.ok ())) d' = shown at hlabour
      cases hlabour with
      | pass p' rest' phase =>
        obtain ⟨-, rfl⟩ := List.cons.inj (Phase.emitting.inj (phase.symm.trans hphase))
        rw [phase, Phase.distance_emit]
        exact Nat.lt_succ_self _
      | _ => simp_all [Phase.distance]
  | leaving reason error =>
    have hstep : d.step? (.exit w) = some ((d.modifySlot w fun s => { s with
        phase := .absent }).post (.exited w s.workerGeneration reason error)) := by
      simp only [step?, hs, Option.bind_eq_bind, Option.bind_some, hphase]
      rfl
    refine ⟨.exit w, _, rfl, hstep, { s with phase := .absent }, ?_, ?_⟩
    · rw [post_slots, modifySlot_slots hs,
        List.getElem?_set_self (List.getElem?_eq_some_iff.1 hs).1]
    · rw [hphase]
      exact Nat.zero_lt_one

/-- The workers that are waited for come to their ends. -/
theorem Underway.canReturn_of_joining (h : Underway d) (hcall : d.stopCall = .joining w) :
    CanReturn d := by
  -- The induction is on the workers that are left, and within it on the steps that `w` needs.
  obtain ⟨left, hleft⟩ : ∃ left, d.slots.length - w = left := ⟨_, rfl⟩
  induction left using Nat.strongRecOn generalizing d w with
  | ind left ih =>
    cases hs : d.slots[w]? with
    | none =>
      have hjoin : d.step? .join = some { d with stopCall := .returned } := by
        simp only [step?, hcall, joinWorker, hs]
      exact .of_step ⟨[], _, rfl, rfl⟩ hjoin
    | some s =>
      obtain ⟨distance, hdistance⟩ : ∃ distance, s.phase.distance = distance := ⟨_, rfl⟩
      induction distance using Nat.strongRecOn generalizing d s with
      | ind distance ihWorker =>
        cases hlive : s.phase.isLive with
        | false =>
          have hjoin : d.step? .join = some { d.modifySlot w fun s => { s with
              status := .terminated } with stopCall := .joining (w + 1) } := by
            simp only [step?, hcall, joinWorker, hs, hlive, Bool.false_eq_true, if_false]
          have hlength := (slotSteps_of_step hjoin).length
          have hw := (List.getElem?_eq_some_iff.1 hs).1
          exact .of_step (ih _ (by omega) (h.step hjoin) rfl rfl) hjoin
        | true =>
          have hcancelled := h.closing.cancelled (by rw [hcall]; rfl) w s hs
          obtain ⟨action, d', hstops, hstep, s', hs', hcloser⟩ := approaches hs hlive hcancelled
            (h.flowing.emitting s (List.mem_of_getElem? hs))
          have hsame := (framed_of_step hstep).stopCall hstops
          have hlength := (slotSteps_of_step hstep).length
          refine .of_step (ihWorker _ (hdistance ▸ hcloser) (h.step hstep) (hsame.trans hcall) ?_ s'
            hs' rfl) hstep
          rw [hlength, hleft]

/-- One case for each stage of the call, the last one first. -/
theorem Underway.canReturn_of_cancelled (h : Underway d) (hcall : d.stopCall = .cancelled) :
    CanReturn d := by
  have hclose : d.step? .closeQueue = some { d with
      queue := d.queue.close, stopCall := .joining 0 } := if_pos hcall
  exact .of_step ((h.step hclose).canReturn_of_joining rfl) hclose

/-- The control loop comes to the event that ends it. -/
theorem Underway.canReturn_of_posted (h : Underway d) (hcall : d.stopCall = .posted) :
    CanReturn d := by
  obtain ⟨left, hleft⟩ : ∃ left, d.mailbox.length + d.control.workers.length = left := ⟨_, rfl⟩
  induction left using Nat.strongRecOn generalizing d with
  | ind left ih =>
    have hon (action : Action) (d' : Dispatcher) (hstops : action.stops = false)
        (hstep : d.step? action = some d')
        (hless : d'.mailbox.length + d'.control.workers.length < left) : CanReturn d :=
      .of_step (ih _ hless (h.step hstep) (((framed_of_step hstep).stopCall hstops).trans hcall) rfl)
        hstep
    have hstopping : d.stopping = true := by simp [stopping, hcall]
    cases hcontrol : d.control with
    | absent =>
      have hstarted : d.started = true := by
        by_contra hnot
        cases hcall.symm.trans (h.orderly.unstarted (Bool.eq_false_iff.2 hnot)).2
      exact absurd hcontrol (h.flowing.started hstarted)
    | waiting =>
      have htold := (h.flowing.told hcall).resolve_left (by simp [hcontrol])
      cases hmailbox : d.mailbox with
      | nil =>
        rw [hmailbox] at htold
        cases htold
      | cons event rest =>
        have hstep : d.step? .handle = some (d.handleEvent event rest) := by
          simp only [step?, hcontrol, hmailbox]
        refine hon .handle _ rfl hstep ?_
        rw [hcontrol, hmailbox, List.length_cons] at hleft
        obtain ⟨rfl, -⟩ | ⟨-, hrest, hsame | ⟨hrunning, -⟩⟩ := handleEvent_control d event rest
        · exact Nat.lt_of_lt_of_eq (Nat.succ_pos _) hleft
        · rw [hrest, hsame, hcontrol]
          exact Nat.lt_of_lt_of_eq (Nat.lt_succ_self _) hleft
        · cases hstopping.symm.trans hrunning
    | restarting workers =>
      obtain _ | ⟨w, rest⟩ := workers
      · exact absurd hcontrol h.flowing.restarting
      have hstep : d.step? .decide = some { d with control := afterRestart rest } := by
        simp only [step?, hcontrol, hstopping, if_true]
      refine hon .decide _ rfl hstep ?_
      rw [hcontrol] at hleft
      rw [workers_afterRestart]
      exact Nat.lt_of_lt_of_eq (Nat.lt_succ_self _) hleft
    | respawning w rest =>
      have hstep : d.step? .respawn = some { d.restartWorker w with
          control := afterRestart rest } := by
        simp only [step?, hcontrol]
      refine hon .respawn _ rfl hstep ?_
      rw [hcontrol] at hleft
      rw [workers_afterRestart]
      exact Nat.lt_of_lt_of_eq (Nat.lt_succ_self _) hleft
    | ended =>
      have hcancel : d.step? .cancelWorkers = some { d with
          slots := d.slots.map fun s => { s with cancelled := true }, stopCall := .cancelled } :=
        if_pos ⟨hcall, hcontrol⟩
      exact .of_step ((h.step hcancel).canReturn_of_cancelled rfl) hcancel

/-- **A call to stop that has begun can come to its return.** -/
theorem Underway.canReturn (h : Underway d) (hstopping : d.stopCall ≠ .none) : CanReturn d := by
  cases hcall : d.stopCall with
  | none => exact absurd hcall hstopping
  | requested =>
    have hpost : d.step? .postStop = some { d.post .stop with stopCall := .posted } := if_pos hcall
    exact .of_step ((h.step hpost).canReturn_of_posted rfl) hpost
  | posted => exact h.canReturn_of_posted hcall
  | cancelled => exact h.canReturn_of_cancelled hcall
  | joining w => exact h.canReturn_of_joining hcall
  | returned => exact ⟨[], d, rfl, hcall⟩

/-- It is known of a new dispatcher. -/
theorem underway_new (c : Config) : Underway (new c) :=
  ⟨orderly_new c, closing_new c, flowing_new c⟩

/-- It is known after every run. -/
theorem Underway.run (h : Underway d) (hrun : d.run? actions = some d') : Underway d' :=
  run_induction (fun _ _ _ => ([] : List Unit)) (fun d _ => Underway d)
    (fun _ _ _ _ hd hstep => hd.step hstep) (h := []) h hrun

/-- A call to stop that has begun is never forgotten. -/
theorem stopCall_ne_none_of_step (h : d.stopCall ≠ .none) (hstep : d.step? action = some d') :
    d'.stopCall ≠ .none := by
  cases hstops : action.stops with
  | false => rwa [(framed_of_step hstep).stopCall hstops]
  | true =>
    cases action with
    | stop =>
      obtain ⟨-, rfl⟩ | ⟨-, -, -, rfl⟩ := stop_step hstep
      · exact h
      · simp
    | postStop =>
      obtain ⟨-, rfl⟩ := postStop_step hstep
      simp
    | cancelWorkers =>
      obtain ⟨-, -, rfl⟩ := cancelWorkers_step hstep
      simp
    | closeQueue =>
      obtain ⟨-, rfl⟩ := closeQueue_step hstep
      simp
    | join =>
      obtain ⟨w, -, ⟨-, rfl⟩ | ⟨s, -, -, rfl⟩⟩ := join_step hstep <;> simp
    | _ => cases hstops

/-- A call to stop is not taken back by a step. -/
theorem stopCall_eq_none_of_step (hstep : d.step? action = some d') (h : d'.stopCall = .none) :
    d.stopCall = .none := by
  by_contra hbegun
  exact stopCall_ne_none_of_step hbegun hstep h

/-- A call to stop is not taken back by any run. -/
theorem stopCall_ne_none_of_run (h : d.stopCall ≠ .none) (hrun : d.run? actions = some d') :
    d'.stopCall ≠ .none :=
  run_induction (fun _ _ _ => ([] : List Unit)) (fun d _ => d.stopCall ≠ .none)
    (fun _ _ _ _ hd hstep => stopCall_ne_none_of_step hd hstep) (h := []) h hrun

end Dispatcher
end ProofMiner
