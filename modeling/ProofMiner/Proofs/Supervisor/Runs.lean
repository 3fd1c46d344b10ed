/-
# Runs of the dispatcher

What is observed along a run is the list of what is noted at its steps (`observed`). What holds of a
new dispatcher, and is kept by one step together with what is noted there, holds at the end of every
run (`run_induction`).

The first use of it says how far calls and control loop can have come (`Orderly`): the control loop
ends only when the call to stop has told it, it leaves an empty mailbox, and the queue is closed only
afterwards.
-/

import ProofMiner.Proofs.Supervisor.Steps

namespace ProofMiner
namespace Dispatcher

variable {c : Config} {d d' : Dispatcher} {action : Action} {actions : List Action} {α : Type}

/-- A run goes on where its first part has ended. -/
theorem run?_append (actions rest : List Action) :
    d.run? (actions ++ rest) = (d.run? actions).bind fun d => d.run? rest := by
  induction actions generalizing d with
  | nil => rfl
  | cons action actions ih =>
    rw [List.cons_append, run?, run?, Option.bind_assoc]
    exact congrArg _ (funext fun d => ih)

/-! ### Observations -/

/-- What is noted at the steps of a run, in order. -/
def observed (note : Dispatcher → Action → Dispatcher → List α) :
    Dispatcher → List Action → List α
  | _, [] => []
  | d, action :: rest =>
    match d.step? action with
    | some d' => note d action d' ++ observed note d' rest
    | none => []

/-- **Induction over a run.** What a step preserves, together with what is noted at it, holds after
every run. -/
theorem run_induction (note : Dispatcher → Action → Dispatcher → List α)
    (P : Dispatcher → List α → Prop)
    (hstep : ∀ d h action d', P d h → d.step? action = some d' → P d' (h ++ note d action d'))
    {h : List α} (hstart : P d h) (hrun : d.run? actions = some d') :
    P d' (h ++ observed note d actions) := by
  induction actions generalizing d h with
  | nil =>
    obtain rfl := Option.some.inj hrun
    rwa [observed, List.append_nil]
  | cons action rest ih =>
    obtain ⟨next, hnext, hrest⟩ := Option.bind_eq_some_iff.1 hrun
    rw [observed, hnext, ← List.append_assoc]
    exact ih (hstep _ _ _ _ hstart hnext) hrest

/-- Runs lead to states that can be reached. -/
theorem reachable_of_run (hrun : (new c).run? actions = some d) : Reachable c d :=
  run_induction (fun _ _ _ => ([] : List Unit)) (fun d _ => Reachable c d)
    (fun _ _ _ _ hd hstep => hd.step _ hstep) (h := []) .new hrun

/-! ### How far calls and control loop have come -/

/-- The order of a start, of a stop and of the end of the control loop. -/
structure Orderly (d : Dispatcher) : Prop where
  unstarted : d.started = false → d.control = .absent ∧ d.stopCall = .none
  /-- Nothing ends the control loop until the call to stop tells it. -/
  serving : d.stopCall = .none ∨ d.stopCall = .requested →
    d.control ≠ .ended ∧ Event.stop ∉ d.mailbox
  /-- The call to stop goes on only when the control loop has ended. -/
  joining : d.stopCall ≠ .none → d.stopCall ≠ .requested → d.stopCall ≠ .posted →
    d.control = .ended
  ended : d.control = .ended → d.mailbox = []
  closed : d.queue.closed = true → d.control = .ended

/-- Before the start there is nothing out of order. -/
theorem orderly_new (c : Config) : Orderly (new c) where
  unstarted _ := ⟨rfl, rfl⟩
  serving _ := ⟨by simp [new], List.not_mem_nil⟩
  joining h := absurd rfl h
  ended := by simp [new]
  closed := by simp [new, BoundedQueue.new]

/-- What the order depends on. -/
theorem Orderly.congr (h : Orderly d) (hclosed : d'.queue.closed = d.queue.closed := by rfl)
    (hstarted : d'.started = d.started := by rfl) (hstopCall : d'.stopCall = d.stopCall := by rfl)
    (hcontrol : d'.control = d.control := by rfl) (hmailbox : d'.mailbox = d.mailbox := by rfl) :
    Orderly d' := by
  constructor
  · rw [hstarted, hcontrol, hstopCall]
    exact h.unstarted
  · rw [hstopCall, hcontrol, hmailbox]
    exact h.serving
  · rw [hstopCall, hcontrol]
    exact h.joining
  · rw [hcontrol, hmailbox]
    exact h.ended
  · rw [hclosed, hcontrol]
    exact h.closed

/-- An event other than the one that ends the control loop may come at any time. -/
theorem Orderly.post (h : Orderly d) {event : Event} (hevent : event ≠ .stop) :
    Orderly (d.post event) := by
  by_cases hended : d.control = .ended
  · rwa [post_of_ended hended]
  · rw [post_of_ne_ended hended]
    refine { h with serving := fun hcall => ⟨hended, ?_⟩, ended := fun h => absurd h hended }
    rw [List.mem_append, List.mem_singleton]
    exact fun hmem => hmem.elim (h.serving hcall).2 fun heq => hevent heq.symm

/-- A control loop that is not at its end may turn to anything but its end. -/
theorem Orderly.turn (h : Orderly d) (hcontrol : d.control ≠ .ended) (hstarted : d.started = true)
    (control : Control) (hturn : control ≠ .ended) : Orderly { d with control } where
  unstarted hnot := absurd hnot (by simp [hstarted])
  serving hcall := ⟨hturn, (h.serving hcall).2⟩
  joining hnone hrequested hposted := absurd (h.joining hnone hrequested hposted) hcontrol
  ended hend := absurd hend hturn
  closed hclosed := absurd (h.closed hclosed) hcontrol

/-- A call to stop that has begun goes on, and beyond telling the control loop only after its end. -/
theorem Orderly.proceed (h : Orderly d) (hcall : d.stopCall ≠ .none) (stopCall : StopCall)
    (hbegun : stopCall ≠ .none ∧ stopCall ≠ .requested)
    (hend : stopCall ≠ .posted → d.control = .ended) : Orderly { d with stopCall } where
  unstarted hnot := absurd (h.unstarted hnot).2 hcall
  serving hearly := absurd hearly (not_or.2 hbegun)
  joining _ _ hnot := hend hnot
  ended := h.ended
  closed := h.closed

/-- Workers do not touch the order of the calls. -/
theorem WorkerStep.orderly {w : ℕ} {s s' : Slot} (hstep : WorkerStep d w s s' d')
    (hclosed : d'.queue.closed = d.queue.closed) (h : Orderly d) : Orderly d' := by
  rw [hstep.frame]
  exact h.congr hclosed

/-- What a handled event does to the order. -/
theorem Orderly.handleEvent (h : Orderly d) (hcontrol : d.control = .waiting)
    (hstarted : d.started = true) {event : Event} {rest : List Event}
    (hmailbox : d.mailbox = event :: rest) : Orderly (d.handleEvent event rest) := by
  have hne : d.control ≠ .ended := by simp [hcontrol]
  have hpopped : Orderly { d with mailbox := rest } := by
    refine { h with serving := fun hcall => ⟨hne, fun hmem => ?_⟩, ended := fun h => absurd h hne }
    exact (h.serving hcall).2 (hmailbox ▸ List.mem_cons_of_mem _ hmem)
  cases event with
  | stop =>
    exact {
      unstarted := fun hnot => by cases hstarted.symm.trans hnot
      serving := fun hcall => absurd List.mem_cons_self (hmailbox ▸ (h.serving hcall).2)
      joining := fun _ _ _ => rfl
      ended := fun _ => rfl
      closed := fun _ => rfl }
  | candidate c =>
    rcases handleCandidate_cases { d with mailbox := rest } c with
      ⟨-, heq⟩ | ⟨-, -, -, heq⟩ | ⟨-, -, -, heq⟩ | ⟨-, -, heq⟩
    all_goals
      rw [Dispatcher.handleEvent, heq]
      exact hpopped.congr
  | exited w generation reason error =>
    rcases handleExit_cases { d with mailbox := rest } w generation reason error with
      ⟨-, heq⟩ | ⟨s, -, -, ⟨-, heq⟩ | ⟨-, -, ⟨due, heq⟩ | heq⟩⟩ <;>
      rw [Dispatcher.handleEvent, heq]
    · exact hpopped
    · exact hpopped.congr
    · exact hpopped.congr
    · exact (hpopped.turn hne hstarted (.respawning w []) (by simp)).congr

/-- The control loop goes on after a restart. -/
theorem afterRestart_ne_ended (workers : List ℕ) : afterRestart workers ≠ .ended := by
  cases workers <;> simp [afterRestart]

/-- **A step keeps the order.** -/
theorem Orderly.step (h : Orderly d) (hstep : d.step? action = some d') : Orderly d' := by
  -- A control loop that does something has been started.
  have hstarted (hcontrol : d.control ≠ .absent) : d.started = true := by
    by_contra hnot
    exact hcontrol (h.unstarted (Bool.eq_false_iff.2 hnot)).1
  cases hworker : action.worker? with
  | some w =>
    rcases worker_step hworker hstep with
      ⟨s, s', hquiet⟩ | ⟨-, s, s', c, rest, htaking⟩
    · exact hquiet.orderly (by rw [hquiet.queue]) h
    · exact htaking.orderly (by rw [htaking.queue]) h
  | none =>
    cases action with
    | start =>
      obtain rfl := Option.some.inj hstep
      split
      · exact h
      next hnot =>
        obtain ⟨hcontrol, hcall⟩ := h.unstarted (Bool.eq_false_iff.2 hnot)
        exact {
          unstarted := by simp
          serving := fun hcall => ⟨by simp, (h.serving hcall).2⟩
          joining := fun hnone => absurd hcall hnone
          ended := by simp
          closed := fun hclosed => absurd (h.closed hclosed) (by simp [hcontrol]) }
    | spawn =>
      obtain ⟨-, -, rfl⟩ := spawn_step hstep
      exact h.congr
    | stop =>
      rcases stop_step hstep with ⟨-, rfl⟩ | ⟨hon, hcall, -, rfl⟩
      · exact h
      · exact { h with
          unstarted := fun hnot => by cases hon.symm.trans hnot
          serving := fun _ => h.serving (.inl hcall)
          joining := fun _ hnot => absurd rfl hnot }
    | postStop =>
      obtain ⟨hcall, rfl⟩ := postStop_step hstep
      have hopen := (h.serving (.inr hcall)).1
      rw [post_of_ne_ended hopen]
      exact { h with
        unstarted := fun hnot => by cases hcall ▸ (h.unstarted hnot).2
        serving := by simp
        joining := fun _ _ hnot => absurd rfl hnot
        ended := fun hend => absurd hend hopen }
    | cancelWorkers =>
      obtain ⟨hcall, hend, rfl⟩ := cancelWorkers_step hstep
      exact (h.proceed (by simp [hcall]) .cancelled (by simp) fun _ => hend).congr
    | closeQueue =>
      obtain ⟨hcall, rfl⟩ := closeQueue_step hstep
      have hend := h.joining (by simp [hcall]) (by simp [hcall]) (by simp [hcall])
      exact { h.proceed (by simp [hcall]) (.joining 0) (by simp) fun _ => hend with
        closed := fun _ => hend }
    | join =>
      obtain ⟨worker, hcall, ⟨-, rfl⟩ | ⟨s, -, -, rfl⟩⟩ := join_step hstep
      all_goals
        have hend := h.joining (by simp [hcall]) (by simp [hcall]) (by simp [hcall])
      · exact h.proceed (by simp [hcall]) .returned (by simp) fun _ => hend
      · exact (h.proceed (by simp [hcall]) (.joining (worker + 1)) (by simp) fun _ => hend).congr
    | deliver c =>
      obtain rfl := Option.some.inj hstep
      split
      · exact h
      · exact h.congr
    | arrive i =>
      obtain ⟨c, -, rfl⟩ := arrive_step hstep
      refine Orderly.post ?_ (by simp)
      exact h.congr
    | enable on =>
      obtain rfl := Option.some.inj hstep
      exact h.congr
    | kill w =>
      obtain rfl := Option.some.inj hstep
      exact h.congr
    | handle =>
      obtain ⟨event, rest, hcontrol, hmailbox, rfl⟩ := handle_step hstep
      exact h.handleEvent hcontrol (hstarted (by simp [hcontrol])) hmailbox
    | collect =>
      obtain ⟨hcontrol, -, rfl⟩ := collect_step hstep
      exact (h.turn (by simp [hcontrol]) (hstarted (by simp [hcontrol]))
        (.restarting _) (by simp)).congr
    | decide =>
      obtain ⟨worker, rest, hcontrol, rfl⟩ := decide_step hstep
      refine h.turn (by simp [hcontrol]) (hstarted (by simp [hcontrol])) _ ?_
      split
      · exact afterRestart_ne_ended rest
      · simp
    | respawn =>
      obtain ⟨worker, rest, hcontrol, rfl⟩ := respawn_step hstep
      refine (h.turn (by simp [hcontrol]) (hstarted (by simp [hcontrol])) _
        (afterRestart_ne_ended rest)).congr
    | exit w =>
      obtain ⟨s, reason, error, -, -, rfl⟩ := exit_step hstep
      refine Orderly.post ?_ (by simp)
      exact h.congr
    | wait ms =>
      obtain rfl := Option.some.inj hstep
      exact h.congr
    | _ => cases hworker

/-- **Every state that can be reached is orderly.** -/
theorem orderly_of_reachable (h : Reachable c d) : Orderly d := by
  induction h with
  | new => exact orderly_new c
  | step _ _ hstep ih => exact ih.step hstep

end Dispatcher
end ProofMiner
