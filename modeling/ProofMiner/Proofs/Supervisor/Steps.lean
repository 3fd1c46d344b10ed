/-
# What each step of the dispatcher can do

One lemma for each kind of step says when it is possible and which state it leads to, so that an
invariant is checked against these and nobody unfolds `step?` again.

A worker that takes a step other than its last one changes only its own slot, the directories, the
queue, the totals and the list of proofs (`worker_step`): it keeps its generation, it goes on living,
and its slot gets no other status but running. From the queue it takes the first item or nothing.
-/

import Mathlib.Data.List.Basic
import ProofMiner.Supervisor.Step

namespace ProofMiner
namespace Dispatcher

variable {d d' : Dispatcher} {action : Action} {w : ℕ}

/-! ### Parts of steps -/

/-- An event is posted unless the control loop has ended. -/
theorem post_of_ne_ended (h : d.control ≠ .ended) (event : Event) :
    d.post event = { d with mailbox := d.mailbox ++ [event] } := if_neg h

theorem post_of_ended (h : d.control = .ended) (event : Event) : d.post event = d := if_pos h

/-- Posting an event changes no slot. -/
theorem post_slots (d : Dispatcher) (event : Event) : (d.post event).slots = d.slots := by
  unfold post
  split <;> rfl

/-- A change of a slot that is known puts another one in its place. -/
theorem modify_eq_set {slots : List Slot} {s : Slot} (hs : slots[w]? = some s) (f : Slot → Slot) :
    slots.modify w f = slots.set w (f s) := by
  rw [List.modify_eq_set_getElem?, hs]
  rfl

/-- The slot that a restart leaves. -/
def nextGeneration (s : Slot) : Slot :=
  { s with
    generation := s.generation + 1, restarts := s.restarts + 1, status := .starting
    completedAttempt := false, cancelled := false, phase := .preparing
    workerGeneration := s.generation + 1 }

/-- A restart changes one slot and one of the totals. -/
theorem restartWorker_eq (d : Dispatcher) (w : ℕ) :
    d.restartWorker w = { d with
      slots := d.slots.modify w nextGeneration, totals.restarts := d.totals.restarts + 1 } := by
  rw [restartWorker, spawnWorker, modifySlot, modifySlot]
  dsimp only
  rw [List.modify_modify_eq]
  rfl

/-- A candidate is ignored, queued or dropped; with a closed queue nothing happens. -/
theorem handleCandidate_cases (d : Dispatcher) (c : Candidate) :
    (d.enabled = false ∧
      d.handleCandidate c = { d with totals.ignored := d.totals.ignored + 1 }) ∨
    (d.enabled = true ∧ d.queue.closed = false ∧ d.queue.size < d.queue.capacity ∧
      d.handleCandidate c = { d with
        queue.items := d.queue.items ++ [c], totals.accepted := d.totals.accepted + 1 }) ∨
    (d.enabled = true ∧ d.queue.closed = false ∧ d.queue.capacity ≤ d.queue.size ∧
      d.handleCandidate c = { d with totals.dropped := d.totals.dropped + 1 }) ∨
    (d.enabled = true ∧ d.queue.closed = true ∧ d.handleCandidate c = d) := by
  rw [handleCandidate, BoundedQueue.push]
  cases henabled : d.enabled with
  | false => exact .inl ⟨rfl, rfl⟩
  | true =>
    cases hclosed : d.queue.closed with
    | true => exact .inr (.inr (.inr ⟨rfl, rfl, rfl⟩))
    | false =>
      by_cases hfull : d.queue.capacity ≤ d.queue.size
      · exact .inr (.inr (.inl ⟨rfl, rfl, hfull, by simp [hfull]⟩))
      · exact .inr (.inl ⟨rfl, rfl, by omega, by simp [hfull, hclosed]⟩)

/-- The end of a worker is put down to its slot, and then the slot is left alone, or restarted later
or at once. The end of an older generation, or of no worker at all, changes nothing. -/
theorem handleExit_cases (d : Dispatcher) (w : ℕ) (generation : UInt64) (reason : ExitReason)
    (error : String) :
    ((∀ s, d.slots[w]? = some s → s.generation ≠ generation) ∧
      d.handleExit w generation reason error = d) ∨
    ∃ s, d.slots[w]? = some s ∧ s.generation = generation ∧
      (((d.stopping = true ∨ d.policy.allows s.restarts = false) ∧
        d.handleExit w generation reason error =
          { d with slots := d.slots.set w (s.ended reason error) }) ∨
      (d.stopping = false ∧ d.policy.allows s.restarts = true ∧
        ((∃ due, d.handleExit w generation reason error = { d with
            slots := d.slots.set w (s.ended reason error), pending := d.pending ++ [⟨w, due⟩] }) ∨
          d.handleExit w generation reason error = { d with
            slots := d.slots.set w (s.ended reason error), control := .respawning w [] }))) := by
  rw [handleExit]
  cases hs : d.slots[w]? with
  | none => exact .inl ⟨fun s h => (by cases h), rfl⟩
  | some s =>
    dsimp only
    by_cases hgeneration : s.generation = generation
    · refine .inr ⟨s, rfl, hgeneration, ?_⟩
      rw [if_neg (not_not.2 hgeneration)]
      by_cases hquiet : d.stopping = true ∨ d.policy.allows s.restarts = false
      · refine .inl ⟨hquiet, if_pos ?_⟩
        simpa [stopping, Slot.ended] using hquiet
      · rw [if_neg (by simpa [stopping, Slot.ended] using hquiet)]
        rw [not_or, Bool.not_eq_true, Bool.not_eq_false] at hquiet
        refine .inr ⟨hquiet.1, hquiet.2, ?_⟩
        split
        · exact .inl ⟨_, rfl⟩
        · exact .inr rfl
    · refine .inl ⟨fun s' h => ?_, if_pos hgeneration⟩
      obtain rfl : s = s' := Option.some.inj h
      exact hgeneration

/-- What only the calls from outside change. -/
structure SameCalls (d d' : Dispatcher) : Prop where
  enabled : d'.enabled = d.enabled
  delivering : d'.delivering = d.delivering
  stopCall : d'.stopCall = d.stopCall

/-- Neither events nor what is done about them are calls. -/
theorem post_calls (d : Dispatcher) (event : Event) : SameCalls d (d.post event) := by
  unfold post
  split <;> exact ⟨rfl, rfl, rfl⟩

theorem handleEvent_calls (d : Dispatcher) (event : Event) (rest : List Event) :
    SameCalls d (d.handleEvent event rest) := by
  cases event with
  | stop => exact ⟨rfl, rfl, rfl⟩
  | candidate x =>
    rw [handleEvent]
    rcases handleCandidate_cases { d with mailbox := rest } x with
      ⟨-, heq⟩ | ⟨-, -, -, heq⟩ | ⟨-, -, -, heq⟩ | ⟨-, -, heq⟩ <;>
      rw [heq] <;> exact ⟨rfl, rfl, rfl⟩
  | exited w generation reason error =>
    rw [handleEvent]
    rcases handleExit_cases { d with mailbox := rest } w generation reason error with
      ⟨-, heq⟩ | ⟨s, -, -, ⟨-, heq⟩ | ⟨-, -, ⟨due, heq⟩ | heq⟩⟩ <;>
      rw [heq] <;> exact ⟨rfl, rfl, rfl⟩

/-! ### Calls and the control loop -/

/-- What each step presupposes, and what it makes of the state. -/
theorem arrive_step {i : ℕ} (h : d.step? (.arrive i) = some d') :
    ∃ c, d.delivering[i]? = some c ∧
      d' = { d with delivering := d.delivering.eraseIdx i }.post (.candidate c) := by
  rw [step?] at h
  cases hc : d.delivering[i]? with
  | none => rw [hc] at h; cases h
  | some c => rw [hc] at h; exact ⟨c, rfl, (Option.some.inj h).symm⟩

theorem spawn_step (h : d.step? .spawn = some d') :
    d.started = true ∧ d.spawned < d.slots.length ∧
      d' = { d.spawnWorker d.spawned with spawned := d.spawned + 1 } := by
  rw [step?, Option.ite_none_right_eq_some] at h
  exact ⟨h.1.1, h.1.2, (Option.some.inj h.2).symm⟩

theorem handle_step (h : d.step? .handle = some d') :
    ∃ event rest, d.control = .waiting ∧ d.mailbox = event :: rest ∧
      d' = d.handleEvent event rest := by
  rw [step?] at h
  split at h
  next event rest hcontrol hmailbox =>
    exact ⟨event, rest, hcontrol, hmailbox, (Option.some.inj h).symm⟩
  next => cases h

theorem collect_step (h : d.step? .collect = some d') :
    d.control = .waiting ∧ d.mailbox = [] ∧
      d' = { d with
        pending := d.pending.filter fun p => !decide (p.due.toInt ≤ d.clock)
        control := .restarting
          ((d.pending.filter fun p => decide (p.due.toInt ≤ d.clock)).map (·.worker)) } := by
  rw [step?, Option.ite_none_right_eq_some] at h
  refine ⟨h.1.1, h.1.2, ?_⟩
  have h := h.2
  rw [List.partition_eq_filter_filter] at h
  dsimp only at h
  split at h
  · cases h
  · exact (Option.some.inj h).symm

theorem decide_step (h : d.step? .decide = some d') :
    ∃ worker rest, d.control = .restarting (worker :: rest) ∧
      d' = { d with
        control := if d.stopping then afterRestart rest else .respawning worker rest } := by
  rw [step?] at h
  split at h
  next worker rest hcontrol => exact ⟨worker, rest, hcontrol, (Option.some.inj h).symm⟩
  next => cases h

theorem respawn_step (h : d.step? .respawn = some d') :
    ∃ worker rest, d.control = .respawning worker rest ∧
      d' = { d with
        slots := d.slots.modify worker nextGeneration
        totals.restarts := d.totals.restarts + 1, control := afterRestart rest } := by
  rw [step?] at h
  split at h
  next worker rest hcontrol =>
    rw [restartWorker_eq] at h
    exact ⟨worker, rest, hcontrol, (Option.some.inj h).symm⟩
  next => cases h

/-- A call to stop is empty, or it is the first one, after the call to start has returned. -/
theorem stop_step (h : d.step? .stop = some d') :
    ((d.started = false ∨ d.stopping = true) ∧ d' = d) ∨
      (d.started = true ∧ d.stopCall = .none ∧ d.slots.length ≤ d.spawned ∧
        d' = { d with stopCall := .requested }) := by
  rw [step?] at h
  split at h
  next hidle =>
    exact .inl ⟨by simpa using hidle, (Option.some.inj h).symm⟩
  next hidle =>
    rw [Option.ite_none_left_eq_some] at h
    rw [Bool.or_eq_true, not_or] at hidle
    refine .inr ⟨by simpa using hidle.1, by simpa [stopping] using hidle.2, Nat.not_lt.1 h.1,
      (Option.some.inj h.2).symm⟩

theorem postStop_step (h : d.step? .postStop = some d') :
    d.stopCall = .requested ∧ d' = { d.post .stop with stopCall := .posted } := by
  rw [step?, Option.ite_none_right_eq_some] at h
  exact ⟨h.1, (Option.some.inj h.2).symm⟩

theorem cancelWorkers_step (h : d.step? .cancelWorkers = some d') :
    d.stopCall = .posted ∧ d.control = .ended ∧
      d' = { d with
        slots := d.slots.map (fun s => { s with cancelled := true }), stopCall := .cancelled } := by
  rw [step?, Option.ite_none_right_eq_some] at h
  exact ⟨h.1.1, h.1.2, (Option.some.inj h.2).symm⟩

theorem closeQueue_step (h : d.step? .closeQueue = some d') :
    d.stopCall = .cancelled ∧ d' = { d with queue := d.queue.close, stopCall := .joining 0 } := by
  rw [step?, Option.ite_none_right_eq_some] at h
  exact ⟨h.1, (Option.some.inj h.2).symm⟩

/-- The call to stop has seen all workers, or the next one, which has ended. -/
theorem join_step (h : d.step? .join = some d') :
    ∃ worker, d.stopCall = .joining worker ∧
      ((d.slots.length ≤ worker ∧ d' = { d with stopCall := .returned }) ∨
      (∃ s, d.slots[worker]? = some s ∧ s.phase.isLive = false ∧
        d' = { d.modifySlot worker (fun s => { s with status := .terminated }) with
          stopCall := .joining (worker + 1) })) := by
  rw [step?] at h
  split at h
  next worker hcall =>
    refine ⟨worker, hcall, ?_⟩
    rw [joinWorker] at h
    split at h
    next hslot =>
      exact .inl ⟨List.getElem?_eq_none_iff.1 hslot, (Option.some.inj h).symm⟩
    next s hslot =>
      rw [Option.ite_none_left_eq_some, Bool.not_eq_true] at h
      exact .inr ⟨s, hslot, h.1, (Option.some.inj h.2).symm⟩
  next => cases h

/-! ### Workers -/

/-- The worker that takes a step, if it is not its last one. -/
def Action.worker? : Action → Option ℕ
  | .prepare w | .load w _ | .take w | .finish w _ | .emit w _ => some w
  | _ => none

/-- A worker gets its directory, or leaves. -/
theorem prepare_step (h : d.step? (.prepare w) = some d') :
    ∃ s, d.slots[w]? = some s ∧ s.phase = .preparing ∧
      ((∃ scratch, d.scratch.create? (directory w s) = some scratch ∧
          d' = { d with scratch }.modifySlot w fun s => { s with phase := .loading }) ∨
        ∃ e, e.isConstruction = true ∧ d' = d.failConstruction w s e) := by
  rw [step?] at h
  obtain ⟨s, hs, h⟩ := Option.bind_eq_some_iff.1 h
  rw [Option.ite_none_right_eq_some] at h
  obtain ⟨hphase, h⟩ := h
  refine ⟨s, hs, hphase, ?_⟩
  split at h
  next scratch hcreated => exact .inl ⟨scratch, hcreated, (Option.some.inj h).symm⟩
  next => exact .inr ⟨_, ContextFault.isConstruction_ofScratch _ _, (Option.some.inj h).symm⟩

/-- A worker gets its context, or leaves. -/
theorem load_step {result : Except ContextFault Unit} (h : d.step? (.load w result) = some d') :
    ∃ s, d.slots[w]? = some s ∧ s.phase = .loading ∧
      (d' = d.modifySlot w (fun s => { s with status := .running, phase := .idle }) ∨
        ∃ e, result = .error e ∧ d' = d.failConstruction w s e) := by
  rw [step?] at h
  obtain ⟨s, hs, h⟩ := Option.bind_eq_some_iff.1 h
  rw [Option.ite_none_right_eq_some] at h
  obtain ⟨hphase, h⟩ := h
  refine ⟨s, hs, hphase, ?_⟩
  split at h
  · exact .inl (Option.some.inj h).symm
  · exact .inr ⟨_, rfl, (Option.some.inj h).symm⟩

/-- A worker takes the first item of the queue, or leaves. -/
theorem take_step (h : d.step? (.take w) = some d') :
    ∃ s, d.slots[w]? = some s ∧ s.phase = .idle ∧
      ((s.cancelled = false ∧ ∃ c rest, d.queue.items = c :: rest ∧
        d' = { d with
          queue := { d.queue with items := rest }
          totals.attempts := d.totals.attempts + 1 }.modifySlot w
            fun s => { s with phase := .attempting c }) ∨
      ((s.cancelled = true ∨ d.queue.items = [] ∧ d.queue.closed = true) ∧
        d' = d.leave w s (if d.stopping then .stopped else .killed) "")) := by
  rw [step?] at h
  obtain ⟨s, hs, h⟩ := Option.bind_eq_some_iff.1 h
  rw [Option.ite_none_right_eq_some] at h
  obtain ⟨hphase, h⟩ := h
  refine ⟨s, hs, hphase, ?_⟩
  obtain ⟨hcancelled, c, rest, hitems, hpop⟩ | ⟨hended, hpop⟩ | ⟨-, -, -, hpop⟩ :=
    d.queue.pop_cases s.cancelled <;>
    rw [hpop] at h
  · exact .inl ⟨hcancelled, c, rest, hitems, (Option.some.inj h).symm⟩
  · exact .inr ⟨hended, (Option.some.inj h).symm⟩
  · cases h

theorem finish_step {result : AttemptResult} (h : d.step? (.finish w result) = some d') :
    ∃ s c, d.slots[w]? = some s ∧ s.phase = .attempting c ∧
      d' = d.finishAttempt w s result := by
  rw [step?] at h
  obtain ⟨s, hs, h⟩ := Option.bind_eq_some_iff.1 h
  split at h
  next c hphase => exact ⟨s, c, hs, hphase, (Option.some.inj h).symm⟩
  next => cases h

theorem emit_step {result : Except Raised Unit} (h : d.step? (.emit w result) = some d') :
    ∃ s p rest, d.slots[w]? = some s ∧ s.phase = .emitting (p :: rest) ∧
      d' = d.emitProof w s p rest result := by
  rw [step?] at h
  obtain ⟨s, hs, h⟩ := Option.bind_eq_some_iff.1 h
  split at h
  next p rest hphase => exact ⟨s, p, rest, hs, hphase, (Option.some.inj h).symm⟩
  next => cases h

/-- The last step of a worker. -/
theorem exit_step (h : d.step? (.exit w) = some d') :
    ∃ s reason error, d.slots[w]? = some s ∧ s.phase = .leaving reason error ∧
      d' = (d.modifySlot w fun s => { s with phase := .absent }).post
        (.exited w s.workerGeneration reason error) := by
  rw [step?] at h
  obtain ⟨s, hs, h⟩ := Option.bind_eq_some_iff.1 h
  split at h
  next reason error hphase => exact ⟨s, reason, error, hs, hphase, (Option.some.inj h).symm⟩
  next => cases h

/-- What any step of a worker but its last one leaves as it is: its slot, before `s` and then `s'`,
keeps its place in the history of its generations, and nothing is touched but the five parts of the
state that are named. -/
structure WorkerStep (d : Dispatcher) (w : ℕ) (s s' : Slot) (d' : Dispatcher) : Prop where
  slot : d.slots[w]? = some s
  slots : d'.slots = d.slots.set w s'
  live : s.phase.isLive = true
  live' : s'.phase.isLive = true
  status : s'.status = s.status ∨ s'.status = .running
  generation : s'.generation = s.generation
  restarts : s'.restarts = s.restarts
  workerGeneration : s'.workerGeneration = s.workerGeneration
  frame : d' = { d with
    slots := d'.slots, scratch := d'.scratch, queue := d'.queue, totals := d'.totals
    emitted := d'.emitted }
  totals : d'.totals = { d.totals with
    attempts := d'.totals.attempts, failedAttempts := d'.totals.failedAttempts
    proofs := d'.totals.proofs, constructionFailures := d'.totals.constructionFailures }

/-- The slot is found as the step leaves it. -/
theorem WorkerStep.slot' {s s' : Slot} (h : WorkerStep d w s s' d') : d'.slots[w]? = some s' := by
  rw [h.slots, List.getElem?_set_self (List.getElem?_eq_some_iff.1 h.slot).1]

/-- A change of the worker's own slot, after changes of the other parts that it may touch. -/
theorem WorkerStep.of_modifySlot {x : Dispatcher} {s s' : Slot} {f : Slot → Slot}
    (hs : d.slots[w]? = some s) (hlive : s.phase.isLive = true) (hf : f s = s' := by rfl)
    (hlive' : s'.phase.isLive = true := by rfl)
    (hstatus : s'.status = s.status ∨ s'.status = .running := by exact .inl rfl)
    (hgeneration : s'.generation = s.generation := by rfl)
    (hrestarts : s'.restarts = s.restarts := by rfl)
    (hworker : s'.workerGeneration = s.workerGeneration := by rfl)
    (hx : x = { d with
      scratch := x.scratch, queue := x.queue, totals := x.totals, emitted := x.emitted } := by rfl)
    (htotals : x.totals = { d.totals with
      attempts := x.totals.attempts, failedAttempts := x.totals.failedAttempts
      proofs := x.totals.proofs, constructionFailures := x.totals.constructionFailures } := by rfl) :
    WorkerStep d w s s' (x.modifySlot w f) where
  slot := hs
  slots := by
    rw [modifySlot, List.modify_eq_set_getElem?, hx, hs, ← hf]
    rfl
  live := hlive
  live' := hlive'
  status := hstatus
  generation := hgeneration
  restarts := hrestarts
  workerGeneration := hworker
  frame := by rw [hx]; rfl
  totals := htotals

/-- A step of a worker that takes nothing from the queue. -/
structure QuietStep (d : Dispatcher) (w : ℕ) (s s' : Slot) (d' : Dispatcher) : Prop
    extends WorkerStep d w s s' d' where
  queue : d'.queue = d.queue
  attempts : d'.totals.attempts = d.totals.attempts
  phase' : ∀ c, s'.phase ≠ .attempting c

/-- A step of a worker that takes the first item of the queue and starts an attempt on it. -/
structure TakingStep (d : Dispatcher) (w : ℕ) (s s' : Slot) (c : Candidate) (rest : List Candidate)
    (d' : Dispatcher) : Prop extends WorkerStep d w s s' d' where
  cancelled : s.cancelled = false
  items : d.queue.items = c :: rest
  queue : d'.queue = { d.queue with items := rest }
  attempts : d'.totals.attempts = d.totals.attempts + 1
  phase' : s'.phase = .attempting c

variable {s : Slot}

/-- Steps of a worker that take no candidate. -/
theorem quietStep_leave (hs : d.slots[w]? = some s) (hlive : s.phase.isLive = true)
    (reason : ExitReason) (error : String) :
    QuietStep d w s { s with phase := .leaving reason error } (d.leave w s reason error) :=
  ⟨.of_modifySlot hs hlive, rfl, rfl, by simp⟩

/-- Whatever comes of its directory and its program, a worker that fails to get a context leaves. -/
theorem quietStep_failConstruction (hs : d.slots[w]? = some s) (hlive : s.phase.isLive = true)
    (e : ContextFault) : ∃ reason, QuietStep d w s { s with phase := .leaving reason e.message }
      (d.failConstruction w s e) := by
  rw [failConstruction]
  split
  · exact ⟨.constructionFailed, .of_modifySlot hs hlive, rfl, rfl, by simp⟩
  · exact ⟨.crashed, .of_modifySlot hs hlive, rfl, rfl, by simp⟩

/-- After an attempt, and after each proof, a worker passes on proofs or looks for a candidate. -/
theorem emit_cases (proofs : List MinedProof) :
    (Phase.emit proofs).isLive = true ∧ ∀ c, Phase.emit proofs ≠ .attempting c := by
  cases proofs <;> exact ⟨rfl, by simp [Phase.emit]⟩

theorem quietStep_finishAttempt (hs : d.slots[w]? = some s) (hlive : s.phase.isLive = true)
    (result : AttemptResult) : ∃ s', QuietStep d w s s' (d.finishAttempt w s result) := by
  cases result with
  | ok proofs =>
    exact ⟨_, .of_modifySlot hs hlive rfl (emit_cases proofs).1, rfl, rfl, (emit_cases proofs).2⟩
  | error e =>
    unfold finishAttempt
    dsimp only
    split
    · exact ⟨_, quietStep_leave hs hlive _ _⟩
    · exact ⟨_, .of_modifySlot hs hlive rfl, rfl, rfl, by simp⟩

theorem quietStep_emitProof (hs : d.slots[w]? = some s) (hlive : s.phase.isLive = true)
    (p : MinedProof) (rest : List MinedProof) (result : Except Raised Unit) :
    ∃ s', QuietStep d w s s' (d.emitProof w s p rest result) := by
  unfold emitProof
  dsimp only
  split
  · exact ⟨_, .of_modifySlot hs hlive rfl, rfl, rfl, by simp⟩
  · exact ⟨_, .of_modifySlot hs hlive rfl (emit_cases rest).1, rfl, rfl, (emit_cases rest).2⟩

/-- **A step of a worker**, other than its last one, takes nothing from the queue, or the first
item. -/
theorem worker_step (hw : action.worker? = some w) (h : d.step? action = some d') :
    (∃ s s', QuietStep d w s s' d') ∨
      (action = .take w ∧ ∃ s s' c rest, TakingStep d w s s' c rest d') := by
  cases action with
  | prepare v =>
    obtain rfl : v = w := Option.some.inj hw
    obtain ⟨s, hs, hphase, ⟨scratch, -, rfl⟩ | ⟨e, -, rfl⟩⟩ := prepare_step h
    · exact .inl ⟨s, _, .of_modifySlot hs (by rw [hphase]; rfl) rfl, rfl, rfl, by simp⟩
    · obtain ⟨reason, hstep⟩ := quietStep_failConstruction hs (by rw [hphase]; rfl) _
      exact .inl ⟨s, _, hstep⟩
  | load v result =>
    obtain rfl : v = w := Option.some.inj hw
    obtain ⟨s, hs, hphase, rfl | ⟨e, -, rfl⟩⟩ := load_step h
    · exact .inl ⟨s, _, .of_modifySlot hs (by rw [hphase]; rfl) rfl rfl (.inr rfl), rfl, rfl,
        by simp⟩
    · obtain ⟨reason, hstep⟩ := quietStep_failConstruction hs (by rw [hphase]; rfl) e
      exact .inl ⟨s, _, hstep⟩
  | take v =>
    obtain rfl : v = w := Option.some.inj hw
    obtain ⟨s, hs, hphase, ⟨hcancelled, c, rest, hitems, rfl⟩ | ⟨-, rfl⟩⟩ := take_step h
    · exact .inr ⟨rfl, s, _, c, rest, .of_modifySlot hs (by rw [hphase]; rfl) rfl, hcancelled,
        hitems, rfl, rfl, rfl⟩
    · exact .inl ⟨s, _, quietStep_leave hs (by rw [hphase]; rfl) _ _⟩
  | finish v result =>
    obtain rfl : v = w := Option.some.inj hw
    obtain ⟨s, c, hs, hphase, rfl⟩ := finish_step h
    obtain ⟨s', hstep⟩ := quietStep_finishAttempt hs (by rw [hphase]; rfl) result
    exact .inl ⟨s, s', hstep⟩
  | emit v result =>
    obtain rfl : v = w := Option.some.inj hw
    obtain ⟨s, p, rest, hs, hphase, rfl⟩ := emit_step h
    obtain ⟨s', hstep⟩ := quietStep_emitProof hs (by rw [hphase]; rfl) p rest result
    exact .inl ⟨s, s', hstep⟩
  | _ => cases hw

end Dispatcher
end ProofMiner
