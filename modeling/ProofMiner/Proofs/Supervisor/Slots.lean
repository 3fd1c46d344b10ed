/-
# One slot seen on its own

The state of the dispatcher holds a table of slots, and each step changes one of them at most, apart
from the call to stop, which raises the cancel flags of all. What happens to a slot is noted as a list of
deeds (`deeds`), and `SlotStep` says how the slot looks before and after them: a worker's own labour
(`Labour`), which follows its phase, and what callers and the control loop do to it.

Every step of the dispatcher is such a step of each slot (`slotSteps_of_step`). So an invariant that
speaks of single slots is checked against the few cases here, and not against all steps.
-/

import ProofMiner.Proofs.Supervisor.Conservation

namespace ProofMiner

/-- Something that happens to a slot or that its worker does. -/
inductive Deed where
  /-- The call to start creates its first worker. -/
  | spawned
  /-- A request to end the worker is granted. -/
  | asked
  | took (c : Candidate)
  /-- An attempt comes to its end. -/
  | finished (result : AttemptResult)
  /-- A proof is passed on, and the receiver takes it like this. -/
  | passed (p : MinedProof) (result : Except Raised Unit)
  /-- The worker reports its end, which is its last step. -/
  | ended (reason : ExitReason)
  /-- A worker of the next generation is created. -/
  | restarted

/-- Why a worker that is about to report its end leaves. -/
def Phase.reason? : Phase → Option ExitReason
  | leaving reason _ => some reason
  | _ => none

/-- The proofs that a worker has still to pass on. -/
def Phase.owed : Phase → List MinedProof
  | emitting proofs => proofs
  | _ => []

/-- What a worker has in hand after its attempt, in whichever of the two phases it is. -/
@[simp] theorem Phase.owed_emit (proofs : List MinedProof) : (Phase.emit proofs).owed = proofs := by
  cases proofs <;> rfl

@[simp] theorem Phase.isLive_emit (proofs : List MinedProof) :
    (Phase.emit proofs).isLive = true := (Dispatcher.emit_cases proofs).1

@[simp] theorem Phase.candidate?_emit (proofs : List MinedProof) :
    (Phase.emit proofs).candidate? = none := by
  cases proofs <;> rfl

@[simp] theorem Phase.reason?_emit (proofs : List MinedProof) :
    (Phase.emit proofs).reason? = none := by
  cases proofs <;> rfl

/-- The reason for which a worker without a context leaves. -/
def ContextFault.reason (e : ContextFault) : ExitReason :=
  if e.isConstruction then .constructionFailed else .crashed

namespace Dispatcher

variable {d d' : Dispatcher} {action : Action} {i w : ℕ} {s s' : Slot}

/-- What a step from `d` to `d'` shows of slot `i`. -/
def deeds (i : ℕ) (d : Dispatcher) (action : Action) (d' : Dispatcher) : List Deed :=
  match action with
  | .spawn => if d.spawned = i then [.spawned] else []
  | .kill w => if w = i ∧ d.grantsKill i = true then [.asked] else []
  | .take w => if w = i then (d'.attempting? i).toList.map .took else []
  | .finish w result => if w = i then [.finished result] else []
  | .emit w result =>
    if w = i then (d'.emitted.drop d.emitted.length).map (.passed · result) else []
  | .exit w =>
    if w = i then (d.slots[i]?.bind fun s => s.phase.reason?).toList.map .ended else []
  | .respawn =>
    match d.control with
    | .respawning w _ => if w = i then [.restarted] else []
    | _ => []
  | _ => []

/-! ### The worker's own steps -/

/-- The steps of a slot's worker, other than its last one, with what is shown. -/
inductive Labour (d : Dispatcher) (s : Slot) : List Deed → Slot → Prop
  | prepare (phase : s.phase = .preparing) : Labour d s [] { s with phase := .loading }
  | unprepared (phase : s.phase = .preparing) (error : String) :
    Labour d s [] { s with phase := .leaving .constructionFailed error }
  | load (phase : s.phase = .loading) :
    Labour d s [] { s with status := .running, phase := .idle }
  | unloaded (phase : s.phase = .loading) (e : ContextFault) :
    Labour d s [] { s with phase := .leaving e.reason e.message }
  | take (phase : s.phase = .idle) (cancelled : s.cancelled = false) (c : Candidate)
    (rest : List Candidate) (items : d.queue.items = c :: rest) :
    Labour d s [.took c] { s with phase := .attempting c }
  | quit (phase : s.phase = .idle)
    (ended : s.cancelled = true ∨ d.queue.items = [] ∧ d.queue.closed = true) :
    Labour d s [] { s with phase := .leaving (if d.stopping then .stopped else .killed) "" }
  | finish (c : Candidate) (phase : s.phase = .attempting c) (proofs : List MinedProof) :
    Labour d s [.finished (.ok proofs)]
      { s with
        attempts := s.attempts + 1, proofs := s.proofs + proofs.length
        completedAttempt := true, phase := .emit proofs }
  | fail (c : Candidate) (phase : s.phase = .attempting c) (e : AttemptFault)
    (survives : e.endsWorker = false) :
    Labour d s [.finished (.error e)]
      { s with
        attempts := s.attempts + 1, failedAttempts := s.failedAttempts + 1
        completedAttempt := true, phase := .idle }
  | break (c : Candidate) (phase : s.phase = .attempting c) (e : AttemptFault)
    (ends : e.endsWorker = true) :
    Labour d s [.finished (.error e)] { s with phase := .leaving .crashed e.message }
  | pass (p : MinedProof) (rest : List MinedProof) (phase : s.phase = .emitting (p :: rest))
    (result : Except Raised Unit) (received : result ≠ .error .unknown) :
    Labour d s [.passed p result] { s with phase := .emit rest }
  | drop (p : MinedProof) (rest : List MinedProof) (phase : s.phase = .emitting (p :: rest)) :
    Labour d s [.passed p (.error .unknown)]
      { s with phase := .leaving .crashed Raised.unknown.message }

namespace Labour

variable {shown : List Deed}

/-- Only a worker that is alive does anything, and it does so until it reports its end. -/
theorem live (h : Labour d s shown s') : s.phase.isLive = true := by
  cases h <;> simp_all [Phase.isLive]

theorem live' (h : Labour d s shown s') : s'.phase.isLive = true := by
  cases h with
  | finish | pass => exact Phase.isLive_emit _
  | _ => rfl

/-- A worker leaves its place in the history of its slot as it is. -/
theorem same (h : Labour d s shown s') : s'.cancelled = s.cancelled ∧
    s'.generation = s.generation ∧ s'.restarts = s.restarts ∧
    s'.workerGeneration = s.workerGeneration ∧ s'.failures = s.failures ∧
    s'.lastExit = s.lastExit ∧ s'.lastError = s.lastError := by
  cases h <;> exact ⟨rfl, rfl, rfl, rfl, rfl, rfl, rfl⟩

/-- A worker changes the status of its slot only by beginning to run. -/
theorem status (h : Labour d s shown s') : s'.status = s.status ∨ s'.status = .running := by
  cases h with
  | load => exact .inr rfl
  | _ => exact .inl rfl

end Labour

/-! Where a part of a step changes one slot, the slots after it. -/

/-- What each change of a slot makes of the list of slots. -/
theorem modifySlot_slots (hs : d.slots[w]? = some s) (f : Slot → Slot) :
    (d.modifySlot w f).slots = d.slots.set w (f s) := modify_eq_set hs f

theorem leave_slots (hs : d.slots[w]? = some s) (reason : ExitReason) (error : String) :
    (d.leave w s reason error).slots = d.slots.set w { s with phase := .leaving reason error } :=
  modifySlot_slots hs _

theorem failConstruction_slots (hs : d.slots[w]? = some s) (e : ContextFault) :
    (d.failConstruction w s e).slots =
      d.slots.set w { s with phase := .leaving e.reason e.message } := by
  rw [failConstruction, ContextFault.reason]
  split_ifs
  · exact leave_slots hs _ _
  · exact modifySlot_slots hs _

/-- What the worker has in hand is told by its phase. -/
theorem attempting?_eq (hs : d.slots[w]? = some s) (hslots : d'.slots = d.slots.set w s') :
    d'.attempting? w = s'.phase.candidate? := by
  rw [attempting?, hslots, List.getElem?_set_self (List.getElem?_eq_some_iff.1 hs).1,
    Option.bind_some]

/-- The end of an attempt. -/
theorem labour_finishAttempt (hs : d.slots[w]? = some s) {c : Candidate}
    (hphase : s.phase = .attempting c) (result : AttemptResult) :
    ∃ s', (d.finishAttempt w s result).slots = d.slots.set w s' ∧
      Labour d s [.finished result] s' := by
  cases result with
  | ok proofs => exact ⟨_, modifySlot_slots hs _, .finish c hphase proofs⟩
  | error e =>
    unfold finishAttempt
    dsimp only
    split
    next hends => exact ⟨_, leave_slots hs _ _, .break c hphase e hends⟩
    next hends => exact ⟨_, modifySlot_slots hs _, .fail c hphase e (Bool.eq_false_iff.2 hends)⟩

/-- A proof is passed on. -/
theorem labour_emitProof (hs : d.slots[w]? = some s) {p : MinedProof} {rest : List MinedProof}
    (hphase : s.phase = .emitting (p :: rest)) (result : Except Raised Unit) :
    (d.emitProof w s p rest result).emitted = d.emitted ++ [p] ∧
    ∃ s', (d.emitProof w s p rest result).slots = d.slots.set w s' ∧
      Labour d s [.passed p result] s' := by
  unfold emitProof
  dsimp only
  split
  · exact ⟨rfl, _, leave_slots hs _ _, .drop p rest hphase⟩
  next hreceived => exact ⟨rfl, _, modifySlot_slots hs _, .pass p rest hphase result hreceived⟩

/-- **The labour of a worker.** -/
theorem labour_of_step (hw : action.worker? = some w) (h : d.step? action = some d') :
    ∃ s s', d.slots[w]? = some s ∧ d'.slots = d.slots.set w s' ∧
      Labour d s (deeds w d action d') s' := by
  cases action with
  | prepare v =>
    obtain rfl : v = w := Option.some.inj hw
    obtain ⟨s, hs, hphase, ⟨scratch, -, rfl⟩ | ⟨e, he, rfl⟩⟩ := prepare_step h
    · exact ⟨s, _, hs, modifySlot_slots hs _, .prepare hphase⟩
    · have hslots := failConstruction_slots hs e
      rw [ContextFault.reason, if_pos he] at hslots
      exact ⟨s, _, hs, hslots, .unprepared hphase _⟩
  | load v result =>
    obtain rfl : v = w := Option.some.inj hw
    obtain ⟨s, hs, hphase, rfl | ⟨e, -, rfl⟩⟩ := load_step h
    · exact ⟨s, _, hs, modifySlot_slots hs _, .load hphase⟩
    · exact ⟨s, _, hs, failConstruction_slots hs e, .unloaded hphase e⟩
  | take v =>
    obtain rfl : v = w := Option.some.inj hw
    rw [deeds, if_pos rfl]
    obtain ⟨s, hs, hphase, ⟨hcancelled, c, rest, hitems, rfl⟩ | ⟨hended, rfl⟩⟩ := take_step h
    · have hslots := modifySlot_slots (d := { d with
        queue := { d.queue with items := rest }, totals.attempts := d.totals.attempts + 1 }) hs
        fun s => { s with phase := .attempting c }
      rw [attempting?_eq hs hslots]
      exact ⟨s, _, hs, hslots, .take hphase hcancelled c rest hitems⟩
    · have hslots := leave_slots hs (if d.stopping then .stopped else .killed) ""
      rw [attempting?_eq hs hslots]
      exact ⟨s, _, hs, hslots, .quit hphase hended⟩
  | finish v result =>
    obtain rfl : v = w := Option.some.inj hw
    obtain ⟨s, c, hs, hphase, rfl⟩ := finish_step h
    obtain ⟨s', hslots, hlabour⟩ := labour_finishAttempt hs hphase result
    rw [deeds, if_pos rfl]
    exact ⟨s, s', hs, hslots, hlabour⟩
  | emit v result =>
    obtain rfl : v = w := Option.some.inj hw
    obtain ⟨s, p, rest, hs, hphase, rfl⟩ := emit_step h
    obtain ⟨hemitted, s', hslots, hlabour⟩ := labour_emitProof hs hphase result
    rw [deeds, if_pos rfl, hemitted, List.drop_left]
    exact ⟨s, s', hs, hslots, hlabour⟩
  | _ => cases hw

/-! ### Steps of a slot -/

/-- The slot for which the call to start has created a worker. -/
def firstGeneration (s : Slot) : Slot :=
  { s with
    status := .starting, completedAttempt := false, cancelled := false, phase := .preparing
    workerGeneration := s.generation }

/-- What a step can do to slot `i`, with what is shown of it. -/
inductive SlotStep (d : Dispatcher) (i : ℕ) (s : Slot) : List Deed → Slot → Prop
  | idle : SlotStep d i s [] s
  | work {shown : List Deed} {s' : Slot} (labour : Labour d s shown s') : SlotStep d i s shown s'
  | exit (reason : ExitReason) (error : String) (phase : s.phase = .leaving reason error) :
    SlotStep d i s [.ended reason] { s with phase := .absent }
  | spawn (next : d.spawned = i) : SlotStep d i s [.spawned] (firstGeneration s)
  | ask (status : s.status ≠ .terminated) : SlotStep d i s [.asked] { s with cancelled := true }
  /-- The control loop puts down the end of the worker. -/
  | handle (reason : ExitReason) (error : String) (rest : List Event)
    (control : d.control = .waiting)
    (mailbox : d.mailbox = .exited i s.generation reason error :: rest) :
    SlotStep d i s [] (s.ended reason error)
  | restart (rest : List ℕ) (control : d.control = .respawning i rest) :
    SlotStep d i s [.restarted] (nextGeneration s)
  /-- The call to stop asks every worker to end. -/
  | cancel (posted : d.stopCall = .posted) (control : d.control = .ended) :
    SlotStep d i s [] { s with cancelled := true }
  /-- The call to stop has seen the worker end. -/
  | join (joining : d.stopCall = .joining i) (gone : s.phase.isLive = false) :
    SlotStep d i s [] { s with status := .terminated }

/-- Every slot takes a step. -/
structure SlotSteps (d : Dispatcher) (action : Action) (d' : Dispatcher) : Prop where
  length : d'.slots.length = d.slots.length
  slot : ∀ (i : ℕ) (s : Slot), d.slots[i]? = some s →
    ∃ s', d'.slots[i]? = some s' ∧ SlotStep d i s (deeds i d action d') s'

namespace SlotSteps

/-- A step that touches no slot, or one, is a step of each. -/
theorem of_slots_eq (hslots : d'.slots = d.slots)
    (hshown : ∀ i < d.slots.length, deeds i d action d' = [] := by exact fun _ _ => rfl) :
    SlotSteps d action d' where
  length := by rw [hslots]
  slot i s hs := ⟨s, hslots ▸ hs, hshown i (List.getElem?_eq_some_iff.1 hs).1 ▸ .idle⟩

/-- One slot is changed, and nothing is shown of the others. -/
theorem of_set (hs : d.slots[w]? = some s) (hslots : d'.slots = d.slots.set w s')
    (hstep : SlotStep d w s (deeds w d action d') s')
    (hshown : ∀ i, w ≠ i → deeds i d action d' = []) : SlotSteps d action d' where
  length := by rw [hslots, List.length_set]
  slot i t ht := by
    rw [hslots]
    by_cases heq : w = i
    · subst heq
      obtain rfl := Option.some.inj (hs.symm.trans ht)
      exact ⟨s', List.getElem?_set_self (List.getElem?_eq_some_iff.1 hs).1, hstep⟩
    · exact ⟨t, by rwa [List.getElem?_set_ne heq], hshown i heq ▸ .idle⟩

/-- Each slot after a step was there before it. -/
theorem slot' (h : SlotSteps d action d') (hs' : d'.slots[i]? = some s') :
    ∃ s, d.slots[i]? = some s ∧ SlotStep d i s (deeds i d action d') s' := by
  have hlt : i < d.slots.length := h.length ▸ (List.getElem?_eq_some_iff.1 hs').1
  obtain ⟨t, ht, hstep⟩ := h.slot i _ (List.getElem?_eq_getElem hlt)
  obtain rfl := Option.some.inj (ht.symm.trans hs')
  exact ⟨_, List.getElem?_eq_getElem hlt, hstep⟩

end SlotSteps

/-- A request to end a worker raises its cancel flag, if it is granted. -/
theorem slotSteps_kill (d : Dispatcher) (w : ℕ) :
    SlotSteps d (.kill w) (d.modifySlot w fun s =>
      if s.status = .terminated then s else { s with cancelled := true }) := by
  cases hs : d.slots[w]? with
  | none =>
    have hrefused : d.grantsKill w = false := by rw [grantsKill, hs]
    refine .of_slots_eq ?_ fun i _ => if_neg ?_
    · exact List.modify_eq_self (List.getElem?_eq_none_iff.1 hs)
    · rintro ⟨rfl, hgrants⟩
      cases hrefused.symm.trans hgrants
  | some s =>
    have hslots := modifySlot_slots hs fun s =>
      if s.status = .terminated then s else { s with cancelled := true }
    refine .of_set hs hslots ?_ fun i hi => if_neg fun h => hi h.1
    by_cases hstatus : s.status = .terminated
    · have hrefused : ¬ d.grantsKill w = true := by simp [grantsKill, hs, hstatus]
      rw [if_pos hstatus, deeds, if_neg fun h => hrefused h.2]
      exact .idle
    · have hgrants : d.grantsKill w = true := by simp [grantsKill, hs, hstatus]
      rw [if_neg hstatus, deeds, if_pos ⟨rfl, hgrants⟩]
      exact .ask hstatus

/-- The control loop puts down the end of one worker at most. -/
theorem slotSteps_handle (h : d.step? .handle = some d') : SlotSteps d .handle d' := by
  obtain ⟨event, rest, hcontrol, hmailbox, rfl⟩ := handle_step h
  cases event with
  | stop => exact .of_slots_eq rfl
  | candidate c =>
    rcases handleCandidate_cases { d with mailbox := rest } c with
      ⟨-, heq⟩ | ⟨-, -, -, heq⟩ | ⟨-, -, -, heq⟩ | ⟨-, -, heq⟩ <;>
    exact .of_slots_eq (by rw [handleEvent, heq])
  | exited w generation reason error =>
    rcases handleExit_cases { d with mailbox := rest } w generation reason error with
      ⟨-, heq⟩ | ⟨s, hs, hgeneration, ⟨-, heq⟩ | ⟨-, -, ⟨due, heq⟩ | heq⟩⟩
    · exact .of_slots_eq (by rw [handleEvent, heq])
    all_goals
      subst hgeneration
      exact .of_set hs (by rw [handleEvent, heq])
        (.handle reason error rest hcontrol hmailbox) fun _ _ => rfl

/-- A worker is created again, if it is one of a slot. -/
theorem slotSteps_respawn (h : d.step? .respawn = some d') : SlotSteps d .respawn d' := by
  obtain ⟨w, rest, hcontrol, rfl⟩ := respawn_step h
  cases hs : d.slots[w]? with
  | none =>
    have hlength := List.getElem?_eq_none_iff.1 hs
    refine .of_slots_eq (List.modify_eq_self hlength) fun i hi => ?_
    rw [deeds, hcontrol]
    exact if_neg (by omega)
  | some s =>
    refine .of_set hs (modify_eq_set hs _) ?_ fun i hi => ?_
    · rw [deeds, hcontrol]
      dsimp only
      rw [if_pos rfl]
      exact .restart rest hcontrol
    · rw [deeds, hcontrol]
      exact if_neg hi

/-- **Every step is a step of each slot.** -/
theorem slotSteps_of_step (h : d.step? action = some d') : SlotSteps d action d' := by
  cases hworker : action.worker? with
  | some w =>
    obtain ⟨s, s', hs, hslots, hlabour⟩ := labour_of_step hworker h
    refine .of_set hs hslots (.work hlabour) fun i hi => ?_
    cases action with
    | prepare | load => rfl
    | take v | finish v | emit v =>
      obtain rfl : v = w := Option.some.inj hworker
      exact if_neg hi
    | _ => cases hworker
  | none =>
    cases action with
    | start =>
      obtain rfl := Option.some.inj h
      exact .of_slots_eq (by split <;> rfl)
    | spawn =>
      obtain ⟨-, hlt, rfl⟩ := spawn_step h
      have hs := List.getElem?_eq_getElem hlt
      refine .of_set hs (modify_eq_set hs _) ?_ fun i hi => if_neg hi
      rw [deeds, if_pos rfl]
      exact .spawn rfl
    | stop =>
      rcases stop_step h with ⟨-, rfl⟩ | ⟨-, -, -, rfl⟩ <;> exact .of_slots_eq rfl
    | postStop =>
      obtain ⟨-, rfl⟩ := postStop_step h
      exact .of_slots_eq (post_slots d .stop)
    | cancelWorkers =>
      obtain ⟨hposted, hended, rfl⟩ := cancelWorkers_step h
      refine ⟨List.length_map .., fun i s hs => ⟨_, ?_, .cancel hposted hended⟩⟩
      rw [List.getElem?_map, hs]
      rfl
    | closeQueue =>
      obtain ⟨-, rfl⟩ := closeQueue_step h
      exact .of_slots_eq rfl
    | join =>
      obtain ⟨w, hjoining, ⟨-, rfl⟩ | ⟨s, hs, hover, rfl⟩⟩ := join_step h
      · exact .of_slots_eq rfl
      · exact .of_set hs (modify_eq_set hs _) (.join hjoining hover) fun _ _ => rfl
    | deliver c =>
      obtain rfl := Option.some.inj h
      exact .of_slots_eq (by split <;> rfl)
    | arrive n =>
      obtain ⟨c, -, rfl⟩ := arrive_step h
      exact .of_slots_eq (post_slots _ _)
    | enable on =>
      obtain rfl := Option.some.inj h
      exact .of_slots_eq rfl
    | kill w =>
      obtain rfl := Option.some.inj h
      exact slotSteps_kill d w
    | handle => exact slotSteps_handle h
    | collect =>
      obtain ⟨-, -, rfl⟩ := collect_step h
      exact .of_slots_eq rfl
    | decide =>
      obtain ⟨w, rest, -, rfl⟩ := decide_step h
      exact .of_slots_eq rfl
    | respawn => exact slotSteps_respawn h
    | exit w =>
      obtain ⟨s, reason, error, hs, hphase, rfl⟩ := exit_step h
      have hslots := post_slots (d.modifySlot w fun s => { s with phase := .absent })
        (.exited w s.workerGeneration reason error)
      refine .of_set hs (hslots.trans (modify_eq_set hs _)) ?_ fun i hi => if_neg hi
      rw [deeds, if_pos rfl, hs, Option.bind_some, hphase]
      exact .exit reason error hphase
    | wait ms =>
      obtain rfl := Option.some.inj h
      exact .of_slots_eq rfl
    | _ => cases hworker

end Dispatcher
end ProofMiner
