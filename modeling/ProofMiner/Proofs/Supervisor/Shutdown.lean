/-
# After the call to stop nothing stirs

When the call to stop has returned, no worker is left and the control loop has ended, so nobody can take
a step but callers, and what they ask for is refused (`ShutDown.step`). Hence the state stays as it is,
apart from the flag of mining, the deliveries that run into nothing, and the time (`stop_is_final`).
-/

import ProofMiner.Proofs.Supervisor.Stopping

namespace ProofMiner
namespace Dispatcher

variable {c : Config} {d d' : Dispatcher} {action : Action} {actions : List Action} {w : ℕ}

/-- What callers do, and the time that passes. -/
def Action.isCall : Action → Bool
  | .start | .stop | .deliver _ | .arrive _ | .enable _ | .kill _ | .wait _ => true
  | _ => false

/-- Nobody is left who could take a step of their own. -/
structure ShutDown (d : Dispatcher) : Prop where
  returned : d.stopCall = .returned
  workers : ∀ s ∈ d.slots, s.phase.isLive = false ∧ s.status = .terminated
  mailbox : d.mailbox = []
  control : d.control = .ended
  /-- No request to end a worker is granted. -/
  refuses : ∀ w, d.grantsKill w = false

/-- When the call to stop has returned, everything is over. -/
theorem Closing.shutDown (h : Closing d) (ho : Orderly d) (hreturned : d.stopCall = .returned) :
    ShutDown d := by
  have hended := ho.ended_of_hasCancelled (by rw [hreturned]; rfl)
  have hover (i : ℕ) (s : Slot) (hs : d.slots[i]? = some s) :
      s.phase = .absent ∧ s.status = .terminated :=
    h.gone i s hs (by rw [hreturned]; exact (List.getElem?_eq_some_iff.1 hs).1)
  refine ⟨hreturned, fun s hs => ?_, ho.ended hended, hended, fun w => ?_⟩
  · obtain ⟨i, hs⟩ := List.mem_iff_getElem?.1 hs
    exact ⟨congrArg Phase.isLive (hover i s hs).1, (hover i s hs).2⟩
  · rw [grantsKill]
    cases hs : d.slots[w]? with
    | none => rfl
    | some s => exact decide_eq_false (not_not.2 (hover w s hs).2)

/-- A request that is not granted has no effect. -/
theorem kill_refused (h : d.grantsKill w = false) :
    (d.modifySlot w fun s =>
      if s.status = .terminated then s else { s with cancelled := true }) = d := by
  have hslots : (d.slots.modify w fun s =>
      if s.status = .terminated then s else { s with cancelled := true }) = d.slots := by
    cases hs : d.slots[w]? with
    | none => exact List.modify_eq_self (List.getElem?_eq_none_iff.1 hs)
    | some s =>
      have hstatus : s.status = .terminated := by simpa [grantsKill, hs] using h
      obtain ⟨hlt, rfl⟩ := List.getElem?_eq_some_iff.1 hs
      rw [modify_eq_set hs, if_pos hstatus, List.set_getElem_self]
  rw [modifySlot, hslots]

/-- Only callers are left, and they change nothing but the flag of mining and the deliveries under
way. -/
theorem ShutDown.step (h : ShutDown d) (hc : Closing d) (ho : Orderly d)
    (hstep : d.step? action = some d') : action.isCall = true ∧
      d' = { d with enabled := d'.enabled, delivering := d'.delivering, now := d'.now } := by
  have hspawned := hc.spawned (by simp [h.returned])
  cases hworker : action.worker? with
  | some w =>
    obtain ⟨s, s', hs, -, hlabour⟩ := labour_of_step hworker hstep
    cases (h.workers s (List.mem_of_getElem? hs)).1.symm.trans hlabour.live
  | none =>
    cases action with
    | start =>
      obtain rfl := Option.some.inj hstep
      have hstarted : d.started = true := by
        by_contra hnot
        cases h.returned.symm.trans (ho.unstarted (Bool.eq_false_iff.2 hnot)).2
      rw [if_pos hstarted]
      exact ⟨rfl, rfl⟩
    | spawn =>
      obtain ⟨-, hlt, -⟩ := spawn_step hstep
      omega
    | stop =>
      obtain ⟨-, rfl⟩ | ⟨-, hnone, -⟩ := stop_step hstep
      · exact ⟨rfl, rfl⟩
      · cases h.returned.symm.trans hnone
    | postStop => cases h.returned.symm.trans (postStop_step hstep).1
    | cancelWorkers => cases h.returned.symm.trans (cancelWorkers_step hstep).1
    | closeQueue => cases h.returned.symm.trans (closeQueue_step hstep).1
    | join =>
      obtain ⟨w, hcall, -⟩ := join_step hstep
      cases h.returned.symm.trans hcall
    | deliver c =>
      obtain rfl := Option.some.inj hstep
      have hstopping : d.stopping = true := by simp [stopping, h.returned]
      rw [if_pos hstopping]
      exact ⟨rfl, rfl⟩
    | arrive n =>
      obtain ⟨c, -, rfl⟩ := arrive_step hstep
      have hlost : { d with delivering := d.delivering.eraseIdx n }.post (.candidate c) =
          { d with delivering := d.delivering.eraseIdx n } := if_pos h.control
      rw [hlost]
      exact ⟨rfl, rfl⟩
    | enable | wait =>
      obtain rfl := Option.some.inj hstep
      exact ⟨rfl, rfl⟩
    | kill w =>
      obtain rfl := Option.some.inj hstep
      rw [kill_refused (h.refuses w)]
      exact ⟨rfl, rfl⟩
    | handle =>
      obtain ⟨event, rest, hcontrol, -⟩ := handle_step hstep
      cases h.control.symm.trans hcontrol
    | collect => cases h.control.symm.trans (collect_step hstep).1
    | decide =>
      obtain ⟨w, rest, hcontrol, -⟩ := decide_step hstep
      cases h.control.symm.trans hcontrol
    | respawn =>
      obtain ⟨w, rest, hcontrol, -⟩ := respawn_step hstep
      cases h.control.symm.trans hcontrol
    | exit w =>
      obtain ⟨s, reason, error, hs, hphase, -⟩ := exit_step hstep
      have hdead := (h.workers s (List.mem_of_getElem? hs)).1
      rw [hphase] at hdead
      cases hdead
    | _ => cases hworker

/-- A run of steps after the return of the call to stop. -/
theorem ShutDown.run {later : List Action} (h : ShutDown d) (hd : Underway d)
    (hrun : d.run? later = some d') : (∀ action ∈ later, action.isCall = true) ∧ ShutDown d' ∧
      d' = { d with enabled := d'.enabled, delivering := d'.delivering, now := d'.now } := by
  induction later generalizing d with
  | nil =>
    obtain rfl := Option.some.inj hrun
    exact ⟨nofun, h, rfl⟩
  | cons action rest ih =>
    obtain ⟨next, hnext, hrest⟩ := Option.bind_eq_some_iff.1 hrun
    have hd' := hd.step hnext
    obtain ⟨hcall, hsame⟩ := h.step hd.closing hd.orderly hnext
    have hreturned : next.stopCall = .returned := by
      rw [hsame]
      exact h.returned
    obtain ⟨hcalls, hshut, hsame'⟩ := ih (hd'.closing.shutDown hd'.orderly hreturned) hd' hrest
    refine ⟨List.forall_mem_cons.2 ⟨hcall, hcalls⟩, hshut, ?_⟩
    rw [hsame', hsame]

/-- A call to stop has led to `d`, and whatever follows does not undo it. -/
structure StopsForGood (d : Dispatcher) : Prop where
  /-- Wherever it gets to, it can come to its return. -/
  returns : ∀ rest e, d.run? rest = some e → CanReturn e
  /-- At its return nobody is left. -/
  shutDown : ∀ rest e, d.run? rest = some e → e.stopCall = .returned → ShutDown e
  /-- From its return on there are only calls, and they change nothing but the flag of mining and the
  deliveries that have begun. -/
  final : ∀ rest e later f, d.run? rest = some e → e.stopCall = .returned → e.run? later = some f →
    (∀ action ∈ later, action.isCall = true) ∧ ShutDown f ∧
      f = { e with enabled := f.enabled, delivering := f.delivering, now := f.now }

/-- **After the call to stop nothing stirs**, in whatever state of a running dispatcher it is made, when
the call to start has returned, and whatever steps others take until its return and afterwards. -/
theorem stop_is_final (hrun : (new c).run? actions = some d) (hrunning : d.running = true)
    (hstarted : d.slots.length ≤ d.spawned) :
    ∃ d', d.step? .stop = some d' ∧ d'.stopCall = .requested ∧ StopsForGood d' := by
  obtain ⟨hon, hnone⟩ : d.started = true ∧ d.stopCall = .none := by
    simpa [running, stopping] using hrunning
  have hstop : d.step? .stop = some { d with stopCall := .requested } := by
    simp [step?, stopping, hon, hnone, Nat.not_lt.2 hstarted]
  have hd := ((underway_new c).run hrun).step hstop
  have hbegun : { d with stopCall := .requested }.stopCall ≠ .none := by simp
  refine ⟨_, hstop, rfl, fun rest e he => ?_, fun rest e he hreturned => ?_,
    fun rest e later f he hreturned hf => ?_⟩
  · exact (hd.run he).canReturn (stopCall_ne_none_of_run hbegun he)
  · exact (hd.run he).closing.shutDown (hd.run he).orderly hreturned
  · exact ((hd.run he).closing.shutDown (hd.run he).orderly hreturned).run (hd.run he) hf

/-- A worker is busy with a candidate, and another delivery is on its way. -/
def busy : List Action := [
  .start, .spawn, .deliver { id := 1 }, .arrive 0, .handle, .prepare 0, .load 0 (.ok ()), .take 0,
  .deliver { id := 2 }]

/-- The worker leaves while the dispatcher is being stopped, and its end is not handled any more. -/
def winding : List Action := [
  .kill 0, .postStop, .finish 0 (.ok []), .take 0, .exit 0, .handle, .cancelWorkers, .closeQueue,
  .join, .join]

/-- What comes too late. -/
def late : List Action := [.arrive 0, .deliver { id := 3 }, .kill 0, .start, .stop, .enable false]

theorem stop_is_final_busy : ∃ d d' e f, (new single).run? busy = some d ∧ d.running = true ∧
    d.slots.length ≤ d.spawned ∧ (d.attempting? 0).map Candidate.id = some 1 ∧
    d.step? .stop = some d' ∧ StopsForGood d' ∧ d'.run? winding = some e ∧
    e.stopCall = .returned ∧ e.run? late = some f ∧ f.totals.attempts = 1 ∧
    f.mailbox = [] ∧ f.totals.restarts = 0 := by
  have hrun : (new single).run? busy = some _ := rfl
  obtain ⟨d', hstop, -, hgood⟩ := stop_is_final hrun rfl (by decide)
  cases hstop
  exact ⟨_, _, _, _, rfl, rfl, by decide, rfl, rfl, hgood, rfl, rfl, rfl, rfl, rfl, rfl⟩

end Dispatcher
end ProofMiner
