/-
# What a schedule does is a run

A schedule picks the steps of the dispatcher one after the other, until nobody can go on. What it leads to is
therefore reached by a run, and all of its steps are the dispatcher's own: a call is made from the outside,
and no schedule makes one (`ran_advance`). So after a call and what it leads to, the dispatcher has come
through a run in which this call stands and no other (`ran_call`), whatever its programs do meanwhile.
-/

import Mathlib.Data.Option.Basic
import ProofMiner.Proofs.Supervisor.Runs
import ProofMiner.Supervisor.Run

namespace ProofMiner

namespace Dispatcher

/-- The steps with which a call from the outside begins. All others are those of the control loop, of the
workers and of a call under way, and the passing of time. -/
def Action.isRequest : Action → Bool
  | start | stop | deliver _ | enable _ | kill _ => true
  | _ => false

variable {d d' d'' : Dispatcher} {action : Action} {calls more : List Action}

/-- From `d` the dispatcher can come to `d'` by a run with these calls, in their order, and no others. -/
def Ran (d : Dispatcher) (calls : List Action) (d' : Dispatcher) : Prop :=
  ∃ run, d.run? run = some d' ∧ run.filter Action.isRequest = calls

/-- The empty run makes no call. -/
theorem Ran.refl (d : Dispatcher) : Ran d [] d := ⟨[], rfl, rfl⟩

/-- The calls of two runs follow each other. -/
theorem Ran.trans (h : Ran d calls d') (h' : Ran d' more d'') : Ran d (calls ++ more) d'' := by
  obtain ⟨run, hrun, rfl⟩ := h
  obtain ⟨run', hrun', rfl⟩ := h'
  exact ⟨run ++ run', by rw [run?_append, hrun, Option.bind_some, hrun'], List.filter_append ..⟩

/-- A step of the dispatcher is no call, and a call is one. -/
theorem Ran.of_step (hstep : d.step? action = some d') (haction : action.isRequest = false) :
    Ran d [] d' :=
  ⟨[action], by rw [run?, hstep, Option.bind_some, run?], by simp [haction]⟩

theorem Ran.of_call (hstep : d.step? action = some d') (haction : action.isRequest = true) :
    Ran d [action] d' :=
  ⟨[action], by rw [run?, hstep, Option.bind_some, run?], by simp [haction]⟩

end Dispatcher

namespace Supervisor

open Dispatcher (Action Ran)

variable {σ : Type} {o : Outside σ} {s s' : Supervisor σ} {action : Action}

/-- What is done to the dispatcher is one of its steps. -/
theorem step_of_act (h : s.act action = some s') :
    s.dispatcher.step? action = some s'.dispatcher := by
  obtain ⟨d, hd, rfl⟩ := Option.map_eq_some_iff.1 h
  exact hd

theorem ran_of_act (h : s.act action = some s') (haction : action.isRequest = false) :
    Ran s.dispatcher [] s'.dispatcher := .of_step (step_of_act h) haction

/-- The first step that is possible is taken. -/
theorem ran_of_first {actions : List Action} (hactions : ∀ a ∈ actions, a.isRequest = false)
    (h : actions.findSome? s.act = some s') : Ran s.dispatcher [] s'.dispatcher := by
  obtain ⟨action, hmem, hact⟩ := List.exists_of_findSome?_eq_some h
  exact ran_of_act hact (hactions action hmem)

/-- A worker makes no calls. -/
theorem ran_workerStep {worker : ℕ} (h : s.workerStep o worker = some s') :
    Ran s.dispatcher [] s'.dispatcher := by
  obtain ⟨slot, -, h⟩ := Option.bind_eq_some_iff.1 h
  -- what the contexts and the programs are is no part of the dispatcher
  cases hphase : slot.phase with
  | absent =>
    rw [hphase] at h
    cases h
  | preparing | idle | leaving =>
    rw [hphase] at h
    exact ran_of_act h rfl
  | loading =>
    rw [hphase] at h
    dsimp only at h
    rw [load] at h
    split at h
    all_goals exact (ran_of_act h rfl :)
  | attempting candidate =>
    rw [hphase] at h
    dsimp only at h
    obtain ⟨-, h⟩ := Option.ite_none_right_eq_some.1 h
    obtain ⟨context, -, h⟩ := Option.bind_eq_some_iff.1 h
    obtain ⟨c, -, h⟩ := Option.bind_eq_some_iff.1 h
    exact (ran_of_act h rfl :)
  | emitting proofs =>
    rw [hphase] at h
    cases proofs with
    | nil => cases h
    | cons p rest => exact ran_of_act h rfl

/-- **A step of the schedule is no call.** -/
theorem ran_next (h : s.next o = some s') : Ran s.dispatcher [] s'.dispatcher := by
  rw [next] at h
  simp only [Option.orElse_eq_some] at h
  rcases h with h | ⟨-, h | ⟨-, h | ⟨-, h⟩⟩⟩
  · exact ran_of_first (by decide) h
  · obtain ⟨worker, -, h⟩ := List.exists_of_findSome?_eq_some h
    exact ran_workerStep h
  · exact ran_of_first (by decide) h
  · obtain ⟨-, h⟩ := Option.ite_none_right_eq_some.1 h
    rw [waitForRestart] at h
    split at h
    · cases h
    · exact ran_of_act h rfl

/-- **Nobody calls while a schedule goes on**, by induction on its budget. -/
theorem ran_advance (fuel : ℕ) (s : Supervisor σ) :
    Ran s.dispatcher [] (s.advance o fuel).dispatcher := by
  induction fuel generalizing s with
  | zero => exact .refl _
  | succ fuel ih =>
    rw [advance]
    cases hnext : s.next o with
    | none => exact .refl _
    | some s' => exact (ran_next hnext).trans (ih s')

/-- **A call and what it leads to** is a run with this call. -/
theorem ran_call (h : s.act action = some s') (haction : action.isRequest = true) :
    Ran s.dispatcher [action] (s.call o action).dispatcher := by
  rw [call, h, Option.getD_some, settle]
  exact (Ran.of_call (step_of_act h) haction).trans (ran_advance stepLimit s')

end Supervisor
end ProofMiner
