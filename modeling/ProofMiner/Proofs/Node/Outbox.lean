/-
# What the node gets to read

What the steps of a run show is its history, here with the latest event first. A history tells what was
sent, taken and written on the connection that was made last (`History.lately`), as each connection
begins with nothing, and how many frames wait. The state of the link agrees with it (`Kept`): the frames
that were accepted on a connection are those that were written, the one that is held, those that are
lost and those that wait, in this order, and none is lost while the connection stands and no write has
failed. So the frames that were written are the first of those that were accepted.

What came before some event of a run is the history of a run as well (`Run.earlier`), so that all this
holds at every moment, and therefore of every connection.
-/

import Mathlib.Data.List.Infix
import ProofMiner.Node.Link

namespace ProofMiner
namespace Link

/-- What a step shows. -/
inductive Event where
  | connected
  /-- A frame is sent, and the sender is told whether it was accepted. -/
  | sent (frame : MinerFrame) (accepted : Bool)
  | taken
  /-- A frame is written completely. -/
  | written (frame : MinerFrame)
  | failed
  | disconnected
  | finished
  deriving DecidableEq, Repr, Inhabited

/-- What a step shows, if it is possible. -/
def event (l : Link) : Action → Event
  | .connect => .connected
  | .send frame => .sent frame l.accepts
  | .take => .taken
  | .complete => .written (l.held.getD default)
  | .fail => .failed
  | .disconnect => .disconnected
  | .finish => .finished

/-- The links that a link of a capacity can become, with what was shown, the latest first. -/
inductive Run (capacity : ℕ) : List Event → Link → Prop where
  | new : Run capacity [] (new capacity)
  | step {past : List Event} {l l' : Link} (action : Action) :
    Run capacity past l → l.step? action = some l' → Run capacity (l.event action :: past) l'

variable {capacity : ℕ} {past : List Event} {l l' : Link} {action : Action}

/-- A state that can be reached has a history. -/
theorem reachable_iff_run : Reachable capacity l ↔ ∃ past, Run capacity past l := by
  constructor
  · intro h
    induction h with
    | new => exact ⟨[], .new⟩
    | step action _ hstep ih => exact ih.imp' _ fun _ hrun => hrun.step action hstep
  · rintro ⟨past, h⟩
    induction h with
    | new => exact .new
    | step action _ hstep ih => exact ih.step action hstep

/-- What came before some event of a run was a run. -/
theorem Run.earlier {earlier : List Event} (h : Run capacity past l) (hpast : earlier <:+ past) :
    ∃ l', Run capacity earlier l' := by
  induction h with
  | new =>
    obtain rfl := List.suffix_nil.1 hpast
    exact ⟨_, .new⟩
  | step action hrun hstep ih =>
    rcases List.suffix_cons_iff.1 hpast with rfl | hpast
    · exact ⟨_, hrun.step action hstep⟩
    · exact ih hpast

/-! ### What a history tells -/

namespace History

/-- A node is connected. -/
def online : List Event → Bool
  | [] => false
  | .connected :: _ => true
  | .disconnected :: _ => false
  | _ :: past => online past

/-- The frames that were accepted since a node connected last, the oldest first. -/
def accepted : List Event → List MinerFrame
  | [] => []
  | .connected :: _ => []
  | .sent frame true :: past => accepted past ++ [frame]
  | _ :: past => accepted past

/-- The frames that were written since a node connected last, the oldest first. -/
def written : List Event → List MinerFrame
  | [] => []
  | .connected :: _ => []
  | .written frame :: past => written past ++ [frame]
  | _ :: past => written past

/-- A write has failed since a node connected last. -/
def failed : List Event → Bool
  | [] => false
  | .connected :: _ => false
  | .failed :: _ => true
  | _ :: past => failed past

/-- How many frames wait. -/
def waiting : List Event → ℕ
  | [] => 0
  | .connected :: _ => 0
  | .disconnected :: _ => 0
  | .sent _ true :: past => waiting past + 1
  | .taken :: past => waiting past - 1
  | _ :: past => waiting past

/-- How many frames were refused while a node was connected. -/
def refusals : List Event → ℕ
  | [] => 0
  | .sent _ false :: past => (if online past then 1 else 0) + refusals past
  | _ :: past => refusals past

end History

/-! ### Steps -/

/-- What a step shows, and what it does to the link. -/
inductive Steps (l : Link) : Event → Link → Prop where
  | connect (hconnected : l.connected = false) (hwriting : l.writing = false) :
    Steps l .connected { l with
      connected := true, writing := true, outbox := [], held := none, broken := false
      written := [] }
  | accept (frame : MinerFrame) (hconnected : l.connected = true)
    (hroom : l.outbox.length < l.capacity) :
    Steps l (.sent frame true) { l with outbox := l.outbox ++ [frame] }
  | refuse (frame : MinerFrame) (hconnected : l.connected = true)
    (hfull : l.capacity ≤ l.outbox.length) :
    Steps l (.sent frame false) { l with dropped := l.dropped + 1 }
  | ignore (frame : MinerFrame) (hconnected : l.connected = false) :
    Steps l (.sent frame false) l
  | take (frame : MinerFrame) (rest : List MinerFrame) (hconnected : l.connected = true)
    (hheld : l.held = none) (houtbox : l.outbox = frame :: rest) (hbroken : l.broken = false) :
    Steps l .taken { l with outbox := rest, held := some frame }
  | discard (frame : MinerFrame) (rest : List MinerFrame) (hconnected : l.connected = true)
    (hheld : l.held = none) (houtbox : l.outbox = frame :: rest) (hbroken : l.broken = true) :
    Steps l .taken { l with outbox := rest, held := none }
  | complete (frame : MinerFrame) (hheld : l.held = some frame) :
    Steps l (.written frame) { l with held := none, written := l.written ++ [frame] }
  | fail (frame : MinerFrame) (hheld : l.held = some frame) :
    Steps l .failed { l with held := none, broken := true }
  | disconnect (hconnected : l.connected = true) :
    Steps l .disconnected { l with connected := false, outbox := [] }
  | finish (hconnected : l.connected = false) (hheld : l.held = none) :
    Steps l .finished { l with writing := false }

/-- A frame is taken if there is a connection and room. -/
theorem accepts_iff : l.accepts = true ↔ l.connected = true ∧ l.outbox.length < l.capacity := by
  rw [accepts, Bool.and_eq_true, decide_eq_true_iff]

/-- Sending is a step that shows whether the frame was taken. -/
theorem steps_afterSend (l : Link) (frame : MinerFrame) :
    Steps l (.sent frame l.accepts) (l.afterSend frame) := by
  rw [afterSend]
  by_cases haccepts : l.accepts = true
  · rw [if_pos haccepts, haccepts]
    obtain ⟨hconnected, hroom⟩ := accepts_iff.1 haccepts
    exact .accept frame hconnected hroom
  rw [if_neg haccepts, Bool.eq_false_iff.2 haccepts]
  rw [accepts_iff, not_and, Nat.not_lt] at haccepts
  split
  next hconnected => exact .refuse frame hconnected (haccepts hconnected)
  next hconnected => exact .ignore frame (Bool.eq_false_iff.2 hconnected)

/-- **What a step can do.** One case for each action. -/
theorem steps_of_step? (h : l.step? action = some l') : Steps l (l.event action) l' := by
  cases action with
  | connect =>
    simp only [step?] at h
    split at h
    next => cases h
    next hidle =>
      cases h
      rw [Bool.not_eq_true, Bool.or_eq_false_iff] at hidle
      exact .connect hidle.1 hidle.2
  | send frame =>
    cases h
    exact steps_afterSend l frame
  | take =>
    simp only [step?] at h
    split at h
    next frame rest hconnected hheld houtbox =>
      cases h
      split
      next hbroken => exact .discard frame rest hconnected hheld houtbox hbroken
      next hbroken => exact .take frame rest hconnected hheld houtbox (Bool.eq_false_iff.2 hbroken)
    next => cases h
  | complete =>
    simp only [step?] at h
    split at h
    next frame hheld =>
      cases h
      rw [event, hheld]
      exact .complete frame hheld
    next => cases h
  | fail =>
    simp only [step?] at h
    split at h
    next frame hheld =>
      cases h
      exact .fail frame hheld
    next => cases h
  | disconnect =>
    simp only [step?] at h
    split at h
    next hconnected =>
      cases h
      exact .disconnect hconnected
    next => cases h
  | finish =>
    simp only [step?] at h
    split at h
    next hended =>
      cases h
      rw [Bool.and_eq_true, Bool.and_eq_true, Bool.not_eq_true', Option.isNone_iff_eq_none] at hended
      exact .finish hended.1.1 hended.2
    next => cases h

/-! ### The state and its history -/

/-- The state of a link agrees with its history. -/
structure Kept (capacity : ℕ) (past : List Event) (l : Link) : Prop where
  capacity_eq : l.capacity = max 1 capacity
  connected_eq : l.connected = History.online past
  length_outbox : l.outbox.length = History.waiting past
  length_le : l.outbox.length ≤ l.capacity
  written_eq : l.written = History.written past
  dropped_eq : l.dropped = History.refusals past
  broken_eq : l.broken = History.failed past
  held_of_broken : l.broken = true → l.held = none
  /-- A frame that was accepted is written, held, lost or still waits. -/
  accounted : ∃ lost, History.accepted past = l.written ++ (l.held.toList ++ (lost ++ l.outbox)) ∧
    (l.broken = false → l.connected = true → lost = [])

/-- A new link agrees with the empty history. -/
theorem kept_new (capacity : ℕ) : Kept capacity [] (new capacity) where
  capacity_eq := rfl
  connected_eq := rfl
  length_outbox := rfl
  length_le := Nat.zero_le _
  written_eq := rfl
  dropped_eq := rfl
  broken_eq := rfl
  held_of_broken _ := rfl
  accounted := ⟨[], rfl, fun _ _ => rfl⟩

/-- **A step keeps the agreement.** -/
theorem Kept.step (h : Kept capacity past l) {e : Event} (hstep : Steps l e l') :
    Kept capacity (e :: past) l' := by
  obtain ⟨lost, haccepted, hlost⟩ := h.accounted
  have hlength := h.length_outbox
  have hlength_le := h.length_le
  cases hstep with
  | connect hconnected hwriting =>
    exact { h with
      connected_eq := rfl
      length_outbox := rfl
      length_le := Nat.zero_le _
      written_eq := rfl
      broken_eq := rfl
      held_of_broken := fun _ => rfl
      accounted := ⟨[], rfl, fun _ _ => rfl⟩ }
  | accept frame hconnected hroom =>
    refine { h with length_outbox := ?_, length_le := ?_, accounted := ⟨lost, ?_, hlost⟩ }
    · rw [List.length_append, hlength]
      rfl
    · rw [List.length_append]
      exact hroom
    · rw [History.accepted, haccepted]
      simp only [List.append_assoc]
  | refuse frame hconnected hfull =>
    refine { h with dropped_eq := ?_, accounted := ⟨lost, haccepted, hlost⟩ }
    rw [History.refusals, ← h.connected_eq, if_pos hconnected, ← h.dropped_eq, Nat.add_comm]
  | ignore frame hconnected =>
    refine { h with dropped_eq := ?_, accounted := ⟨lost, haccepted, hlost⟩ }
    rw [History.refusals, ← h.connected_eq, hconnected, if_neg nofun, ← h.dropped_eq, Nat.zero_add]
  | take frame rest hconnected hheld houtbox hbroken =>
    rw [houtbox, List.length_cons] at hlength hlength_le
    refine { h with
      length_outbox := ?_, length_le := Nat.le_of_succ_le hlength_le, held_of_broken := ?_
      accounted := ⟨[], ?_, fun _ _ => rfl⟩ }
    · rw [History.waiting, ← hlength, Nat.add_sub_cancel]
    · exact fun htrue => absurd (hbroken.symm.trans htrue) nofun
    · -- nothing is lost so far, so the frame that is taken is the next one
      refine haccepted.trans ?_
      rw [hlost hbroken hconnected, hheld, houtbox]
      rfl
  | discard frame rest hconnected hheld houtbox hbroken =>
    rw [houtbox, List.length_cons] at hlength hlength_le
    refine { h with
      length_outbox := ?_, length_le := Nat.le_of_succ_le hlength_le, held_of_broken := ?_
      accounted := ⟨lost ++ [frame], ?_, ?_⟩ }
    · rw [History.waiting, ← hlength, Nat.add_sub_cancel]
    · exact fun _ => rfl
    · refine haccepted.trans ?_
      rw [hheld, houtbox, List.append_assoc]
      rfl
    · exact fun hfalse => absurd (hbroken.symm.trans hfalse) nofun
  | complete frame hheld =>
    refine { h with
      written_eq := ?_, held_of_broken := fun _ => rfl, accounted := ⟨lost, ?_, hlost⟩ }
    · rw [History.written, h.written_eq]
    · refine haccepted.trans ?_
      rw [hheld, List.append_assoc]
      rfl
  | fail frame hheld =>
    refine { h with
      broken_eq := rfl, held_of_broken := fun _ => rfl, accounted := ⟨frame :: lost, ?_, nofun⟩ }
    refine haccepted.trans ?_
    rw [hheld]
    rfl
  | disconnect hconnected =>
    refine { h with
      connected_eq := rfl, length_outbox := rfl, length_le := Nat.zero_le _
      accounted := ⟨lost ++ l.outbox, ?_, nofun⟩ }
    -- what waits is lost
    refine haccepted.trans ?_
    rw [List.append_nil]
  | finish hconnected hheld =>
    exact { h with accounted := ⟨lost, haccepted, hlost⟩ }

/-- **The state agrees with the history**, by induction on the run. -/
theorem kept_of_run (h : Run capacity past l) : Kept capacity past l := by
  induction h with
  | new => exact kept_new capacity
  | step action _ hstep ih => exact ih.step (steps_of_step? hstep)

/-- The latest event was that of a step. -/
theorem Run.exists_step {e : Event} (h : Run capacity (e :: past) l') :
    ∃ l, Run capacity past l ∧ Steps l e l' := by
  generalize hfull : e :: past = full at h
  cases h with
  | new => cases hfull
  | step action hrun hstep =>
    obtain ⟨rfl, rfl⟩ := List.cons.inj hfull
    exact ⟨_, hrun, steps_of_step? hstep⟩

/-- Frames are written in the order in which they were taken, and none is left out before one that is
written. -/
theorem Kept.written_initial (h : Kept capacity past l) :
    History.written past <+: History.accepted past := by
  obtain ⟨lost, haccepted, -⟩ := h.accounted
  rw [haccepted, h.written_eq]
  exact List.prefix_append _ _

/-- What holds at every moment of a run. -/
structure Faithful (capacity : ℕ) (past : List Event) (l : Link) : Prop where
  /-- The frames that were written on a connection are the first of those accepted on it. -/
  written_initial : ∀ earlier, earlier <:+ past →
    History.written earlier <+: History.accepted earlier
  /-- A frame is written only while no write on its connection has failed, and then it is the one
  that was accepted on this connection next after those that were written. -/
  written_next : ∀ frame earlier, .written frame :: earlier <:+ past →
    History.failed earlier = false ∧
      ∃ later, History.accepted earlier = History.written earlier ++ frame :: later
  waiting_le : ∀ earlier, earlier <:+ past → History.waiting earlier ≤ max 1 capacity
  /-- A frame is accepted if and only if a node is connected and there is room for it. -/
  accepted_iff : ∀ frame accepted earlier, .sent frame accepted :: earlier <:+ past →
    (accepted = true ↔
      History.online earlier = true ∧ History.waiting earlier < max 1 capacity)
  length_outbox : l.outbox.length = History.waiting past
  dropped_eq : l.dropped = History.refusals past

/-- **Every run is faithful.** On each connection the first of the frames that were accepted on it are
written, in their order and each once, and none after a write that failed. -/
theorem faithful_of_run (h : Run capacity past l) : Faithful capacity past l where
  written_initial earlier hpast := by
    obtain ⟨_, hrun⟩ := h.earlier hpast
    exact (kept_of_run hrun).written_initial
  written_next frame earlier hpast := by
    obtain ⟨l', hrun⟩ := h.earlier hpast
    obtain ⟨l₀, hbefore, hstep⟩ := hrun.exists_step
    cases hstep with
    | complete frame hheld =>
      have hkept := kept_of_run hbefore
      refine ⟨?_, ?_⟩
      · rw [← hkept.broken_eq, Bool.eq_false_iff]
        intro hbroken
        rw [hkept.held_of_broken hbroken] at hheld
        cases hheld
      · obtain ⟨later, hlater⟩ := (kept_of_run hrun).written_initial
        rw [History.written, List.append_assoc] at hlater
        exact ⟨later, hlater.symm⟩
  waiting_le earlier hpast := by
    obtain ⟨_, hrun⟩ := h.earlier hpast
    have hkept := kept_of_run hrun
    rw [← hkept.length_outbox, ← hkept.capacity_eq]
    exact hkept.length_le
  accepted_iff frame accepted earlier hpast := by
    obtain ⟨l', hrun⟩ := h.earlier hpast
    obtain ⟨l₀, hbefore, hstep⟩ := hrun.exists_step
    have hkept := kept_of_run hbefore
    rw [← hkept.connected_eq, ← hkept.length_outbox, ← hkept.capacity_eq]
    cases hstep with
    | accept frame hconnected hroom => exact iff_of_true rfl ⟨hconnected, hroom⟩
    | refuse frame hconnected hfull =>
      exact iff_of_false nofun fun hroom => absurd hroom.2 (Nat.not_lt.2 hfull)
    | ignore frame hconnected =>
      exact iff_of_false nofun fun hroom => absurd (hconnected.symm.trans hroom.1) nofun
  length_outbox := (kept_of_run h).length_outbox
  dropped_eq := (kept_of_run h).dropped_eq

/-- One frame waits, so another one is refused. The first one is lost in a write that fails, and the
frame that is written on the next connection is one that was accepted there. -/
theorem faithful_of_run_reconnecting :
    let a : MinerFrame := ⟨1, []⟩
    let b : MinerFrame := ⟨2, []⟩
    let c : MinerFrame := ⟨3, []⟩
    let past : List Event := [.written c, .taken, .sent c true, .connected, .sent b false, .finished,
      .failed, .disconnected, .taken, .sent b false, .sent a true, .connected]
    let l : Link :=
      { capacity := 1, connected := true, writing := true, written := [c], dropped := 1 }
    Run 0 past l ∧ Faithful 0 past l := by
  intro a b c past l
  have h : Run 0 past l := (((((((((((((.new : Run 0 [] _).step .connect rfl).step (.send a) rfl).step
    (.send b) rfl).step .take rfl).step .disconnect rfl).step .fail rfl).step .finish rfl).step
    (.send b) rfl).step .connect rfl).step (.send c) rfl).step .take rfl).step .complete rfl)
  exact ⟨h, faithful_of_run h⟩

end Link
end ProofMiner
