/-
# Everybody at the queue

Any number of producers and consumers use one queue (`Crowd`). A push and a close are done in one go by
whoever has the lock. A call to pop is more than one step. The consumer takes the lock and looks whether
it has to wait. If so, it sleeps until somebody wakes it, with or without a cause, and looks again. After
a close everybody is woken, and so they are when somebody asks for it. A consumer that does not have to
wait keeps the lock and decides, for which it reads its cancel flag once more, and the flag may have been
raised or lowered in between.

A run carries what its calls came to, in order. The items that were handed out and those that are still in
the queue are then the accepted ones (`Sound.order`), and nothing was accepted after a close
(`Sound.late`). What a consumer saw when it looked is still so when it decides, as nobody else gets the
lock (`Sound.looked`), so if it leaves with nothing, then for its flag or for good.
-/

import Mathlib.Data.List.Basic
import ProofMiner.Supervisor.Queue

namespace ProofMiner
namespace BoundedQueue

variable {α : Type}

/-! ### Consumers and their calls -/

/-- Where a consumer is in its call, if it makes one. -/
inductive Stage where
  | away
  /-- It is about to look at the queue, or has looked and is about to decide. -/
  | awake
  /-- It waits for somebody to wake it. -/
  | asleep
  deriving DecidableEq, Repr

/-- A consumer that sleeps is woken, and another one stays as it is. -/
def Stage.woken : Stage → Stage
  | asleep => awake
  | stage => stage

/-- A queue with those who use it. Consumers go by their number. -/
structure Crowd (α : Type) where
  queue : BoundedQueue α
  /-- The cancel flags. -/
  flags : ℕ → Bool
  stages : ℕ → Stage
  /-- The consumer that keeps the lock from its look to its decision, with what it read of its flag. -/
  holder : Option (ℕ × Bool)

/-- What a call came to. -/
inductive Outcome (α : Type) where
  | pushed (item : α) (result : Push)
  | closed
  /-- A consumer is handed an item, or nothing. -/
  | popped (consumer : ℕ) (result : Option α)

namespace Outcome

/-- What an outcome takes into the queue and out of it. -/
def accepted : Outcome α → List α
  | pushed item .accepted => [item]
  | _ => []

def handed : Outcome α → List α
  | popped _ (some item) => [item]
  | _ => []

end Outcome

/-- What is handed to a consumer. -/
def Pop.item? : Pop α → Option α
  | item x => some x
  | ended | wait => none

/-- A step of somebody, with what it shows. -/
inductive Step (x : Crowd α) : List (Outcome α) → Crowd α → Prop
  | push (free : x.holder = none) (item : α) :
    Step x [.pushed item (x.queue.push item).1] { x with queue := (x.queue.push item).2 }
  | close (free : x.holder = none) : Step x [.closed] { x with queue := x.queue.close }
  /-- Everybody who sleeps is woken. -/
  | wakeAll : Step x [] { x with stages := fun i => (x.stages i).woken }
  /-- One who sleeps is woken. -/
  | wake (i : ℕ) (asleep : x.stages i = .asleep) :
    Step x [] { x with stages := Function.update x.stages i .awake }
  | flag (i : ℕ) (raised : Bool) :
    Step x [] { x with flags := Function.update x.flags i raised }
  /-- A call to pop begins. -/
  | enter (i : ℕ) (away : x.stages i = .away) :
    Step x [] { x with stages := Function.update x.stages i .awake }
  /-- A consumer looks, and has to wait. -/
  | sleep (free : x.holder = none) (i : ℕ) (awake : x.stages i = .awake)
    (waits : (x.queue.pop (x.flags i)).1 = .wait) :
    Step x [] { x with stages := Function.update x.stages i .asleep }
  /-- A consumer looks, and does not have to wait. -/
  | look (free : x.holder = none) (i : ℕ) (awake : x.stages i = .awake)
    (goes : (x.queue.pop (x.flags i)).1 ≠ .wait) :
    Step x [] { x with holder := some (i, x.flags i) }
  /-- The consumer that has looked decides, and its call ends. -/
  | decide (i : ℕ) (seen : Bool) (holder : x.holder = some (i, seen)) :
    Step x [.popped i (x.queue.pop (x.flags i)).1.item?]
      { x with
        queue := (x.queue.pop (x.flags i)).2, stages := Function.update x.stages i .away
        holder := none }

/-- The schedules on a new queue, with what their calls came to. -/
inductive Run (capacity : ℕ) : List (Outcome α) → Crowd α → Prop
  | start (flags : ℕ → Bool) :
    Run capacity [] { queue := new capacity, flags, stages := fun _ => .away, holder := none }
  | step {past shown : List (Outcome α)} {x x' : Crowd α} (run : Run capacity past x)
    (next : Step x shown x') : Run capacity (past ++ shown) x'

variable {capacity : ℕ} {past shown : List (Outcome α)} {x x' : Crowd α} {outcome : Outcome α}

/-! ### What a call comes to -/

/-- What a call comes to is right, in `x`, which becomes `x'`. -/
def Outcome.Right (capacity : ℕ) (x x' : Crowd α) : Outcome α → Prop
  | pushed item result =>
    (result = .closed ↔ x.queue.closed = true) ∧
    (result = .dropped ↔ x.queue.closed = false ∧ x.queue.size = max 1 capacity) ∧
    x' = if result = .accepted then { x with queue.items := x.queue.items ++ [item] } else x
  | closed => x' = { x with queue.closed := true }
  | popped i none =>
    x'.queue = x.queue ∧ ∃ seen, x.holder = some (i, seen) ∧
      (x.flags i = true ∨ seen = true ∨ x.queue.items = [] ∧ x.queue.closed = true)
  | popped i (some item) =>
    x.flags i = false ∧ x.queue = { x'.queue with items := item :: x'.queue.items }

/-- What holds after a schedule. -/
structure Sound (capacity : ℕ) (past : List (Outcome α)) (x : Crowd α) : Prop where
  room : x.queue.capacity = max 1 capacity
  size : x.queue.size ≤ max 1 capacity
  order : past.flatMap Outcome.handed ++ x.queue.items = past.flatMap Outcome.accepted
  closed : x.queue.closed = true ↔ .closed ∈ past
  late : ∀ before after, past = before ++ .closed :: after →
    after.flatMap Outcome.accepted = []
  /-- A consumer that is about to decide does not have to wait. -/
  looked : ∀ i seen, x.holder = some (i, seen) →
    seen = true ∨ x.queue.items ≠ [] ∨ x.queue.closed = true

/-- An empty queue is sound. -/
theorem sound_start (capacity : ℕ) (flags : ℕ → Bool) :
    Sound (α := α) capacity []
      { queue := new capacity, flags, stages := fun _ => .away, holder := none } where
  room := rfl
  size := Nat.zero_le _
  order := rfl
  closed := by simp [new]
  late := by simp
  looked := nofun

/-- A step shows what is right, or it shows nothing and leaves the queue alone. -/
theorem Sound.right (h : Sound capacity past x) (hstep : Step x shown x') :
    (shown = [] ∧ x'.queue = x.queue) ∨
      ∃ outcome, shown = [outcome] ∧ outcome.Right capacity x x' := by
  have hsize := h.size
  have hroom := h.room
  cases hstep with
  | push free item =>
    refine .inr ⟨_, rfl, ?_⟩
    obtain ⟨hclosed, hpush⟩ | ⟨hopen, hfull, hpush⟩ | ⟨hopen, hfree, hpush⟩ :=
      x.queue.push_cases item <;>
      rw [hpush]
    · exact ⟨by simp [hclosed], by simp [hclosed], rfl⟩
    · exact ⟨by simp [hopen], by simp [hopen]; omega, rfl⟩
    · exact ⟨by simp [hopen], by simp [hopen]; omega, rfl⟩
  | close free => exact .inr ⟨_, rfl, rfl⟩
  | decide i seen holder =>
    refine .inr ⟨_, rfl, ?_⟩
    obtain ⟨hlowered, item, rest, hitems, hpop⟩ | ⟨hended, hpop⟩ | ⟨-, hempty, hopen, hpop⟩ :=
      x.queue.pop_cases (x.flags i) <;>
      rw [hpop]
    · refine ⟨hlowered, ?_⟩
      dsimp only
      rw [← hitems]
    · exact ⟨rfl, seen, holder, hended.imp_right .inr⟩
    -- It did not have to wait when it looked, so its flag has been lowered since.
    · refine ⟨rfl, seen, holder, .inr (.inl ?_)⟩
      simpa [hempty, hopen] using h.looked i seen holder
  | _ => exact .inl ⟨rfl, rfl⟩

/-- A step that shows nothing keeps what holds, if a consumer that has looked does not have to wait. -/
theorem Sound.quiet (h : Sound capacity past x) (hqueue : x'.queue = x.queue)
    (hlooked : ∀ i seen, x'.holder = some (i, seen) →
      seen = true ∨ x.queue.items ≠ [] ∨ x.queue.closed = true) :
    Sound capacity (past ++ []) x' := by
  rw [List.append_nil]
  constructor
  · rw [hqueue]
    exact h.room
  · rw [hqueue]
    exact h.size
  · rw [hqueue]
    exact h.order
  · rw [hqueue]
    exact h.closed
  · exact h.late
  · rw [hqueue]
    exact hlooked

/-- What is shown last leaves alone what came after a close, if nothing is accepted by a closed queue. -/
theorem Sound.late_concat (h : Sound capacity past x)
    (haccepted : x.queue.closed = true → outcome.accepted = []) (before after : List (Outcome α))
    (hsplit : past ++ [outcome] = before ++ .closed :: after) :
    after.flatMap Outcome.accepted = [] := by
  obtain rfl | ⟨after, last, rfl⟩ := after.eq_nil_or_concat
  · rfl
  · rw [List.concat_eq_append] at hsplit ⊢
    rw [← List.cons_append, ← List.append_assoc] at hsplit
    obtain ⟨hpast, hlast⟩ := List.append_inj' hsplit rfl
    obtain rfl := List.singleton_inj.1 hlast
    have hclosed : x.queue.closed = true := h.closed.2 (by simp [hpast])
    rw [List.flatMap_append, h.late before after hpast]
    simpa using haccepted hclosed

/-- A call that ends keeps what holds. -/
theorem Sound.concat (h : Sound capacity past x) (hright : outcome.Right capacity x x')
    (hholder : x'.holder = none) : Sound capacity (past ++ [outcome]) x' := by
  have hsize := h.size
  have hroom := h.room
  have hnone (i : ℕ) (seen : Bool) (hsome : x'.holder = some (i, seen)) :
      seen = true ∨ x'.queue.items ≠ [] ∨ x'.queue.closed = true := by
    cases hholder.symm.trans hsome
  have horder := h.order
  have hclosed := h.closed
  cases outcome with
  | pushed item result =>
    obtain ⟨hiff, hfull, rfl⟩ := hright
    cases result with
    | accepted =>
      rw [if_pos rfl] at hnone ⊢
      have hopen : x.queue.closed = false := by simpa using hiff
      have hfree : x.queue.size ≠ max 1 capacity := by simpa [hopen] using hfull
      exact {
        room := hroom
        size := by
          have hlt : x.queue.size < max 1 capacity := Nat.lt_of_le_of_ne hsize hfree
          rw [BoundedQueue.size] at hlt ⊢
          rw [List.length_append]
          exact hlt
        order := by simp [← horder, Outcome.handed, Outcome.accepted]
        closed := by simp [hclosed]
        late := h.late_concat fun hclosed => absurd hclosed (by simp [hopen])
        looked := hnone }
    | dropped | closed =>
      rw [if_neg (by simp)] at hnone ⊢
      exact {
        room := hroom
        size := hsize
        order := by simp [← horder, Outcome.handed, Outcome.accepted]
        closed := by simp [hclosed]
        late := h.late_concat fun _ => rfl
        looked := hnone }
  | closed =>
    obtain rfl := hright
    exact {
      room := hroom
      size := hsize
      order := by simp [← horder, Outcome.handed, Outcome.accepted]
      closed := by simp
      late := h.late_concat fun _ => rfl
      looked := hnone }
  | popped i result =>
    cases result with
    | none =>
      obtain ⟨hqueue, -⟩ := hright
      exact {
        room := by rw [hqueue]; exact hroom
        size := by rw [hqueue]; exact hsize
        order := by simp [← horder, hqueue, Outcome.handed, Outcome.accepted]
        closed := by simp [hqueue, hclosed]
        late := h.late_concat fun _ => rfl
        looked := hnone }
    | some item =>
      obtain ⟨-, hqueue⟩ := hright
      rw [hqueue] at hroom hsize horder hclosed
      exact {
        room := hroom
        size := Nat.le_of_succ_le hsize
        order := by simp [← horder, Outcome.handed, Outcome.accepted]
        closed := by simp [hclosed]
        late := h.late_concat fun _ => rfl
        looked := hnone }

/-- **A step of the crowd.** -/
theorem Sound.step (h : Sound capacity past x) (hstep : Step x shown x') :
    Sound capacity (past ++ shown) x' := by
  obtain ⟨rfl, hqueue⟩ | ⟨outcome, rfl, hright⟩ := h.right hstep
  · refine h.quiet hqueue ?_
    cases hstep with
    | look free i awake goes =>
      rintro j seen ⟨⟩
      obtain ⟨-, item, rest, hitems, -⟩ | ⟨hended, -⟩ | ⟨-, -, -, hpop⟩ :=
        x.queue.pop_cases (x.flags i)
      · exact .inr (.inl (by simp [hitems]))
      · exact hended.imp_right fun hempty => .inr hempty.2
      · exact absurd (congrArg Prod.fst hpop) goes
    | _ => exact h.looked
  · refine h.concat hright ?_
    cases hstep with
    | push free | close free => exact free
    | decide => rfl

/-- **A queue stays sound**, by induction on the run. -/
theorem sound_of_run (h : Run capacity past x) : Sound capacity past x := by
  induction h with
  | start flags => exact sound_start capacity flags
  | step _ next ih => exact ih.step next

/-! ### Schedules -/

/-- What holds of a queue after any schedule on it, and of whatever comes next. -/
structure Served (capacity : ℕ) (past : List (Outcome α)) (x : Crowd α) : Prop where
  size : x.queue.size ≤ max 1 capacity
  /-- The accepted items were handed out in their order, as far as they are not there any more. -/
  order : past.flatMap Outcome.handed ++ x.queue.items = past.flatMap Outcome.accepted
  closed : x.queue.closed = true ↔ .closed ∈ past
  /-- Nothing is accepted after a close, and what was accepted before is handed out all the same. -/
  drained : ∀ before after, past = before ++ .closed :: after →
    after.flatMap Outcome.accepted = [] ∧
    before.flatMap Outcome.handed ++ (after.flatMap Outcome.handed ++ x.queue.items) =
      before.flatMap Outcome.accepted
  /-- A call that comes to its end comes to the right one, and nothing else touches the queue. -/
  right : ∀ shown x', Step x shown x' → (shown = [] ∧ x'.queue = x.queue) ∨
    ∃ outcome, shown = [outcome] ∧ outcome.Right capacity x x'
  /-- A consumer waits for nothing but an item, a close or its cancel flag. -/
  waits : ∀ shown x' i, Step x shown x' → x.stages i = .awake → x'.stages i = .asleep →
    x.flags i = false ∧ x.queue.items = [] ∧ x.queue.closed = false
  /-- When one of these is there, it looks and decides, in two steps if nobody comes between. -/
  answers : ∀ i, x.holder = none → x.stages i = .awake →
    x.flags i = true ∨ x.queue.items ≠ [] ∨ x.queue.closed = true →
    ∃ y x', Step x [] y ∧ Step y [.popped i (x.queue.pop (x.flags i)).1.item?] x' ∧
      x'.queue = (x.queue.pop (x.flags i)).2 ∧ x'.stages i = .away

/-- A consumer goes to sleep by its own step only. -/
theorem Step.waits {i : ℕ} (hstep : Step x shown x') (hawake : x.stages i = .awake)
    (hasleep : x'.stages i = .asleep) :
    x.flags i = false ∧ x.queue.items = [] ∧ x.queue.closed = false := by
  have hother (j : ℕ) (stage : Stage) (hstage : stage ≠ .asleep)
      (hupdate : Function.update x.stages j stage i = .asleep) : False := by
    rw [Function.update_apply] at hupdate
    split_ifs at hupdate
    · exact hstage hupdate
    · cases hawake.symm.trans hupdate
  cases hstep with
  | sleep free j awake waits =>
    dsimp only at hasleep
    by_cases hij : i = j
    · subst hij
      obtain ⟨-, item, rest, -, hpop⟩ | ⟨-, hpop⟩ | ⟨hlowered, hempty, hopen, -⟩ :=
        x.queue.pop_cases (x.flags i)
      · cases waits.symm.trans (congrArg Prod.fst hpop)
      · cases waits.symm.trans (congrArg Prod.fst hpop)
      · exact ⟨hlowered, hempty, hopen⟩
    · rw [Function.update_of_ne hij] at hasleep
      cases hawake.symm.trans hasleep
  | wakeAll =>
    dsimp only at hasleep
    rw [hawake] at hasleep
    cases hasleep
  | wake j | enter j => exact (hother j .awake (by decide) hasleep).elim
  | decide j => exact (hother j .away (by decide) hasleep).elim
  | push | close | flag | look => cases hawake.symm.trans hasleep

/-- **The queue serves everybody in order**, whatever the schedule. -/
theorem queue_serves (h : Run capacity past x) : Served capacity past x := by
  have hx := sound_of_run h
  refine {
    size := hx.size, order := hx.order, closed := hx.closed
    drained := fun before after hpast => ?_
    right := fun shown x' => hx.right
    waits := fun shown x' i => Step.waits
    answers := fun i hfree hawake hready => ?_ }
  · have hlate := hx.late before after hpast
    have horder := hx.order
    rw [hpast] at horder
    exact ⟨hlate, by simpa [Outcome.handed, Outcome.accepted, hlate] using horder⟩
  · refine ⟨_, _, .look hfree i hawake fun hwait => ?_, .decide i _ rfl, rfl,
      Function.update_self ..⟩
    obtain ⟨-, item, rest, -, hpop⟩ | ⟨-, hpop⟩ | ⟨hlowered, hempty, hopen, -⟩ :=
      x.queue.pop_cases (x.flags i)
    · cases hwait.symm.trans (congrArg Prod.fst hpop)
    · cases hwait.symm.trans (congrArg Prod.fst hpop)
    · simp [hlowered, hempty, hopen] at hready

/-- One consumer is handed the first of two items and another one, which is cancelled, nothing, before
the queue is closed. -/
theorem queue_serves_twoConsumers : ∃ x, Run 2
    [.pushed 5 .accepted, .pushed 6 .accepted, .pushed 7 .dropped, .popped 0 (some 5), .popped 1 none,
      .closed, .pushed 8 .closed] x ∧
    Served 2
      [.pushed 5 .accepted, .pushed 6 .accepted, .pushed 7 .dropped, .popped 0 (some 5),
        .popped 1 none, .closed, .pushed 8 .closed] x ∧
    x.queue = ⟨2, [6], true⟩ ∧ x.flags 1 = true := by
  have hrun : Run 2 _ _ := (Run.start fun i => i == 1)
    |>.step (.push rfl 5) |>.step (.push rfl 6) |>.step (.push rfl 7)
    |>.step (.enter 0 rfl) |>.step (.enter 1 rfl)
    |>.step (.look rfl 0 rfl (by decide)) |>.step (.decide 0 false rfl)
    |>.step (.look rfl 1 rfl (by decide)) |>.step (.decide 1 true rfl)
    |>.step (.close rfl) |>.step (.push rfl 8)
  exact ⟨_, hrun, queue_serves hrun, rfl, rfl⟩

end BoundedQueue
end ProofMiner
