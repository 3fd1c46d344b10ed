/-
# The bounded queue

A first-in first-out queue that refuses what does not fit: a push never waits, and what is refused
leaves the queue as it was. A consumer waits while there is nothing to take, unless the queue is
closed or its own cancel flag is raised. A closed queue still hands out what it holds.
-/

namespace ProofMiner

/-- A queue of at most `capacity` items. -/
structure BoundedQueue (α : Type) where
  capacity : Nat
  items : List α := []
  closed : Bool := false
  deriving DecidableEq, Repr, Inhabited

namespace BoundedQueue

variable {α : Type}

/-- How a push ended. -/
inductive Push where
  | accepted
  /-- The queue is full. -/
  | dropped
  | closed
  deriving DecidableEq, Repr, Inhabited

/-- What a consumer finds. -/
inductive Pop (α : Type) where
  | item (item : α)
  /-- There is nothing to take, now or later. -/
  | ended
  /-- There may be something later. -/
  | wait
  deriving DecidableEq, Repr, Inhabited

/-- The empty queue. It holds at least one item, whatever capacity is asked for. -/
def new (capacity : Nat) : BoundedQueue α := { capacity := max 1 capacity }

/-- The number of items that wait. -/
def size (q : BoundedQueue α) : Nat := q.items.length

/-- Appends an item if the queue is open and has room. -/
def push (q : BoundedQueue α) (item : α) : Push × BoundedQueue α :=
  if q.closed then (.closed, q)
  else if q.capacity ≤ q.size then (.dropped, q)
  else (.accepted, { q with items := q.items ++ [item] })

/-- The first item, for a consumer whose cancel flag is as given. -/
def pop (q : BoundedQueue α) (cancelled : Bool) : Pop α × BoundedQueue α :=
  if cancelled then (.ended, q)
  else match q.items with
    | item :: rest => (.item item, { q with items := rest })
    | [] => (if q.closed then .ended else .wait, q)

/-- Nothing is accepted any more, and consumers find an end behind the last item. -/
def close (q : BoundedQueue α) : BoundedQueue α := { q with closed := true }

/-- An item is refused by a closed queue, dropped by a full one, and appended otherwise. -/
theorem push_cases (q : BoundedQueue α) (item : α) :
    (q.closed = true ∧ q.push item = (.closed, q)) ∨
    (q.closed = false ∧ q.capacity ≤ q.size ∧ q.push item = (.dropped, q)) ∨
    (q.closed = false ∧ q.size < q.capacity ∧
      q.push item = (.accepted, { q with items := q.items ++ [item] })) := by
  unfold push
  cases hclosed : q.closed with
  | true => exact .inl ⟨rfl, rfl⟩
  | false =>
    by_cases hfull : q.capacity ≤ q.size
    · exact .inr (.inl ⟨rfl, hfull, by simp [hfull]⟩)
    · exact .inr (.inr ⟨rfl, by omega, by simp [hfull]⟩)

/-- A consumer that is not cancelled gets the first item, and nobody else changes the queue. It is
sent away if it is cancelled, or if nothing is left and nothing can come. -/
theorem pop_cases (q : BoundedQueue α) (cancelled : Bool) :
    (cancelled = false ∧ ∃ item rest, q.items = item :: rest ∧
      q.pop cancelled = (.item item, { q with items := rest })) ∨
    ((cancelled = true ∨ q.items = [] ∧ q.closed = true) ∧ q.pop cancelled = (.ended, q)) ∨
    (cancelled = false ∧ q.items = [] ∧ q.closed = false ∧ q.pop cancelled = (.wait, q)) := by
  unfold pop
  cases cancelled with
  | true => exact .inr (.inl ⟨.inl rfl, rfl⟩)
  | false =>
    cases hitems : q.items with
    | cons item rest => exact .inl ⟨rfl, item, rest, rfl, rfl⟩
    | nil =>
      cases hclosed : q.closed with
      | true => exact .inr (.inl ⟨.inr ⟨rfl, rfl⟩, rfl⟩)
      | false => exact .inr (.inr ⟨rfl, rfl, rfl, rfl⟩)

/-- A consumer that is cancelled finds the end, whatever waits. -/
theorem pop_cancelled (q : BoundedQueue α) : q.pop true = (.ended, q) := rfl

end BoundedQueue
end ProofMiner
