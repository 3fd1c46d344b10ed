/-
# Which path a transform takes

`Tuning` says when a loop is split over threads, and when a product goes through the transform.
A split loop runs over contiguous chunks of its range, one for each thread of the budget; the
chunks are disjoint and cover the range.
-/

namespace ProofMiner

/-- How a path is chosen: by comparing the work with a threshold, or always the same. -/
inductive Mode where
  | auto
  | sequential
  | parallel
  deriving DecidableEq, Repr, Inhabited

/-- Thresholds of the transform engine. -/
structure Tuning where
  mode : Mode := .auto
  /-- Elements of a bit-reversal gather. -/
  bitReverse : Nat := 4096
  /-- Independent groups of a butterfly stage. -/
  group : Nat := 64
  /-- Butterflies inside one group of a stage with few groups. -/
  span : Nat := 2048
  /-- Elements of a pointwise product or a scaling. -/
  hadamard : Nat := 1024
  /-- Result length from which a product goes through the transform. -/
  fftMultiply : Nat := 64
  /-- Padded length from which the two forward transforms of a product share the threads. -/
  concurrent : Nat := 1024
  /-- Threads for one loop; the calling thread's own budget when not positive. -/
  threads : Int := 0
  deriving DecidableEq, Repr, Inhabited

namespace Tuning

/-- Every loop runs in one piece. -/
def sequential : Tuning := { mode := .sequential }

/-- Whether work of the given size is split. -/
def splits (t : Tuning) (work threshold : Nat) : Bool :=
  match t.mode with
  | .sequential => false
  | .parallel => true
  | .auto => threshold ≤ work

/-- Threads for one loop, at least one. -/
def budget (t : Tuning) : Nat := max 1 t.threads.toNat

/-- Half the threads for each of two transforms that run at the same time. -/
def halved (t : Tuning) : Tuning := { t with threads := max 1 (t.budget / 2) }

end Tuning

/-- The range `[0, n)` in contiguous chunks, as bounds `(lo, hi)`, one for each of `parts`
threads or fewer. -/
def chunks (n parts : Nat) : List (Nat × Nat) :=
  let grain := max 1 ((n + parts - 1) / max 1 parts)
  (List.range ((n + grain - 1) / grain)).map fun k => (k * grain, min n ((k + 1) * grain))

/-- Runs `body` for `lo, lo + 1, …, hi - 1`. -/
def forRange {σ : Type} (lo hi : Nat) (body : Nat → σ → σ) (s : σ) : σ :=
  (hi - lo).fold (fun i _ s => body (lo + i) s) s

/-- Runs `body` for every index below `n`: in one piece, or chunk by chunk. -/
def Tuning.loop {σ : Type} (t : Tuning) (split : Bool) (n : Nat) (body : Nat → σ → σ) (s : σ) :
    σ :=
  if split then (chunks n t.budget).foldl (fun s (lo, hi) => forRange lo hi body s) s
  else forRange 0 n body s

end ProofMiner
