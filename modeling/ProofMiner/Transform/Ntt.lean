/-
# The number-theoretic transform

A bit-reversal gather followed by `log2 n` butterfly stages. The stage of half-width `m` combines
neighbouring blocks of `m` entries into blocks of `2m`, with the twiddles
`root ^ (j * n / 2m)` for `j < m`.

The transform of a vector is the list of values of its polynomial at `root ^ 0, …, root ^ (n-1)`.
-/

import ProofMiner.Transform.BitReversal

namespace ProofMiner

/-- Where the twiddles of a stage come from. -/
inductive Twiddles where
  /-- Powers of a root, computed for each stage. -/
  | ofRoot (root : Goldilocks)
  /-- A table of `root ^ j` for `j < n / 2`. -/
  | ofTable (table : Array Goldilocks)

/-- The table `root ^ j` for `j < n / 2`. -/
def twiddleTable (root : Goldilocks) (n : Nat) : Array Goldilocks := root.powers (n / 2)

/-- The `m` twiddles of the stage with `groups` groups. -/
def Twiddles.stage (tw : Twiddles) (m groups : Nat) : Array Goldilocks :=
  match tw with
  | .ofRoot root => (root ^ groups).powers m
  | .ofTable table => Array.ofFn fun j : Fin m => table.getD (j * groups) 0

/-- Replaces the entries `u` at `lo` and `v` at `hi` by `u + w v` and `u - w v`. -/
def butterfly (lo hi : Nat) (w : Goldilocks) (x : Array Goldilocks) : Array Goldilocks :=
  let u := x.getD lo 0
  let v := x.getD hi 0 * w
  (x.setIfInBounds lo (u + v)).setIfInBounds hi (u - v)

/-- Butterfly `j` of group `g` in the stage of half-width `m`. -/
def stageStep (m : Nat) (tw : Array Goldilocks) (g j : Nat) (x : Array Goldilocks) :
    Array Goldilocks :=
  butterfly (g * (2 * m) + j) (g * (2 * m) + j + m) (tw.getD j 0) x

/-- One stage. With many groups the groups are shared out, with few groups the butterflies of
each group. -/
def runStage (t : Tuning) (m groups : Nat) (tw : Array Goldilocks) (x : Array Goldilocks) :
    Array Goldilocks :=
  if m ≤ groups then
    t.loop (t.splits groups t.group) groups (fun g x => forRange 0 m (stageStep m tw g) x) x
  else
    forRange 0 groups (fun g x => t.loop (t.splits m t.span) m (stageStep m tw g) x) x

/-- All stages on a vector of length `2 ^ bits`, of half-widths `1, 2, 4, …`. -/
def runStages (t : Tuning) (bits : Nat) (tw : Twiddles) (x : Array Goldilocks) :
    Array Goldilocks :=
  bits.fold (fun k _ x =>
    let m := 1 <<< k
    let groups := (1 <<< bits) / (2 * m)
    runStage t m groups (tw.stage m groups) x) x

/-- The transform with an explicit root. -/
def transform (t : Tuning) (input : Array Goldilocks) (root : Goldilocks) :
    Except Fault (Array Goldilocks) := do
  let bits ← transformLog2 input.size
  return runStages t bits (.ofRoot root) (← bitReversePermute t input)

/-- The transform with a table of twiddles, which must have half as many entries as the input. -/
def transformWithTwiddles (t : Tuning) (input table : Array Goldilocks) :
    Except Fault (Array Goldilocks) := do
  let bits ← transformLog2 input.size
  let data ← bitReversePermute t input
  if table.size ≠ input.size / 2 then throw (.twiddleLength table.size input.size)
  return runStages t bits (.ofTable table) data

/-- Every entry times `factor`. -/
def scaleEntries (t : Tuning) (data : Array Goldilocks) (factor : Goldilocks) :
    Array Goldilocks :=
  t.loop (t.splits data.size t.hadamard) data.size (fun i x => x.modify i (· * factor)) data

/-- Coefficients to values on the roots of unity of the length. -/
def forward (t : Tuning) (coeffs : Array Goldilocks) : Except Fault (Array Goldilocks) := do
  let _ ← transformLog2 coeffs.size
  transform t coeffs (← Goldilocks.orderedRoot coeffs.size)

/-- Values on the roots of unity of the length back to coefficients. -/
def inverse (t : Tuning) (values : Array Goldilocks) : Except Fault (Array Goldilocks) := do
  let _ ← transformLog2 values.size
  let root ← Goldilocks.orderedRoot values.size
  let sums ← transform t values (← root.inverse)
  return scaleEntries t sums (← (Goldilocks.ofNat values.size).inverse)

/-- A computation on a vector in place. Where it fails, the vector stays as it is by then. -/
abbrev InPlace := ExceptT Fault (StateM (Array Goldilocks))

/-- The forward transform in place. -/
def forwardInPlace (t : Tuning) : InPlace Unit := do
  let coeffs ← get
  let _ ← transformLog2 coeffs.size
  let root ← Goldilocks.orderedRoot coeffs.size
  set (← transform t coeffs root)

/-- The inverse transform in place, which stores the sums before it scales them. -/
def inverseInPlace (t : Tuning) : InPlace Unit := do
  let values ← get
  let _ ← transformLog2 values.size
  let root ← Goldilocks.orderedRoot values.size
  let inverseRoot ← root.inverse
  set (← transform t values inverseRoot)
  let factor ← (Goldilocks.ofNat values.size).inverse
  modify fun sums => scaleEntries t sums factor

end ProofMiner
