/-
# Coset operations

Shifting a polynomial, evaluating it on a coset and interpolating values on a coset. Each has a
path with the tables of the cache and a direct one; both give the same field elements.
-/

import ProofMiner.Domain.Cache

namespace ProofMiner

/-- What a coset operation does about a domain that is not in the cache. -/
inductive CacheMode where
  /-- It adds the domain. -/
  | populate
  /-- It takes the direct path. -/
  | lookupOnly
  deriving DecidableEq, Repr, Inhabited

namespace Cache

/-- The tables that a coset operation works with. Only power-of-two sizes have any. -/
def tables (c : Cache) (mode : CacheMode) (size : Nat) (offset : Goldilocks) :
    Except Fault (Option Domain) × Cache :=
  if !isPowerOfTwo size then (.ok none, c)
  else match mode with
    | .populate =>
      let (found, c) := c.getOrCompute size offset
      (found.map some, c)
    | .lookupOnly =>
      let (found, c) := c.lookup size offset
      (.ok found, c)

end Cache

/-- Entry `i` times table entry `i`, for the entries of the first vector. -/
def timesTable (p table : Array Goldilocks) : Array Goldilocks :=
  p.mapIdx fun i a => a * table.getD i 0

/-- Entry `i` times `r ^ i`, with a running product. -/
def timesPowers (p : Array Goldilocks) (r : Goldilocks) : Array Goldilocks :=
  (p.foldl (fun (out, w) a => (out.push (a * w), w * r)) (#[], 1)).1

/-- The coefficients of `p (offset * X)`: entry `i` times `offset ^ i`. -/
def shift (mode : CacheMode) (p : Array Goldilocks) (offset : Goldilocks) (c : Cache) :
    Except Fault (Array Goldilocks) × Cache :=
  let c := { c with shiftCalls := c.shiftCalls + 1 }
  match c.tables mode p.size offset with
  | (.error e, c) => (.error e, c)
  | (.ok (some d), c) => (.ok (timesTable p d.powers), c)
  | (.ok none, c) => (.ok (timesPowers p offset), c)

/-- The values of a polynomial on the coset `offset * ⟨root⟩` of the given order. -/
def coseword (t : Tuning) (mode : CacheMode) (coeffs : Array Goldilocks) (offset : Goldilocks)
    (order : Nat) (c : Cache) : Except Fault (Array Goldilocks) × Cache :=
  let c := { c with cosewordCalls := c.cosewordCalls + 1 }
  if !isPowerOfTwo order then (.error (.cosewordOrder order), c)
  else if order < coeffs.size then (.error (.cosewordLength coeffs.size order), c)
  else match c.tables mode order offset with
    | (.error e, c) => (.error e, c)
    | (.ok (some d), c) =>
      let shifted := timesTable coeffs d.powers ++ Array.replicate (order - coeffs.size) 0
      (transformWithTwiddles t shifted d.twiddles, c)
    | (.ok none, c) =>
      let shifted := timesPowers coeffs offset ++ Array.replicate (order - coeffs.size) 0
      (forward t shifted, c)

/-- The polynomial of length `order` with the given values on the coset. -/
def intercosate (t : Tuning) (mode : CacheMode) (values : Array Goldilocks) (offset : Goldilocks)
    (order : Nat) (c : Cache) : Except Fault (Array Goldilocks) × Cache :=
  let c := { c with intercosateCalls := c.intercosateCalls + 1 }
  if !isPowerOfTwo order then (.error (.intercosateOrder order), c)
  else if values.size ≠ order then (.error (.intercosateLength order values.size), c)
  else if offset = 0 then (.error .zeroOffset, c)
  else match c.tables mode order offset with
    | (.error e, c) => (.error e, c)
    | (.ok (some d), c) =>
      let scaled := (transformWithTwiddles t values d.inverseTwiddles).map fun sums =>
        timesTable (sums.map (· * d.sizeInverse)) d.inversePowers
      (scaled, c)
    | (.ok none, c) => ((inverse t values).map fun coeffs => timesPowers coeffs offset⁻¹, c)

end ProofMiner
