/-
# Evaluation domains

The constants of one coset `offset * ⟨root⟩` of power-of-two size: the powers of the offset, the
root and the twiddle tables of both directions of the transform.
-/

import ProofMiner.Transform.Ntt

namespace ProofMiner

/-- The tables of one domain. -/
structure Domain where
  size : Nat
  offset : Goldilocks
  /-- `offset ^ i` for `i < size`. -/
  powers : Array Goldilocks
  /-- `offset ^ -i` for `i < size`; empty when the offset is zero. -/
  inversePowers : Array Goldilocks
  /-- The generator of the subgroup of the size. -/
  root : Goldilocks
  inverseRoot : Goldilocks
  /-- `1 / size`. -/
  sizeInverse : Goldilocks
  /-- `root ^ j` for `j < size / 2`. -/
  twiddles : Array Goldilocks
  /-- `root ^ -j` for `j < size / 2`. -/
  inverseTwiddles : Array Goldilocks
  deriving DecidableEq, Repr, Inhabited

namespace Domain

/-- The tables for a size, which must be a power of two at most `2 ^ 32`, and an offset. -/
def compute (size : Nat) (offset : Goldilocks) : Except Fault Domain := do
  if !isPowerOfTwo size then throw (.domainSize size)
  let root ← Goldilocks.orderedRoot size
  let inverseRoot ← root.inverse
  let sizeInverse ← (Goldilocks.ofNat size).inverse
  return {
    size, offset, root, inverseRoot, sizeInverse
    powers := offset.powers size
    inversePowers := if offset = 0 then #[] else offset⁻¹.powers size
    twiddles := twiddleTable root size
    inverseTwiddles := twiddleTable inverseRoot size }

end Domain
end ProofMiner
