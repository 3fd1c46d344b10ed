/-
# Bit reversal

The permutation that puts entry `k` of a vector of length `2^b` at the index whose `b` bits are
those of `k` in reverse order.
-/

import ProofMiner.Field.Goldilocks
import ProofMiner.Transform.Tuning

namespace ProofMiner

/-- The low `bits` bits of `k` in reverse order: bit `j` goes to bit `bits - 1 - j`. -/
def reverseBits (bits k : Nat) : Nat :=
  bits.fold (fun j _ rev => if k.testBit j then rev ||| (1 <<< (bits - 1 - j)) else rev) 0

/-- A transform length is a power of two; its binary logarithm. -/
def transformLog2 (n : Nat) : Except Fault Nat :=
  if !isPowerOfTwo n then .error (.transformLength n)
  else match log2Exact? n with
    | none => .error (.transformLength n)
    | some k => .ok k

/-- Writes output `k` of the gather: the input at the reversed index. -/
def gatherReversed (bits : Nat) (data : Array Goldilocks) (k : Nat) (out : Array Goldilocks) :
    Array Goldilocks :=
  out.setIfInBounds k (data.getD (reverseBits bits k) 0)

/-- The permuted copy of a vector whose length is a power of two. -/
def bitReversePermute (t : Tuning) (data : Array Goldilocks) :
    Except Fault (Array Goldilocks) := do
  let bits ← transformLog2 data.size
  return t.loop (t.splits data.size t.bitReverse) data.size (gatherReversed bits data)
    (Array.replicate data.size 0)

end ProofMiner
