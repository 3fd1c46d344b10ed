/-
# Powers of two

The bit test for powers of two and the exact binary logarithm of a 64-bit size.
-/

namespace ProofMiner

/-- A number is a power of two when it is not zero and clearing its lowest bit leaves zero. -/
def isPowerOfTwo (n : Nat) : Bool :=
  n != 0 && (n &&& (n - 1)) == 0

/-- The least `k` below 64 with `n ≤ 2 ^ k`. Above `2 ^ 63` no 64-bit power of two is large
enough. -/
def log2Exact? (n : Nat) : Option Nat :=
  (List.range 64).find? fun k => n ≤ 1 <<< k

/-- The least power of two that is at least `n`. -/
def nextPowerOfTwo (n : Nat) : Nat :=
  if n ≤ 1 then 1 else 1 <<< ((n - 1).log2 + 1)

/-- The search for it starts at one and doubles until `n` is reached. -/
theorem le_nextPowerOfTwo (n : Nat) : n ≤ nextPowerOfTwo n := by
  unfold nextPowerOfTwo
  split
  · assumption
  · have := Nat.lt_log2_self (n := n - 1)
    rw [Nat.one_shiftLeft]
    omega

end ProofMiner
