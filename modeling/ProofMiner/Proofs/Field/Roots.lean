/-
# Roots of unity of power-of-two order

`isPowerOfTwo` and `log2Exact?` recognise the powers of two below `2^64` with their exponents, and
`orderedRoot` gives for `2^k`, `k ≤ 32`, the element `7 ^ ((p - 1) / 2^k)`. These elements form a
tower: squaring the root of order `2^(k+1)` gives the root of order `2^k`, down to `-1` and `1`. So
each of them is primitive for its order, and 32 is as far as the tower goes: no element of the
field has an order `2^k` with `k > 32`.
-/

import Mathlib.RingTheory.RootsOfUnity.PrimitiveRoots
import ProofMiner.Proofs.Field.Residues

namespace ProofMiner

/-! ### Powers of two -/

/-- The search for an exponent finds just the powers of two. -/
theorem isPowerOfTwo_iff {n : ℕ} : isPowerOfTwo n = true ↔ ∃ k, n = 2 ^ k := by
  rw [isPowerOfTwo, Bool.and_eq_true, bne_iff_ne, beq_iff_eq]
  exact Nat.ne_zero_and_sub_one_eq_zero_iff_isPowerOfTwo

theorem isPowerOfTwo_eq_false {n : ℕ} (h : ¬ n.isPowerOfTwo) : isPowerOfTwo n = false := by
  rw [← Bool.not_eq_true, isPowerOfTwo_iff]
  exact h

theorem isPowerOfTwo_two_pow (k : ℕ) : isPowerOfTwo (2 ^ k) = true := isPowerOfTwo_iff.2 ⟨k, rfl⟩

/-- The exponents of the powers of two for which there is a root. -/
theorem exists_exponent_le {n : ℕ} (hpow : n.isPowerOfTwo) (hle : n ≤ 2 ^ 32) :
    ∃ k ≤ 32, n = 2 ^ k := by
  obtain ⟨k, rfl⟩ := hpow
  exact ⟨k, (Nat.pow_le_pow_iff_right one_lt_two).1 hle, rfl⟩

/-- The search for the exponent stops at the exponent. -/
theorem log2Exact?_two_pow {k : ℕ} (hk : k < 64) : log2Exact? (2 ^ k) = some k := by
  rw [log2Exact?, List.find?_range_eq_some]
  refine ⟨by simp [Nat.one_shiftLeft], by simpa using hk, fun j hj => ?_⟩
  rw [Nat.one_shiftLeft]
  simpa using Nat.pow_lt_pow_right one_lt_two hj

/-- Doubling one gives powers of two only. -/
theorem exists_nextPowerOfTwo_eq (n : ℕ) : ∃ k, nextPowerOfTwo n = 2 ^ k := by
  unfold nextPowerOfTwo
  split
  · exact ⟨0, rfl⟩
  · exact ⟨_, Nat.one_shiftLeft _⟩

/-- No smaller power of two is large enough, so one that is bounds it. -/
theorem nextPowerOfTwo_le {n k : ℕ} (h : n ≤ 2 ^ k) : nextPowerOfTwo n ≤ 2 ^ k := by
  unfold nextPowerOfTwo
  split
  · exact Nat.one_le_two_pow
  · have hlog : (n - 1).log2 < k := (Nat.log2_lt (by omega)).2 (by omega)
    rw [Nat.one_shiftLeft]
    exact Nat.pow_le_pow_right two_pos hlog

namespace Goldilocks

/-! ### The tower -/

/-- The element of order `2 ^ k` in the tower, for `k ≤ 32`. -/
def towerRoot (k : ℕ) : Goldilocks := generator ^ ((modulus.toNat - 1) >>> k)

/-- **The roots exist up to the two-adicity.** -/
theorem orderedRoot_two_pow {k : ℕ} (hk : k ≤ 32) : orderedRoot (2 ^ k) = .ok (towerRoot k) := by
  have hlt : ¬ twoAdicity < k := by rw [twoAdicity]; omega
  rw [orderedRoot, isPowerOfTwo_two_pow, log2Exact?_two_pow (by omega)]
  simp only [Bool.not_true, Bool.false_eq_true, if_false, if_neg hlt, rootOfUnity, towerRoot]

/-- There is no subgroup of such an order. -/
theorem orderedRoot_of_not_isPowerOfTwo {n : ℕ} (h : ¬ n.isPowerOfTwo) :
    orderedRoot n = .error (.noSubgroup n) := by
  rw [orderedRoot, isPowerOfTwo_eq_false h]
  rfl

/-- Beyond the two-adicity there is none, whether or not the exponent is found. -/
theorem orderedRoot_of_lt {k : ℕ} (hk : 32 < k) :
    orderedRoot (2 ^ k) = .error (.orderTooLarge (2 ^ k)) := by
  rw [orderedRoot, isPowerOfTwo_two_pow]
  cases h : log2Exact? (2 ^ k) with
  | none => rfl
  | some j =>
    have hle : 2 ^ k ≤ 1 <<< j := by simpa using List.find?_some h
    rw [Nat.one_shiftLeft, Nat.pow_le_pow_iff_right one_lt_two] at hle
    have hj : twoAdicity < j := hk.trans_le hle
    simp only [Bool.not_true, Bool.false_eq_true, if_false, if_pos hj]

/-- The tower begins with the root of order one. -/
theorem towerRoot_zero : towerRoot 0 = 1 := by
  rw [towerRoot, Nat.shiftRight_zero]
  exact pow_order_sub_one (by decide)

/-- **Squaring goes down the tower.** -/
theorem towerRoot_pow {j k : ℕ} (hj : j ≤ k) (hk : k ≤ 32) :
    towerRoot k ^ 2 ^ j = towerRoot (k - j) := by
  have hsplit : ∀ i ≤ 32, (modulus.toNat - 1) >>> i = 2 ^ (32 - i) * (2 ^ 32 - 1) := by decide
  rw [towerRoot, towerRoot, ← pow_mul, hsplit k hk, hsplit (k - j) (by omega), mul_right_comm,
    ← pow_add, show 32 - k + j = 32 - (k - j) by omega]

/-- The square root of one that is not one. -/
theorem towerRoot_one : towerRoot 1 = -1 := by
  have hsq : towerRoot 1 ^ 2 = 1 := by
    rw [← towerRoot_zero, ← towerRoot_pow (show 1 ≤ 1 from le_rfl) (by omega), pow_one]
  have hne : towerRoot 1 ≠ 1 := by
    rw [towerRoot, Nat.shiftRight_one]
    exact generator_pow_ne_one (by decide)
  exact (sq_eq_one_iff.1 hsq).resolve_left hne

/-- Half-way round is minus one. -/
theorem towerRoot_pow_half {k : ℕ} (hk : k < 32) : towerRoot (k + 1) ^ 2 ^ k = -1 := by
  rw [towerRoot_pow k.le_succ hk, show k.succ - k = 1 by omega, towerRoot_one]

/-- The characteristic is not two. -/
theorem neg_one_ne_one : (-1 : Goldilocks) ≠ 1 := by decide

/-- A root of `-1` of exponent `2^k` has order `2^(k+1)`. -/
theorem orderOf_of_pow_eq_neg_one {r : Goldilocks} {k : ℕ} (h : r ^ 2 ^ k = -1) :
    orderOf r = 2 ^ (k + 1) := by
  apply orderOf_eq_prime_pow
  · rw [h]
    exact neg_one_ne_one
  · rw [pow_succ, pow_mul, h, neg_one_sq]

/-- **The tower ends at `2^32`**: `2^33` does not divide `p - 1`. -/
theorem lt_of_pow_eq_neg_one {r : Goldilocks} {k : ℕ} (h : r ^ 2 ^ k = -1) : k < 32 := by
  have hr : r ≠ 0 := by
    rintro rfl
    rw [zero_pow (by positivity)] at h
    exact absurd h (by decide)
  have hdvd : 2 ^ (k + 1) ∣ modulus.toNat - 1 := by
    rw [← orderOf_of_pow_eq_neg_one h]
    exact orderOf_dvd_of_pow_eq_one (pow_order_sub_one hr)
  by_contra hk
  have h33 : 2 ^ 33 ∣ modulus.toNat - 1 := (pow_dvd_pow 2 (by omega)).trans hdvd
  exact absurd h33 (by decide)

/-- **Each root of the tower is primitive.** -/
theorem isPrimitiveRoot_towerRoot {k : ℕ} (hk : k ≤ 32) :
    IsPrimitiveRoot (towerRoot k) (2 ^ k) := by
  rw [IsPrimitiveRoot.iff_orderOf]
  cases k with
  | zero => rw [towerRoot_zero, orderOf_one, pow_zero]
  | succ k => exact orderOf_of_pow_eq_neg_one (towerRoot_pow_half hk)

/-- Roots are invertible. -/
theorem towerRoot_ne_zero (k : ℕ) : towerRoot k ≠ 0 := pow_ne_zero _ (by decide)

/-- Lengths are invertible. -/
theorem two_pow_ne_zero (k : ℕ) : ((2 ^ k : ℕ) : Goldilocks) ≠ 0 := by
  rw [Nat.cast_pow]
  exact pow_ne_zero _ (by decide)

end Goldilocks
end ProofMiner
