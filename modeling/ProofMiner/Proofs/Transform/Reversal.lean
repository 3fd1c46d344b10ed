/-
# Bit reversal

Bit `i` of `reverseBits bits k` is bit `bits - 1 - i` of `k` (`testBit_reverseBits`). The recursion
on the low bit, which the transform rests on, is read off this: doubling an index leaves its
reversal as it is and adding one sets the top bit (`reverseBits_double`,
`reverseBits_double_add_one`).

A transform length is accepted exactly if it is a power of two below `2^64`, and the gather then
puts entry `reverseBits bits k` at index `k` (`bitReversePermute_eq`).
-/

import ProofMiner.Proofs.Field.Roots
import ProofMiner.Proofs.Transform.Loops
import ProofMiner.Transform.BitReversal

namespace ProofMiner

/-- The bits set after the first `j` of them were looked at. -/
theorem testBit_reverseBits_fold (bits k i : ℕ) {j : ℕ} (hj : j ≤ bits) :
    (j.fold (fun j _ rev =>
      if k.testBit j then rev ||| (1 <<< (bits - 1 - j)) else rev) 0).testBit i
      = (decide (i < bits ∧ bits - 1 - i < j) && k.testBit (bits - 1 - i)) := by
  induction j with
  | zero => simp
  | succ j ih =>
    rw [Nat.fold_succ]
    by_cases hi : i < bits ∧ bits - 1 - i = j
    · obtain ⟨hi, rfl⟩ := hi
      have hnew : (1 <<< (bits - 1 - (bits - 1 - i))).testBit i = true := by
        rw [Nat.one_shiftLeft, Nat.testBit_two_pow, decide_eq_true_eq]
        omega
      split_ifs with hbit
      · simp [Nat.testBit_or, hnew, hbit, hi]
      · rw [ih (by omega)]
        simp [hbit]
    · have hiff : (i < bits ∧ bits - 1 - i < j + 1) ↔ (i < bits ∧ bits - 1 - i < j) := by omega
      have hold : (1 <<< (bits - 1 - j)).testBit i = false := by
        rw [Nat.one_shiftLeft, Nat.testBit_two_pow, decide_eq_false_iff_not]
        omega
      simp only [hiff]
      split_ifs
      · rw [Nat.testBit_or, hold, Bool.or_false, ih (by omega)]
      · exact ih (by omega)

/-- **The bits stand in reverse order.** -/
theorem testBit_reverseBits (bits k i : ℕ) :
    (reverseBits bits k).testBit i = (decide (i < bits) && k.testBit (bits - 1 - i)) := by
  have hiff : (i < bits ∧ bits - 1 - i < bits) ↔ i < bits := by omega
  rw [reverseBits, testBit_reverseBits_fold bits k i le_rfl]
  simp only [hiff]

/-- As many bits come out as are reversed. -/
theorem reverseBits_lt (bits k : ℕ) : reverseBits bits k < 2 ^ bits := by
  refine Nat.lt_pow_two_of_testBit _ fun i hi => ?_
  rw [testBit_reverseBits, decide_eq_false (by omega), Bool.false_and]

theorem reverseBits_zero (k : ℕ) : reverseBits 0 k = 0 := rfl

/-- **Doubling an index leaves its reversal as it is.** -/
theorem reverseBits_double (bits k : ℕ) : reverseBits (bits + 1) (2 * k) = reverseBits bits k := by
  refine Nat.eq_of_testBit_eq fun i => ?_
  rw [testBit_reverseBits, testBit_reverseBits]
  rcases Nat.lt_trichotomy i bits with h | rfl | h
  · rw [show bits + 1 - 1 - i = bits - 1 - i + 1 by omega, Nat.testBit_succ,
      Nat.mul_div_cancel_left _ two_pos]
    simp [h, h.trans bits.lt_succ_self]
  · simp [Nat.testBit_zero]
  · simp [show ¬ i < bits + 1 by omega, show ¬ i < bits by omega]

/-- **The low bit of an index is the top bit of its reversal.** -/
theorem reverseBits_double_add_one (bits k : ℕ) :
    reverseBits (bits + 1) (2 * k + 1) = 2 ^ bits + reverseBits bits k := by
  refine Nat.eq_of_testBit_eq fun i => ?_
  have hlt := reverseBits_lt bits k
  rw [testBit_reverseBits]
  rcases Nat.lt_trichotomy i bits with h | rfl | h
  · rw [Nat.testBit_two_pow_add_gt h, testBit_reverseBits,
      show bits + 1 - 1 - i = bits - 1 - i + 1 by omega, Nat.testBit_succ,
      show (2 * k + 1) / 2 = k by omega]
    simp [h, h.trans bits.lt_succ_self]
  · rw [Nat.testBit_two_pow_add_eq, Nat.testBit_lt_two_pow hlt]
    simp [Nat.testBit_zero]
  · have hsum : 2 ^ bits + reverseBits bits k < 2 ^ i := by
      have := Nat.pow_le_pow_right two_pos (show bits + 1 ≤ i from h)
      rw [pow_succ] at this
      omega
    rw [Nat.testBit_lt_two_pow hsum]
    simp [show ¬ i < bits + 1 by omega]

/-- The exponent of a length that a word holds. -/
theorem transformLog2_two_pow {k : ℕ} (hk : k < 64) : transformLog2 (2 ^ k) = .ok k := by
  rw [transformLog2, isPowerOfTwo_two_pow, log2Exact?_two_pow hk]
  rfl

/-- Other lengths are refused. -/
theorem transformLog2_of_not_isPowerOfTwo {n : ℕ} (h : ¬ n.isPowerOfTwo) :
    transformLog2 n = .error (.transformLength n) := by
  rw [transformLog2, isPowerOfTwo_eq_false h]
  rfl

/-- No other length is accepted, and its logarithm is exact. -/
theorem eq_two_pow_of_transformLog2 {n k : ℕ} (h : transformLog2 n = .ok k) :
    k < 64 ∧ n = 2 ^ k := by
  by_cases hpow : n.isPowerOfTwo
  · obtain ⟨j, rfl⟩ := hpow
    have hj : j < 64 := by
      by_contra hj
      have hnone : log2Exact? (2 ^ j) = none := by
        rw [log2Exact?, List.find?_range_eq_none]
        intro i hi
        rw [Nat.one_shiftLeft, Bool.not_eq_true', decide_eq_false_iff_not, not_le]
        exact Nat.pow_lt_pow_right one_lt_two (by omega)
      rw [transformLog2, isPowerOfTwo_two_pow, hnone] at h
      cases h
    rw [transformLog2_two_pow hj] at h
    obtain rfl := Except.ok.inj h
    exact ⟨hj, rfl⟩
  · rw [transformLog2_of_not_isPowerOfTwo hpow] at h
    cases h

/-- **The gather**, whatever its path. -/
theorem bitReversePermute_eq (t : Tuning) {k : ℕ} (hk : k < 64) (data : Array Goldilocks)
    (hsize : data.size = 2 ^ k) :
    bitReversePermute t data =
      .ok (Array.ofFn fun i : Fin (2 ^ k) => data.getD (reverseBits k i) 0) := by
  rw [bitReversePermute, hsize, transformLog2_two_pow hk]
  simp only [bind, Except.bind, pure, Except.pure, Tuning.loop_eq_forRange]
  exact congrArg Except.ok (forRange_write _ (fun i => data.getD (reverseBits k i) 0) _
    Array.size_replicate)

end ProofMiner
