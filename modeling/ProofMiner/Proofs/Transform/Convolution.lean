/-
# Products through the transform

The transform of a padded product is the pointwise product of the transforms of the padded operands,
because values are multiplied; the padded length holds the product, so nothing wraps around, and the
inverse transform gives the schoolbook product with zeros at the end (`multiplyFft_eq`). Both paths
of `multiply` therefore give the same vector (`multiply_eq`), of the same length: the convolution of
the operands (`products_agree`).
-/

import ProofMiner.Proofs.Transform.Inversion

namespace ProofMiner

open Goldilocks

/-! ### Padding -/

@[simp] theorem size_resized (a : Array Goldilocks) (n : ℕ) : (resized a n).size = n := by
  rw [resized, Array.size_ofFn]

/-- Entries within the new length stay. -/
theorem getD_resized (a : Array Goldilocks) {n i : ℕ} (hi : i < n) :
    (resized a n).getD i 0 = a.getD i 0 := getD_ofFn _ hi

/-- Nothing changes at the old length. -/
theorem resized_self (a : Array Goldilocks) : resized a a.size = a :=
  eq_of_getD (size_resized _ _) fun _ hi => getD_resized a (by rwa [size_resized] at hi)

/-- Padding appends zeros. -/
theorem append_zeros {a : Array Goldilocks} {n : ℕ} (h : a.size ≤ n) :
    a ++ Array.replicate (n - a.size) 0 = resized a n := by
  have hsize : (a ++ Array.replicate (n - a.size) (0 : Goldilocks)).size = n := by
    rw [Array.size_append, Array.size_replicate, Nat.add_sub_cancel' h]
  refine eq_of_getD (by rw [hsize, size_resized]) fun i hi => ?_
  rw [hsize] at hi
  rw [getD_resized _ hi, Array.getD_eq_getD_getElem?, Array.getElem?_append]
  by_cases hia : i < a.size
  · rw [if_pos hia, Array.getD_eq_getD_getElem?]
  · rw [if_neg hia, Polynomial.getD_of_size_le (not_lt.1 hia), Array.getElem?_replicate,
      if_pos (by omega), Option.getD_some]

/-- Padding does not change values. -/
theorem valueAt_resized {a : Array Goldilocks} {n : ℕ} (h : a.size ≤ n) (x : Goldilocks) :
    Polynomial.valueAt (resized a n) x = Polynomial.valueAt a x := by
  refine Polynomial.valueAt_congr (fun i => ?_) x
  rcases Nat.lt_or_ge i n with hi | hi
  · exact getD_resized a hi
  · rw [Polynomial.getD_of_size_le (by rwa [size_resized]),
      Polynomial.getD_of_size_le (h.trans hi)]

/-- Cutting a padded vector to its old length undoes the padding. -/
theorem resized_resized {a : Array Goldilocks} {n : ℕ} (h : a.size ≤ n) :
    resized (resized a n) a.size = a := by
  refine eq_of_getD (size_resized _ _) fun i hi => ?_
  rw [size_resized] at hi
  rw [getD_resized _ hi, getD_resized _ (hi.trans_le h)]

/-! ### Pointwise products -/

/-- Vectors of one length are multiplied entry by entry. -/
theorem hadamard_eq (t : Tuning) {a b : Array Goldilocks} (h : a.size = b.size) :
    hadamard t a b = .ok (Array.ofFn fun i : Fin a.size => a.getD i 0 * b.getD i 0) := by
  rw [hadamard, if_neg (not_not.2 h), Tuning.loop_eq_forRange]
  exact congrArg Except.ok (forRange_write _ (fun i => a.getD i 0 * b.getD i 0) _
    Array.size_replicate)

/-- **The convolution theorem**: the pointwise product of transforms transforms the product. -/
theorem hadamard_dft (t : Tuning) (w : Goldilocks) {a b : Array Goldilocks} {n : ℕ}
    (ha : a.size ≤ n) (hb : b.size ≤ n) (hmul : (Polynomial.mul a b).size ≤ n) :
    hadamard t (dft w (resized a n)) (dft w (resized b n)) =
      .ok (dft w (resized (Polynomial.mul a b) n)) := by
  rw [hadamard_eq t (by simp)]
  refine congrArg Except.ok (eq_of_getD (by simp) fun i hi => ?_)
  rw [Array.size_ofFn] at hi
  have hin : i < n := by rwa [size_dft, size_resized] at hi
  rw [getD_ofFn _ hi, getD_dft_eq_valueAt _ _ (by rwa [size_resized]),
    getD_dft_eq_valueAt _ _ (by rwa [size_resized]),
    getD_dft_eq_valueAt _ _ (by rwa [size_resized]),
    valueAt_resized ha, valueAt_resized hb, valueAt_resized hmul, Polynomial.valueAt_mul]

/-! ### Products -/

/-- **The product through the transform is the schoolbook product**, as long as the padded length
has a root. -/
theorem multiplyFft_eq (t : Tuning) {a b : Array Goldilocks}
    (hn : nextPowerOfTwo (a.size + b.size - 1) ≤ 2 ^ 32) :
    multiplyFft t a b = .ok (Polynomial.mul a b) := by
  by_cases hzero : (Polynomial.isZero a || Polynomial.isZero b) = true
  · rw [multiplyFft, Polynomial.mul, if_pos hzero, if_pos hzero]
    rfl
  · have hsize : (Polynomial.mul a b).size = a.size + b.size - 1 := by
      rw [Polynomial.size_mul, if_neg hzero]
    rw [Bool.or_eq_true, not_or] at hzero
    have ha := Polynomial.size_pos_of_not_isZero hzero.1
    have hb := Polynomial.size_pos_of_not_isZero hzero.2
    have hle := le_nextPowerOfTwo (a.size + b.size - 1)
    obtain ⟨k, hk32, hk⟩ := exists_exponent_le (exists_nextPowerOfTwo_eq (a.size + b.size - 1)) hn
    rw [hk] at hle
    rw [multiplyFft, if_neg (by simpa using hzero)]
    simp only [bind, Except.bind, pure, Except.pure, hk, forward_eq _ hk32 (size_resized _ _),
      hadamard_dft t _ (show a.size ≤ 2 ^ k by omega) (show b.size ≤ 2 ^ k by omega)
        (hsize.trans_le hle), inverse_eq t hk32 ((size_dft _ _).trans (size_resized _ _)),
      idft_dft_towerRoot hk32 (size_resized _ _)]
    rw [← hsize, resized_resized (hsize.trans_le hle)]

/-- **The threshold does not show in a product.** -/
theorem multiply_eq (t : Tuning) {a b : Array Goldilocks}
    (hn : nextPowerOfTwo (a.size + b.size - 1) ≤ 2 ^ 32) :
    multiply t a b = .ok (Polynomial.mul a b) := by
  unfold multiply
  split_ifs with hzero
  · rw [Polynomial.mul, if_pos hzero]
  · rfl
  · exact multiplyFft_eq t hn

/-- **All products are one vector.** The product through the transform, the product that chooses its
path by the length and the schoolbook product are equal, as long as the padded length has a root. If
an operand is empty or all zero this is the zero vector of length 1. Otherwise it has one coefficient
less than both operands together, and coefficient `k` is the sum of `a i * b j` over `i + j = k`. -/
theorem products_agree (t : Tuning) {a b : Array Goldilocks}
    (hn : nextPowerOfTwo (a.size + b.size - 1) ≤ 2 ^ 32) :
    ∃ product : Array Goldilocks, multiplyFft t a b = .ok product ∧ multiply t a b = .ok product ∧
      Polynomial.mul a b = product ∧
      if (∀ c ∈ a, c = 0) ∨ (∀ c ∈ b, c = 0) then product = #[0]
      else product.size = a.size + b.size - 1 ∧
        ∀ k, product.getD k 0 =
          ∑ ij ∈ Finset.HasAntidiagonal.antidiagonal k, a.getD ij.1 0 * b.getD ij.2 0 := by
  refine ⟨_, multiplyFft_eq t hn, multiply_eq t hn, rfl, ?_⟩
  split_ifs with hzero <;>
    rw [← Polynomial.isZero_iff_forall_mem, ← Polynomial.isZero_iff_forall_mem] at hzero
  · rw [Polynomial.mul, if_pos (by simpa using hzero)]
  · rw [not_or] at hzero
    exact ⟨by rw [Polynomial.size_mul, if_neg (by simpa using hzero)],
      Polynomial.getD_mul hzero.1 hzero.2⟩

/-- The hypothesis is satisfiable: a product whose length is a power of two, so that no padding is
left between its last coefficient and the wrap-around. -/
theorem products_agree_four : nextPowerOfTwo ((#[1, 2, 3] : Array Goldilocks).size +
      (#[4, 5] : Array Goldilocks).size - 1) ≤ 2 ^ 32 ∧
    multiplyFft {} #[1, 2, 3] #[4, 5] = .ok #[4, 13, 22, 15] ∧
    multiply {} #[1, 2, 3] #[4, 5] = .ok #[4, 13, 22, 15] := by
  have hfits : nextPowerOfTwo ((#[1, 2, 3] : Array Goldilocks).size +
      (#[4, 5] : Array Goldilocks).size - 1) ≤ 2 ^ 32 := by decide
  obtain ⟨product, hfft, hmul, hschool, -⟩ := products_agree {} hfits
  have hvalue : product = #[4, 13, 22, 15] := hschool.symm.trans (by decide +kernel)
  rw [hfft, hmul, hvalue]
  exact ⟨hfits, rfl, rfl⟩

end ProofMiner
