/-
# The Fourier transform of a vector and its inverse

`dft r x` holds the values of the polynomial with the coefficients `x` at `r^0, …, r^(n-1)`, as
plain sums. For a primitive `n`-th root `w` the sums over its powers are orthogonal
(`sum_pow_mul_inv_pow`), so transforming with `w` and then with `w⁻¹` multiplies every entry by `n`,
and dividing by `n` inverts the transform in both orders (`idft_dft`, `dft_idft`).
-/

import Mathlib.Algebra.Field.GeomSum
import Mathlib.RingTheory.RootsOfUnity.PrimitiveRoots
import ProofMiner.Proofs.Field.Residues
import ProofMiner.Proofs.Polynomial

namespace ProofMiner

open Finset

/-- The values of the polynomial with the coefficients `x` at the powers of `r`. -/
def dft (r : Goldilocks) (x : Array Goldilocks) : Array Goldilocks :=
  Array.ofFn fun i : Fin x.size => ∑ j ∈ range x.size, x.getD j 0 * r ^ (i.val * j)

/-- The transform with the inverse root, divided by the length. -/
def idft (w : Goldilocks) (x : Array Goldilocks) : Array Goldilocks :=
  (dft w⁻¹ x).map (· * (x.size : Goldilocks)⁻¹)

@[simp] theorem size_dft (r : Goldilocks) (x : Array Goldilocks) : (dft r x).size = x.size := by
  rw [dft, Array.size_ofFn]

@[simp] theorem size_idft (w : Goldilocks) (x : Array Goldilocks) : (idft w x).size = x.size := by
  rw [idft, Array.size_map, size_dft]

theorem getD_ofFn {n : ℕ} (f : Fin n → Goldilocks) {i : ℕ} (hi : i < n) :
    (Array.ofFn f).getD i 0 = f ⟨i, hi⟩ := by
  rw [Array.getD_eq_getD_getElem?, Array.getElem?_ofFn, dif_pos hi, Option.getD_some]

/-- Arrays of one length with the same entries are equal. -/
theorem eq_of_getD {x y : Array Goldilocks} (hsize : x.size = y.size)
    (h : ∀ i < x.size, x.getD i 0 = y.getD i 0) : x = y := by
  refine Array.ext hsize fun i hx hy => ?_
  have hi := h i hx
  rwa [Array.getD_eq_getD_getElem?, Array.getD_eq_getD_getElem?, Array.getElem?_eq_getElem hx,
    Array.getElem?_eq_getElem hy] at hi

theorem getD_map_mul (x : Array Goldilocks) (a : Goldilocks) (i : ℕ) :
    (x.map (· * a)).getD i 0 = x.getD i 0 * a := by
  rw [Array.getD_eq_getD_getElem?, Array.getD_eq_getD_getElem?, Array.getElem?_map]
  cases x[i]? with
  | none => rw [Option.map_none, Option.getD_none, zero_mul]
  | some b => rfl

/-- The entry at `i` is the sum over the powers of `r ^ i`. -/
theorem getD_dft (r : Goldilocks) (x : Array Goldilocks) {i : ℕ} (hi : i < x.size) :
    (dft r x).getD i 0 = ∑ j ∈ range x.size, x.getD j 0 * r ^ (i * j) := getD_ofFn _ hi

/-- An entry of the transform is a value of the polynomial. -/
theorem getD_dft_eq_valueAt (r : Goldilocks) (x : Array Goldilocks) {i : ℕ} (hi : i < x.size) :
    (dft r x).getD i 0 = Polynomial.valueAt x (r ^ i) := by
  rw [getD_dft r x hi, Polynomial.valueAt]
  exact sum_congr rfl fun j _ => by rw [pow_mul]

/-- The inverse sums over the inverse powers and divides by the length. -/
theorem getD_idft (w : Goldilocks) (x : Array Goldilocks) {i : ℕ} (hi : i < x.size) :
    (idft w x).getD i 0 =
      (∑ j ∈ range x.size, x.getD j 0 * w⁻¹ ^ (i * j)) * (x.size : Goldilocks)⁻¹ := by
  rw [idft, getD_map_mul, getD_dft _ _ hi]

/-- **The powers of a primitive root are orthogonal.** -/
theorem sum_pow_mul_inv_pow {w : Goldilocks} {n : ℕ} (hw : IsPrimitiveRoot w n) {i l : ℕ}
    (hi : i < n) (hl : l < n) :
    ∑ j ∈ range n, w ^ (l * j) * w⁻¹ ^ (i * j) = if l = i then (n : Goldilocks) else 0 := by
  have hw0 : w ≠ 0 := hw.ne_zero (by omega)
  have hterm : ∀ j, w ^ (l * j) * w⁻¹ ^ (i * j) = (w ^ l * w⁻¹ ^ i) ^ j := fun j => by
    rw [mul_pow, ← pow_mul, ← pow_mul]
  simp only [hterm]
  split_ifs with h
  · subst h
    rw [← mul_pow, mul_inv_cancel₀ hw0, one_pow]
    simp
  · have hne : w ^ l * w⁻¹ ^ i ≠ 1 := by
      rw [inv_pow, ← div_eq_mul_inv, ne_eq, div_eq_one_iff_eq (pow_ne_zero _ hw0)]
      exact fun heq => h (hw.pow_inj hl hi heq)
    have hone : (w ^ l * w⁻¹ ^ i) ^ n = 1 := by
      rw [mul_pow, ← pow_mul, ← pow_mul, mul_comm l, mul_comm i, pow_mul, pow_mul, inv_pow,
        hw.pow_eq_one, inv_one, one_pow, one_pow, one_mul]
    rw [geom_sum_eq hne, hone, sub_self, zero_div]

/-- Transforming forth and back multiplies every entry by the length. -/
theorem sum_dft_mul_inv_pow {w : Goldilocks} {x : Array Goldilocks}
    (hw : IsPrimitiveRoot w x.size) {i : ℕ} (hi : i < x.size) :
    ∑ j ∈ range x.size, (dft w x).getD j 0 * w⁻¹ ^ (i * j) = x.getD i 0 * x.size := by
  calc
    _ = ∑ j ∈ range x.size, ∑ l ∈ range x.size,
          x.getD l 0 * (w ^ (l * j) * w⁻¹ ^ (i * j)) := by
      refine sum_congr rfl fun j hj => ?_
      rw [getD_dft w x (mem_range.1 hj), sum_mul]
      exact sum_congr rfl fun l _ => by rw [mul_assoc, mul_comm j l]
    _ = ∑ l ∈ range x.size, x.getD l 0 * if l = i then (x.size : Goldilocks) else 0 := by
      rw [sum_comm]
      refine sum_congr rfl fun l hl => ?_
      rw [← mul_sum, sum_pow_mul_inv_pow hw hi (mem_range.1 hl)]
    _ = x.getD i 0 * x.size := by
      simp only [mul_ite, mul_zero]
      rw [sum_ite_eq', if_pos (mem_range.2 hi)]

/-- **Interpolation after evaluation** gives the coefficients back. -/
theorem idft_dft {w : Goldilocks} {x : Array Goldilocks} (hw : IsPrimitiveRoot w x.size)
    (hn : (x.size : Goldilocks) ≠ 0) : idft w (dft w x) = x := by
  refine eq_of_getD (by simp) fun i hi => ?_
  rw [size_idft, size_dft] at hi
  rw [getD_idft _ _ (by rwa [size_dft]), size_dft, sum_dft_mul_inv_pow hw hi,
    mul_inv_cancel_right₀ hn]

/-- **Evaluation after interpolation** gives the values back. -/
theorem dft_idft {w : Goldilocks} {x : Array Goldilocks} (hw : IsPrimitiveRoot w x.size)
    (hn : (x.size : Goldilocks) ≠ 0) : dft w (idft w x) = x := by
  refine eq_of_getD (by simp) fun i hi => ?_
  rw [size_dft, size_idft] at hi
  have hback := sum_dft_mul_inv_pow hw.inv hi
  rw [inv_inv] at hback
  rw [getD_dft _ _ (by rwa [size_idft]), size_idft]
  simp only [idft, getD_map_mul, mul_right_comm _ (x.size : Goldilocks)⁻¹]
  rw [← sum_mul, hback, mul_inv_cancel_right₀ hn]

end ProofMiner
