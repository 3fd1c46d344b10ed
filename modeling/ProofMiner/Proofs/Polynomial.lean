/-
# Values and products of coefficient arrays

`Polynomial.valueAt p x` is the value of the polynomial with the coefficients `p`, as a sum over the
coefficients; Horner's rule computes it (`eval_eq_valueAt`), and zeros at the end do not change it.

The schoolbook product adds `p i * q j` at index `i + j`. So for any weights `f` on the indices the
weighted sum of its coefficients is `∑ i j, p i * q j * f (i + j)` (`weightedSum_mul`). With the
powers of `x` as weights this says that values are multiplied (`valueAt_mul`), and with one index as
the only weight it gives the coefficient there (`getD_mul`).
-/

import Mathlib.Algebra.BigOperators.Group.Finset.Sigma
import Mathlib.Algebra.BigOperators.NatAntidiagonal
import Mathlib.Algebra.BigOperators.Ring.Finset
import Mathlib.Tactic.Ring
import ProofMiner.Polynomial

namespace ProofMiner
namespace Polynomial

open Finset

variable {α : Type} [CommRing α]

/-- The sum of the coefficients, the one at index `i` weighted with `f i`. -/
def weightedSum (p : Array α) (f : ℕ → α) : α := ∑ i ∈ range p.size, p.getD i 0 * f i

/-- The value at `x`: the sum of `p i * x ^ i`. -/
def valueAt (p : Array α) (x : α) : α := ∑ i ∈ range p.size, p.getD i 0 * x ^ i

/-- Beyond the coefficients there are zeros. -/
theorem getD_of_size_le {p : Array α} {i : ℕ} (h : p.size ≤ i) : p.getD i 0 = 0 := by
  rw [Array.getD_eq_getD_getElem?, Array.getElem?_eq_none h, Option.getD_none]

/-- Indices behind the last coefficient add nothing. -/
theorem weightedSum_eq_of_size_le {p : Array α} {n : ℕ} (h : p.size ≤ n) (f : ℕ → α) :
    weightedSum p f = ∑ i ∈ range n, p.getD i 0 * f i := by
  refine sum_subset (range_subset_range.2 h) fun i _ hi => ?_
  rw [getD_of_size_le (not_lt.1 (mem_range.not.1 hi)), zero_mul]

/-- The value is a sum over any range that holds the coefficients. -/
theorem valueAt_eq_of_size_le {p : Array α} {n : ℕ} (h : p.size ≤ n) (x : α) :
    valueAt p x = ∑ i ∈ range n, p.getD i 0 * x ^ i := weightedSum_eq_of_size_le h (x ^ ·)

/-- Coefficients that agree at every index, zeros at the end aside, have the same values. -/
theorem valueAt_congr {p q : Array α} (h : ∀ i, p.getD i 0 = q.getD i 0) (x : α) :
    valueAt p x = valueAt q x := by
  rw [valueAt_eq_of_size_le (le_max_left p.size q.size),
    valueAt_eq_of_size_le (le_max_right p.size q.size)]
  exact sum_congr rfl fun i _ => by rw [h]

/-- **Horner's scheme**, by induction on the coefficients. -/
theorem horner_eq_sum (l : List α) (x : α) :
    l.foldr (fun c acc => acc * x + c) 0 = ∑ i ∈ range l.length, l.getD i 0 * x ^ i := by
  induction l with
  | nil => simp
  | cons c l ih =>
    rw [List.foldr_cons, ih, List.length_cons, sum_range_succ', sum_mul]
    simp only [List.getD_cons_succ, List.getD_cons_zero, pow_zero, mul_one, pow_succ, mul_assoc]

/-- **Horner's rule** computes the value. -/
theorem eval_eq_valueAt (p : Array α) (x : α) : eval p x = valueAt p x := by
  rw [eval, ← Array.foldr_toList, horner_eq_sum, valueAt, Array.length_toList]
  exact sum_congr rfl fun i _ => by
    rw [List.getD_eq_getElem?_getD, Array.getElem?_toList, Array.getD_eq_getD_getElem?]

/-- What is added to one coefficient is added to no other. -/
theorem getD_modify (a : Array α) {i : ℕ} (hi : i < a.size) (v : α) (j : ℕ) :
    (a.modify i (· + v)).getD j 0 = a.getD j 0 + if j = i then v else 0 := by
  rw [Array.getD_eq_getD_getElem?, Array.getD_eq_getD_getElem?, Array.getElem?_modify]
  by_cases h : i = j
  · simp [h, h ▸ hi]
  · rw [if_neg h, if_neg (Ne.symm h), add_zero]

/-- Adding to a coefficient adds to the weighted sum. -/
theorem weightedSum_modify (a : Array α) {i : ℕ} (hi : i < a.size) (v : α) (f : ℕ → α) :
    weightedSum (a.modify i (· + v)) f = weightedSum a f + v * f i := by
  rw [weightedSum, weightedSum, Array.size_modify]
  simp only [getD_modify a hi, add_mul, sum_add_distrib, ite_mul, zero_mul]
  rw [sum_ite_eq', if_pos (mem_range.2 hi)]

/-- Weighing one index alone reads off its coefficient. -/
theorem weightedSum_single (p : Array α) (k : ℕ) :
    weightedSum p (fun i => if i = k then 1 else 0) = p.getD k 0 := by
  rw [weightedSum]
  simp only [mul_ite, mul_one, mul_zero, sum_ite_eq', mem_range]
  by_cases h : k < p.size
  · rw [if_pos h]
  · rw [if_neg h, getD_of_size_le (not_lt.1 h)]

/-! ### Products -/

/-- The inner loop of the product adds one row. -/
theorem weightedSum_row (p q acc : Array α) (i : ℕ) (f : ℕ → α) {n : ℕ} (hn : i + n ≤ acc.size) :
    (n.fold (fun j _ acc => acc.modify (i + j) (· + p.getD i 0 * q.getD j 0)) acc).size = acc.size ∧
      weightedSum (n.fold (fun j _ acc => acc.modify (i + j) (· + p.getD i 0 * q.getD j 0)) acc) f
        = weightedSum acc f + ∑ j ∈ range n, p.getD i 0 * q.getD j 0 * f (i + j) := by
  induction n with
  | zero => simp
  | succ n ih =>
    obtain ⟨hsize, hsum⟩ := ih (by omega)
    rw [Nat.fold_succ, Array.size_modify, weightedSum_modify _ (by omega), hsum, sum_range_succ,
      add_assoc]
    exact ⟨hsize, rfl⟩

/-- The outer loop of the product adds the rows. -/
theorem weightedSum_rows (p q acc : Array α) (f : ℕ → α) {n : ℕ}
    (hn : n + q.size ≤ acc.size + 1) :
    (n.fold (fun i _ acc => q.size.fold
      (fun j _ acc => acc.modify (i + j) (· + p.getD i 0 * q.getD j 0)) acc) acc).size = acc.size ∧
    weightedSum (n.fold (fun i _ acc => q.size.fold
      (fun j _ acc => acc.modify (i + j) (· + p.getD i 0 * q.getD j 0)) acc) acc) f
        = weightedSum acc f +
          ∑ i ∈ range n, ∑ j ∈ range q.size, p.getD i 0 * q.getD j 0 * f (i + j) := by
  induction n with
  | zero => simp
  | succ n ih =>
    obtain ⟨hsize, hsum⟩ := ih (by omega)
    have hfit : n + q.size ≤ acc.size := by omega
    obtain ⟨hrow, hrows⟩ := weightedSum_row p q _ n f (hfit.trans_eq hsize.symm)
    rw [Nat.fold_succ, hrow, hrows, hsum, sum_range_succ, add_assoc]
    exact ⟨hsize, rfl⟩

section Product

variable [DecidableEq α]

/-- A polynomial is zero if all its coefficients are, or if it has none. -/
theorem isZero_iff {p : Array α} : isZero p = true ↔ ∀ i, p.getD i 0 = 0 := by
  rw [isZero, Array.all_eq_true]
  simp only [decide_eq_true_eq]
  refine ⟨fun h i => ?_, fun h i hi => ?_⟩
  · rcases Nat.lt_or_ge i p.size with hi | hi
    · rw [Array.getD_eq_getD_getElem?, Array.getElem?_eq_getElem hi, Option.getD_some, h i hi]
    · exact getD_of_size_le hi
  · rw [← h i, Array.getD_eq_getD_getElem?, Array.getElem?_eq_getElem hi, Option.getD_some]

theorem isZero_iff_forall_mem {p : Array α} : isZero p = true ↔ ∀ c ∈ p, c = 0 := by
  rw [isZero, Array.all_eq_true']
  simp only [decide_eq_true_eq]

/-- A polynomial that is not zero has coefficients. -/
theorem size_pos_of_not_isZero {p : Array α} (h : ¬ isZero p = true) : 0 < p.size := by
  by_contra hp
  exact h (isZero_iff.2 fun i => getD_of_size_le (by omega))

theorem valueAt_of_isZero {p : Array α} (h : isZero p = true) (x : α) : valueAt p x = 0 :=
  sum_eq_zero fun i _ => by rw [isZero_iff.1 h, zero_mul]

/-- The length of a product. -/
theorem size_mul (p q : Array α) :
    (mul p q).size = if isZero p || isZero q then 1 else p.size + q.size - 1 := by
  by_cases h : isZero p = true ∨ isZero q = true
  · rw [mul, if_pos (by simpa using h), if_pos (by simpa using h)]
    rfl
  · have hp := size_pos_of_not_isZero (not_or.1 h).1
    rw [mul, if_neg (by simpa using h), if_neg (by simpa using h),
      (weightedSum_rows p q _ (fun _ => 0) (by rw [Array.size_replicate]; omega)).1,
      Array.size_replicate]

/-- **The product, weighted**: every pair of coefficients counts at the sum of its indices. -/
theorem weightedSum_mul {p q : Array α} (hp : ¬ isZero p = true) (hq : ¬ isZero q = true)
    (f : ℕ → α) : weightedSum (mul p q) f =
      ∑ i ∈ range p.size, ∑ j ∈ range q.size, p.getD i 0 * q.getD j 0 * f (i + j) := by
  have hpos := size_pos_of_not_isZero hp
  rw [mul, if_neg (by simp [hp, hq]),
    (weightedSum_rows p q _ f (by rw [Array.size_replicate]; omega)).2]
  have hzero : weightedSum (Array.replicate (p.size + q.size - 1) (0 : α)) f = 0 := by
    refine sum_eq_zero fun i _ => ?_
    rw [Array.getD_eq_getD_getElem?, Array.getElem?_replicate]
    split_ifs <;> simp
  rw [hzero, zero_add]

/-- **The coefficients of a product**: every pair of coefficients counts at the sum of its indices. -/
theorem getD_mul {p q : Array α} (hp : ¬ isZero p = true) (hq : ¬ isZero q = true) (k : ℕ) :
    (mul p q).getD k 0 = ∑ ij ∈ antidiagonal k, p.getD ij.1 0 * q.getD ij.2 0 := by
  rw [← weightedSum_single, weightedSum_mul hp hq, ← sum_product']
  simp only [mul_ite, mul_one, mul_zero]
  rw [← sum_filter]
  refine sum_subset (fun ij h => mem_antidiagonal.2 (mem_filter.1 h).2) fun ij hk h => ?_
  -- A pair that the loops do not visit has an index behind the last coefficient.
  rw [mem_filter, mem_product, mem_range, mem_range, not_and_or, not_and_or] at h
  rcases h with (h | h) | h
  · rw [getD_of_size_le (not_lt.1 h), zero_mul]
  · rw [getD_of_size_le (not_lt.1 h), mul_zero]
  · exact absurd (mem_antidiagonal.1 hk) h

/-- **Values are multiplied.** -/
theorem valueAt_mul (p q : Array α) (x : α) : valueAt (mul p q) x = valueAt p x * valueAt q x := by
  by_cases h : isZero p = true ∨ isZero q = true
  · have hprod : mul p q = #[0] := by rw [mul, if_pos (by simpa using h)]
    have hzero : valueAt p x * valueAt q x = 0 := by
      rcases h with h | h <;> rw [valueAt_of_isZero h] <;> ring
    rw [hprod, hzero]
    simp [valueAt]
  · rw [not_or] at h
    change weightedSum (mul p q) (x ^ ·) = _
    rw [weightedSum_mul h.1 h.2, valueAt, valueAt, sum_mul_sum]
    refine sum_congr rfl fun i _ => sum_congr rfl fun j _ => ?_
    ring

end Product

end Polynomial
end ProofMiner
