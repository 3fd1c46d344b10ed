/-
# Coefficient arrays are polynomials

An array stands for the polynomial with its entries as coefficients (`denoted`), and zeros at the
end make no difference to that. An entry behind the last one is read as zero, so the operations act
on entries at every index (`getD_zipped`, `getD_mapped`, `getD_mul`), and they are the operations of
polynomials. Horner's rule is evaluation, hence values add, subtract and multiply.

The last entry other than zero is at the degree (`natDegree_denoted`). Degrees add up where no
product of two elements vanishes, and in both fields none does (`polynomial_arithmetic_exact`).
-/

import Mathlib.Algebra.Polynomial.Degree.Domain
import Mathlib.Algebra.Polynomial.Eval.Degree
import ProofMiner.Proofs.Field.Quotient
import ProofMiner.Proofs.Polynomial

section Denotation

-- the polynomials of the library, opened before the namespace that has its own
open Polynomial

namespace ProofMiner
namespace Polynomial

open Finset (range antidiagonal)

variable {α : Type} [CommRing α]

/-! ### The polynomial of an array -/

/-- The polynomial whose coefficients are the entries. -/
noncomputable def denoted (p : Array α) : α[X] := ∑ i ∈ range p.size, monomial i (p.getD i 0)

/-- The coefficients of the polynomial are those of the array, with zeros behind them. -/
theorem coeff_denoted (p : Array α) (i : ℕ) : (denoted p).coeff i = p.getD i 0 := by
  rw [denoted, finsetSum_coeff]
  simp only [coeff_monomial, Finset.sum_ite_eq', Finset.mem_range]
  by_cases hi : i < p.size
  · rw [if_pos hi]
  · rw [if_neg hi, getD_of_size_le (by omega)]

/-- **Horner's rule is evaluation.** -/
theorem eval_eq_eval_denoted (p : Array α) (x : α) : eval p x = (denoted p).eval x := by
  rw [eval_eq_valueAt, valueAt, denoted, eval_finsetSum]
  exact Finset.sum_congr rfl fun i _ => eval_monomial.symm

/-! ### Entrywise operations -/

/-- Two arrays of different lengths are combined as if the shorter one were padded. -/
theorem getD_zipped {f : α → α → α} (hf : f 0 0 = 0) (p q : Array α) (i : ℕ) :
    (Array.ofFn fun i : Fin (max p.size q.size) => f (p.getD i 0) (q.getD i 0)).getD i 0 =
      f (p.getD i 0) (q.getD i 0) := by
  rw [Array.getD_eq_getD_getElem?, Array.getElem?_ofFn]
  by_cases hi : i < max p.size q.size
  · rw [dif_pos hi, Option.getD_some]
  · have hp : p.size ≤ i := by omega
    have hq : q.size ≤ i := by omega
    rw [dif_neg hi, Option.getD_none, getD_of_size_le hp, getD_of_size_le hq, hf]

theorem getD_mapped {f : α → α} (hf : f 0 = 0) (p : Array α) (i : ℕ) :
    (p.map f).getD i 0 = f (p.getD i 0) := by
  rw [Array.getD_eq_getD_getElem?, Array.getD_eq_getD_getElem?, Array.getElem?_map]
  cases p[i]? with
  | none => exact hf.symm
  | some c => rfl

/-- The operations on arrays are those on polynomials. -/
theorem denoted_add (p q : Array α) : denoted (add p q) = denoted p + denoted q := by
  ext i
  rw [coeff_add, coeff_denoted, coeff_denoted, coeff_denoted]
  exact getD_zipped (add_zero 0) p q i

theorem denoted_sub (p q : Array α) : denoted (sub p q) = denoted p - denoted q := by
  ext i
  rw [coeff_sub, coeff_denoted, coeff_denoted, coeff_denoted]
  exact getD_zipped (sub_zero 0) p q i

theorem denoted_neg (p : Array α) : denoted (neg p) = -denoted p := by
  ext i
  rw [coeff_neg, coeff_denoted, coeff_denoted]
  exact getD_mapped neg_zero p i

theorem denoted_scale (p : Array α) (s : α) : denoted (scale p s) = denoted p * C s := by
  ext i
  rw [coeff_mul_C, coeff_denoted, coeff_denoted]
  exact getD_mapped (zero_mul s) p i

/-! ### Products and degrees -/

variable [DecidableEq α]

/-- An array denotes zero if it has no other coefficients. -/
theorem denoted_eq_zero_iff {p : Array α} : denoted p = 0 ↔ isZero p = true := by
  rw [isZero_iff]
  constructor
  · intro h i
    rw [← coeff_denoted, h, coeff_zero]
  · intro h
    ext i
    rw [coeff_denoted, h i, coeff_zero]

/-- A product with zero is cut short. -/
theorem denoted_mul_of_isZero {p q : Array α} (h : (isZero p || isZero q) = true) :
    denoted (mul p q) = 0 := by
  rw [denoted_eq_zero_iff, mul, if_pos h]
  simp [isZero]

/-- The schoolbook product is the product. -/
theorem denoted_mul (p q : Array α) : denoted (mul p q) = denoted p * denoted q := by
  by_cases hp : isZero p = true
  · rw [denoted_mul_of_isZero (by rw [hp, Bool.true_or]), denoted_eq_zero_iff.2 hp, zero_mul]
  by_cases hq : isZero q = true
  · rw [denoted_mul_of_isZero (by rw [hq, Bool.or_true]), denoted_eq_zero_iff.2 hq, mul_zero]
  ext k
  rw [coeff_denoted, getD_mul hp hq, coeff_mul]
  exact Finset.sum_congr rfl fun ij _ => by rw [coeff_denoted, coeff_denoted]

/-- Going down from an index above which there are only zeros, the first other entry is at the
degree. -/
theorem natDegree_eq_degreeBelow {p : Array α} {n : ℕ} (h : ∀ i, n ≤ i → p.getD i 0 = 0) :
    (denoted p).natDegree = degreeBelow p n := by
  induction n with
  | zero =>
    have hzero : denoted p = 0 := denoted_eq_zero_iff.2 (isZero_iff.2 fun i => h i i.zero_le)
    rw [hzero, natDegree_zero, degreeBelow]
  | succ n ih =>
    rw [degreeBelow]
    by_cases hn : p.getD n 0 = 0
    · rw [if_pos hn]
      refine ih fun i hi => ?_
      rcases Nat.eq_or_lt_of_le hi with rfl | hi
      · exact hn
      · exact h i hi
    · rw [if_neg hn]
      refine natDegree_eq_of_le_of_coeff_ne_zero (natDegree_le_iff_coeff_eq_zero.2 fun i hi => ?_) ?_
      · rw [coeff_denoted, h i hi]
      · rwa [coeff_denoted]

/-- **The degree is that of the polynomial.** -/
theorem natDegree_denoted (p : Array α) : (denoted p).natDegree = degree p :=
  natDegree_eq_degreeBelow fun _ hi => getD_of_size_le hi

/-- Degrees add up where no product vanishes. -/
theorem degree_mul [NoZeroDivisors α] {p q : Array α} (hp : ¬ isZero p = true)
    (hq : ¬ isZero q = true) : degree (mul p q) = degree p + degree q := by
  have hp' : denoted p ≠ 0 := fun h => hp (denoted_eq_zero_iff.1 h)
  have hq' : denoted q ≠ 0 := fun h => hq (denoted_eq_zero_iff.1 h)
  rw [← natDegree_denoted, denoted_mul, natDegree_mul hp' hq', natDegree_denoted,
    natDegree_denoted]

/-! ### The laws of the operations -/

variable (α) in
/-- The operations on arrays compute with the polynomials that the arrays stand for. -/
structure ComputesPolynomials : Prop where
  eval_eq : ∀ (p : Array α) (x : α), eval p x = ∑ i ∈ range p.size, p.getD i 0 * x ^ i
  eval_add : ∀ (p q : Array α) (x : α), eval (add p q) x = eval p x + eval q x
  eval_sub : ∀ (p q : Array α) (x : α), eval (sub p q) x = eval p x - eval q x
  eval_neg : ∀ (p : Array α) (x : α), eval (neg p) x = -eval p x
  eval_scale : ∀ (p : Array α) (s x : α), eval (scale p s) x = eval p x * s
  eval_mul : ∀ (p q : Array α) (x : α), eval (mul p q) x = eval p x * eval q x
  size_add : ∀ p q : Array α, (add p q).size = max p.size q.size
  size_sub : ∀ p q : Array α, (sub p q).size = max p.size q.size
  size_neg : ∀ p : Array α, (neg p).size = p.size
  size_scale : ∀ (p : Array α) (s : α), (scale p s).size = p.size
  size_mul : ∀ p q : Array α,
    (mul p q).size = if isZero p || isZero q then 1 else p.size + q.size - 1
  /-- The entry at the degree is the last one other than zero. -/
  degree_last : ∀ p : Array α, ¬ isZero p = true →
    p.getD (degree p) 0 ≠ 0 ∧ ∀ i, degree p < i → p.getD i 0 = 0
  degree_zero : ∀ p : Array α, isZero p = true → degree p = 0
  degree_mul : ∀ p q : Array α, ¬ isZero p = true → ¬ isZero q = true →
    degree (mul p q) = degree p + degree q

/-- **Over a ring without zero divisors all of them hold.** -/
theorem computesPolynomials [NoZeroDivisors α] : ComputesPolynomials α where
  eval_eq := eval_eq_valueAt
  eval_add p q x := by
    simp only [eval_eq_eval_denoted, denoted_add, Polynomial.eval_add]
  eval_sub p q x := by
    simp only [eval_eq_eval_denoted, denoted_sub, Polynomial.eval_sub]
  eval_neg p x := by
    simp only [eval_eq_eval_denoted, denoted_neg, Polynomial.eval_neg]
  eval_scale p s x := by
    simp only [eval_eq_eval_denoted, denoted_scale, Polynomial.eval_mul, eval_C]
  eval_mul p q x := by
    simp only [eval_eq_eval_denoted, denoted_mul, Polynomial.eval_mul]
  size_add p q := Array.size_ofFn
  size_sub p q := Array.size_ofFn
  size_neg p := Array.size_map
  size_scale p s := Array.size_map
  size_mul := size_mul
  degree_last p hp := by
    have hne : denoted p ≠ 0 := fun h => hp (denoted_eq_zero_iff.1 h)
    refine ⟨?_, fun i hi => ?_⟩
    · rw [← coeff_denoted, ← natDegree_denoted]
      exact leadingCoeff_ne_zero.2 hne
    · rw [← coeff_denoted]
      exact coeff_eq_zero_of_natDegree_lt ((natDegree_denoted p).trans_lt hi)
  degree_zero p hp := by
    rw [← natDegree_denoted, denoted_eq_zero_iff.2 hp, natDegree_zero]
  degree_mul p q := degree_mul

/-- **In both fields the operations compute with polynomials**: values, lengths and degrees are as
they have to be, for arrays of any lengths. -/
theorem polynomial_arithmetic_exact :
    ComputesPolynomials Goldilocks ∧ ComputesPolynomials Cubic :=
  ⟨computesPolynomials, computesPolynomials⟩

/-- Arrays with a zero at the end, over the extension: `(1 + X t) t` has degree 2 in `t`. -/
theorem polynomial_arithmetic_exact_padded :
    ¬ isZero #[1, Cubic.indeterminate, 0] = true ∧ ¬ isZero #[(0 : Cubic), 1] = true ∧
    degree (mul #[1, Cubic.indeterminate, 0] #[0, 1]) = 2 ∧
    (mul #[1, Cubic.indeterminate, 0] #[0, 1]).size = 4 := by
  have hp : ¬ isZero #[1, Cubic.indeterminate, 0] = true := fun h =>
    absurd (isZero_iff.1 h 1) (by decide)
  have hq : ¬ isZero #[(0 : Cubic), 1] = true := fun h => absurd (isZero_iff.1 h 1) (by decide)
  obtain ⟨-, hcubic⟩ := polynomial_arithmetic_exact
  refine ⟨hp, hq, ?_, ?_⟩
  · rw [hcubic.degree_mul _ _ hp hq]
    decide
  · rw [hcubic.size_mul, if_neg (by simp [hp, hq])]
    rfl

end Polynomial
end ProofMiner

end Denotation
