/-
# The cubic extension has no zero divisors

`X^3 - X + 1` has no root in the base field. At a root `r` the value of a triple would respect
products, so the value of `X^p`, computed by square and multiply on triples, would be `r^p = r`, the
value of `X`. But `X^p - X` has an inverse among the triples (`frobeniusSub_mul`), and the value of
a product is not both `0` and `1`.

The norm is the determinant of multiplication, so it respects products. A linear element of norm
zero would give a root. A quadratic one times its cofactor, which is linear, is linear again, since
`X^3 = X - 1` takes the leading terms away (`mul_cofactor`). So the norm of no element but zero
vanishes (`norm_ne_zero`), and the inverse through the adjugate fails at zero only.
-/

import Mathlib.Tactic.LinearCombination
import ProofMiner.Field.Cubic
import ProofMiner.Proofs.Field.Residues

namespace ProofMiner
namespace Cubic

/-! ### Products and norms by coefficients -/

/-- The coefficients of a product, reduced by `X ^ 3 = X - 1`. -/
theorem c0_mul (a b : Cubic) : (a * b).c0 = a.c0 * b.c0 - (a.c1 * b.c2 + a.c2 * b.c1) := rfl

theorem c1_mul (a b : Cubic) :
    (a * b).c1 = a.c0 * b.c1 + a.c1 * b.c0 + (a.c1 * b.c2 + a.c2 * b.c1) - a.c2 * b.c2 := rfl

theorem c2_mul (a b : Cubic) :
    (a * b).c2 = a.c0 * b.c2 + a.c1 * b.c1 + a.c2 * b.c0 + a.c2 * b.c2 := rfl

/-- The norm as a polynomial in the coefficients. -/
theorem norm_eq (a : Cubic) : a.norm = a.c0 ^ 3 - a.c1 ^ 3 + a.c2 ^ 3 + 3 * a.c0 * a.c1 * a.c2
    + 2 * a.c0 ^ 2 * a.c2 + a.c0 * a.c2 ^ 2 + a.c1 * a.c2 ^ 2 - a.c0 * a.c1 ^ 2 := by
  have h2 : Goldilocks.ofWord 2 = 2 := Goldilocks.ofWord_eq_natCast 2
  have h3 : Goldilocks.ofWord 3 = 3 := Goldilocks.ofWord_eq_natCast 3
  rw [norm, h2, h3]
  ring

/-- **The norm respects products.** -/
theorem norm_mul (a b : Cubic) : (a * b).norm = a.norm * b.norm := by
  rw [norm_eq, norm_eq, norm_eq, c0_mul, c1_mul, c2_mul]
  ring

/-! ### The cubic has no root -/

/-- The value of the polynomial of a triple. -/
def valueAt (a : Cubic) (r : Goldilocks) : Goldilocks := a.c0 + a.c1 * r + a.c2 * r ^ 2

/-- Values respect one, differences and the indeterminate. -/
theorem valueAt_one (r : Goldilocks) : valueAt 1 r = 1 := by
  change 1 + 0 * r + 0 * r ^ 2 = 1
  ring

theorem valueAt_sub (a b : Cubic) (r : Goldilocks) :
    (a - b).valueAt r = a.valueAt r - b.valueAt r := by
  change (a.c0 - b.c0) + (a.c1 - b.c1) * r + (a.c2 - b.c2) * r ^ 2 = _
  rw [valueAt, valueAt]
  ring

/-- At a root the value respects products. -/
theorem valueAt_mul {r : Goldilocks} (hr : r ^ 3 - r + 1 = 0) (a b : Cubic) :
    (a * b).valueAt r = a.valueAt r * b.valueAt r := by
  rw [valueAt, c0_mul, c1_mul, c2_mul, valueAt, valueAt]
  linear_combination
    -(a.c1 * b.c2 + a.c2 * b.c1 + a.c2 * b.c2 * r) * hr

/-- The element `X`. -/
def indeterminate : Cubic := ⟨0, 1, 0⟩

theorem valueAt_indeterminate (r : Goldilocks) : indeterminate.valueAt r = r := by
  change 0 + 1 * r + 0 * r ^ 2 = r
  ring

/-- `X^p - X`, with the powers computed on triples. -/
def frobeniusSub : Cubic := indeterminate ^ modulus.toNat - indeterminate

/-- **`X^p - X` is invertible.** -/
theorem frobeniusSub_mul :
    frobeniusSub * frobeniusSub.adjugate.scale frobeniusSub.norm⁻¹ = 1 := by
  decide +kernel

/-- **No element of the base field is a root.** -/
theorem no_root (r : Goldilocks) : r ^ 3 - r + 1 ≠ 0 := by
  intro hr
  have hpow : (indeterminate ^ modulus.toNat).valueAt r = r := calc
    (indeterminate ^ modulus.toNat).valueAt r = indeterminate.valueAt r ^ modulus.toNat :=
      map_power (valueAt · r) (valueAt_one r) (valueAt_mul hr) indeterminate _
    _ = r := by rw [valueAt_indeterminate, Goldilocks.pow_order]
  have hzero : frobeniusSub.valueAt r = 0 := by
    rw [frobeniusSub, valueAt_sub, hpow, valueAt_indeterminate, sub_self]
  have hone := congrArg (valueAt · r) frobeniusSub_mul
  rw [valueAt_mul hr, hzero, zero_mul, valueAt_one] at hone
  exact zero_ne_one hone

/-! ### No norm but that of zero vanishes -/

/-- A linear element of norm zero would give a root. -/
theorem norm_ne_zero_of_linear {a : Cubic} (h2 : a.c2 = 0) (ha : a ≠ 0) : a.norm ≠ 0 := by
  intro hnorm
  rw [norm_eq, h2] at hnorm
  by_cases h1 : a.c1 = 0
  · have h0 : a.c0 = 0 := by
      rw [h1] at hnorm
      exact pow_eq_zero_iff (n := 3) (by decide) |>.1 (by linear_combination hnorm)
    exact ha (by rw [show a = ⟨a.c0, a.c1, a.c2⟩ from rfl, h0, h1, h2]; rfl)
  · refine no_root (-a.c0 / a.c1) ?_
    field_simp
    linear_combination -hnorm

/-- The linear element that takes the leading terms of a product away. -/
def cofactor (a : Cubic) : Cubic := ⟨-a.c1, a.c2, 0⟩

/-- The quadratic term of this product vanishes, so that its norm is that of a linear element. -/
theorem mul_cofactor (a : Cubic) : a * a.cofactor =
    ⟨-(a.c0 * a.c1 + a.c2 ^ 2), a.c0 * a.c2 - a.c1 ^ 2 + a.c2 ^ 2, 0⟩ := by
  rw [show a * a.cofactor =
      ⟨(a * a.cofactor).c0, (a * a.cofactor).c1, (a * a.cofactor).c2⟩ from rfl,
    c0_mul, c1_mul, c2_mul, cofactor, mk.injEq]
  refine ⟨?_, ?_, ?_⟩
  · ring
  · ring
  · ring

/-- The norm of the cofactor does not depend on the constant coefficient. -/
theorem norm_cofactor (a : Cubic) :
    a.cofactor.norm = -a.c1 ^ 3 - a.c2 ^ 3 + a.c1 * a.c2 ^ 2 := by
  rw [norm_eq, cofactor]
  ring

/-- **No norm but that of zero vanishes.** -/
theorem norm_ne_zero {a : Cubic} (ha : a ≠ 0) : a.norm ≠ 0 := by
  by_cases h2 : a.c2 = 0
  · exact norm_ne_zero_of_linear h2 ha
  intro hnorm
  have hproduct : (a * a.cofactor).norm = 0 := by rw [norm_mul, hnorm, zero_mul]
  have hzero : a * a.cofactor = 0 := by
    by_contra hne
    exact norm_ne_zero_of_linear (by rw [mul_cofactor]) hne hproduct
  -- So the cofactor is a divisor of the cubic, and has the norm zero itself.
  rw [mul_cofactor] at hzero
  have h0 : -(a.c0 * a.c1 + a.c2 ^ 2) = 0 := congrArg c0 hzero
  have h1 : a.c0 * a.c2 - a.c1 ^ 2 + a.c2 ^ 2 = 0 := congrArg c1 hzero
  have hcofactor : a.cofactor.norm = 0 := by
    rw [norm_cofactor]
    linear_combination a.c1 * h1 + a.c2 * h0
  exact norm_ne_zero_of_linear rfl (fun h => h2 (congrArg c1 h)) hcofactor

/-- The inverse through the adjugate is there for every element but zero. -/
theorem inverse_of_ne_zero {a : Cubic} (ha : a ≠ 0) :
    a.inverse = .ok (a.adjugate.scale a.norm⁻¹) := by
  rw [inverse, if_neg ha, Goldilocks.inverse_of_ne_zero (norm_ne_zero ha)]
  rfl

/-- A quotient is a product with the inverse. -/
theorem div_of_ne_zero (a : Cubic) {b : Cubic} (hb : b ≠ 0) :
    a.div b = .ok (a * b.adjugate.scale b.norm⁻¹) := by
  rw [div, inverse_of_ne_zero hb]
  rfl

/-- Zero has no inverse, and nothing is divided by it. -/
theorem inverse_zero : inverse 0 = .error .invertZero := rfl

theorem div_zero (a : Cubic) : a.div 0 = .error .invertZero := rfl

end Cubic
end ProofMiner
