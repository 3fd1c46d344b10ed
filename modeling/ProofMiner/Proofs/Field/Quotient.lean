/-
# The cubic extension is the quotient by `X^3 - X + 1`

An element stands for the polynomial of its coefficients over the residues modulo `p`. The product
of two elements differs from the product of their polynomials by a multiple of the cubic
(`polynomial_mul_add`), so it is the remainder (`polynomial_mul`), and classes modulo the cubic add
and multiply like elements (`toClass`). There is exactly one element in every class, so the laws of
the quotient ring are laws of elements (`CommRing Cubic`).

The cubic has no root, hence no divisor at all (`irreducible_reducer`). The first column of the
adjugate times the element is its norm (`mul_adjugate`), which vanishes for zero only, and so the
inverse that is computed from them is one.
-/

import Mathlib.Algebra.Polynomial.SpecificDegree
import Mathlib.RingTheory.AdjoinRoot
import Mathlib.Tactic.ComputeDegree
import ProofMiner.Proofs.Field.Extension
import ProofMiner.Proofs.Field.Words

section Quotient

-- the polynomials of the library, opened before the namespace that has its own
open Polynomial

namespace ProofMiner
namespace Cubic

open Goldilocks (residue)

attribute [ext] Cubic

/-! ### The cubic -/

/-- `X^3 - X + 1` over the residues. -/
noncomputable def reducer : (ZMod modulus.toNat)[X] := X ^ 3 - X + 1

/-- The reducer is a monic cubic. -/
theorem degree_reducer : reducer.degree = 3 := by
  rw [reducer]
  compute_degree!

theorem monic_reducer : reducer.Monic := by
  rw [reducer]
  monicity!

/-- **The cubic is irreducible**, as a cubic without roots. -/
theorem irreducible_reducer : Irreducible reducer := by
  refine irreducible_of_degree_le_three_of_not_isRoot ?_ fun r hr => ?_
  · rw [natDegree_eq_of_degree_eq_some degree_reducer]
    decide
  · obtain ⟨a, rfl⟩ := Goldilocks.residueEquiv.surjective r
    refine no_root a (Goldilocks.residueEquiv.injective ?_)
    simpa [reducer] using hr

/-! ### Polynomials of elements -/

/-- The polynomial that an element stands for. -/
noncomputable def polynomial (a : Cubic) : (ZMod modulus.toNat)[X] :=
  C (residue a.c0) + C (residue a.c1) * X + C (residue a.c2) * X ^ 2

/-- The three coefficients make a polynomial of lower degree than the reducer. -/
theorem degree_polynomial_lt (a : Cubic) : a.polynomial.degree < reducer.degree := by
  rw [degree_reducer, polynomial]
  compute_degree!

/-- Sums, negatives and differences need no reduction. -/
theorem polynomial_add (a b : Cubic) : (a + b).polynomial = a.polynomial + b.polynomial := by
  change C (residue (a.c0 + b.c0)) + C (residue (a.c1 + b.c1)) * X +
    C (residue (a.c2 + b.c2)) * X ^ 2 = _
  simp only [Goldilocks.residue_add, C_add, polynomial]
  ring

theorem polynomial_neg (a : Cubic) : (-a).polynomial = -a.polynomial := by
  change C (residue (-a.c0)) + C (residue (-a.c1)) * X + C (residue (-a.c2)) * X ^ 2 = _
  simp only [Goldilocks.residue_neg, C_neg, polynomial]
  ring

theorem polynomial_sub (a b : Cubic) : (a - b).polynomial = a.polynomial - b.polynomial := by
  change C (residue (a.c0 - b.c0)) + C (residue (a.c1 - b.c1)) * X +
    C (residue (a.c2 - b.c2)) * X ^ 2 = _
  simp only [Goldilocks.residue_sub, C_sub, polynomial]
  ring

/-- The product of two elements and that of their polynomials differ by a multiple of the cubic. -/
theorem polynomial_mul_add (a b : Cubic) :
    (a * b).polynomial + reducer * (C (residue (a.c1 * b.c2 + a.c2 * b.c1)) +
      C (residue (a.c2 * b.c2)) * X) = a.polynomial * b.polynomial := by
  simp only [polynomial, reducer, c0_mul, c1_mul, c2_mul, Goldilocks.residue_add,
    Goldilocks.residue_sub, Goldilocks.residue_mul, C_add, C_sub, C_mul]
  ring

/-- **A product is the product of the polynomials, reduced modulo the cubic.** -/
theorem polynomial_mul (a b : Cubic) :
    (a * b).polynomial = a.polynomial * b.polynomial %ₘ reducer :=
  (div_modByMonic_unique _ _ monic_reducer
    ⟨polynomial_mul_add a b, degree_polynomial_lt (a * b)⟩).2.symm

/-- Every polynomial of degree below 3 belongs to an element. -/
theorem exists_polynomial_eq {q : (ZMod modulus.toNat)[X]} (hq : q.natDegree < 3) :
    ∃ a : Cubic, a.polynomial = q := by
  let lift (i : ℕ) : Goldilocks := Goldilocks.residueEquiv.symm (q.coeff i)
  have hlift (i : ℕ) : residue (lift i) = q.coeff i := Goldilocks.residueEquiv.apply_symm_apply _
  refine ⟨⟨lift 0, lift 1, lift 2⟩, ?_⟩
  rw [q.as_sum_range_C_mul_X_pow' hq, polynomial, hlift, hlift, hlift]
  simp [Finset.sum_range_succ]

/-- The coefficients are those of the polynomial. -/
theorem polynomial_injective : Function.Injective polynomial := by
  intro a b h
  have hcoeff (x : Cubic) : x.polynomial.coeff 0 = residue x.c0 ∧
      x.polynomial.coeff 1 = residue x.c1 ∧ x.polynomial.coeff 2 = residue x.c2 := by
    refine ⟨?_, ?_, ?_⟩ <;> simp [polynomial, coeff_X, coeff_C]
  obtain ⟨ha0, ha1, ha2⟩ := hcoeff a
  obtain ⟨hb0, hb1, hb2⟩ := hcoeff b
  rw [h] at ha0 ha1 ha2
  exact Cubic.ext (Goldilocks.residue_injective (ha0.symm.trans hb0))
    (Goldilocks.residue_injective (ha1.symm.trans hb1))
    (Goldilocks.residue_injective (ha2.symm.trans hb2))

/-! ### Classes modulo the cubic -/

/-- The class of an element. -/
noncomputable def toClass (a : Cubic) : AdjoinRoot reducer := AdjoinRoot.mk reducer a.polynomial

/-- Two polynomials of degree below three are in the same class only if they are equal. -/
theorem toClass_injective : Function.Injective toClass := by
  intro a b h
  have hdvd : reducer ∣ a.polynomial - b.polynomial := AdjoinRoot.mk_eq_mk.1 h
  have hdegree : (a.polynomial - b.polynomial).degree < reducer.degree :=
    (degree_sub_le _ _).trans_lt (max_lt (degree_polynomial_lt a) (degree_polynomial_lt b))
  exact polynomial_injective (sub_eq_zero.1 (eq_zero_of_dvd_of_degree_lt hdvd hdegree))

/-- Each class has a remainder, which is such a polynomial. -/
theorem toClass_surjective : Function.Surjective toClass := by
  intro y
  obtain ⟨q, rfl⟩ := AdjoinRoot.mk_surjective y
  have hne : reducer ≠ 1 := irreducible_reducer.ne_one
  have hdegree : (q %ₘ reducer).natDegree < 3 :=
    (natDegree_modByMonic_lt q monic_reducer hne).trans_eq
      (natDegree_eq_of_degree_eq_some degree_reducer)
  obtain ⟨a, ha⟩ := exists_polynomial_eq hdegree
  refine ⟨a, ?_⟩
  rw [toClass, ha]
  exact AdjoinRoot.mk_leftInverse monic_reducer (AdjoinRoot.mk reducer q)

/-- The base field is embedded as the constants. -/
theorem toClass_ofBase (s : Goldilocks) :
    toClass (ofBase s) = AdjoinRoot.of reducer (residue s) := by
  change AdjoinRoot.mk reducer (C (residue s) + C (residue 0) * X + C (residue 0) * X ^ 2) = _
  rw [Goldilocks.residue_zero, C_0, zero_mul, zero_mul, add_zero, add_zero, AdjoinRoot.mk_C]

/-- What follows are the laws that make classes of elements a homomorphism, from which the ring laws come.
-/
theorem toClass_zero : toClass 0 = 0 := by
  change toClass (ofBase 0) = 0
  rw [toClass_ofBase, Goldilocks.residue_zero, map_zero]

theorem toClass_one : toClass 1 = 1 := by
  change toClass (ofBase 1) = 1
  rw [toClass_ofBase, Goldilocks.residue_one, map_one]

theorem toClass_add (a b : Cubic) : toClass (a + b) = toClass a + toClass b := by
  rw [toClass, polynomial_add, map_add, toClass, toClass]

theorem toClass_neg (a : Cubic) : toClass (-a) = -toClass a := by
  rw [toClass, polynomial_neg, map_neg, toClass]

theorem toClass_sub (a b : Cubic) : toClass (a - b) = toClass a - toClass b := by
  rw [toClass, polynomial_sub, map_sub, toClass, toClass]

/-- The class of a product is the product of the classes: the remainder is dropped. -/
theorem toClass_mul (a b : Cubic) : toClass (a * b) = toClass a * toClass b := by
  rw [toClass, toClass, toClass, ← map_mul, ← polynomial_mul_add, map_add, map_mul,
    AdjoinRoot.mk_self, zero_mul, add_zero]

theorem toClass_pow (a : Cubic) (e : ℕ) : toClass (a ^ e) = toClass a ^ e :=
  map_power toClass toClass_one toClass_mul a e

instance : NatCast Cubic := ⟨fun n => ofBase n⟩
instance : IntCast Cubic := ⟨fun n => ofBase n⟩
instance : SMul ℕ Cubic := ⟨fun n a => n * a⟩
instance : SMul ℤ Cubic := ⟨fun n a => n * a⟩

theorem toClass_natCast (n : ℕ) : toClass n = n := by
  change toClass (ofBase n) = n
  rw [toClass_ofBase, Goldilocks.residue_natCast, map_natCast]

theorem toClass_intCast (n : ℤ) : toClass n = n := by
  change toClass (ofBase n) = n
  rw [toClass_ofBase, Goldilocks.residue_intCast, map_intCast]

/-- **Elements add and multiply like classes**, so they are a commutative ring. -/
noncomputable instance : CommRing Cubic :=
  toClass_injective.commRing toClass toClass_zero toClass_one toClass_add toClass_mul toClass_neg
    toClass_sub
    (fun n a => (toClass_mul n a).trans (by rw [toClass_natCast, nsmul_eq_mul]))
    (fun n a => (toClass_mul n a).trans (by rw [toClass_intCast, zsmul_eq_mul]))
    toClass_pow toClass_natCast toClass_intCast

/-- **Elements are the classes modulo the cubic.** -/
noncomputable def classEquiv : Cubic ≃+* AdjoinRoot reducer :=
  .ofBijective (⟨⟨⟨toClass, toClass_one⟩, toClass_mul⟩, toClass_zero, toClass_add⟩ :
    Cubic →+* AdjoinRoot reducer) ⟨toClass_injective, toClass_surjective⟩

/-! ### Scaling and inverses -/

/-- Scaling is a product with a constant. -/
theorem scale_eq_mul (a : Cubic) (s : Goldilocks) : a.scale s = a * ofBase s := by
  refine Cubic.ext ?_ ?_ ?_
  · change a.c0 * s = a.c0 * s - (a.c1 * 0 + a.c2 * 0)
    ring
  · change a.c1 * s = a.c0 * 0 + a.c1 * s + (a.c1 * 0 + a.c2 * 0) - a.c2 * 0
    ring
  · change a.c2 * s = a.c0 * 0 + a.c1 * 0 + a.c2 * s + a.c2 * 0
    ring

/-- The adjugate column times the element is the determinant. -/
theorem mul_adjugate (a : Cubic) : a * a.adjugate = ofBase a.norm := by
  refine Cubic.ext ?_ ?_ ?_
  · rw [c0_mul, adjugate, ofBase, norm_eq]
    ring
  · rw [c1_mul, adjugate, ofBase]
    ring
  · rw [c2_mul, adjugate, ofBase]
    ring

/-- The inverse that is computed is one. -/
theorem mul_scale_adjugate {a : Cubic} (ha : a ≠ 0) : a * a.adjugate.scale a.norm⁻¹ = 1 := by
  have hnorm : ofBase a.norm * ofBase a.norm⁻¹ = 1 := by
    rw [← scale_eq_mul]
    change (⟨a.norm * a.norm⁻¹, 0 * a.norm⁻¹, 0 * a.norm⁻¹⟩ : Cubic) = ⟨1, 0, 0⟩
    rw [mul_inv_cancel₀ (norm_ne_zero ha), zero_mul]
  rw [scale_eq_mul, ← mul_assoc, mul_adjugate, hnorm]

/-- The norm of zero is zero. -/
theorem norm_zero : norm 0 = 0 := by decide

/-- A product vanishes with one of its factors only, as its norm does. -/
instance : NoZeroDivisors Cubic where
  eq_zero_or_eq_zero_of_mul_eq_zero {a b} h := by
    have hnorm : a.norm * b.norm = 0 := by rw [← norm_mul, h, norm_zero]
    rcases mul_eq_zero.1 hnorm with ha | hb
    · exact .inl (by_contra fun hne => norm_ne_zero hne ha)
    · exact .inr (by_contra fun hne => norm_ne_zero hne hb)

/-- Only zero has no inverse. -/
theorem inverse_eq_error_iff {a : Cubic} : a.inverse = .error .invertZero ↔ a = 0 := by
  by_cases ha : a = 0
  · exact iff_of_true (by rw [ha, inverse_zero]) ha
  · exact iff_of_false (by rw [inverse_of_ne_zero ha]; exact nofun) ha

/-- The product of as many factors as the exponent says. -/
theorem power_eq_prod (a : Cubic) (e : ℕ) : power a e = (List.replicate e a).prod := by
  rw [List.prod_replicate]
  rfl

/-- **The triples are the field `F_p[X] / (X^3 - X + 1)`.** The cubic is irreducible, and elements
are the classes modulo it: a product is the product of the polynomials, reduced. So the laws of
commutative rings hold, and scaling and powers are products. The determinant vanishes at zero only,
hence only zero has no inverse, and a quotient times its divisor is the dividend. -/
theorem extension_field_exact :
    (Irreducible reducer ∧
      ∃ e : Cubic ≃+* AdjoinRoot reducer, ∀ a, e a = AdjoinRoot.mk reducer a.polynomial) ∧
    (∀ a b : Cubic, (a * b).polynomial = a.polynomial * b.polynomial %ₘ reducer) ∧
    (∀ a b c : Cubic, a + b = b + a ∧ a + b + c = a + (b + c) ∧ a + 0 = a ∧ a + -a = 0 ∧
      a - b = a + -b ∧ a * b = b * a ∧ a * b * c = a * (b * c) ∧ a * 1 = a ∧
      a * (b + c) = a * b + a * c) ∧
    (∀ (a : Cubic) (s : Goldilocks), a.scale s = a * ofBase s) ∧
    (∀ (a : Cubic) (e : ℕ), power a e = (List.replicate e a).prod) ∧
    (∀ a : Cubic, a.norm = 0 ↔ a = 0) ∧
    (∀ a : Cubic, a.inverse = .error .invertZero ↔ a = 0) ∧
    (∀ a : Cubic, a ≠ 0 → ∃ x, a.inverse = .ok x ∧ a * x = 1) ∧
    (∀ a b : Cubic, b ≠ 0 → ∃ q, a.div b = .ok q ∧ q * b = a) := by
  refine ⟨⟨irreducible_reducer, classEquiv, fun a => rfl⟩, polynomial_mul, fun a b c => ?_,
    scale_eq_mul, power_eq_prod, fun a => ?_, fun a => inverse_eq_error_iff, fun a ha => ?_,
    fun a b hb => ?_⟩
  · exact ⟨add_comm a b, add_assoc a b c, add_zero a, add_neg_cancel a, sub_eq_add_neg a b,
      mul_comm a b, mul_assoc a b c, mul_one a, mul_add a b c⟩
  · exact ⟨fun h => by_contra fun ha => norm_ne_zero ha h, fun h => h ▸ norm_zero⟩
  · exact ⟨_, inverse_of_ne_zero ha, mul_scale_adjugate ha⟩
  · refine ⟨_, div_of_ne_zero a hb, ?_⟩
    rw [mul_assoc, mul_comm _ b, mul_scale_adjugate hb, mul_one]

/-- The inverse of `X` is `1 - X^2`. -/
theorem extension_field_exact_indeterminate : indeterminate ≠ 0 ∧
    indeterminate.inverse = .ok ⟨1, 0, -1⟩ ∧ indeterminate * ⟨1, 0, -1⟩ = 1 ∧
    (∃ q, (⟨3, -1, 5⟩ : Cubic).div indeterminate = .ok q ∧ q * indeterminate = ⟨3, -1, 5⟩) := by
  have hne : indeterminate ≠ 0 := by decide
  have hvalue : indeterminate.inverse = .ok ⟨1, 0, -1⟩ := by decide +kernel
  obtain ⟨-, -, -, -, -, -, -, hinverse, hdiv⟩ := extension_field_exact
  obtain ⟨x, hx, hmul⟩ := hinverse indeterminate hne
  obtain rfl : x = ⟨1, 0, -1⟩ := Except.ok.inj (hx.symm.trans hvalue)
  exact ⟨hne, hvalue, hmul, hdiv _ _ hne⟩

end Cubic
end ProofMiner

end Quotient
