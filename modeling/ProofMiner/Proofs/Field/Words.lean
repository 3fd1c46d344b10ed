/-
# Words compute in the prime field

Sums and differences are corrected without a branch. The outcome of a comparison is the word 1 or 0,
its negative is a mask of ones or of zeros (`and_mask`), and `p` under that mask is taken away or
added back. A sum of two words below `p` is below `2 * p`, so one correction is enough, whether the
sum left the word or only reached `p` (`toNat_maskedSum`); a difference needs one if and only if it
borrowed (`toNat_maskedDifference`). A product of two words fits in 128 bits, so reducing it there
is exact (`toNat_wideProduct`).

With square and multiply for the powers, and `p` prime, these are the operations of `Z/p`
(`word_arithmetic_exact`).
-/

import ProofMiner.Proofs.Field.Residues

namespace ProofMiner
namespace Goldilocks

/-! ### Corrections under a mask -/

/-- A word of ones if the condition holds, else of zeros. -/
def mask (condition : Bool) : UInt64 := -condition.toUInt64

/-- A mask keeps a word or clears it. -/
theorem and_mask (w : UInt64) (condition : Bool) :
    w &&& mask condition = if condition then w else 0 := by
  cases condition
  · exact UInt64.and_zero
  · exact UInt64.and_neg_one

/-- Two carries in one mask. -/
theorem mask_or (b c : Bool) : mask (b || c) = -(b.toUInt64 ||| c.toUInt64) := by
  cases b <;> cases c <;> rfl

/-- The word sum, less `p` if it wrapped around or reached `p`. -/
def maskedSum (a b : UInt64) : UInt64 :=
  let sum := a + b
  sum - (modulus &&& -((decide (sum < a)).toUInt64 ||| (decide (modulus ≤ sum)).toUInt64))

/-- The word difference, plus `p` if it borrowed. -/
def maskedDifference (a b : UInt64) : UInt64 :=
  let difference := a - b
  difference + (modulus &&& -(decide (a < b)).toUInt64)

/-- The product in 128 bits, reduced there. -/
def wideProduct (a b : UInt64) : UInt64 :=
  let product := a.toBitVec.setWidth 128 * b.toBitVec.setWidth 128
  .ofBitVec ((product % modulus.toBitVec.setWidth 128).setWidth 64)

section Words

variable {a b : UInt64}

/-- The sum without a branch is the reduced sum, for reduced words. -/
theorem toNat_maskedSum (ha : a < modulus) (hb : b < modulus) :
    (maskedSum a b).toNat = (a.toNat + b.toNat) % modulus.toNat := by
  rw [UInt64.lt_iff_toNat_lt, modulus_toNat] at ha hb
  rw [maskedSum, ← mask_or, and_mask]
  split_ifs with h <;>
    simp only [Bool.or_eq_true, decide_eq_true_eq, UInt64.lt_iff_toNat_lt,
      UInt64.le_iff_toNat_le, UInt64.toNat_add, modulus_toNat] at h
  · rw [UInt64.toNat_sub, UInt64.toNat_add, modulus_toNat]
    omega
  · rw [UInt64.sub_zero, UInt64.toNat_add, modulus_toNat]
    omega

/-- The difference without a branch is the reduced difference, for reduced words. -/
theorem toNat_maskedDifference (ha : a < modulus) (hb : b < modulus) :
    (maskedDifference a b).toNat = (a.toNat + (modulus.toNat - b.toNat)) % modulus.toNat := by
  rw [UInt64.lt_iff_toNat_lt, modulus_toNat] at ha hb
  rw [maskedDifference, ← mask, and_mask]
  split_ifs with h <;> simp only [decide_eq_true_eq, UInt64.lt_iff_toNat_lt] at h
  · rw [UInt64.toNat_add, UInt64.toNat_sub, modulus_toNat]
    omega
  · rw [UInt64.add_zero, UInt64.toNat_sub, modulus_toNat]
    omega

/-- No product of two words leaves 128 bits. -/
theorem toNat_wideProduct (a b : UInt64) :
    (wideProduct a b).toNat = a.toNat * b.toNat % modulus.toNat := by
  have hwide : a.toNat * b.toNat < 2 ^ 128 :=
    Nat.lt_of_lt_of_le (Nat.mul_lt_mul'' a.toNat_lt b.toNat_lt) (by decide)
  have hword : a.toNat * b.toNat % modulus.toNat < 2 ^ 64 :=
    (Nat.mod_lt _ (by decide)).trans modulus.toNat_lt
  have hextended (w : UInt64) : (w.toBitVec.setWidth 128).toNat = w.toNat :=
    BitVec.toNat_setWidth_of_le (by decide)
  rw [wideProduct, UInt64.toNat_ofBitVec, BitVec.toNat_setWidth, BitVec.toNat_umod,
    BitVec.toNat_mul, hextended, hextended, hextended, Nat.mod_eq_of_lt hwide,
    Nat.mod_eq_of_lt hword]

end Words

/-- The operations of the field are the ones without branches. -/
theorem val_add (a b : Goldilocks) : (a + b).val = maskedSum a.val b.val :=
  UInt64.toNat_inj.1 ((toNat_add a b).trans (toNat_maskedSum a.isLt b.isLt).symm)

theorem val_sub (a b : Goldilocks) : (a - b).val = maskedDifference a.val b.val :=
  UInt64.toNat_inj.1 ((toNat_sub a b).trans (toNat_maskedDifference a.isLt b.isLt).symm)

theorem val_mul (a b : Goldilocks) : (a * b).val = wideProduct a.val b.val :=
  UInt64.toNat_inj.1 ((toNat_mul a b).trans (toNat_wideProduct a.val b.val).symm)

/-! ### The operations of `Z/p` -/

/-- **Elements are the residues modulo `p`**, each by its representative. -/
def residueEquiv : Goldilocks ≃+* ZMod modulus.toNat where
  toFun := residue
  invFun r := ofNat r.val
  left_inv a := by
    have hval : (residue a).val = a.toNat := ZMod.val_cast_of_lt a.toNat_lt
    change ofNat (residue a).val = a
    rw [hval, toNat, ofNat, UInt64.ofNat_toNat, ofWord_val]
  right_inv r := by
    rw [residue_ofNat ((ZMod.val_lt r).trans modulus.toNat_lt), ZMod.natCast_zmod_val]
  map_mul' := residue_mul
  map_add' := residue_add

/-- Differences and negatives are reduced as integers. -/
theorem toNat_sub_eq_emod (a b : Goldilocks) :
    ((a - b).toNat : ℤ) = ((a.toNat : ℤ) - b.toNat) % modulus.toNat := by
  have ha := a.toNat_lt
  have hb := b.toNat_lt
  rw [modulus_toNat] at ha hb
  rw [toNat_sub, modulus_toNat]
  omega

theorem toNat_neg_eq_emod (a : Goldilocks) :
    ((-a).toNat : ℤ) = -(a.toNat : ℤ) % modulus.toNat := by
  have ha := a.toNat_lt
  rw [modulus_toNat] at ha
  rw [toNat_neg, modulus_toNat]
  omega

/-- The power of the representative, reduced; the power 0 of zero is 1. -/
theorem toNat_pow (a : Goldilocks) (e : ℕ) : (a ^ e).toNat = a.toNat ^ e % modulus.toNat := by
  have h : ((a ^ e).toNat : ZMod modulus.toNat) = (a.toNat ^ e : ℕ) := by
    rw [Nat.cast_pow]
    exact residue_pow a e
  rw [← Nat.mod_eq_of_lt (a ^ e).toNat_lt]
  exact (ZMod.natCast_eq_natCast_iff' _ _ _).1 h

/-- Only zero has no inverse. -/
theorem inverse_eq_error_iff {a : Goldilocks} : a.inverse = .error .invertZero ↔ a = 0 := by
  rw [inverse]
  split_ifs with ha <;> simp [ha]

/-- A quotient is a product with the inverse. -/
theorem div_of_ne_zero (a : Goldilocks) {b : Goldilocks} (hb : b ≠ 0) :
    a.div b = .ok (a * b⁻¹) := by
  rw [div, inverse_of_ne_zero hb]
  rfl

/-- **Words below `p` compute in the field `Z/p`.** Sums, differences and products are the words
that the corrections without a branch give, and they are exact modulo `p`, as are negatives and
powers. Only zero has no inverse, and a quotient times its divisor is the dividend. -/
theorem word_arithmetic_exact :
    (modulus.toNat = 2 ^ 64 - 2 ^ 32 + 1 ∧ modulus.toNat.Prime ∧
      ∃ e : Goldilocks ≃+* ZMod modulus.toNat, ∀ a, e a = a.toNat) ∧
    (∀ a b : Goldilocks, (a + b).val = maskedSum a.val b.val ∧
      (a + b).toNat = (a.toNat + b.toNat) % modulus.toNat) ∧
    (∀ a b : Goldilocks, (a - b).val = maskedDifference a.val b.val ∧
      ((a - b).toNat : ℤ) = ((a.toNat : ℤ) - b.toNat) % modulus.toNat) ∧
    (∀ a : Goldilocks, ((-a).toNat : ℤ) = -(a.toNat : ℤ) % modulus.toNat) ∧
    (∀ a b : Goldilocks, (a * b).val = wideProduct a.val b.val ∧
      (a * b).toNat = a.toNat * b.toNat % modulus.toNat) ∧
    (∀ (a : Goldilocks) (e : ℕ), (power a e).toNat = a.toNat ^ e % modulus.toNat) ∧
    (∀ a : Goldilocks, a.inverse = .error .invertZero ↔ a = 0) ∧
    (∀ a : Goldilocks, a ≠ 0 → ∃ x, a.inverse = .ok x ∧ a * x = 1) ∧
    (∀ a b : Goldilocks, b ≠ 0 → ∃ q, a.div b = .ok q ∧ q * b = a) := by
  refine ⟨⟨by decide, modulus_prime, residueEquiv, fun a => rfl⟩,
    fun a b => ⟨val_add a b, toNat_add a b⟩, fun a b => ⟨val_sub a b, toNat_sub_eq_emod a b⟩,
    toNat_neg_eq_emod, fun a b => ⟨val_mul a b, toNat_mul a b⟩, toNat_pow,
    fun a => inverse_eq_error_iff, fun a ha => ?_, fun a b hb => ?_⟩
  · exact ⟨a⁻¹, inverse_of_ne_zero ha, mul_inv_self ha⟩
  · refine ⟨a * b⁻¹, div_of_ne_zero a hb, ?_⟩
    rw [mul_assoc, mul_comm b⁻¹, mul_inv_self hb, mul_one]

/-- The greatest element divided by 7. -/
theorem word_arithmetic_exact_seven : (7 : Goldilocks) ≠ 0 ∧
    (∃ x, (7 : Goldilocks).inverse = .ok x ∧ 7 * x = 1) ∧
    (∃ q, (-1 : Goldilocks).div 7 = .ok q ∧ q * 7 = -1) := by
  have h7 : (7 : Goldilocks) ≠ 0 := by decide
  obtain ⟨-, -, -, -, -, -, -, hinverse, hdiv⟩ := word_arithmetic_exact
  exact ⟨h7, hinverse 7 h7, hdiv (-1) 7 h7⟩

end Goldilocks
end ProofMiner
