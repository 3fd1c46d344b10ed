/-
# Field elements as residues

The word operations of `ProofMiner.Field.Goldilocks` are exact modulo `p = 2^64 - 2^32 + 1`: a
wrapped sum or difference that is corrected by one multiple of `p`, a product that is reduced from
128 bits. `residue` sends an element to its class in `ZMod p`; it is injective and respects every
operation, so the ring laws of `ZMod p` hold of words (`CommRing Goldilocks`).

`p` is prime by Lucas's test with the generator 7, whose powers are computed by square and multiply
on words. Hence the power `p - 2` is an inverse, and the elements are a field (`Field Goldilocks`).
-/

import Mathlib.Data.ZMod.Basic
import Mathlib.FieldTheory.Finite.Basic
import Mathlib.NumberTheory.LucasPrimality
import Mathlib.Tactic.NormNum.Prime
import ProofMiner.Field.Goldilocks

namespace ProofMiner

/-- Square and multiply from the low bit up: a map that respects products sends the accumulated
result to the accumulated result. -/
theorem map_powerBits {α M : Type} [Mul α] [Monoid M] (f : α → M)
    (hmul : ∀ x y, f (x * y) = f x * f y) (bits : ℕ) (base acc : α) (e : ℕ) (he : e < 2 ^ bits) :
    f (powerBits bits base acc e) = f acc * f base ^ e := by
  induction bits generalizing base acc e with
  | zero =>
    obtain rfl : e = 0 := by simpa using he
    simp [powerBits]
  | succ bits ih =>
    have hhalf : e / 2 < 2 ^ bits := by rw [pow_succ] at he; omega
    rw [powerBits]
    split_ifs with h0 h1
    · simp [h0]
    · rw [ih _ _ _ hhalf, hmul, hmul, ← sq, ← pow_mul, mul_assoc, ← pow_succ',
        show 2 * (e / 2) + 1 = e by omega]
    · rw [ih _ _ _ hhalf, hmul, ← sq, ← pow_mul, show 2 * (e / 2) = e by omega]

/-- **Square and multiply computes powers**, seen through any map that respects products. -/
theorem map_power {α M : Type} [One α] [Mul α] [Monoid M] (f : α → M) (hone : f 1 = 1)
    (hmul : ∀ x y, f (x * y) = f x * f y) (x : α) (e : ℕ) : f (power x e) = f x ^ e := by
  rw [power, map_powerBits f hmul _ _ _ _ Nat.lt_log2_self, hone, one_mul]

/-- A ring whose inverse map inverts everything but zero, which it keeps, is a field. -/
abbrev fieldOfInverse {R : Type} [CommRing R] [Nontrivial R] [Inv R]
    (mul_inv : ∀ a : R, a ≠ 0 → a * a⁻¹ = 1) (inv_zero : (0 : R)⁻¹ = 0) : Field R where
  mul_inv_cancel := mul_inv
  inv_zero := inv_zero
  nnqsmul := _
  nnqsmul_def _ _ := rfl
  qsmul := _
  qsmul_def _ _ := rfl

namespace Goldilocks

/-! ### The operations on representatives -/

theorem modulus_toNat : modulus.toNat = 18446744069414584321 := rfl

/-- Elements are equal if the numbers that represent them are. -/
theorem toNat_injective : Function.Injective toNat := fun _ _ h => ext (UInt64.toNat_inj.1 h)

/-- A word is reduced. -/
theorem toNat_ofWord (w : UInt64) : (ofWord w).toNat = w.toNat % modulus.toNat :=
  UInt64.toNat_mod w modulus

/-- A number of 64 bits is reduced. -/
theorem toNat_ofNat {n : ℕ} (h : n < 2 ^ 64) : (ofNat n).toNat = n % modulus.toNat := by
  rw [ofNat, toNat_ofWord, UInt64.toNat_ofNat_of_lt' h]

theorem toNat_zero : (0 : Goldilocks).toNat = 0 := rfl

theorem toNat_one : (1 : Goldilocks).toNat = 1 := rfl

/-- The corrected word sum is the sum modulo `p`. -/
theorem toNat_add (a b : Goldilocks) : (a + b).toNat = (a.toNat + b.toNat) % modulus.toNat := by
  have ha : a.val.toNat < 18446744069414584321 := a.toNat_lt
  have hb : b.val.toNat < 18446744069414584321 := b.toNat_lt
  change (add a b).toNat = (a.val.toNat + b.val.toNat) % modulus.toNat
  simp only [add]
  split_ifs with h <;>
    simp only [Bool.or_eq_true, decide_eq_true_eq, UInt64.lt_iff_toNat_lt,
      UInt64.le_iff_toNat_le, UInt64.toNat_add, modulus_toNat] at h
  · rw [toNat_ofWord, UInt64.toNat_sub, UInt64.toNat_add, modulus_toNat]
    omega
  · rw [toNat_ofWord, UInt64.toNat_add, modulus_toNat]
    omega

/-- The corrected word difference is the difference modulo `p`. -/
theorem toNat_sub (a b : Goldilocks) :
    (a - b).toNat = (a.toNat + (modulus.toNat - b.toNat)) % modulus.toNat := by
  have ha : a.val.toNat < 18446744069414584321 := a.toNat_lt
  have hb : b.val.toNat < 18446744069414584321 := b.toNat_lt
  change (sub a b).toNat = (a.val.toNat + (modulus.toNat - b.val.toNat)) % modulus.toNat
  simp only [sub]
  split_ifs with h <;> simp only [UInt64.lt_iff_toNat_lt] at h
  · rw [toNat_ofWord, UInt64.toNat_add, UInt64.toNat_sub, modulus_toNat]
    omega
  · rw [toNat_ofWord, UInt64.toNat_sub, modulus_toNat]
    omega

/-- The negative of zero is zero, and not the modulus. -/
theorem toNat_neg (a : Goldilocks) : (-a).toNat = (modulus.toNat - a.toNat) % modulus.toNat := by
  change (neg a).toNat = _
  unfold neg
  split_ifs with h
  · have h0 : a.toNat = 0 := by rw [toNat, h]; rfl
    rw [h0, Nat.sub_zero, Nat.mod_self]
  · rw [toNat_ofWord, UInt64.toNat_sub_of_le _ _ (UInt64.le_of_lt a.isLt)]
    rfl

/-- The product of two words of 64 bits is reduced as a whole. -/
theorem toNat_mul (a b : Goldilocks) : (a * b).toNat = a.toNat * b.toNat % modulus.toNat := by
  change (ofNat _).toNat = _
  rw [toNat_ofNat, Nat.mod_mod]
  exact (Nat.mod_lt _ (by decide)).trans (by decide)

/-! ### Residues -/

/-- The class of an element modulo the order of the field. -/
def residue (a : Goldilocks) : ZMod modulus.toNat := a.toNat

/-- An element is determined by its residue class. -/
theorem residue_injective : Function.Injective residue := by
  intro a b h
  have hmod := (ZMod.natCast_eq_natCast_iff' _ _ _).1 h
  rw [Nat.mod_eq_of_lt a.toNat_lt, Nat.mod_eq_of_lt b.toNat_lt] at hmod
  exact toNat_injective hmod

/-- Residue classes respect the operations, which is where the ring laws come from. -/
theorem residue_zero : residue 0 = 0 := by
  rw [residue, toNat_zero, Nat.cast_zero]

theorem residue_one : residue 1 = 1 := by
  rw [residue, toNat_one, Nat.cast_one]

theorem residue_add (a b : Goldilocks) : residue (a + b) = residue a + residue b := by
  rw [residue, toNat_add, ZMod.natCast_mod, Nat.cast_add, residue, residue]

theorem residue_sub (a b : Goldilocks) : residue (a - b) = residue a - residue b := by
  rw [residue, toNat_sub, ZMod.natCast_mod, Nat.cast_add, Nat.cast_sub b.toNat_lt.le,
    ZMod.natCast_self, residue, residue]
  ring

theorem residue_neg (a : Goldilocks) : residue (-a) = -residue a := by
  rw [residue, toNat_neg, ZMod.natCast_mod, Nat.cast_sub a.toNat_lt.le, ZMod.natCast_self,
    residue, zero_sub]

theorem residue_mul (a b : Goldilocks) : residue (a * b) = residue a * residue b := by
  rw [residue, toNat_mul, ZMod.natCast_mod, Nat.cast_mul, residue, residue]

theorem residue_pow (a : Goldilocks) (e : ℕ) : residue (a ^ e) = residue a ^ e :=
  map_power residue residue_one residue_mul a e

instance : NatCast Goldilocks := ⟨fun n => ofNat (n % modulus.toNat)⟩
instance : IntCast Goldilocks := ⟨fun n => ofNat (n % modulus.toNat).toNat⟩
instance : SMul ℕ Goldilocks := ⟨fun n a => n * a⟩
instance : SMul ℤ Goldilocks := ⟨fun n a => n * a⟩

theorem residue_ofNat {n : ℕ} (h : n < 2 ^ 64) : residue (ofNat n) = n := by
  rw [residue, toNat_ofNat h, ZMod.natCast_mod]

theorem residue_natCast (n : ℕ) : residue n = n := by
  have h : n % modulus.toNat < 2 ^ 64 := (Nat.mod_lt _ (by decide)).trans (by decide)
  exact (residue_ofNat h).trans (ZMod.natCast_mod n _)

theorem residue_intCast (n : ℤ) : residue n = n := by
  have hp : (0 : ℤ) < modulus.toNat := by decide
  have hn : ((n % modulus.toNat).toNat : ℤ) = n % modulus.toNat :=
    Int.toNat_of_nonneg (Int.emod_nonneg n hp.ne')
  have hlt : (n % modulus.toNat).toNat < 2 ^ 64 := by
    have := Int.emod_lt_of_pos n hp
    rw [modulus_toNat] at *
    omega
  refine (residue_ofNat hlt).trans ?_
  rw [← Int.cast_natCast, hn, ZMod.intCast_mod]

/-- **Elements add and multiply like residues**, so they are a commutative ring. -/
instance : CommRing Goldilocks :=
  residue_injective.commRing residue residue_zero residue_one residue_add residue_mul residue_neg
    residue_sub
    (fun n a => (residue_mul n a).trans (by rw [residue_natCast, nsmul_eq_mul]))
    (fun n a => (residue_mul n a).trans (by rw [residue_intCast, zsmul_eq_mul]))
    residue_pow residue_natCast residue_intCast

/-- A word-sized number is read as itself. -/
theorem ofNat_eq_natCast {n : ℕ} (h : n < 2 ^ 64) : ofNat n = (n : Goldilocks) :=
  residue_injective ((residue_ofNat h).trans (residue_natCast n).symm)

/-- A word stands for its number in the field. -/
theorem ofWord_eq_natCast (w : UInt64) : ofWord w = (w.toNat : Goldilocks) := by
  rw [← ofNat_eq_natCast w.toNat_lt, ofNat, UInt64.ofNat_toNat]

/-! ### The order is prime -/

/-- The order of the unit group is `2 ^ 32 * 3 * 5 * 17 * 257 * 65537`. -/
theorem prime_factor_mem {q : ℕ} (hq : q.Prime) (hdvd : q ∣ modulus.toNat - 1) :
    q ∈ [2, 3, 5, 17, 257, 65537] := by
  have heq {r : ℕ} (hr : r.Prime) (h : q ∣ r) : q = r := (Nat.prime_dvd_prime_iff_eq hq hr).1 h
  have hfactors : modulus.toNat - 1 = 2 ^ 32 * (3 * (5 * (17 * (257 * 65537)))) := by decide
  rw [hfactors] at hdvd
  simp only [hq.dvd_mul] at hdvd
  simp only [List.mem_cons, List.not_mem_nil, or_false]
  rcases hdvd with h | h | h | h | h | h
  · exact .inl (heq Nat.prime_two (hq.dvd_of_dvd_pow h))
  · exact .inr (.inl (heq Nat.prime_three h))
  · exact .inr (.inr (.inl (heq Nat.prime_five h)))
  · exact .inr (.inr (.inr (.inl (heq (by norm_num) h))))
  · exact .inr (.inr (.inr (.inr (.inl (heq (by norm_num) h)))))
  · exact .inr (.inr (.inr (.inr (.inr (heq (by norm_num) h)))))

/-- `7` has order `p - 1`: no power `(p - 1) / q` of it is `1`. -/
theorem generator_pow_ne_one {q : ℕ} (hq : q ∈ [2, 3, 5, 17, 257, 65537]) :
    generator ^ ((modulus.toNat - 1) / q) ≠ 1 := by
  revert q
  decide +kernel

/-- **The modulus is prime**, by Lucas's test. -/
theorem modulus_prime : modulus.toNat.Prime := by
  refine lucas_primality _ (residue generator) ?_ fun q hq hdvd => ?_
  · rw [← residue_pow, show generator ^ (modulus.toNat - 1) = 1 by decide +kernel, residue_one]
  · rw [← residue_pow, ← residue_one]
    exact residue_injective.ne (generator_pow_ne_one (prime_factor_mem hq hdvd))

instance : Fact modulus.toNat.Prime := ⟨modulus_prime⟩

/-- Fermat's little theorem on words. -/
theorem pow_order_sub_one {a : Goldilocks} (ha : a ≠ 0) : a ^ (modulus.toNat - 1) = 1 := by
  have hne : residue a ≠ 0 := fun h => ha (residue_injective (h.trans residue_zero.symm))
  apply residue_injective
  rw [residue_pow, residue_one]
  exact ZMod.pow_card_sub_one_eq_one hne

/-- Fermat's little theorem, zero included. -/
theorem pow_order (a : Goldilocks) : a ^ modulus.toNat = a := by
  apply residue_injective
  rw [residue_pow]
  exact ZMod.pow_card _

/-- **The power `p - 2` is an inverse.** -/
theorem mul_inv_self {a : Goldilocks} (ha : a ≠ 0) : a * a⁻¹ = 1 := by
  change a * a ^ (modulus.toNat - 2) = 1
  rw [← pow_succ']
  exact pow_order_sub_one ha

instance : Nontrivial Goldilocks := ⟨0, 1, by decide⟩

instance : Field Goldilocks := fieldOfInverse (fun _ => mul_inv_self) (by decide +kernel)

/-- The inverse is the one of the field. -/
theorem inverse_of_ne_zero {a : Goldilocks} (ha : a ≠ 0) : a.inverse = .ok a⁻¹ := by
  rw [inverse, if_neg ha]

end Goldilocks
end ProofMiner
