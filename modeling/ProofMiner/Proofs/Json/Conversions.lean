/-
# What is read of a number

A value is read as a number of a fixed type without much ado (`NumberType.Reads`): an integer wraps to the
width of the type, `true` and `false` are 1 and 0 where booleans are taken at all, and a double loses its
fraction. What a double outside of the type is read as is left open here.

Three types are read (`int32`, `uint32`, `word`), and none of them reads anything else (`reads_int32`,
`reads_uint32`, `reads_word`). A value that is an integer of the type, however it is written, is read as that
integer (`Reads.eq_of_denotes`).
-/

import Mathlib
import ProofMiner.Json.Conversion
import ProofMiner.Proofs.Json.Shapes

namespace ProofMiner

/-! ### Words and integers -/

/-- A word of 64 bits with the sign in its top bit. -/
theorem toInt_toInt64 (w : UInt64) : w.toInt64.toInt = (w.toNat : ℤ).bmod (2 ^ 64) :=
  BitVec.toInt_eq_toNat_bmod w.toInt64.toBitVec

/-- A signed word that is taken for an unsigned one wraps. -/
theorem toNat_toUInt64 (n : Int64) : (n.toUInt64.toNat : ℤ) = n.toInt % 2 ^ 64 := by
  have hsigned : n.toInt = (n.toUInt64.toNat : ℤ).bmod (2 ^ 64) :=
    BitVec.toInt_eq_toNat_bmod n.toBitVec
  have hlt := n.toUInt64.toNat_lt
  have hwrap : (n.toUInt64.toNat : ℤ).bmod (2 ^ 64) % (2 ^ 64 : ℕ) = n.toUInt64.toNat % (2 ^ 64 : ℕ) :=
    Int.bmod_emod
  rw [← hsigned] at hwrap
  omega

/-! ### Whole doubles -/

namespace Decimal

/-- The number that a finite double is. -/
def Binary.value (b : Binary) : ℚ := (if b.negative then -1 else 1) * (b.mantissa * 2 ^ b.exponent)

/-- Shifting is exact if the result is whole. -/
theorem shift_eq {m : ℕ} {e j : ℤ} (h : (j : ℚ) = m * 2 ^ e) :
    ((if 0 ≤ e then m <<< e.toNat else m >>> (-e).toNat : ℕ) : ℤ) = j := by
  split_ifs with he
  · obtain ⟨n, rfl⟩ := Int.eq_ofNat_of_zero_le he
    rw [zpow_natCast] at h
    rw [Int.toNat_natCast, Nat.shiftLeft_eq]
    exact_mod_cast h.symm
  · obtain ⟨n, hn⟩ := Int.eq_ofNat_of_zero_le (show 0 ≤ -e by omega)
    obtain rfl : e = -(n : ℤ) := by omega
    rw [zpow_neg, zpow_natCast, ← div_eq_mul_inv, eq_div_iff (by positivity)] at h
    have hmul : j * 2 ^ n = (m : ℤ) := by exact_mod_cast h
    rw [neg_neg, Int.toNat_natCast, Nat.shiftRight_eq_div_pow, Int.natCast_ediv, ← hmul, Nat.cast_pow,
      Nat.cast_ofNat, Int.mul_ediv_cancel _ (by positivity)]

/-- A double that is an integer has no fraction to lose. -/
theorem truncate_of_value {x : Float} {i : ℤ} (h : (i : ℚ) = (Binary.ofFloat x).value) :
    truncate x = i := by
  rw [Binary.value] at h
  rw [truncate]
  cases hnegative : (Binary.ofFloat x).negative with
  | true =>
    rw [hnegative, if_pos rfl, neg_one_mul] at h
    rw [if_pos rfl, shift_eq (j := -i) (by rw [Int.cast_neg, h, neg_neg]), neg_neg]
  | false =>
    rw [hnegative, if_neg Bool.false_ne_true, one_mul] at h
    rw [if_neg Bool.false_ne_true, shift_eq h]

end Decimal

namespace Json

variable {v : Json} {i r : ℤ}

/-- The value is an integer, be it written with a fraction or an exponent. -/
def Denotes : Json → ℤ → Prop
  | .unsigned n, i => i = n.toNat
  | .signed n, i => i = n.toInt
  | .float x, i => (i : ℚ) = (Decimal.Binary.ofFloat x).value
  | _, _ => False

/-- Both sorts of integers are read as what they are. -/
theorem integer?_unsigned (n : UInt64) : integer? (.unsigned n) = some (n.toNat : ℤ) := rfl

theorem integer?_signed (n : Int64) : integer? (.signed n) = some n.toInt := rfl

/-- An integer that is written as a number denotes just that integer. -/
theorem Denotes.eq_of_integer? (h : v.Denotes i) (hr : v.integer? = some r) : r = i := by
  cases v with
  | unsigned n => exact (Option.some.inj hr).symm.trans h.symm
  | signed n => exact (Option.some.inj hr).symm.trans h.symm
  | _ => cases hr

/-- A type of numbers that values are read as. -/
structure NumberType where
  read : Json → Option ℤ
  /-- What an integer is read as. -/
  wrap : ℤ → ℤ
  /-- The least number of the type. -/
  low : ℤ
  /-- The first number above it. -/
  high : ℤ
  takesBooleans : Bool
  wrap_of_mem {i : ℤ} (hlow : low ≤ i) (hhigh : i < high) : wrap i = i

/-- A value that is read, and as what. -/
inductive NumberType.Reads (T : NumberType) : Json → ℤ → Prop
  | integer {v : Json} {i : ℤ} (h : v.integer? = some i) : T.Reads v (T.wrap i)
  | boolean (b : Bool) (h : T.takesBooleans = true) : T.Reads (.bool b) b.toNat
  | double (x : Float) {r : ℤ}
      (h : T.low ≤ Decimal.truncate x → Decimal.truncate x < T.high → r = Decimal.truncate x) :
      T.Reads (.float x) r

/-- An integer of the type is read as what it is. -/
theorem NumberType.Reads.eq_of_denotes {T : NumberType} (h : T.Reads v r) (hi : v.Denotes i)
    (hlow : T.low ≤ i) (hhigh : i < T.high) : r = i := by
  cases h with
  | integer hv =>
    rw [hi.eq_of_integer? hv]
    exact T.wrap_of_mem hlow hhigh
  | boolean => exact hi.elim
  | double x hr =>
    have htruncate : Decimal.truncate x = i := Decimal.truncate_of_value hi
    rw [htruncate] at hr
    exact hr hlow hhigh

/-- The signed numbers of 32 bits. -/
def NumberType.int32 : NumberType where
  read v := v.toInt32?.map Int32.toInt
  wrap i := i.bmod (2 ^ 32)
  low := -2 ^ 31
  high := 2 ^ 31
  takesBooleans := true
  wrap_of_mem hlow hhigh := Int.bmod_eq_of_le_mul_two (by omega) (by omega)

/-- The numbers of 32 bits without a sign. -/
def NumberType.uint32 : NumberType where
  read v := v.toUInt32?.map fun n => (n.toNat : ℤ)
  wrap i := i % 2 ^ 32
  low := 0
  high := 2 ^ 32
  takesBooleans := true
  wrap_of_mem hlow hhigh := Int.emod_eq_of_lt hlow hhigh

/-- The numbers of 64 bits without a sign. -/
def NumberType.word : NumberType where
  read v := v.toWord?.map fun n => (n.toNat : ℤ)
  wrap i := i % 2 ^ 64
  low := 0
  high := 2 ^ 64
  takesBooleans := false
  wrap_of_mem hlow hhigh := Int.emod_eq_of_lt hlow hhigh

open NumberType

/-- A double is cut if what is left fits. -/
theorem toInt_int32OfFloat {x : Float} (hlow : -2 ^ 31 ≤ Decimal.truncate x)
    (hhigh : Decimal.truncate x < 2 ^ 31) : (int32OfFloat x).toInt = Decimal.truncate x := by
  have hbounds : Int32.minValue.toInt = -2147483648 ∧ Int32.maxValue.toInt = 2147483647 := ⟨rfl, rfl⟩
  rw [int32OfFloat, if_pos (by omega)]
  exact Int32.toInt_ofInt_of_le hlow hhigh

/-- A signed number of 32 bits that an integer is cut to. -/
theorem toInt_ofInt_eq_wrap (i : ℤ) : (Int32.ofInt i).toInt = int32.wrap i := Int32.toInt_ofInt

/-- Signed words of 32 bits are read as their type says. -/
theorem reads_int32 (h : int32.read v = some r) : int32.Reads v r := by
  obtain ⟨n, hn, rfl⟩ := Option.map_eq_some_iff.1 h
  cases v with
  | unsigned w =>
    cases hn
    rw [toInt_ofInt_eq_wrap]
    exact .integer (integer?_unsigned w)
  | signed w =>
    cases hn
    rw [toInt_ofInt_eq_wrap]
    exact .integer (integer?_signed w)
  | float x =>
    cases hn
    exact .double x toInt_int32OfFloat
  | bool b =>
    cases hn
    cases b with
    | true => exact .boolean true rfl
    | false => exact .boolean false rfl
  | _ => cases hn

/-- A double that is not negative is cut if what is left fits. -/
theorem toNat_uint32OfFloat {x : Float} (hlow : 0 ≤ Decimal.truncate x)
    (hhigh : Decimal.truncate x < 2 ^ 32) : ((uint32OfFloat x).toNat : ℤ) = Decimal.truncate x := by
  have hbounds : Int64.minValue.toInt = -9223372036854775808 ∧
      Int64.maxValue.toInt = 9223372036854775807 := ⟨rfl, rfl⟩
  have hsome : Decimal.truncateInt64? x = some (Int64.ofInt (Decimal.truncate x)) := by
    rw [Decimal.truncateInt64?, if_pos (by omega)]
  have hsigned : (Int64.ofInt (Decimal.truncate x)).toInt = Decimal.truncate x :=
    Int64.toInt_ofInt_of_le (by omega) (by omega)
  have hword := toNat_toUInt64 (Int64.ofInt (Decimal.truncate x))
  rw [uint32OfFloat, hsome, Option.map_some, Option.getD_some, UInt64.toNat_toUInt32]
  omega

/-- Unsigned words of 32 bits are read as their type says. -/
theorem reads_uint32 (h : uint32.read v = some r) : uint32.Reads v r := by
  obtain ⟨n, hn, rfl⟩ := Option.map_eq_some_iff.1 h
  cases v with
  | unsigned w =>
    cases hn
    rw [UInt64.toNat_toUInt32, Int.natCast_emod]
    exact .integer (integer?_unsigned w)
  | signed w =>
    cases hn
    have hwrap : (w.toUInt64.toUInt32.toNat : ℤ) = w.toInt % 2 ^ 32 := by
      have hword := toNat_toUInt64 w
      rw [UInt64.toNat_toUInt32]
      omega
    rw [hwrap]
    exact .integer (integer?_signed w)
  | float x =>
    cases hn
    exact .double x toNat_uint32OfFloat
  | bool b =>
    cases hn
    cases b with
    | true => exact .boolean true rfl
    | false => exact .boolean false rfl
  | _ => cases hn

/-- With 64 bits there are two cases, below and above the largest signed word. -/
theorem toNat_wordOfFloat {x : Float} (hlow : 0 ≤ Decimal.truncate x)
    (hhigh : Decimal.truncate x < 2 ^ 64) : ((wordOfFloat x).toNat : ℤ) = Decimal.truncate x := by
  have hbounds : Int64.minValue.toInt = -9223372036854775808 ∧ UInt64.size = 2 ^ 64 := ⟨rfl, rfl⟩
  rw [wordOfFloat, if_neg (by omega), if_pos (by omega), UInt64.ofInt, UInt64.toNat_ofNat']
  omega

/-- Words of 64 bits are read as their type says. -/
theorem reads_word (h : word.read v = some r) : word.Reads v r := by
  obtain ⟨n, hn, rfl⟩ := Option.map_eq_some_iff.1 h
  cases v with
  | unsigned w =>
    obtain rfl : w = n := Option.some.inj hn
    have hwrap : (w.toNat : ℤ) = w.toNat % 2 ^ 64 := by
      have hlt := w.toNat_lt
      omega
    rw [hwrap]
    exact .integer (integer?_unsigned w)
  | signed w =>
    cases hn
    rw [toNat_toUInt64]
    exact .integer (integer?_signed w)
  | float x =>
    cases hn
    exact .double x toNat_wordOfFloat
  | _ => cases hn

end Json
end ProofMiner
