/-
# Numbers and elements in records

A member of a record is an integer that is not negative, or an array of such. Each reader gives a
value if and only if the JSON value is that number (`IsNumber`): a 64-bit word, a 32-bit one and a
field element differ only in the numbers that they can be (`Covers`), so that what can be read is
what is below their bound (`Covers.isBelow_iff`). Doubles, booleans and negative numbers are no such
numbers, whatever their value.

A member that may be absent stands for its default then (`IsNumberOr`).
-/

import ProofMiner.Proofs.Json.RoundTrip
import ProofMiner.Proofs.Json.Shapes
import ProofMiner.Proofs.Readers
import ProofMiner.Work.Record

namespace ProofMiner
namespace Record

open Json (Canonical IsBelow IsArrayOf)

/-- The value is this number. -/
def IsNumber (n : ℕ) (j : Json) : Prop := j.integer? = some (n : ℤ)

/-- The value is the array of these elements. -/
def AreElements (xs : List Goldilocks) (j : Json) : Prop :=
  ∃ items, j = .array items ∧ List.Forall₂ (fun v x => IsNumber x.toNat v) items xs

/-- A member that may be absent is this number; an absent one is the default. -/
def IsNumberOr (default n : ℕ) (v? : Option Json) : Prop := v?.elim (n = default) (IsNumber n)

/-! ### What a type of numbers covers -/

/-- The values of a type are the numbers below a bound. -/
structure Covers {α : Type} (toNat : α → ℕ) (bound : ℕ) : Prop where
  lt : ∀ x, toNat x < bound
  exists_eq : ∀ n < bound, ∃ x, toNat x = n

/-- What the three types of numbers can be. -/
theorem covers_word : Covers UInt64.toNat (2 ^ 64) where
  lt := UInt64.toNat_lt
  exists_eq n h := ⟨.ofNat n, UInt64.toNat_ofNat_of_lt' h⟩

theorem covers_halfWord : Covers UInt32.toNat (2 ^ 32) where
  lt := UInt32.toNat_lt
  exists_eq n h := ⟨.ofNat n, UInt32.toNat_ofNat_of_lt' h⟩

theorem covers_element : Covers Goldilocks.toNat modulus.toNat where
  lt := Goldilocks.toNat_lt
  exists_eq n h := by
    have hword : (UInt64.ofNat n).toNat = n := UInt64.toNat_ofNat_of_lt' (h.trans modulus.toNat_lt)
    have hlt : UInt64.ofNat n < modulus := UInt64.lt_iff_toNat_lt.2 (hword.symm ▸ h)
    exact ⟨⟨.ofNat n, hlt⟩, hword⟩

namespace Covers

variable {α : Type} {toNat : α → ℕ} {bound : ℕ}

/-- **What is below the bound is one of the values.** -/
theorem isBelow_iff (h : Covers toNat bound) {j : Json} :
    IsBelow bound j ↔ ∃ x, IsNumber (toNat x) j := by
  constructor
  · rintro ⟨n, hn, hlt⟩
    obtain ⟨x, rfl⟩ := h.exists_eq n hlt
    exact ⟨x, hn⟩
  · rintro ⟨x, hx⟩
    exact ⟨toNat x, hx, h.lt x⟩

/-- A member that is below the bound if it is there. -/
theorem optional_iff (h : Covers toNat bound) (default : α) {v? : Option Json} :
    (∀ v, v? = some v → IsBelow bound v) ↔ ∃ x, IsNumberOr (toNat default) (toNat x) v? := by
  cases v? with
  | none => exact iff_of_true nofun ⟨default, rfl⟩
  | some v =>
    constructor
    · intro hv
      exact h.isBelow_iff.1 (hv v rfl)
    · rintro hx _ ⟨⟩
      exact h.isBelow_iff.2 hx

end Covers

/-! ### The readers -/

/-- A record is read from a text as JSON is; only the faults are called otherwise. -/
theorem parse_eq_ok_iff {cs : List Char} {j : Json} :
    parse cs = .ok j ↔ Json.parse cs = .ok j := mapError_eq_ok_iff

/-- A member has to be there. -/
theorem member_eq_ok_iff {j v : Json} {key : String} :
    member j key = .ok v ↔ j.get? key = some v := by
  rw [member, mapError_eq_ok_iff]
  cases j with
  | object members =>
    rw [Json.get, Json.get?]
    cases members.lookup key with
    | none => exact ⟨nofun, nofun⟩
    | some w => rw [Except.ok.injEq, Option.some.injEq]
  | _ => exact ⟨nofun, nofun⟩

/-- Numbers are read if they are of their type. -/
theorem word_eq_ok_iff {what : String} {j : Json} {w : UInt64} :
    word what j = .ok w ↔ IsNumber w.toNat j := by
  rw [IsNumber, ← Json.natural?_eq_some_iff, word]
  cases j.natural? with
  | none => exact ⟨nofun, nofun⟩
  | some v => rw [Except.ok.injEq, Option.some.injEq]

theorem halfWord_eq_ok_iff {what : String} {j : Json} {w : UInt32} :
    halfWord what j = .ok w ↔ IsNumber w.toNat j := by
  simp only [halfWord, bind_eq_ok_iff, word_eq_ok_iff]
  constructor
  · rintro ⟨v, hv, h⟩
    split_ifs at h with hlt
    obtain rfl : v.toUInt32 = w := Except.ok.inj h
    rwa [UInt64.toNat_toUInt32, Nat.mod_eq_of_lt hlt]
  · intro h
    refine ⟨w.toUInt64, by rwa [UInt32.toNat_toUInt64], ?_⟩
    rw [if_pos (by rw [UInt32.toNat_toUInt64]; exact w.toNat_lt), UInt32.toUInt32_toUInt64]
    rfl

theorem element_eq_ok_iff {j : Json} {x : Goldilocks} :
    element j = .ok x ↔ IsNumber x.toNat j := by
  simp only [element, bind_eq_ok_iff, word_eq_ok_iff]
  constructor
  · rintro ⟨v, hv, h⟩
    split_ifs at h with hlt
    obtain rfl : ⟨v, hlt⟩ = x := Except.ok.inj h
    exact hv
  · intro h
    exact ⟨x.val, h, dif_pos x.isLt⟩

/-- A list of elements is read from an array of such numbers. -/
theorem elements_eq_ok_iff {j : Json} {xs : List Goldilocks} :
    elements j = .ok xs ↔ AreElements xs j := by
  cases j with
  | array items =>
    rw [elements, mapM_eq_ok_iff]
    simp only [element_eq_ok_iff]
    exact ⟨fun h => ⟨items, rfl, h⟩, fun ⟨_, h, hxs⟩ => Json.array.inj h ▸ hxs⟩
  | _ => exact ⟨nofun, fun ⟨_, h, _⟩ => nomatch h⟩

/-- A number in a member that has to be there. -/
theorem wordMember_eq_ok_iff {j : Json} {key : String} {w : UInt64} :
    wordMember j key = .ok w ↔ ∃ v, j.get? key = some v ∧ IsNumber w.toNat v := by
  simp only [wordMember, bind_eq_ok_iff, member_eq_ok_iff, word_eq_ok_iff]

/-- A number in a member that may be missing. -/
theorem wordMemberD_eq_ok_iff {j : Json} {key : String} {default w : UInt64} :
    wordMemberD j key default = .ok w ↔ IsNumberOr default.toNat w.toNat (j.get? key) := by
  unfold wordMemberD
  cases j.get? key with
  | none =>
    rw [Except.ok.injEq]
    exact ⟨fun h => congrArg UInt64.toNat h.symm, fun h => (UInt64.toNat_inj.1 h).symm⟩
  | some v => exact word_eq_ok_iff

/-- **The arrays of numbers below the modulus are the arrays of elements.** -/
theorem isArrayOf_iff {j : Json} :
    IsArrayOf (IsBelow modulus.toNat) j ↔ ∃ xs, AreElements xs j := by
  constructor
  · rintro ⟨items, rfl, h⟩
    obtain ⟨xs, hxs⟩ : ∃ xs, items.mapM element = .ok xs := by
      refine exists_mapM_eq_ok fun v hv => ?_
      obtain ⟨x, hx⟩ := covers_element.isBelow_iff.1 (h v hv)
      exact ⟨x, element_eq_ok_iff.2 hx⟩
    exact ⟨xs, elements_eq_ok_iff.1 hxs⟩
  · rintro ⟨xs, items, rfl, h⟩
    refine ⟨items, rfl, fun v hv => ?_⟩
    obtain ⟨i, hi, rfl⟩ := List.getElem_of_mem hv
    exact covers_element.isBelow_iff.2 ⟨_, h.get hi (h.length_eq ▸ hi)⟩

/-! ### What is written -/

/-- What is written is of the type that it is read by. -/
theorem isNumber_unsigned (n : UInt64) : IsNumber n.toNat (.unsigned n) := rfl

theorem isNumber_halfWord (n : UInt32) : IsNumber n.toNat (.unsigned n.toUInt64) := by
  rw [← UInt32.toNat_toUInt64]
  exact isNumber_unsigned n.toUInt64

theorem areElements_ofElements (xs : List Goldilocks) : AreElements xs (ofElements xs) := by
  refine ⟨_, rfl, ?_⟩
  rw [List.forall₂_map_left_iff]
  exact List.forall₂_same.2 fun x _ => isNumber_unsigned x.val

/-- A list of elements can be printed and parsed. -/
theorem canonical_ofElements (xs : List Goldilocks) : Canonical (ofElements xs) := by
  refine .array fun v hv => ?_
  obtain ⟨x, -, rfl⟩ := List.mem_map.1 hv
  exact .unsigned x.val

end Record
end ProofMiner
