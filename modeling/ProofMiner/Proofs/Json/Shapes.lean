/-
# Shapes of values

An integer in a value may carry the mark of a signed number, as `-0` does and as numbers made in
memory may. What a reader asks for is the number alone (`integer?`), so the readers of integers accept
both (`natural?_eq_some_iff`), and a value that was read and is written again may have lost the mark:
it is then `Alike` to the first one, and so are lists and objects of such values.
-/

import Mathlib.Algebra.Group.Nat.Defs
import Mathlib.Data.Int.Notation
import Mathlib.Data.List.Forall2
import ProofMiner.Json.Value

namespace ProofMiner
namespace Json

/-- The integer that a value is. -/
def integer? : Json → Option ℤ
  | .unsigned n => some n.toNat
  | .signed n => some n.toInt
  | _ => none

/-- The reader of integers that are not negative takes all that fit in a word. -/
theorem natural?_eq_some_iff {j : Json} {w : UInt64} :
    j.natural? = some w ↔ j.integer? = some (w.toNat : ℤ) := by
  cases j with
  | unsigned n =>
    rw [natural?, integer?, Option.some.injEq, Option.some.injEq, Int.ofNat_inj, UInt64.toNat_inj]
  | signed n =>
    have hsign : 0 ≤ n ↔ 0 ≤ n.toInt := Int64.le_iff_toInt_le
    rw [natural?, integer?, Option.some.injEq]
    split
    next hn =>
      have hword : (n.toUInt64.toNat : ℤ) = n.toInt := by
        rw [Int64.toNat_toUInt64_of_le hn]
        exact Int.toNat_of_nonneg (hsign.1 hn)
      rw [Option.some.injEq, ← hword, Int.ofNat_inj, UInt64.toNat_inj]
    next hn =>
      refine iff_of_false (Option.some_ne_none w).symm fun h => hn (hsign.2 ?_)
      rw [h]
      exact Int.natCast_nonneg _
  | _ => constructor <;> intro h <;> cases h

/-- An integer that is not negative and below the bound. -/
def IsBelow (bound : ℕ) (j : Json) : Prop := ∃ n : ℕ, j.integer? = some (n : ℤ) ∧ n < bound

/-- An array of values of the same shape. -/
def IsArrayOf (Shape : Json → Prop) (j : Json) : Prop :=
  ∃ items, j = .array items ∧ ∀ v ∈ items, Shape v

/-- A number that is below the bound has the shape. -/
theorem isBelow_of_natural? {j : Json} {w : UInt64} {bound : ℕ} (h : j.natural? = some w)
    (hw : w.toNat < bound) : IsBelow bound j := ⟨w.toNat, natural?_eq_some_iff.1 h, hw⟩

/-- A bound of 64 bits leaves room for no other numbers. -/
theorem IsBelow.exists_natural? {j : Json} {bound : ℕ} (h : IsBelow bound j)
    (hbound : bound ≤ 2 ^ 64) : ∃ w : UInt64, j.natural? = some w ∧ w.toNat < bound := by
  obtain ⟨n, hn, hlt⟩ := h
  have hword : (UInt64.ofNat n).toNat = n := UInt64.toNat_ofNat_of_lt' (Nat.lt_of_lt_of_le hlt hbound)
  exact ⟨UInt64.ofNat n, natural?_eq_some_iff.2 (hword.symm ▸ hn), hword.symm ▸ hlt⟩

/-- The empty list is no number. -/
theorem not_isBelow_nil (bound : ℕ) : ¬ IsBelow bound (.array []) := nofun

/-- Two values are the same but for the marks of their integers. -/
inductive Alike : Json → Json → Prop
  | refl (j : Json) : Alike j j
  | integer {j j' : Json} {n : ℤ} (h : j.integer? = some n) (h' : j'.integer? = some n) : Alike j j'
  | array {items items' : List Json} (h : List.Forall₂ Alike items items') :
    Alike (.array items) (.array items')
  | object {members members' : List (String × Json)}
    (hkeys : members.map Prod.fst = members'.map Prod.fst)
    (h : List.Forall₂ Alike (members.map Prod.snd) (members'.map Prod.snd)) :
    Alike (.object members) (.object members')

/-- A number is alike to the word that it is read as, whether it was signed or not. -/
theorem alike_of_natural? {j : Json} {w : UInt64} (h : j.natural? = some w) :
    Alike (.unsigned w) j := .integer rfl (natural?_eq_some_iff.1 h)

/-- Members with the same keys and alike values. -/
structure AlikeMembers (members members' : List (String × Json)) : Prop where
  keys : members.map Prod.fst = members'.map Prod.fst
  values : List.Forall₂ Alike (members.map Prod.snd) (members'.map Prod.snd)

namespace AlikeMembers

theorem nil : AlikeMembers [] [] := ⟨rfl, .nil⟩

theorem single (key : String) {v v' : Json} (h : Alike v v') :
    AlikeMembers [(key, v)] [(key, v')] := ⟨rfl, .cons h .nil⟩

/-- Members may be compared part by part. -/
theorem append {xs xs' ys ys' : List (String × Json)} (hx : AlikeMembers xs xs')
    (hy : AlikeMembers ys ys') : AlikeMembers (xs ++ ys) (xs' ++ ys') where
  keys := by rw [List.map_append, List.map_append, hx.keys, hy.keys]
  values := by
    rw [List.map_append, List.map_append]
    exact List.rel_append hx.values hy.values

end AlikeMembers

end Json
end ProofMiner
