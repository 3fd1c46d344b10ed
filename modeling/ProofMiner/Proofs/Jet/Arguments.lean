/-
# Packed arguments in JSON

A reader and a writer of the values of one shape form a `Codec`: what is written is read back, exactly
the values of the shape are read, and writing what was read gives the value again, up to the marks of
its integers. Words, field elements and extension field elements are such (`codec_word`, `codec_belt`,
`codec_felt`), and with a codec for the elements so are lists and polynomials (`codec_list`,
`codec_poly`). The same holds of the members of packed arguments, which may be absent
(`codec_optional`, `codec_items`).

Packed arguments are read if and only if each of their eight members is (`ofJson_eq_ok_iff`), so that
the laws of the members give those of the whole (`arguments_exact`): `Args.WellShaped` is what is read,
and `Args.restrict` is what is left of it when it is written again. A request is the arguments with the
operation as one more member. Its text is read back as any printed value is, so that it is the call
itself (`request_toRequest`).
-/

import ProofMiner.Jet.Codec
import ProofMiner.Proofs.Json.RoundTrip
import ProofMiner.Proofs.Json.Shapes
import ProofMiner.Proofs.Readers

namespace ProofMiner
namespace Jet

open Json (Alike AlikeMembers Canonical IsBelow IsArrayOf insertMember)

/-! ### Values of one shape -/

/-- The array of the three coefficients of an extension field element. -/
def IsFelt (j : Json) : Prop :=
  ∃ a b c, j = .array [a, b, c] ∧ ∀ v ∈ [a, b, c], IsBelow modulus.toNat v

/-- A reader and a writer for the values of a shape, each exact about the other. -/
structure Codec {α : Type} (read : Json → Except ArgsFault α) (write : α → Json)
    (Shape : Json → Prop) : Prop where
  canonical_write : ∀ x, Canonical (write x)
  read_write : ∀ x, read (write x) = .ok x
  exists_read : ∀ j, Shape j → ∃ x, read j = .ok x
  shape_of_read : ∀ j x, read j = .ok x → Shape j
  alike_of_read : ∀ j x, read j = .ok x → Alike (write x) j

/-- A word is read from a number that is not negative, and from nothing else. -/
theorem wordOfJson_eq_ok_iff {member : String} {j : Json} {w : UInt64} :
    wordOfJson member j = .ok w ↔ j.natural? = some w := by
  unfold wordOfJson
  cases j.natural? with
  | none => exact ⟨nofun, nofun⟩
  | some v => rw [Except.ok.injEq, Option.some.injEq]

/-- A scalar is read from a number below the modulus: none is reduced. -/
theorem beltOfJson_eq_ok_iff {j : Json} {x : Goldilocks} :
    beltOfJson j = .ok x ↔ j.natural? = some x.val := by
  unfold beltOfJson
  cases j.natural? with
  | none => exact ⟨nofun, nofun⟩
  | some v =>
    dsimp only
    rw [Option.some.injEq]
    split
    next hv => rw [Except.ok.injEq, Goldilocks.ext_iff]
    next hv => exact ⟨nofun, fun h => absurd (h ▸ x.isLt) hv⟩

/-- Words are exact. -/
theorem codec_word (member : String) :
    Codec (wordOfJson member) Json.unsigned (IsBelow (2 ^ 64)) where
  canonical_write n := .unsigned n
  read_write n := rfl
  exists_read j h := by
    obtain ⟨w, hw, -⟩ := h.exists_natural? le_rfl
    exact ⟨w, wordOfJson_eq_ok_iff.2 hw⟩
  shape_of_read j w h := Json.isBelow_of_natural? (wordOfJson_eq_ok_iff.1 h) w.toNat_lt
  alike_of_read j w h := Json.alike_of_natural? (wordOfJson_eq_ok_iff.1 h)

/-- Scalars of the base field are exact. -/
theorem codec_belt : Codec beltOfJson Goldilocks.toJson (IsBelow modulus.toNat) where
  canonical_write x := .unsigned x.val
  read_write x := beltOfJson_eq_ok_iff.2 rfl
  exists_read j h := by
    obtain ⟨w, hw, hlt⟩ := h.exists_natural? (by decide)
    exact ⟨⟨w, UInt64.lt_iff_toNat_lt.2 hlt⟩, beltOfJson_eq_ok_iff.2 hw⟩
  shape_of_read j x h := Json.isBelow_of_natural? (beltOfJson_eq_ok_iff.1 h) x.toNat_lt
  alike_of_read j x h := Json.alike_of_natural? (beltOfJson_eq_ok_iff.1 h)

/-- Three scalars make an element of the extension. -/
theorem feltOfJson_eq_ok_iff {a b c : Json} {x : Cubic} :
    feltOfJson (.array [a, b, c]) = .ok x ↔
      beltOfJson a = .ok x.c0 ∧ beltOfJson b = .ok x.c1 ∧ beltOfJson c = .ok x.c2 := by
  simp only [feltOfJson, bind_eq_ok_iff]
  constructor
  · rintro ⟨z, hz, y, hy, w, hw, h⟩
    cases h
    exact ⟨hw, hy, hz⟩
  · rintro ⟨hw, hy, hz⟩
    exact ⟨x.c2, hz, x.c1, hy, x.c0, hw, rfl⟩

/-- Nothing but an array of three values is read as an extension field element. -/
theorem exists_array_of_feltOfJson {j : Json} {x : Cubic} (h : feltOfJson j = .ok x) :
    ∃ a b c, j = .array [a, b, c] := by
  unfold feltOfJson at h
  split at h
  next a b c => exact ⟨a, b, c, rfl⟩
  next => cases h

/-- Scalars of the extension field are exact. -/
theorem codec_felt : Codec feltOfJson Cubic.toJson IsFelt where
  canonical_write x := .array fun v hv => by
    obtain ⟨y, -, rfl⟩ := List.mem_map.1 hv
    exact codec_belt.canonical_write y
  read_write x := feltOfJson_eq_ok_iff.2
    ⟨codec_belt.read_write x.c0, codec_belt.read_write x.c1, codec_belt.read_write x.c2⟩
  exists_read j := by
    rintro ⟨a, b, c, rfl, h⟩
    obtain ⟨x, hx⟩ := codec_belt.exists_read a (h a (by simp))
    obtain ⟨y, hy⟩ := codec_belt.exists_read b (h b (by simp))
    obtain ⟨z, hz⟩ := codec_belt.exists_read c (h c (by simp))
    exact ⟨⟨x, y, z⟩, feltOfJson_eq_ok_iff.2 ⟨hx, hy, hz⟩⟩
  shape_of_read j x h := by
    obtain ⟨a, b, c, rfl⟩ := exists_array_of_feltOfJson h
    obtain ⟨ha, hb, hc⟩ := feltOfJson_eq_ok_iff.1 h
    refine ⟨a, b, c, rfl, ?_⟩
    simp [codec_belt.shape_of_read a _ ha, codec_belt.shape_of_read b _ hb,
      codec_belt.shape_of_read c _ hc]
  alike_of_read j x h := by
    obtain ⟨a, b, c, rfl⟩ := exists_array_of_feltOfJson h
    obtain ⟨ha, hb, hc⟩ := feltOfJson_eq_ok_iff.1 h
    exact .array (.cons (codec_belt.alike_of_read a _ ha)
      (.cons (codec_belt.alike_of_read b _ hb) (.cons (codec_belt.alike_of_read c _ hc) .nil)))

section Lists

variable {α : Type} {read : Json → Except ArgsFault α} {write : α → Json} {Shape : Json → Prop}

/-- A list is read from an array, item by item. -/
theorem listOfJson_eq_ok_iff {what : String} {j : Json} {xs : List α} :
    listOfJson what read j = .ok xs ↔
      ∃ items, j = .array items ∧ List.Forall₂ (fun v x => read v = .ok x) items xs := by
  cases j with
  | array items =>
    rw [listOfJson, mapM_eq_ok_iff]
    exact ⟨fun h => ⟨items, rfl, h⟩, fun ⟨_, h, hxs⟩ => Json.array.inj h ▸ hxs⟩
  | _ => exact ⟨nofun, fun ⟨_, h, _⟩ => nomatch h⟩

/-- Lists are exact if their items are. -/
theorem codec_list (c : Codec read write Shape) (what : String) :
    Codec (listOfJson what read) (fun xs => .array (xs.map write)) (IsArrayOf Shape) where
  canonical_write xs := .array fun v hv => by
    obtain ⟨x, -, rfl⟩ := List.mem_map.1 hv
    exact c.canonical_write x
  read_write xs := mapM_map_eq_ok c.read_write xs
  exists_read j := by
    rintro ⟨items, rfl, h⟩
    exact exists_mapM_eq_ok fun v hv => c.exists_read v (h v hv)
  shape_of_read j xs h := by
    obtain ⟨items, rfl, hitems⟩ := listOfJson_eq_ok_iff.1 h
    refine ⟨items, rfl, fun v hv => ?_⟩
    obtain ⟨i, hi, rfl⟩ := List.getElem_of_mem hv
    exact c.shape_of_read _ _ (hitems.get hi (hitems.length_eq ▸ hi))
  alike_of_read j xs h := by
    obtain ⟨items, rfl, hitems⟩ := listOfJson_eq_ok_iff.1 h
    refine .array ?_
    rw [List.forall₂_map_left_iff]
    exact hitems.flip.imp fun x v hx => c.alike_of_read v x hx

/-- Polynomials are lists of coefficients. -/
theorem codec_poly (c : Codec read write Shape) (what : String) :
    Codec (polyOfJson what read) (fun p => .array (p.toList.map write)) (IsArrayOf Shape) where
  canonical_write p := (codec_list c what).canonical_write p.toList
  read_write p := by
    rw [polyOfJson, (codec_list c what).read_write]
    rfl
  exists_read j h := by
    obtain ⟨xs, hxs⟩ := (codec_list c what).exists_read j h
    exact ⟨xs.toArray, by rw [polyOfJson, hxs]; rfl⟩
  shape_of_read j p h := by
    obtain ⟨xs, hxs, -⟩ := map_eq_ok_iff.1 h
    exact (codec_list c what).shape_of_read j xs hxs
  alike_of_read j p h := by
    obtain ⟨xs, hxs, rfl⟩ := map_eq_ok_iff.1 h
    exact (codec_list c what).alike_of_read j xs hxs

end Lists

namespace Args

/-! ### Members -/

/-- The member of a value under a key, unless it has none or an empty list there. -/
def member (j : Json) (key : String) : List (String × Json) :=
  match j.get? key with
  | none => []
  | some (.array []) => []
  | some v => [(key, v)]

/-- A member that is missing leaves nothing to be written. -/
theorem member_of_none {j : Json} {key : String} (h : j.get? key = none) : member j key = [] := by
  rw [member, h]

/-- A member that is there is written again, unless it is an empty list. -/
theorem member_of_some {j v : Json} {key : String} (h : j.get? key = some v)
    (hv : v ≠ .array []) : member j key = [(key, v)] := by
  rw [member, h]
  split
  next heq => cases heq
  next heq => exact absurd (Option.some.inj heq) hv
  next heq => rw [Option.some.inj heq]

/-- The member under `key` as it is read and written, if it is there. -/
structure MemberCodec {β : Type} (key : String) (read : Json → Except ArgsFault β)
    (write : β → List (String × Json)) (Shape : Json → Prop) : Prop where
  keys_write : ∀ x, ((write x).map Prod.fst).Sublist [key]
  canonical_write : ∀ x, ∀ m ∈ write x, Canonical m.2
  read_of_get? : ∀ j x, j.get? key = (write x).lookup key → read j = .ok x
  exists_read : ∀ j, (∀ v, j.get? key = some v → Shape v) → ∃ x, read j = .ok x
  shape_of_read : ∀ j x, read j = .ok x → ∀ v, j.get? key = some v → Shape v
  alike_of_read : ∀ j x, read j = .ok x → AlikeMembers (write x) (member j key)

section Members

variable {α : Type} {read : Json → Except ArgsFault α} {write : α → Json} {Shape : Json → Prop}

/-- A member that may be absent, as `toJson` writes it. -/
def optionalMember (key : String) (write : α → Json) (x? : Option α) : List (String × Json) :=
  (x?.map fun x => (key, write x)).toList

/-- Members of other keys do not get in the way. -/
theorem lookup_optionalMember_of_ne {key key' : String} (hne : key' ≠ key) (x? : Option α) :
    (optionalMember key write x?).lookup key' = none := by
  cases x? with
  | none => rfl
  | some x => rw [optionalMember, Option.map_some, Option.toList_some, List.lookup_cons,
      beq_eq_false_iff_ne.2 hne, List.lookup_nil]

theorem lookup_listMember_of_ne {key key' : String} (hne : key' ≠ key) (items : List Json) :
    (listMember key items).lookup key' = none := by
  cases items with
  | nil => rfl
  | cons x xs => rw [listMember, List.isEmpty_cons, if_neg Bool.false_ne_true, List.lookup_cons,
      beq_eq_false_iff_ne.2 hne, List.lookup_nil]

/-- An argument that may be missing is exact if its value is. -/
theorem codec_optional (c : Codec read write Shape) (hnil : ¬ Shape (.array [])) (key : String) :
    MemberCodec key (optional · key read) (optionalMember key write) Shape where
  keys_write x? := by cases x? <;> simp [optionalMember]
  canonical_write x? m hm := by
    cases x? with
    | none => cases hm
    | some x =>
      obtain rfl := List.mem_singleton.1 hm
      exact c.canonical_write x
  read_of_get? j x? h := by
    cases x? with
    | none =>
      replace h : j.get? key = none := h
      rw [optional, h]
    | some x =>
      replace h : j.get? key = some (write x) := by simpa [optionalMember] using h
      simp only [optional, h, c.read_write]
      rfl
  exists_read j h := by
    unfold optional
    split
    next v hv =>
      obtain ⟨x, hx⟩ := c.exists_read v (h v hv)
      exact ⟨some x, by rw [hx]; rfl⟩
    next => exact ⟨none, rfl⟩
  shape_of_read j x? h v hv := by
    simp only [optional, hv, map_eq_ok_iff] at h
    obtain ⟨x, hx, -⟩ := h
    exact c.shape_of_read v x hx
  alike_of_read j x? h := by
    unfold optional at h
    split at h
    next v hv =>
      obtain ⟨x, hx, rfl⟩ := map_eq_ok_iff.1 h
      have hshape := c.shape_of_read v x hx
      rw [member_of_some hv fun heq => hnil (heq ▸ hshape)]
      exact .single key (c.alike_of_read v x hx)
    next hv =>
      obtain rfl := Except.ok.inj h
      rw [member_of_none hv]
      exact .nil

/-- A list of arguments is exact if its items are; the empty list is not written. -/
theorem codec_items (c : Codec read write Shape) (key : String) :
    MemberCodec key (items · key read) (fun xs => listMember key (xs.map write))
      (IsArrayOf Shape) where
  keys_write xs := by cases xs <;> simp [listMember]
  canonical_write xs m hm := by
    cases xs with
    | nil => cases hm
    | cons x xs =>
      obtain rfl := List.mem_singleton.1 hm
      exact (codec_list c key).canonical_write (x :: xs)
  read_of_get? j xs h := by
    cases xs with
    | nil =>
      replace h : j.get? key = none := h
      rw [items, h]
    | cons x xs =>
      replace h : j.get? key = some (.array ((x :: xs).map write)) := by
        simpa [listMember] using h
      rw [items, h]
      exact (codec_list c key).read_write (x :: xs)
  exists_read j h := by
    unfold items
    split
    next v hv => exact (codec_list c key).exists_read v (h v hv)
    next => exact ⟨[], rfl⟩
  shape_of_read j xs h v hv := by
    rw [items, hv] at h
    exact (codec_list c key).shape_of_read v xs h
  alike_of_read j xs h := by
    unfold items at h
    split at h
    next v hv =>
      have halike := (codec_list c key).alike_of_read v xs h
      obtain ⟨vs, rfl, hvs⟩ := listOfJson_eq_ok_iff.1 h
      cases hvs with
      | nil =>
        rw [member, hv]
        exact .nil
      | cons =>
        rw [member_of_some hv (by simp)]
        exact .single key halike
    next hv =>
      obtain rfl := Except.ok.inj h
      rw [member_of_none hv]
      exact .nil

end Members

/-- The eight members, in the order in which they are read. -/
theorem codec_order : MemberCodec "order" (optional · "order" (wordOfJson "order"))
    (optionalMember "order" Json.unsigned) (IsBelow (2 ^ 64)) :=
  codec_optional (codec_word "order") (Json.not_isBelow_nil _) "order"

theorem codec_exponent : MemberCodec "exponent" (optional · "exponent" (wordOfJson "exponent"))
    (optionalMember "exponent" Json.unsigned) (IsBelow (2 ^ 64)) :=
  codec_optional (codec_word "exponent") (Json.not_isBelow_nil _) "exponent"

theorem codec_offset : MemberCodec "offset" (optional · "offset" beltOfJson)
    (optionalMember "offset" Goldilocks.toJson) (IsBelow modulus.toNat) :=
  codec_optional codec_belt (Json.not_isBelow_nil _) "offset"

theorem codec_root : MemberCodec "root" (optional · "root" beltOfJson)
    (optionalMember "root" Goldilocks.toJson) (IsBelow modulus.toNat) :=
  codec_optional codec_belt (Json.not_isBelow_nil _) "root"

theorem codec_belts : MemberCodec "belts" (items · "belts" beltOfJson)
    (fun xs => listMember "belts" (xs.map Goldilocks.toJson)) (IsArrayOf (IsBelow modulus.toNat)) :=
  codec_items codec_belt "belts"

theorem codec_felts : MemberCodec "felts" (items · "felts" feltOfJson)
    (fun xs => listMember "felts" (xs.map Cubic.toJson)) (IsArrayOf IsFelt) :=
  codec_items codec_felt "felts"

theorem codec_bpolys : MemberCodec "bpolys" (items · "bpolys" (polyOfJson "bpoly" beltOfJson))
    (fun ps => listMember "bpolys" (ps.map fun p => Goldilocks.listToJson p.toList))
    (IsArrayOf (IsArrayOf (IsBelow modulus.toNat))) :=
  codec_items (codec_poly codec_belt "bpoly") "bpolys"

theorem codec_fpolys : MemberCodec "fpolys" (items · "fpolys" (polyOfJson "fpoly" feltOfJson))
    (fun ps => listMember "fpolys" (ps.map fun p => .array (p.toList.map Cubic.toJson)))
    (IsArrayOf (IsArrayOf IsFelt)) :=
  codec_items (codec_poly codec_felt "fpoly") "fpolys"

/-! ### Packed arguments -/

/-- Arguments are read if and only if their members are. -/
theorem ofJson_eq_ok_iff {j : Json} {a : Args} : ofJson j = .ok a ↔ j.isObject = true ∧
    optional j "order" (wordOfJson "order") = .ok a.order ∧
    optional j "exponent" (wordOfJson "exponent") = .ok a.exponent ∧
    optional j "offset" beltOfJson = .ok a.offset ∧
    optional j "root" beltOfJson = .ok a.root ∧
    items j "belts" beltOfJson = .ok a.belts ∧
    items j "felts" feltOfJson = .ok a.felts ∧
    items j "bpolys" (polyOfJson "bpoly" beltOfJson) = .ok a.bpolys ∧
    items j "fpolys" (polyOfJson "fpoly" feltOfJson) = .ok a.fpolys := by
  unfold ofJson
  cases j.isObject with
  | false => exact ⟨nofun, fun h => nomatch h.1⟩
  | true =>
    simp only [Bool.not_true, Bool.false_eq_true, if_false, true_and, bind_eq_ok_iff]
    constructor
    · rintro ⟨order, ho, exponent, he, offset, hs, root, hr, belts, hb, felts, hf, bpolys, hbs,
        fpolys, hfs, h⟩
      cases h
      exact ⟨ho, he, hs, hr, hb, hf, hbs, hfs⟩
    · rintro ⟨ho, he, hs, hr, hb, hf, hbs, hfs⟩
      exact ⟨_, ho, _, he, _, hs, _, hr, _, hb, _, hf, _, hbs, _, hfs, rfl⟩

/-- An object with members of the right shapes, as far as it has them. Other members may be anything. -/
structure WellShaped (j : Json) : Prop where
  isObject : j.isObject = true
  order : ∀ v, j.get? "order" = some v → IsBelow (2 ^ 64) v
  exponent : ∀ v, j.get? "exponent" = some v → IsBelow (2 ^ 64) v
  offset : ∀ v, j.get? "offset" = some v → IsBelow modulus.toNat v
  root : ∀ v, j.get? "root" = some v → IsBelow modulus.toNat v
  belts : ∀ v, j.get? "belts" = some v → IsArrayOf (IsBelow modulus.toNat) v
  felts : ∀ v, j.get? "felts" = some v → IsArrayOf IsFelt v
  bpolys : ∀ v, j.get? "bpolys" = some v → IsArrayOf (IsArrayOf (IsBelow modulus.toNat)) v
  fpolys : ∀ v, j.get? "fpolys" = some v → IsArrayOf (IsArrayOf IsFelt) v

/-- What is well-shaped is read. -/
theorem WellShaped.exists_ofJson {j : Json} (h : WellShaped j) : ∃ a, ofJson j = .ok a := by
  obtain ⟨order, ho⟩ := codec_order.exists_read j h.order
  obtain ⟨exponent, he⟩ := codec_exponent.exists_read j h.exponent
  obtain ⟨offset, hs⟩ := codec_offset.exists_read j h.offset
  obtain ⟨root, hr⟩ := codec_root.exists_read j h.root
  obtain ⟨belts, hb⟩ := codec_belts.exists_read j h.belts
  obtain ⟨felts, hf⟩ := codec_felts.exists_read j h.felts
  obtain ⟨bpolys, hbs⟩ := codec_bpolys.exists_read j h.bpolys
  obtain ⟨fpolys, hfs⟩ := codec_fpolys.exists_read j h.fpolys
  exact ⟨{ order, exponent, offset, root, belts, felts, bpolys, fpolys },
    ofJson_eq_ok_iff.2 ⟨h.isObject, ho, he, hs, hr, hb, hf, hbs, hfs⟩⟩

/-- Nothing else is read. -/
theorem wellShaped_of_ofJson {j : Json} {a : Args} (h : ofJson j = .ok a) : WellShaped j := by
  obtain ⟨hobject, ho, he, hs, hr, hb, hf, hbs, hfs⟩ := ofJson_eq_ok_iff.1 h
  exact {
    isObject := hobject
    order := codec_order.shape_of_read j _ ho
    exponent := codec_exponent.shape_of_read j _ he
    offset := codec_offset.shape_of_read j _ hs
    root := codec_root.shape_of_read j _ hr
    belts := codec_belts.shape_of_read j _ hb
    felts := codec_felts.shape_of_read j _ hf
    bpolys := codec_bpolys.shape_of_read j _ hbs
    fpolys := codec_fpolys.shape_of_read j _ hfs }

/-- The keys of packed arguments, in key order. -/
def keys : List String :=
  ["belts", "bpolys", "exponent", "felts", "fpolys", "offset", "order", "root"]

/-- What a value has under these keys, without the empty lists. -/
def restrict (j : Json) : Json := .object (keys.flatMap (member j))

/-- The members that `toJson` writes. -/
def members (a : Args) : List (String × Json) :=
  listMember "belts" (a.belts.map Goldilocks.toJson) ++
  (listMember "bpolys" (a.bpolys.map fun p => Goldilocks.listToJson p.toList) ++
  (optionalMember "exponent" Json.unsigned a.exponent ++
  (listMember "felts" (a.felts.map Cubic.toJson) ++
  (listMember "fpolys" (a.fpolys.map fun p => .array (p.toList.map Cubic.toJson)) ++
  (optionalMember "offset" Goldilocks.toJson a.offset ++
  (optionalMember "order" Json.unsigned a.order ++
  optionalMember "root" Goldilocks.toJson a.root))))))

/-- Arguments are written as an object with their members. -/
theorem toJson_eq (a : Args) : a.toJson = .object a.members := by
  simp only [toJson, members, optionalMember, List.append_assoc]

/-- Members under the keys of the arguments are all that is read of a value. -/
theorem ofJson_of_get? {j : Json} {a : Args} (hobject : j.isObject = true)
    (hget : ∀ key ∈ keys, j.get? key = a.members.lookup key) : ofJson j = .ok a := by
  refine ofJson_eq_ok_iff.2 ⟨hobject, codec_order.read_of_get? j _ ?_,
    codec_exponent.read_of_get? j _ ?_, codec_offset.read_of_get? j _ ?_,
    codec_root.read_of_get? j _ ?_, codec_belts.read_of_get? j _ ?_,
    codec_felts.read_of_get? j _ ?_, codec_bpolys.read_of_get? j _ ?_,
    codec_fpolys.read_of_get? j _ ?_⟩
  all_goals
    rw [hget _ (by decide)]
    simp (disch := decide) only [members, List.lookup_append, lookup_optionalMember_of_ne,
      lookup_listMember_of_ne, Option.none_or, Option.or_none]

/-- Arguments that are written are read back. -/
theorem ofJson_toJson (a : Args) : ofJson a.toJson = .ok a := by
  rw [toJson_eq]
  exact ofJson_of_get? rfl fun _ _ => rfl

/-- What is written can be printed and parsed. -/
theorem canonical_toJson (a : Args) : Canonical a.toJson := by
  have hkeys : (a.members.map Prod.fst).Sublist keys := by
    simp only [members, List.map_append]
    exact (codec_belts.keys_write _).append <| (codec_bpolys.keys_write _).append <|
      (codec_exponent.keys_write _).append <| (codec_felts.keys_write _).append <|
      (codec_fpolys.keys_write _).append <| (codec_offset.keys_write _).append <|
      (codec_order.keys_write _).append <| codec_root.keys_write _
  rw [toJson_eq]
  refine .object (List.Pairwise.sublist hkeys (by decide)) fun m hm => ?_
  simp only [members, List.mem_append] at hm
  rcases hm with hm | hm | hm | hm | hm | hm | hm | hm
  · exact codec_belts.canonical_write _ m hm
  · exact codec_bpolys.canonical_write _ m hm
  · exact codec_exponent.canonical_write _ m hm
  · exact codec_felts.canonical_write _ m hm
  · exact codec_fpolys.canonical_write _ m hm
  · exact codec_offset.canonical_write _ m hm
  · exact codec_order.canonical_write _ m hm
  · exact codec_root.canonical_write _ m hm

/-- Writing what was read restores it. -/
theorem alike_restrict_of_ofJson {j : Json} {a : Args} (h : ofJson j = .ok a) :
    Alike a.toJson (restrict j) := by
  obtain ⟨-, ho, he, hs, hr, hb, hf, hbs, hfs⟩ := ofJson_eq_ok_iff.1 h
  have halike : AlikeMembers a.members (keys.flatMap (member j)) :=
    (codec_belts.alike_of_read j _ hb).append <| (codec_bpolys.alike_of_read j _ hbs).append <|
    (codec_exponent.alike_of_read j _ he).append <| (codec_felts.alike_of_read j _ hf).append <|
    (codec_fpolys.alike_of_read j _ hfs).append <| (codec_offset.alike_of_read j _ hs).append <|
    (codec_order.alike_of_read j _ ho).append <| by
      simpa using codec_root.alike_of_read j _ hr
  rw [toJson_eq]
  exact .object halike.keys halike.values

/-! ### Requests -/

/-- The arguments with the name of an operation. -/
def toRequest (name : String) (a : Args) : Json := a.toJson.set "op" (.string name)

variable (name : String) (a : Args)

/-- A request has one member more, the name of its operation. -/
theorem toRequest_eq :
    a.toRequest name = .object (insertMember "op" (.string name) a.members) := by
  rw [toRequest, toJson_eq, Json.set]

/-- A request can be printed and parsed. -/
theorem canonical_toRequest : Canonical (a.toRequest name) := by
  have h := canonical_toJson a
  rw [toJson_eq] at h
  rw [toRequest_eq]
  exact h.insertMember (.string name)

/-- The name of the operation is found in its place. -/
theorem get?_toRequest_op : (a.toRequest name).get? "op" = some (.string name) := by
  rw [toRequest_eq]
  exact Json.lookup_insertMember_self "op" _ _

theorem ofJson_toRequest : ofJson (a.toRequest name) = .ok a := by
  rw [toRequest_eq]
  refine ofJson_of_get? rfl fun key hkey => Json.lookup_insertMember_of_ne ?_ _ _
  rintro rfl
  exact absurd hkey (by decide)

/-- **A request is the call that it spells out.** -/
theorem request_toRequest (r : Registry) : r.request (a.toRequest name).render =
    (.ok (r.invokeName name a).1, (r.invokeName name a).2) := by
  rw [Registry.request, Json.parse_render (canonical_toRequest name a)]
  simp only [get?_toRequest_op, ofJson_toRequest]
  rfl

/-- **Packed arguments are exact in JSON.** Every pack is read back, and so is every request. A value
is read if and only if it is well shaped, and what is read of it is what it has under the keys of the
arguments. -/
theorem arguments_exact :
    (∀ a : Args, ofJson a.toJson = .ok a) ∧
    (∀ (r : Registry) (name : String) (a : Args), r.request (a.toRequest name).render =
      (.ok (r.invokeName name a).1, (r.invokeName name a).2)) ∧
    (∀ j, WellShaped j ∧ (∃ a, ofJson j = .ok a ∧ Alike a.toJson (restrict j)) ∨
      ¬ WellShaped j ∧ ∃ fault, ofJson j = .error fault) := by
  refine ⟨ofJson_toJson, fun r name a => request_toRequest name a r, fun j => ?_⟩
  cases h : ofJson j with
  | ok a => exact .inl ⟨wellShaped_of_ofJson h, a, rfl, alike_restrict_of_ofJson h⟩
  | error fault =>
    refine .inr ⟨fun hshaped => ?_, fault, rfl⟩
    obtain ⟨a, ha⟩ := hshaped.exists_ofJson
    rw [h] at ha
    cases ha

end Args
end Jet
end ProofMiner
