/-
# The members of an object

A member is put at its place in the key order. It is found there under its key
(`lookup_insertMember_self`), what is found under other keys stays (`lookup_insertMember_of_ne`), and
so does the order (`pairwise_insertMember`). A member whose key comes after all others goes to the
end, which is where the reader of a printed object puts each of them (`insertMember_of_pairwise`).
-/

import Mathlib.Data.List.Basic
import Mathlib.Data.String.Basic
import ProofMiner.Json.Value

namespace ProofMiner
namespace Json

variable {key key' : String} {v : Json} {members : List (String × Json)}

/-- The last member of a key counts. -/
theorem lookup_insertMember_self (key : String) (v : Json) (members : List (String × Json)) :
    (insertMember key v members).lookup key = some v := by
  induction members with
  | nil => simp [insertMember]
  | cons m members ih =>
    rw [insertMember]
    split_ifs with hlt heq
    · simp
    · simp
    · rw [List.lookup_cons, beq_eq_false_iff_ne.2 heq, ih]

/-- Members of other keys stay. -/
theorem lookup_insertMember_of_ne (hne : key' ≠ key) (v : Json) (members : List (String × Json)) :
    (insertMember key v members).lookup key' = members.lookup key' := by
  have hcons (m : String × Json) (rest : List (String × Json)) (hm : m.1 = key) :
      (m :: rest).lookup key' = rest.lookup key' := by
    rw [List.lookup_cons, beq_eq_false_iff_ne.2 (hm ▸ hne)]
  induction members with
  | nil => exact hcons (key, v) [] rfl
  | cons m members ih =>
    rw [insertMember]
    split_ifs with hlt heq
    · exact hcons (key, v) _ rfl
    · rw [hcons (key, v) _ rfl, hcons m _ heq.symm]
    · rw [List.lookup_cons, List.lookup_cons, ih]

/-- No member is made up. -/
theorem mem_insertMember {m : String × Json} (h : m ∈ insertMember key v members) :
    m = (key, v) ∨ m ∈ members := by
  induction members with
  | nil => exact .inl (List.mem_singleton.1 h)
  | cons m' members ih =>
    rw [insertMember] at h
    split_ifs at h with hlt heq
    · exact List.mem_cons.1 h
    · exact (List.mem_cons.1 h).imp_right (List.mem_cons_of_mem m')
    · rcases List.mem_cons.1 h with rfl | h
      · exact .inr List.mem_cons_self
      · exact (ih h).imp_right (List.mem_cons_of_mem m')

/-- **An object stays in key order** when a member is put into it. -/
theorem pairwise_insertMember (h : (members.map Prod.fst).Pairwise (· < ·)) (v : Json) :
    ((insertMember key v members).map Prod.fst).Pairwise (· < ·) := by
  induction members with
  | nil => simp [insertMember]
  | cons m members ih =>
    obtain ⟨hm, hmembers⟩ := List.pairwise_cons.1 h
    rw [insertMember]
    split_ifs with hlt heq
    · refine List.pairwise_cons.2 ⟨fun k hk => ?_, h⟩
      rcases List.mem_cons.1 hk with rfl | hk
      · exact hlt
      · exact String.lt_trans hlt (hm k hk)
    · exact List.pairwise_cons.2 ⟨fun k hk => heq ▸ hm k hk, hmembers⟩
    · refine List.pairwise_cons.2 ⟨fun k hk => ?_, ih hmembers⟩
      obtain ⟨m', hm', rfl⟩ := List.mem_map.1 hk
      rcases mem_insertMember hm' with rfl | hm'
      · exact lt_of_le_of_ne (String.not_lt.1 hlt) (Ne.symm heq)
      · exact hm m'.1 (List.mem_map_of_mem hm')

/-- A member whose key comes after all others goes to the end. -/
theorem insertMember_append {acc : List (String × Json)}
    (h : ∀ m ∈ acc, m.1 < key) (v : Json) : insertMember key v acc = acc ++ [(key, v)] := by
  induction acc with
  | nil => rfl
  | cons m acc ih =>
    have hm : m.1 < key := h m List.mem_cons_self
    have hne : key ≠ m.1 := fun heq => String.lt_irrefl key (heq ▸ hm)
    rw [insertMember, if_neg (String.lt_asymm hm), if_neg hne,
      ih fun x hx => h x (List.mem_cons_of_mem m hx), List.cons_append]

/-- A member whose key is above all others goes to the end. -/
theorem insertMember_of_pairwise {acc : List (String × Json)}
    (h : ((acc ++ (key, v) :: members).map Prod.fst).Pairwise (· < ·)) :
    insertMember key v acc = acc ++ [(key, v)] := by
  rw [List.map_append, List.pairwise_append] at h
  exact insertMember_append (fun m hm => h.2.2 m.1 (List.mem_map_of_mem hm) key (by simp)) v

/-- The object with one more member. A value that is no object stays as it is. -/
def set (j : Json) (key : String) (v : Json) : Json :=
  match j with
  | .object members => .object (insertMember key v members)
  | j => j

end Json
end ProofMiner
