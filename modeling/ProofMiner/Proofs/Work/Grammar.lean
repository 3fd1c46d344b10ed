/-
# The grammar of payout splits

A split is written `share,threshold:key1,key2,…`: two numbers in decimal digits and at least one key, none
of which is empty or holds a comma (`Grammatical`). The reader takes every such text, and besides them one
more text for each: the same one with a comma behind it. The pieces of that text end in an empty one, which
is dropped where any other empty piece is refused (`keyPieces_eq_iff`).
-/

import ProofMiner.Proofs.Work.Payouts

namespace ProofMiner

/-- The text is a number of 64 bits in decimal digits. -/
structure Decimal.Writes (digits : List Char) (w : UInt64) : Prop where
  ne_nil : digits ≠ []
  isDigit : ∀ c ∈ digits, c.isDigit
  value : Decimal.value digits = w.toNat

/-- A word is read from its digits, with zeros before them or not. -/
theorem Decimal.word_eq_ok_iff_writes {digits : List Char} {w : UInt64} :
    word digits = .ok w ↔ Writes digits w :=
  word_eq_ok_iff.trans
    ⟨fun ⟨hne, hall, hvalue⟩ => ⟨hne, hall, hvalue⟩, fun h => ⟨h.ne_nil, h.isDigit, h.value⟩⟩

/-- A separator behind joined pieces ends one more piece, which is empty. -/
theorem Text.intercalate_concat_nil (c : Char) {pieces : List (List Char)} (hne : pieces ≠ []) :
    [c].intercalate (pieces ++ [[]]) = [c].intercalate pieces ++ [c] := by
  induction pieces with
  | nil => exact absurd rfl hne
  | cons piece pieces ih =>
    cases pieces with
    | nil =>
      rw [List.singleton_append, List.intercalate_cons_of_ne_nil (List.cons_ne_nil _ _)]
      simp
    | cons next pieces =>
      have hnext := ih (List.cons_ne_nil _ _)
      rw [List.cons_append, List.intercalate_cons_of_ne_nil (by simp), hnext,
        List.intercalate_cons_of_ne_nil (List.cons_ne_nil _ _), List.append_assoc, List.append_assoc,
        List.append_assoc]

namespace Payout

variable {text front : String} {k : Payout} {cs : List Char} {keys : List (List Char)}

/-- The text is `share,threshold:key1,key2,…` for this split, which is a valid one. -/
structure Grammatical (text : String) (k : Payout) : Prop where
  text : ∃ share threshold, Decimal.Writes share k.share ∧ Decimal.Writes threshold k.threshold ∧
    text.toList = share ++ ',' :: (threshold ++ ':' :: [','].intercalate (k.keys.map String.toList))
  valid : k.Valid

/-- The text has one comma too many, behind the last key of this split. -/
def Overlong (text : String) (k : Payout) : Prop := ∃ front, text = front ++ "," ∧ Grammatical front k

/-- **The keys of a list** are joined by commas in it, and one more comma may follow the last one. -/
theorem keyPieces_eq_iff (hne : keys ≠ []) (h : ∀ key ∈ keys, key ≠ [] ∧ ',' ∉ key) :
    keyPieces cs = keys ↔
      cs = [','].intercalate keys ∨ cs = [','].intercalate keys ++ [','] := by
  constructor
  · intro hkeys
    have hpieces : [','].intercalate (Text.pieces ',' cs) = cs := by
      rw [Text.pieces_eq_splitOn]
      exact List.intercalate_splitOn ','
    simp only [keyPieces] at hkeys
    split at hkeys
    next hlast =>
      rw [← List.dropLast_append_getLast? [] hlast, hkeys, Text.intercalate_concat_nil ',' hne]
        at hpieces
      exact .inr hpieces.symm
    next =>
      rw [hkeys] at hpieces
      exact .inl hpieces.symm
  · rintro (rfl | rfl)
    · exact keyPieces_intercalate hne h
    · have hall : ∀ piece ∈ keys ++ [[]], ',' ∉ piece := by
        rw [List.forall_mem_append, List.forall_mem_singleton]
        exact ⟨fun key hkey => (h key hkey).2, List.not_mem_nil⟩
      have hpieces : Text.pieces ',' ([','].intercalate keys ++ [',']) = keys ++ [[]] := by
        rw [Text.pieces_eq_splitOn, ← Text.intercalate_concat_nil ',' hne]
        exact List.splitOn_intercalate ',' hall (by simp)
      simp only [keyPieces, hpieces, if_pos List.getLast?_concat, List.dropLast_concat]

/-- Valid keys can be told apart again once they are joined. -/
theorem Valid.toList_keys (h : k.Valid) :
    k.keys.map String.toList ≠ [] ∧ ∀ key ∈ k.keys.map String.toList, key ≠ [] ∧ ',' ∉ key := by
  refine ⟨mt List.map_eq_nil_iff.1 h.keys_ne_nil, fun cs hcs => ?_⟩
  obtain ⟨key, hkey, rfl⟩ := List.mem_map.1 hcs
  exact ⟨mt String.toList_eq_nil_iff.1 (h.keys key hkey).1, (h.keys key hkey).2⟩

/-- Keys are compared as texts or as lists of characters. -/
theorem keys_eq_map_iff : k.keys = keys.map String.ofList ↔ keys = k.keys.map String.toList := by
  constructor
  · intro h
    rw [h, List.map_map]
    exact (List.map_id'' (fun _ => String.toList_ofList) keys).symm
  · rintro rfl
    rw [List.map_map]
    exact (List.map_id'' (fun _ => String.ofList_toList) k.keys).symm

/-- A number has neither commas nor colons, so that it is all that stands before the first one. -/
theorem parts_of_writes {share threshold keys : List Char} {s t : UInt64}
    (hshare : Decimal.Writes share s) (hthreshold : Decimal.Writes threshold t)
    (htext : text.toList = share ++ ',' :: (threshold ++ ':' :: keys)) :
    Parts text share threshold keys where
  text := htext
  comma := Decimal.not_mem_of_word (Decimal.word_eq_ok_iff_writes.2 hshare) rfl
  colon := Decimal.not_mem_of_word (Decimal.word_eq_ok_iff_writes.2 hshare) rfl
  colon' := Decimal.not_mem_of_word (Decimal.word_eq_ok_iff_writes.2 hthreshold) rfl

/-- The keys are what stands behind the numbers, or all of it but a comma at its end. -/
theorem parse_eq_ok_iff_exists : parse text = .ok k ↔ k.Valid ∧ ∃ share threshold keys,
    Decimal.Writes share k.share ∧ Decimal.Writes threshold k.threshold ∧
    text.toList = share ++ ',' :: (threshold ++ ':' :: keys) ∧
    (keys = [','].intercalate (k.keys.map String.toList) ∨
      keys = [','].intercalate (k.keys.map String.toList) ++ [',']) := by
  rw [parse_eq_ok_iff]
  constructor
  · rintro ⟨share, threshold, keys, hparts, hs, ht, hkeys, hvalid⟩
    refine ⟨hvalid, share, threshold, keys, Decimal.word_eq_ok_iff_writes.1 hs,
      Decimal.word_eq_ok_iff_writes.1 ht, hparts.text, ?_⟩
    exact (keyPieces_eq_iff hvalid.toList_keys.1 hvalid.toList_keys.2).1 (keys_eq_map_iff.1 hkeys)
  · rintro ⟨hvalid, share, threshold, keys, hs, ht, htext, hkeys⟩
    refine ⟨share, threshold, keys, parts_of_writes hs ht htext,
      Decimal.word_eq_ok_iff_writes.2 hs, Decimal.word_eq_ok_iff_writes.2 ht, ?_, hvalid⟩
    exact keys_eq_map_iff.2 ((keyPieces_eq_iff hvalid.toList_keys.1 hvalid.toList_keys.2).2 hkeys)

/-- A text with a comma too many, spelled out. -/
theorem overlong_iff : Overlong text k ↔ k.Valid ∧ ∃ share threshold,
    Decimal.Writes share k.share ∧ Decimal.Writes threshold k.threshold ∧
    text.toList = share ++ ',' :: (threshold ++ ':' ::
      ([','].intercalate (k.keys.map String.toList) ++ [','])) := by
  constructor
  · rintro ⟨front, rfl, ⟨share, threshold, hs, ht, hfront⟩, hvalid⟩
    refine ⟨hvalid, share, threshold, hs, ht, ?_⟩
    rw [String.toList_append, hfront, List.append_assoc, List.cons_append, List.append_assoc]
    rfl
  · rintro ⟨hvalid, share, threshold, hs, ht, htext⟩
    refine ⟨.ofList (share ++ ',' :: (threshold ++ ':' ::
      [','].intercalate (k.keys.map String.toList))), ?_, ⟨share, threshold, hs, ht, ?_⟩, hvalid⟩
    · rw [← String.toList_inj, String.toList_append, String.toList_ofList, htext, List.append_assoc,
        List.cons_append, List.append_assoc]
      rfl
    · exact String.toList_ofList

/-- **The texts that are read** are those of the grammar and these with one comma more. -/
theorem parse_eq_ok_iff_grammatical :
    parse text = .ok k ↔ Grammatical text k ∨ Overlong text k := by
  rw [parse_eq_ok_iff_exists, overlong_iff]
  constructor
  · rintro ⟨hvalid, share, threshold, keys, hs, ht, htext, rfl | rfl⟩
    · exact .inl ⟨⟨share, threshold, hs, ht, htext⟩, hvalid⟩
    · exact .inr ⟨hvalid, share, threshold, hs, ht, htext⟩
  · rintro (⟨⟨share, threshold, hs, ht, htext⟩, hvalid⟩ | ⟨hvalid, share, threshold, hs, ht, htext⟩)
    · exact ⟨hvalid, share, threshold, _, hs, ht, htext, .inl rfl⟩
    · exact ⟨hvalid, share, threshold, _, hs, ht, htext, .inr rfl⟩

/-- The last key is not empty, so that no comma stands at the end. -/
theorem getLast?_intercalate_ne (h : ∀ key ∈ keys, key ≠ [] ∧ ',' ∉ key) :
    ([','].intercalate keys).getLast? ≠ some ',' := by
  intro hlast
  obtain ⟨front, hfront⟩ := List.getLast?_eq_some_iff.1 hlast
  have hne : keys ≠ [] := by
    rintro rfl
    cases hlast
  have hall : ∀ piece ∈ front.splitOn ',' ++ [[]], ',' ∉ piece := by
    rw [← Text.pieces_eq_splitOn, List.forall_mem_append, List.forall_mem_singleton]
    exact ⟨fun piece hpiece => Text.separator_not_mem hpiece, List.not_mem_nil⟩
  have hkeys : keys = front.splitOn ',' ++ [[]] := by
    rw [← List.splitOn_intercalate ',' (fun key hkey => (h key hkey).2) hne, hfront,
      ← List.splitOn_intercalate ',' hall (by simp),
      Text.intercalate_concat_nil ',' (List.splitOn_ne_nil ',' front), List.intercalate_splitOn]
  refine (h [] ?_).1 rfl
  rw [hkeys]
  exact List.mem_append_right _ List.mem_cons_self

/-- A text of the grammar ends in a key, and one that is too long does not. -/
theorem Grammatical.not_overlong (h : Grammatical text k) (k' : Payout) : ¬ Overlong text k' := by
  rintro ⟨front, rfl, -⟩
  have hcomma : (front ++ ",").toList.getLast? = some ',' := by
    rw [String.toList_append]
    exact List.getLast?_concat
  obtain ⟨share, threshold, -, -, htext⟩ := h.text
  rw [htext, List.getLast?_append_of_ne_nil _ (List.cons_ne_nil _ _), List.getLast?_cons,
    List.getLast?_append_of_ne_nil _ (List.cons_ne_nil _ _), List.getLast?_cons] at hcomma
  have hnot := getLast?_intercalate_ne h.valid.toList_keys.2
  cases hlast : ([','].intercalate (k.keys.map String.toList)).getLast? with
  | none =>
    rw [hlast] at hcomma
    cases hcomma
  | some c =>
    rw [hlast] at hcomma hnot
    exact hnot hcomma

/-- An empty key that is not the last one is refused as such. -/
theorem parse_of_empty_key {share threshold : List Char} {s t : UInt64} {before after : List (List Char)}
    (hs : Decimal.Writes share s) (ht : Decimal.Writes threshold t) (hafter : after ≠ [])
    (hcomma : ∀ key ∈ before ++ after, ',' ∉ key)
    (htext : text.toList =
      share ++ ',' :: (threshold ++ ':' :: [','].intercalate (before ++ [] :: after))) :
    parse text = .error (.emptyKey text) := by
  have hall : ∀ key ∈ before ++ [] :: after, ',' ∉ key := by
    rw [List.forall_mem_append] at hcomma
    rw [List.forall_mem_append, List.forall_mem_cons]
    exact ⟨hcomma.1, List.not_mem_nil, hcomma.2⟩
  have hempty : [] ∈ keyPieces ([','].intercalate (before ++ [] :: after)) := by
    have hpieces := List.splitOn_intercalate ',' hall (by simp)
    simp only [keyPieces, Text.pieces_eq_splitOn, hpieces]
    split
    · rw [List.dropLast_append_cons, List.dropLast_cons_of_ne_nil hafter]
      exact List.mem_append_right _ List.mem_cons_self
    · exact List.mem_append_right _ List.mem_cons_self
  rw [(parts_of_writes hs ht htext).parse_eq,
    number_eq_ok_iff.2 (Decimal.word_eq_ok_iff_writes.2 hs),
    number_eq_ok_iff.2 (Decimal.word_eq_ok_iff_writes.2 ht)]
  exact if_pos (List.any_eq_true.2 ⟨[], hempty, rfl⟩)

/-- **The grammar decides every text but one for each of its own**: that text with a comma behind it, which
is read as well. Every other text is refused, and it is so for an empty key in any other place. -/
theorem grammar_decides_iff (text : String) :
    (∀ k, parse text = .ok k ↔ Grammatical text k ∨ Overlong text k) ∧
    ((∀ k, parse text = .ok k ↔ Grammatical text k) ↔ ∀ k, ¬ Overlong text k) ∧
    ((∀ k, ¬ Grammatical text k ∧ ¬ Overlong text k) → ∃ fault, parse text = .error fault) ∧
    ∀ share threshold s t before after, Decimal.Writes share s → Decimal.Writes threshold t →
      after ≠ [] → (∀ key ∈ before ++ after, ',' ∉ key) →
      text.toList =
        share ++ ',' :: (threshold ++ ':' :: [','].intercalate (before ++ [] :: after)) →
      parse text = .error (.emptyKey text) := by
  refine ⟨fun k => parse_eq_ok_iff_grammatical, ⟨fun hdecides k hover => ?_, fun hnone k => ?_⟩,
    fun hnone => ?_, fun share threshold s t before after hs ht => parse_of_empty_key hs ht⟩
  · have hread := parse_eq_ok_iff_grammatical.2 (.inr hover)
    exact ((hdecides k).1 hread).not_overlong k hover
  · rw [parse_eq_ok_iff_grammatical]
    exact or_iff_left (hnone k)
  · cases hparse : parse text with
    | error fault => exact ⟨fault, rfl⟩
    | ok k => exact absurd (parse_eq_ok_iff_grammatical.1 hparse) (not_or.2 (hnone k))

/-- A split is read where the last key is an empty one. -/
theorem trailing_comma_read : parse "1,1:alice," = .ok { keys := ["alice"] } ∧
    ¬ ∀ k, parse "1,1:alice," = .ok k ↔ Grammatical "1,1:alice," k := by
  have hvalid : Valid { keys := ["alice"] } :=
    ⟨Nat.one_pos, Nat.le_refl 1, List.forall_mem_singleton.2 ⟨by decide, by decide⟩⟩
  have hone : Decimal.Writes ['1'] 1 := ⟨List.cons_ne_nil _ _, List.forall_mem_singleton.2 rfl, rfl⟩
  have hover : Overlong "1,1:alice," { keys := ["alice"] } :=
    ⟨"1,1:alice", rfl, ⟨['1'], ['1'], hone, hone, rfl⟩, hvalid⟩
  refine ⟨parse_eq_ok_iff_grammatical.2 (.inr hover), fun hdecides => ?_⟩
  exact ((hdecides _).1 (parse_eq_ok_iff_grammatical.2 (.inr hover))).not_overlong _ hover

end Payout
end ProofMiner
