/-
# Payout splits as texts

A text is a split if and only if it is cut by its first comma and its first colon into two numbers
and a list of keys that make a valid split (`parse_eq_ok_iff`). The keys are the pieces between
commas, without the last one if that is empty. Keys that are joined by commas are these pieces again
(`keyPieces_intercalate`), as long as none is empty or holds a comma; colons and digits are
characters like any other there. The numbers are read from any digits, zeros in front included, and
written without such zeros.

So a valid split, and no other, is read back from its own text (`parse_render_iff`), and since
everything that is read is valid, a text may change when it is read and written, but only once.
-/

import Mathlib.Data.List.Infix
import ProofMiner.Proofs.Json.RoundTrip
import ProofMiner.Proofs.Readers
import ProofMiner.Work.Payout

namespace ProofMiner

/-! ### Pieces and numbers -/

namespace Text

/-- Pieces are cut as the library cuts lists. -/
theorem pieces_eq_splitOn (separator : Char) (cs : List Char) :
    pieces separator cs = cs.splitOn separator := by
  induction cs with
  | nil => rfl
  | cons c cs ih =>
    rw [List.splitOn_cons_eq_if_modifyHead, ← ih, pieces]
    by_cases hc : c = separator
    · rw [if_pos hc, if_pos (beq_iff_eq.2 hc)]
    · rw [if_neg hc, if_neg (mt beq_iff_eq.1 hc)]
      cases h : pieces separator cs with
      | nil => exact absurd (ih ▸ h) (List.splitOn_ne_nil separator cs)
      | cons piece others => rfl

/-- No piece holds the separator. -/
theorem separator_not_mem {separator : Char} {cs piece : List Char}
    (h : piece ∈ pieces separator cs) : separator ∉ piece := by
  induction cs generalizing piece with
  | nil =>
    obtain rfl := List.mem_singleton.1 h
    exact List.not_mem_nil
  | cons c cs ih =>
    unfold pieces at h
    split at h
    next =>
      rcases List.mem_cons.1 h with rfl | h
      · exact List.not_mem_nil
      · exact ih h
    next hc =>
      split at h
      next =>
        obtain rfl := List.mem_singleton.1 h
        exact fun hmem => hc (List.mem_singleton.1 hmem).symm
      next first others heq =>
        rcases List.mem_cons.1 h with rfl | h
        · exact List.not_mem_cons_of_ne_of_not_mem (Ne.symm hc) (ih (heq ▸ List.mem_cons_self))
        · exact ih (heq ▸ List.mem_cons_of_mem first h)

variable {c : Char} {front : List Char}

/-- The part before the first separator, and the part behind it. -/
theorem takeWhile_front (h : c ∉ front) (rest : List Char) :
    (front ++ c :: rest).takeWhile (· ≠ c) = front := by
  have hfront : ∀ d ∈ front, decide (d ≠ c) = true := fun d hd =>
    decide_eq_true fun heq => h (heq ▸ hd)
  rw [List.takeWhile_append_of_pos hfront, List.takeWhile_cons_of_neg (by simp), List.append_nil]

theorem drop_front (c : Char) (front rest : List Char) :
    (front ++ c :: rest).drop (front.length + 1) = rest := by
  rw [List.append_cons]
  exact List.drop_left' (by rw [List.length_append, List.length_singleton])

end Text

namespace Decimal

/-- A word is read from its digits, with any zeros in front. -/
theorem word_eq_ok_iff {cs : List Char} {w : UInt64} :
    word cs = .ok w ↔ cs ≠ [] ∧ (∀ c ∈ cs, c.isDigit) ∧ value cs = w.toNat := by
  rw [word]
  split_ifs with hdigits hsize
  · refine iff_of_false nofun fun ⟨hne, hall, _⟩ => ?_
    obtain ⟨c, hc, hdigit⟩ : ∃ c ∈ cs, c.isDigit = false := by simpa [hne] using hdigits
    exact Bool.false_ne_true (hdigit.symm.trans (hall c hc))
  · have hne : cs ≠ [] ∧ ∀ c ∈ cs, c.isDigit := by simpa using hdigits
    rw [Except.ok.injEq, ← UInt64.toNat_inj, UInt64.toNat_ofNat_of_lt' hsize]
    exact ⟨fun h => ⟨hne.1, hne.2, h⟩, fun h => h.2.2⟩
  · exact iff_of_false nofun fun ⟨_, _, hvalue⟩ => hsize (hvalue ▸ w.toNat_lt)

/-- The digits of a word are read as the word. -/
theorem word_toDigits (w : UInt64) : word (Nat.toDigits 10 w.toNat) = .ok w :=
  word_eq_ok_iff.2
    ⟨Nat.toDigits_ne_nil, fun _ => Json.isDigit_of_mem_toDigits, Json.value_toDigits w.toNat⟩

/-- A text with a character that is no digit is no word. -/
theorem not_mem_of_word {cs : List Char} {w : UInt64} (h : word cs = .ok w) {c : Char}
    (hc : c.isDigit = false) : c ∉ cs := by
  intro hmem
  have hdigit := (word_eq_ok_iff.1 h).2.1 c hmem
  rw [hc] at hdigit
  cases hdigit

end Decimal

namespace Payout

/-- A split that can be paid out: the threshold is neither zero nor above the number of keys, so
there is one at least, and every key can stand between commas. -/
structure Valid (k : Payout) : Prop where
  threshold_pos : 0 < k.threshold.toNat
  threshold_le : k.threshold.toNat ≤ k.keys.length
  keys : ∀ key ∈ k.keys, key ≠ "" ∧ ',' ∉ key.toList

/-- A valid split has a key, since its threshold is at least one. -/
theorem Valid.keys_ne_nil {k : Payout} (h : k.Valid) : k.keys ≠ [] :=
  List.length_pos_iff.1 (Nat.lt_of_lt_of_le h.threshold_pos h.threshold_le)

/-! ### Keys -/

/-- The pieces are the keys, as long as the last one is not empty. -/
theorem keyPieces_intercalate {keys : List (List Char)} (hne : keys ≠ [])
    (h : ∀ key ∈ keys, key ≠ [] ∧ ',' ∉ key) : keyPieces ([','].intercalate keys) = keys := by
  have hpieces : Text.pieces ',' ([','].intercalate keys) = keys := by
    rw [Text.pieces_eq_splitOn]
    exact List.splitOn_intercalate ',' (fun key hkey => (h key hkey).2) hne
  have hlast : keys.getLast? ≠ some [] := fun hnil => (h [] (List.mem_of_getLast? hnil)).1 rfl
  simp only [keyPieces, hpieces, if_neg hlast]

/-- No key has a comma in it. -/
theorem comma_not_mem_of_mem_keyPieces {cs key : List Char} (h : key ∈ keyPieces cs) :
    ',' ∉ key := by
  simp only [keyPieces] at h
  split_ifs at h
  · exact Text.separator_not_mem (List.mem_of_mem_dropLast h)
  · exact Text.separator_not_mem h

/-! ### Reading -/

/-- The three parts of a text that has the layout of a split. -/
structure Parts (text : String) (share threshold keys : List Char) : Prop where
  text : text.toList = share ++ ',' :: (threshold ++ ':' :: keys)
  comma : ',' ∉ share
  colon : ':' ∉ share
  colon' : ':' ∉ threshold

/-- **A text has the layout or is refused for it.** -/
theorem exists_parts_or_layout (text : String) :
    (∃ share threshold keys, Parts text share threshold keys) ∨
      parse text = .error (.layout text) := by
  by_cases hcomma : ',' ∈ text.toList
  · obtain ⟨share, rest, htext, hshare⟩ := List.eq_append_cons_of_mem hcomma
    have hcut : text.toList.takeWhile (· ≠ ',') = share ∧
        text.toList.drop (share.length + 1) = rest := by
      rw [htext]
      exact ⟨Text.takeWhile_front hshare rest, Text.drop_front ',' share rest⟩
    by_cases hcolon : ':' ∈ rest ∧ ':' ∉ share
    · obtain ⟨threshold, keys, rfl, hthreshold⟩ := List.eq_append_cons_of_mem hcolon.1
      exact .inl ⟨share, threshold, keys, htext, hshare, hcolon.2, hthreshold⟩
    · refine .inr ?_
      have hlayout : (!text.toList.contains ',' || !rest.contains ':' || share.contains ':') =
          true := by
        simpa [hcomma, imp_iff_not_or] using hcolon
      simp only [parse, hcut, if_pos hlayout]
      rfl
  · refine .inr ?_
    simp only [parse]
    rw [if_pos (by simp [hcomma])]
    rfl

/-- What is left to check of a text with the layout. -/
theorem Parts.parse_eq {text : String} {share threshold keys : List Char}
    (h : Parts text share threshold keys) : parse text = (do
      let share ← number "share" share
      let threshold ← number "m" threshold
      if (keyPieces keys).any List.isEmpty then throw (.emptyKey text)
      if (keyPieces keys).isEmpty then throw (.noKeys text)
      if threshold = 0 || (keyPieces keys).length < threshold.toNat then throw (.threshold text)
      return { share, threshold, keys := (keyPieces keys).map String.ofList }) := by
  have hcomma : text.toList.contains ',' = true := by rw [h.text]; simp
  have hcolon : (threshold ++ ':' :: keys).contains ':' = true := by simp
  have hshare : share.contains ':' = false := by simpa using h.colon
  simp only [parse, h.text, Text.takeWhile_front h.comma, Text.drop_front,
    Text.takeWhile_front h.colon']
  rw [← h.text]
  simp only [hcomma, hcolon, hshare]
  rfl

/-- The two numbers are read alike, whatever they are called in a message. -/
theorem number_eq_ok_iff {what : String} {part : List Char} {w : UInt64} :
    number what part = .ok w ↔ Decimal.word part = .ok w := by
  unfold number
  split
  next n h => rw [h, Except.ok.injEq, Except.ok.injEq]
  next h => exact iff_of_false nofun fun hok => nomatch h.symm.trans hok
  next h => exact iff_of_false nofun fun hok => nomatch h.symm.trans hok

/-- The checks on the threshold and the pieces are those for a valid split. -/
theorem valid_ofPieces_iff {share threshold : UInt64} {pieces : List (List Char)}
    (hcomma : ∀ piece ∈ pieces, ',' ∉ piece) :
    Valid { share, threshold, keys := pieces.map String.ofList } ↔
      ¬ pieces.any List.isEmpty ∧ ¬ pieces.isEmpty ∧
        ¬ (threshold = 0 || pieces.length < threshold.toNat) := by
  have hpos : 0 < threshold.toNat ↔ threshold ≠ 0 := by
    rw [Nat.pos_iff_ne_zero, ne_eq, ne_eq, ← UInt64.toNat_inj, UInt64.toNat_zero]
  have hbounds : ¬ (threshold = 0 || pieces.length < threshold.toNat) ↔
      0 < threshold.toNat ∧ threshold.toNat ≤ pieces.length := by
    simp [hpos]
  rw [hbounds]
  constructor
  · intro h
    have hlength : threshold.toNat ≤ pieces.length := by simpa using h.threshold_le
    refine ⟨fun hempty => ?_, fun hnil => ?_, h.threshold_pos, hlength⟩
    · obtain ⟨piece, hpiece, hnil⟩ := List.any_eq_true.1 hempty
      obtain rfl := List.isEmpty_iff.1 hnil
      exact (h.keys "" (List.mem_map_of_mem hpiece)).1 rfl
    · obtain rfl := List.isEmpty_iff.1 hnil
      exact h.keys_ne_nil rfl
  · rintro ⟨hempty, -, hthreshold, hlength⟩
    refine ⟨hthreshold, by simpa using hlength, fun key hkey => ?_⟩
    obtain ⟨piece, hpiece, rfl⟩ := List.mem_map.1 hkey
    rw [String.toList_ofList]
    refine ⟨fun hnil => hempty (List.any_eq_true.2 ⟨piece, hpiece, ?_⟩), hcomma piece hpiece⟩
    rw [← String.toList_inj, String.toList_ofList] at hnil
    exact List.isEmpty_iff.2 hnil

/-- A text is read by its parts, and refused if what is read is not valid. -/
theorem Parts.parse_eq_ok_iff {text : String} {share threshold keys : List Char}
    (h : Parts text share threshold keys) {k : Payout} : parse text = .ok k ↔
      Decimal.word share = .ok k.share ∧ Decimal.word threshold = .ok k.threshold ∧
        k.keys = (keyPieces keys).map String.ofList ∧ k.Valid := by
  have hcomma : ∀ piece ∈ keyPieces keys, ',' ∉ piece := fun _ => comma_not_mem_of_mem_keyPieces
  rw [h.parse_eq]
  simp only [bind_eq_ok_iff, number_eq_ok_iff, refuse_eq_ok_iff]
  constructor
  · rintro ⟨s, hs, t, ht, hempty, hnone, hbounds, h⟩
    obtain rfl := Except.ok.inj h
    exact ⟨hs, ht, rfl, (valid_ofPieces_iff hcomma).2 ⟨hempty, hnone, hbounds⟩⟩
  · rintro ⟨hs, ht, hkeys, hvalid⟩
    obtain ⟨s, t, _⟩ := k
    obtain rfl := hkeys
    obtain ⟨hempty, hnone, hbounds⟩ := (valid_ofPieces_iff hcomma).1 hvalid
    exact ⟨s, hs, t, ht, hempty, hnone, hbounds, rfl⟩

/-- **A text is a split** if its parts are two numbers and a list of keys that make a valid one. -/
theorem parse_eq_ok_iff {text : String} {k : Payout} : parse text = .ok k ↔
    ∃ share threshold keys, Parts text share threshold keys ∧
      Decimal.word share = .ok k.share ∧ Decimal.word threshold = .ok k.threshold ∧
      k.keys = (keyPieces keys).map String.ofList ∧ k.Valid := by
  constructor
  · intro h
    rcases exists_parts_or_layout text with ⟨share, threshold, keys, hparts⟩ | hlayout
    · exact ⟨share, threshold, keys, hparts, hparts.parse_eq_ok_iff.1 h⟩
    · cases hlayout.symm.trans h
  · rintro ⟨share, threshold, keys, hparts, h⟩
    exact hparts.parse_eq_ok_iff.2 h

/-- Only valid splits are read. -/
theorem valid_of_parse {text : String} {k : Payout} (h : parse text = .ok k) : k.Valid := by
  obtain ⟨-, -, -, -, -, -, -, hvalid⟩ := parse_eq_ok_iff.1 h
  exact hvalid

/-! ### Writing -/

/-- A split is written with commas between its keys. -/
theorem toList_render (k : Payout) : k.render.toList =
    Nat.toDigits 10 k.share.toNat ++ ',' :: (Nat.toDigits 10 k.threshold.toNat ++
      ':' :: [','].intercalate (k.keys.map String.toList)) := by
  have hcomma : (toString ",").toList = [','] := rfl
  have hcolon : (toString ":").toList = [':'] := rfl
  simp only [render, String.toList_append, String.toList_intercalate, Nat.toString_eq_repr,
    Nat.toList_repr, hcomma, hcolon, List.append_assoc, List.singleton_append]
  rfl

/-- The text of a split has its layout, whatever the keys are: its first comma and its first colon
stand behind numbers. -/
theorem parts_render (k : Payout) : Parts k.render (Nat.toDigits 10 k.share.toNat)
    (Nat.toDigits 10 k.threshold.toNat) ([','].intercalate (k.keys.map String.toList)) where
  text := k.toList_render
  comma := Decimal.not_mem_of_word (Decimal.word_toDigits k.share) rfl
  colon := Decimal.not_mem_of_word (Decimal.word_toDigits k.share) rfl
  colon' := Decimal.not_mem_of_word (Decimal.word_toDigits k.threshold) rfl

/-- Valid keys are taken apart as they were joined. -/
theorem Valid.keyPieces_keys {k : Payout} (h : k.Valid) :
    (keyPieces ([','].intercalate (k.keys.map String.toList))).map String.ofList = k.keys := by
  rw [keyPieces_intercalate (mt List.map_eq_nil_iff.1 h.keys_ne_nil), List.map_map]
  · exact List.map_id'' (fun _ => String.ofList_toList) k.keys
  · intro cs hcs
    obtain ⟨key, hkey, rfl⟩ := List.mem_map.1 hcs
    exact ⟨mt String.toList_eq_nil_iff.1 (h.keys key hkey).1, (h.keys key hkey).2⟩

/-- **A split is read back from its text if and only if it is valid.** -/
theorem parse_render_iff {k : Payout} : parse k.render = .ok k ↔ k.Valid := by
  refine ⟨valid_of_parse, fun h => k.parts_render.parse_eq_ok_iff.2 ⟨?_, ?_, ?_, h⟩⟩
  · exact Decimal.word_toDigits k.share
  · exact Decimal.word_toDigits k.threshold
  · exact h.keyPieces_keys.symm

end Payout
end ProofMiner
