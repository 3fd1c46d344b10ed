/-
# A printed value is read back

The printer appends to a text; `chars` is what it appends, as a list of characters
(`toList_render`). The reader is followed along that list: first inside a string, where each
character is written as one escape or as itself (`readString_quoted`), then through a number, which
ends where its digits end (`readNumber_unsigned`, `readNumber_signed`), then through arrays and
objects by induction on the value (`reads_canonical`). The bound on the calls of the reader is never
met: a value takes at most two calls for each of its characters.

What comes back is the value that was printed if it is `Canonical`: its integers are marked as signed
only when they are negative, the members of its objects are in key order, and it holds no double.
Behind it the input has to end, with the text or before a NUL (`parse_render_append_iff`).
-/

import Mathlib.Data.Int.Notation
import Mathlib.Data.List.Basic
import ProofMiner.Json.Parser
import ProofMiner.Json.Printer
import ProofMiner.Proofs.Json.Members

namespace ProofMiner
namespace Json

/-! ### The characters of a printed value -/

/-- The characters of a quoted text. -/
def quoted (s : String) : List Char := '"' :: s.toList.flatMap escapeChar ++ ['"']

mutual

/-- The characters of a value. -/
def chars : Json → List Char
  | .null => ['n', 'u', 'l', 'l']
  | .bool true => ['t', 'r', 'u', 'e']
  | .bool false => ['f', 'a', 'l', 's', 'e']
  | .unsigned n => (toString n.toNat).toList
  | .signed n => (toString n.toInt).toList
  | .float x => (floatLayout.renderFloat x).toList
  | .string s => quoted s
  | .array [] => ['[', ']']
  | .array (x :: xs) => '[' :: chars x ++ charsItems xs ++ [']']
  | .object [] => ['\x7b', '\x7d']
  | .object ((key, v) :: members) =>
    '\x7b' :: quoted key ++ ':' :: chars v ++ charsMembers members ++ ['\x7d']

/-- The characters of further items, each after a comma. -/
def charsItems : List Json → List Char
  | [] => []
  | x :: xs => ',' :: chars x ++ charsItems xs

/-- The characters of further members, each after a comma. -/
def charsMembers : List (String × Json) → List Char
  | [] => []
  | (key, v) :: members => ',' :: quoted key ++ ':' :: chars v ++ charsMembers members

end

/-- Printing appends to what was printed. -/
theorem toList_foldl_push (out : String) (cs : List Char) :
    (cs.foldl String.push out).toList = out.toList ++ cs := by
  induction cs generalizing out with
  | nil => simp
  | cons c cs ih => simp [ih]

theorem toList_writeString (out s : String) :
    (writeString out s).toList = out.toList ++ quoted s := by
  have hfold : ∀ (cs : List Char) (out : String),
      (cs.foldl (fun out c => (escapeChar c).foldl String.push out) out).toList =
        out.toList ++ cs.flatMap escapeChar := by
    intro cs
    induction cs with
    | nil => simp
    | cons c cs ih => simp [ih, toList_foldl_push]
  simp [writeString, quoted, String.foldl_eq_foldl_toList, hfold]

mutual

/-- The printer appends the characters of a value. -/
theorem toList_write (out : String) : (j : Json) → (write out j).toList = out.toList ++ chars j
  | .null => by simp [write, chars]
  | .bool true => by simp [write, chars]
  | .bool false => by simp [write, chars]
  | .unsigned n => by simp [write, chars]
  | .signed n => by simp [write, chars]
  | .float x => by simp [write, chars]
  | .string s => by simp [write, chars, toList_writeString]
  | .array [] => by simp [write, chars]
  | .array (x :: xs) => by simp [write, chars, toList_writeItems _ xs, toList_write _ x]
  | .object [] => by simp [write, chars]
  | .object ((key, v) :: members) => by
    simp [write, chars, toList_writeMembers _ members, toList_write _ v, toList_writeString]

theorem toList_writeItems (out : String) :
    (xs : List Json) → (writeItems out xs).toList = out.toList ++ charsItems xs
  | [] => by simp [writeItems, charsItems]
  | x :: xs => by simp [writeItems, charsItems, toList_writeItems _ xs, toList_write _ x]

theorem toList_writeMembers (out : String) : (members : List (String × Json)) →
    (writeMembers out members).toList = out.toList ++ charsMembers members
  | [] => by simp [writeMembers, charsMembers]
  | (key, v) :: members => by
    simp [writeMembers, charsMembers, toList_writeMembers _ members, toList_write _ v,
      toList_writeString]

end

/-- The printed text is the list of characters that the proofs go by. -/
theorem toList_render (j : Json) : (render j).toList = chars j := by
  rw [render, toList_write]
  rfl

/-! ### Strings -/

/-- Reading undoes the escape of one character. -/
theorem readString_escapeChar (acc : List Char) (c : Char) (rest : List Char) :
    readString acc (escapeChar c ++ rest) = readString (c :: acc) rest := by
  unfold escapeChar
  split_ifs with hquote hslash hb ht hn hf hr hcontrol
  · subst hquote; simp [readString, simpleEscape?]
  · subst hslash; simp [readString, simpleEscape?]
  · subst hb; simp [readString, simpleEscape?]
  · subst ht; simp [readString, simpleEscape?]
  · subst hn; simp [readString, simpleEscape?]
  · subst hf; simp [readString, simpleEscape?]
  · subst hr; simp [readString, simpleEscape?]
  · -- a control character is a code unit of two digits, hence no surrogate
    have hunit : codeUnit? '0' '0' (Text.hexDigit (c.toNat / 16)) (Text.hexDigit c.toNat) =
        some c.toNat := by
      have hzero : Text.hexValue? '0' = some 0 := by decide
      have hvalue : c.toNat / 16 % 16 * 16 + c.toNat % 16 = c.toNat := by omega
      simp [codeUnit?, hzero, Text.hexValue?_hexDigit, hvalue]
    have hhigh : isHighSurrogate c.toNat = false := by
      simp only [isHighSurrogate, Bool.and_eq_false_iff, decide_eq_false_iff_not]
      omega
    have hlow : isLowSurrogate c.toNat = false := by
      simp only [isLowSurrogate, Bool.and_eq_false_iff, decide_eq_false_iff_not]
      omega
    simp [readString, hunit, hhigh, hlow, Char.ofNat_toNat]
  · simp [readString, hslash, hcontrol]

/-- A string is read back to its closing quote, by induction on its characters. -/
theorem readString_flatMap (acc cs rest : List Char) :
    readString acc (cs.flatMap escapeChar ++ '"' :: rest) =
      .ok (String.ofList (acc.reverse ++ cs), rest) := by
  induction cs generalizing acc with
  | nil => simp [readString]
  | cons c cs ih =>
    rw [List.flatMap_cons, List.append_assoc, readString_escapeChar, ih]
    simp

/-- **A quoted text is read back**, whatever its characters. -/
theorem readString_quoted (s : String) (rest : List Char) :
    readString [] (s.toList.flatMap escapeChar ++ '"' :: rest) = .ok (s, rest) := by
  rw [readString_flatMap, List.reverse_nil, List.nil_append, String.ofList_toList]

/-! ### Numbers -/

/-- What may stand behind a number: nothing, or a character with which no number goes on. -/
def Ends (rest : List Char) : Prop :=
  ∀ c ∈ rest.head?, c.isDigit = false ∧ c ≠ '.' ∧ c ≠ 'e' ∧ c ≠ 'E'

section Numbers

variable {rest : List Char}

/-- None of these characters goes on with a number. -/
theorem ends_cons {c : Char} (hc : c.isDigit = false ∧ c ≠ '.' ∧ c ≠ 'e' ∧ c ≠ 'E')
    (rest : List Char) : Ends (c :: rest) := by
  rintro _ ⟨⟩
  exact hc

/-- Digits are read up to the end of the number. -/
theorem readDigits_append {ds : List Char} (hds : ∀ d ∈ ds, d.isDigit) (h : Ends rest) :
    readDigits (ds ++ rest) = (ds, rest) := by
  have hrest : rest.takeWhile Char.isDigit = [] ∧ rest.dropWhile Char.isDigit = rest := by
    cases rest with
    | nil => simp
    | cons c tail => simp [(h c rfl).1]
  rw [readDigits, List.takeWhile_append_of_pos hds, List.dropWhile_append_of_pos hds, hrest.1,
    hrest.2, List.append_nil]

/-- There is neither a fraction nor an exponent where a number ends. -/
theorem readFraction_ends (h : Ends rest) : readFraction rest = .ok (none, rest) := by
  unfold readFraction
  split
  next tail => exact absurd rfl (h '.' rfl).2.1
  next => rfl

theorem readExponent_ends (h : Ends rest) : readExponent rest = .ok (none, rest) := by
  cases rest with
  | nil => rfl
  | cons c tail => simp [readExponent, (h c rfl).2.2]

theorem isDigit_of_mem_toDigits {n : ℕ} {d : Char} (hd : d ∈ Nat.toDigits 10 n) : d.isDigit :=
  Nat.isDigit_of_mem_toDigits (by decide) (by decide) hd

/-- A number has a first digit. -/
theorem toDigits_cases (n : ℕ) : ∃ d ds, Nat.toDigits 10 n = d :: ds ∧ d.isDigit := by
  cases h : Nat.toDigits 10 n with
  | nil => exact absurd h Nat.toDigits_ne_nil
  | cons d ds => exact ⟨d, ds, rfl, isDigit_of_mem_toDigits (h ▸ List.mem_cons_self)⟩

/-- The digits of a number other than zero do not begin with a zero. -/
theorem head?_toDigits_ne_zero {n : ℕ} (hn : 0 < n) : (Nat.toDigits 10 n).head? ≠ some '0' := by
  induction n using Nat.strongRecOn with
  | _ n ih =>
    rw [Nat.toDigits_eq_if (by decide)]
    split
    next hlt =>
      have hall : ∀ m < 10, 0 < m → m.digitChar ≠ '0' := by decide
      simpa using hall n hlt hn
    next hge =>
      rw [List.head?_append_of_ne_nil _ Nat.toDigits_ne_nil]
      exact ih (n / 10) (by omega) (by omega)

/-- Digits are read as the number that they were printed from. -/
theorem value_toDigits (n : ℕ) : Decimal.value (Nat.toDigits 10 n) = n := by
  have hfold := Nat.ofDigitChars_toDigits (b := 10) (n := n) (by decide) (by decide)
  rwa [Nat.ofDigitChars_eq_foldl] at hfold

/-- A number is printed without zeros before it, so that all its digits are read. -/
theorem readWhole_toDigits (n : ℕ) (h : Ends rest) :
    readWhole (Nat.toDigits 10 n ++ rest) = .ok (Nat.toDigits 10 n, rest) := by
  rcases Nat.eq_zero_or_pos n with rfl | hn
  · rfl
  · have hhead := head?_toDigits_ne_zero hn
    unfold readWhole
    split
    next cs tail heq =>
      obtain ⟨d, ds, hds, -⟩ := toDigits_cases n
      rw [hds] at heq hhead
      simp_all
    next =>
      rw [readSomeDigits, readDigits_append (fun d => isDigit_of_mem_toDigits) h]
      simp [Nat.toDigits_ne_nil]

/-- An unsigned word is read back. -/
theorem readNumber_unsigned (n : UInt64) (h : Ends rest) :
    readNumber (Nat.toDigits 10 n.toNat ++ rest) = .ok (.unsigned n, rest) := by
  obtain ⟨d, ds, hdigits, hd⟩ := toDigits_cases n.toNat
  have hwhole := readWhole_toDigits n.toNat h
  have hvalue := value_toDigits n.toNat
  have hsign : d ≠ '-' := by rintro rfl; revert hd; decide
  have hlt : n.toNat < UInt64.size := n.toNat_lt
  rw [hdigits, List.cons_append] at hwhole ⊢
  rw [hdigits] at hvalue
  simp [readNumber, hsign, hwhole, readFraction_ends h, readExponent_ends h, number, hvalue, hlt,
    bind, Except.bind, pure, Except.pure]

theorem toInt_neg {n : Int64} (hn : n < 0) : n.toInt < 0 := Int64.lt_iff_toInt_lt.1 hn

/-- A negative word is read back, down to the least one. -/
theorem readNumber_signed {n : Int64} (hn : n < 0) (h : Ends rest) :
    readNumber ('-' :: Nat.toDigits 10 n.toInt.natAbs ++ rest) = .ok (.signed n, rest) := by
  have hwhole := readWhole_toDigits n.toInt.natAbs h
  have hvalue := value_toDigits n.toInt.natAbs
  have hneg := toInt_neg hn
  have hge : -2 ^ 63 ≤ n.toInt := n.le_toInt
  have hle : 2 * n.toInt.natAbs ≤ UInt64.size := by
    have hsize : UInt64.size = 18446744073709551616 := rfl
    omega
  have hback : Int64.ofInt (-(n.toInt.natAbs : ℤ)) = n := by
    have habs : -(n.toInt.natAbs : ℤ) = n.toInt := by omega
    rw [habs, Int64.ofInt_toInt]
  rw [List.cons_append]
  simp only [readNumber, hwhole, readFraction_ends h, readExponent_ends h, bind, Except.bind, number,
    hvalue, if_pos hle, hback, pure, Except.pure]
  simp

theorem chars_unsigned (n : UInt64) : chars (.unsigned n) = Nat.toDigits 10 n.toNat := by
  rw [chars]
  exact Nat.toList_repr

/-- Only negative words are signed in what is canonical. -/
theorem chars_signed {n : Int64} (hn : n < 0) :
    chars (.signed n) = '-' :: Nat.toDigits 10 n.toInt.natAbs := by
  obtain ⟨m, hm⟩ := Int.eq_negSucc_of_lt_zero (toInt_neg hn)
  rw [chars, hm]
  change ("-" ++ (m + 1).repr).toList = '-' :: Nat.toDigits 10 (m + 1)
  rw [String.toList_append, Nat.toList_repr]
  rfl

/-- A digit or a minus opens a number. -/
theorem readValue_of_number {c : Char} (hc : c.isDigit ∨ c = '-') (fuel : ℕ) (cs : List Char) :
    readValue (fuel + 1) (c :: cs) = readNumber (c :: cs) := by
  unfold readValue
  split <;> simp_all

end Numbers

/-! ### Values -/

/-- A value in the form in which it is read: an integer has the mark of a signed one only if it is
negative, the members of an object are in key order, and no number is a double. -/
inductive Canonical : Json → Prop
  | null : Canonical .null
  | bool (b : Bool) : Canonical (.bool b)
  | unsigned (n : UInt64) : Canonical (.unsigned n)
  | signed {n : Int64} (h : n < 0) : Canonical (.signed n)
  | string (s : String) : Canonical (.string s)
  | array {items : List Json} (h : ∀ x ∈ items, Canonical x) : Canonical (.array items)
  | object {members : List (String × Json)} (hkeys : (members.map Prod.fst).Pairwise (· < ·))
      (h : ∀ m ∈ members, Canonical m.2) : Canonical (.object members)

/-- A character that a value may begin with, as far as the reader asks before it reads one. -/
structure Opens (c : Char) : Prop where
  not_blank : isBlank c = false
  not_closing : c ≠ ']'
  not_mark : c ≠ '\ufeff'

theorem opens_of_isDigit {d : Char} (hd : d.isDigit) : Opens d := by
  have hne (c : Char) (hc : c.isDigit = false) : d ≠ c := by
    rintro rfl
    simp [hd] at hc
  constructor
  · simp [isBlank, hne ' ', hne '\t', hne '\n', hne '\r']
  · exact hne ']' rfl
  · exact hne '\ufeff' rfl

/-- No value is printed as nothing, and none begins with a blank. -/
theorem chars_cases {j : Json} (h : Canonical j) : ∃ c cs, chars j = c :: cs ∧ Opens c := by
  cases h with
  | unsigned n =>
    obtain ⟨d, ds, hds, hd⟩ := toDigits_cases n.toNat
    exact ⟨d, ds, (chars_unsigned n).trans hds, opens_of_isDigit hd⟩
  | signed hn => exact ⟨_, _, chars_signed hn, rfl, by decide, by decide⟩
  | bool b => cases b <;> exact ⟨_, _, rfl, rfl, by decide, by decide⟩
  | @array items h => cases items <;> exact ⟨_, _, rfl, rfl, by decide, by decide⟩
  | @object members hkeys h => cases members <;> exact ⟨_, _, rfl, rfl, by decide, by decide⟩
  | _ => exact ⟨_, _, rfl, rfl, by decide, by decide⟩

theorem skipBlanks_cons {c : Char} (hc : isBlank c = false) (cs : List Char) :
    skipBlanks (c :: cs) = c :: cs := List.dropWhile_cons_of_neg (by simp [hc])

/-- No blanks are skipped before a printed value. -/
theorem skipBlanks_chars {j : Json} (h : Canonical j) (rest : List Char) :
    skipBlanks (chars j ++ rest) = chars j ++ rest := by
  obtain ⟨c, cs, hcs, hc⟩ := chars_cases h
  rw [hcs, List.cons_append, skipBlanks_cons hc.not_blank]

/-- The reader takes a value from the front of its characters, with two calls for each of them. -/
def Reads (j : Json) : Prop := ∀ fuel rest, 2 * (chars j).length ≤ fuel → Ends rest →
  readValue fuel (chars j ++ rest) = .ok (j, rest)

/-- A value has a character, so there is a call to be made. -/
theorem reads_of_succ {j : Json} (h : Canonical j)
    (hread : ∀ fuel rest, 2 * (chars j).length ≤ fuel + 1 → Ends rest →
      readValue (fuel + 1) (chars j ++ rest) = .ok (j, rest)) : Reads j := by
  intro fuel rest hfuel hrest
  obtain ⟨c, cs, hcs, -⟩ := chars_cases h
  have hlen : (chars j).length = cs.length + 1 := by rw [hcs, List.length_cons]
  obtain ⟨fuel, rfl⟩ : ∃ m, fuel = m + 1 := ⟨fuel - 1, by omega⟩
  exact hread fuel rest hfuel hrest

/-- Items are read one after the other. By induction on those after the first. -/
theorem readItems_chars {x : Json} {xs : List Json}
    (hreads : ∀ y ∈ x :: xs, Canonical y ∧ Reads y) (acc : List Json) (fuel : ℕ)
    (rest : List Char) (hfuel : 2 * (chars x ++ charsItems xs).length + 1 ≤ fuel) :
    readItems fuel acc (chars x ++ charsItems xs ++ ']' :: rest) =
      .ok (.array (acc.reverse ++ x :: xs), rest) := by
  induction xs generalizing x acc fuel with
  | nil =>
    simp only [charsItems, List.append_nil] at hfuel
    obtain ⟨fuel, rfl⟩ : ∃ m, fuel = m + 1 := ⟨fuel - 1, by omega⟩
    have hx := (hreads x List.mem_cons_self).2 fuel (']' :: rest) (by omega) (ends_cons (by decide) _)
    simp [readItems, charsItems, hx, skipBlanks_cons, isBlank, bind, Except.bind, pure, Except.pure]
  | cons y ys ih =>
    have hy := (hreads y (by simp)).1
    simp only [charsItems, List.length_append, List.length_cons] at hfuel
    obtain ⟨fuel, rfl⟩ : ∃ m, fuel = m + 1 := ⟨fuel - 1, by omega⟩
    have hx := (hreads x List.mem_cons_self).2 fuel
      (',' :: (chars y ++ (charsItems ys ++ ']' :: rest))) (by omega) (ends_cons (by decide) _)
    have htail := ih (fun z hz => hreads z (List.mem_cons_of_mem x hz)) (x :: acc) fuel
      (by simp only [List.length_append]; omega)
    simp only [List.append_assoc] at htail
    simp [readItems, charsItems, hx, skipBlanks_cons, isBlank, skipBlanks_chars hy, htail, bind,
      Except.bind]

/-- An array is read back if its items are. -/
theorem reads_array {items : List Json} (hreads : ∀ y ∈ items, Canonical y ∧ Reads y) :
    Reads (.array items) := by
  refine reads_of_succ (.array fun y hy => (hreads y hy).1) fun fuel rest hfuel _ => ?_
  cases items with
  | nil => simp [readValue, chars, skipBlanks_cons, isBlank]
  | cons x xs =>
    have hx := (hreads x List.mem_cons_self).1
    simp only [chars, List.cons_append, List.length_cons, List.length_append, List.length_nil]
      at hfuel
    have hread := readItems_chars hreads [] fuel rest
      (by simp only [List.length_append]; omega)
    have hskip := skipBlanks_chars hx (charsItems xs ++ ']' :: rest)
    obtain ⟨c, cs, hcs, hc⟩ := chars_cases hx
    rw [hcs] at hskip hread
    simp only [List.cons_append, List.append_assoc, List.reverse_nil, List.nil_append]
      at hskip hread
    simp [readValue, chars, hcs, hskip, hc.not_closing, hread]

/-- Members are read one after the other and stay in their order. By induction on those after the
first. -/
theorem readMembers_chars {key : String} {v : Json} {members : List (String × Json)}
    (hreads : ∀ m ∈ (key, v) :: members, Canonical m.2 ∧ Reads m.2) {acc : List (String × Json)}
    (hkeys : ((acc ++ (key, v) :: members).map Prod.fst).Pairwise (· < ·)) (fuel : ℕ)
    (rest : List Char)
    (hfuel : 2 * (quoted key ++ ':' :: chars v ++ charsMembers members).length + 1 ≤ fuel) :
    readMembers fuel acc (quoted key ++ ':' :: chars v ++ charsMembers members ++ '\x7d' :: rest) =
      .ok (.object (acc ++ (key, v) :: members), rest) := by
  induction members generalizing key v acc fuel with
  | nil =>
    obtain ⟨hv, hread⟩ : Canonical v ∧ Reads v := hreads (key, v) List.mem_cons_self
    simp only [charsMembers, List.append_nil, List.length_append, List.length_cons] at hfuel
    obtain ⟨fuel, rfl⟩ : ∃ m, fuel = m + 1 := ⟨fuel - 1, by omega⟩
    have hx := hread fuel ('\x7d' :: rest) (by omega) (ends_cons (by decide) _)
    simp [readMembers, quoted, readString_quoted, charsMembers, hx, skipBlanks_cons, isBlank,
      skipBlanks_chars hv, insertMember_of_pairwise hkeys, bind, Except.bind, pure, Except.pure]
  | cons m ms ih =>
    obtain ⟨key', v'⟩ := m
    obtain ⟨hv, hread⟩ : Canonical v ∧ Reads v := hreads (key, v) List.mem_cons_self
    simp only [charsMembers, List.cons_append, List.length_append, List.length_cons] at hfuel
    obtain ⟨fuel, rfl⟩ : ∃ m, fuel = m + 1 := ⟨fuel - 1, by omega⟩
    have hx := hread fuel
      (',' :: (quoted key' ++ (':' :: chars v' ++ (charsMembers ms ++ '\x7d' :: rest))))
      (by omega) (ends_cons (by decide) _)
    have hkeys' : ((acc ++ [(key, v)] ++ (key', v') :: ms).map Prod.fst).Pairwise (· < ·) := by
      rwa [List.append_assoc, List.singleton_append]
    have htail := ih (fun m hm => hreads m (List.mem_cons_of_mem _ hm)) hkeys' fuel
      (by simp only [List.length_append, List.length_cons]; omega)
    simp only [quoted, List.cons_append, List.nil_append, List.append_assoc] at htail hx
    simp [readMembers, quoted, readString_quoted, charsMembers, hx, skipBlanks_cons, isBlank,
      skipBlanks_chars hv, insertMember_of_pairwise hkeys, htail, bind, Except.bind]

/-- An object is read back if its values are, since its keys are sorted. -/
theorem reads_object {members : List (String × Json)}
    (hkeys : (members.map Prod.fst).Pairwise (· < ·))
    (hreads : ∀ m ∈ members, Canonical m.2 ∧ Reads m.2) : Reads (.object members) := by
  refine reads_of_succ (.object hkeys fun m hm => (hreads m hm).1) fun fuel rest hfuel _ => ?_
  match members with
  | [] => simp [readValue, chars, skipBlanks_cons, isBlank]
  | (key, v) :: ms =>
    simp only [chars, List.cons_append, List.length_cons, List.length_append, List.length_nil]
      at hfuel
    have hkeys' : (([] ++ (key, v) :: ms).map Prod.fst).Pairwise (· < ·) := hkeys
    have hread := readMembers_chars hreads hkeys' fuel rest
      (by simp only [List.length_append, List.length_cons]; omega)
    simp only [quoted, List.cons_append, List.nil_append, List.append_assoc] at hread
    simp [readValue, chars, quoted, skipBlanks_cons, isBlank, hread]

/-- **A canonical value is taken from the front of its characters.** By induction on the value. -/
theorem reads_canonical {j : Json} (h : Canonical j) : Reads j := by
  induction h with
  | null => exact reads_of_succ .null fun fuel rest _ _ => rfl
  | bool b => exact reads_of_succ (.bool b) fun fuel rest _ _ => by cases b <;> rfl
  | string s =>
    refine reads_of_succ (.string s) fun fuel rest _ _ => ?_
    simp [readValue, chars, quoted, readString_quoted, bind, Except.bind, pure, Except.pure]
  | unsigned n =>
    refine reads_of_succ (.unsigned n) fun fuel rest _ hrest => ?_
    obtain ⟨d, ds, hds, hd⟩ := toDigits_cases n.toNat
    have hread := readNumber_unsigned n hrest
    rw [hds, List.cons_append] at hread
    rw [chars_unsigned, hds, List.cons_append, readValue_of_number (.inl hd), hread]
  | signed hn =>
    refine reads_of_succ (.signed hn) fun fuel rest _ hrest => ?_
    rw [chars_signed hn, List.cons_append, readValue_of_number (.inr rfl)]
    exact readNumber_signed hn hrest
  | array h ih => exact reads_array fun x hx => ⟨h x hx, ih x hx⟩
  | object hkeys h ih => exact reads_object hkeys fun m hm => ⟨h m hm, ih m hm⟩

/-- The input ends with the text, or before a NUL. -/
theorem inputEnds_iff {cs : List Char} : inputEnds cs = true ↔ cs = [] ∨ ∃ more, cs = '\x00' :: more := by
  cases cs with
  | nil => exact iff_of_true rfl (.inl rfl)
  | cons c more => simp [inputEnds]

/-- **A canonical value is read off the front of a text** if and only if the input ends behind it: nothing but
blanks follows, or what follows the blanks begins with a NUL. -/
theorem parse_render_append_iff {j : Json} (h : Canonical j) {rest : List Char} (hrest : Ends rest) :
    parse ((render j).toList ++ rest) = .ok j ↔
      skipBlanks rest = [] ∨ ∃ more, skipBlanks rest = '\x00' :: more := by
  have hread := reads_canonical h (2 * (chars j ++ rest).length + 2) rest
    (by rw [List.length_append]; omega) hrest
  have hblank := skipBlanks_chars h rest
  have hmark : skipMark (chars j ++ rest) = chars j ++ rest := by
    obtain ⟨c, cs, hcs, hc⟩ := chars_cases h
    rw [hcs, List.cons_append]
    unfold skipMark
    split
    next heq => exact absurd (List.cons.inj heq).1 hc.not_mark
    next => rfl
  rw [parse, readText, toList_render, hmark, hblank, hread, ← inputEnds_iff]
  change (if inputEnds (skipBlanks rest) = true then pure j else throw .malformed : Except Fault Json) =
    .ok j ↔ _
  split_ifs with hends
  · exact iff_of_true rfl hends
  · exact iff_of_false (fun heq => by cases heq) hends

/-- **A canonical value comes back from its text.** -/
theorem parse_render {j : Json} (h : Canonical j) : parse (render j).toList = .ok j := by
  have hends : Ends [] := nofun
  have hparse := (parse_render_append_iff h hends).2 (.inl rfl)
  rwa [List.append_nil] at hparse

/-- **Nothing behind a NUL is read**: the value before it is the value of the text. -/
theorem parse_render_nul {j : Json} (h : Canonical j) (more : List Char) :
    parse ((render j).toList ++ '\x00' :: more) = .ok j :=
  (parse_render_append_iff h (ends_cons (by decide) more)).2 (.inr ⟨more, rfl⟩)

/-- A member can be put into a canonical object. -/
theorem Canonical.insertMember {key : String} {v : Json} {members : List (String × Json)}
    (hmembers : Canonical (.object members)) (hv : Canonical v) :
    Canonical (.object (insertMember key v members)) := by
  cases hmembers with
  | object hkeys h =>
    refine .object (pairwise_insertMember hkeys v) fun m hm => ?_
    rcases mem_insertMember hm with rfl | hm
    · exact hv
    · exact h m hm

end Json
end ProofMiner
