/-
# Why a text is refused

A reader leaves an end of its text, or it refuses the text for one of two reasons: it is malformed, or
a number in it is too large for a double (`Outcome`). The second reason has its place: a number literal
that overflows begins somewhere in the text (`Overflows`).

Sequencing two readers keeps this (`Outcome.bind`), and so does reading on from an end of the text
(`Outcome.of_suffix`). From these the readers of the parts of a number follow one by one, and those of
values, items and members together, by induction on the bound of their calls (`outcome_readers`).
-/

import Mathlib.Data.Int.Notation
import Mathlib.Data.List.Infix
import ProofMiner.Json.Parser

namespace ProofMiner
namespace Json

/-- What becomes of reading `cs`: an end of it is left, or it is malformed, or a number is too large
in an end of it with the property `P`. -/
inductive Outcome {α : Type} (P : List Char → Prop) (cs : List Char) :
    Except Fault (α × List Char) → Prop
  | read (x : α) {rest : List Char} (h : rest <:+ cs) : Outcome P cs (.ok (x, rest))
  | malformed : Outcome P cs (.error .malformed)
  | tooLarge {tail : List Char} (h : tail <:+ cs) (hp : P tail) :
    Outcome P cs (.error .numberTooLarge)

section

variable {α β : Type} {P : List Char → Prop} {cs tail rest : List Char}

/-- What is said of the end of a text is said of the text. -/
theorem Outcome.of_suffix {r : Except Fault (α × List Char)} (h : Outcome P tail r)
    (htail : tail <:+ cs) : Outcome P cs r := by
  cases h with
  | read x h => exact .read x (h.trans htail)
  | malformed => exact .malformed
  | tooLarge h hp => exact .tooLarge (h.trans htail) hp

/-- A sequence of readers has an outcome if both parts have. -/
theorem Outcome.bind {r : Except Fault (α × List Char)}
    {next : α × List Char → Except Fault (β × List Char)} (h : Outcome P cs r)
    (hnext : ∀ x rest, rest <:+ cs → Outcome P cs (next (x, rest))) :
    Outcome P cs (r >>= next) := by
  cases h with
  | read x h => exact hnext x _ h
  | malformed => exact .malformed
  | tooLarge h hp => exact .tooLarge h hp

/-- Readers go from the front to the back. -/
theorem skipBlanks_suffix (cs : List Char) : skipBlanks cs <:+ cs := List.dropWhile_suffix _

/-- What follows a character after blanks. -/
theorem suffix_of_skipBlanks {c : Char} (heq : skipBlanks rest = c :: tail) (h : rest <:+ cs) :
    tail <:+ cs :=
  (List.suffix_cons c tail).trans ((heq ▸ skipBlanks_suffix rest).trans h)

/-! ### Strings and the parts of a number -/

/-- Strings and digits are malformed or read, whatever is meant by a number that is too large. -/
theorem outcome_readString (acc cs : List Char) : Outcome P cs (readString acc cs) := by
  fun_induction readString acc cs with
  | case1 => exact .read _ (List.suffix_cons _ _)
  | case3 _ _ _ _ _ _ _ _ _ _ _ _ _ _ _ _ ih =>
    exact ih.of_suffix ⟨[_, _, _, _, _, _, _, _, _, _, _, _], rfl⟩
  | case8 _ _ _ _ _ _ _ _ _ _ ih => exact ih.of_suffix ⟨[_, _, _, _, _, _], rfl⟩
  | case9 _ _ _ _ _ _ ih => exact ih.of_suffix ⟨[_, _], rfl⟩
  | case12 _ _ _ _ _ _ _ ih => exact ih.of_suffix (List.suffix_cons _ _)
  | _ => exact .malformed

theorem outcome_readSomeDigits (cs : List Char) : Outcome P cs (readSomeDigits cs) := by
  rw [readSomeDigits, readDigits]
  dsimp only
  split
  · exact .malformed
  · exact .read _ (List.dropWhile_suffix _)

theorem outcome_readWhole (cs : List Char) : Outcome P cs (readWhole cs) := by
  unfold readWhole
  split
  · exact .read _ (List.suffix_cons _ _)
  · exact outcome_readSomeDigits _

theorem outcome_readFraction (cs : List Char) : Outcome P cs (readFraction cs) := by
  unfold readFraction
  split
  · exact .bind ((outcome_readSomeDigits _).of_suffix (List.suffix_cons _ _)) fun ds rest h =>
      .read _ h
  · exact .read _ List.suffix_rfl

theorem outcome_readExponent (cs : List Char) : Outcome P cs (readExponent cs) := by
  unfold readExponent
  split
  · split
    · dsimp only
      refine .bind ((outcome_readSomeDigits _).of_suffix ?_) fun ds rest h => .read _ h
      split
      · exact ⟨[_, _], rfl⟩
      · exact ⟨[_, _], rfl⟩
      · exact List.suffix_cons _ _
    · exact .read _ List.suffix_rfl
  · exact .read _ List.suffix_rfl

end

/-! ### Numbers -/

/-- The value of a number literal fails only by its size. -/
theorem number_cases (negative : Bool) (whole : List Char) (fraction : Option (List Char))
    (exponent : Option ℤ) : (∃ j, number negative whole fraction exponent = .ok j) ∨
      number negative whole fraction exponent = .error .numberTooLarge := by
  unfold number
  dsimp only
  -- every branch ends in a value or in that fault
  repeat' split
  all_goals first | exact .inl ⟨_, rfl⟩ | exact .inr rfl

/-- A number literal begins here, and its value is too large for a double. -/
def Overflows (cs : List Char) : Prop := readNumber cs = .error .numberTooLarge

/-- A number is the only thing that can be too large. -/
theorem outcome_readNumber (cs : List Char) : Outcome Overflows cs (readNumber cs) := by
  -- first without the place, which is that of the whole literal
  have hany : Outcome (fun _ => True) cs (readNumber cs) := by
    unfold readNumber
    refine .bind ((outcome_readWhole _).of_suffix ?_) fun whole rest h => ?_
    · split
      · exact List.suffix_cons _ _
      · exact List.suffix_rfl
    · refine .bind ((outcome_readFraction _).of_suffix h) fun fraction rest h => ?_
      refine .bind ((outcome_readExponent _).of_suffix h) fun exponent rest h => ?_
      dsimp only
      rcases number_cases _ whole fraction exponent with ⟨j, hj⟩ | hj
      · rw [hj]
        exact .read j h
      · rw [hj]
        exact .tooLarge List.suffix_rfl trivial
  generalize hr : readNumber cs = r at hany
  cases hany with
  | read x h => exact .read x h
  | malformed => exact .malformed
  | tooLarge h _ => exact .tooLarge List.suffix_rfl hr

/-! ### Values -/

/-- **The readers of values, items and members** refuse a text for no other reason. By induction on
the bound of their calls. -/
theorem outcome_readers (fuel : ℕ) :
    (∀ cs, Outcome Overflows cs (readValue fuel cs)) ∧
    (∀ acc cs, Outcome Overflows cs (readItems fuel acc cs)) ∧
    (∀ acc cs, Outcome Overflows cs (readMembers fuel acc cs)) := by
  induction fuel with
  | zero => exact ⟨fun _ => .malformed, fun _ _ => .malformed, fun _ _ => .malformed⟩
  | succ fuel ih =>
    obtain ⟨hvalue, hitems, hmembers⟩ := ih
    refine ⟨fun cs => ?_, fun acc cs => ?_, fun acc cs => ?_⟩
    · unfold readValue
      split
      next => exact .read _ ⟨[_, _, _, _], rfl⟩
      next => exact .read _ ⟨[_, _, _, _], rfl⟩
      next => exact .read _ ⟨[_, _, _, _, _], rfl⟩
      next =>
        exact .bind ((outcome_readString [] _).of_suffix (List.suffix_cons _ _)) fun s rest h =>
          .read _ h
      next rest =>
        have hrest := List.suffix_cons '[' rest
        split
        next heq => exact .read _ (suffix_of_skipBlanks heq hrest)
        next => exact (hitems _ _).of_suffix ((skipBlanks_suffix _).trans hrest)
      next rest =>
        have hrest := List.suffix_cons '\x7b' rest
        split
        next heq => exact .read _ (suffix_of_skipBlanks heq hrest)
        next => exact (hmembers _ _).of_suffix ((skipBlanks_suffix _).trans hrest)
      next => exact outcome_readNumber _
    · rw [readItems]
      refine .bind (hvalue cs) fun v rest h => ?_
      dsimp only
      split
      next heq =>
        exact (hitems _ _).of_suffix ((skipBlanks_suffix _).trans (suffix_of_skipBlanks heq h))
      next heq => exact .read _ (suffix_of_skipBlanks heq h)
      next => exact .malformed
    · unfold readMembers
      split
      next =>
        refine .bind ((outcome_readString [] _).of_suffix (List.suffix_cons _ _))
          fun key rest h => ?_
        dsimp only
        split
        next heq =>
          have htail := (skipBlanks_suffix _).trans (suffix_of_skipBlanks heq h)
          refine .bind ((hvalue _).of_suffix htail) fun v rest h => ?_
          dsimp only
          split
          next heq =>
            exact (hmembers _ _).of_suffix
              ((skipBlanks_suffix _).trans (suffix_of_skipBlanks heq h))
          next heq => exact .read _ (suffix_of_skipBlanks heq h)
          next => exact .malformed
        next => exact .malformed
      next => exact .malformed

theorem skipMark_suffix (cs : List Char) : skipMark cs <:+ cs := by
  unfold skipMark
  split
  · exact List.suffix_cons _ _
  · exact List.suffix_rfl

/-- **A text is read, malformed, or has a number that is too large.** -/
theorem outcome_readText (cs : List Char) : Outcome Overflows cs (readText cs) :=
  ((outcome_readers _).1 _).of_suffix ((skipBlanks_suffix _).trans (skipMark_suffix cs))

/-- **Why a text is no value**: it is malformed, or a number literal in it overflows. -/
theorem parse_error_cases {cs : List Char} {e : Fault} (h : parse cs = .error e) :
    e = .malformed ∨ (e = .numberTooLarge ∧ ∃ tail, tail <:+ cs ∧ Overflows tail) := by
  have hout := outcome_readText cs
  unfold parse at h
  generalize readText cs = r at h hout
  cases hout with
  | read x hrest =>
    dsimp only [bind, Except.bind] at h
    split at h
    · cases h
    · exact .inl (Except.error.inj h).symm
  | malformed => exact .inl (Except.error.inj h).symm
  | tooLarge htail hover => exact .inr ⟨(Except.error.inj h).symm, _, htail, hover⟩

/-- The same for a text of which only the first value is read. -/
theorem parseFirst_error_cases {cs : List Char} {e : Fault} (h : parseFirst cs = .error e) :
    e = .malformed ∨ (e = .numberTooLarge ∧ ∃ tail, tail <:+ cs ∧ Overflows tail) := by
  have hout := outcome_readText cs
  unfold parseFirst at h
  generalize readText cs = r at h hout
  cases hout with
  | read x hrest => cases h
  | malformed => exact .inl (Except.error.inj h).symm
  | tooLarge htail hover => exact .inr ⟨(Except.error.inj h).symm, _, htail, hover⟩

end Json
end ProofMiner
