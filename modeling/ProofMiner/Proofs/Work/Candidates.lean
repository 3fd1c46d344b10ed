/-
# Candidates in JSON

A candidate is read if and only if the text is an object in which every member is the number, or the
elements, of its field (`ofJson_eq_ok_iff`). The members of the right shape are those for which
there is such a candidate (`wellShaped_iff`), so that texts of any other shape are refused, and a
member is never cut or wrapped to make it fit.

The members that a candidate is written as are such members, and the printed text is the object
again.
-/

import ProofMiner.Proofs.Work.Records
import ProofMiner.Work.Candidate

namespace ProofMiner
namespace Candidate

open Json (Canonical IsBelow IsArrayOf)
open Record (IsNumber IsNumberOr AreElements)

/-- The object has a member for each field that has no default, and every member that it has under
the name of a field is the value of that field. Other members may be anything. -/
structure Spelled (c : Candidate) (j : Json) : Prop where
  isObject : j.isObject = true
  id : ∃ v, j.get? "id" = some v ∧ IsNumber c.id.toNat v
  commitment : ∃ v, j.get? "commitment" = some v ∧ AreElements c.commitment v
  nonceStart : IsNumberOr 0 c.nonceStart.toNat (j.get? "nonce_start")
  nonceCount : IsNumberOr 1 c.nonceCount.toNat (j.get? "nonce_count")
  target : ∃ v, j.get? "target" = some v ∧ IsNumber c.target.toNat v
  log2TraceLength : IsNumberOr 6 c.log2TraceLength.toNat (j.get? "log2_trace_length")

/-- An object with the members of a candidate. -/
structure WellShaped (j : Json) : Prop where
  isObject : j.isObject = true
  id : ∃ v, j.get? "id" = some v ∧ IsBelow (2 ^ 64) v
  commitment : ∃ v, j.get? "commitment" = some v ∧ IsArrayOf (IsBelow modulus.toNat) v
  nonceStart : ∀ v, j.get? "nonce_start" = some v → IsBelow (2 ^ 64) v
  nonceCount : ∀ v, j.get? "nonce_count" = some v → IsBelow (2 ^ 64) v
  target : ∃ v, j.get? "target" = some v ∧ IsBelow (2 ^ 64) v
  log2TraceLength : ∀ v, j.get? "log2_trace_length" = some v → IsBelow (2 ^ 32) v

/-- **Every member of the right shape is a value of its field.** -/
theorem wellShaped_iff {j : Json} : WellShaped j ↔ ∃ c : Candidate, c.Spelled j := by
  constructor
  · rintro ⟨hobject, ⟨v, hv, hid⟩, ⟨u, hu, hcommitment⟩, hstart, hcount, ⟨w, hw, htarget⟩, hlog⟩
    obtain ⟨id, hid⟩ := Record.covers_word.isBelow_iff.1 hid
    obtain ⟨commitment, hcommitment⟩ := Record.isArrayOf_iff.1 hcommitment
    obtain ⟨nonceStart, hstart⟩ := (Record.covers_word.optional_iff 0).1 hstart
    obtain ⟨nonceCount, hcount⟩ := (Record.covers_word.optional_iff 1).1 hcount
    obtain ⟨target, htarget⟩ := Record.covers_word.isBelow_iff.1 htarget
    obtain ⟨log2TraceLength, hlog⟩ := (Record.covers_halfWord.optional_iff 6).1 hlog
    exact ⟨{ id, commitment, nonceStart, nonceCount, target, log2TraceLength },
      ⟨hobject, ⟨v, hv, hid⟩, ⟨u, hu, hcommitment⟩, hstart, hcount, ⟨w, hw, htarget⟩, hlog⟩⟩
  · rintro ⟨c, hobject, ⟨v, hv, hid⟩, ⟨u, hu, hcommitment⟩, hstart, hcount, ⟨w, hw, htarget⟩, hlog⟩
    exact ⟨hobject, ⟨v, hv, Record.covers_word.isBelow_iff.2 ⟨_, hid⟩⟩,
      ⟨u, hu, Record.isArrayOf_iff.2 ⟨_, hcommitment⟩⟩,
      (Record.covers_word.optional_iff 0).2 ⟨_, hstart⟩,
      (Record.covers_word.optional_iff 1).2 ⟨_, hcount⟩,
      ⟨w, hw, Record.covers_word.isBelow_iff.2 ⟨_, htarget⟩⟩,
      (Record.covers_halfWord.optional_iff 6).2 ⟨_, hlog⟩⟩

/-- **A candidate is read if and only if the object spells it out.** -/
theorem ofJson_eq_ok_iff {j : Json} {c : Candidate} : ofJson j = .ok c ↔ c.Spelled j := by
  unfold ofJson
  cases hobject : j.isObject with
  | false => exact ⟨nofun, fun h => nomatch hobject.symm.trans h.isObject⟩
  | true =>
    simp only [Bool.not_true, Bool.false_eq_true, if_false, bind_eq_ok_iff,
      Record.wordMember_eq_ok_iff, Record.member_eq_ok_iff, Record.elements_eq_ok_iff,
      Record.wordMemberD_eq_ok_iff]
    constructor
    · rintro ⟨id, hid, u, hu, commitment, hcommitment, start, hstart, count, hcount, target,
        htarget, h⟩
      -- the last member is read where the candidate is put together
      cases hlog : j.get? "log2_trace_length" with
      | none =>
        simp only [hlog] at h
        obtain rfl := Except.ok.inj h
        exact ⟨hobject, hid, ⟨u, hu, hcommitment⟩, hstart, hcount, htarget, by rw [hlog]; rfl⟩
      | some v =>
        simp only [hlog, bind_eq_ok_iff, Record.halfWord_eq_ok_iff] at h
        obtain ⟨n, hn, h⟩ := h
        obtain rfl := Except.ok.inj h
        exact ⟨hobject, hid, ⟨u, hu, hcommitment⟩, hstart, hcount, htarget, by rw [hlog]; exact hn⟩
    · rintro ⟨-, hid, ⟨u, hu, hcommitment⟩, hstart, hcount, htarget, hlast⟩
      refine ⟨_, hid, u, hu, _, hcommitment, _, hstart, _, hcount, _, htarget, ?_⟩
      cases hlog : j.get? "log2_trace_length" with
      | none =>
        rw [hlog] at hlast
        have hdefault : (6 : UInt32) = c.log2TraceLength := UInt32.toNat_inj.1 (Eq.symm hlast)
        simp only [hdefault]
        rfl
      | some v =>
        rw [hlog] at hlast
        simp only [bind_eq_ok_iff, Record.halfWord_eq_ok_iff]
        exact ⟨_, hlast, rfl⟩

/-- A text is read as a candidate if it spells one. -/
theorem parse_eq_ok_iff {cs : List Char} {c : Candidate} :
    parse cs = .ok c ↔ ∃ j, Json.parse cs = .ok j ∧ c.Spelled j := by
  simp only [parse, bind_eq_ok_iff, Record.parse_eq_ok_iff, ofJson_eq_ok_iff]

/-- What is not JSON at all is refused with the reason, as any other text. -/
theorem parse_of_error {cs : List Char} {fault : Json.Fault} (h : Json.parse cs = .error fault) :
    parse cs = .error (.json fault) := by
  rw [parse, Record.parse, h]
  rfl

/-! ### What is written -/

/-- An object spells out the candidate that it is made of. -/
theorem spelled_toJson (c : Candidate) : c.Spelled c.toJson where
  isObject := rfl
  id := ⟨_, rfl, Record.isNumber_unsigned c.id⟩
  commitment := ⟨_, rfl, Record.areElements_ofElements c.commitment⟩
  nonceStart := Record.isNumber_unsigned c.nonceStart
  nonceCount := Record.isNumber_unsigned c.nonceCount
  target := ⟨_, rfl, Record.isNumber_unsigned c.target⟩
  log2TraceLength := Record.isNumber_halfWord c.log2TraceLength

/-- What is written can be printed and parsed. -/
theorem canonical_toJson (c : Candidate) : Canonical c.toJson := by
  have hkeys : ["commitment", "id", "log2_trace_length", "nonce_count", "nonce_start",
      "target"].Pairwise (· < ·) := by decide
  refine .object hkeys fun m hm => ?_
  simp only [List.mem_cons, List.not_mem_nil, or_false] at hm
  rcases hm with rfl | rfl | rfl | rfl | rfl | rfl
  · exact Record.canonical_ofElements c.commitment
  all_goals exact .unsigned _

/-- **A candidate that is written is read back.** -/
theorem parse_render (c : Candidate) : parse c.render.toList = .ok c :=
  parse_eq_ok_iff.2 ⟨c.toJson, Json.parse_render (canonical_toJson c), spelled_toJson c⟩

/-- **Candidates are exact in JSON.** Every candidate is read back from its text. A text is read if
and only if it is an object with members of the right shapes, and what is read has exactly the
numbers of these members, and the defaults for those that are absent. Every other text is refused,
one that is not JSON included. -/
theorem candidates_exact :
    (∀ c : Candidate, parse c.render.toList = .ok c) ∧
    (∀ cs, (∃ c, parse cs = .ok c) ↔ ∃ j, Json.parse cs = .ok j ∧ WellShaped j) ∧
    (∀ cs c, parse cs = .ok c ↔ ∃ j, Json.parse cs = .ok j ∧ c.Spelled j) ∧
    (∀ cs, (∃ c, parse cs = .ok c) ∨ ∃ fault, parse cs = .error fault ∧
      ∀ e, Json.parse cs = .error e → fault = .json e) := by
  refine ⟨parse_render, fun cs => ?_, fun cs c => parse_eq_ok_iff, fun cs => ?_⟩
  · simp only [parse_eq_ok_iff, wellShaped_iff]
    rw [exists_comm]
    simp only [exists_and_left]
  · cases h : parse cs with
    | ok c => exact .inl ⟨c, rfl⟩
    | error fault =>
      refine .inr ⟨fault, rfl, fun e he => ?_⟩
      exact Except.error.inj (h.symm.trans (parse_of_error he))

/-- A text that ends within an array is refused as no JSON. -/
theorem candidates_exact_cut : Json.parse ['[', '1', ','] = .error .malformed ∧
    parse ['[', '1', ','] = .error (.json .malformed) := by
  have hjson : Json.parse ['[', '1', ','] = .error .malformed := by rfl
  refine ⟨hjson, ?_⟩
  obtain ⟨c, hc⟩ | ⟨fault, hfault, hreason⟩ := candidates_exact.2.2.2 ['[', '1', ',']
  · obtain ⟨j, hj, -⟩ := parse_eq_ok_iff.1 hc
    cases hjson.symm.trans hj
  · rw [hfault, hreason _ hjson]

end Candidate
end ProofMiner
