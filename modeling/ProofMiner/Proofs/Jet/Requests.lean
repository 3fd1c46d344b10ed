/-
# What becomes of the text of a request

The text of a request is a value, or it is malformed, or a number in it is too large for a double. A
value is answered with a result of some status (`request_of_parse`), and so is a malformed text
(`request_of_malformed`). The third refusal is passed on to the caller, so that a request has a result
if and only if no number is in its way (`request_answered_iff`). One element of a list of field elements
is enough for that, although every other wrong element is answered as malformed arguments.
-/

import Mathlib
import ProofMiner.Proofs.Jet.Arguments
import ProofMiner.Proofs.Json.Faults

namespace ProofMiner
namespace Jet
namespace Registry

variable (r : Registry) {text : String}

/-- A value is answered: without the name of an operation the operation is unknown, and arguments of
a wrong shape are malformed. -/
theorem request_of_parse {j : Json} (h : Json.parse text.toList = .ok j) :
    ∃ result r', r.request text = (.ok result, r') ∧
      ((j.get? "op").bind Json.string? = none → result.status = .unknownOperation ∧ r' = r) ∧
      (∀ name, (j.get? "op").bind Json.string? = some name → ¬ Args.WellShaped j →
        result.status = .malformedArguments ∧ r' = r) := by
  unfold request
  rw [h]
  dsimp only
  cases hop : (j.get? "op").bind Json.string? with
  | none => exact ⟨_, _, rfl, fun _ => ⟨rfl, rfl⟩, nofun⟩
  | some name =>
    cases hargs : Args.ofJson j with
    | error fault => exact ⟨_, _, rfl, nofun, fun _ _ _ => ⟨rfl, rfl⟩⟩
    | ok a =>
      exact ⟨_, _, rfl, nofun, fun _ _ hshape => absurd (Args.wellShaped_of_ofJson hargs) hshape⟩

/-- A text that is no JSON is answered as malformed arguments. -/
theorem request_of_malformed (h : Json.parse text.toList = .error .malformed) :
    ∃ message, r.request text = (.ok (.failed .malformedArguments message), r) := by
  unfold request
  rw [h]
  exact ⟨_, rfl⟩

/-- A number that is too large even for a double is not answered. -/
theorem request_of_tooLarge (h : Json.parse text.toList = .error .numberTooLarge) :
    r.request text = (.error .numberTooLarge, r) := by
  unfold request
  rw [h]

variable (text)

/-- **A request has a result unless a number is too large.** A text that is no value is answered as
malformed arguments and changes nothing, but for the texts with such a number: these are passed on to
the caller, and a number literal in the text is the cause. -/
theorem request_answered_iff :
    ((∃ result, (r.request text).1 = .ok result) ↔
      Json.parse text.toList ≠ .error .numberTooLarge) ∧
    ((∃ j, Json.parse text.toList = .ok j) ∨
      (∃ message, r.request text = (.ok (.failed .malformedArguments message), r)) ∨
      (r.request text = (.error .numberTooLarge, r) ∧
        ∃ tail, tail <:+ text.toList ∧ Json.Overflows tail)) := by
  cases h : Json.parse text.toList with
  | ok j =>
    obtain ⟨result, r', hrequest, -⟩ := request_of_parse r h
    exact ⟨⟨fun _ => nofun, fun _ => ⟨result, by rw [hrequest]⟩⟩, .inl ⟨j, rfl⟩⟩
  | error fault =>
    rcases Json.parse_error_cases h with rfl | ⟨rfl, hcause⟩
    · obtain ⟨message, hrequest⟩ := request_of_malformed r h
      exact ⟨⟨fun _ => nofun, fun _ => ⟨_, by rw [hrequest]⟩⟩, .inr (.inl ⟨message, hrequest⟩)⟩
    · have hrequest := request_of_tooLarge r h
      refine ⟨⟨fun ⟨result, hresult⟩ => ?_, fun hne => absurd rfl hne⟩,
        .inr (.inr ⟨hrequest, hcause⟩)⟩
      rw [hrequest] at hresult
      cases hresult

/-- The sum of two field elements, the second of which is too large even for a double. -/
def overflowingRequest : String := "\x7b\"op\":\"badd\",\"belts\":[1,1e999]\x7d"

/-- Its fault is passed on to the caller. -/
theorem overflowingRequest_unanswered :
    ¬ ∃ result, (({} : Registry).request overflowingRequest).1 = .ok result := by
  have hparse : Json.parse overflowingRequest.toList = .error .numberTooLarge := by cbv
  rintro ⟨result, hresult⟩
  rw [request_of_tooLarge {} hparse] at hresult
  cases hresult

end Registry
end Jet
end ProofMiner
