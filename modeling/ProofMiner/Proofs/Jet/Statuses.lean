/-
# The status of a call is decided by its arguments

What an operation computes from its arguments is what a call returns after any history, so the status
of the call is that of the outcome (`status_decided`). Every call is counted for its operation: a
registry has one count for each, and only the call changes it (`Registry.callCount_invoke`).
-/

import ProofMiner.Proofs.Jet.Outcomes
import ProofMiner.Proofs.Jet.Transparency
import ProofMiner.Proofs.Readers

namespace ProofMiner
namespace Jet

/-! ### Lengths in range -/

section Args

variable {a : Args} {p q : Array Goldilocks}

/-- What was read is the operand. -/
theorem Reading.of_ok {α : Type} {x : Operand} {P : α → Prop} {y : α}
    (h : Reading a x P (.ok y)) : P y := by
  cases h with
  | found _ hy => exact hy

/-- The polynomial of a shift is the first one. -/
theorem Args.bpoly_of_shift {offset : Goldilocks} (h : a.shift = .ok (p, offset)) :
    a.bpolys[0]? = some p := by
  obtain ⟨x, -, h⟩ := bind_eq_ok_iff.1 h
  obtain ⟨p, hp, h⟩ := bind_eq_ok_iff.1 h
  cases h
  exact (hp ▸ reading_bpoly a 0).of_ok

/-- The two polynomials are the first two. -/
theorem Args.bpolys_of_twoBpolys (h : a.twoBpolys = .ok (p, q)) :
    a.bpolys[0]? = some p ∧ a.bpolys[1]? = some q := by
  obtain ⟨q, hq, h⟩ := bind_eq_ok_iff.1 h
  obtain ⟨p, hp, h⟩ := bind_eq_ok_iff.1 h
  cases h
  exact ⟨(hp ▸ reading_bpoly a 0).of_ok, (hq ▸ reading_bpoly a 1).of_ok⟩

end Args

/-- The lengths that an operation works with are in range too. -/
theorem InRange.fits {op : Op} {a : Args} (h : InRange op a) : Fits op a := by
  cases op with
  | bpShift =>
    intro p offset hargs _
    exact h.size_le p (List.mem_of_getElem? (Args.bpoly_of_shift hargs))
  | bpMul =>
    intro p q hargs
    obtain ⟨hp, hq⟩ := Args.bpolys_of_twoBpolys hargs
    exact nextPowerOfTwo_le (h.product_le rfl p q hp hq)
  | _ => trivial

/-! ### Counts of calls -/

/-- There are 33 operations. -/
theorem Op.index_lt (op : Op) : op.index < 33 := by
  cases op <;> decide

/-- Each has a counter of its own. -/
theorem Op.index_injective : Function.Injective Op.index := fun op op' h =>
  Option.some.inj (by rw [← ofIndex?_index op, h, ofIndex?_index])

/-- Each is found by its name. -/
theorem Op.ofName?_name (op : Op) : ofName? op.name = some op := by
  cases op <;> decide

namespace Registry

variable (t : Tuning) (mode : CacheMode) (events : List Event) (op : Op) (a : Args)

/-- No call adds or drops a counter. -/
theorem size_calls_invoke (r : Registry) : (r.invoke op a).2.calls.size = r.calls.size :=
  Array.size_modify ..

theorem size_calls_after (r : Registry) (e : Event) : (r.after e).calls.size = r.calls.size := by
  cases e with
  | invoke op a => exact size_calls_invoke op a r
  | invokeIndex index a =>
    rw [after, invokeIndex]
    cases Op.ofIndex? index with
    | none => rfl
    | some op => exact size_calls_invoke op a r
  | invokeName name a =>
    rw [after, invokeName]
    cases Op.ofName? name with
    | none => rfl
    | some op => exact size_calls_invoke op a r
  | request q => rfl

/-- There is one count for each operation. By induction on the events. -/
theorem size_calls_ofHistory : (ofHistory t mode events).calls.size = 33 := by
  have hrun : ∀ r : Registry, (events.foldl after r).calls.size = r.calls.size := by
    induction events with
    | nil => exact fun _ => rfl
    | cons e events ih => exact fun r => (ih (r.after e)).trans (size_calls_after r e)
  exact hrun _

/-- **A call is counted** for its operation and for no other. -/
theorem callCount_invoke {r : Registry} (h : r.calls.size = 33) (op' : Op) :
    (r.invoke op a).2.callCount op' = r.callCount op' + if op' = op then 1 else 0 := by
  change (r.calls.modify op.index (· + 1)).getD op'.index 0 = _
  rw [callCount, Array.getD_eq_getD_getElem?, Array.getD_eq_getD_getElem?, Array.getElem?_modify]
  have hlt : op'.index < r.calls.size := h ▸ op'.index_lt
  by_cases heq : op' = op
  · subst heq
    simp [hlt]
  · rw [if_neg fun hi => heq (Op.index_injective hi.symm), if_neg heq]
    rfl

end Registry

/-- **The status of a call is decided by its arguments**, after any history. The call is malformed
if and only if a field that its operation reads is missing; otherwise it has another status than ok
if and only if the operation declines these arguments with this status; and if there is nothing to
decline it gives a value of the sort of the operation. No other status occurs, the internal error in
particular. The call is counted for its operation and for no other, and it is the same call by the
index and by the name of the operation. -/
theorem status_decided (t : Tuning) (mode : CacheMode) (events : List Event) (op : Op) (a : Args)
    (h : InRange op a) :
    let r := Registry.ofHistory t mode events
    ((r.invoke op a).1.status = .malformedArguments ↔ ∃ x ∈ op.reads, ¬ x.Present a) ∧
    ((∀ x ∈ op.reads, x.Present a) →
      (∀ s, s ≠ .ok → ((r.invoke op a).1.status = s ↔ Declined a op s)) ∧
      ((∀ s, ¬ Declined a op s) → ∃ v, (r.invoke op a).1 = .ok v ∧ v.sort = op.sort)) ∧
    (r.invoke op a).1.status ≠ .internalError ∧
    (∀ op', (r.invoke op a).2.callCount op' = r.callCount op' + if op' = op then 1 else 0) ∧
    r.invokeIndex op.index a = r.invoke op a ∧ r.invokeName op.name a = r.invoke op a := by
  intro r
  have hout : Outcome a op op.reads (evaluate .sequential op a) := outcome_evaluate .sequential h
  have hfst : (r.invoke op a).1 = .ofExcept (evaluate .sequential op a) :=
    Registry.invoke_fst (Registry.reachable_ofHistory t mode events) h.fits
  rw [hfst]
  refine ⟨hout.malformed_iff, fun hpresent => ⟨fun s hs => hout.declined_iff hpresent hs,
    hout.value_of_not_declined hpresent⟩, hout.status_ne_internalError,
    Registry.callCount_invoke op a (Registry.size_calls_ofHistory t mode events), ?_, ?_⟩
  · rw [Registry.invokeIndex, Op.ofIndex?_index]
  · rw [Registry.invokeName, Op.ofName?_name]

/-- The hypothesis is satisfiable: values on a coset with offset zero, sent to a registry that has
declined a call before. -/
theorem status_decided_zeroOffset :
    InRange .bpIntercosate { order := some 2, offset := some 0, bpolys := [#[3, 4]] } ∧
    ((Registry.ofHistory {} .populate [.invoke .bpIntercosate {}]).invoke .bpIntercosate
      { order := some 2, offset := some 0, bpolys := [#[3, 4]] }).1.status = .invalidArgument ∧
    ((Registry.ofHistory {} .populate [.invoke .bpIntercosate {}]).invoke .bpIntercosate
      { order := some 2, offset := some 0, bpolys := [#[3, 4]] }).2.callCount .bpIntercosate =
        2 := by
  have hrange : InRange .bpIntercosate
      { order := some 2, offset := some 0, bpolys := [#[3, 4]] } := by
    refine ⟨?_, ?_, nofun⟩
    · rintro n ⟨⟩
      decide
    · intro p hp
      obtain rfl := List.mem_singleton.1 hp
      decide
  obtain ⟨-, hpresent, -, hcount, -⟩ := status_decided {} .populate
    [.invoke .bpIntercosate {}] .bpIntercosate _ hrange
  obtain ⟨hdeclined, -⟩ := hpresent (by simp [Op.reads, Operand.Present])
  exact ⟨hrange, (hdeclined _ (by decide)).2 ⟨2, #[3, 4], 0, rfl, rfl, rfl,
    .inr (.inr ⟨⟨1, rfl⟩, rfl, rfl, rfl⟩)⟩,
    hcount .bpIntercosate⟩

end Jet
end ProofMiner
