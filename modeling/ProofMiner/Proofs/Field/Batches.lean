/-
# A list inverted with one inversion

Going forward, each element is kept with the product of those before it, and in the end the product
of all is inverted. Going backward, the inverse of the product up to the current element is carried:
times the product that is kept with the element it is the inverse of the element, and times the
element it is the inverse to carry on with (`unwind`).

Both passes meet in one invariant. Let the forward pass come to a part at the end of the list with
the product `acc` of what is before it. When the backward pass has done that part, it has the
inverses of its elements and carries the inverse of `acc` (`foldr_unwind`).
-/

import ProofMiner.Proofs.Field.Residues

namespace ProofMiner
namespace Goldilocks

/-- A step back over an element that is kept with the product of those before it. -/
def unwind (kept : Goldilocks × Goldilocks) (done : List Goldilocks × Goldilocks) :
    List Goldilocks × Goldilocks :=
  ((kept.2 * done.2) :: done.1, done.2 * kept.1)

/-- Without a zero the products have an inverse, and the way back begins there. -/
theorem batchInverse_of_not_mem {xs : List Goldilocks} (h : 0 ∉ xs) :
    batchInverse xs = .ok ((xs.zip (prefixProducts 1 xs).1).foldr unwind
      ([], (prefixProducts 1 xs).2⁻¹)).1 := by
  rw [batchInverse, if_neg (by simpa using h)]
  rfl

/-- The inverse of the product of an element and those before it is taken apart. -/
theorem unwind_inv_mul {acc x : Goldilocks} (hacc : acc ≠ 0) (hx : x ≠ 0) (done : List Goldilocks) :
    unwind (x, acc) (done, (acc * x)⁻¹) = (x⁻¹ :: done, acc⁻¹) := by
  have hinverse : acc * (acc * x)⁻¹ = x⁻¹ := by
    rw [mul_inv, ← mul_assoc, mul_inv_cancel₀ hacc, one_mul]
  have hcarried : (acc * x)⁻¹ * x = acc⁻¹ := by
    rw [mul_inv, mul_assoc, inv_mul_cancel₀ hx, mul_one]
  rw [unwind, hinverse, hcarried]

/-- **The passes over a part at the end**, with the product `acc` before it. -/
theorem foldr_unwind {xs : List Goldilocks} (h : 0 ∉ xs) {acc : Goldilocks} (hacc : acc ≠ 0) :
    (xs.zip (prefixProducts acc xs).1).foldr unwind ([], (prefixProducts acc xs).2⁻¹) =
      (xs.map (·⁻¹), acc⁻¹) := by
  induction xs generalizing acc with
  | nil => rfl
  | cons x xs ih =>
    rw [List.mem_cons, not_or] at h
    have hx : x ≠ 0 := Ne.symm h.1
    have hrest := ih h.2 (mul_ne_zero hacc hx)
    show unwind (x, acc) ((xs.zip (prefixProducts (acc * x) xs).1).foldr unwind
      ([], (prefixProducts (acc * x) xs).2⁻¹)) = _
    rw [hrest, unwind_inv_mul hacc hx, List.map_cons]

/-- Without a zero each element is replaced by its inverse. -/
theorem batchInverse_eq_map {xs : List Goldilocks} (h : 0 ∉ xs) :
    batchInverse xs = .ok (xs.map (·⁻¹)) := by
  rw [batchInverse_of_not_mem h, foldr_unwind h one_ne_zero]

/-- One zero is enough for the whole batch to be refused. -/
theorem batchInverse_of_mem {xs : List Goldilocks} (h : 0 ∈ xs) :
    batchInverse xs = .error .invertBatchWithZero := by
  rw [batchInverse, if_pos (by simpa using h)]

/-- **A batch is refused if and only if there is a zero in it**, and else every element is
inverted, as it would be alone. -/
theorem batch_inverts_each (xs : List Goldilocks) :
    ((∃ fault, batchInverse xs = .error fault ∧ fault.kind = .divisionByZero) ↔ 0 ∈ xs) ∧
    (0 ∉ xs → ∃ ys, batchInverse xs = .ok ys ∧ ys.length = xs.length ∧
      ∀ (i : ℕ) (x : Goldilocks), xs[i]? = some x →
        ∃ y, ys[i]? = some y ∧ x * y = 1 ∧ x.inverse = .ok y) := by
  refine ⟨⟨?_, fun h => ⟨_, batchInverse_of_mem h, rfl⟩⟩, fun h => ?_⟩
  · rintro ⟨fault, hfault, -⟩
    by_contra h
    cases hfault.symm.trans (batchInverse_eq_map h)
  · refine ⟨_, batchInverse_eq_map h, List.length_map _, fun i x hx => ?_⟩
    have hne : x ≠ 0 := by
      rintro rfl
      exact h (List.mem_of_getElem? hx)
    refine ⟨x⁻¹, ?_, mul_inv_self hne, inverse_of_ne_zero hne⟩
    rw [List.getElem?_map, hx]
    rfl

/-- Three elements, the greatest one among them. -/
theorem batch_inverts_each_three : (0 : Goldilocks) ∉ [7, -1, 2] ∧
    ∃ ys, batchInverse [7, -1, 2] = .ok ys ∧ ys.length = 3 ∧
      ∃ y, ys[1]? = some y ∧ -1 * y = 1 ∧ inverse (-1) = .ok y := by
  have hmem : (0 : Goldilocks) ∉ [7, -1, 2] := by decide
  obtain ⟨ys, hys, hlength, heach⟩ := (batch_inverts_each [7, -1, 2]).2 hmem
  exact ⟨hmem, ys, hys, hlength, heach 1 (-1) rfl⟩

end Goldilocks
end ProofMiner
