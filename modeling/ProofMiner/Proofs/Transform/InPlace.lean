/-
# Transforms in place

A transform in place replaces the vector only when nothing can fail any more: it leaves what
`forward` and `inverse` give, or fails as they do and leaves the vector as it was
(`run_forwardInPlace`, `run_inverseInPlace`). The inverse transform stores the unscaled sums before
it asks for the inverse of the length. That inverse exists whenever there is a root for the length,
so no caller sees the sums.

For the lengths `2^k` with `k ≤ 32` both succeed, and as the Fourier transform and its inverse undo
each other, so do they, whatever the tuning of each (`transforms_undo`).
-/

import ProofMiner.Proofs.Readers
import ProofMiner.Proofs.Transform.Inversion

namespace ProofMiner

open Goldilocks

/-! ### What is left -/

/-- The outcome of a transform in place: the new vector, or the old one where it fails. -/
def settled (x : Array Goldilocks) :
    Except Fault (Array Goldilocks) → Except Fault Unit × Array Goldilocks
  | .ok y => (.ok (), y)
  | .error fault => (.error fault, x)

section Lengths

variable (t : Tuning) {k : ℕ} (hk : k ≤ 32) {x : Array Goldilocks} (hsize : x.size = 2 ^ k)
include hk hsize

/-- A vector whose length is a power of two is replaced by its transform. -/
theorem run_forwardInPlace_two_pow :
    (forwardInPlace t).run x = (.ok (), dft (towerRoot k) x) := by
  have hlog : transformLog2 x.size = .ok k := by rw [hsize, transformLog2_two_pow (by omega)]
  have hroot : orderedRoot x.size = .ok (towerRoot k) := by rw [hsize, orderedRoot_two_pow hk]
  rw [forwardInPlace, get_bind_run, lift_bind_run_of_ok hlog, lift_bind_run_of_ok hroot,
    lift_bind_run_of_ok (transform_towerRoot t hk hsize)]
  rfl

/-- The inverse transform replaces such a vector in the same way. -/
theorem run_inverseInPlace_two_pow :
    (inverseInPlace t).run x = (.ok (), idft (towerRoot k) x) := by
  have hlog : transformLog2 x.size = .ok k := by rw [hsize, transformLog2_two_pow (by omega)]
  have hroot : orderedRoot x.size = .ok (towerRoot k) := by rw [hsize, orderedRoot_two_pow hk]
  have hfactor : (ofNat x.size).inverse = .ok (x.size : Goldilocks)⁻¹ := by
    rw [hsize, ofNat_two_pow hk, inverse_of_ne_zero (two_pow_ne_zero k)]
  rw [inverseInPlace, get_bind_run, lift_bind_run_of_ok hlog, lift_bind_run_of_ok hroot,
    lift_bind_run_of_ok (inverse_of_ne_zero (towerRoot_ne_zero k)),
    lift_bind_run_of_ok (transform_inv_towerRoot t hk hsize), set_bind_run,
    lift_bind_run_of_ok hfactor]
  change (Except.ok PUnit.unit, scaleEntries t (dft (towerRoot k)⁻¹ x) _) = _
  rw [scaleEntries_eq, idft]

end Lengths

/-- **The forward transform in place** gives what the forward transform gives, or leaves the vector
as it is. -/
theorem run_forwardInPlace (t : Tuning) (x : Array Goldilocks) :
    (forwardInPlace t).run x = settled x (forward t x) := by
  cases hlog : transformLog2 x.size with
  | error fault =>
    rw [forwardInPlace, get_bind_run, lift_bind_run_of_error hlog, forward, hlog]
    rfl
  | ok k =>
    obtain ⟨hlt, hsize⟩ := eq_two_pow_of_transformLog2 hlog
    rcases Nat.lt_or_ge 32 k with hk | hk
    · have hroot : orderedRoot x.size = .error (.orderTooLarge (2 ^ k)) := by
        rw [hsize, orderedRoot_of_lt hk]
      rw [forwardInPlace, get_bind_run, lift_bind_run_of_ok hlog, lift_bind_run_of_error hroot,
        forward_of_lt t hk hlt hsize]
      rfl
    · rw [run_forwardInPlace_two_pow t hk hsize, forward_eq t hk hsize]
      rfl

/-- **The inverse transform in place**, likewise. -/
theorem run_inverseInPlace (t : Tuning) (x : Array Goldilocks) :
    (inverseInPlace t).run x = settled x (inverse t x) := by
  cases hlog : transformLog2 x.size with
  | error fault =>
    rw [inverseInPlace, get_bind_run, lift_bind_run_of_error hlog, inverse, hlog]
    rfl
  | ok k =>
    obtain ⟨hlt, hsize⟩ := eq_two_pow_of_transformLog2 hlog
    rcases Nat.lt_or_ge 32 k with hk | hk
    · have hroot : orderedRoot x.size = .error (.orderTooLarge (2 ^ k)) := by
        rw [hsize, orderedRoot_of_lt hk]
      rw [inverseInPlace, get_bind_run, lift_bind_run_of_ok hlog, lift_bind_run_of_error hroot,
        inverse_of_lt t hk hlt hsize]
      rfl
    · rw [run_inverseInPlace_two_pow t hk hsize, inverse_eq t hk hsize]
      rfl

/-! ### Forth and back -/

/-- **The transforms undo each other in place.** A vector whose length is a power of two up to
`2 ^ 32` is itself again after both transforms, in either order and with any two tunings. For every
other length that is no power of two, such as zero, both fail because of the length and leave the
vector unchanged. -/
theorem transforms_undo (t t' : Tuning) (x : Array Goldilocks) :
    (x.size.isPowerOfTwo → x.size ≤ 2 ^ 32 →
      (do forwardInPlace t; inverseInPlace t').run x = (.ok (), x) ∧
      (do inverseInPlace t; forwardInPlace t').run x = (.ok (), x)) ∧
    (¬ x.size.isPowerOfTwo →
      (forwardInPlace t).run x = (.error (.transformLength x.size), x) ∧
      (inverseInPlace t).run x = (.error (.transformLength x.size), x) ∧
      (Fault.transformLength x.size).kind = .notPowerOfTwo) := by
  refine ⟨fun hpow hle => ?_, fun hpow => ⟨?_, ?_, rfl⟩⟩
  · obtain ⟨k, hk, hsize⟩ := exists_exponent_le hpow hle
    have hvalues : (dft (towerRoot k) x).size = 2 ^ k := by rw [size_dft, hsize]
    have hcoeffs : (idft (towerRoot k) x).size = 2 ^ k := by rw [size_idft, hsize]
    constructor
    · rw [bind_run_of_ok (run_forwardInPlace_two_pow t hk hsize),
        run_inverseInPlace_two_pow t' hk hvalues, idft_dft_towerRoot hk hsize]
    · rw [bind_run_of_ok (run_inverseInPlace_two_pow t hk hsize),
        run_forwardInPlace_two_pow t' hk hcoeffs, dft_idft_towerRoot hk hsize]
  · rw [run_forwardInPlace, forward_of_not_isPowerOfTwo t hpow, settled]
  · rw [run_inverseInPlace, inverse_of_not_isPowerOfTwo t hpow, settled]

/-- The hypotheses are satisfiable: four entries, there in parallel and back in sequence, and the
empty vector. -/
theorem transforms_undo_four :
    (#[3, 1, 4, 1] : Array Goldilocks).size.isPowerOfTwo ∧
    (do forwardInPlace { mode := .parallel, threads := 3 }; inverseInPlace .sequential).run
      #[3, 1, 4, 1] = (.ok (), #[3, 1, 4, 1]) ∧
    ¬ (#[] : Array Goldilocks).size.isPowerOfTwo ∧
    (inverseInPlace .sequential).run #[] = (.error (.transformLength 0), #[]) := by
  have hfour : (#[3, 1, 4, 1] : Array Goldilocks).size.isPowerOfTwo := ⟨2, rfl⟩
  have hempty : ¬ (#[] : Array Goldilocks).size.isPowerOfTwo := by
    rintro ⟨k, hk⟩
    exact (Nat.two_pow_pos k).ne hk
  have hround := (transforms_undo { mode := .parallel, threads := 3 } .sequential
    #[3, 1, 4, 1]).1 hfour (by decide)
  have hrefused := (transforms_undo .sequential .sequential #[]).2 hempty
  exact ⟨hfour, hround.1, hempty, hrefused.2.1⟩

end ProofMiner
