/-
# The transforms on the subgroup of a length

For a length `2^k` with `k ≤ 32` the forward transform is the Fourier transform with the root of the
tower (`forward_eq`) and the inverse transform is its inverse, with the division by the length
(`inverse_eq`). A transform with a table of twiddles does the same as the one with the root that the
table was made from, for any root at all (`transformWithTwiddles_eq`).

No transform depends on the tuning, also where it fails (`transform_tuning`, …).
-/

import ProofMiner.Proofs.Transform.Butterflies
import ProofMiner.Transform.Product

namespace ProofMiner

open Goldilocks

/-! ### The tuning does not show -/

/-- The tuning chooses how the loops run, and shows in none of the results. -/
theorem bitReversePermute_tuning (t t' : Tuning) (data : Array Goldilocks) :
    bitReversePermute t data = bitReversePermute t' data := by
  simp only [bitReversePermute, Tuning.loop_eq_forRange]

theorem runStages_tuning (t t' : Tuning) (bits : ℕ) (tw : Twiddles) (x : Array Goldilocks) :
    runStages t bits tw x = runStages t' bits tw x := by
  simp only [runStages, runStage_eq]

theorem transform_tuning (t t' : Tuning) (input : Array Goldilocks) (root : Goldilocks) :
    transform t input root = transform t' input root := by
  simp only [transform, bitReversePermute_tuning t t', runStages_tuning t t']

/-- Each entry is multiplied. -/
theorem scaleEntries_eq (t : Tuning) (data : Array Goldilocks) (factor : Goldilocks) :
    scaleEntries t data factor = data.map (· * factor) := by
  rw [scaleEntries, Tuning.loop_eq_forRange, forRange_modify]

theorem forward_tuning (t t' : Tuning) (coeffs : Array Goldilocks) :
    forward t coeffs = forward t' coeffs := by
  simp only [forward, transform_tuning t t']

theorem inverse_tuning (t t' : Tuning) (values : Array Goldilocks) :
    inverse t values = inverse t' values := by
  simp only [inverse, transform_tuning t t', scaleEntries_eq]

theorem hadamard_tuning (t t' : Tuning) (a b : Array Goldilocks) :
    hadamard t a b = hadamard t' a b := by
  simp only [hadamard, Tuning.loop_eq_forRange]

/-! ### What they compute -/

/-- The stages take the same twiddles from a table as from its root. -/
theorem runStages_ofTable (t : Tuning) (k : ℕ) (r : Goldilocks) (x : Array Goldilocks) :
    runStages t k (.ofTable (twiddleTable r (2 ^ k))) x = runStages t k (.ofRoot r) x := by
  rw [runStages, runStages]
  refine congrArg (Nat.fold k · x) (funext fun s => funext fun hs => funext fun x => ?_)
  obtain ⟨c, hc⟩ := Nat.exists_eq_add_of_lt hs
  have hgroups : 1 <<< k / (2 * 1 <<< s) = 2 ^ c := by rw [hc, add_assoc, groups_eq]
  have hlen : 2 ^ s * 2 ^ c ≤ 2 ^ k / 2 := by
    rw [hc, pow_succ, Nat.mul_div_cancel _ two_pos, pow_add]
  dsimp only
  rw [hgroups, Nat.one_shiftLeft, Twiddles.stage_ofTable r (Nat.two_pow_pos c) hlen]

section Twiddles

variable (t : Tuning) {k : ℕ} (hk : k < 64) {input table : Array Goldilocks}
  (hsize : input.size = 2 ^ k)
include hk hsize

/-- With a table of the right length the stages read their factors from it. -/
theorem transformWithTwiddles_eq_runStages (htable : table.size = input.size / 2) :
    transformWithTwiddles t input table = .ok (runStages t k (.ofTable table)
      (Array.ofFn fun i : Fin (2 ^ k) => input.getD (reverseBits k i) 0)) := by
  rw [transformWithTwiddles, hsize, transformLog2_two_pow hk, bitReversePermute_eq t hk input hsize]
  simp only [bind, Except.bind, pure, Except.pure, htable, hsize, ne_eq, not_true_eq_false,
    if_false]

/-- A table of another length is refused. -/
theorem transformWithTwiddles_of_size_ne (htable : table.size ≠ input.size / 2) :
    transformWithTwiddles t input table = .error (.twiddleLength table.size input.size) := by
  rw [hsize] at htable
  rw [transformWithTwiddles, hsize, transformLog2_two_pow hk, bitReversePermute_eq t hk input hsize]
  simp only [bind, Except.bind, if_pos htable]
  rfl

/-- **A table of twiddles stands for its root**, primitive or not. -/
theorem transformWithTwiddles_eq (r : Goldilocks) :
    transformWithTwiddles t input (twiddleTable r (2 ^ k)) = transform t input r := by
  have htable : (twiddleTable r (2 ^ k)).size = input.size / 2 := by
    rw [twiddleTable, powers_eq, Array.size_ofFn, hsize]
  rw [transformWithTwiddles_eq_runStages t hk hsize htable, transform_eq_runStages t hk hsize,
    runStages_ofTable]

end Twiddles

/-- The transform with a root of the tower. -/
theorem transform_towerRoot (t : Tuning) {k : ℕ} (hk : k ≤ 32) {input : Array Goldilocks}
    (hsize : input.size = 2 ^ k) :
    transform t input (towerRoot k) = .ok (dft (towerRoot k) input) := by
  refine transform_eq_dft t (by omega) hsize fun l hl => ?_
  subst hl
  exact towerRoot_pow_half hk

/-- The transform with the inverse of a root of the tower. -/
theorem transform_inv_towerRoot (t : Tuning) {k : ℕ} (hk : k ≤ 32) {input : Array Goldilocks}
    (hsize : input.size = 2 ^ k) :
    transform t input (towerRoot k)⁻¹ = .ok (dft (towerRoot k)⁻¹ input) := by
  refine transform_eq_dft t (by omega) hsize fun l hl => ?_
  subst hl
  rw [inv_pow, towerRoot_pow_half hk, inv_neg, inv_one]

/-- **The forward transform.** -/
theorem forward_eq (t : Tuning) {k : ℕ} (hk : k ≤ 32) {coeffs : Array Goldilocks}
    (hsize : coeffs.size = 2 ^ k) : forward t coeffs = .ok (dft (towerRoot k) coeffs) := by
  rw [forward, hsize, transformLog2_two_pow (by omega), orderedRoot_two_pow hk]
  exact transform_towerRoot t hk hsize

/-- A length beyond the tower is refused. -/
theorem forward_of_lt (t : Tuning) {k : ℕ} (hk : 32 < k) (hlt : k < 64) {coeffs : Array Goldilocks}
    (hsize : coeffs.size = 2 ^ k) : forward t coeffs = .error (.orderTooLarge (2 ^ k)) := by
  rw [forward, hsize, transformLog2_two_pow hlt, orderedRoot_of_lt hk]
  rfl

/-- A length that fits the tower is read as itself. -/
theorem ofNat_two_pow {k : ℕ} (hk : k ≤ 32) : ofNat (2 ^ k) = ((2 ^ k : ℕ) : Goldilocks) :=
  ofNat_eq_natCast (Nat.pow_lt_pow_right one_lt_two (by omega))

/-- **The inverse transform.** -/
theorem inverse_eq (t : Tuning) {k : ℕ} (hk : k ≤ 32) {values : Array Goldilocks}
    (hsize : values.size = 2 ^ k) : inverse t values = .ok (idft (towerRoot k) values) := by
  rw [inverse, hsize, transformLog2_two_pow (by omega), orderedRoot_two_pow hk, ofNat_two_pow hk,
    inverse_of_ne_zero (two_pow_ne_zero k), idft, hsize]
  simp only [bind, Except.bind, pure, Except.pure, inverse_of_ne_zero (towerRoot_ne_zero k),
    transform_inv_towerRoot t hk hsize, scaleEntries_eq]

/-- There is no root of such an order. -/
theorem inverse_of_lt (t : Tuning) {k : ℕ} (hk : 32 < k) (hlt : k < 64) {values : Array Goldilocks}
    (hsize : values.size = 2 ^ k) : inverse t values = .error (.orderTooLarge (2 ^ k)) := by
  rw [inverse, hsize, transformLog2_two_pow hlt, orderedRoot_of_lt hk]
  rfl

/-! ### When they fail -/

/-- A transform of a power of two of entries gives something at any root. -/
theorem exists_transform_eq (t : Tuning) {k : ℕ} (hk : k < 64) {input : Array Goldilocks}
    (hsize : input.size = 2 ^ k) (root : Goldilocks) :
    ∃ output, transform t input root = .ok output :=
  ⟨_, transform_eq_runStages t hk hsize root⟩

section Refused

variable (t : Tuning) {x : Array Goldilocks} (h : ¬ x.size.isPowerOfTwo)
include h

/-- No transform takes another length. -/
theorem transform_of_not_isPowerOfTwo (root : Goldilocks) :
    transform t x root = .error (.transformLength x.size) := by
  rw [transform, transformLog2_of_not_isPowerOfTwo h]
  rfl

theorem forward_of_not_isPowerOfTwo : forward t x = .error (.transformLength x.size) := by
  rw [forward, transformLog2_of_not_isPowerOfTwo h]
  rfl

theorem inverse_of_not_isPowerOfTwo : inverse t x = .error (.transformLength x.size) := by
  rw [inverse, transformLog2_of_not_isPowerOfTwo h]
  rfl

end Refused

/-! ### They undo each other -/

/-- The transforms at the roots of the tower undo each other. -/
theorem idft_dft_towerRoot {k : ℕ} (hk : k ≤ 32) {x : Array Goldilocks} (hsize : x.size = 2 ^ k) :
    idft (towerRoot k) (dft (towerRoot k) x) = x :=
  idft_dft (hsize ▸ isPrimitiveRoot_towerRoot hk) (hsize ▸ two_pow_ne_zero k)

theorem dft_idft_towerRoot {k : ℕ} (hk : k ≤ 32) {x : Array Goldilocks} (hsize : x.size = 2 ^ k) :
    dft (towerRoot k) (idft (towerRoot k) x) = x :=
  dft_idft (hsize ▸ isPrimitiveRoot_towerRoot hk) (hsize ▸ two_pow_ne_zero k)

end ProofMiner
