/-
# Butterfly stages compute the transform

A butterfly reads and writes two entries that no other butterfly of its stage touches, so after a
stage every pair holds the sum and the difference of its old entries (`runStage_combined`).

The invariant over the stages is `Level s c`: after `s` of `s + c` stages, block `q` of `2^s`
entries holds the transform of the inputs whose indices end in the `c` bits of `q`, reversed. The
gather establishes it for single entries (`level_gather`), and a stage joins the blocks `2q` and
`2q + 1`, whose inputs have even and odd places in the longer subsequence (`Level.stage`): with
`ρ^m = -1` the sum over the even places plus or minus `ρ^i` times the sum over the odd ones is the
sum over all of them at `i` and `i + m` (`sum_double_low`, `sum_double_high`).

When all stages are done, the one block is the transform of the input (`transform_eq_dft`).
-/

import ProofMiner.Proofs.Transform.Fourier
import ProofMiner.Proofs.Transform.Reversal
import ProofMiner.Transform.Ntt

namespace ProofMiner

open Finset

/-! ### Tables of powers -/

/-- The running product gives the powers. -/
theorem Goldilocks.powers_eq (r : Goldilocks) (n : ℕ) :
    r.powers n = Array.ofFn fun i : Fin n => r ^ i.val := by
  have hfold : n.fold (fun _ _ (b : Array Goldilocks × Goldilocks) =>
      (b.1.push b.2, b.2 * r)) (#[], 1) =
      (Array.ofFn fun i : Fin n => r ^ i.val, r ^ n) := by
    induction n with
    | zero => simp
    | succ n ih => rw [Nat.fold_succ, ih, Array.ofFn_succ, pow_succ]; rfl
  exact congrArg Prod.fst hfold

/-- The factors of a stage are powers of a power of the root. -/
theorem Twiddles.stage_ofRoot (r : Goldilocks) (m groups : ℕ) :
    (Twiddles.ofRoot r).stage m groups = Array.ofFn fun j : Fin m => (r ^ groups) ^ j.val :=
  Goldilocks.powers_eq _ m

/-- A stage takes the same twiddles from the table as from the root, whatever the root. -/
theorem Twiddles.stage_ofTable (r : Goldilocks) {m groups n : ℕ} (hg : 0 < groups)
    (hn : m * groups ≤ n / 2) :
    (Twiddles.ofTable (twiddleTable r n)).stage m groups = (Twiddles.ofRoot r).stage m groups := by
  rw [stage_ofRoot, stage, twiddleTable, Goldilocks.powers_eq]
  congr 1
  funext j
  have hj : j.val * groups < n / 2 := (Nat.mul_lt_mul_of_pos_right j.isLt hg).trans_le hn
  rw [getD_ofFn _ hj, ← pow_mul]
  exact congrArg (r ^ ·) (mul_comm _ _)

/-! ### One stage -/

/-- Entries `b + j` and `b + j + m` of `y` are the butterfly of those of `x`. -/
def Combined (m : ℕ) (tw x y : Array Goldilocks) (b j : ℕ) : Prop :=
  y.getD (b + j) 0 = x.getD (b + j) 0 + x.getD (b + j + m) 0 * tw.getD j 0 ∧
    y.getD (b + j + m) 0 = x.getD (b + j) 0 - x.getD (b + j + m) 0 * tw.getD j 0

theorem size_butterfly (lo hi : ℕ) (w : Goldilocks) (x : Array Goldilocks) :
    (butterfly lo hi w x).size = x.size := by
  simp [butterfly]

/-- A butterfly changes two entries. -/
theorem getD_butterfly {lo hi : ℕ} (w : Goldilocks) {x : Array Goldilocks} (hlo : lo < x.size)
    (hhi : hi < x.size) (i : ℕ) : (butterfly lo hi w x).getD i 0 =
      if i = hi then x.getD lo 0 - x.getD hi 0 * w
      else if i = lo then x.getD lo 0 + x.getD hi 0 * w else x.getD i 0 := by
  rw [butterfly, getD_setIfInBounds _ _ _ _ _ (by rwa [Array.size_setIfInBounds]),
    getD_setIfInBounds _ _ _ _ _ hlo]

/-- The next group begins behind the entries of this one. -/
theorem group_le_of_lt {m g g' : ℕ} (h : g < g') : g * (2 * m) + 2 * m ≤ g' * (2 * m) := by
  rw [← Nat.succ_mul]
  exact Nat.mul_le_mul_right _ h

/-- The butterflies of one group combine its entries and leave all others. -/
theorem group_combined {m : ℕ} (tw : Array Goldilocks) (g : ℕ) {x : Array Goldilocks}
    (hfit : g * (2 * m) + 2 * m ≤ x.size) :
    (forRange 0 m (stageStep m tw g) x).size = x.size ∧
      (∀ j < m, Combined m tw x (forRange 0 m (stageStep m tw g) x) (g * (2 * m)) j) ∧
      ∀ i, i < g * (2 * m) ∨ g * (2 * m) + 2 * m ≤ i →
        (forRange 0 m (stageStep m tw g) x).getD i 0 = x.getD i 0 := by
  generalize hb : g * (2 * m) = b at hfit
  obtain ⟨hsize, hdone, hrest⟩ : (forRange 0 m (stageStep m tw g) x).size = x.size ∧
      (∀ j < m, Combined m tw x (forRange 0 m (stageStep m tw g) x) b j) ∧
      ∀ i, (∀ j < m, i ≠ b + j ∧ i ≠ b + j + m) →
        (forRange 0 m (stageStep m tw g) x).getD i 0 = x.getD i 0 := by
    refine forRange_induct (fun k (y : Array Goldilocks) => y.size = x.size ∧
      (∀ j < k, Combined m tw x y b j) ∧
      ∀ i, (∀ j < k, i ≠ b + j ∧ i ≠ b + j + m) → y.getD i 0 = x.getD i 0)
      ⟨rfl, fun j hj => absurd hj j.not_lt_zero, fun _ _ => rfl⟩ ?_
    rintro k y hk ⟨hsize, hdone, hrest⟩
    have hlo : y.getD (b + k) 0 = x.getD (b + k) 0 := hrest _ fun j hj => by omega
    have hhi : y.getD (b + k + m) 0 = x.getD (b + k + m) 0 := hrest _ fun j hj => by omega
    have hget := getD_butterfly (tw.getD k 0) (show b + k < y.size by omega)
      (show b + k + m < y.size by omega)
    rw [hlo, hhi] at hget
    rw [stageStep, hb]
    refine ⟨by rw [size_butterfly, hsize], fun j hj => ?_, fun i hi => ?_⟩
    · rcases Nat.lt_succ_iff_lt_or_eq.1 hj with hjk | rfl
      · rw [Combined, hget, hget, if_neg (by omega), if_neg (by omega), if_neg (by omega),
          if_neg (by omega)]
        exact hdone j hjk
      · rw [Combined, hget, hget, if_neg (by omega), if_pos rfl, if_pos rfl]
        exact ⟨rfl, rfl⟩
    · have hik := hi k k.lt_succ_self
      rw [hget, if_neg hik.2, if_neg hik.1]
      exact hrest i fun j hj => hi j (hj.trans k.lt_succ_self)
  exact ⟨hsize, hdone, fun i hi => hrest i fun j hj => by omega⟩

/-- Both ways to share out a stage run the butterflies group by group. -/
theorem runStage_eq (t : Tuning) (m groups : ℕ) (tw x : Array Goldilocks) :
    runStage t m groups tw x =
      forRange 0 groups (fun g x => forRange 0 m (stageStep m tw g) x) x := by
  unfold runStage
  simp only [Tuning.loop_eq_forRange, ite_self]

/-- **A stage combines every pair.** -/
theorem runStage_combined (t : Tuning) {m groups : ℕ} (tw : Array Goldilocks)
    {x : Array Goldilocks} (hsize : x.size = groups * (2 * m)) :
    (runStage t m groups tw x).size = x.size ∧
      ∀ g < groups, ∀ j < m, Combined m tw x (runStage t m groups tw x) (g * (2 * m)) j := by
  rw [runStage_eq]
  refine And.imp_right And.left (?_ : _ ∧ _ ∧ ∀ i, groups * (2 * m) ≤ i →
    (forRange 0 groups (fun g x => forRange 0 m (stageStep m tw g) x) x).getD i 0 = x.getD i 0)
  refine forRange_induct (fun k (y : Array Goldilocks) => y.size = x.size ∧
    (∀ g < k, ∀ j < m, Combined m tw x y (g * (2 * m)) j) ∧
    ∀ i, k * (2 * m) ≤ i → y.getD i 0 = x.getD i 0)
    ⟨rfl, fun g hg => absurd hg g.not_lt_zero, fun _ _ => rfl⟩ ?_
  rintro k y hk ⟨hs, hdone, hrest⟩
  have hfit : k * (2 * m) + 2 * m ≤ y.size := (group_le_of_lt hk).trans_eq (hs.trans hsize).symm
  have hgroup := group_combined tw k hfit
  obtain ⟨hs', hdone', hrest'⟩ := hgroup
  refine ⟨hs'.trans hs, fun g hg j hj => ?_, fun i hi => ?_⟩
  · rcases Nat.lt_succ_iff_lt_or_eq.1 hg with hgk | rfl
    · have hle := group_le_of_lt (m := m) hgk
      rw [Combined, hrest' _ (.inl (by omega)), hrest' _ (.inl (by omega))]
      exact hdone g hgk j hj
    · have hpair := hdone' j hj
      rwa [Combined, hrest _ (by omega), hrest _ (by omega)] at hpair
  · rw [Nat.succ_mul] at hi
    rw [hrest' i (.inr hi), hrest i (by omega)]

/-! ### All stages -/

/-- A sum over an even range, by even and odd indices. -/
theorem sum_range_double (f : ℕ → Goldilocks) (m : ℕ) :
    ∑ j ∈ range (2 * m), f j = ∑ j ∈ range m, f (2 * j) + ∑ j ∈ range m, f (2 * j + 1) := by
  induction m with
  | zero => simp
  | succ m ih =>
    rw [Nat.mul_succ, sum_range_succ, sum_range_succ, ih, sum_range_succ, sum_range_succ]
    ring

/-- The sum at `i` is the butterfly sum of the sums over even and odd places. -/
theorem sum_double_low (f : ℕ → Goldilocks) (ρ : Goldilocks) (m i : ℕ) :
    ∑ j ∈ range (2 * m), f j * ρ ^ (i * j) =
      ∑ j ∈ range m, f (2 * j) * (ρ ^ 2) ^ (i * j) +
        (∑ j ∈ range m, f (2 * j + 1) * (ρ ^ 2) ^ (i * j)) * ρ ^ i := by
  rw [sum_range_double, sum_mul]
  refine congrArg₂ (· + ·) (sum_congr rfl fun j _ => ?_) (sum_congr rfl fun j _ => ?_)
  · ring
  · ring

/-- The sum at `i + m` is their butterfly difference, as `ρ ^ m = -1`. -/
theorem sum_double_high (f : ℕ → Goldilocks) {ρ : Goldilocks} {m : ℕ} (hρ : ρ ^ m = -1) (i : ℕ) :
    ∑ j ∈ range (2 * m), f j * ρ ^ ((i + m) * j) =
      ∑ j ∈ range m, f (2 * j) * (ρ ^ 2) ^ (i * j) -
        (∑ j ∈ range m, f (2 * j + 1) * (ρ ^ 2) ^ (i * j)) * ρ ^ i := by
  have hpow : ∀ j, ρ ^ ((i + m) * j) = ρ ^ (i * j) * (-1) ^ j := fun j => by
    rw [add_mul, pow_add, pow_mul ρ m, hρ]
  simp only [hpow]
  rw [sum_range_double, sub_eq_add_neg, sum_mul, ← sum_neg_distrib]
  refine congrArg₂ (· + ·) (sum_congr rfl fun j _ => ?_) (sum_congr rfl fun j _ => ?_)
  · rw [(even_two_mul j).neg_one_pow]
    ring
  · rw [(odd_two_mul_add_one j).neg_one_pow]
    ring

/-- After `s` of `s + c` stages: block `q` is the transform of the inputs at the places that are
`reverseBits c q` modulo `2 ^ c`. -/
structure Level (input : Array Goldilocks) (r : Goldilocks) (s c : ℕ) (x : Array Goldilocks) :
    Prop where
  size_eq : x.size = 2 ^ (s + c)
  block : ∀ q < 2 ^ c, ∀ i < 2 ^ s, x.getD (q * 2 ^ s + i) 0 =
    ∑ j ∈ range (2 ^ s), input.getD (j * 2 ^ c + reverseBits c q) 0 * (r ^ 2 ^ c) ^ (i * j)

/-- The gather makes every entry a block. -/
theorem level_gather (input : Array Goldilocks) (r : Goldilocks) (c : ℕ) :
    Level input r 0 c (Array.ofFn fun i : Fin (2 ^ c) => input.getD (reverseBits c i) 0) where
  size_eq := by rw [Array.size_ofFn, zero_add]
  block q hq i hi := by
    obtain rfl : i = 0 := by simpa using hi
    rw [pow_zero, mul_one, add_zero, getD_ofFn _ hq, sum_range_one, zero_mul, zero_add, mul_zero,
      pow_zero, mul_one]

/-- **A stage joins blocks in pairs.** -/
theorem Level.stage {input x : Array Goldilocks} {r : Goldilocks} {s c : ℕ}
    (hx : Level input r s (c + 1) x) (hr : r ^ 2 ^ (s + c) = -1) (t : Tuning) :
    Level input r (s + 1) c
      (runStage t (2 ^ s) (2 ^ c) ((Twiddles.ofRoot r).stage (2 ^ s) (2 ^ c)) x) := by
  have hsize : x.size = 2 ^ c * (2 * 2 ^ s) := by
    rw [hx.size_eq]
    ring
  have hρ : (r ^ 2 ^ c) ^ 2 ^ s = -1 := by
    rw [← pow_mul, ← pow_add, add_comm, hr]
  have hsq : (r ^ 2 ^ c) ^ 2 = r ^ 2 ^ (c + 1) := by
    rw [← pow_mul, pow_succ]
  obtain ⟨hs, hpairs⟩ := runStage_combined t ((Twiddles.ofRoot r).stage (2 ^ s) (2 ^ c)) hsize
  refine ⟨by rw [hs, hx.size_eq]; ring, fun q hq i hi => ?_⟩
  have heven : ∀ i < 2 ^ s, x.getD (q * (2 * 2 ^ s) + i) 0 = ∑ j ∈ range (2 ^ s),
      input.getD (2 * j * 2 ^ c + reverseBits c q) 0 * ((r ^ 2 ^ c) ^ 2) ^ (i * j) := by
    intro i hi
    have hblock := hx.block (2 * q) (by rw [pow_succ]; omega) i hi
    rw [reverseBits_double, ← hsq] at hblock
    rw [show q * (2 * 2 ^ s) + i = 2 * q * 2 ^ s + i by ring, hblock]
    exact sum_congr rfl fun j _ => by rw [show j * 2 ^ (c + 1) = 2 * j * 2 ^ c by ring]
  have hodd : ∀ i < 2 ^ s, x.getD (q * (2 * 2 ^ s) + i + 2 ^ s) 0 = ∑ j ∈ range (2 ^ s),
      input.getD ((2 * j + 1) * 2 ^ c + reverseBits c q) 0 * ((r ^ 2 ^ c) ^ 2) ^ (i * j) := by
    intro i hi
    have hblock := hx.block (2 * q + 1) (by rw [pow_succ]; omega) i hi
    rw [reverseBits_double_add_one, ← hsq] at hblock
    rw [show q * (2 * 2 ^ s) + i + 2 ^ s = (2 * q + 1) * 2 ^ s + i by ring, hblock]
    exact sum_congr rfl fun j _ => by
      rw [show j * 2 ^ (c + 1) + (2 ^ c + reverseBits c q) =
        (2 * j + 1) * 2 ^ c + reverseBits c q by ring]
  have htw : ∀ i < 2 ^ s,
      ((Twiddles.ofRoot r).stage (2 ^ s) (2 ^ c)).getD i 0 = (r ^ 2 ^ c) ^ i := fun i hi => by
    rw [Twiddles.stage_ofRoot, getD_ofFn _ hi]
  rw [pow_succ']
  rcases Nat.lt_or_ge i (2 ^ s) with hlow | hhigh
  · rw [(hpairs q hq i hlow).1, heven i hlow, hodd i hlow, htw i hlow]
    exact (sum_double_low (fun j => input.getD (j * 2 ^ c + reverseBits c q) 0) _ _ _).symm
  · obtain ⟨l, rfl⟩ := Nat.exists_eq_add_of_le' hhigh
    have hl : l < 2 ^ s := by rw [pow_succ] at hi; omega
    rw [← add_assoc, (hpairs q hq l hl).2, heven l hl, hodd l hl, htw l hl]
    exact (sum_double_high (fun j => input.getD (j * 2 ^ c + reverseBits c q) 0) hρ _).symm

/-- The stage with half-width `2 ^ s` for the length `2 ^ (s + c + 1)` has `2 ^ c` groups. -/
theorem groups_eq (s c : ℕ) : 1 <<< (s + (c + 1)) / (2 * 1 <<< s) = 2 ^ c := by
  rw [Nat.one_shiftLeft, Nat.one_shiftLeft, show 2 ^ (s + (c + 1)) = 2 * 2 ^ s * 2 ^ c by ring,
    Nat.mul_div_cancel_left _ (by positivity)]

/-- **The stages, one after the other**, make the transform of the bit-reversed copy. -/
theorem runStages_level (t : Tuning) {input x : Array Goldilocks} {r : Goldilocks} {k : ℕ}
    (hr : ∀ l, k = l + 1 → r ^ 2 ^ l = -1) (hx : Level input r 0 k x) :
    Level input r k 0 (runStages t k (.ofRoot r) x) := by
  have hstages : ∀ s c, s + c = k → Level input r s c (s.fold (fun s _ x =>
      runStage t (1 <<< s) (1 <<< k / (2 * 1 <<< s))
        ((Twiddles.ofRoot r).stage (1 <<< s) (1 <<< k / (2 * 1 <<< s))) x) x) := by
    intro s
    induction s with
    | zero =>
      intro c hc
      obtain rfl : c = k := by omega
      exact hx
    | succ s ih =>
      intro c hc
      have hlevel := ih (c + 1) (by omega)
      obtain rfl : s + (c + 1) = k := by omega
      rw [Nat.fold_succ, groups_eq, Nat.one_shiftLeft]
      exact hlevel.stage (hr _ rfl) t
  exact hstages k 0 rfl

/-- The transform is the stages on the gathered input. -/
theorem transform_eq_runStages (t : Tuning) {k : ℕ} (hk : k < 64) {input : Array Goldilocks}
    (hsize : input.size = 2 ^ k) (root : Goldilocks) :
    transform t input root = .ok (runStages t k (.ofRoot root)
      (Array.ofFn fun i : Fin (2 ^ k) => input.getD (reverseBits k i) 0)) := by
  rw [transform, hsize, transformLog2_two_pow hk, bitReversePermute_eq t hk input hsize]
  rfl

/-- **The transform** of a vector of power-of-two length is its Fourier transform, for a root whose
power to half the length is `-1`. -/
theorem transform_eq_dft (t : Tuning) {k : ℕ} (hk : k < 64) {input : Array Goldilocks}
    (hsize : input.size = 2 ^ k) {r : Goldilocks} (hr : ∀ l, k = l + 1 → r ^ 2 ^ l = -1) :
    transform t input r = .ok (dft r input) := by
  have hlevel := runStages_level t hr (level_gather input r k)
  rw [transform_eq_runStages t hk hsize]
  refine congrArg Except.ok (eq_of_getD ?_ fun i hi => ?_)
  · rw [hlevel.size_eq, size_dft, hsize, add_zero]
  · rw [hlevel.size_eq, add_zero] at hi
    have hblock := hlevel.block 0 (by simp) i hi
    simp only [zero_mul, zero_add, pow_zero, mul_one, reverseBits_zero, add_zero, pow_one] at hblock
    rw [getD_dft _ _ (hsize.symm ▸ hi), hsize]
    exact hblock

/-- **The transform evaluates at the powers of its root.** For every length `n = 2 ^ k`, every
tuning and every root whose power to `n / 2` is `-1` (any root at all for `n = 1`) the transform
succeeds, and its entries are the sums of `input j * r ^ (i * j)` in natural order, which are the
values of the input polynomial at `r ^ 0, …, r ^ (n - 1)`. No bound on the length is assumed: the
root gives it. -/
theorem transform_evaluates (t : Tuning) (k : ℕ) (input : Array Goldilocks) (r : Goldilocks)
    (hsize : input.size = 2 ^ k) (hr : 2 ≤ input.size → r ^ (input.size / 2) = -1) :
    ∃ output, transform t input r = .ok output ∧ output.size = input.size ∧
      ∀ i < input.size,
        output.getD i 0 = ∑ j ∈ range input.size, input.getD j 0 * r ^ (i * j) ∧
        output.getD i 0 = Polynomial.eval input (r ^ i) := by
  have hhalf : ∀ l, k = l + 1 → r ^ 2 ^ l = -1 := by
    rintro l rfl
    have hlen : 2 ≤ input.size := by
      rw [hsize, pow_succ]
      have := Nat.two_pow_pos l
      omega
    have hpow := hr hlen
    rwa [hsize, pow_succ, Nat.mul_div_cancel _ two_pos] at hpow
  have hk : k < 64 := by
    cases k with
    | zero => omega
    | succ l =>
      have := Goldilocks.lt_of_pow_eq_neg_one (hhalf l rfl)
      omega
  refine ⟨dft r input, transform_eq_dft t hk hsize hhalf, size_dft r input, fun i hi => ?_⟩
  exact ⟨getD_dft r input hi,
    by rw [getD_dft_eq_valueAt r input hi, Polynomial.eval_eq_valueAt]⟩

/-- The hypotheses are satisfiable: `2 ^ 48` is a root of order four. -/
theorem transform_evaluates_four :
    (#[3, 1, 4, 1] : Array Goldilocks).size = 2 ^ 2 ∧
    Goldilocks.ofWord 281474976710656 ^ (4 / 2) = -1 ∧
    ∃ output, transform .sequential #[3, 1, 4, 1] (.ofWord 281474976710656) = .ok output ∧
      output.size = 4 ∧ ∀ i < 4,
        output.getD i 0 = ∑ j ∈ range 4, (#[3, 1, 4, 1] : Array Goldilocks).getD j 0 *
          Goldilocks.ofWord 281474976710656 ^ (i * j) ∧
        output.getD i 0 = Polynomial.eval #[3, 1, 4, 1] (.ofWord 281474976710656 ^ i) := by
  have hpow : Goldilocks.ofWord 281474976710656 ^ (4 / 2) = -1 := by decide +kernel
  exact ⟨rfl, hpow, transform_evaluates .sequential 2 #[3, 1, 4, 1] (.ofWord 281474976710656) rfl
    fun _ => hpow⟩

end ProofMiner
