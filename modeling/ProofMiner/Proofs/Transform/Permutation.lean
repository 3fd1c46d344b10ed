/-
# The permutation of the indices

Reversing the low bits of an index twice gives the index back, as long as it has no further bits
(`reverseBits_reverseBits`). So the reversal of `k` bits is a permutation of the indices below `2 ^ k`
(`reversal`), and a vector of that length keeps its entries when they are gathered along it
(`perm_gathered`). A second gather brings each entry back to where it was (`gathered_gathered`).

The lengths that are refused are those that are no power of two. There is no vector of `2 ^ 64` entries
or more, as 64 bits hold every length.
-/

import Mathlib.Logic.Equiv.Fin.Basic
import Mathlib.Data.List.FinRange
import ProofMiner.Proofs.Transform.Fourier
import ProofMiner.Proofs.Transform.Reversal

namespace ProofMiner

/-- **Reversing twice gives the index back**: bit `i` goes to bit `k - 1 - i` and from there to `i`. -/
theorem reverseBits_reverseBits {k i : ℕ} (hi : i < 2 ^ k) : reverseBits k (reverseBits k i) = i := by
  refine Nat.eq_of_testBit_eq fun j => ?_
  rw [testBit_reverseBits, testBit_reverseBits]
  by_cases hj : j < k
  · rw [decide_eq_true hj, decide_eq_true (show k - 1 - j < k by omega), Bool.true_and, Bool.true_and,
      show k - 1 - (k - 1 - j) = j by omega]
  · have hpow : i < 2 ^ j := hi.trans_le (Nat.pow_le_pow_right two_pos (not_lt.1 hj))
    rw [decide_eq_false hj, Bool.false_and, Nat.testBit_lt_two_pow hpow]

/-- The reversal of `k` bits as a permutation of the indices. -/
def reversal (k : ℕ) : Equiv.Perm (Fin (2 ^ k)) :=
  Function.Involutive.toPerm (fun i => ⟨reverseBits k i, reverseBits_lt k i⟩)
    fun i => Fin.ext (reverseBits_reverseBits i.isLt)

/-- The entries of a vector of `2 ^ k` in the order of the reversed indices. -/
def gathered (k : ℕ) (data : Array Goldilocks) : Array Goldilocks :=
  Array.ofFn fun i : Fin (2 ^ k) => data.getD (reverseBits k i) 0

variable {k : ℕ} {data : Array Goldilocks}

theorem size_gathered (k : ℕ) (data : Array Goldilocks) : (gathered k data).size = 2 ^ k :=
  Array.size_ofFn

/-- Each entry comes from the reversed place. -/
theorem getD_gathered {i : ℕ} (hi : i < 2 ^ k) (data : Array Goldilocks) :
    (gathered k data).getD i 0 = data.getD (reverseBits k i) 0 :=
  getD_ofFn (fun i : Fin (2 ^ k) => data.getD (reverseBits k i) 0) hi

/-- Gathering twice changes nothing, since reversing bits twice does not. -/
theorem gathered_gathered (hsize : data.size = 2 ^ k) : gathered k (gathered k data) = data := by
  refine eq_of_getD ((size_gathered k _).trans hsize.symm) fun i hi => ?_
  rw [size_gathered] at hi
  rw [getD_gathered hi, getD_gathered (reverseBits_lt k i), reverseBits_reverseBits hi]

/-- **The gather is a permutation**: no entry is lost and none is taken twice. -/
theorem perm_gathered (hsize : data.size = 2 ^ k) : (gathered k data).toList.Perm data.toList := by
  have hplain : data = Array.ofFn fun i : Fin (2 ^ k) => data.getD i 0 :=
    eq_of_getD (hsize.trans Array.size_ofFn.symm) fun i hi =>
      (getD_ofFn (fun i : Fin (2 ^ k) => data.getD i 0) (hsize ▸ hi)).symm
  have hperm : List.Perm (List.ofFn ((fun i : Fin (2 ^ k) => data.getD i 0) ∘ reversal k))
      (List.ofFn fun i : Fin (2 ^ k) => data.getD i 0) := (reversal k).ofFn_comp_perm _
  rw [← Array.toList_ofFn, ← Array.toList_ofFn, ← hplain] at hperm
  exact hperm

/-- Other lengths are refused. -/
theorem bitReversePermute_of_not_isPowerOfTwo (t : Tuning) (h : ¬ data.size.isPowerOfTwo) :
    bitReversePermute t data = .error (.transformLength data.size) := by
  rw [bitReversePermute, transformLog2_of_not_isPowerOfTwo h]
  rfl

/-- **Bit reversal undoes itself.** The reversal of `k` bits keeps the indices below `2 ^ k` among
themselves and is its own inverse there, and it follows the recursion on the lowest bit. So every vector
of `2 ^ k` entries is permuted, entry `i` coming from the reversed index, and permuting it once more gives
it back, with whatever tunings. A vector of any other length is refused for it. -/
theorem bit_reversal_undoes_itself (k : ℕ) :
    (∀ i < 2 ^ k, reverseBits k i < 2 ^ k ∧ reverseBits k (reverseBits k i) = i) ∧
    (∀ i, reverseBits (k + 1) (2 * i) = reverseBits k i ∧
      reverseBits (k + 1) (2 * i + 1) = 2 ^ k + reverseBits k i) ∧
    (∀ (t t' : Tuning) (data : Array Goldilocks), data.size = 2 ^ k → data.size < UInt64.size →
      ∃ out, bitReversePermute t data = .ok out ∧ out.toList.Perm data.toList ∧
        (∀ i < 2 ^ k, out.getD i 0 = data.getD (reverseBits k i) 0) ∧
        bitReversePermute t' out = .ok data) ∧
    ∀ (t : Tuning) (data : Array Goldilocks), ¬ data.size.isPowerOfTwo →
      ∃ fault, bitReversePermute t data = .error fault ∧ fault.kind = .notPowerOfTwo := by
  refine ⟨fun i hi => ⟨reverseBits_lt k i, reverseBits_reverseBits hi⟩,
    fun i => ⟨reverseBits_double k i, reverseBits_double_add_one k i⟩,
    fun t t' data hsize hword => ?_,
    fun t data h => ⟨_, bitReversePermute_of_not_isPowerOfTwo t h, rfl⟩⟩
  have hk : k < 64 := (Nat.pow_lt_pow_iff_right one_lt_two).1 (hsize ▸ hword)
  refine ⟨gathered k data, bitReversePermute_eq t hk data hsize, perm_gathered hsize,
    fun i hi => getD_gathered hi data, ?_⟩
  rw [bitReversePermute_eq t' hk _ (size_gathered k data)]
  exact congrArg Except.ok (gathered_gathered hsize)

/-- The hypotheses are satisfiable: four entries, and three. -/
theorem bit_reversal_undoes_itself_four :
    (#[3, 1, 4, 1] : Array Goldilocks).size = 2 ^ 2 ∧ ¬ (3).isPowerOfTwo ∧
    (∃ out, bitReversePermute .sequential #[3, 1, 4, 1] = .ok out ∧
      out.toList.Perm [3, 1, 4, 1] ∧
      (∀ i < 2 ^ 2, out.getD i 0 = (#[3, 1, 4, 1] : Array Goldilocks).getD (reverseBits 2 i) 0) ∧
      bitReversePermute { mode := .parallel, threads := 2 } out = .ok #[3, 1, 4, 1]) ∧
    reverseBits 2 (reverseBits 2 1) = 1 ∧
    ∃ fault, bitReversePermute .sequential #[3, 1, 4] = .error fault ∧ fault.kind = .notPowerOfTwo := by
  have hthree : ¬ (3).isPowerOfTwo := fun h => absurd (isPowerOfTwo_iff.2 h) (by decide)
  obtain ⟨hindex, -, hpermutes, hrefuses⟩ := bit_reversal_undoes_itself 2
  exact ⟨rfl, hthree, hpermutes .sequential _ #[3, 1, 4, 1] rfl (by decide),
    (hindex 1 (by decide)).2, hrefuses .sequential #[3, 1, 4] hthree⟩

end ProofMiner
