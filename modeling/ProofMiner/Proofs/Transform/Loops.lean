/-
# Loops in chunks

A loop of the transform engine runs in one piece, or over contiguous chunks of its range. The
chunks begin where the one before them ends and the last one ends at the end of the range
(`foldl_chunks`), so that no path, threshold or number of threads shows in a result
(`Tuning.loop_eq_forRange`).

What a loop computes is read off an invariant of its steps (`forRange_induct`), or, where step `i`
writes entry `i` only, given as an array (`forRange_write`, `forRange_modify`).
-/

import Mathlib.Tactic.Ring
import ProofMiner.Transform.Tuning

namespace ProofMiner

variable {σ α : Type}

/-- An empty range does nothing, and the last number of a range comes last. -/
theorem forRange_self (lo : ℕ) (body : ℕ → σ → σ) (s : σ) : forRange lo lo body s = s := by
  rw [forRange, Nat.sub_self, Nat.fold_zero]

theorem forRange_succ {lo hi : ℕ} (h : lo ≤ hi) (body : ℕ → σ → σ) (s : σ) :
    forRange lo (hi + 1) body s = body hi (forRange lo hi body s) := by
  rw [forRange, Nat.succ_sub h, Nat.fold_succ, ← forRange, Nat.add_sub_cancel' h]

/-- The library's loop is one of these. -/
theorem fold_eq_forRange (n : ℕ) (body : ℕ → σ → σ) (s : σ) :
    n.fold (fun i _ s => body i s) s = forRange 0 n body s := by
  rw [forRange]
  simp only [Nat.sub_zero, Nat.zero_add]

/-- A range can be cut in two. -/
theorem forRange_append {lo mid hi : ℕ} (hlo : lo ≤ mid) (hhi : mid ≤ hi) (body : ℕ → σ → σ)
    (s : σ) : forRange mid hi body (forRange lo mid body s) = forRange lo hi body s := by
  induction hi, hhi using Nat.le_induction with
  | base => rw [forRange_self]
  | succ hi hhi ih => rw [forRange_succ hhi, forRange_succ (hlo.trans hhi), ih]

/-- **Invariants of a loop**: what holds at the start and is kept by every step holds at the end. -/
theorem forRange_induct {n : ℕ} {body : ℕ → σ → σ} {s : σ} (P : ℕ → σ → Prop) (h0 : P 0 s)
    (hstep : ∀ i x, i < n → P i x → P (i + 1) (body i x)) : P n (forRange 0 n body s) := by
  induction n with
  | zero => rwa [forRange_self]
  | succ n ih =>
    rw [forRange_succ n.zero_le]
    exact hstep n _ n.lt_succ_self (ih fun i x hi => hstep i x (hi.trans n.lt_succ_self))

/-- The first `k` chunks of the range are its first `k * grain` indices. -/
theorem foldl_range_grain {n grain k : ℕ} (hk : k ≤ (n + grain - 1) / grain) (hgrain : 0 < grain)
    (body : ℕ → σ → σ) (s : σ) :
    ((List.range k).map fun k => (k * grain, min n ((k + 1) * grain))).foldl
      (fun s (lo, hi) => forRange lo hi body s) s = forRange 0 (min n (k * grain)) body s := by
  induction k with
  | zero => simp [forRange_self]
  | succ k ih =>
    have hstart : k * grain ≤ n := by
      have h := (Nat.le_div_iff_mul_le hgrain).1 hk
      rw [Nat.succ_mul] at h
      omega
    have hle : k * grain ≤ (k + 1) * grain := Nat.mul_le_mul_right _ k.le_succ
    rw [List.range_succ, List.map_append, List.foldl_append, ih (by omega), min_eq_right hstart]
    exact forRange_append (Nat.zero_le _) (le_min hstart hle) body s

/-- **The chunks cover the range in order.** -/
theorem foldl_chunks (n parts : ℕ) (body : ℕ → σ → σ) (s : σ) :
    (chunks n parts).foldl (fun s (lo, hi) => forRange lo hi body s) s = forRange 0 n body s := by
  unfold chunks
  generalize hg : max 1 ((n + parts - 1) / max 1 parts) = grain
  have hgrain : 0 < grain := by rw [← hg]; exact Nat.lt_of_lt_of_le one_pos (le_max_left _ _)
  have hcover : n ≤ (n + grain - 1) / grain * grain := by
    have hmod := Nat.mod_lt (n + grain - 1) hgrain
    have hdiv := Nat.div_add_mod (n + grain - 1) grain
    rw [mul_comm]
    omega
  dsimp only
  rw [foldl_range_grain le_rfl hgrain, min_eq_left hcover]

/-- **A split loop does what the loop in one piece does.** -/
theorem Tuning.loop_eq_forRange (t : Tuning) (split : Bool) (n : ℕ) (body : ℕ → σ → σ) (s : σ) :
    t.loop split n body s = forRange 0 n body s := by
  unfold Tuning.loop
  split_ifs
  · exact foldl_chunks n _ body s
  · rfl

/-- A write changes one entry. -/
theorem getD_setIfInBounds (a : Array α) (i j : ℕ) (v d : α) (hi : i < a.size) :
    (a.setIfInBounds i v).getD j d = if j = i then v else a.getD j d := by
  rw [Array.getD_eq_getD_getElem?, Array.getD_eq_getD_getElem?, Array.getElem?_setIfInBounds]
  by_cases h : i = j
  · simp [h, h ▸ hi]
  · rw [if_neg h, if_neg (Ne.symm h)]

/-- A loop whose step `i` writes entry `i` writes the whole array. -/
theorem forRange_write (n : ℕ) (f : ℕ → α) (a : Array α) (ha : a.size = n) :
    forRange 0 n (fun i out => out.setIfInBounds i (f i)) a = Array.ofFn fun i : Fin n => f i := by
  have hinv : (forRange 0 n (fun i out => out.setIfInBounds i (f i)) a).size = n ∧
      ∀ j < n, (forRange 0 n (fun i out => out.setIfInBounds i (f i)) a)[j]? = some (f j) := by
    refine forRange_induct (fun k (x : Array α) => x.size = n ∧ ∀ j < k, x[j]? = some (f j))
      ⟨ha, ?_⟩ ?_
    · exact fun j hj => absurd hj j.not_lt_zero
    · rintro i x hi ⟨hsize, hx⟩
      refine ⟨by rw [Array.size_setIfInBounds, hsize], fun j hj => ?_⟩
      rw [Array.getElem?_setIfInBounds]
      rcases Nat.lt_succ_iff_lt_or_eq.1 hj with h | rfl
      · rw [if_neg (by omega), hx j h]
      · rw [if_pos rfl, if_pos (by omega)]
  refine Array.ext (by rw [hinv.1, Array.size_ofFn]) fun j hj _ => ?_
  rw [Array.getElem_ofFn]
  exact Array.getElem_eq_iff.2 (hinv.2 j (hinv.1 ▸ hj))

/-- A loop whose step `i` changes entry `i` changes every entry. -/
theorem forRange_modify (f : α → α) (a : Array α) :
    forRange 0 a.size (fun i x => x.modify i f) a = a.map f := by
  have hinv : (forRange 0 a.size (fun i x => x.modify i f) a).size = a.size ∧
      ∀ j, (forRange 0 a.size (fun i x => x.modify i f) a)[j]? =
        if j < a.size then a[j]?.map f else a[j]? := by
    refine forRange_induct (fun k (x : Array α) => x.size = a.size ∧
      ∀ j, x[j]? = if j < k then a[j]?.map f else a[j]?) ⟨rfl, by simp⟩ ?_
    rintro i x hi ⟨hsize, hx⟩
    refine ⟨by rw [Array.size_modify, hsize], fun j => ?_⟩
    rw [Array.getElem?_modify, hx]
    rcases Nat.lt_trichotomy i j with h | rfl | h
    · rw [if_neg (by omega), if_neg (by omega), if_neg (by omega)]
    · rw [if_pos rfl, if_neg (by omega), if_pos (by omega)]
    · rw [if_neg (by omega), if_pos (by omega), if_pos (by omega)]
  refine Array.ext (by rw [hinv.1, Array.size_map]) fun j hj _ => ?_
  rw [Array.getElem_map]
  refine Array.getElem_eq_iff.2 ?_
  have hja : j < a.size := hinv.1 ▸ hj
  rw [hinv.2, if_pos hja, Array.getElem?_eq_getElem hja, Option.map_some]

end ProofMiner
