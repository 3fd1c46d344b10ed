/-
# Loops in any order

A loop that is shared out over threads runs its steps in an order that nobody fixes. Where any two
of its steps are interchangeable every order comes to the same (`inOrder_perm`), and so do parts of
the range that are taken in any order, as long as they are disjoint and cover it
(`inParts_eq_forRange`).

The steps of all loops of the engine are interchangeable. Gather, scaling and pointwise product
write one entry in each step. A butterfly reads and writes two entries, and those of two butterflies
of one stage are four different ones (`interchangeable_stageStep`). So no loop depends on its
schedule (`loops_order_independent`), and neither does a transform with a schedule of its own for
each of its loops (`Schedule.transform_eq`).
-/

import ProofMiner.Proofs.Transform.Convolution

namespace ProofMiner

variable {σ ι : Type}

/-! ### Orders and parts -/

/-- The steps of a loop, in the given order. -/
def inOrder (step : ι → σ → σ) (order : List ι) (s : σ) : σ :=
  order.foldl (fun s i => step i s) s

/-- The steps of a loop over a range, part by part. -/
def inParts (step : ℕ → σ → σ) (parts : List (ℕ × ℕ)) (s : σ) : σ :=
  parts.foldl (fun s part => forRange part.1 part.2 step s) s

/-- Two steps come to the same in both orders. -/
def Interchangeable (step : ι → σ → σ) (i j : ι) : Prop :=
  ∀ s, step i (step j s) = step j (step i s)

/-- **Interchangeable steps may run in any order.** -/
theorem inOrder_perm {step : ι → σ → σ} {order order' : List ι} (h : order.Perm order')
    (hsteps : ∀ i ∈ order, ∀ j ∈ order, Interchangeable step i j) (s : σ) :
    inOrder step order s = inOrder step order' s :=
  h.foldl_eq' (fun i hi j hj s => hsteps j hj i hi s) s

/-- A loop takes the numbers of its range in order. -/
theorem forRange_eq_inOrder (lo hi : ℕ) (step : ℕ → σ → σ) (s : σ) :
    forRange lo hi step s = inOrder step (List.range' lo (hi - lo)) s := by
  rw [forRange]
  generalize hi - lo = n
  induction n with
  | zero => rfl
  | succ n ih =>
    rw [Nat.fold_succ, ih, List.range'_1_concat, inOrder, inOrder, List.foldl_append,
      List.foldl_cons, List.foldl_nil]

theorem forRange_zero_eq_inOrder (n : ℕ) (step : ℕ → σ → σ) (s : σ) :
    forRange 0 n step s = inOrder step (List.range n) s := by
  rw [forRange_eq_inOrder, Nat.sub_zero, List.range_eq_range']

section Interchangeable

variable {step : ℕ → σ → σ} (hsteps : ∀ i j, Interchangeable step i j) {n : ℕ}
include hsteps

/-- **If any two steps can be interchanged, the order does not matter.** -/
theorem inOrder_eq_forRange {order : List ℕ} (h : order.Perm (List.range n)) (s : σ) :
    inOrder step order s = forRange 0 n step s := by
  rw [forRange_zero_eq_inOrder]
  exact inOrder_perm h (fun i _ j _ => hsteps i j) s

end Interchangeable

/-- Parts of the range `[0, n)`, as bounds `(lo, hi)`: no index is in two of them, and together they
hold the whole range. -/
structure Partition (n : ℕ) (parts : List (ℕ × ℕ)) : Prop where
  within : ∀ part ∈ parts, part.2 ≤ n
  disjoint : parts.Pairwise fun part other =>
    Disjoint (Finset.Ico part.1 part.2) (Finset.Ico other.1 other.2)
  covers : ∀ i < n, ∃ part ∈ parts, i ∈ Finset.Ico part.1 part.2

theorem mem_range'_sub_iff {lo hi i : ℕ} :
    i ∈ List.range' lo (hi - lo) ↔ i ∈ Finset.Ico lo hi := by
  rw [List.mem_range'_1, Finset.mem_Ico]
  omega

/-- The parts hold every index once. -/
theorem Partition.perm {n : ℕ} {parts : List (ℕ × ℕ)} (h : Partition n parts) :
    (parts.flatMap fun part => List.range' part.1 (part.2 - part.1)).Perm (List.range n) := by
  have hnodup : (parts.flatMap fun part => List.range' part.1 (part.2 - part.1)).Nodup := by
    refine List.nodup_flatMap.2 ⟨fun part _ => List.nodup_range', h.disjoint.imp ?_⟩
    intro part other hdisjoint i hpart hother
    rw [mem_range'_sub_iff] at hpart hother
    exact Finset.disjoint_left.1 hdisjoint hpart hother
  refine (List.perm_ext_iff_of_nodup hnodup List.nodup_range).2 fun i => ?_
  simp only [List.mem_flatMap, mem_range'_sub_iff, List.mem_range]
  constructor
  · rintro ⟨part, hpart, hi⟩
    exact (Finset.mem_Ico.1 hi).2.trans_le (h.within part hpart)
  · exact h.covers i

/-- **Interchangeable steps may run part by part**, with the parts in any order. -/
theorem inParts_eq_forRange {step : ℕ → σ → σ} (hsteps : ∀ i j, Interchangeable step i j) {n : ℕ}
    {parts : List (ℕ × ℕ)} (h : Partition n parts) (s : σ) :
    inParts step parts s = forRange 0 n step s := by
  rw [← inOrder_eq_forRange hsteps h.perm, inOrder, List.foldl_flatMap, inParts]
  simp only [forRange_eq_inOrder, inOrder]

/-! ### Interchangeable steps -/

/-- Writes, each of a value that does not depend on the array. -/
theorem interchangeable_write {α : Type} (f : ℕ → α) (i j : ℕ) :
    Interchangeable (fun i (out : Array α) => out.setIfInBounds i (f i)) i j := by
  intro out
  rcases eq_or_ne i j with rfl | hij
  · rfl
  · exact (Array.setIfInBounds_comm _ _ hij).symm

/-- Two writes of the gathering loop are to different places, or the same. -/
theorem interchangeable_gather (bits : ℕ) (data : Array Goldilocks) (i j : ℕ) :
    Interchangeable (gatherReversed bits data) i j :=
  interchangeable_write (fun i => data.getD (reverseBits bits i) 0) i j

/-- One change for all entries. -/
theorem interchangeable_modify {α : Type} (f : α → α) (i j : ℕ) :
    Interchangeable (fun i (x : Array α) => x.modify i f) i j := by
  intro x
  refine Array.ext_getElem? fun k => ?_
  simp only [Array.getElem?_modify]
  split_ifs <;> rfl

/-- A butterfly leaves the other entries alone. -/
theorem getD_butterfly_of_ne {lo hi i : ℕ} (hlo : i ≠ lo) (hhi : i ≠ hi) (w : Goldilocks)
    (x : Array Goldilocks) : (butterfly lo hi w x).getD i 0 = x.getD i 0 := by
  rw [butterfly, Array.getD_eq_getD_getElem?, Array.getElem?_setIfInBounds_ne hhi.symm,
    Array.getElem?_setIfInBounds_ne hlo.symm, ← Array.getD_eq_getD_getElem?]

/-- What a butterfly writes depends on the two entries that it reads. -/
theorem butterfly_of_getD {lo hi : ℕ} {u v : Goldilocks} {x : Array Goldilocks}
    (hu : x.getD lo 0 = u) (hv : x.getD hi 0 = v) (w : Goldilocks) :
    butterfly lo hi w x = (x.setIfInBounds lo (u + v * w)).setIfInBounds hi (u - v * w) := by
  subst hu hv
  rfl

/-- **Butterflies on different entries are interchangeable**: neither reads or writes what the other
one writes. -/
theorem butterfly_comm {lo hi lo' hi' : ℕ} (hll : lo ≠ lo') (hlh : lo ≠ hi') (hhl : hi ≠ lo')
    (hhh : hi ≠ hi') (w w' : Goldilocks) (x : Array Goldilocks) :
    butterfly lo hi w (butterfly lo' hi' w' x) = butterfly lo' hi' w' (butterfly lo hi w x) := by
  rw [butterfly_of_getD (getD_butterfly_of_ne hll hlh w' x) (getD_butterfly_of_ne hhl hhh w' x),
    butterfly_of_getD (getD_butterfly_of_ne hll.symm hhl.symm w x)
      (getD_butterfly_of_ne hlh.symm hhh.symm w x)]
  -- each of the two writes of the one goes past both writes of the other
  simp only [butterfly]
  rw [Array.setIfInBounds_comm _ _ hlh.symm, Array.setIfInBounds_comm _ _ hll.symm,
    Array.setIfInBounds_comm _ _ hhh.symm, Array.setIfInBounds_comm _ _ hhl.symm]

/-- **The butterflies of a stage are interchangeable.** Butterfly `j` of group `g` has the entries
`g * 2m + j` and `g * 2m + j + m`, and no other one has any of the two. -/
theorem interchangeable_stageStep {m : ℕ} (tw : Array Goldilocks) {p q : ℕ × ℕ} (hp : p.2 < m)
    (hq : q.2 < m) :
    Interchangeable (fun (p : ℕ × ℕ) (x : Array Goldilocks) => stageStep m tw p.1 p.2 x) p q := by
  intro x
  obtain ⟨g, j⟩ := p
  obtain ⟨g', j'⟩ := q
  dsimp only at hp hq ⊢
  rcases Nat.lt_trichotomy g g' with hg | rfl | hg
  · have hgap := group_le_of_lt (m := m) hg
    exact butterfly_comm (by omega) (by omega) (by omega) (by omega) _ _ x
  · rcases eq_or_ne j j' with rfl | hj
    · rfl
    · exact butterfly_comm (by omega) (by omega) (by omega) (by omega) _ _ x
  · have hgap := group_le_of_lt (m := m) hg
    exact butterfly_comm (by omega) (by omega) (by omega) (by omega) _ _ x

/-! ### Stages -/

/-- The butterflies of a stage, as pairs of a group and a place in it, in ascending order. -/
def stagePairs (m groups : ℕ) : List (ℕ × ℕ) := List.range groups ×ˢ List.range m

/-- The butterflies of a stage, by group and place. -/
theorem mem_stagePairs {m groups : ℕ} {p : ℕ × ℕ} :
    p ∈ stagePairs m groups ↔ p.1 < groups ∧ p.2 < m := by
  rw [stagePairs, List.mem_product, List.mem_range, List.mem_range]

/-- A stage takes its butterflies group by group. -/
theorem runStage_eq_inOrder (t : Tuning) (m groups : ℕ) (tw x : Array Goldilocks) :
    runStage t m groups tw x =
      inOrder (fun p x => stageStep m tw p.1 p.2 x) (stagePairs m groups) x := by
  rw [runStage_eq, forRange_zero_eq_inOrder, inOrder, inOrder, stagePairs]
  change _ = List.foldl _ x ((List.range groups).flatMap fun g => (List.range m).map (Prod.mk g))
  rw [List.foldl_flatMap]
  simp only [List.foldl_map, forRange_zero_eq_inOrder, inOrder]

/-- **A stage may run its butterflies in any order.** -/
theorem inOrder_stage (t : Tuning) {m groups : ℕ} (tw : Array Goldilocks) {order : List (ℕ × ℕ)}
    (h : order.Perm (stagePairs m groups)) (x : Array Goldilocks) :
    inOrder (fun p x => stageStep m tw p.1 p.2 x) order x = runStage t m groups tw x := by
  rw [runStage_eq_inOrder]
  refine inOrder_perm h (fun p hp q hq => interchangeable_stageStep tw ?_ ?_) x
  · exact (mem_stagePairs.1 (h.mem_iff.1 hp)).2
  · exact (mem_stagePairs.1 (h.mem_iff.1 hq)).2

/-! ### Whole transforms -/

/-- An order for every loop of a transform of `2 ^ bits` entries. -/
structure Schedule (bits : ℕ) where
  gather : List ℕ
  gather_perm : gather.Perm (List.range (2 ^ bits))
  stage : ℕ → List (ℕ × ℕ)
  stage_perm : ∀ s < bits, (stage s).Perm (stagePairs (1 <<< s) ((1 <<< bits) / (2 * 1 <<< s)))

namespace Schedule

variable {bits : ℕ} (S : Schedule bits)

/-- The stages one after the other, each with its butterflies in the order of the schedule. -/
def runStages (tw : Twiddles) (x : Array Goldilocks) : Array Goldilocks :=
  bits.fold (fun s _ x =>
    let m := 1 <<< s
    let groups := (1 <<< bits) / (2 * m)
    inOrder (fun p x => stageStep m (tw.stage m groups) p.1 p.2 x) (S.stage s) x) x

/-- The transform in the order of the schedule. -/
def transform (root : Goldilocks) (input : Array Goldilocks) : Array Goldilocks :=
  S.runStages (.ofRoot root)
    (inOrder (gatherReversed bits input) S.gather (Array.replicate (2 ^ bits) 0))

/-- Whatever the schedule, the stages come to the same. -/
theorem runStages_eq (t : Tuning) (tw : Twiddles) (x : Array Goldilocks) :
    S.runStages tw x = ProofMiner.runStages t bits tw x := by
  rw [runStages, ProofMiner.runStages]
  refine congrArg (Nat.fold bits · x) (funext fun s => funext fun hs => funext fun x => ?_)
  exact inOrder_stage t _ (S.stage_perm s hs) x

/-- **No schedule shows in a transform.** -/
theorem transform_eq (t : Tuning) (hbits : bits < 64) {input : Array Goldilocks}
    (hsize : input.size = 2 ^ bits) (root : Goldilocks) :
    ProofMiner.transform t input root = .ok (S.transform root input) := by
  have hgather : inOrder (gatherReversed bits input) S.gather (Array.replicate (2 ^ bits) 0) =
      Array.ofFn fun i : Fin (2 ^ bits) => input.getD (reverseBits bits i) 0 := by
    rw [inOrder_eq_forRange (interchangeable_gather bits input) S.gather_perm]
    exact forRange_write _ (fun i => input.getD (reverseBits bits i) 0) _ Array.size_replicate
  rw [transform_eq_runStages t hbits hsize, transform, S.runStages_eq t, hgather]

end Schedule

/-- **No loop depends on its schedule.** Whatever the tuning, and whatever the vectors:

* a stage gives what its butterflies give in any order, of all the groups and places in them, so
  also what they give in ascending order;
* the gather gives what its writes give in any order of the indices;
* so does the scaling;
* the pointwise product gives what it gives over parts of the range, in any order, that are disjoint
  and cover it.

The lengths do not matter to this. A gather fails for a length that is no power of two, before it
begins. -/
theorem loops_order_independent (t : Tuning) :
    (∀ (m groups : ℕ) (tw x : Array Goldilocks) (order : List (ℕ × ℕ)),
      order.Perm (stagePairs m groups) →
      inOrder (fun p x => stageStep m tw p.1 p.2 x) order x = runStage t m groups tw x) ∧
    (∀ (data : Array Goldilocks) (order : List ℕ), order.Perm (List.range data.size) →
      bitReversePermute t data = (transformLog2 data.size).map fun bits =>
        inOrder (gatherReversed bits data) order (Array.replicate data.size 0)) ∧
    (∀ (data : Array Goldilocks) (factor : Goldilocks) (order : List ℕ),
      order.Perm (List.range data.size) →
      inOrder (fun i x => x.modify i (· * factor)) order data = scaleEntries t data factor) ∧
    (∀ (a b : Array Goldilocks) (parts : List (ℕ × ℕ)), a.size = b.size →
      Partition a.size parts →
      hadamard t a b = .ok (inParts (fun i out => out.setIfInBounds i (a.getD i 0 * b.getD i 0))
        parts (Array.replicate a.size 0))) := by
  refine ⟨fun m groups tw x order h => inOrder_stage t tw h x, fun data order h => ?_,
    fun data factor order h => ?_, fun a b parts hsize h => ?_⟩
  · rw [bitReversePermute]
    cases transformLog2 data.size with
    | error e => rfl
    | ok bits =>
      simp only [bind, Except.bind, pure, Except.pure, Except.map, Tuning.loop_eq_forRange]
      exact congrArg Except.ok (inOrder_eq_forRange (interchangeable_gather bits data) h _).symm
  · rw [inOrder_eq_forRange (interchangeable_modify _) h, scaleEntries, Tuning.loop_eq_forRange]
  · rw [hadamard, if_neg (not_not.2 hsize), Tuning.loop_eq_forRange]
    exact congrArg Except.ok (inParts_eq_forRange
      (interchangeable_write fun i => a.getD i 0 * b.getD i 0) h _).symm

/-- The hypotheses are satisfiable: the last stage of a transform of four entries with its
butterflies in descending order, and a product of three entries in two parts of which the second one
comes first. -/
theorem loops_order_independent_descending :
    [(0, 1), (0, 0)].Perm (stagePairs 2 1) ∧ Partition 3 [(2, 3), (0, 2)] ∧
    inOrder (fun p x => stageStep 2 #[1, 7] p.1 p.2 x) [(0, 1), (0, 0)] #[3, 1, 4, 1] =
      runStage { mode := .parallel, threads := 2 } 2 1 #[1, 7] #[3, 1, 4, 1] ∧
    hadamard { mode := .parallel, threads := 2 } #[1, 2, 3] #[4, 5, 6] =
      .ok (inParts (fun i out => out.setIfInBounds i
        ((#[1, 2, 3] : Array Goldilocks).getD i 0 * (#[4, 5, 6] : Array Goldilocks).getD i 0))
        [(2, 3), (0, 2)] (Array.replicate 3 0)) := by
  have hpairs : [(0, 1), (0, 0)].Perm (stagePairs 2 1) := by decide
  have hparts : Partition 3 [(2, 3), (0, 2)] := ⟨by decide, by decide, by decide⟩
  obtain ⟨hstage, -, -, hproduct⟩ := loops_order_independent { mode := .parallel, threads := 2 }
  exact ⟨hpairs, hparts, hstage 2 1 #[1, 7] #[3, 1, 4, 1] _ hpairs,
    hproduct #[1, 2, 3] #[4, 5, 6] _ rfl hparts⟩

end ProofMiner
