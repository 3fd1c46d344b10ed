/-
# Accesses of a transform

The engine reads an entry that is not there as zero and drops a write outside the vector. Neither
ever happens. A checked stage is one that ends without a result as soon as it would read or write
outside (`runStage?`), and the checked stages of a transform have a result, which is that of the
stages themselves (`runStages?_eq`): the groups of a stage fill the vector exactly, and with
`groups = n / 2m` the last twiddle that it reads from a table, at `(m - 1) * groups`, is one of the
`n / 2 = m * groups` entries.

So a table of the right length can stand for the powers of its root, whatever the root, and one of
any other length is refused before a stage begins (`table_stands_for_root`).
-/

import ProofMiner.Proofs.Transform.Inversion

namespace ProofMiner

open Goldilocks

/-! ### Checked stages -/

/-- A write to an entry that is there. -/
def write? (x : Array Goldilocks) (i : ℕ) (v : Goldilocks) : Option (Array Goldilocks) :=
  if h : i < x.size then some (x.set i v h) else none

/-- The butterfly of two entries that are there. -/
def butterfly? (lo hi : ℕ) (w : Goldilocks) (x : Array Goldilocks) :
    Option (Array Goldilocks) := do
  let u ← x[lo]?
  let v ← x[hi]?
  let x ← write? x lo (u + v * w)
  write? x hi (u - v * w)

/-- The `m` twiddles of the stage with `groups` groups, if the table has all that it reads. -/
def Twiddles.stage? (tw : Twiddles) (m groups : ℕ) : Option (Array Goldilocks) :=
  match tw with
  | .ofRoot root => some ((root ^ groups).powers m)
  | .ofTable table =>
    forRange 0 m (fun j tw => tw.bind fun tw => table[j * groups]?.map tw.push) (some #[])

/-- Butterfly `j` of group `g`, with a twiddle that is there. -/
def stageStep? (m : ℕ) (tw : Array Goldilocks) (g j : ℕ) (x : Array Goldilocks) :
    Option (Array Goldilocks) := do
  let w ← tw[j]?
  butterfly? (g * (2 * m) + j) (g * (2 * m) + j + m) w x

/-- One stage, shared out like `runStage`. -/
def runStage? (t : Tuning) (m groups : ℕ) (tw : Array Goldilocks) (x : Array Goldilocks) :
    Option (Array Goldilocks) :=
  if m ≤ groups then
    t.loop (t.splits groups t.group) groups
      (fun g x => forRange 0 m (fun j x => x.bind (stageStep? m tw g j)) x) (some x)
  else
    forRange 0 groups
      (fun g x => t.loop (t.splits m t.span) m (fun j x => x.bind (stageStep? m tw g j)) x) (some x)

/-- The stage of half-width `2 ^ k` on a vector of length `2 ^ bits`. -/
def runStageAt? (t : Tuning) (bits : ℕ) (tw : Twiddles) (k : ℕ) (x : Array Goldilocks) :
    Option (Array Goldilocks) := do
  let m := 1 <<< k
  let groups := (1 <<< bits) / (2 * m)
  runStage? t m groups (← tw.stage? m groups) x

/-- All stages. There is no result once one of their accesses was outside. -/
def runStages? (t : Tuning) (bits : ℕ) (tw : Twiddles) (x : Array Goldilocks) :
    Option (Array Goldilocks) :=
  forRange 0 bits (fun k x => x.bind (runStageAt? t bits tw k)) (some x)

/-! ### Checks that hold -/

/-- **A loop of checks that hold does what the loop without them does**, if its steps keep what the
checks rest on. -/
theorem forRange_some {α : Type} (P : α → Prop) {n : ℕ} {step : ℕ → α → α}
    {step? : ℕ → Option α → Option α}
    (hstep : ∀ i x, i < n → P x → step? i (some x) = some (step i x) ∧ P (step i x)) {x : α}
    (hx : P x) :
    forRange 0 n step? (some x) = some (forRange 0 n step x) ∧ P (forRange 0 n step x) := by
  induction n with
  | zero =>
    rw [forRange_self, forRange_self]
    exact ⟨rfl, hx⟩
  | succ n ih =>
    obtain ⟨hrun, hkept⟩ := ih fun i x hi => hstep i x (hi.trans n.lt_succ_self)
    rw [forRange_succ n.zero_le, forRange_succ n.zero_le, hrun]
    exact hstep n _ n.lt_succ_self hkept

/-- Within bounds the checked operations do what the others do. -/
theorem write?_of_lt {x : Array Goldilocks} {i : ℕ} (h : i < x.size) (v : Goldilocks) :
    write? x i v = some (x.setIfInBounds i v) := by
  rw [write?, dif_pos h, Array.setIfInBounds, dif_pos h]

/-- Within bounds a read gives an entry. -/
theorem getElem?_eq_some_getD {x : Array Goldilocks} {i : ℕ} (h : i < x.size) :
    x[i]? = some (x.getD i 0) := by
  rw [Array.getD_eq_getD_getElem?, Array.getElem?_eq_getElem h, Option.getD_some]

theorem butterfly?_of_lt {lo hi : ℕ} {x : Array Goldilocks} (hlo : lo < x.size) (hhi : hi < x.size)
    (w : Goldilocks) : butterfly? lo hi w x = some (butterfly lo hi w x) := by
  simp only [butterfly?, getElem?_eq_some_getD hlo, getElem?_eq_some_getD hhi, write?_of_lt hlo,
    Option.bind_eq_bind, Option.bind_some]
  rw [write?_of_lt (by rwa [Array.size_setIfInBounds])]
  rfl

/-- A step of a stage stays within its group and its twiddle factors. -/
theorem stageStep?_of_lt {m g j : ℕ} {tw x : Array Goldilocks} (hj : j < m) (htw : m ≤ tw.size)
    (hfit : g * (2 * m) + 2 * m ≤ x.size) :
    stageStep? m tw g j x = some (stageStep m tw g j x) := by
  rw [stageStep?, getElem?_eq_some_getD (hj.trans_le htw)]
  exact butterfly?_of_lt (by omega) (by omega) _

/-- **A stage stays inside its vector**, if its groups fill the vector. -/
theorem runStage?_eq (t : Tuning) {m groups : ℕ} {tw x : Array Goldilocks} (htw : m ≤ tw.size)
    (hsize : x.size = groups * (2 * m)) :
    runStage? t m groups tw x = some (runStage t m groups tw x) := by
  have hgroup : ∀ g (y : Array Goldilocks), g < groups → y.size = x.size →
      forRange 0 m (fun j x => x.bind (stageStep? m tw g j)) (some y) =
          some (forRange 0 m (stageStep m tw g) y) ∧
        (forRange 0 m (stageStep m tw g) y).size = x.size := by
    intro g y hg hy
    have hfit : g * (2 * m) + 2 * m ≤ x.size := (group_le_of_lt hg).trans_eq hsize.symm
    refine forRange_some (fun y : Array Goldilocks => y.size = x.size) (fun j y hj hy => ?_) hy
    exact ⟨stageStep?_of_lt hj htw (hfit.trans_eq hy.symm), (size_butterfly _ _ _ _).trans hy⟩
  have hstage := forRange_some (fun y : Array Goldilocks => y.size = x.size) hgroup rfl
  rw [runStage_eq, ← hstage.1, runStage?]
  simp only [Tuning.loop_eq_forRange, ite_self]

/-- A stage reads a table of `m * groups` entries at multiples of `groups`. -/
theorem Twiddles.stage?_ofTable {m groups : ℕ} {table : Array Goldilocks} (hgroups : 0 < groups)
    (htable : m * groups ≤ table.size) :
    (Twiddles.ofTable table).stage? m groups = some ((Twiddles.ofTable table).stage m groups) := by
  have hread : ∀ n ≤ m, forRange 0 n (fun j tw => tw.bind fun tw =>
      table[j * groups]?.map tw.push) (some #[]) =
        some (Array.ofFn fun j : Fin n => table.getD (j * groups) 0) := by
    intro n hn
    induction n with
    | zero => rw [forRange_self, Array.ofFn_zero]
    | succ n ih =>
      have hlt : n * groups < table.size :=
        (Nat.mul_lt_mul_of_pos_right hn hgroups).trans_le htable
      rw [forRange_succ n.zero_le, ih (by omega), Option.bind_some, getElem?_eq_some_getD hlt,
        Array.ofFn_succ]
      rfl
  exact hread m le_rfl

/-- A stage has as many twiddle factors as its groups have butterflies. -/
theorem Twiddles.size_stage (tw : Twiddles) (m groups : ℕ) : (tw.stage m groups).size = m := by
  cases tw with
  | ofRoot root => rw [stage_ofRoot, Array.size_ofFn]
  | ofTable table => exact Array.size_ofFn

/-- Twiddles for a vector of length `2 ^ bits`: a root, or a table of half that length. -/
def Twiddles.Fit (bits : ℕ) : Twiddles → Prop
  | .ofRoot _ => True
  | .ofTable table => table.size = 2 ^ bits / 2

/-- In stage `s` of `s + c + 1` stages, `2 ^ c` is both the number of groups and the distance of the
entries read. -/
theorem Twiddles.Fit.stage?_eq {tw : Twiddles} {s c : ℕ} (htw : tw.Fit (s + c + 1)) :
    tw.stage? (2 ^ s) (2 ^ c) = some (tw.stage (2 ^ s) (2 ^ c)) := by
  cases tw with
  | ofRoot root => rfl
  | ofTable table =>
    have hlen : table.size = 2 ^ (s + c + 1) / 2 := htw
    refine stage?_ofTable (Nat.two_pow_pos c) (le_of_eq ?_)
    rw [hlen, pow_succ, Nat.mul_div_cancel _ two_pos, pow_add]

/-- **Every access of the stages is inside the vector and the table**, from the first stage to the
last one: each finds the vector as long as the first one did. -/
theorem runStages?_eq (t : Tuning) {bits : ℕ} {tw : Twiddles} (htw : tw.Fit bits)
    {x : Array Goldilocks} (hsize : x.size = 2 ^ bits) :
    runStages? t bits tw x = some (runStages t bits tw x) := by
  rw [runStages?, runStages, fold_eq_forRange]
  refine (forRange_some (fun y : Array Goldilocks => y.size = 2 ^ bits) ?_ hsize).1
  intro s y hs hy
  obtain ⟨c, rfl⟩ := Nat.exists_eq_add_of_lt hs
  have hfull : y.size = 2 ^ c * (2 * 2 ^ s) := by
    rw [hy]
    ring
  rw [Option.bind_some, runStageAt?]
  dsimp only
  rw [add_assoc, groups_eq, Nat.one_shiftLeft, htw.stage?_eq]
  exact ⟨runStage?_eq t (Twiddles.size_stage _ _ _).ge hfull,
    (runStage_combined t _ hfull).1.trans hy⟩

/-! ### Tables -/

/-- **A table of twiddles stands for its root.** With the table of any root, primitive or not, the
transform gives what it gives with the root, for the same tuning. For every length that is a power
of two, the stages reach their result without an access outside of the gathered vector or of the
table, for the root and for every table of half the length. Every other table is refused. -/
theorem table_stands_for_root (t : Tuning) (input : Array Goldilocks) (root : Goldilocks) :
    transformWithTwiddles t input (twiddleTable root input.size) = transform t input root ∧
    ∀ k < 64, input.size = 2 ^ k → ∃ data, bitReversePermute t input = .ok data ∧
      (∃ output, transform t input root = .ok output ∧
        runStages? t k (.ofRoot root) data = some output) ∧
      ∀ table : Array Goldilocks,
        (table.size = input.size / 2 →
          ∃ output, transformWithTwiddles t input table = .ok output ∧
            runStages? t k (.ofTable table) data = some output) ∧
        (table.size ≠ input.size / 2 →
          transformWithTwiddles t input table = .error (.twiddleLength table.size input.size) ∧
            (Fault.twiddleLength table.size input.size).kind = .lengthMismatch) := by
  refine ⟨?_, fun k hk hsize => ?_⟩
  · cases hlog : transformLog2 input.size with
    | error fault =>
      rw [transformWithTwiddles, transform, hlog]
      rfl
    | ok k =>
      obtain ⟨hk, hsize⟩ := eq_two_pow_of_transformLog2 hlog
      rw [hsize]
      exact transformWithTwiddles_eq t hk hsize root
  · have hgather := bitReversePermute_eq t hk input hsize
    have hroot : (Twiddles.ofRoot root).Fit k := trivial
    refine ⟨_, hgather, ⟨_, ?_, runStages?_eq t hroot Array.size_ofFn⟩,
      fun table => ⟨fun htable => ?_, fun htable => ?_⟩⟩
    · exact transform_eq_runStages t hk hsize root
    · have hfit : (Twiddles.ofTable table).Fit k := htable.trans (by rw [hsize])
      exact ⟨_, transformWithTwiddles_eq_runStages t hk hsize htable,
        runStages?_eq t hfit Array.size_ofFn⟩
    · exact ⟨transformWithTwiddles_of_size_ne t hk hsize htable, rfl⟩

/-- The hypotheses are satisfiable: four entries, the root zero, its table, and one that is too
long. -/
theorem table_stands_for_root_zero :
    (#[3, 1, 4, 1] : Array Goldilocks).size = 2 ^ 2 ∧
    transformWithTwiddles { mode := .parallel, threads := 3 } #[3, 1, 4, 1] (twiddleTable 0 4) =
      transform { mode := .parallel, threads := 3 } #[3, 1, 4, 1] 0 ∧
    (∃ data output, bitReversePermute { mode := .parallel, threads := 3 } #[3, 1, 4, 1] = .ok data ∧
      runStages? { mode := .parallel, threads := 3 } 2 (.ofTable #[1, 0]) data = some output) ∧
    transformWithTwiddles { mode := .parallel, threads := 3 } #[3, 1, 4, 1] #[1, 0, 0] =
      .error (.twiddleLength 3 4) := by
  obtain ⟨htable, hlengths⟩ := table_stands_for_root { mode := .parallel, threads := 3 }
    #[3, 1, 4, 1] 0
  obtain ⟨data, hdata, -, htables⟩ := hlengths 2 (by decide) rfl
  obtain ⟨output, -, hchecked⟩ := (htables #[1, 0]).1 rfl
  exact ⟨rfl, htable, ⟨data, output, hdata, hchecked⟩, ((htables #[1, 0, 0]).2 (by decide)).1⟩

end ProofMiner
