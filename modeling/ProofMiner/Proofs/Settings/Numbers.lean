/-
# Numbers in sources of settings

A setting that is a number has room for some numbers only, and wraps the others (`NumberSetting`). A source is
exact about it if a number that is accepted is held as it is, and everything else is refused (`Source.Exact`).

A source is refused for the first fault of its values, and that fault names the value or is another one's
(`Source.refused_of_ne_ok`). So whether it is exact is a matter of what it accepts (`Source.exact_iff`).
-/

import ProofMiner.Proofs.Json.Conversions
import ProofMiner.Proofs.Settings.Refusals

namespace ProofMiner
namespace Settings

variable {β : Type} {name : String} {i : ℤ}

/-! ### Settings that are numbers -/

/-- A setting that is a number. -/
structure NumberSetting where
  held : Settings → ℤ
  /-- The least number that is accepted. -/
  least : ℤ
  /-- The first number that there is no room for. -/
  bound : ℤ
  /-- What is held of a number. -/
  wrap : ℤ → ℤ
  wrap_eq_iff {i : ℤ} (h : least ≤ i) : wrap i = i ↔ i < bound

/-- The setting has room for the number. -/
def NumberSetting.Fits (x : NumberSetting) (i : ℤ) : Prop := x.least ≤ i ∧ i < x.bound

/-- What fits is held as it is. -/
theorem NumberSetting.Fits.wrap_eq {x : NumberSetting} (h : x.Fits i) : x.wrap i = i :=
  (x.wrap_eq_iff h.1).2 h.2

/-- A signed word holds just the numbers below its bound, of those that are not negative. -/
theorem bmod_eq_iff {width : ℕ} {bound : ℤ} (hwidth : (width : ℤ) = 2 * bound) (hbound : 0 < bound)
    (h : 0 ≤ i) : i.bmod width = i ↔ i < bound := by
  constructor
  · intro hi
    have hlt := Int.bmod_lt (x := i) (m := width) (by omega)
    omega
  · exact fun hi => Int.bmod_eq_of_le_mul_two (by omega) (by omega)

/-- An unsigned word holds just the numbers below its size. -/
theorem emod_eq_iff {n : ℤ} (h : 0 ≤ i) (hn : 0 < n) : i % n = i ↔ i < n :=
  ⟨fun hi => hi ▸ Int.emod_lt_of_pos i hn, Int.emod_eq_of_lt h⟩

/-- The number of threads. -/
def threadCount : NumberSetting where
  held s := s.threads.toInt
  least := 1
  bound := 2 ^ 31
  wrap i := i.bmod (2 ^ 32)
  wrap_eq_iff h := bmod_eq_iff rfl (by decide) (by omega)

/-- The capacity of the queue. -/
def capacity : NumberSetting where
  held s := s.queueCapacity.toNat
  least := 1
  bound := 2 ^ 64
  wrap i := i % 2 ^ 64
  wrap_eq_iff h := emod_eq_iff (by omega) (by decide)

/-- The most restarts of a worker. -/
def ceiling : NumberSetting where
  held s := s.restart.maxRestarts.toNat
  least := 0
  bound := 2 ^ 32
  wrap i := i % 2 ^ 32
  wrap_eq_iff h := emod_eq_iff h (by decide)

/-- One of the two delays, in milliseconds. -/
def delay (ofPolicy : RestartPolicy → Int64) : NumberSetting where
  held s := (ofPolicy s.restart).toInt
  least := 0
  bound := 2 ^ 63
  wrap i := i.bmod (2 ^ 64)
  wrap_eq_iff h := bmod_eq_iff rfl (by decide) h

/-- What a setting holds already is not wrapped again. -/
theorem threadCount_wrap (n : Int32) : threadCount.wrap n.toInt = n.toInt := by
  have hlow := n.le_toInt
  have hhigh := n.toInt_lt
  exact Int.bmod_eq_of_le_mul_two (by omega) (by omega)

/-- A capacity has all the bits of its number. -/
theorem capacity_wrap (w : UInt64) : capacity.wrap w.toNat = w.toNat :=
  Int.emod_eq_of_lt (Int.natCast_nonneg _) (by exact_mod_cast w.toNat_lt)

theorem ceiling_wrap (n : UInt32) : ceiling.wrap n.toNat = n.toNat :=
  Int.emod_eq_of_lt (Int.natCast_nonneg _) (by exact_mod_cast n.toNat_lt)

/-- The top bit of the number becomes the sign. -/
theorem delay_wrap (ofPolicy : RestartPolicy → Int64) (w : UInt64) :
    (delay ofPolicy).wrap w.toNat = w.toInt64.toInt := by
  simp only [delay, toInt_toInt64]

/-- What is not checked is accepted from zero on. -/
theorem unchecked_iff (n : ℕ) : (none : Option Fault) = none ↔ (0 : ℤ) ≤ n :=
  iff_of_true rfl (Int.natCast_nonneg n)

/-- A capacity is refused if and only if it is zero. -/
theorem capacity_check_iff {e : Fault} {w : UInt64} :
    (if w = 0 then some e else none) = none ↔ capacity.least ≤ w.toNat := by
  have hzero : w = 0 ↔ w.toNat = 0 := UInt64.toNat_inj.symm
  have hleast : capacity.least ≤ w.toNat ↔ w.toNat ≠ 0 := by
    change (1 : ℤ) ≤ w.toNat ↔ _
    omega
  rw [hleast, ne_eq, ← not_congr hzero]
  split_ifs with hw
  · exact iff_of_false nofun (not_not.2 hw)
  · exact iff_of_true rfl hw

/-! ### Exact sources -/

/-- Where the numbers come from. -/
structure Source (β : Type) where
  value? : String → Option β
  /-- The value is the number. -/
  Denotes : β → ℤ → Prop
  /-- What each value is refused for. -/
  refusals : List (String × (β → Option Fault))

namespace Source

variable {S : Source β} {run : Except Fault Unit × Settings} {x : NumberSetting}

/-- The source is refused. The fault names the value, or it is the fault of another value. -/
def Refused (S : Source β) (result : Except Fault Unit) (name : String) : Prop :=
  ∃ e, result = .error e ∧ e.IsInvalidArgument ∧
    (e.Names name ∨ ∃ r ∈ S.refusals, r.1 ≠ name ∧ ∃ b, S.value? r.1 = some b ∧ r.2 b = some e)

/-- A number is held as it is, or refused. -/
structure Exact (S : Source β) (run : Except Fault Unit × Settings) (name : String) (x : NumberSetting) :
    Prop where
  /-- What is accepted is a number, and the setting holds it. -/
  held : ∀ b, S.value? name = some b → run.1 = .ok () → ∃ i, S.Denotes b i ∧ x.held run.2 = i
  /-- What is no number that fits is refused. -/
  refused : ∀ b, S.value? name = some b → (∀ i, S.Denotes b i → ¬ x.Fits i) → S.Refused run.1 name

/-- The faults of the source are those of arguments, and those of the named value name it. -/
def Blames (S : Source β) (name : String) : Prop :=
  ∀ r ∈ S.refusals, ∀ b e, r.2 b = some e → e.IsInvalidArgument ∧ (r.1 = name → e.Names name)

/-- A source that fails refuses the value that is to blame. -/
theorem refused_of_ne_ok (hrun : run.1 = outcome (firstRefusal S.refusals S.value?))
    (hblames : S.Blames name) (h : run.1 ≠ .ok ()) : S.Refused run.1 name := by
  cases hfault : firstRefusal S.refusals S.value? with
  | none => exact absurd (hrun.trans (outcome_eq_ok_iff.2 hfault)) h
  | some e =>
    obtain ⟨r, hr, b, hb, hrefused⟩ := exists_of_firstRefusal hfault
    obtain ⟨hinvalid, hnames⟩ := hblames r hr b e hrefused
    refine ⟨e, hrun.trans (outcome_eq_error_iff.2 hfault), hinvalid, ?_⟩
    by_cases hname : r.1 = name
    · exact .inl (hnames hname)
    · exact .inr ⟨r, hr, hname, b, hb, hrefused⟩

/-- A source is exact about a number unless it is accepted with a value that does not fit. -/
theorem exact_iff (hrun : run.1 = outcome (firstRefusal S.refusals S.value?)) (hblames : S.Blames name)
    (hheld : run.1 = .ok () → ∀ b i, S.value? name = some b → S.Denotes b i → x.Fits i →
      x.held run.2 = i) :
    S.Exact run name x ↔
      ¬ (run.1 = .ok () ∧ ∃ b, S.value? name = some b ∧ ∀ i, S.Denotes b i → ¬ x.Fits i) := by
  constructor
  · rintro h ⟨hok, b, hb, hmiss⟩
    obtain ⟨e, he, -⟩ := h.refused b hb hmiss
    cases hok.symm.trans he
  · intro h
    have hfits (hok : run.1 = .ok ()) (b : β) (hb : S.value? name = some b) :
        ∃ i, S.Denotes b i ∧ x.Fits i := by
      by_contra hmiss
      exact h ⟨hok, b, hb, fun i hi hfit => hmiss ⟨i, hi, hfit⟩⟩
    refine ⟨fun b hb hok => ?_, fun b hb hmiss => ?_⟩
    · obtain ⟨i, hi, hfit⟩ := hfits hok b hb
      exact ⟨i, hi, hheld hok b i hb hi hfit⟩
    · refine refused_of_ne_ok hrun hblames fun hok => ?_
      obtain ⟨i, hi, hfit⟩ := hfits hok b hb
      exact hmiss i hi hfit

end Source

/-- A value that a source gives can be read, and this is what the setting becomes. -/
theorem Reads.exists_eq_some {α : Type} {read : β → Option α} {source? : Option β} {x? : Option α} {b : β}
    (h : Reads read source? x?) (hb : source? = some b) : ∃ x, read b = some x ∧ x? = some x := by
  subst hb
  cases x? with
  | none => cases h
  | some x => exact ⟨x, Option.some.inj h, rfl⟩

end Settings
end ProofMiner
