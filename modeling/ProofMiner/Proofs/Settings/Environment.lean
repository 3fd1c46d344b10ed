/-
# Numbers in an environment

An environment is accepted if and only if its numbers are of 64 bits and not too small, and its flag is one
(`applyEnvironment_ok_iff`). It is then exact about the numbers that their settings have room for
(`environment_exact_iff`). A larger ceiling of restarts loses the bits above the lowest 32, so that it may
become zero, which sets no limit (`ceiling_zero_iff`), and a larger delay becomes negative
(`delay_negative_iff`).
-/

import ProofMiner.Proofs.Settings.Numbers
import ProofMiner.Proofs.Work.Payouts

namespace ProofMiner

/-- The text is a decimal that consists of digits only. -/
def Decimal.Denotes (text : String) (i : ℤ) : Prop :=
  text.toList ≠ [] ∧ (∀ c ∈ text.toList, c.isDigit) ∧ (value text.toList : ℤ) = i

namespace Settings

variable {s : Settings} {env : Environment} {text name : String} {i : ℤ}

/-- The variables that hold numbers, each with its setting. -/
def numberVariables : List (String × NumberSetting) := [
  ("ZKPOW_QUEUE_CAPACITY", capacity), ("ZKPOW_MAX_RESTARTS", ceiling),
  ("ZKPOW_RESTART_BACKOFF_MS", delay RestartPolicy.initialBackoff),
  ("ZKPOW_RESTART_BACKOFF_MAX_MS", delay RestartPolicy.maxBackoff)]

/-- An environment as a source of numbers. -/
def Source.environment (env : Environment) : Source String where
  value? := nonEmpty? env
  Denotes := Decimal.Denotes
  refusals := variableRefusals

/-- The text is a number of 64 bits that is not too small for the setting. -/
def NumberSetting.Accepts (x : NumberSetting) (text : String) : Prop :=
  ∃ i, Decimal.Denotes text i ∧ x.least ≤ i ∧ i < 2 ^ 64

/-- A text is read as a word if it denotes one. -/
theorem word?_eq_some_iff {w : UInt64} : word? text = some w ↔ Decimal.Denotes text w.toNat := by
  have hword : word? text = some w ↔ Decimal.word text.toList = .ok w := by
    rw [word?]
    cases Decimal.word text.toList with
    | ok w' => exact ⟨fun h => congrArg _ (Option.some.inj h), fun h => congrArg _ (Except.ok.inj h)⟩
    | error e => constructor <;> intro h <;> cases h
  rw [hword, Decimal.word_eq_ok_iff, Decimal.Denotes, Nat.cast_inj]

/-- A variable is not refused if its text is accepted for the setting. -/
theorem numberRefusal_eq_none_iff {check : UInt64 → Option Fault} {x : NumberSetting}
    (hcheck : ∀ w, check w = none ↔ x.least ≤ w.toNat) :
    (numberRefusal name check).2 text = none ↔ x.Accepts text := by
  refine refusal_eq_none_iff.trans ?_
  constructor
  · rintro ⟨w, hw, hchecked⟩
    exact ⟨w.toNat, word?_eq_some_iff.1 hw, (hcheck w).1 hchecked, by exact_mod_cast w.toNat_lt⟩
  · rintro ⟨_, ⟨hne, hdigits, rfl⟩, hleast, hlt⟩
    have hword : (UInt64.ofNat (Decimal.value text.toList)).toNat = Decimal.value text.toList :=
      UInt64.toNat_ofNat_of_lt' (by exact_mod_cast hlt)
    exact ⟨_, word?_eq_some_iff.2 ⟨hne, hdigits, congrArg _ hword.symm⟩, (hcheck _).2 (hword.symm ▸ hleast)⟩

/-- **Which environments are accepted.** -/
theorem applyEnvironment_ok_iff : ((applyEnvironment env).run s).1 = .ok () ↔
    (∀ p ∈ numberVariables, ∀ text, nonEmpty? env p.1 = some text → p.2.Accepts text) ∧
    ∀ text, nonEmpty? env "ZKPOW_PRECOMPUTE_DOMAINS" = some text → ∃ b, flag? text = some b := by
  have hnumber (name : String) {check : UInt64 → Option Fault} {x : NumberSetting}
      (hcheck : ∀ w, check w = none ↔ x.least ≤ w.toNat) :
      (∀ text, nonEmpty? env name = some text → (numberRefusal name check).2 text = none) ↔
        ∀ text, nonEmpty? env name = some text → x.Accepts text :=
    forall₂_congr fun text _ => numberRefusal_eq_none_iff hcheck
  have hnone (w : UInt64) := unchecked_iff w.toNat
  have hflag (name : String) : (∀ text, nonEmpty? env name = some text →
      refusal (.variableNotBool name) flag? (fun _ => none) text = none) ↔
        ∀ text, nonEmpty? env name = some text → ∃ b, flag? text = some b :=
    forall₂_congr fun text _ => refusal_eq_none_iff.trans (by simp only [and_true])
  rw [applyEnvironment_run_fst, outcome_eq_ok_iff, firstRefusal_eq_none_iff]
  simp only [variableRefusals, numberVariables, List.forall_mem_cons, List.not_mem_nil, IsEmpty.forall_iff,
    implies_true, true_and, and_true]
  rw [← hnumber "ZKPOW_QUEUE_CAPACITY" fun _ => capacity_check_iff (e := .variableNoCapacity),
    ← hnumber "ZKPOW_MAX_RESTARTS" (x := ceiling) hnone,
    ← hnumber "ZKPOW_RESTART_BACKOFF_MS" (x := delay RestartPolicy.initialBackoff) hnone,
    ← hnumber "ZKPOW_RESTART_BACKOFF_MAX_MS" (x := delay RestartPolicy.maxBackoff) hnone, ← hflag]
  simp only [numberRefusal, and_assoc]

/-- What the settings hold of the numbers in an environment. -/
theorem held_of_environment (hok : ((applyEnvironment env).run s).1 = .ok ()) {p : String × NumberSetting}
    (hp : p ∈ numberVariables) (htext : nonEmpty? env p.1 = some text) (hi : Decimal.Denotes text i) :
    p.2.held ((applyEnvironment env).run s).2 = p.2.wrap i := by
  obtain ⟨o, hvariables, hs⟩ := exists_fromVariables (Prod.ext hok rfl)
  have hheld : p.2.held ((applyEnvironment env).run s).2 = p.2.held (o.apply s) := congrArg p.2.held hs
  rw [hheld]
  have hword {w : UInt64} (hw : word? text = some w) : (w.toNat : ℤ) = i :=
    (word?_eq_some_iff.1 hw).2.2.symm.trans hi.2.2
  simp only [numberVariables, List.mem_cons, List.not_mem_nil, or_false] at hp
  rcases hp with rfl | rfl | rfl | rfl
  · obtain ⟨w, hw, ho⟩ := hvariables.queueCapacity.exists_eq_some htext
    rw [← hword hw, capacity_wrap]
    simp only [capacity, Overrides.apply, ho, Option.getD_some]
  · obtain ⟨n, hn, ho⟩ := hvariables.maxRestarts.exists_eq_some htext
    obtain ⟨w, hw, rfl⟩ := Option.map_eq_some_iff.1 hn
    rw [← hword hw]
    simp only [ceiling, Overrides.apply, ho, Option.getD_some]
    rw [UInt64.toNat_toUInt32, Int.natCast_emod]
    rfl
  · obtain ⟨n, hn, ho⟩ := hvariables.initialBackoff.exists_eq_some htext
    obtain ⟨w, hw, rfl⟩ := Option.map_eq_some_iff.1 hn
    rw [← hword hw, delay_wrap]
    simp only [delay, Overrides.apply, ho, Option.getD_some]
  · obtain ⟨n, hn, ho⟩ := hvariables.maxBackoff.exists_eq_some htext
    obtain ⟨w, hw, rfl⟩ := Option.map_eq_some_iff.1 hn
    rw [← hword hw, delay_wrap]
    simp only [delay, Overrides.apply, ho, Option.getD_some]

/-- Every fault of an environment names its variable. -/
theorem blames_environment (env : Environment) (name : String) : (Source.environment env).Blames name := by
  intro r hr text e he
  have hblames := blames_variableRefusals hr he
  exact ⟨hblames.isInvalidArgument, fun hname => hname ▸ hblames.names⟩

/-- **An environment is exact unless a number has too many bits.** It is accepted if and only if each number is
one of 64 bits that is not too small for its setting, and the flag is one. What is accepted is exact about a
number if and only if the setting has room for it: the setting holds what it wraps the number to. -/
theorem environment_exact_iff (env : Environment) (s : Settings) :
    (∀ p ∈ numberVariables,
      ((Source.environment env).Exact ((applyEnvironment env).run s) p.1 p.2 ↔
        ¬ (((applyEnvironment env).run s).1 = .ok () ∧
          ∃ text i, nonEmpty? env p.1 = some text ∧ Decimal.Denotes text i ∧ p.2.bound ≤ i)) ∧
      (((applyEnvironment env).run s).1 = .ok () → ∀ text i, nonEmpty? env p.1 = some text →
        Decimal.Denotes text i → p.2.held ((applyEnvironment env).run s).2 = p.2.wrap i)) ∧
    (((applyEnvironment env).run s).1 = .ok () ↔
      (∀ p ∈ numberVariables, ∀ text, nonEmpty? env p.1 = some text → p.2.Accepts text) ∧
      ∀ text, nonEmpty? env "ZKPOW_PRECOMPUTE_DOMAINS" = some text → ∃ b, flag? text = some b) := by
  refine ⟨fun p hp => ⟨?_, fun hok text i => held_of_environment hok hp⟩, applyEnvironment_ok_iff⟩
  have hexact := Source.exact_iff (S := .environment env) (x := p.2) (applyEnvironment_run_fst env s)
    (blames_environment env p.1) fun hok text i htext hi hfit =>
      (held_of_environment hok hp htext hi).trans hfit.wrap_eq
  refine hexact.trans (not_congr (and_congr_right fun hok => exists_congr fun text => ?_))
  constructor
  · rintro ⟨htext, hmiss⟩
    obtain ⟨i, hi, hleast, -⟩ := (applyEnvironment_ok_iff.1 hok).1 p hp text htext
    exact ⟨i, htext, hi, not_lt.1 fun hlt => hmiss i hi ⟨hleast, hlt⟩⟩
  · rintro ⟨i, htext, hi, hbound⟩
    refine ⟨htext, fun i' hi' hfit => ?_⟩
    obtain rfl : i = i' := hi.2.2.symm.trans hi'.2.2
    exact absurd hfit.2 (not_lt.2 hbound)

/-- An environment with a delay of a quarter of a second. -/
def quarterSecond : Environment := [("ZKPOW_MAX_RESTARTS", ""), ("ZKPOW_RESTART_BACKOFF_MS", "250")]

theorem environment_exact_iff_quarterSecond :
    ((applyEnvironment quarterSecond).run {}).1 = .ok () ∧
    (Source.environment quarterSecond).Exact ((applyEnvironment quarterSecond).run {})
      "ZKPOW_RESTART_BACKOFF_MS" (delay RestartPolicy.initialBackoff) ∧
    (delay RestartPolicy.initialBackoff).held ((applyEnvironment quarterSecond).run {}).2 = 250 := by
  have hok : ((applyEnvironment quarterSecond).run {}).1 = .ok () := rfl
  have hmem : ("ZKPOW_RESTART_BACKOFF_MS", delay RestartPolicy.initialBackoff) ∈ numberVariables :=
    List.mem_of_getElem? (i := 2) rfl
  have hnumber : Decimal.Denotes "250" 250 := (word?_eq_some_iff (w := 250)).1 rfl
  obtain ⟨hexact, hheld⟩ := (environment_exact_iff quarterSecond {}).1 _ hmem
  refine ⟨hok, hexact.2 ?_, hheld hok "250" 250 rfl hnumber⟩
  rintro ⟨-, text, i, htext, hi, hbound⟩
  obtain rfl : "250" = text := Option.some.inj htext
  obtain rfl : 250 = i := hnumber.2.2.symm.trans hi.2.2
  exact absurd hbound (by decide)

/-- The least ceiling of restarts that there is no room for. -/
def roundCeiling : Environment := [("ZKPOW_MAX_RESTARTS", "4294967296")]

/-- Nothing is left of it. -/
theorem roundCeiling_lost : ((applyEnvironment roundCeiling).run {}).1 = .ok () ∧
    ((applyEnvironment roundCeiling).run {}).2.restart.maxRestarts = 0 ∧
    ¬ (Source.environment roundCeiling).Exact ((applyEnvironment roundCeiling).run {})
      "ZKPOW_MAX_RESTARTS" ceiling := by
  refine ⟨rfl, rfl, fun h => ?_⟩
  obtain ⟨i, hi, hheld⟩ := h.held "4294967296" rfl rfl
  have hnumber : Decimal.Denotes "4294967296" 4294967296 :=
    (word?_eq_some_iff (w := 4294967296)).1 rfl
  obtain rfl : 4294967296 = i := hnumber.2.2.symm.trans hi.2.2
  have hzero : ceiling.held ((applyEnvironment roundCeiling).run {}).2 = 0 := rfl
  cases hzero.symm.trans hheld

/-- **No limit on the restarts** comes of zero, and of every other number that loses all its bits. -/
theorem ceiling_zero_iff (hok : ((applyEnvironment env).run s).1 = .ok ())
    (htext : nonEmpty? env "ZKPOW_MAX_RESTARTS" = some text) (hi : Decimal.Denotes text i) :
    ((applyEnvironment env).run s).2.restart.maxRestarts = 0 ↔ 2 ^ 32 ∣ i := by
  have hmem : ("ZKPOW_MAX_RESTARTS", ceiling) ∈ numberVariables := List.mem_of_getElem? (i := 1) rfl
  have hheld : (((applyEnvironment env).run s).2.restart.maxRestarts.toNat : ℤ) = i % 2 ^ 32 :=
    held_of_environment hok hmem htext hi
  rw [← UInt32.toNat_inj, Int.dvd_iff_emod_eq_zero, ← hheld, Int.natCast_eq_zero]
  rfl

/-- **A delay is negative** if and only if its number has the bit of the sign. -/
theorem delay_negative_iff {ofPolicy : RestartPolicy → Int64}
    (hmem : (name, delay ofPolicy) ∈ numberVariables) (hok : ((applyEnvironment env).run s).1 = .ok ())
    (htext : nonEmpty? env name = some text) (hi : Decimal.Denotes text i) :
    ofPolicy ((applyEnvironment env).run s).2.restart < 0 ↔ 2 ^ 63 ≤ i := by
  obtain ⟨i', hi', hleast, hlt⟩ := (applyEnvironment_ok_iff.1 hok).1 _ hmem text htext
  obtain rfl : i = i' := hi.2.2.symm.trans hi'.2.2
  have hheld : (ofPolicy ((applyEnvironment env).run s).2.restart).toInt = i.bmod (2 ^ 64) :=
    held_of_environment hok hmem htext hi
  have hzero : (0 : Int64).toInt = 0 := rfl
  have hnonneg : 0 ≤ i := hleast
  rw [Int64.lt_iff_toInt_lt, hheld, hzero, Int.bmod_def]
  split_ifs <;> omega

end Settings
end ProofMiner
