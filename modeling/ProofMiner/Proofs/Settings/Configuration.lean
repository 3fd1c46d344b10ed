/-
# Numbers in a configuration

A member that holds a number is read as one of its type, and nothing else is asked of it but that it is not
too small (`NumberMember.Accepts`). An integer is therefore refused only if what is left of it is too small,
and so it is with `true`, `false` and doubles, where they are read.

A configuration is exact about a member unless it is accepted with a value that is no integer which the
setting has room for (`configuration_exact_iff`).
-/

import ProofMiner.Proofs.Settings.Numbers

namespace ProofMiner
namespace Settings

/-- A member that holds a number: its type has room for all that its setting has room for. -/
structure NumberMember where
  key : String
  type : Json.NumberType
  setting : NumberSetting
  reads {v : Json} {r : ℤ} (h : type.read v = some r) : type.Reads v r
  low_le : type.low ≤ setting.least
  bound_le : setting.bound ≤ type.high

/-- The members that hold numbers. -/
def numberMembers : List NumberMember := [
  ⟨"threads", .int32, threadCount, Json.reads_int32, by decide, by decide⟩,
  ⟨"queue_capacity", .word, capacity, Json.reads_word, by decide, by decide⟩,
  ⟨"max_restarts", .uint32, ceiling, Json.reads_uint32, by decide, by decide⟩,
  ⟨"restart_backoff_ms", .word, delay RestartPolicy.initialBackoff, Json.reads_word, by decide, by decide⟩,
  ⟨"restart_backoff_max_ms", .word, delay RestartPolicy.maxBackoff, Json.reads_word, by decide, by decide⟩]

/-- A configuration as a source of numbers. -/
def Source.configuration (j : Json) : Source Json where
  value? := j.get?
  Denotes := Json.Denotes
  refusals := memberRefusals

variable {s : Settings} {j v : Json} {m : NumberMember} {i : ℤ}

/-- The value is read as a number that is not too small for the setting. -/
def NumberMember.Accepts (m : NumberMember) (v : Json) : Prop :=
  ∃ r, m.type.read v = some r ∧ m.setting.least ≤ r

/-- A member is not refused if it is read and the check lets it pass. -/
theorem memberRefusal_eq_none_iff {α : Type} {key : String} {read : Json → Option α} {toInt : α → ℤ}
    {check : α → Option Fault} {least : ℤ} (hcheck : ∀ n, check n = none ↔ least ≤ toInt n) :
    (memberRefusal key read check).2 v = none ↔ ∃ r, (read v).map toInt = some r ∧ least ≤ r := by
  rw [memberRefusal, refusal_eq_none_iff]
  constructor
  · rintro ⟨n, hn, hchecked⟩
    exact ⟨toInt n, congrArg (Option.map toInt) hn, (hcheck n).1 hchecked⟩
  · rintro ⟨r, hr, hleast⟩
    obtain ⟨n, hn, rfl⟩ := Option.map_eq_some_iff.1 hr
    exact ⟨n, hn, (hcheck n).2 hleast⟩

/-- There has to be one thread at least. -/
theorem threads_check_iff {e : Fault} {n : Int32} :
    (if n ≤ 0 then some e else none) = none ↔ threadCount.least ≤ n.toInt := by
  have hleast : threadCount.least ≤ n.toInt ↔ ¬ n ≤ 0 := by
    rw [Int32.le_iff_toInt_le]
    change (1 : ℤ) ≤ n.toInt ↔ ¬ n.toInt ≤ 0
    omega
  rw [hleast]
  split_ifs with hn
  · exact iff_of_false nofun (not_not.2 hn)
  · exact iff_of_true rfl hn

/-- What a member that holds a number is refused for. -/
theorem exists_memberRefusal (hm : m ∈ numberMembers) :
    ∃ r ∈ memberRefusals, r.1 = m.key ∧ ∀ v, r.2 v = none ↔ m.Accepts v := by
  simp only [numberMembers, List.mem_cons, List.not_mem_nil, or_false] at hm
  rcases hm with rfl | rfl | rfl | rfl | rfl
  · exact ⟨_, List.mem_of_getElem? (i := 0) rfl, rfl,
      fun v => memberRefusal_eq_none_iff fun _ => threads_check_iff⟩
  · exact ⟨_, List.mem_of_getElem? (i := 1) rfl, rfl,
      fun v => memberRefusal_eq_none_iff fun _ => capacity_check_iff⟩
  · exact ⟨_, List.mem_of_getElem? (i := 2) rfl, rfl, fun v => memberRefusal_eq_none_iff fun _ => unchecked_iff _⟩
  · exact ⟨_, List.mem_of_getElem? (i := 3) rfl, rfl, fun v => memberRefusal_eq_none_iff fun _ => unchecked_iff _⟩
  · exact ⟨_, List.mem_of_getElem? (i := 4) rfl, rfl, fun v => memberRefusal_eq_none_iff fun _ => unchecked_iff _⟩

/-- A configuration fails with the first refusal of its members. -/
theorem applyJson_object_run_fst (ms : List (String × Json)) (s : Settings) :
    ((applyJson (.object ms)).run s).1 =
      outcome (firstRefusal memberRefusals (Json.object ms).get?) := by
  rw [applyJson_run_fst]
  exact if_pos rfl

/-- What the settings hold of the numbers in a configuration. -/
theorem held_of_configuration (hok : ((applyJson j).run s).1 = .ok ()) (hm : m ∈ numberMembers)
    (hv : j.get? m.key = some v) :
    ∃ r, m.type.read v = some r ∧ m.setting.held ((applyJson j).run s).2 = m.setting.wrap r := by
  obtain ⟨o, hmembers, hs⟩ := exists_fromMembers (Prod.ext hok rfl)
  have hheld : m.setting.held ((applyJson j).run s).2 = m.setting.held (o.apply s) :=
    congrArg m.setting.held hs
  rw [hheld]
  simp only [numberMembers, List.mem_cons, List.not_mem_nil, or_false] at hm
  rcases hm with rfl | rfl | rfl | rfl | rfl
  · obtain ⟨n, hn, ho⟩ := hmembers.threads.exists_eq_some hv
    refine ⟨n.toInt, congrArg (Option.map _) hn, ?_⟩
    rw [threadCount_wrap]
    simp only [threadCount, Overrides.apply, ho, Option.getD_some]
  · obtain ⟨w, hw, ho⟩ := hmembers.queueCapacity.exists_eq_some hv
    refine ⟨w.toNat, congrArg (Option.map _) hw, ?_⟩
    rw [capacity_wrap]
    simp only [capacity, Overrides.apply, ho, Option.getD_some]
  · obtain ⟨n, hn, ho⟩ := hmembers.maxRestarts.exists_eq_some hv
    refine ⟨n.toNat, congrArg (Option.map _) hn, ?_⟩
    rw [ceiling_wrap]
    simp only [ceiling, Overrides.apply, ho, Option.getD_some]
  · obtain ⟨n, hn, ho⟩ := hmembers.initialBackoff.exists_eq_some hv
    obtain ⟨w, hw, rfl⟩ := Option.map_eq_some_iff.1 hn
    refine ⟨w.toNat, congrArg (Option.map _) hw, ?_⟩
    rw [delay_wrap]
    simp only [delay, Overrides.apply, ho, Option.getD_some]
  · obtain ⟨n, hn, ho⟩ := hmembers.maxBackoff.exists_eq_some hv
    obtain ⟨w, hw, rfl⟩ := Option.map_eq_some_iff.1 hn
    refine ⟨w.toNat, congrArg (Option.map _) hw, ?_⟩
    rw [delay_wrap]
    simp only [delay, Overrides.apply, ho, Option.getD_some]

/-- The texts of payout splits are no numbers. -/
theorem blames_configuration (j : Json) (hm : m ∈ numberMembers) :
    (Source.configuration j).Blames m.key := by
  intro r hr v e he
  rcases blames_memberRefusals hr he with hblames | ⟨hkey, fault, rfl⟩
  · exact ⟨hblames.isInvalidArgument, fun hname => hname ▸ hblames.names⟩
  · refine ⟨nofun, fun hname => ?_⟩
    have hnumber : ∀ m ∈ numberMembers, m.key ≠ "mining_keys" := by decide
    exact absurd (hname.symm.trans hkey) (hnumber m hm)

/-- A configuration is accepted only with numbers that are read and not too small. -/
theorem accepts_of_configuration {ms : List (String × Json)}
    (hok : ((applyJson (.object ms)).run s).1 = .ok ()) (hm : m ∈ numberMembers)
    (hv : (Json.object ms).get? m.key = some v) : m.Accepts v := by
  rw [applyJson_object_run_fst, outcome_eq_ok_iff, firstRefusal_eq_none_iff] at hok
  obtain ⟨r, hr, hkey, haccepts⟩ := exists_memberRefusal hm
  exact (haccepts v).1 (hok r hr v (hkey ▸ hv))

/-- **A configuration is exact unless a value is read as what it is not.** What is accepted is read as a number
of the type of its setting, is not too small, and is held as what the setting wraps it to; what is not is
refused by name. So a configuration is exact about a number if and only if it is not accepted with a value that
is no integer which the setting has room for. -/
theorem configuration_exact_iff (ms : List (String × Json)) (s : Settings) {m : NumberMember}
    (hm : m ∈ numberMembers) :
    ((Source.configuration (.object ms)).Exact ((applyJson (.object ms)).run s) m.key m.setting ↔
      ¬ (((applyJson (.object ms)).run s).1 = .ok () ∧
        ∃ v, (Json.object ms).get? m.key = some v ∧ ∀ i, v.Denotes i → ¬ m.setting.Fits i)) ∧
    ∀ v, (Json.object ms).get? m.key = some v →
      (((applyJson (.object ms)).run s).1 = .ok () → ∃ r, m.type.read v = some r ∧ m.type.Reads v r ∧
        m.setting.least ≤ r ∧ m.setting.held ((applyJson (.object ms)).run s).2 = m.setting.wrap r) ∧
      (¬ m.Accepts v →
        (Source.configuration (.object ms)).Refused ((applyJson (.object ms)).run s).1 m.key) := by
  have hrun := applyJson_object_run_fst ms s
  have hblames := blames_configuration (.object ms) hm
  refine ⟨Source.exact_iff hrun hblames fun hok v i hv hi hfit => ?_, fun v hv => ⟨fun hok => ?_, ?_⟩⟩
  · obtain ⟨r, hr, hheld⟩ := held_of_configuration hok hm hv
    obtain rfl : r = i := (m.reads hr).eq_of_denotes hi (m.low_le.trans hfit.1) (hfit.2.trans_le m.bound_le)
    exact hheld.trans hfit.wrap_eq
  · obtain ⟨r, hr, hheld⟩ := held_of_configuration hok hm hv
    obtain ⟨r', hr', hleast⟩ := accepts_of_configuration hok hm hv
    obtain rfl : r = r' := Option.some.inj (hr.symm.trans hr')
    exact ⟨r, hr, m.reads hr, hleast, hheld⟩
  · exact fun hnot => Source.refused_of_ne_ok hrun hblames fun hok =>
      hnot (accepts_of_configuration hok hm hv)

theorem configuration_exact_iff_twoThreads :
    (Source.configuration (.object [("threads", .unsigned 2)])).Exact
      ((applyJson (.object [("threads", .unsigned 2)])).run {}) "threads" threadCount ∧
    threadCount.held ((applyJson (.object [("threads", .unsigned 2)])).run {}).2 = 2 := by
  obtain ⟨hexact, hvalue⟩ := configuration_exact_iff [("threads", .unsigned 2)] {}
    (List.mem_of_getElem? (l := numberMembers) (i := 0) rfl)
  obtain ⟨r, hread, -, -, hheld⟩ := (hvalue (.unsigned 2) rfl).1 rfl
  obtain rfl : 2 = r := Option.some.inj hread
  refine ⟨hexact.2 ?_, hheld⟩
  rintro ⟨-, v, hv, hmiss⟩
  obtain rfl : .unsigned 2 = v := Option.some.inj hv
  exact hmiss 2 rfl ⟨by decide, by decide⟩

/-- A configuration with a ceiling of restarts below zero. -/
def negativeCeiling : Json := .object [("max_restarts", .signed (-1))]

/-- It is accepted, and the ceiling is the highest one that there is. -/
theorem negativeCeiling_taken : ((applyJson negativeCeiling).run {}).1 = .ok () ∧
    ((applyJson negativeCeiling).run {}).2.restart.maxRestarts.toNat = 2 ^ 32 - 1 ∧
    ¬ (Source.configuration negativeCeiling).Exact ((applyJson negativeCeiling).run {})
      "max_restarts" ceiling := by
  refine ⟨rfl, rfl, fun h => ?_⟩
  have hmiss (i : ℤ) (hi : (Json.signed (-1)).Denotes i) : ¬ ceiling.Fits i := by
    obtain rfl : i = -1 := hi
    exact fun hfit => absurd hfit.1 (by decide)
  obtain ⟨e, he, -⟩ := h.refused (.signed (-1)) rfl hmiss
  cases he

end Settings
end ProofMiner
