/-
# What becomes of a configuration file

A file and an environment lead to settings or to a fault, and each fault has its cause (`FileFault`): there is
no such file, its text is malformed, a number in it is too large for a double, its first value is no object, or
a member or a variable is refused. They are looked at in this order, and the first one counts.

Every fault but one is reported as an invalid argument. The number that is too large is passed on as the
reader of JSON gives it (`file_settled_iff`), so that a miner that is started with such a file ends without a
message (`launch_eq_error_iff`).
-/

import ProofMiner.Miner.CommandLine
import ProofMiner.Proofs.Json.Faults
import ProofMiner.Proofs.Settings.Refusals

namespace ProofMiner
namespace Settings

variable {path : String} {content : Option (List Char)} {env : Environment} {machineThreads : Int32}
variable {e : Fault} {s : Settings}

/-- Why a file and an environment lead to no settings. -/
inductive FileFault (path : String) (content : Option (List Char)) (env : Environment) : Fault → Prop
  | missing : content = none → FileFault path content env (.fileMissing path)
  | malformed {cs : List Char} : content = some cs → Json.parseFirst cs = .error .malformed →
    FileFault path content env (.fileMalformed path)
  | tooLarge {cs : List Char} : content = some cs → Json.parseFirst cs = .error .numberTooLarge →
    FileFault path content env .fileNumber
  | notAnObject {cs : List Char} {j : Json} : content = some cs → Json.parseFirst cs = .ok j →
    j.isObject = false → FileFault path content env .notAnObject
  | memberRefused {cs : List Char} {j : Json} {e : Fault} : content = some cs → Json.parseFirst cs = .ok j →
    j.isObject = true → firstRefusal memberRefusals j.get? = some e → FileFault path content env e
  | variableRefused {cs : List Char} {j : Json} {e : Fault} : content = some cs → Json.parseFirst cs = .ok j →
    j.isObject = true → firstRefusal memberRefusals j.get? = none →
    firstRefusal variableRefusals (nonEmpty? env) = some e → FileFault path content env e

/-- Settings that fail half-way are given up. -/
theorem build_eq_error_iff {start : Settings} {update : Update Unit} :
    build start update = .error e ↔ (update.run start).1 = .error e := by
  rw [build]
  split
  next hrun =>
    rw [hrun]
    constructor <;> intro h <;> cases h
  next hrun =>
    rw [hrun]
    exact ⟨fun h => congrArg _ (Except.error.inj h), fun h => congrArg _ (Except.error.inj h)⟩

/-- What is wrong with a configuration that was read, and with the environment behind it. -/
theorem build_fst (j : Json) (env : Environment) (start : Settings) :
    ((applyJson j >>= fun _ => applyEnvironment env).run start).1 =
      if j.isObject then outcome ((firstRefusal memberRefusals j.get?).or
        (firstRefusal variableRefusals (nonEmpty? env))) else .error .notAnObject := by
  have hjson := applyJson_run_fst j start
  cases hobject : j.isObject with
  | false =>
    rw [hobject, if_neg Bool.false_ne_true] at hjson
    rw [bind_run_of_error (Prod.ext hjson rfl), if_neg Bool.false_ne_true]
  | true =>
    rw [hobject, if_pos rfl] at hjson
    rw [bind_run_fst hjson (applyEnvironment_run_fst env), if_pos rfl]

/-- A file that is read is applied before the environment. -/
theorem ofFile_of_parse {cs : List Char} {j : Json} (h : Json.parseFirst cs = .ok j) :
    ofFile path (some cs) env machineThreads =
      build (defaults env machineThreads) (applyJson j >>= fun _ => applyEnvironment env) := by
  rw [ofFile, readFile, h]
  rfl

/-- A file that is not read fails, but only one of its two faults is told by its path. -/
theorem ofFile_of_parse_error {cs : List Char} {fault : Json.Fault}
    (h : Json.parseFirst cs = .error fault) : ofFile path (some cs) env machineThreads =
      .error (if fault = .numberTooLarge then .fileNumber else .fileMalformed path) := by
  rw [ofFile, readFile, h]
  cases fault <;> rfl

/-- Each of these faults happens. -/
theorem ofFile_of_fileFault (h : FileFault path content env e) :
    ofFile path content env machineThreads = .error e := by
  cases h with
  | missing hcontent =>
    subst hcontent
    rfl
  | malformed hcontent hparse =>
    subst hcontent
    rw [ofFile_of_parse_error hparse, if_neg nofun]
  | tooLarge hcontent hparse =>
    subst hcontent
    rw [ofFile_of_parse_error hparse, if_pos rfl]
  | notAnObject hcontent hparse hobject =>
    subst hcontent
    rw [ofFile_of_parse hparse, build_eq_error_iff, build_fst, hobject, if_neg Bool.false_ne_true]
  | memberRefused hcontent hparse hobject hmember =>
    subst hcontent
    rw [ofFile_of_parse hparse, build_eq_error_iff, build_fst, hobject, if_pos rfl, outcome_eq_error_iff,
      hmember, Option.some_or]
  | variableRefused hcontent hparse hobject hmember hvariable =>
    subst hcontent
    rw [ofFile_of_parse hparse, build_eq_error_iff, build_fst, hobject, if_pos rfl, outcome_eq_error_iff,
      hmember, Option.none_or, hvariable]

/-- No other fault does. -/
theorem fileFault_of_ofFile (h : ofFile path content env machineThreads = .error e) :
    FileFault path content env e := by
  cases content with
  | none =>
    cases h
    exact .missing rfl
  | some cs =>
    cases hparse : Json.parseFirst cs with
    | error fault =>
      rw [ofFile_of_parse_error hparse] at h
      rcases Json.parseFirst_error_cases hparse with rfl | ⟨rfl, -⟩
      · cases h
        exact .malformed rfl hparse
      · cases h
        exact .tooLarge rfl hparse
    | ok j =>
      rw [ofFile_of_parse hparse, build_eq_error_iff, build_fst] at h
      cases hobject : j.isObject with
      | false =>
        rw [hobject] at h
        cases h
        exact .notAnObject rfl hparse hobject
      | true =>
        rw [hobject, if_pos rfl, outcome_eq_error_iff, Option.or_eq_some_iff] at h
        rcases h with hmember | ⟨hmember, hvariable⟩
        · exact .memberRefused rfl hparse hobject hmember
        · exact .variableRefused rfl hparse hobject hmember hvariable

/-- **Every failure has its cause**, and every cause leads to its failure. -/
theorem ofFile_eq_error_iff :
    ofFile path content env machineThreads = .error e ↔ FileFault path content env e :=
  ⟨fileFault_of_ofFile, ofFile_of_fileFault⟩

/-- Only a text can hold a number that is too large. -/
theorem FileFault.isInvalidArgument_or (h : FileFault path content env e) :
    e.IsInvalidArgument ∨
      e = .fileNumber ∧ ∃ cs, content = some cs ∧ Json.parseFirst cs = .error .numberTooLarge := by
  cases h with
  | missing _ => exact .inl nofun
  | malformed _ _ => exact .inl nofun
  | tooLarge hcontent hparse => exact .inr ⟨rfl, _, hcontent, hparse⟩
  | notAnObject _ _ _ => exact .inl nofun
  | memberRefused _ _ _ hmember =>
    obtain ⟨r, hr, v, -, hfault⟩ := exists_of_firstRefusal hmember
    rcases blames_memberRefusals hr hfault with hblames | ⟨-, fault, rfl⟩
    · exact .inl hblames.isInvalidArgument
    · exact .inl nofun
  | variableRefused _ _ _ _ hvariable =>
    obtain ⟨r, hr, text, -, hfault⟩ := exists_of_firstRefusal hvariable
    exact .inl (blames_variableRefusals hr hfault).isInvalidArgument

/-- There are settings, or the fault is one of an argument. -/
def Settled (result : Except Fault Settings) : Prop :=
  (∃ s, result = .ok s) ∨ ∃ e, result = .error e ∧ e.IsInvalidArgument

/-- A file is settled unless that one fault is passed on. -/
theorem settled_iff {result : Except Fault Settings} : Settled result ↔ result ≠ .error .fileNumber := by
  cases result with
  | ok s => exact ⟨fun _ => nofun, fun _ => .inl ⟨s, rfl⟩⟩
  | error e =>
    constructor
    · rintro (⟨s, ⟨⟩⟩ | ⟨_, ⟨⟩, he⟩) ⟨⟩
      exact he rfl
    · exact fun h => .inr ⟨e, rfl, fun he => h (congrArg _ he)⟩

/-- **A file and an environment are settled unless a number is too large.** They lead to settings or to the
fault of an argument if and only if the reader of JSON does not come to a number literal that is too large for
a double. That fault is passed on, and every other one is reported with its cause. -/
theorem file_settled_iff (path : String) (content : Option (List Char)) (env : Environment)
    (machineThreads : Int32) :
    (Settled (ofFile path content env machineThreads) ↔
      ¬ ∃ cs, content = some cs ∧ Json.parseFirst cs = .error .numberTooLarge) ∧
    (∀ e, ofFile path content env machineThreads = .error e ↔ FileFault path content env e) ∧
    (Settled (ofFile path content env machineThreads) ∨
      ofFile path content env machineThreads = .error .fileNumber ∧
        ∃ cs tail, content = some cs ∧ tail <:+ cs ∧ Json.Overflows tail) := by
  have hnumber : ofFile path content env machineThreads = .error .fileNumber ↔
      ∃ cs, content = some cs ∧ Json.parseFirst cs = .error .numberTooLarge := by
    rw [ofFile_eq_error_iff]
    constructor
    · intro h
      rcases h.isInvalidArgument_or with he | ⟨-, hcause⟩
      · exact absurd rfl he
      · exact hcause
    · rintro ⟨cs, hcontent, hparse⟩
      exact .tooLarge hcontent hparse
  refine ⟨settled_iff.trans (not_congr hnumber), fun e => ofFile_eq_error_iff, ?_⟩
  by_cases hfault : ofFile path content env machineThreads = .error .fileNumber
  · obtain ⟨cs, hcontent, hparse⟩ := hnumber.1 hfault
    rcases Json.parseFirst_error_cases hparse with hne | ⟨-, tail, htail, hover⟩
    · cases hne
    · exact .inr ⟨hfault, cs, tail, hcontent, htail, hover⟩
  · exact .inl (settled_iff.2 hfault)

/-- A number of threads that is too large even for a double. -/
def overflowingFile : List Char := "\x7b\"threads\":1e999\x7d".toList

/-- Its fault is none of an argument. -/
theorem overflowingFile_passed_on : ¬ Settled (ofFile "miner.json" (some overflowingFile) [] 4) := by
  have hparse : Json.parseFirst overflowingFile = .error .numberTooLarge := by cbv
  rw [settled_iff, not_not, ofFile_of_parse_error hparse, if_pos rfl]

/-! ### A miner with such a file -/

/-- Without a file there is no such fault. -/
theorem ofEnvironment_ne_fileNumber (env : Environment) (machineThreads : Int32) :
    ofEnvironment env machineThreads ≠ .error .fileNumber := by
  intro h
  rw [ofEnvironment, build_eq_error_iff, applyEnvironment_run_fst, outcome_eq_error_iff] at h
  obtain ⟨r, hr, text, -, hfault⟩ := exists_of_firstRefusal h
  exact (blames_variableRefusals hr hfault).isInvalidArgument rfl

/-- Splits from the command line are refused for their texts only. -/
theorem build_setPayouts_ne_fileNumber (start : Settings) (texts : List String) :
    build start (setPayouts (return texts)) ≠ .error .fileNumber := by
  intro h
  rw [build_eq_error_iff] at h
  have hfault : ((texts.forM addPayout).run { start with payouts := [] }).1 = .error .fileNumber := h
  rw [forM_run_fst (List.forall₂_same.2 fun text _ => failsBy_addPayout text), outcome_eq_error_iff] at hfault
  obtain ⟨text, -, htext⟩ := List.exists_of_findSome?_eq_some hfault
  unfold payoutRefusal at htext
  split at htext <;> cases htext

end Settings

namespace Miner

variable {args : List String} {around : Surroundings} {options : Options} {e : Settings.Fault}

/-- What the other options change about the settings of a file or an environment. -/
def Options.override (o : Options) (s : Settings) : Except Settings.Fault Settings := do
  let s ← if o.payouts.isEmpty then pure s
    else Settings.build s (Settings.setPayouts (return o.payouts))
  return if o.noMine then { s with mine := false } else s

/-- The options choose the source, and are applied last. -/
theorem settings_eq (options : Options) (around : Surroundings) : options.settings around =
    (if options.configPath.isEmpty then
      Settings.ofEnvironment around.environment around.machineThreads
    else Settings.ofFile options.configPath (around.file options.configPath) around.environment
      around.machineThreads) >>= options.override := by
  rw [Options.settings]
  cases options.configPath.isEmpty <;> rfl

/-- The options have no such fault. -/
theorem override_ne_fileNumber (options : Options) (s : Settings) :
    options.override s ≠ .error .fileNumber := by
  rw [Options.override]
  cases options.payouts.isEmpty with
  | true => exact nofun
  | false =>
    refine mt bind_eq_error_iff.1 ?_
    rintro (h | ⟨_, -, ⟨⟩⟩)
    exact Settings.build_setPayouts_ne_fileNumber s options.payouts h

/-- The fault comes from a file with a number that is too large, and from nothing else. -/
theorem settings_eq_fileNumber_iff : options.settings around = .error .fileNumber ↔
    options.configPath.isEmpty = false ∧ ∃ cs, around.file options.configPath = some cs ∧
      Json.parseFirst cs = .error .numberTooLarge := by
  rw [settings_eq, bind_eq_error_iff]
  constructor
  · rintro (h | ⟨s, -, h⟩)
    · split_ifs at h with hpath
      · exact absurd h (Settings.ofEnvironment_ne_fileNumber _ _)
      · refine ⟨Bool.eq_false_iff.2 hpath, ?_⟩
        rcases (Settings.fileFault_of_ofFile h).isInvalidArgument_or with he | ⟨-, hcause⟩
        · exact absurd rfl he
        · exact hcause
    · exact absurd h (override_ne_fileNumber options s)
  · rintro ⟨hpath, cs, hfile, hparse⟩
    rw [hpath, if_neg Bool.false_ne_true, hfile]
    exact .inl (Settings.ofFile_of_fileFault (.tooLarge rfl hparse))

/-- Every other fault is printed. -/
theorem launch_of_settings_error (hargs : parseArgs around.program args {} = .ok options)
    (h : options.settings around = .error e) : launch args around =
      if e = .fileNumber then .error .numberTooLarge
      else .ok (.error (failed banner [s!"Error: {e.message}"])) := by
  unfold launch
  rw [hargs]
  dsimp only
  rw [h]
  cases e <;> rfl

/-- With settings the miner is launched or says why not. -/
theorem exists_launch_of_settings {settings : Settings}
    (hargs : parseArgs around.program args {} = .ok options)
    (h : options.settings around = .ok settings) : ∃ result, launch args around = .ok result := by
  unfold launch
  rw [hargs]
  dsimp only
  rw [h]
  dsimp only
  split
  · exact ⟨_, rfl⟩
  · exact ⟨_, rfl⟩

/-- **A miner ends without a message** if and only if its configuration file holds a number that is too
large. Every other run comes to the point where it waits for a node, or says why it does not. -/
theorem launch_eq_error_iff {fault : Json.Fault} :
    launch args around = .error fault ↔ fault = .numberTooLarge ∧
      ∃ options, parseArgs around.program args {} = .ok options ∧ options.configPath.isEmpty = false ∧
        ∃ cs, around.file options.configPath = some cs ∧
          Json.parseFirst cs = .error .numberTooLarge := by
  constructor
  · intro h
    cases hargs : parseArgs around.program args {} with
    | error out =>
      rw [launch, hargs] at h
      cases h
    | ok options =>
      cases hsettings : options.settings around with
      | ok settings =>
        obtain ⟨result, hresult⟩ := exists_launch_of_settings hargs hsettings
        rw [hresult] at h
        cases h
      | error e =>
        rw [launch_of_settings_error hargs hsettings] at h
        split_ifs at h with he
        subst he
        exact ⟨(Except.error.inj h).symm, options, rfl, settings_eq_fileNumber_iff.1 hsettings⟩
  · rintro ⟨rfl, options, hargs, hcause⟩
    rw [launch_of_settings_error hargs (settings_eq_fileNumber_iff.2 hcause), if_pos rfl]

end Miner
end ProofMiner
