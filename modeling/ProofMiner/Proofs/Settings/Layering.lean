/-
# Where each setting comes from

A setting is what its variable says if that is set and not empty, else what its member says, else a default
(`From`). What they say is told by what they are: a number by its digits or its value, a flag by its words,
a text and a truth value by themselves, a double by the number that is converted, and a list of payout splits
by the grammar of its texts.

What was applied is known from the two sources (`Composed`), and so is each setting (`layered_of_composed`).
Two settings have no source in common (`Composed.same`).

The number of threads in the environment is looked at twice, for the default and for the override, and both
times it counts only if it is positive (`defaults_eq`).
-/

import ProofMiner.Proofs.Settings.Environment
import ProofMiner.Proofs.Work.Grammar

namespace ProofMiner

/-! ### Threads -/

namespace Decimal

/-- The integer that a text begins with, of any size: its digits after blanks and a sign. -/
def leading (text : List Char) : ℤ :=
  let text := text.dropWhile isBlank
  let digits := if text.head? = some '-' ∨ text.head? = some '+' then text.tail else text
  let n : ℤ := value (digits.takeWhile Char.isDigit)
  if text.head? = some '-' then -n else n

/-- One case for each sign. -/
theorem leading_of_minus {text rest : List Char} (h : text.dropWhile isBlank = '-' :: rest) :
    leading text = -(value (rest.takeWhile Char.isDigit) : ℤ) := by
  simp [leading, h]

theorem leading_of_plus {text rest : List Char} (h : text.dropWhile isBlank = '+' :: rest) :
    leading text = value (rest.takeWhile Char.isDigit) := by
  simp [leading, h]

theorem leading_of_unsigned {text : List Char} (hminus : (text.dropWhile isBlank).head? ≠ some '-')
    (hplus : (text.dropWhile isBlank).head? ≠ some '+') :
    leading text = value ((text.dropWhile isBlank).takeWhile Char.isDigit) := by
  rw [leading, if_neg hminus, if_neg (not_or.2 ⟨hminus, hplus⟩)]

/-- An integer that 32 bits hold is read as it is. -/
theorem toInt_leadingInt32 {text : List Char} (hmin : Int32.minValue.toInt ≤ leading text)
    (hmax : leading text ≤ Int32.maxValue.toInt) : (leadingInt32 text).toInt = leading text := by
  have hbounds : Int32.minValue.toInt = -2147483648 ∧ Int32.maxValue.toInt = 2147483647 ∧
      Int64.minValue.toInt = -9223372036854775808 ∧ Int64.maxValue.toInt = 9223372036854775807 :=
    ⟨rfl, rfl, rfl, rfl⟩
  have hread : leadingInt32 text = .ofInt (leading text) := by
    rw [leadingInt32]
    dsimp only
    split
    next rest hsign =>
      rw [leading_of_minus hsign] at hmin hmax ⊢
      rw [if_pos rfl]
      dsimp only
      exact congrArg Int32.ofInt (by omega)
    next rest hsign =>
      rw [leading_of_plus hsign] at hmin hmax ⊢
      rw [if_neg Bool.false_ne_true]
      dsimp only
      exact congrArg Int32.ofInt (by omega)
    next hminus hplus =>
      have hhead (c : Char) (hc : ∀ rest, text.dropWhile isBlank ≠ c :: rest) :
          (text.dropWhile isBlank).head? ≠ some c := by
        intro hhead
        obtain ⟨rest, hrest⟩ := List.head?_eq_some_iff.1 hhead
        exact hc rest hrest
      rw [leading_of_unsigned (hhead '-' hminus) (hhead '+' hplus)] at hmin hmax ⊢
      rw [if_neg Bool.false_ne_true]
      dsimp only
      exact congrArg Int32.ofInt (by omega)
  rw [hread]
  exact Int32.toInt_ofInt_of_le hmin (by omega)

end Decimal

namespace Settings

variable {α β δ : Type} {path : String} {content : Option (List Char)} {machineThreads : Int32}
variable {s s' : Settings} {j j' v : Json} {env env' : Environment} {o o' : Overrides}
variable {name key text : String}

/-! ### Sources -/

/-- The variable is set, and not to the empty text. -/
def Variable (env : Environment) (name text : String) : Prop :=
  env.lookup name = some text ∧ text ≠ ""

/-- The configuration is an object with this member. -/
def Member (j : Json) (key : String) (v : Json) : Prop :=
  ∃ members, j = .object members ∧ members.lookup key = some v

/-- The program asks for variables that are not empty. -/
theorem variable_iff : Variable env name text ↔ nonEmpty? env name = some text := by
  simp [Variable, nonEmpty?, Option.filter_eq_some_iff]

/-- The program asks for members of objects. -/
theorem member_iff : Member j key v ↔ j.get? key = some v := by
  cases j <;> simp [Member, Json.get?]

/-- The value of a setting comes from a source if that gives one, else from somewhere else. -/
inductive From (Gives : β → Prop) (Value : β → α → Prop) (Otherwise : α → Prop) : α → Prop
  | source {b : β} {x : α} (gives : Gives b) (value : Value b x) : From Gives Value Otherwise x
  | silent {x : α} (silent : ∀ b, ¬ Gives b) (otherwise : Otherwise x) : From Gives Value Otherwise x

/-- A source that is read gives a setting, which may then be looked at as a number. -/
theorem Reads.from {read : β → Option α} {source? : Option β} {x? : Option α}
    (h : Reads read source? x?) {Gives : β → Prop} {Value : β → δ → Prop} {Otherwise : δ → Prop}
    {f : α → δ} {y : α} (hgives : ∀ {b}, Gives b ↔ source? = some b)
    (hvalue : ∀ {b x}, read b = some x → Value b (f x)) (hotherwise : Otherwise (f y)) :
    From Gives Value Otherwise (f (x?.getD y)) := by
  cases x? with
  | none =>
    have hnone : source? = none := Option.map_eq_none_iff.1 h
    exact .silent (fun b hb => by cases hnone.symm.trans (hgives.1 hb)) hotherwise
  | some x =>
    obtain ⟨b, hb, hread⟩ := Option.map_eq_some_iff.1 h
    exact .source (hgives.2 hb) (hvalue hread)

/-- A source that is read gives one value at most. -/
theorem Reads.unique {read : β → Option α} {source? : Option β} {x? y? : Option α}
    (hx : Reads read source? x?) (hy : Reads read source? y?) : x? = y? :=
  Option.map_injective (Option.some_injective α) (hx.symm.trans hy)

/-! ### Values -/

/-- The value is a double, or an integer that is converted to one. -/
inductive IsDouble : Json → Float → Prop
  | float (x : Float) : IsDouble (.float x) x
  | unsigned (n : UInt64) : IsDouble (.unsigned n) n.toFloat
  | signed (n : Int64) : IsDouble (.signed n) n.toFloat

/-- The words for a truth value. -/
def IsFlag (text : String) (b : Bool) : Prop :=
  text ∈ if b then ["1", "true", "yes"] else ["0", "false", "no"]

/-- The value is a list of texts, each of which is read as a split: one of the grammar, or one with a comma
too many. -/
def AreSplits (v : Json) (ks : List Payout) : Prop :=
  ∃ texts : List String, v = .array (texts.map .string) ∧
    List.Forall₂ (fun text k => Payout.Grammatical text k ∨ Payout.Overlong text k) texts ks

/-- What is read as a double is one, or is converted. -/
theorem isDouble_of_toFloat? {x : Float} (h : v.toFloat? = some x) : IsDouble v x := by
  cases v with
  | unsigned n =>
    cases h
    exact .unsigned n
  | signed n =>
    cases h
    exact .signed n
  | float x =>
    cases h
    exact .float x
  | _ => cases h

/-- Texts and truth values are read from themselves only. -/
theorem eq_string_of_string? (h : v.string? = some text) : v = .string text := by
  cases v with
  | string t =>
    cases h
    rfl
  | _ => cases h

theorem eq_bool_of_bool? {b : Bool} (h : v.bool? = some b) : v = .bool b := by
  cases v with
  | bool b =>
    cases h
    rfl
  | _ => cases h

/-- Flags are read from their words only. -/
theorem isFlag_of_flag? {b : Bool} (h : flag? text = some b) : IsFlag text b := by
  unfold flag? at h
  split_ifs at h with htrue hfalse
  · cases h
    exact htrue
  · cases h
    exact hfalse

/-- An array of texts, by induction on its items. -/
theorem eq_map_of_mapM_string? {items : List Json} {texts : List String}
    (h : items.mapM Json.string? = some texts) : items = texts.map .string := by
  induction items generalizing texts with
  | nil =>
    cases h
    rfl
  | cons v items ih =>
    rw [List.mapM_cons] at h
    obtain ⟨text, htext, h⟩ := Option.bind_eq_some_iff.1 h
    obtain ⟨rest, hrest, h⟩ := Option.bind_eq_some_iff.1 h
    obtain rfl := Option.some.inj h
    rw [eq_string_of_string? htext, ih hrest, List.map_cons]

/-- Splits are read from texts of the grammar, or with a comma too many. -/
theorem areSplits_of_splits? {ks : List Payout} (h : splits? v = some ks) : AreSplits v ks := by
  obtain ⟨texts, htexts, h⟩ := Option.bind_eq_some_iff.1 h
  refine ⟨texts, ?_, ?_⟩
  · cases v with
    | array items => rw [eq_map_of_mapM_string? htexts]
    | _ => cases htexts
  · cases hparse : texts.mapM Payout.parse with
    | error e =>
      rw [hparse] at h
      cases h
    | ok ks' =>
      rw [hparse] at h
      cases h
      exact (mapM_eq_ok_iff.1 hparse).imp fun _ _ => Payout.parse_eq_ok_iff_grammatical.1

/-- A delay is held as a signed word: one that does not fit wraps. -/
theorem reads_backoff {n : Int64} (h : backoff? v = some n) :
    ∃ i, Json.NumberType.word.Reads v i ∧ n.toInt = i.bmod (2 ^ 64) := by
  obtain ⟨w, hw, rfl⟩ := Option.map_eq_some_iff.1 h
  exact ⟨w.toNat, Json.reads_word (congrArg (Option.map _) hw), toInt_toInt64 w⟩

/-- A delay from the environment wraps in the same way. -/
theorem denotes_backoff {n : Int64} (h : (word? text).map UInt64.toInt64 = some n) :
    ∃ i, Decimal.Denotes text i ∧ n.toInt = i.bmod (2 ^ 64) := by
  obtain ⟨w, hw, rfl⟩ := Option.map_eq_some_iff.1 h
  exact ⟨w.toNat, word?_eq_some_iff.1 hw, toInt_toInt64 w⟩

/-- A ceiling is held in 32 bits. -/
theorem denotes_ceiling {n : UInt32} (h : (word? text).map UInt64.toUInt32 = some n) :
    ∃ i, Decimal.Denotes text i ∧ (n.toNat : ℤ) = i % 2 ^ 32 := by
  obtain ⟨w, hw, rfl⟩ := Option.map_eq_some_iff.1 h
  refine ⟨w.toNat, word?_eq_some_iff.1 hw, ?_⟩
  rw [UInt64.toNat_toUInt32, Int.natCast_emod]
  rfl

/-! ### The threads of the environment -/

/-- The number of threads that the environment asks for begins with an integer of 32 bits. -/
def ThreadsInRange (env : Environment) : Prop :=
  ∀ text, Variable env "MINING_THREADS" text →
    Int32.minValue.toInt ≤ Decimal.leading text.toList ∧
      Decimal.leading text.toList ≤ Int32.maxValue.toInt

/-- The environment asks for this positive number of threads. -/
def AsksThreads (env : Environment) (n : ℤ) : Prop :=
  ∃ text, Variable env "MINING_THREADS" text ∧ n = Decimal.leading text.toList ∧ 0 < n

/-- In that range the program asks for what the text begins with. -/
theorem ThreadsInRange.asksThreads_iff (h : ThreadsInRange env) {n : ℤ} :
    AsksThreads env n ↔ ∃ k, threads? env = some k ∧ k.toInt = n := by
  simp only [AsksThreads, threads?, Option.filter_eq_some_iff, Option.map_eq_some_iff,
    decide_eq_true_eq, Int32.lt_iff_toInt_lt]
  constructor
  · rintro ⟨text, hset, rfl, hpositive⟩
    have hread := Decimal.toInt_leadingInt32 (h text hset).1 (h text hset).2
    exact ⟨_, ⟨⟨text, variable_iff.1 hset, rfl⟩, hread.symm ▸ hpositive⟩, hread⟩
  · rintro ⟨_, ⟨⟨text, hset, rfl⟩, hpositive⟩, rfl⟩
    have hset := variable_iff.2 hset
    exact ⟨text, hset, Decimal.toInt_leadingInt32 (h text hset).1 (h text hset).2, hpositive⟩

/-- The threads of the machine, or four if it does not say. -/
def machineBudget (machineThreads : Int32) : Int32 := if machineThreads = 0 then 4 else machineThreads

/-- An empty text begins with no digits, so that it makes no difference to an unset variable. -/
theorem defaults_eq (env : Environment) (machineThreads : Int32) : defaults env machineThreads =
    { threads := (threads? env).getD (machineBudget machineThreads) } := by
  have hempty : ¬ 0 < Decimal.leadingInt32 [] := by decide
  have hlookup : Decimal.leadingInt32 ((env.lookup "MINING_THREADS").getD "").toList =
      ((nonEmpty? env "MINING_THREADS").map fun text => Decimal.leadingInt32 text.toList).getD
        (Decimal.leadingInt32 []) := by
    rw [nonEmpty?]
    cases env.lookup "MINING_THREADS" with
    | none => rfl
    | some text =>
      by_cases htext : text = ""
      · rw [Option.filter_some, if_neg (by simpa using htext), htext]
        rfl
      · rw [Option.filter_some, if_pos (by simpa using htext)]
        rfl
  rw [defaults, hlookup, threads?]
  cases nonEmpty? env "MINING_THREADS" with
  | none => rw [Option.map_none, Option.getD_none, if_neg hempty]; rfl
  | some text =>
    rw [Option.map_some, Option.getD_some, Option.filter_some]
    by_cases hpositive : 0 < Decimal.leadingInt32 text.toList
    · rw [if_pos hpositive, if_pos (decide_eq_true hpositive)]
      rfl
    · have hnot : ¬ decide (0 < Decimal.leadingInt32 text.toList) = true := by simpa using hpositive
      rw [if_neg hpositive, if_neg hnot]
      rfl

/-! ### What a file and an environment lead to -/

/-- The settings are the defaults, then those of the members, then those of the variables. -/
def Composed (j : Json) (env : Environment) (machineThreads : Int32) (s : Settings) : Prop :=
  ∃ o o', FromMembers j o ∧ FromVariables env o' ∧ s = o'.apply (o.apply (defaults env machineThreads))

/-- Settings are what a successful update leaves. -/
theorem build_eq_ok_iff {start : Settings} {update : Update Unit} :
    build start update = .ok s ↔ update.run start = (.ok (), s) := by
  rw [build]
  split
  next hrun =>
    rw [hrun]
    exact ⟨fun h => Except.ok.inj h ▸ rfl, fun h => congrArg Except.ok (congrArg Prod.snd h)⟩
  next hrun =>
    rw [hrun]
    exact ⟨nofun, nofun⟩

/-- A file is applied to the defaults, and the environment to what it leaves. -/
theorem ofFile_eq_ok_iff : ofFile path content env machineThreads = .ok s ↔
    ∃ j, readFile path content = .ok j ∧
      (applyJson j >>= fun _ => applyEnvironment env).run (defaults env machineThreads) =
        (.ok (), s) := by
  rw [ofFile, bind_eq_ok_iff]
  exact exists_congr fun j => and_congr_right fun _ => build_eq_ok_iff

/-- **A file and an environment are composed**, if they lead to settings at all. -/
theorem composed_of_ofFile (h : ofFile path content env machineThreads = .ok s) :
    ∃ j, readFile path content = .ok j ∧ Composed j env machineThreads s := by
  obtain ⟨j, hj, hrun⟩ := ofFile_eq_ok_iff.1 h
  obtain ⟨_, t, hjson, henv⟩ := bind_run_eq_ok_iff.1 hrun
  obtain ⟨o, hmembers, rfl⟩ := exists_fromMembers hjson
  obtain ⟨o', hvariables, rfl⟩ := exists_fromVariables henv
  exact ⟨j, hj, o, o', hmembers, hvariables, rfl⟩

/-- **Every setting comes from its highest source**: its variable if that is not empty, or positive for the
threads, else its member, else the default. A number wraps to the width of its setting. -/
structure Layered (j : Json) (env : Environment) (machineThreads : Int32) (s : Settings) : Prop where
  threads : From (AsksThreads env) (fun n i => i = n)
    (From (Member j "threads") Json.NumberType.int32.Reads
      (· = (machineBudget machineThreads).toInt)) s.threads.toInt
  queueCapacity : From (Variable env "ZKPOW_QUEUE_CAPACITY") Decimal.Denotes
    (From (Member j "queue_capacity") Json.NumberType.word.Reads (· = 32)) s.queueCapacity.toNat
  maxRestarts : From (Variable env "ZKPOW_MAX_RESTARTS")
    (fun text r => ∃ i, Decimal.Denotes text i ∧ r = i % 2 ^ 32)
    (From (Member j "max_restarts") Json.NumberType.uint32.Reads (· = 0)) s.restart.maxRestarts.toNat
  initialBackoff : From (Variable env "ZKPOW_RESTART_BACKOFF_MS")
    (fun text r => ∃ i, Decimal.Denotes text i ∧ r = i.bmod (2 ^ 64))
    (From (Member j "restart_backoff_ms")
      (fun v r => ∃ i, Json.NumberType.word.Reads v i ∧ r = i.bmod (2 ^ 64)) (· = 0))
    s.restart.initialBackoff.toInt
  maxBackoff : From (Variable env "ZKPOW_RESTART_BACKOFF_MAX_MS")
    (fun text r => ∃ i, Decimal.Denotes text i ∧ r = i.bmod (2 ^ 64))
    (From (Member j "restart_backoff_max_ms")
      (fun v r => ∃ i, Json.NumberType.word.Reads v i ∧ r = i.bmod (2 ^ 64)) (· = 0))
    s.restart.maxBackoff.toInt
  multiplier : From (Member j "restart_backoff_multiplier") IsDouble (· = 2.0) s.restart.multiplier
  scratchDir : From (Variable env "ZKPOW_SCRATCH_DIR") (fun text path => path = text)
    (From (Member j "scratch_dir") (fun v path => v = .string path) (· = "")) s.scratchDir
  precompute : From (Variable env "ZKPOW_PRECOMPUTE_DOMAINS") IsFlag
    (From (Member j "precompute_domains") (fun v b => v = .bool b) (· = true)) s.precompute
  mine : From (Member j "mine") (fun v b => v = .bool b) (· = true) s.mine
  payouts : From (Member j "mining_keys") AreSplits (· = []) s.payouts

/-- The environment has its say about the threads twice. -/
theorem from_threads (machineThreads : Int32) (hrange : ThreadsInRange env)
    (hmembers : FromMembers j o) (hvariables : FromVariables env o') :
    From (AsksThreads env) (fun n i => i = n)
      (From (Member j "threads") Json.NumberType.int32.Reads
        (· = (machineBudget machineThreads).toInt))
      (o'.apply (o.apply (defaults env machineThreads))).threads.toInt := by
  rw [defaults_eq, Overrides.apply, Overrides.apply, hvariables.threads]
  cases hasked : threads? env with
  | some n => exact .source (hrange.asksThreads_iff.2 ⟨n, hasked, rfl⟩) rfl
  | none =>
    refine .silent (fun n hn => ?_) ?_
    · obtain ⟨k, hk, -⟩ := hrange.asksThreads_iff.1 hn
      cases hasked.symm.trans hk
    · exact hmembers.threads.from (f := Int32.toInt) member_iff
        (fun h => Json.reads_int32 (congrArg (Option.map _) h)) rfl

/-- What is composed is layered: one field for each setting. -/
theorem layered_of_composed (hrange : ThreadsInRange env) (h : Composed j env machineThreads s) :
    Layered j env machineThreads s := by
  obtain ⟨o, o', hmembers, hvariables, rfl⟩ := h
  have hthreads := from_threads machineThreads hrange hmembers hvariables
  have hword {v : Json} {w : UInt64} (h : v.toWord? = some w) : Json.NumberType.word.Reads v w.toNat :=
    Json.reads_word (congrArg (Option.map _) h)
  -- only the threads have a default that depends on the environment
  rw [defaults_eq] at hthreads ⊢
  refine {
    threads := hthreads
    queueCapacity := hvariables.queueCapacity.from (f := fun w => (w.toNat : ℤ)) variable_iff
      word?_eq_some_iff.1 (hmembers.queueCapacity.from (f := fun w => (w.toNat : ℤ)) member_iff hword rfl)
    maxRestarts := hvariables.maxRestarts.from (f := fun n => (n.toNat : ℤ)) variable_iff denotes_ceiling
      (hmembers.maxRestarts.from (f := fun n => (n.toNat : ℤ)) member_iff
        (fun h => Json.reads_uint32 (congrArg (Option.map _) h)) rfl)
    initialBackoff := hvariables.initialBackoff.from (f := Int64.toInt) variable_iff denotes_backoff
      (hmembers.initialBackoff.from (f := Int64.toInt) member_iff reads_backoff rfl)
    maxBackoff := hvariables.maxBackoff.from (f := Int64.toInt) variable_iff denotes_backoff
      (hmembers.maxBackoff.from (f := Int64.toInt) member_iff reads_backoff rfl)
    multiplier := ?_
    scratchDir := hvariables.scratchDir.from (f := id) variable_iff (fun h => Option.some.inj h.symm)
      (hmembers.scratchDir.from (f := id) member_iff eq_string_of_string? rfl)
    precompute := hvariables.precompute.from (f := id) variable_iff isFlag_of_flag?
      (hmembers.precompute.from (f := id) member_iff eq_bool_of_bool? rfl)
    mine := ?_
    payouts := ?_ }
  · rw [Overrides.apply, hvariables.multiplier]
    exact hmembers.multiplier.from (f := id) member_iff isDouble_of_toFloat? rfl
  · rw [Overrides.apply, hvariables.mine]
    exact hmembers.mine.from (f := id) member_iff eq_bool_of_bool? rfl
  · rw [Overrides.apply, hvariables.payouts]
    exact hmembers.payouts.from (f := id) member_iff areSplits_of_splits? rfl

/-- The empty object has no members. -/
theorem ofFile_of_empty (h : readFile path content = .ok (.object [])) :
    ofFile path content env machineThreads = ofEnvironment env machineThreads := by
  have hempty (s : Settings) : (applyJson (.object [])).run s = (.ok (), s) := rfl
  rw [ofFile, h]
  change build _ _ = build _ _
  rw [build, build, bind_run_of_ok (hempty _)]

/-! ### No source is one of another setting -/

/-- A setting with all that it may come from, besides a default of its own. -/
structure Setting where
  name? : Option String
  key : String
  /-- The machine has a default for it. -/
  ofMachine : Bool := false
  Same : Settings → Settings → Prop

/-- The settings with their variables and members. No name and no key occurs twice. -/
def table : List Setting := [
  { name? := some "MINING_THREADS", key := "threads", ofMachine := true
    Same := fun s s' => s.threads = s'.threads },
  { name? := some "ZKPOW_QUEUE_CAPACITY", key := "queue_capacity"
    Same := fun s s' => s.queueCapacity = s'.queueCapacity },
  { name? := some "ZKPOW_MAX_RESTARTS", key := "max_restarts"
    Same := fun s s' => s.restart.maxRestarts = s'.restart.maxRestarts },
  { name? := some "ZKPOW_RESTART_BACKOFF_MS", key := "restart_backoff_ms"
    Same := fun s s' => s.restart.initialBackoff = s'.restart.initialBackoff },
  { name? := some "ZKPOW_RESTART_BACKOFF_MAX_MS", key := "restart_backoff_max_ms"
    Same := fun s s' => s.restart.maxBackoff = s'.restart.maxBackoff },
  { name? := none, key := "restart_backoff_multiplier"
    Same := fun s s' => s.restart.multiplier = s'.restart.multiplier },
  { name? := some "ZKPOW_SCRATCH_DIR", key := "scratch_dir"
    Same := fun s s' => s.scratchDir = s'.scratchDir },
  { name? := some "ZKPOW_PRECOMPUTE_DOMAINS", key := "precompute_domains"
    Same := fun s s' => s.precompute = s'.precompute },
  { name? := none, key := "mine", Same := fun s s' => s.mine = s'.mine },
  { name? := none, key := "mining_keys", Same := fun s s' => s.payouts = s'.payouts }]

variable {machineThreads' : Int32}

/-- Its sources are the same in two configurations. -/
structure Setting.SameSources (x : Setting) (j j' : Json) (env env' : Environment)
    (machineThreads machineThreads' : Int32) : Prop where
  name? : ∀ name ∈ x.name?, ∀ text, Variable env name text ↔ Variable env' name text
  key : ∀ v, Member j x.key v ↔ Member j' x.key v
  machine : x.ofMachine = true → machineThreads = machineThreads'

/-- **A setting is the same if its sources are**, whatever the sources of the others say. -/
theorem Composed.same (h : Composed j env machineThreads s) (h' : Composed j' env' machineThreads' s')
    {x : Setting} (hx : x ∈ table) (hsources : x.SameSources j j' env env' machineThreads machineThreads') :
    x.Same s s' := by
  obtain ⟨o, o', hm, hv, rfl⟩ := h
  obtain ⟨p, p', hm', hv', rfl⟩ := h'
  have hvariable (name : String) (hname : name ∈ x.name?) : nonEmpty? env name = nonEmpty? env' name :=
    Option.ext fun text => by rw [← variable_iff, ← variable_iff, hsources.name? name hname text]
  have hkey : j.get? x.key = j'.get? x.key :=
    Option.ext fun v => by rw [← member_iff, ← member_iff, hsources.key v]
  have hmachine := hsources.machine
  rw [defaults_eq, defaults_eq]
  simp only [table, List.mem_cons, List.not_mem_nil, or_false] at hx
  rcases hx with rfl | rfl | rfl | rfl | rfl | rfl | rfl | rfl | rfl | rfl
  · have hasked : threads? env = threads? env' := by rw [threads?, threads?, hvariable _ rfl]
    simp only [Overrides.apply, hv.threads, hv'.threads, hasked, hmachine rfl,
      (hkey ▸ hm.threads).unique hm'.threads]
  · simp only [Overrides.apply, (hvariable _ rfl ▸ hv.queueCapacity).unique hv'.queueCapacity,
      (hkey ▸ hm.queueCapacity).unique hm'.queueCapacity]
  · simp only [Overrides.apply, (hvariable _ rfl ▸ hv.maxRestarts).unique hv'.maxRestarts,
      (hkey ▸ hm.maxRestarts).unique hm'.maxRestarts]
  · simp only [Overrides.apply, (hvariable _ rfl ▸ hv.initialBackoff).unique hv'.initialBackoff,
      (hkey ▸ hm.initialBackoff).unique hm'.initialBackoff]
  · simp only [Overrides.apply, (hvariable _ rfl ▸ hv.maxBackoff).unique hv'.maxBackoff,
      (hkey ▸ hm.maxBackoff).unique hm'.maxBackoff]
  · simp only [Overrides.apply, hv.multiplier, hv'.multiplier,
      (hkey ▸ hm.multiplier).unique hm'.multiplier]
  · simp only [Overrides.apply, (hvariable _ rfl ▸ hv.scratchDir).unique hv'.scratchDir,
      (hkey ▸ hm.scratchDir).unique hm'.scratchDir]
  · simp only [Overrides.apply, (hvariable _ rfl ▸ hv.precompute).unique hv'.precompute,
      (hkey ▸ hm.precompute).unique hm'.precompute]
  · simp only [Overrides.apply, hv.mine, hv'.mine, (hkey ▸ hm.mine).unique hm'.mine]
  · simp only [Overrides.apply, hv.payouts, hv'.payouts, (hkey ▸ hm.payouts).unique hm'.payouts]

/-- **The settings are layered.** What a file and an environment lead to comes from the highest source of
each setting, and two settings have no source in common. A file with the empty object is no file at all. -/
theorem settings_layered (env : Environment) (machineThreads : Int32) :
    (∀ path content s, ThreadsInRange env → ofFile path content env machineThreads = .ok s →
      ∃ j, readFile path content = .ok j ∧ Layered j env machineThreads s ∧
        ∀ path' content' env' machineThreads' s', ThreadsInRange env' →
          ofFile path' content' env' machineThreads' = .ok s' →
          ∃ j', readFile path' content' = .ok j' ∧
            ∀ x ∈ table, x.SameSources j j' env env' machineThreads machineThreads' → x.Same s s') ∧
    ∀ path content, readFile path content = .ok (.object []) →
      ofFile path content env machineThreads = ofEnvironment env machineThreads := by
  refine ⟨fun path content s hrange h => ?_, fun path content => ofFile_of_empty⟩
  obtain ⟨j, hj, hcomposed⟩ := composed_of_ofFile h
  refine ⟨j, hj, layered_of_composed hrange hcomposed, fun path' content' env' machineThreads' s' _ h' => ?_⟩
  obtain ⟨j', hj', hcomposed'⟩ := composed_of_ofFile h'
  exact ⟨j', hj', fun x hx hsources => hcomposed.same hcomposed' hx hsources⟩

/-- A file that gives settings of every sort. -/
def manyMembers : List Char :=
  ("\x7b\"threads\": 6, \"queue_capacity\": 9, \"max_restarts\": 2, " ++
    "\"restart_backoff_multiplier\": 3, \"scratch_dir\": \"scratch\", " ++
    "\"precompute_domains\": true, \"mine\": false, \"mining_keys\": [\"1,1:alice\"]\x7d").toList

/-- An environment that gives two of them, with a number of threads that does not count and an empty
variable. -/
def twoVariables : Environment := [
  ("MINING_THREADS", " -8"), ("ZKPOW_QUEUE_CAPACITY", "5"), ("ZKPOW_MAX_RESTARTS", ""),
  ("ZKPOW_PRECOMPUTE_DOMAINS", "no")]

/-- The capacity and the flag come from the environment, the rest from the file. -/
theorem settings_layered_manyMembers :
    ∃ j s, ThreadsInRange twoVariables ∧
      ofFile "miner.json" (some manyMembers) twoVariables 16 = .ok s ∧
      readFile "miner.json" (some manyMembers) = .ok j ∧ Layered j twoVariables 16 s ∧
      s.threads = 6 ∧ s.queueCapacity = 5 ∧ s.restart.maxRestarts = 2 ∧
      s.restart.multiplier = (3 : UInt64).toFloat ∧ s.scratchDir = "scratch" ∧ s.precompute = false ∧
      s.mine = false ∧ s.payouts = [{ keys := ["alice"] }] ∧
      ofFile "miner.json" (some ['\x7b', '\x7d']) twoVariables 16 = ofEnvironment twoVariables 16 := by
  have hread : readFile "miner.json" (some manyMembers) = .ok (.object
      [("max_restarts", .unsigned 2), ("mine", .bool false), ("mining_keys", .array [.string "1,1:alice"]),
        ("precompute_domains", .bool true), ("queue_capacity", .unsigned 9),
        ("restart_backoff_multiplier", .unsigned 3), ("scratch_dir", .string "scratch"),
        ("threads", .unsigned 6)]) := by
    cbv
  have hfile : ofFile "miner.json" (some manyMembers) twoVariables 16 =
      .ok { threads := 6, queueCapacity := 5
            restart := { maxRestarts := 2, multiplier := (3 : UInt64).toFloat }
            scratchDir := "scratch", precompute := false, mine := false
            payouts := [{ keys := ["alice"] }] } := by
    rw [ofFile, hread]
    rfl
  have hrange : ThreadsInRange twoVariables := by
    intro text hset
    obtain rfl : " -8" = text := Option.some.inj hset.1
    have hleading : Decimal.leading " -8".toList = -8 := rfl
    rw [hleading]
    decide
  obtain ⟨j, hj, hlayered, -⟩ := (settings_layered twoVariables 16).1 _ _ _ hrange hfile
  exact ⟨j, _, hrange, hfile, hj, hlayered, rfl, rfl, rfl, rfl, rfl, rfl, rfl, rfl,
    (settings_layered twoVariables 16).2 _ _ rfl⟩

end Settings
end ProofMiner
