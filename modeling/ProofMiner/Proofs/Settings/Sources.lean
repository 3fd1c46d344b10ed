/-
# What a source of settings gives

A source gives some of the settings and no others (`Overrides`): a configuration those of its members, an
environment those of its variables. Each member and each variable is read into one setting (`Sets`), so that
what was applied before it can only show in that setting, and only if the source is silent about it.

The number of threads in the environment counts only if it is positive (`threads?`).
-/

import Mathlib
import ProofMiner.Proofs.Readers
import ProofMiner.Settings

namespace ProofMiner

/-! ### Updates that succeed -/

section Updates

variable {ε σ α β : Type} {s s' : σ}

/-- A change of the state always succeeds. -/
theorem modify_run_eq_ok_iff {f : σ → σ} :
    (modify f : ExceptT ε (StateM σ) PUnit).run s = (.ok ⟨⟩, s') ↔ s' = f s :=
  ⟨fun h => (congrArg Prod.snd h).symm, fun h => h ▸ rfl⟩

/-- Updates of a list are done one after the other. -/
theorem forM_nil_run_eq_ok_iff {f : α → ExceptT ε (StateM σ) PUnit} :
    (([] : List α).forM f).run s = (.ok ⟨⟩, s') ↔ s' = s :=
  pure_run_eq_ok_iff.trans (and_iff_right rfl)

theorem forM_cons_run_eq_ok_iff {x : α} {xs : List α} {f : α → ExceptT ε (StateM σ) PUnit} :
    ((x :: xs).forM f).run s = (.ok ⟨⟩, s') ↔
      ∃ t, (f x).run s = (.ok ⟨⟩, t) ∧ (xs.forM f).run t = (.ok ⟨⟩, s') := by
  refine bind_run_eq_ok_iff.trans ?_
  exact ⟨fun ⟨_, t, h⟩ => ⟨t, h⟩, fun ⟨t, h⟩ => ⟨⟨⟩, t, h⟩⟩

end Updates

namespace Settings

variable {α β γ : Type} {s s' : Settings} {j : Json} {env : Environment} {name : String}

/-- The settings that a source gives. -/
structure Overrides where
  threads : Option Int32 := none
  queueCapacity : Option UInt64 := none
  maxRestarts : Option UInt32 := none
  initialBackoff : Option Int64 := none
  maxBackoff : Option Int64 := none
  multiplier : Option Float := none
  scratchDir : Option String := none
  precompute : Option Bool := none
  mine : Option Bool := none
  payouts : Option (List Payout) := none

/-- The settings with those of a source in their places. -/
def Overrides.apply (o : Overrides) (s : Settings) : Settings where
  threads := o.threads.getD s.threads
  queueCapacity := o.queueCapacity.getD s.queueCapacity
  restart := {
    maxRestarts := o.maxRestarts.getD s.restart.maxRestarts
    initialBackoff := o.initialBackoff.getD s.restart.initialBackoff
    maxBackoff := o.maxBackoff.getD s.restart.maxBackoff
    multiplier := o.multiplier.getD s.restart.multiplier }
  scratchDir := o.scratchDir.getD s.scratchDir
  precompute := o.precompute.getD s.precompute
  mine := o.mine.getD s.mine
  payouts := o.payouts.getD s.payouts

/-! ### One source for one setting -/

/-- What a source gives for a setting, if it is there at all: it can be read, and this is its value. -/
def Reads (read : β → Option α) (source? : Option β) (x? : Option α) : Prop :=
  source?.map read = x?.map some

/-- The first part of an update reads the source and changes nothing. -/
def Gives (first : β → Update α) (read : β → Option α) : Prop :=
  ∀ b x s s', (first b).run s = (.ok x, s') → read b = some x ∧ s' = s

/-- An update from a source overrides one setting by the value of that source, or fails. -/
def Sets (put : Option α → Overrides) (set : β → Update Unit) (read : β → Option α) : Prop :=
  ∀ b s s', (set b).run s = (.ok (), s') → ∃ x, read b = some x ∧ s' = (put (some x)).apply s

section

variable {first : β → Update γ} {read : β → Option γ}

/-- What is read is put into one setting. -/
theorem Gives.sets (h : Gives first read) {put : Option γ → Overrides} :
    Sets put (fun b => first b >>= fun x => modify (put (some x)).apply) read := by
  intro b s s' hrun
  obtain ⟨x, t, hfirst, hput⟩ := bind_run_eq_ok_iff.1 hrun
  obtain ⟨hread, rfl⟩ := h b x s t hfirst
  exact ⟨x, hread, modify_run_eq_ok_iff.1 hput⟩

/-- A value may be converted. -/
theorem Gives.sets_map (h : Gives first read) {f : γ → α} {put : Option α → Overrides} :
    Sets put (fun b => first b >>= fun x => modify (put (some (f x))).apply)
      (fun b => (read b).map f) := by
  intro b s s' hrun
  obtain ⟨x, t, hfirst, hput⟩ := bind_run_eq_ok_iff.1 hrun
  obtain ⟨hread, rfl⟩ := h b x s t hfirst
  exact ⟨f x, congrArg (Option.map f) hread, modify_run_eq_ok_iff.1 hput⟩

/-- A value may still be refused. -/
theorem Gives.sets_checked (h : Gives first read) {put : Option γ → Overrides} {refused : γ → Prop}
    [DecidablePred refused] {e : Fault} :
    Sets put (fun b => first b >>= fun x => do
      if refused x then throw e
      modify (put (some x)).apply) read := by
  intro b s s' hrun
  obtain ⟨x, t, hfirst, hput⟩ := bind_run_eq_ok_iff.1 hrun
  obtain ⟨hread, rfl⟩ := h b x s t hfirst
  exact ⟨x, hread, modify_run_eq_ok_iff.1 (refuse_run_eq_ok_iff.1 hput).2⟩

end

/-- A source that may be absent. -/
theorem Sets.optional {put : Option α → Overrides} {set : β → Update Unit} {read : β → Option α}
    (h : Sets put set read) {source? : Option β}
    (hrun : (source?.elim (pure ()) set).run s = (.ok (), s'))
    (hput : (put none).apply s = s) :
    ∃ x?, Reads read source? x? ∧ s' = (put x?).apply s := by
  cases source? with
  | none => exact ⟨none, rfl, (pure_run_eq_ok_iff.1 hrun).2.trans hput.symm⟩
  | some b =>
    obtain ⟨x, hx, rfl⟩ := h b s s' hrun
    exact ⟨some x, congrArg some hx, rfl⟩

/-! ### Members -/

/-- A value of the right type is read, and another one is refused. -/
theorem gives_typed (key : String) (read : Json → Option α) : Gives (typed key read) read := by
  intro v x s s' hrun
  unfold typed at hrun
  split at hrun
  next y hread =>
    obtain ⟨rfl, rfl⟩ := pure_run_eq_ok_iff.1 hrun
    exact ⟨hread, rfl⟩
  next => cases hrun

/-- A delay of so many milliseconds. -/
def backoff? (v : Json) : Option Int64 := v.toWord?.map UInt64.toInt64

/-- The splits of a list of texts. -/
def splits? (v : Json) : Option (List Payout) :=
  v.strings?.bind fun texts => (texts.mapM Payout.parse).toOption

/-- A budget of threads is read into its setting if it is positive. -/
theorem sets_threads : Sets ({ threads := · }) setThreads Json.toInt32? :=
  (gives_typed _ _).sets_checked

/-- A capacity is read into its setting if it is not zero. -/
theorem sets_queueCapacity : Sets ({ queueCapacity := · }) setQueueCapacity Json.toWord? :=
  (gives_typed _ _).sets_checked

/-- The ceiling of the restarts is read as 32 bits. -/
theorem sets_maxRestarts : Sets ({ maxRestarts := · }) setMaxRestarts Json.toUInt32? :=
  (gives_typed _ _).sets

/-- The first delay is held as a signed word. -/
theorem sets_initialBackoff : Sets ({ initialBackoff := · }) setInitialBackoff backoff? :=
  (gives_typed _ _).sets_map

/-- The longest delay is held as a signed word. -/
theorem sets_maxBackoff : Sets ({ maxBackoff := · }) setMaxBackoff backoff? :=
  (gives_typed _ _).sets_map

/-- A multiplier is read if it is at least one. -/
theorem sets_multiplier : Sets ({ multiplier := · }) setMultiplier Json.toFloat? :=
  (gives_typed _ _).sets_checked

/-- Every text is a path. -/
theorem sets_scratchDir : Sets ({ scratchDir := · }) setScratchDir Json.string? :=
  (gives_typed _ _).sets

/-- A truth value turns the tables on or off. -/
theorem sets_precompute : Sets ({ precompute := · }) setPrecompute Json.bool? :=
  (gives_typed _ _).sets

/-- A truth value turns mining on or off. -/
theorem sets_mine : Sets ({ mine := · }) setMine Json.bool? := (gives_typed _ _).sets

/-- A payout split is added if its text can be read. -/
theorem addPayout_run_eq_ok_iff {text : String} : (addPayout text).run s = (.ok (), s') ↔
    ∃ k, Payout.parse text = .ok k ∧ s' = { s with payouts := s.payouts ++ [k] } := by
  rw [addPayout]
  cases Payout.parse text with
  | error e => exact ⟨nofun, nofun⟩
  | ok k =>
    refine modify_run_eq_ok_iff.trans ⟨fun h => ⟨k, rfl, h⟩, ?_⟩
    rintro ⟨_, ⟨⟩, h⟩
    exact h

/-- The splits are appended one by one. -/
theorem forM_addPayout_run {texts : List String} (hrun : (texts.forM addPayout).run s = (.ok (), s')) :
    ∃ ks, texts.mapM Payout.parse = .ok ks ∧ s' = { s with payouts := s.payouts ++ ks } := by
  induction texts generalizing s with
  | nil =>
    obtain rfl := forM_nil_run_eq_ok_iff.1 hrun
    exact ⟨[], rfl, by rw [List.append_nil]⟩
  | cons text texts ih =>
    obtain ⟨t, hfirst, hrest⟩ := forM_cons_run_eq_ok_iff.1 hrun
    obtain ⟨k, hk, rfl⟩ := addPayout_run_eq_ok_iff.1 hfirst
    obtain ⟨ks, hks, rfl⟩ := ih hrest
    refine ⟨k :: ks, ?_, by rw [List.append_assoc]; rfl⟩
    rw [List.mapM_cons, hk, hks]
    rfl

/-- What was there before is replaced. -/
theorem sets_payouts : Sets ({ payouts := · })
    (fun v => setPayouts (typed "mining_keys" Json.strings? v)) splits? := by
  intro v s s' hrun
  obtain ⟨_, t, hclear, hrun⟩ := bind_run_eq_ok_iff.1 hrun
  obtain rfl := modify_run_eq_ok_iff.1 hclear
  obtain ⟨texts, t, htexts, hrun⟩ := bind_run_eq_ok_iff.1 hrun
  obtain ⟨hread, rfl⟩ := gives_typed _ _ v texts _ t htexts
  obtain ⟨ks, hks, rfl⟩ := forM_addPayout_run hrun
  exact ⟨ks, by rw [splits?, hread, Option.bind_some, hks]; rfl, rfl⟩

/-- The settings that the members of a configuration give. -/
structure FromMembers (j : Json) (o : Overrides) : Prop where
  threads : Reads Json.toInt32? (j.get? "threads") o.threads
  queueCapacity : Reads Json.toWord? (j.get? "queue_capacity") o.queueCapacity
  maxRestarts : Reads Json.toUInt32? (j.get? "max_restarts") o.maxRestarts
  initialBackoff : Reads backoff? (j.get? "restart_backoff_ms") o.initialBackoff
  maxBackoff : Reads backoff? (j.get? "restart_backoff_max_ms") o.maxBackoff
  multiplier : Reads Json.toFloat? (j.get? "restart_backoff_multiplier") o.multiplier
  scratchDir : Reads Json.string? (j.get? "scratch_dir") o.scratchDir
  precompute : Reads Json.bool? (j.get? "precompute_domains") o.precompute
  mine : Reads Json.bool? (j.get? "mine") o.mine
  payouts : Reads splits? (j.get? "mining_keys") o.payouts

/-- A configuration is an object, and its members are applied in a fixed order. -/
theorem applyJson_run_eq_ok_iff : (applyJson j).run s = (.ok (), s') ↔
    ¬ (!j.isObject) = true ∧
      (members.forM fun m => (j.get? m.1).elim (pure ()) m.2).run s = (.ok (), s') := by
  refine refuse_run_eq_ok_iff.trans (and_congr_right fun _ => Eq.to_iff ?_)
  refine congrArg (fun f : _ → Update Unit => (members.forM f).run s = (.ok (), s'))
    (funext fun m => ?_)
  dsimp only
  cases j.get? m.1 <;> rfl

/-- **A configuration changes the settings that its members give**, and no others. -/
theorem exists_fromMembers (hrun : (applyJson j).run s = (.ok (), s')) :
    ∃ o, FromMembers j o ∧ s' = o.apply s := by
  obtain ⟨-, hrun⟩ := applyJson_run_eq_ok_iff.1 hrun
  simp only [members, forM_cons_run_eq_ok_iff, forM_nil_run_eq_ok_iff] at hrun
  obtain ⟨s₁, h₁, s₂, h₂, s₃, h₃, s₄, h₄, s₅, h₅, s₆, h₆, s₇, h₇, s₈, h₈, s₉, h₉, s₁₀, h₁₀, rfl⟩ := hrun
  obtain ⟨threads, hthreads, rfl⟩ := sets_threads.optional h₁ rfl
  obtain ⟨queueCapacity, hqueueCapacity, rfl⟩ := sets_queueCapacity.optional h₂ rfl
  obtain ⟨maxRestarts, hmaxRestarts, rfl⟩ := sets_maxRestarts.optional h₃ rfl
  obtain ⟨initialBackoff, hinitialBackoff, rfl⟩ := sets_initialBackoff.optional h₄ rfl
  obtain ⟨maxBackoff, hmaxBackoff, rfl⟩ := sets_maxBackoff.optional h₅ rfl
  obtain ⟨multiplier, hmultiplier, rfl⟩ := sets_multiplier.optional h₆ rfl
  obtain ⟨scratchDir, hscratchDir, rfl⟩ := sets_scratchDir.optional h₇ rfl
  obtain ⟨precompute, hprecompute, rfl⟩ := sets_precompute.optional h₈ rfl
  obtain ⟨mine, hmine, rfl⟩ := sets_mine.optional h₉ rfl
  obtain ⟨payouts, hpayouts, rfl⟩ := sets_payouts.optional h₁₀ rfl
  exact ⟨⟨threads, queueCapacity, maxRestarts, initialBackoff, maxBackoff, multiplier, scratchDir,
      precompute, mine, payouts⟩,
    ⟨hthreads, hqueueCapacity, hmaxRestarts, hinitialBackoff, hmaxBackoff, hmultiplier, hscratchDir,
      hprecompute, hmine, hpayouts⟩, rfl⟩

/-! ### Variables -/

/-- The number that a variable holds. -/
def word? (text : String) : Option UInt64 := (Decimal.word text.toList).toOption

/-- The truth value that a variable holds. -/
def flag? (text : String) : Option Bool :=
  if text ∈ ["1", "true", "yes"] then some true
  else if text ∈ ["0", "false", "no"] then some false
  else none

/-- The number of threads that the environment asks for, if it is positive. -/
def threads? (env : Environment) : Option Int32 :=
  ((nonEmpty? env "MINING_THREADS").map fun text => Decimal.leadingInt32 text.toList).filter (0 < ·)

/-- A variable with a number is read by its digits. -/
theorem gives_number (name : String) : Gives (number name) word? := by
  intro text x s s' hrun
  unfold number at hrun
  split at hrun
  next y hread =>
    obtain ⟨rfl, rfl⟩ := pure_run_eq_ok_iff.1 hrun
    exact ⟨by rw [word?, hread]; rfl, rfl⟩
  next => cases hrun
  next => cases hrun

/-- A variable with a flag is read by its words. -/
theorem gives_bool (name : String) : Gives (bool name) flag? := by
  intro text b s s' hrun
  unfold bool at hrun
  split_ifs at hrun with htrue hfalse
  · obtain ⟨rfl, rfl⟩ := pure_run_eq_ok_iff.1 hrun
    refine ⟨if_pos ?_, rfl⟩
    simpa [or_assoc] using htrue
  · obtain ⟨rfl, rfl⟩ := pure_run_eq_ok_iff.1 hrun
    refine ⟨(if_neg ?_).trans (if_pos ?_), rfl⟩
    · simpa [or_assoc] using htrue
    · simpa [or_assoc] using hfalse
  · cases hrun

/-- A capacity of the environment is read into its setting if it is not zero. -/
theorem sets_queueCapacityVariable (name : String) :
    Sets ({ queueCapacity := · }) (queueCapacityVariable name) word? := (gives_number name).sets_checked

/-- The ceiling is cut to 32 bits. -/
theorem sets_maxRestartsVariable (name : String) :
    Sets ({ maxRestarts := · }) (maxRestartsVariable name) fun text => (word? text).map UInt64.toUInt32 :=
  (gives_number name).sets_map

/-- The first delay of the environment is held as a signed word. -/
theorem sets_initialBackoffVariable (name : String) :
    Sets ({ initialBackoff := · }) (initialBackoffVariable name)
      fun text => (word? text).map UInt64.toInt64 := (gives_number name).sets_map

/-- The longest delay of the environment is held as a signed word. -/
theorem sets_maxBackoffVariable (name : String) :
    Sets ({ maxBackoff := · }) (maxBackoffVariable name)
      fun text => (word? text).map UInt64.toInt64 := (gives_number name).sets_map

/-- Every text that is not empty is a path. -/
theorem sets_scratchDirVariable (name : String) :
    Sets ({ scratchDir := · }) (scratchDirVariable name) some :=
  fun text _ _ hrun => ⟨text, rfl, modify_run_eq_ok_iff.1 hrun⟩

/-- A flag turns the tables on or off. -/
theorem sets_precomputeVariable (name : String) :
    Sets ({ precompute := · }) (precomputeVariable name) flag? := (gives_bool name).sets

/-- A number of threads that is not positive is passed over. -/
theorem threadsVariable_run (hrun : ((nonEmpty? env "MINING_THREADS").elim (pure ())
    (threadsVariable name)).run s = (.ok (), s')) :
    s' = Overrides.apply { threads := threads? env } s := by
  rw [threads?]
  cases hset : nonEmpty? env "MINING_THREADS" with
  | none =>
    rw [hset] at hrun
    exact (pure_run_eq_ok_iff.1 hrun).2
  | some text =>
    rw [hset, Option.elim_some, threadsVariable] at hrun
    rw [Option.map_some, Option.filter_some]
    split_ifs at hrun with hpositive
    · rw [if_pos (decide_eq_true hpositive)]
      exact modify_run_eq_ok_iff.1 hrun
    · rw [if_neg (by simpa using hpositive)]
      exact (pure_run_eq_ok_iff.1 hrun).2

/-- The settings that the variables of an environment give. -/
structure FromVariables (env : Environment) (o : Overrides) : Prop where
  threads : o.threads = threads? env
  queueCapacity : Reads word? (nonEmpty? env "ZKPOW_QUEUE_CAPACITY") o.queueCapacity
  maxRestarts : Reads (fun text => (word? text).map UInt64.toUInt32)
    (nonEmpty? env "ZKPOW_MAX_RESTARTS") o.maxRestarts
  initialBackoff : Reads (fun text => (word? text).map UInt64.toInt64)
    (nonEmpty? env "ZKPOW_RESTART_BACKOFF_MS") o.initialBackoff
  maxBackoff : Reads (fun text => (word? text).map UInt64.toInt64)
    (nonEmpty? env "ZKPOW_RESTART_BACKOFF_MAX_MS") o.maxBackoff
  multiplier : o.multiplier = none
  scratchDir : Reads some (nonEmpty? env "ZKPOW_SCRATCH_DIR") o.scratchDir
  precompute : Reads flag? (nonEmpty? env "ZKPOW_PRECOMPUTE_DOMAINS") o.precompute
  mine : o.mine = none
  payouts : o.payouts = none

/-- Empty variables are passed over. -/
theorem applyEnvironment_eq : applyEnvironment env =
    environmentVariables.forM fun m => (nonEmpty? env m.1).elim (pure ()) (m.2 m.1) := by
  refine congrArg environmentVariables.forM (funext fun m => ?_)
  dsimp only
  cases nonEmpty? env m.1 <;> rfl

/-- **An environment changes the settings that its variables give**, and no others. -/
theorem exists_fromVariables (hrun : (applyEnvironment env).run s = (.ok (), s')) :
    ∃ o, FromVariables env o ∧ s' = o.apply s := by
  rw [applyEnvironment_eq] at hrun
  simp only [environmentVariables, forM_cons_run_eq_ok_iff, forM_nil_run_eq_ok_iff] at hrun
  obtain ⟨s₁, h₁, s₂, h₂, s₃, h₃, s₄, h₄, s₅, h₅, s₆, h₆, s₇, h₇, rfl⟩ := hrun
  obtain rfl := threadsVariable_run h₁
  obtain ⟨queueCapacity, hqueueCapacity, rfl⟩ := (sets_queueCapacityVariable _).optional h₂ rfl
  obtain ⟨maxRestarts, hmaxRestarts, rfl⟩ := (sets_maxRestartsVariable _).optional h₃ rfl
  obtain ⟨initialBackoff, hinitialBackoff, rfl⟩ := (sets_initialBackoffVariable _).optional h₄ rfl
  obtain ⟨maxBackoff, hmaxBackoff, rfl⟩ := (sets_maxBackoffVariable _).optional h₅ rfl
  obtain ⟨scratchDir, hscratchDir, rfl⟩ := (sets_scratchDirVariable _).optional h₆ rfl
  obtain ⟨precompute, hprecompute, rfl⟩ := (sets_precomputeVariable _).optional h₇ rfl
  exact ⟨⟨threads? env, queueCapacity, maxRestarts, initialBackoff, maxBackoff, none, scratchDir,
      precompute, none, none⟩,
    ⟨rfl, hqueueCapacity, hmaxRestarts, hinitialBackoff, hmaxBackoff, rfl, hscratchDir, hprecompute,
      rfl, rfl⟩, rfl⟩

end Settings
end ProofMiner
