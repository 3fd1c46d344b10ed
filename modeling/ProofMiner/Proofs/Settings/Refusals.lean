/-
# What a source of settings is refused for

A member of a configuration is refused for a fault that depends on its value alone (`memberRefusals`), and so
is a variable of an environment (`variableRefusals`). A source fails with the first of these faults in the
order of the settings, whatever the settings were before (`applyJson_run_fst`, `applyEnvironment_run_fst`).

No source is refused for a number that is too large for a double, which only a text can hold. The message of
every other refusal names the member or the variable, unless it is about the text of a payout split
(`blames_memberRefusals`, `blames_variableRefusals`).
-/

import Mathlib
import ProofMiner.Proofs.Settings.Sources

namespace ProofMiner
namespace Settings

variable {α β γ : Type} {e : Fault} {s : Settings} {j : Json} {env : Environment}

/-! ### Updates that fail -/

/-- What an update comes to, given the fault that it ends with, if it ends with one. -/
def outcome (fault? : Option Fault) : Except Fault Unit := fault?.elim (.ok ()) .error

/-- An update succeeds if nothing is refused, and fails with what is. -/
theorem outcome_eq_ok_iff {fault? : Option Fault} : outcome fault? = .ok () ↔ fault? = none := by
  cases fault? with
  | none => exact ⟨fun _ => rfl, fun _ => rfl⟩
  | some e => exact ⟨nofun, nofun⟩

theorem outcome_eq_error_iff {fault? : Option Fault} : outcome fault? = .error e ↔ fault? = some e := by
  cases fault? with
  | none => exact ⟨nofun, nofun⟩
  | some e' => exact ⟨fun h => congrArg some (Except.error.inj h), fun h => congrArg _ (Option.some.inj h)⟩

/-- An update fails by what its source is refused for, and by nothing else. -/
def FailsBy (set : β → Update Unit) (fault? : β → Option Fault) : Prop :=
  ∀ b s, ((set b).run s).1 = outcome (fault? b)

/-- Of two updates the first refusal counts. -/
theorem bind_run_fst {m : Update Unit} {next : Unit → Update Unit} {first? second? : Option Fault}
    (hm : (m.run s).1 = outcome first?) (hnext : ∀ s, ((next ()).run s).1 = outcome second?) :
    ((m >>= next).run s).1 = outcome (first?.or second?) := by
  cases first? with
  | none => rw [bind_run_of_ok (Prod.ext hm rfl), Option.none_or, hnext]
  | some e =>
    rw [bind_run_of_error (Prod.ext hm rfl), Option.some_or]
    rfl

/-- **The first fault of a list of updates counts.** -/
theorem forM_run_fst {set : α → Update Unit} {fault? : γ → Option Fault} {xs : List α} {ys : List γ}
    (h : List.Forall₂ (fun x y => ∀ s, ((set x).run s).1 = outcome (fault? y)) xs ys) (s : Settings) :
    ((xs.forM set).run s).1 = outcome (ys.findSome? fault?) := by
  induction h generalizing s with
  | nil => rfl
  | @cons x y xs ys hx _ ih =>
    refine (bind_run_fst (hx s) ih).trans (congrArg outcome ?_)
    rw [List.findSome?_cons]
    cases fault? y <;> rfl

/-- The fault of the first value that is refused. Absent values are not. -/
def firstRefusal (refusals : List (String × (β → Option Fault))) (source? : String → Option β) :
    Option Fault :=
  refusals.findSome? fun r => (source? r.1).bind r.2

/-- A first refusal is the refusal of a value that is there. -/
theorem exists_of_firstRefusal {refusals : List (String × (β → Option Fault))}
    {source? : String → Option β} (h : firstRefusal refusals source? = some e) :
    ∃ r ∈ refusals, ∃ b, source? r.1 = some b ∧ r.2 b = some e := by
  obtain ⟨r, hr, hrefused⟩ := List.exists_of_findSome?_eq_some h
  obtain ⟨b, hb, hfault⟩ := Option.bind_eq_some_iff.1 hrefused
  exact ⟨r, hr, b, hb, hfault⟩

/-- Nothing is refused if and only if each value that is there is accepted. -/
theorem firstRefusal_eq_none_iff {refusals : List (String × (β → Option Fault))}
    {source? : String → Option β} : firstRefusal refusals source? = none ↔
      ∀ r ∈ refusals, ∀ b, source? r.1 = some b → r.2 b = none := by
  rw [firstRefusal, List.findSome?_eq_none_iff]
  exact forall₂_congr fun r _ => Option.bind_eq_none_iff

/-- **Updates of a list fail with the first refusal**, by induction on the list. What was applied before
does not matter to what is refused. -/
theorem forM_sources_run_fst {updates : List (String × (β → Update Unit))}
    {refusals : List (String × (β → Option Fault))}
    (h : List.Forall₂ (fun m r => m.1 = r.1 ∧ FailsBy m.2 r.2) updates refusals)
    (source? : String → Option β) (s : Settings) :
    ((updates.forM fun m => (source? m.1).elim (pure ()) m.2).run s).1 =
      outcome (firstRefusal refusals source?) := by
  refine forM_run_fst (h.imp fun m r hmr s => ?_) s
  obtain ⟨hname, hset⟩ := hmr
  rw [hname]
  cases source? r.1 with
  | none => rfl
  | some b => exact hset b s

/-- Why a value is refused that is read and then checked. -/
def refusal (unread : β → Fault) (read : β → Option α) (check : α → Option Fault) (b : β) : Option Fault :=
  (read b).elim (some (unread b)) check

/-- The first part of an update reads the source, or fails, and changes nothing. -/
def ReadsBy (first : β → Update α) (unread : β → Fault) (read : β → Option α) : Prop :=
  ∀ b s, (first b).run s = ((read b).elim (.error (unread b)) .ok, s)

/-- A value is refused because it is not read, or because it does not pass the check. -/
theorem ReadsBy.failsBy {first : β → Update α} {unread : β → Fault} {read : β → Option α}
    (h : ReadsBy first unread read) {next : α → Update Unit} {check : α → Option Fault}
    (hnext : FailsBy next check) : FailsBy (fun b => first b >>= next) (refusal unread read check) := by
  intro b s
  have hfirst := h b s
  rw [refusal]
  cases hread : read b with
  | none =>
    rw [hread] at hfirst
    rw [bind_run_of_error hfirst]
    rfl
  | some x =>
    rw [hread] at hfirst
    rw [bind_run_of_ok hfirst]
    exact hnext x s

/-- A change without a check refuses nothing. -/
theorem failsBy_modify {put : α → Settings → Settings} :
    FailsBy (fun x => modify (put x)) fun _ => none := fun _ _ => rfl

/-- A check in front of a change refuses what it is for. -/
theorem failsBy_checked {refused : α → Prop} [DecidablePred refused] {e : Fault}
    {put : α → Settings → Settings} :
    FailsBy (fun x => do
      if refused x then throw e
      modify (put x)) (fun x => if refused x then some e else none) := by
  intro x s
  dsimp only
  split_ifs <;> rfl

/-! ### What a fault says -/

/-- The fault is one of an argument. A number that is too large for a double is none: it is passed on as the
reader of JSON gives it. -/
def Fault.IsInvalidArgument (e : Fault) : Prop := e ≠ .fileNumber

/-- The message of the fault names a member or a variable. -/
def Fault.Names (e : Fault) (name : String) : Prop := name.toList <:+: e.message.toList

/-- The fault is one of an argument, and it says of which. -/
structure Fault.Blames (e : Fault) (name : String) : Prop where
  isInvalidArgument : e.IsInvalidArgument
  names : e.Names name

/-- Why a text is no number of 64 bits. -/
def unreadNumber (name text : String) : Fault :=
  match Decimal.word text.toList with
  | .error .tooLarge => .variableTooLarge name text
  | _ => .variableNotNumber name text

/-- A name in a message may stand between other words. -/
theorem names_of_message {front name back : String} (h : e.message = front ++ (name ++ back)) :
    e.Names name := by
  rw [Fault.Names, h, String.toList_append, String.toList_append, ← List.append_assoc]
  exact List.infix_append _ _ _

/-- The messages name the member or the variable. -/
theorem blames_memberType (key : String) : (Fault.memberType key).Blames key := by
  have hmessage : (Fault.memberType key).message =
      "config key '" ++ key ++ "': " ++ Json.Fault.wrongType.message := rfl
  exact ⟨nofun, names_of_message (by rw [hmessage, String.append_assoc, String.append_assoc])⟩

/-- A fault of a variable opens with its name. -/
theorem blames_of_message {name back : String} (he : e.IsInvalidArgument) (h : e.message = name ++ back) :
    e.Blames name :=
  ⟨he, names_of_message (h.trans String.empty_append.symm)⟩

theorem blames_unreadNumber (name text : String) : (unreadNumber name text).Blames name := by
  have hnumber : (Fault.variableNotNumber name text).message =
      name ++ " must be a non-negative integer, got '" ++ text ++ "'" := rfl
  have hlarge : (Fault.variableTooLarge name text).message =
      name ++ " is out of range: '" ++ text ++ "'" := rfl
  rw [String.append_assoc, String.append_assoc] at hnumber hlarge
  unfold unreadNumber
  split
  · exact blames_of_message nofun hlarge
  · exact blames_of_message nofun hnumber

theorem blames_variableNotBool (name text : String) : (Fault.variableNotBool name text).Blames name := by
  have hmessage : (Fault.variableNotBool name text).message =
      name ++ " must be a boolean, got '" ++ text ++ "'" := rfl
  rw [String.append_assoc, String.append_assoc] at hmessage
  exact blames_of_message nofun hmessage

/-- A value is not read, or does not pass the check. -/
theorem refusal_cases {unread : β → Fault} {read : β → Option α} {check : α → Option Fault} {b : β}
    (h : refusal unread read check b = some e) : e = unread b ∨ ∃ x, check x = some e := by
  rw [refusal] at h
  cases hread : read b with
  | none =>
    rw [hread] at h
    exact .inl (Option.some.inj h).symm
  | some x =>
    rw [hread] at h
    exact .inr ⟨x, h⟩

/-- A value is accepted if it can be read and passes its check. -/
theorem refusal_eq_none_iff {unread : β → Fault} {read : β → Option α} {check : α → Option Fault} {b : β} :
    refusal unread read check b = none ↔ ∃ x, read b = some x ∧ check x = none := by
  rw [refusal]
  cases hread : read b with
  | none => exact ⟨nofun, fun ⟨_, hx, _⟩ => nomatch hx⟩
  | some x =>
    refine ⟨fun h => ⟨x, rfl, h⟩, ?_⟩
    rintro ⟨_, ⟨⟩, h⟩
    exact h

/-- The faults of a member or a variable say of which. -/
def Blaming (name : String) (fault? : β → Option Fault) : Prop :=
  ∀ b e, fault? b = some e → e.Blames name

/-- What refuses nothing blames nobody else. -/
theorem blaming_none (name : String) : Blaming name fun _ : β => none := fun _ _ => nofun

/-- A check with one fault blames whom the fault does. -/
theorem blaming_check {name : String} {refused : α → Prop} [DecidablePred refused] (h : e.Blames name) :
    Blaming name fun x => if refused x then some e else none := by
  intro x e' hx
  dsimp only at hx
  split_ifs at hx
  exact Option.some.inj hx ▸ h

/-- A refusal blames its value if both of its faults do. -/
theorem Blaming.refusal {name : String} {unread : β → Fault} {read : β → Option α}
    {check : α → Option Fault} (hcheck : Blaming name check) (hunread : ∀ b, (unread b).Blames name) :
    Blaming name (refusal unread read check) := by
  intro b e h
  rcases refusal_cases h with rfl | ⟨x, hx⟩
  · exact hunread b
  · exact hcheck x e hx

/-! ### Members -/

/-- Why the text of a payout split is refused. -/
def payoutRefusal (text : String) : Option Fault :=
  match Payout.parse text with
  | .ok _ => none
  | .error e => some (.payout e)

/-- A member of a given type, which may be checked. -/
def memberRefusal (key : String) (read : Json → Option α) (check : α → Option Fault) :
    String × (Json → Option Fault) :=
  (key, refusal (fun _ => .memberType key) read check)

/-- What each member is refused for. -/
def memberRefusals : List (String × (Json → Option Fault)) := [
  memberRefusal "threads" Json.toInt32? fun n => if n ≤ 0 then some .threadsNotPositive else none,
  memberRefusal "queue_capacity" Json.toWord? fun n => if n = 0 then some .noCapacity else none,
  memberRefusal "max_restarts" Json.toUInt32? fun _ => none,
  memberRefusal "restart_backoff_ms" Json.toWord? fun _ => none,
  memberRefusal "restart_backoff_max_ms" Json.toWord? fun _ => none,
  memberRefusal "restart_backoff_multiplier" Json.toFloat?
    fun x => if x < 1.0 then some .smallMultiplier else none,
  memberRefusal "scratch_dir" Json.string? fun _ => none,
  memberRefusal "precompute_domains" Json.bool? fun _ => none,
  memberRefusal "mine" Json.bool? fun _ => none,
  memberRefusal "mining_keys" Json.strings? (List.findSome? payoutRefusal)]

/-- A member is read by its type. -/
theorem readsBy_typed (key : String) (read : Json → Option α) :
    ReadsBy (typed key read) (fun _ => .memberType key) read := by
  intro v s
  unfold typed
  cases read v <;> rfl

/-- A payout split is refused if its text is not read. -/
theorem failsBy_addPayout : FailsBy addPayout payoutRefusal := by
  intro text s
  unfold addPayout payoutRefusal
  cases Payout.parse text <;> rfl

/-- The splits that were there are dropped first, which cannot fail. -/
theorem failsBy_setPayouts : FailsBy (fun v => setPayouts (typed "mining_keys" Json.strings? v))
    (refusal (fun _ => .memberType "mining_keys") Json.strings? (List.findSome? payoutRefusal)) := by
  intro v s
  refine (readsBy_typed "mining_keys" Json.strings?).failsBy (fun texts s => ?_) v { s with payouts := [] }
  exact forM_run_fst (List.forall₂_same.2 fun text _ => failsBy_addPayout text) s

/-- The members fail by their refusals, in the order in which they are applied. -/
theorem forall₂_members : List.Forall₂ (fun m r => m.1 = r.1 ∧ FailsBy m.2 r.2) members memberRefusals :=
  .cons ⟨rfl, (readsBy_typed _ _).failsBy failsBy_checked⟩ <|
  .cons ⟨rfl, (readsBy_typed _ _).failsBy failsBy_checked⟩ <|
  .cons ⟨rfl, (readsBy_typed _ _).failsBy failsBy_modify⟩ <|
  .cons ⟨rfl, (readsBy_typed _ _).failsBy failsBy_modify⟩ <|
  .cons ⟨rfl, (readsBy_typed _ _).failsBy failsBy_modify⟩ <|
  .cons ⟨rfl, (readsBy_typed _ _).failsBy failsBy_checked⟩ <|
  .cons ⟨rfl, (readsBy_typed _ _).failsBy failsBy_modify⟩ <|
  .cons ⟨rfl, (readsBy_typed _ _).failsBy failsBy_modify⟩ <|
  .cons ⟨rfl, (readsBy_typed _ _).failsBy failsBy_modify⟩ <|
  .cons ⟨rfl, failsBy_setPayouts⟩ .nil

/-- The type of a member is checked before its value, and both faults name it. -/
theorem Blaming.member {key : String} {check : α → Option Fault} (hcheck : Blaming key check)
    (read : Json → Option α) : Blaming key (memberRefusal key read check).2 :=
  hcheck.refusal fun _ => blames_memberType key

/-- A member that is refused is named, and for anything else the text of a split is refused. -/
theorem blames_memberRefusals {r : String × (Json → Option Fault)} (hr : r ∈ memberRefusals) {v : Json}
    (h : r.2 v = some e) : e.Blames r.1 ∨ r.1 = "mining_keys" ∧ ∃ fault, e = .payout fault := by
  have hthreads : Fault.threadsNotPositive.Blames "threads" :=
    ⟨nofun, "config key '".toList, "' must be positive".toList, by decide⟩
  have hcapacity : Fault.noCapacity.Blames "queue_capacity" :=
    ⟨nofun, "config key '".toList, "' must be at least 1".toList, by decide⟩
  have hmultiplier : Fault.smallMultiplier.Blames "restart_backoff_multiplier" :=
    ⟨nofun, "config key '".toList, "' must be >= 1".toList, by decide⟩
  simp only [memberRefusals, List.mem_cons, List.not_mem_nil, or_false] at hr
  rcases hr with rfl | rfl | rfl | rfl | rfl | rfl | rfl | rfl | rfl | rfl
  · exact .inl ((blaming_check hthreads).member _ v e h)
  · exact .inl ((blaming_check hcapacity).member _ v e h)
  · exact .inl ((blaming_none _).member _ v e h)
  · exact .inl ((blaming_none _).member _ v e h)
  · exact .inl ((blaming_none _).member _ v e h)
  · exact .inl ((blaming_check hmultiplier).member _ v e h)
  · exact .inl ((blaming_none _).member _ v e h)
  · exact .inl ((blaming_none _).member _ v e h)
  · exact .inl ((blaming_none _).member _ v e h)
  · have hrefused : refusal (fun _ => .memberType "mining_keys") Json.strings?
        (List.findSome? payoutRefusal) v = some e := h
    rcases refusal_cases hrefused with rfl | ⟨texts, htexts⟩
    · exact .inl (blames_memberType _)
    · obtain ⟨text, -, htext⟩ := List.exists_of_findSome?_eq_some htexts
      unfold payoutRefusal at htext
      split at htext
      · cases htext
      · exact .inr ⟨rfl, _, (Option.some.inj htext).symm⟩

/-- **What becomes of a configuration**, whatever the settings are. -/
theorem applyJson_run_fst (j : Json) (s : Settings) : ((applyJson j).run s).1 =
    if j.isObject then outcome (firstRefusal memberRefusals j.get?) else .error .notAnObject := by
  have hmembers := forM_sources_run_fst forall₂_members j.get? s
  unfold applyJson
  cases hobject : j.isObject with
  | false => rfl
  | true =>
    rw [if_pos rfl, ← hmembers]
    refine congrArg (fun f : _ → Update Unit => ((members.forM f).run s).1) (funext fun m => ?_)
    dsimp only
    cases j.get? m.1 <;> rfl

/-! ### Variables -/

/-- A variable that holds a number, which may be checked. -/
def numberRefusal (name : String) (check : UInt64 → Option Fault) : String × (String → Option Fault) :=
  (name, refusal (unreadNumber name) word? check)

/-- What each variable is refused for. -/
def variableRefusals : List (String × (String → Option Fault)) := [
  ("MINING_THREADS", fun _ => none),
  numberRefusal "ZKPOW_QUEUE_CAPACITY" fun n => if n = 0 then some .variableNoCapacity else none,
  numberRefusal "ZKPOW_MAX_RESTARTS" fun _ => none,
  numberRefusal "ZKPOW_RESTART_BACKOFF_MS" fun _ => none,
  numberRefusal "ZKPOW_RESTART_BACKOFF_MAX_MS" fun _ => none,
  ("ZKPOW_SCRATCH_DIR", fun _ => none),
  ("ZKPOW_PRECOMPUTE_DOMAINS",
    refusal (.variableNotBool "ZKPOW_PRECOMPUTE_DOMAINS") flag? fun _ => none)]

/-- A variable with a number is read by its digits. -/
theorem readsBy_number (name : String) : ReadsBy (number name) (unreadNumber name) word? := by
  intro text s
  unfold number unreadNumber word?
  cases Decimal.word text.toList with
  | ok n => rfl
  | error e => cases e <;> rfl

/-- A variable with a flag is read by its words. -/
theorem readsBy_bool (name : String) : ReadsBy (bool name) (.variableNotBool name) flag? := by
  intro text s
  unfold bool flag?
  simp only [List.mem_cons, List.not_mem_nil, or_false, Bool.or_eq_true, beq_iff_eq, or_assoc]
  split_ifs <;> rfl

/-- A number of threads in the environment is never refused. -/
theorem failsBy_threadsVariable (name : String) : FailsBy (threadsVariable name) fun _ => none := by
  intro text s
  unfold threadsVariable
  dsimp only
  split_ifs <;> rfl

/-- The variables fail by their refusals, in the order in which they are applied. -/
theorem forall₂_variables : List.Forall₂ (fun m r => m.1 = r.1 ∧ FailsBy m.2 r.2)
    (environmentVariables.map fun m => (m.1, m.2 m.1)) variableRefusals :=
  .cons ⟨rfl, failsBy_threadsVariable "MINING_THREADS"⟩ <|
  .cons ⟨rfl, (readsBy_number _).failsBy failsBy_checked⟩ <|
  .cons ⟨rfl, (readsBy_number _).failsBy failsBy_modify⟩ <|
  .cons ⟨rfl, (readsBy_number _).failsBy failsBy_modify⟩ <|
  .cons ⟨rfl, (readsBy_number _).failsBy failsBy_modify⟩ <|
  .cons ⟨rfl, failsBy_modify⟩ <|
  .cons ⟨rfl, (readsBy_bool _).failsBy failsBy_modify⟩ .nil

/-- A number is read before it is checked, and both faults name the variable. -/
theorem Blaming.number {name : String} {check : UInt64 → Option Fault} (hcheck : Blaming name check) :
    Blaming name (numberRefusal name check).2 := hcheck.refusal (blames_unreadNumber name)

/-- A variable that is refused is named. -/
theorem blames_variableRefusals {r : String × (String → Option Fault)} (hr : r ∈ variableRefusals)
    {text : String} (h : r.2 text = some e) : e.Blames r.1 := by
  have hcapacity : Fault.variableNoCapacity.Blames "ZKPOW_QUEUE_CAPACITY" :=
    ⟨nofun, [], " must be at least 1".toList, by decide⟩
  simp only [variableRefusals, List.mem_cons, List.not_mem_nil, or_false] at hr
  rcases hr with rfl | rfl | rfl | rfl | rfl | rfl | rfl
  · cases h
  · exact (blaming_check hcapacity).number text e h
  · exact (blaming_none _).number text e h
  · exact (blaming_none _).number text e h
  · exact (blaming_none _).number text e h
  · cases h
  · exact (blaming_none _).refusal (blames_variableNotBool _) text e h

/-- **What becomes of an environment**, whatever the settings are. -/
theorem applyEnvironment_run_fst (env : Environment) (s : Settings) :
    ((applyEnvironment env).run s).1 = outcome (firstRefusal variableRefusals (nonEmpty? env)) := by
  rw [applyEnvironment_eq]
  exact forM_sources_run_fst forall₂_variables (nonEmpty? env) s

end Settings
end ProofMiner
