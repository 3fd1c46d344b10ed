/-
# Settings of the miner

A setting comes from the highest source that gives it: an environment variable, else the member of
a configuration file, else the default.

    member                        variable
    threads                       MINING_THREADS
    queue_capacity                ZKPOW_QUEUE_CAPACITY
    max_restarts                  ZKPOW_MAX_RESTARTS
    restart_backoff_ms            ZKPOW_RESTART_BACKOFF_MS
    restart_backoff_max_ms        ZKPOW_RESTART_BACKOFF_MAX_MS
    restart_backoff_multiplier
    scratch_dir                   ZKPOW_SCRATCH_DIR
    precompute_domains            ZKPOW_PRECOMPUTE_DOMAINS
    mine
    mining_keys

A variable that is set to the empty text counts as unset. Members and variables are applied in the
order of the table, and what was applied before a failure stays.
-/

import ProofMiner.Decimal.Shortest
import ProofMiner.Json.Conversion
import ProofMiner.Json.Parser
import ProofMiner.Supervisor.Restart
import ProofMiner.Supervisor.Threads
import ProofMiner.Work.Payout

namespace ProofMiner

/-- The settings of a miner. -/
structure Settings where
  threads : Int32 := 4
  queueCapacity : UInt64 := 32
  restart : RestartPolicy := {}
  scratchDir : String := ""
  precompute : Bool := true
  mine : Bool := true
  payouts : List Payout := []
  deriving Repr, Inhabited

/-- The variables of an environment. -/
abbrev Environment := List (String × String)

namespace Settings

/-- What can be wrong with a source of settings. -/
inductive Fault where
  /-- The member has a value of another type. -/
  | memberType (key : String)
  | threadsNotPositive
  | noCapacity
  | smallMultiplier
  | payout (fault : Payout.Fault)
  /-- A configuration has to be an object. -/
  | notAnObject
  | variableNotNumber (name text : String)
  | variableTooLarge (name text : String)
  | variableNotBool (name text : String)
  | variableNoCapacity
  | fileMissing (path : String)
  | fileMalformed (path : String)
  /-- A number in the file is too large for a double. -/
  | fileNumber
  deriving DecidableEq, Repr, Inhabited

/-- What is said of a fault. Where a member or a variable is to blame, it is named. -/
def Fault.message : Fault → String
  | memberType key => s!"config key '{key}': {Json.Fault.wrongType.message}"
  | threadsNotPositive => "config key 'threads' must be positive"
  | noCapacity => "config key 'queue_capacity' must be at least 1"
  | smallMultiplier => "config key 'restart_backoff_multiplier' must be >= 1"
  | payout e => e.message
  | notAnObject => "config must be a JSON object"
  | variableNotNumber name text => s!"{name} must be a non-negative integer, got '{text}'"
  | variableTooLarge name text => s!"{name} is out of range: '{text}'"
  | variableNotBool name text => s!"{name} must be a boolean, got '{text}'"
  | variableNoCapacity => "ZKPOW_QUEUE_CAPACITY must be at least 1"
  | fileMissing path => s!"cannot open config file {path}"
  | fileMalformed path =>
    s!"config file {path} is not valid JSON: {Json.Fault.malformed.message}"
  | fileNumber => Json.Fault.numberTooLarge.message

/-- A change of the settings that can fail half-way. -/
abbrev Update := ExceptT Fault (StateM Settings)

/-! ## Members of a configuration -/

/-- The value of a member of the given type. -/
def typed {α : Type} (key : String) (read : Json → Option α) (j : Json) : Update α :=
  match read j with
  | some v => return v
  | none => throw (.memberType key)

/-- There has to be one thread at least. -/
def setThreads (j : Json) : Update Unit := do
  let n ← typed "threads" Json.toInt32? j
  if n ≤ 0 then throw .threadsNotPositive
  modify fun s => { s with threads := n }

/-- There has to be room for one candidate. -/
def setQueueCapacity (j : Json) : Update Unit := do
  let n ← typed "queue_capacity" Json.toWord? j
  if n = 0 then throw .noCapacity
  modify fun s => { s with queueCapacity := n }

/-- The ceiling is cut to 32 bits where it is read. -/
def setMaxRestarts (j : Json) : Update Unit := do
  let n ← typed "max_restarts" Json.toUInt32? j
  modify fun s => { s with restart.maxRestarts := n }

/-- A delay in milliseconds, taken for a signed word. -/
def setInitialBackoff (j : Json) : Update Unit := do
  let n ← typed "restart_backoff_ms" Json.toWord? j
  modify fun s => { s with restart.initialBackoff := n.toInt64 }

/-- The longest delay, taken for a signed word too. -/
def setMaxBackoff (j : Json) : Update Unit := do
  let n ← typed "restart_backoff_max_ms" Json.toWord? j
  modify fun s => { s with restart.maxBackoff := n.toInt64 }

/-- Delays must not shrink. -/
def setMultiplier (j : Json) : Update Unit := do
  let x ← typed "restart_backoff_multiplier" Json.toFloat? j
  if x < 1.0 then throw .smallMultiplier
  modify fun s => { s with restart.multiplier := x }

/-- The directory that the workers' directories are made in. -/
def setScratchDir (j : Json) : Update Unit := do
  let path ← typed "scratch_dir" Json.string? j
  modify fun s => { s with scratchDir := path }

/-- Whether tables are computed before they are needed. -/
def setPrecompute (j : Json) : Update Unit := do
  let b ← typed "precompute_domains" Json.bool? j
  modify fun s => { s with precompute := b }

/-- Whether the miner starts with mining turned on. -/
def setMine (j : Json) : Update Unit := do
  let b ← typed "mine" Json.bool? j
  modify fun s => { s with mine := b }

/-- Appends a payout split. -/
def addPayout (text : String) : Update Unit := do
  match Payout.parse text with
  | .ok p => modify fun s => { s with payouts := s.payouts ++ [p] }
  | .error e => throw (.payout e)

/-- Replaces the payout splits. -/
def setPayouts (texts : Update (List String)) : Update Unit := do
  modify fun s => { s with payouts := [] }
  (← texts).forM addPayout

/-- The members of a configuration with what each one changes. -/
def members : List (String × (Json → Update Unit)) := [
  ("threads", setThreads), ("queue_capacity", setQueueCapacity),
  ("max_restarts", setMaxRestarts), ("restart_backoff_ms", setInitialBackoff),
  ("restart_backoff_max_ms", setMaxBackoff), ("restart_backoff_multiplier", setMultiplier),
  ("scratch_dir", setScratchDir), ("precompute_domains", setPrecompute), ("mine", setMine),
  ("mining_keys", fun j => setPayouts (typed "mining_keys" Json.strings? j))]

/-- Applies a configuration. -/
def applyJson (j : Json) : Update Unit := do
  if !j.isObject then throw .notAnObject
  members.forM fun (key, set) =>
    match j.get? key with
    | some v => set v
    | none => return

/-! ## Variables of the environment -/

/-- A decimal number of 64 bits. -/
def number (name text : String) : Update UInt64 :=
  match Decimal.word text.toList with
  | .ok n => return n
  | .error .notDigits => throw (.variableNotNumber name text)
  | .error .tooLarge => throw (.variableTooLarge name text)

/-- A flag by its words, in lower case only. -/
def bool (name text : String) : Update Bool :=
  if text == "1" || text == "true" || text == "yes" then return true
  else if text == "0" || text == "false" || text == "no" then return false
  else throw (.variableNotBool name text)

/-- A number of threads that is not positive changes nothing. -/
def threadsVariable (_name text : String) : Update Unit := do
  let n := Decimal.leadingInt32 text.toList
  if 0 < n then modify fun s => { s with threads := n }

/-- The capacity is checked as in a configuration. -/
def queueCapacityVariable (name text : String) : Update Unit := do
  let n ← number name text
  if n = 0 then throw .variableNoCapacity
  modify fun s => { s with queueCapacity := n }

/-- The ceiling is read with 64 bits and cut to 32. -/
def maxRestartsVariable (name text : String) : Update Unit := do
  let n ← number name text
  modify fun s => { s with restart.maxRestarts := n.toUInt32 }

/-- A delay is read with 64 bits and taken for a signed word. -/
def initialBackoffVariable (name text : String) : Update Unit := do
  let n ← number name text
  modify fun s => { s with restart.initialBackoff := n.toInt64 }

/-- The longest delay is read in the same way. -/
def maxBackoffVariable (name text : String) : Update Unit := do
  let n ← number name text
  modify fun s => { s with restart.maxBackoff := n.toInt64 }

/-- Any text is a path. -/
def scratchDirVariable (_name text : String) : Update Unit :=
  modify fun s => { s with scratchDir := text }

/-- Whether tables are computed before they are needed. -/
def precomputeVariable (name text : String) : Update Unit := do
  let b ← bool name text
  modify fun s => { s with precompute := b }

/-- The variables with what each one changes. -/
def environmentVariables : List (String × (String → String → Update Unit)) := [
  ("MINING_THREADS", threadsVariable), ("ZKPOW_QUEUE_CAPACITY", queueCapacityVariable),
  ("ZKPOW_MAX_RESTARTS", maxRestartsVariable),
  ("ZKPOW_RESTART_BACKOFF_MS", initialBackoffVariable),
  ("ZKPOW_RESTART_BACKOFF_MAX_MS", maxBackoffVariable),
  ("ZKPOW_SCRATCH_DIR", scratchDirVariable),
  ("ZKPOW_PRECOMPUTE_DOMAINS", precomputeVariable)]

/-- The text of a variable that is set and not empty. -/
def nonEmpty? (env : Environment) (name : String) : Option String :=
  (env.lookup name).filter (· ≠ "")

/-- Applies the variables of an environment. -/
def applyEnvironment (env : Environment) : Update Unit :=
  environmentVariables.forM fun (name, set) =>
    match nonEmpty? env name with
    | some text => set name text
    | none => return

/-! ## Whole configurations -/

/-- The settings before any file: the thread budget is taken from the environment if that holds a
positive number, else it is the number of threads of the machine. -/
def defaults (env : Environment) (machineThreads : Int32) : Settings :=
  let n := Decimal.leadingInt32 ((env.lookup "MINING_THREADS").getD "").toList
  { threads := if 0 < n then n else if machineThreads = 0 then 4 else machineThreads }

/-- The settings that an update leads to from the given ones. -/
def build (start : Settings) (update : Update Unit) : Except Fault Settings :=
  match update.run start with
  | (.ok (), s) => .ok s
  | (.error e, _) => .error e

/-- The settings without a file. -/
def ofEnvironment (env : Environment) (machineThreads : Int32) : Except Fault Settings :=
  build (defaults env machineThreads) (applyEnvironment env)

/-- The first value of a configuration file. -/
def readFile (path : String) (content : Option (List Char)) : Except Fault Json :=
  match content with
  | none => .error (.fileMissing path)
  | some cs => match Json.parseFirst cs with
    | .ok j => .ok j
    | .error .numberTooLarge => .error .fileNumber
    | .error _ => .error (.fileMalformed path)

/-- The settings with a file, whose content is absent if it cannot be opened. -/
def ofFile (path : String) (content : Option (List Char)) (env : Environment)
    (machineThreads : Int32) : Except Fault Settings := do
  let j ← readFile path content
  build (defaults env machineThreads) (do applyJson j; applyEnvironment env)

/-- The settings in one line. -/
def summary (s : Settings) : String :=
  let precompute := if s.precompute then "yes" else "no"
  s!"threads={s.threads.toInt} workers={Threads.optimalWorkers s.threads.toInt}" ++
    s!" queue_capacity={s.queueCapacity.toNat} max_restarts={s.restart.maxRestarts.toNat}" ++
    s!" backoff_ms={s.restart.initialBackoff.toInt}" ++
    s!" precompute={precompute} mining_keys={s.payouts.length}"

end Settings
end ProofMiner
