/-
# The registry of accelerated operations

A registry owns a domain cache, counts the calls of each operation and turns every failure of a
call into a typed result: a call never fails in any other way.
-/

import ProofMiner.Jet.Call

namespace ProofMiner
namespace Jet

/-- How a call ended. -/
inductive Status where
  | ok
  | malformedArguments
  | invalidArgument
  | notPowerOfTwo
  | lengthMismatch
  | noSuchRoot
  | divisionByZero
  | unknownOperation
  | internalError
  deriving DecidableEq, Repr, Inhabited

namespace Status

/-- The statuses by code, with their names. -/
def table : List (Status × String) := [
  (ok, "ok"), (malformedArguments, "malformed-arguments"),
  (invalidArgument, "invalid-argument"), (notPowerOfTwo, "not-power-of-two"),
  (lengthMismatch, "length-mismatch"), (noSuchRoot, "no-such-root"),
  (divisionByZero, "division-by-zero"), (unknownOperation, "unknown-operation"),
  (internalError, "internal-error")]

/-- The name of a code, also of one that stands for no status. -/
def nameOfCode (code : Nat) : String :=
  match table[code]? with
  | some entry => entry.2
  | none => "unknown"

/-- How a status is written in an answer. -/
def name (s : Status) : String := nameOfCode s.ctorIdx

/-- The status of a call that failed with a cause of the given family. -/
def ofKind : FaultKind → Status
  | .malformedArguments => malformedArguments
  | .lengthMismatch => lengthMismatch
  | .notPowerOfTwo => notPowerOfTwo
  | .noSuchRoot => noSuchRoot
  | .invalidArgument => invalidArgument
  | .divisionByZero => divisionByZero

end Status

/-- The result of a call: a value, or a status with a wording. -/
inductive Result where
  | ok (value : Value)
  | failed (status : Status) (message : String)
  deriving DecidableEq, Repr, Inhabited

namespace Result

/-- A result with a value has the status `ok`. -/
def status : Result → Status
  | ok _ => .ok
  | failed s _ => s

/-- Whether there is a value. -/
def isOk : Result → Bool
  | ok _ => true
  | failed _ _ => false

/-- A fault is told by the status of its kind and by its message. -/
def ofExcept : Except Fault Value → Result
  | .ok v => ok v
  | .error e => failed (.ofKind e.kind) e.message

end Result

/-- The settings of the engine, the cache, and the calls so far, by operation index. -/
structure Registry where
  tuning : Tuning := {}
  mode : CacheMode := .populate
  cache : Cache := {}
  calls : Array Nat := Array.replicate 33 0
  deriving DecidableEq, Repr, Inhabited

namespace Registry

/-- How often an operation was called so far. -/
def callCount (r : Registry) (op : Op) : Nat := r.calls.getD op.index 0

/-- Calls an operation. -/
def invoke (r : Registry) (op : Op) (a : Args) : Result × Registry :=
  let (out, cache) := run r.tuning r.mode op a r.cache
  (.ofExcept out, { r with cache, calls := r.calls.modify op.index (· + 1) })

/-- Calls an operation by index. -/
def invokeIndex (r : Registry) (index : Nat) (a : Args) : Result × Registry :=
  match Op.ofIndex? index with
  | some op => r.invoke op a
  | none => (.failed .unknownOperation s!"jet index {index} out of range", r)

/-- Calls an operation by name. -/
def invokeName (r : Registry) (name : String) (a : Args) : Result × Registry :=
  match Op.ofName? name with
  | some op => r.invoke op a
  | none => (.failed .unknownOperation s!"unknown jet: {name}", r)

/-- The log line with the calls of every operation that was called. -/
def callsLine (r : Registry) : String :=
  let called := Op.all.filterMap fun op =>
    let n := r.callCount op
    if 0 < n then some s!" {op.name}={n}" else none
  "[jets] calls:" ++ (if called.isEmpty then " none" else String.join called)

/-- The statistics of the cache and of the calls. -/
def statsLines (r : Registry) : List String := [r.cache.statsLine, r.callsLine]

/-- A registry whose cache holds the sizes `2 ^ low` to `2 ^ high` for offset 1 from the start,
with the log lines of the warm-up. -/
def warmedUp (r : Registry) (low high : Nat) : Except Fault (List String × Registry) :=
  match r.cache.warmUp low high 1 with
  | (.ok lines, cache) => .ok (lines, { r with cache })
  | (.error e, _) => .error e

end Registry
end Jet
end ProofMiner
