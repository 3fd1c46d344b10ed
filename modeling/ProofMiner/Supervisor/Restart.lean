/-
# When a worker is restarted

A policy limits the restarts of a worker and delays those of a worker that keeps failing: the
first delay is multiplied once for every further failure in a row, up to a ceiling.
-/

import ProofMiner.Decimal.Binary

namespace ProofMiner

/-- A restart policy; delays are in milliseconds. -/
structure RestartPolicy where
  /-- The most restarts of one worker, where 0 sets no limit. -/
  maxRestarts : UInt32 := 0
  initialBackoff : Int64 := 0
  /-- The longest delay, where 0 sets no limit. -/
  maxBackoff : Int64 := 0
  multiplier : Float := 2.0
  deriving Repr, Inhabited

namespace RestartPolicy

/-- The integer part of a double, or the least integer if it does not fit. -/
def truncateInt64 (x : Float) : Int64 :=
  (Decimal.truncateInt64? x).getD Int64.minValue

/-- The delay after a number of failures in a row. -/
def backoff (p : RestartPolicy) (failures : UInt32) : Int64 :=
  if failures = 0 ∨ p.initialBackoff ≤ 0 then 0
  else
    let growth := if 1.0 < p.multiplier then p.multiplier else 1.0
    let delay := p.initialBackoff.toFloat * growth.pow (failures - 1).toFloat
    let ceiling := p.maxBackoff.toFloat
    truncateInt64 (if 0 < p.maxBackoff ∧ ceiling < delay then ceiling else delay)

/-- A worker with so many restarts may be restarted once more. -/
def allows (p : RestartPolicy) (restarts : UInt32) : Bool :=
  p.maxRestarts == 0 || restarts < p.maxRestarts

end RestartPolicy
end ProofMiner
