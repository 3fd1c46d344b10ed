/-
# The state of the dispatcher

A dispatcher supervises a fixed table of worker slots that take candidates from one queue. A
single control loop handles two sorts of events from its mailbox: a candidate was delivered, and a
worker has ended. The slot of an ended worker gets a new worker of the next generation, as far as
the restart policy allows.

What is written here is what is shared: the slots with what their workers are doing, the queue, the
mailbox, the control loop, and how far calls to start, stop and deliver have come.
-/

import ProofMiner.Prover.Context
import ProofMiner.Supervisor.Queue
import ProofMiner.Supervisor.Restart
import ProofMiner.Supervisor.Threads

namespace ProofMiner

/-- The status of a worker slot. -/
inductive WorkerStatus where
  | starting
  | running
  | terminated
  deriving DecidableEq, Repr, Inhabited

namespace WorkerStatus

/-- The statuses by code, with their names. -/
def table : List (WorkerStatus × String) := [
  (starting, "starting"), (running, "running"), (terminated, "terminated")]

/-- The name of a code, also of one that stands for no status. -/
def nameOfCode (code : Nat) : String :=
  match table[code]? with
  | some entry => entry.2
  | none => "unknown"

/-- How a status is written. -/
def name (s : WorkerStatus) : String := nameOfCode s.ctorIdx

end WorkerStatus

/-- Why a worker ended. -/
inductive ExitReason where
  | none
  /-- The dispatcher stops. -/
  | stopped
  | constructionFailed
  | killed
  | crashed
  deriving DecidableEq, Repr, Inhabited

namespace ExitReason

/-- The reasons by code, with their names. -/
def table : List (ExitReason × String) := [
  (none, "none"), (stopped, "stopped"), (constructionFailed, "construction-failed"),
  (killed, "killed"), (crashed, "crashed")]

/-- The name of a code, also of one that stands for no reason. -/
def nameOfCode (code : Nat) : String :=
  match table[code]? with
  | some entry => entry.2
  | .none => "unknown"

def name (r : ExitReason) : String := nameOfCode r.ctorIdx

end ExitReason

/-- What the worker of a slot is doing. -/
inductive Phase where
  /-- There is no worker. -/
  | absent
  /-- Its directory is not made yet. -/
  | preparing
  /-- Its program is being loaded. -/
  | loading
  /-- It looks for a candidate. -/
  | idle
  | attempting (candidate : Candidate)
  /-- An attempt is completed, and these proofs remain to be passed on. -/
  | emitting (proofs : List MinedProof)
  /-- It has given up its directory and only has to report its end. -/
  | leaving (reason : ExitReason) (error : String)
  deriving DecidableEq, Repr, Inhabited

namespace Phase

/-- There is a worker. -/
def isLive : Phase → Bool
  | absent => false
  | _ => true

/-- There is a worker that holds a directory. -/
def holdsDirectory : Phase → Bool
  | loading | idle | attempting _ | emitting _ => true
  | absent | preparing | leaving _ _ => false

/-- A worker that passes on proofs, or looks for the next candidate when there are none. -/
def emit : List MinedProof → Phase
  | [] => idle
  | proofs => emitting proofs

end Phase

/-- One place in the table of workers. -/
structure Slot where
  status : WorkerStatus := .terminated
  generation : UInt64 := 0
  restarts : UInt32 := 0
  lastExit : ExitReason := .none
  lastError : String := ""
  attempts : Nat := 0
  failedAttempts : Nat := 0
  proofs : Nat := 0
  /-- The worker has been asked to end. -/
  cancelled : Bool := false
  /-- The current generation has completed an attempt, with or without success. -/
  completedAttempt : Bool := false
  /-- The generations in a row that ended without a completed attempt and not by a kill. -/
  failures : UInt32 := 0
  phase : Phase := .absent
  /-- The generation that its last worker was created for. -/
  workerGeneration : UInt64 := 0
  deriving DecidableEq, Repr, Inhabited

/-- What the end of its worker leaves in a slot. -/
def Slot.ended (s : Slot) (reason : ExitReason) (error : String) : Slot :=
  { s with
    status := .terminated, lastExit := reason, lastError := error
    failures := if s.completedAttempt ∨ reason = .killed then 0 else s.failures + 1 }

/-- What the control loop is told. -/
inductive Event where
  | candidate (candidate : Candidate)
  | exited (worker : Nat) (generation : UInt64) (reason : ExitReason) (error : String)
  | stop
  deriving DecidableEq, Repr, Inhabited

/-- What the control loop is doing. -/
inductive Control where
  /-- It is not started yet. -/
  | absent
  | waiting
  /-- It goes through workers whose delay has passed. -/
  | restarting (workers : List Nat)
  /-- It is about to start a new generation of a worker, and has these left. -/
  | respawning (worker : Nat) (rest : List Nat)
  | ended
  deriving DecidableEq, Repr, Inhabited

/-- How far the call that stops the dispatcher has come. -/
inductive StopCall where
  | none
  /-- No restart is decided on from here on, and no candidate taken in. -/
  | requested
  /-- The control loop has been told, and its end is waited for. -/
  | posted
  /-- Every worker has been asked to end. -/
  | cancelled
  /-- The queue is closed; the workers below this number have ended. -/
  | joining (worker : Nat)
  | returned
  deriving DecidableEq, Repr, Inhabited

/-- A worker that is to be restarted at a later time, in nanoseconds of the clock. -/
structure PendingRestart where
  worker : Nat
  due : Int64
  deriving DecidableEq, Repr, Inhabited

/-- Counts over the life of a dispatcher. -/
structure Totals where
  accepted : Nat := 0
  dropped : Nat := 0
  /-- Candidates that were handled while mining was turned off. -/
  ignored : Nat := 0
  attempts : Nat := 0
  failedAttempts : Nat := 0
  proofs : Nat := 0
  restarts : Nat := 0
  constructionFailures : Nat := 0
  deriving DecidableEq, Repr, Inhabited

/-- The counts in the order in which they are shown. -/
def Totals.toList (t : Totals) : List Nat := [
  t.accepted, t.dropped, t.ignored, t.attempts, t.failedAttempts, t.proofs, t.restarts,
  t.constructionFailures]

/-- The state of a dispatcher. -/
structure Dispatcher where
  slots : List Slot
  queue : BoundedQueue Candidate
  policy : RestartPolicy := {}
  /-- The directories of the workers. -/
  scratch : Scratch := {}
  started : Bool := false
  /-- The slots for which the call to start has created a worker. -/
  spawned : Nat := 0
  stopCall : StopCall := .none
  enabled : Bool := true
  /-- Candidates whose delivery has begun and is not yet in the mailbox. -/
  delivering : List Candidate := []
  mailbox : List Event := []
  control : Control := .absent
  pending : List PendingRestart := []
  /-- The time in milliseconds. -/
  now : Nat := 0
  totals : Totals := {}
  /-- The proofs that were passed on, in order. -/
  emitted : List MinedProof := []
  deriving Repr, Inhabited

namespace Dispatcher

/-- What a dispatcher is made from. -/
structure Config where
  threads : Int := Threads.defaultBudget
  /-- The number of workers; one that is not positive leaves the choice to the budget. -/
  workers : Int := 0
  queueCapacity : Nat := 32
  policy : RestartPolicy := {}
  scratch : Scratch := {}
  deriving Repr, Inhabited

/-- The number of workers, chosen by the budget of threads if none is given. -/
def Config.workerCount (c : Config) : Int :=
  if 0 < c.workers then c.workers else Threads.optimalWorkers c.threads

/-- The threads of each worker. -/
def Config.threadsPerWorker (c : Config) : Int := Threads.perWorker c.threads c.workerCount

/-- A dispatcher that is not started. -/
def new (c : Config) : Dispatcher where
  slots := List.replicate c.workerCount.toNat {}
  queue := .new c.queueCapacity
  policy := c.policy
  scratch := c.scratch

/-- The attempts, failed attempts and proofs of all slots together. -/
def work (d : Dispatcher) : List Nat :=
  let total (count : Slot → Nat) : Nat := d.slots.foldl (fun n s => n + count s) 0
  [total Slot.attempts, total Slot.failedAttempts, total Slot.proofs]

/-- Somebody has asked it to stop. -/
def stopping (d : Dispatcher) : Bool := d.stopCall ≠ .none

/-- It is started, and nobody has asked it to stop. -/
def running (d : Dispatcher) : Bool := d.started && !d.stopping

/-- The clock in nanoseconds. -/
def clock (d : Dispatcher) : Int := d.now * 1000000

/-- The time after a delay in milliseconds. It has 64 bits and wraps around: a delay of three centuries
leads to a time that has passed. -/
def dueTime (d : Dispatcher) (delay : Int) : Int64 := .ofInt (d.clock + delay * 1000000)

/-- The number of events that are not handled yet. -/
def pendingEvents (d : Dispatcher) : Nat := d.mailbox.length

/-- What can be wrong with a number of a slot. -/
def noSlotMessage (worker : Nat) : String := s!"no worker slot {worker}"

/-- The line that is logged when the call to stop returns. -/
def stoppedLine (d : Dispatcher) : String :=
  s!"[dispatcher] stopped: accepted={d.totals.accepted} dropped={d.totals.dropped}" ++
    s!" proofs={d.totals.proofs} restarts={d.totals.restarts}"

end Dispatcher
end ProofMiner
