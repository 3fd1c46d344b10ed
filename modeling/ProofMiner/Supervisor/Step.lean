/-
# The steps of the dispatcher

Callers, control loop and workers run side by side. `step?` says what each of their steps does to
the shared state, and `none` that a step is not possible; every run of the dispatcher is a list of
such steps. An action that depends on the outside, such as the end of an attempt, carries what
came out.
-/

import ProofMiner.Supervisor.State

namespace ProofMiner
namespace Dispatcher

/-- A step of somebody. Workers and slots go by their number. -/
inductive Action where
  /-- A call to start begins. -/
  | start
  /-- The call to start creates the next worker. -/
  | spawn
  /-- A call to stop begins. -/
  | stop
  /-- The call to stop tells the control loop. -/
  | postStop
  /-- The call to stop asks every worker to end. -/
  | cancelWorkers
  /-- The call to stop closes the queue. -/
  | closeQueue
  /-- The call to stop has seen the next worker end, or has seen all. -/
  | join
  /-- A call to deliver begins. -/
  | deliver (candidate : Candidate)
  /-- One of the deliveries under way reaches the mailbox. -/
  | arrive (index : Nat)
  | enable (on : Bool)
  | kill (worker : Nat)
  /-- The control loop handles the next event. -/
  | handle
  /-- The control loop looks for workers whose delay has passed. -/
  | collect
  /-- The control loop decides on the next of these. -/
  | decide
  /-- The control loop starts a new generation. -/
  | respawn
  /-- A worker makes its directory. -/
  | prepare (worker : Nat)
  /-- A worker's program is loaded, or there is none. -/
  | load (worker : Nat) (result : Except ContextFault Unit)
  /-- A worker looks at the queue. -/
  | take (worker : Nat)
  /-- An attempt ends. -/
  | finish (worker : Nat) (result : AttemptResult)
  /-- A worker passes on a proof. -/
  | emit (worker : Nat) (result : Except Raised Unit)
  /-- A worker reports its end, which is its last step. -/
  | exit (worker : Nat)
  /-- Time passes. -/
  | wait (milliseconds : Nat)
  deriving Repr, Inhabited

/-! ## Parts of steps -/

/-- Changes one slot. -/
def modifySlot (d : Dispatcher) (worker : Nat) (f : Slot → Slot) : Dispatcher :=
  { d with slots := d.slots.modify worker f }

/-- Puts an event into the mailbox. After the end of the control loop it is lost. -/
def post (d : Dispatcher) (event : Event) : Dispatcher :=
  if d.control = .ended then d else { d with mailbox := d.mailbox ++ [event] }

/-- Creates a worker of the slot's generation. -/
def spawnWorker (d : Dispatcher) (worker : Nat) : Dispatcher :=
  d.modifySlot worker fun s =>
    { s with status := .starting, completedAttempt := false, cancelled := false,
             phase := .preparing, workerGeneration := s.generation }

/-- Creates a worker of the next generation. -/
def restartWorker (d : Dispatcher) (worker : Nat) : Dispatcher :=
  let d := d.modifySlot worker fun s =>
    { s with generation := s.generation + 1, restarts := s.restarts + 1 }
  { d with totals.restarts := d.totals.restarts + 1 }.spawnWorker worker

/-- Puts a delivered candidate into the queue, if mining is turned on and there is room. -/
def handleCandidate (d : Dispatcher) (c : Candidate) : Dispatcher :=
  if !d.enabled then { d with totals.ignored := d.totals.ignored + 1 }
  else match d.queue.push c with
    | (.accepted, queue) => { d with queue, totals.accepted := d.totals.accepted + 1 }
    | (.dropped, _) => { d with totals.dropped := d.totals.dropped + 1 }
    | (.closed, _) => d

/-- Decides what follows the end of a worker: nothing, a restart at once, or one after a delay. -/
def handleExit (d : Dispatcher) (worker : Nat) (generation : UInt64) (reason : ExitReason)
    (error : String) : Dispatcher :=
  match d.slots[worker]? with
  | none => d
  | some s =>
    if s.generation ≠ generation then d
    else
      let s := s.ended reason error
      let d := { d with slots := d.slots.set worker s }
      if d.stopping || !d.policy.allows s.restarts then d
      else
        let delay := (d.policy.backoff s.failures).toInt
        if 0 < delay then { d with pending := d.pending ++ [⟨worker, d.dueTime delay⟩] }
        else { d with control := .respawning worker [] }

/-- Takes the next event from the mailbox. -/
def handleEvent (d : Dispatcher) (event : Event) (rest : List Event) : Dispatcher :=
  match event with
  | .stop => { d with mailbox := [], control := .ended }
  | .candidate c => { d with mailbox := rest }.handleCandidate c
  | .exited worker generation reason error =>
    { d with mailbox := rest }.handleExit worker generation reason error

/-- What the control loop does when `workers` are left to be looked at. -/
def afterRestart : List Nat → Control
  | [] => .waiting
  | workers => .restarting workers

/-- A slot's worker, as its program knows it. -/
def owner (worker : Nat) (s : Slot) : WorkerEnv :=
  { worker := .ofNat worker, generation := s.workerGeneration }

/-- The directory of a slot's worker. -/
def directory (worker : Nat) (s : Slot) : String := (owner worker s).directory

/-- A worker gives up its directory and is about to report its end. -/
def leave (d : Dispatcher) (worker : Nat) (s : Slot) (reason : ExitReason) (error : String) :
    Dispatcher :=
  { d with scratch := (owner worker s).dispose d.scratch }.modifySlot worker
    fun s => { s with phase := .leaving reason error }

/-- A worker has no context. A failure of its construction takes the directory away. -/
def failConstruction (d : Dispatcher) (worker : Nat) (s : Slot) (e : ContextFault) : Dispatcher :=
  if e.isConstruction then
    { d with totals.constructionFailures := d.totals.constructionFailures + 1 }.leave
      worker s .constructionFailed e.message
  else d.modifySlot worker fun s => { s with phase := .leaving .crashed e.message }

/-- An attempt ends. One that ends its worker is counted by the dispatcher alone. -/
def finishAttempt (d : Dispatcher) (worker : Nat) (s : Slot) (result : AttemptResult) :
    Dispatcher :=
  match result with
  | .ok proofs =>
    d.modifySlot worker fun s =>
      { s with attempts := s.attempts + 1, proofs := s.proofs + proofs.length,
               completedAttempt := true, phase := .emit proofs }
  | .error e =>
    if e.endsWorker then d.leave worker s .crashed e.message
    else
      { d with totals.failedAttempts := d.totals.failedAttempts + 1 }.modifySlot worker fun s =>
        { s with attempts := s.attempts + 1, failedAttempts := s.failedAttempts + 1,
                 completedAttempt := true, phase := .idle }

/-- A worker passes on a proof. What the receiver raises changes nothing, unless it is of an
unknown sort. -/
def emitProof (d : Dispatcher) (worker : Nat) (s : Slot) (p : MinedProof) (rest : List MinedProof)
    (result : Except Raised Unit) : Dispatcher :=
  let d := { d with totals.proofs := d.totals.proofs + 1, emitted := d.emitted ++ [p] }
  match result with
  | .error .unknown => d.leave worker s .crashed Raised.unknown.message
  | _ => d.modifySlot worker fun s => { s with phase := .emit rest }

/-- The call to stop goes on to the next worker, or returns. -/
def joinWorker (d : Dispatcher) (worker : Nat) : Option Dispatcher :=
  match d.slots[worker]? with
  | none => some { d with stopCall := .returned }
  | some s =>
    if s.phase.isLive then none
    else some { d.modifySlot worker (fun s => { s with status := .terminated }) with
      stopCall := .joining (worker + 1) }

/-! ## Steps -/

/-- The state after a step, if the step is possible. -/
def step? (d : Dispatcher) (action : Action) : Option Dispatcher :=
  match action with
  | .start => some (if d.started then d else { d with started := true, control := .waiting })
  | .spawn =>
    if d.started ∧ d.spawned < d.slots.length then
      some { d.spawnWorker d.spawned with spawned := d.spawned + 1 }
    else none
  | .stop =>
    if !d.started || d.stopping then some d
    else if d.spawned < d.slots.length then none
    else some { d with stopCall := .requested }
  | .postStop =>
    if d.stopCall = .requested then some { d.post .stop with stopCall := .posted } else none
  | .cancelWorkers =>
    if d.stopCall = .posted ∧ d.control = .ended then
      some { d with
        slots := d.slots.map (fun s => { s with cancelled := true }), stopCall := .cancelled }
    else none
  | .closeQueue =>
    if d.stopCall = .cancelled then
      some { d with queue := d.queue.close, stopCall := .joining 0 }
    else none
  | .join =>
    match d.stopCall with
    | .joining worker => d.joinWorker worker
    | _ => none
  | .deliver c => some (if d.stopping then d else { d with delivering := d.delivering ++ [c] })
  | .arrive i =>
    match d.delivering[i]? with
    | some c => some ({ d with delivering := d.delivering.eraseIdx i }.post (.candidate c))
    | none => none
  | .enable on => some { d with enabled := on }
  | .kill worker =>
    some (d.modifySlot worker fun s =>
      if s.status = .terminated then s else { s with cancelled := true })
  | .handle =>
    match d.control, d.mailbox with
    | .waiting, event :: rest => some (d.handleEvent event rest)
    | _, _ => none
  | .collect =>
    if d.control = .waiting ∧ d.mailbox = [] then
      let (due, later) := d.pending.partition fun p => p.due.toInt ≤ d.clock
      if due.isEmpty then none
      else some { d with pending := later, control := .restarting (due.map (·.worker)) }
    else none
  | .decide =>
    match d.control with
    | .restarting (worker :: rest) =>
      some { d with
        control := if d.stopping then afterRestart rest else .respawning worker rest }
    | _ => none
  | .respawn =>
    match d.control with
    | .respawning worker rest =>
      some { d.restartWorker worker with control := afterRestart rest }
    | _ => none
  | .prepare worker => do
    let s ← d.slots[worker]?
    if s.phase = .preparing then
      match d.scratch.create? (directory worker s) with
      | some scratch =>
        return { d with scratch }.modifySlot worker fun s => { s with phase := .loading }
      | none =>
        return d.failConstruction worker s (.ofScratch d.scratch (directory worker s))
    else none
  | .load worker result => do
    let s ← d.slots[worker]?
    if s.phase = .loading then
      match result with
      | .ok () =>
        return d.modifySlot worker fun s => { s with status := .running, phase := .idle }
      | .error e => return d.failConstruction worker s e
    else none
  | .take worker => do
    let s ← d.slots[worker]?
    if s.phase = .idle then
      match d.queue.pop s.cancelled with
      | (.item c, queue) =>
        return { d with queue, totals.attempts := d.totals.attempts + 1 }.modifySlot worker
          fun s => { s with phase := .attempting c }
      | (.ended, _) =>
        return d.leave worker s (if d.stopping then .stopped else .killed) ""
      | (.wait, _) => none
    else none
  | .finish worker result => do
    let s ← d.slots[worker]?
    match s.phase with
    | .attempting _ => return d.finishAttempt worker s result
    | _ => none
  | .emit worker result => do
    let s ← d.slots[worker]?
    match s.phase with
    | .emitting (p :: rest) => return d.emitProof worker s p rest result
    | _ => none
  | .exit worker => do
    let s ← d.slots[worker]?
    match s.phase with
    | .leaving reason error =>
      return (d.modifySlot worker fun s => { s with phase := .absent }).post
        (.exited worker s.workerGeneration reason error)
    | _ => none
  | .wait ms => some { d with now := d.now + ms }

/-- A kill is granted if there is such a slot and it is not terminated. -/
def grantsKill (d : Dispatcher) (worker : Nat) : Bool :=
  match d.slots[worker]? with
  | some s => s.status ≠ .terminated
  | none => false

/-- The states that a dispatcher can come to. -/
inductive Reachable (c : Config) : Dispatcher → Prop where
  | new : Reachable c (new c)
  | step {d d' : Dispatcher} (action : Action) :
    Reachable c d → d.step? action = some d' → Reachable c d'

/-- The state after a list of steps, if all of them are possible. -/
def run? (d : Dispatcher) : List Action → Option Dispatcher
  | [] => some d
  | action :: rest => (d.step? action).bind fun d => d.run? rest

end Dispatcher
end ProofMiner
