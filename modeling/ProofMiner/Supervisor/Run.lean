/-
# Running a dispatcher

One schedule of the steps of a dispatcher, with real programs: `settle` takes steps until nobody
can go on. Deliveries and the control loop come first, then the workers by number, then a call to
stop; time passes only while nothing else is left to do but a delayed restart.
-/

import ProofMiner.Supervisor.Step

namespace ProofMiner

/-- What a dispatcher runs with. -/
structure Outside (σ : Type) where
  loader : Option (Loader σ)
  threads : Int := 1
  /-- How the receiver of a proof takes it. -/
  receive : MinedProof → Except Raised Unit := fun _ => .ok ()
  /-- Attempts come to an end. Otherwise they go on and on. -/
  attemptsEnd : Bool := true

/-- A dispatcher with the contexts of its workers and what their programs share. -/
structure Supervisor (σ : Type) where
  dispatcher : Dispatcher
  contexts : List (Option (Context σ))
  shared : σ

namespace Supervisor

variable {σ : Type}

/-- A supervisor that is not started. -/
def new (c : Dispatcher.Config) (shared : σ) : Supervisor σ :=
  let dispatcher := Dispatcher.new c
  { dispatcher, contexts := dispatcher.slots.map fun _ => none, shared }

/-- A step that needs nothing from the outside. -/
def act (s : Supervisor σ) (action : Dispatcher.Action) : Option (Supervisor σ) :=
  (s.dispatcher.step? action).map fun dispatcher => { s with dispatcher }

/-- The context that a worker's program is loaded into. The files of a program are its own
affair. -/
def loadContext (o : Outside σ) (s : Supervisor σ) (worker : Nat) (slot : Slot) :
    Except ContextFault (Context σ) :=
  let env := { Dispatcher.owner worker slot with parallelism := (max 1 o.threads).toNat }
  match o.loader with
  | none => .error .noLoader
  | some load => Context.ofLoaded env (load env s.dispatcher.scratch).1

/-- A worker loads its program. -/
def load (o : Outside σ) (s : Supervisor σ) (worker : Nat) (slot : Slot) :
    Option (Supervisor σ) :=
  match s.loadContext o worker slot with
  | .ok c => { s with contexts := s.contexts.set worker (some c) }.act (.load worker (.ok ()))
  | .error e => { s with contexts := s.contexts.set worker none }.act (.load worker (.error e))

/-- A worker carries its attempt through. -/
def attempt (s : Supervisor σ) (worker : Nat) (candidate : Candidate) : Option (Supervisor σ) := do
  let c ← (← s.contexts[worker]?)
  let (result, c, shared) := c.attempt candidate s.shared
  { s with contexts := s.contexts.set worker (some c), shared }.act (.finish worker result)

/-- The next step of a worker. -/
def workerStep (o : Outside σ) (s : Supervisor σ) (worker : Nat) : Option (Supervisor σ) := do
  let slot ← s.dispatcher.slots[worker]?
  match slot.phase with
  | .absent => none
  | .preparing => s.act (.prepare worker)
  | .loading => s.load o worker slot
  | .idle => s.act (.take worker)
  | .attempting candidate => if o.attemptsEnd then s.attempt worker candidate else none
  | .emitting [] => none
  | .emitting (p :: _) => s.act (.emit worker (o.receive p))
  | .leaving _ _ => s.act (.exit worker)

/-- Time passes until the next delayed restart is due, in whole milliseconds. -/
def waitForRestart (s : Supervisor σ) : Option (Supervisor σ) :=
  match s.dispatcher.pending.map fun p => p.due.toInt with
  | [] => none
  | due :: others =>
    let nanoseconds := others.foldl min due - s.dispatcher.clock
    s.act (.wait ((nanoseconds + 999999) / 1000000).toNat)

/-- The next step of the schedule. -/
def next (o : Outside σ) (s : Supervisor σ) : Option (Supervisor σ) :=
  let first := fun actions => actions.findSome? s.act
  first [.arrive 0, .spawn, .handle, .decide, .respawn]
    <|> (List.range s.dispatcher.slots.length).findSome? (s.workerStep o)
    <|> first [.postStop, .cancelWorkers, .closeQueue, .join, .collect]
    <|> if s.dispatcher.running && s.dispatcher.mailbox.isEmpty then s.waitForRestart else none

/-- At most so many steps of the schedule. -/
def advance (o : Outside σ) : (fuel : Nat) → Supervisor σ → Supervisor σ
  | 0, s => s
  | fuel + 1, s =>
    match s.next o with
    | some s => advance o fuel s
    | none => s

/-- The steps after which a schedule is given up; workers that fail and are restarted for ever
would reach no end. -/
def stepLimit : Nat := 200000

/-- Takes steps until nobody can go on. -/
def settle (o : Outside σ) (s : Supervisor σ) : Supervisor σ := s.advance o stepLimit

/-- A call, and what it leads to. -/
def call (o : Outside σ) (s : Supervisor σ) (action : Dispatcher.Action) : Supervisor σ :=
  ((s.act action).getD s).settle o

/-- Calls for several candidates, one after the other. -/
def deliver (o : Outside σ) (s : Supervisor σ) (candidates : List Candidate) : Supervisor σ :=
  candidates.foldl (fun s c => s.call o (.deliver c)) s

end Supervisor
end ProofMiner
