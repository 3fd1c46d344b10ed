/-
# Proving programs

A proving program makes one attempt at a candidate at a time. The programs of all workers share a
state `σ`, such as the registry of accelerated operations.
-/

import ProofMiner.Prover.Scratch
import ProofMiner.Work.Candidate
import ProofMiner.Work.MinedProof

namespace ProofMiner

/-- An exception of the outside: with a wording, or of an unknown sort. -/
inductive Raised where
  | error (message : String)
  | unknown
  deriving DecidableEq, Repr, Inhabited

/-- What is said of an exception. -/
def Raised.message : Raised → String
  | error message => message
  | unknown => "unknown exception"

/-- How an attempt fails. -/
inductive AttemptFault where
  /-- The candidate cannot be used, or an operation refused its arguments. -/
  | rejected (message : String)
  /-- The program raised another error. -/
  | raised (message : String)
  /-- The worker cannot go on after this attempt. -/
  | fatal (message : String)
  /-- An exception of an unknown sort, after which the worker cannot go on either. -/
  | unknown
  deriving DecidableEq, Repr, Inhabited

namespace AttemptFault

/-- What is said of a failed attempt. -/
def message : AttemptFault → String
  | rejected message | raised message | fatal message => message
  | unknown => Raised.unknown.message

/-- The failure ends the worker. -/
def endsWorker : AttemptFault → Bool
  | rejected _ | raised _ => false
  | fatal _ | unknown => true

end AttemptFault

/-- What an attempt yields. -/
abbrev AttemptResult := Except AttemptFault (List MinedProof)

/-- A loaded program. Its name is asked for once. -/
structure Program (σ : Type) where
  name : Except Raised String
  poke : Candidate → σ → AttemptResult × σ

/-- What a program is loaded for. -/
structure WorkerEnv where
  worker : UInt32 := 0
  generation : UInt64 := 0
  /-- The threads of the worker. -/
  parallelism : Nat := 1
  deriving DecidableEq, Repr, Inhabited

/-- The name of the worker's directory. -/
def WorkerEnv.directory (env : WorkerEnv) : String :=
  Scratch.directoryName env.worker env.generation

/-- Removes the worker's directory, if the system does that. -/
def WorkerEnv.dispose (env : WorkerEnv) (s : Scratch) : Scratch := s.remove env.directory

/-- How the loading of a program ends. -/
inductive Loaded (σ : Type) where
  | program (program : Program σ)
  | nothing
  /-- The program refuses to be built. -/
  | refused (message : String)
  | raised (exception : Raised)

/-- Loads a program for a worker, which may leave files in the worker's directory. -/
abbrev Loader (σ : Type) := WorkerEnv → Scratch → Loaded σ × Scratch

end ProofMiner
