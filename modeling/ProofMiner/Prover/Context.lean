/-
# Proving contexts

The state of one worker generation: its private directory and the program loaded for it. Making
one is the expensive step and happens once per generation.
-/

import ProofMiner.Prover.Program

namespace ProofMiner

/-- Why there is no context. -/
inductive ContextFault where
  /-- The directory with this path cannot be made. -/
  | directory (path : String)
  /-- The directory with this path is still there from before. -/
  | occupied (path : String)
  | noLoader
  | noProgram
  | refused (message : String)
  | loadFailed (message : String)
  /-- An exception that is not turned into a failure of the construction. -/
  | escaped (exception : Raised)
  deriving DecidableEq, Repr, Inhabited

namespace ContextFault

/-- What is said of a fault. A directory that is in the way has no reason of the system behind it. -/
def message : ContextFault → String
  | directory path => s!"cannot create scratch directory {path}: Not a directory"
  | occupied path => s!"cannot create scratch directory {path}"
  | noLoader => "no program loader configured"
  | noProgram => "program loader returned no program"
  | refused message => message
  | loadFailed message => s!"program load failed: {message}"
  | escaped exception => exception.message

/-- The failure is one of the construction itself. -/
def isConstruction : ContextFault → Bool
  | escaped _ => false
  | _ => true

/-- Why a directory of this name was not made. -/
def ofScratch (s : Scratch) (name : String) : ContextFault :=
  let path := Scratch.child s.root name
  if s.blocked then directory path else occupied path

/-- A directory that cannot be made is a failure of the construction. -/
theorem isConstruction_ofScratch (s : Scratch) (name : String) :
    (ofScratch s name).isConstruction = true := by
  rw [ofScratch]
  split <;> rfl

end ContextFault

/-- A worker generation that can make attempts. -/
structure Context (σ : Type) extends env : WorkerEnv where
  program : Program σ
  programName : String
  attempts : Nat := 0

namespace Context

variable {σ : Type}

/-- Asks a loaded program for its name. -/
def ofLoaded (env : WorkerEnv) (loaded : Loaded σ) : Except ContextFault (Context σ) :=
  match loaded with
  | .program program => match program.name with
    | .ok programName => .ok { env, program, programName }
    | .error e => .error (.escaped e)
  | .nothing => .error .noProgram
  | .refused message => .error (.refused message)
  | .raised (.error message) => .error (.loadFailed message)
  | .raised .unknown => .error (.escaped .unknown)

/-- Makes the directory and loads the program. A failure of the construction removes the directory
again, if the system does that. -/
def make (loader : Option (Loader σ)) (worker : UInt32) (generation : UInt64) (parallelism : Int)
    (s : Scratch) : Except ContextFault (Context σ) × Scratch :=
  let env : WorkerEnv := { worker, generation, parallelism := (max 1 parallelism).toNat }
  match s.create? env.directory with
  | none => (.error (.ofScratch s env.directory), env.dispose s)
  | some s =>
    match loader with
    | none => (.error .noLoader, env.dispose s)
    | some load =>
      let (loaded, s) := load env s
      match ofLoaded env loaded with
      | .ok c => (.ok c, s)
      | .error e => (.error e, if e.isConstruction then env.dispose s else s)

/-- One attempt. -/
def attempt (c : Context σ) (candidate : Candidate) (shared : σ) :
    AttemptResult × Context σ × σ :=
  let (result, shared) := c.program.poke candidate shared
  (result, { c with attempts := c.attempts + 1 }, shared)

end Context
end ProofMiner
