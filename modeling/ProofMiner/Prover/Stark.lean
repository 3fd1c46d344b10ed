/-
# The built-in proof of work

For each nonce of a candidate with commitment `c` and trace length `n`:

1. the trace begins with `nonce + 1`, and entry `i` is followed by its seventh power plus
   `c (i mod |c|)` plus `i`;
2. the polynomial with these values on the subgroup of order `n` is evaluated on the coset with
   offset 7 of the subgroup four times as large;
3. each evaluation is multiplied with the one four places on, and the polynomial is squared; both
   results are read as polynomials, and the sum of their values at four points that depend on
   commitment and nonce is the digest;
4. the nonce is accepted if the first element of the digest is below the target.

All field work goes through the registry of accelerated operations.
-/

import ProofMiner.Jet.Registry
import ProofMiner.Prover.Program

namespace ProofMiner
namespace Stark

/-- The size of the coset over the length of the trace. -/
def extensionFactor : Nat := 4

/-- The offset of the extended trace. -/
def cosetOffset : Goldilocks := Goldilocks.ofNat 7

/-- The longest trace, as a binary logarithm. -/
def maxLog2TraceLength : Nat := 20

/-- A computation that calls operations of the registry. -/
abbrev Attempting := ExceptT AttemptFault (StateM Jet.Registry)

/-- The value of a call; a failed call fails the attempt. -/
def call (op : Jet.Op) (args : Jet.Args) : Attempting Jet.Value := do
  let (result, registry) := (← get).invoke op args
  set registry
  match result with
  | .ok value => return value
  | .failed status message => throw (.rejected s!"{op.name} failed ({status.name}): {message}")

/-- A call whose value is a polynomial. -/
def callPolynomial (op : Jet.Op) (args : Jet.Args) : Attempting (Array Goldilocks) := do
  match ← call op args with
  | .bpoly p => return p
  | _ => return #[]

/-- A call whose value is a scalar. -/
def callScalar (op : Jet.Op) (args : Jet.Args) : Attempting Goldilocks := do
  match ← call op args with
  | .belt x => return x
  | _ => return 0

/-- An entry of a commitment, which is repeated as often as needed. -/
def commitmentAt (commitment : Array Goldilocks) (i : Nat) : Goldilocks :=
  commitment.getD (i % commitment.size) 0

/-- The entry after entry `i`. -/
def nextEntry (commitment : Array Goldilocks) (i : Nat) (x : Goldilocks) : Goldilocks :=
  x ^ (7 : Nat) + commitmentAt commitment i + Goldilocks.ofNat i

/-- The first `n` entries of the trace. -/
def trace (commitment : Array Goldilocks) (nonce : UInt64) (n : Nat) : Array Goldilocks :=
  (n.fold (fun i _ (entries, x) => (entries.push x, nextEntry commitment i x))
    (Array.emptyWithCapacity n, Goldilocks.ofWord nonce + 1)).1

/-- The values moved by four places, in a circle. -/
def neighbours (values : Array Goldilocks) : Array Goldilocks :=
  Array.ofFn fun i : Fin values.size => values.getD ((i.val + extensionFactor) % values.size) 0

/-- The point of entry `j` of the digest. -/
def digestPoint (commitment : Array Goldilocks) (nonce : UInt64) (j : Nat) : Goldilocks :=
  commitmentAt commitment j + Goldilocks.ofWord nonce + Goldilocks.ofNat (j + 2)

/-- The digest of a nonce, and the coefficients of its trace polynomial. -/
def digest (c : Candidate) (nonce : UInt64) :
    Attempting (Vector Goldilocks 4 × Array Goldilocks) := do
  if c.commitment.isEmpty then
    throw (.rejected s!"candidate {c.id.toNat} has an empty commitment")
  if maxLog2TraceLength < c.log2TraceLength.toNat then
    throw (.rejected s!"trace length 2^{c.log2TraceLength.toNat} exceeds 2^{maxLog2TraceLength}")
  let n := 1 <<< c.log2TraceLength.toNat
  let commitment := c.commitment.toArray
  let coefficients ← callPolynomial .bpIntercosate {
    bpolys := [trace commitment nonce n], offset := some 1, order := some (UInt64.ofNat n) }
  let extension ← callPolynomial .bpCoseword {
    bpolys := [coefficients], offset := some cosetOffset,
    order := some (UInt64.ofNat (n * extensionFactor)) }
  let mixed ← callPolynomial .bpHadamard { bpolys := [extension, neighbours extension] }
  let squared ← callPolynomial .bpMul { bpolys := [coefficients, coefficients] }
  let entry (j : Nat) : Attempting Goldilocks := do
    let point := digestPoint commitment nonce j
    let a ← callScalar .bpEval { bpolys := [mixed], belts := [point] }
    let b ← callScalar .bpEval { bpolys := [squared], belts := [point] }
    return a + b
  return (#v[← entry 0, ← entry 1, ← entry 2, ← entry 3], coefficients)

/-- The proof for an accepted nonce. -/
def proof (env : WorkerEnv) (payouts : List Payout) (c : Candidate) (nonce : UInt64)
    (digest : Vector Goldilocks 4) (coefficients : Array Goldilocks) : MinedProof where
  candidateId := c.id
  nonce := nonce
  workerId := env.worker
  generation := env.generation
  digest := digest
  body := coefficients.toList
  payouts := payouts

/-- The proof for the first accepted nonce among `count` nonces in a row. -/
def search (env : WorkerEnv) (payouts : List Payout) (c : Candidate) :
    (count : Nat) → (nonce : UInt64) → Attempting (List MinedProof)
  | 0, _ => return []
  | count + 1, nonce => do
    let (d, coefficients) ← digest c nonce
    if d[0].val < c.target then return [proof env payouts c nonce d coefficients]
    else search env payouts c count (nonce + 1)

/-- An attempt at a candidate. -/
def poke (env : WorkerEnv) (payouts : List Payout) (c : Candidate) : Attempting (List MinedProof) :=
  search env payouts c c.nonceCount.toNat c.nonceStart

/-- How the program calls itself. -/
def name : String := "stark-pow"

/-- The program of a worker, which pays out as it is told. -/
def program (env : WorkerEnv) (payouts : List Payout) : Program Jet.Registry where
  name := .ok name
  poke := fun c registry => (poke env payouts c).run registry

/-- The file that the program leaves in its directory. -/
def manifestName : String := "program.manifest"

/-- The operations that an attempt calls. -/
def operations : List Jet.Op := [.bpIntercosate, .bpCoseword, .bpHadamard, .bpMul, .bpEval]

/-- What the program leaves in its worker's directory. -/
def manifest (env : WorkerEnv) : String :=
  s!"program {name}\nworker {env.worker.toNat} generation {env.generation.toNat}\n" ++
    s!"threads {env.parallelism}\n" ++
    String.join (operations.map fun op => s!"jet {op.name}\n")

/-- Builds the program in the directory with the given name. -/
def loadIn (directory : String) (payouts : List Payout) : Loader Jet.Registry := fun env s =>
  match s.write? directory manifestName (manifest env) with
  | some s => (.program (program env payouts), s)
  | none =>
    let path := Scratch.child (Scratch.child s.root directory) manifestName
    (.refused s!"cannot write {path}", s)

/-- Builds the program in its worker's directory. -/
def load (payouts : List Payout) : Loader Jet.Registry := fun env s =>
  loadIn env.directory payouts env s

end Stark
end ProofMiner
