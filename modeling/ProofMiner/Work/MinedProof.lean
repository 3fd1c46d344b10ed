/-
# Mined proofs

What a successful attempt sends back to the node: the accepted nonce with its digest, the trace
polynomial and the payout splits.
-/

import ProofMiner.Work.Record

namespace ProofMiner

/-- The effect of a successful attempt. -/
structure MinedProof where
  candidateId : UInt64 := 0
  nonce : UInt64 := 0
  workerId : UInt32 := 0
  generation : UInt64 := 0
  digest : Vector Goldilocks 4 := Vector.replicate 4 0
  /-- The coefficients of the trace polynomial. -/
  body : List Goldilocks := []
  payouts : List Payout := []
  deriving DecidableEq, Repr, Inhabited

namespace MinedProof

/-- The members in key order. -/
def toJson (p : MinedProof) : Json := .object [
  ("candidate_id", .unsigned p.candidateId),
  ("digest", Record.ofElements p.digest.toList),
  ("generation", .unsigned p.generation),
  ("mining_keys", .array (p.payouts.map fun k => .string k.render)),
  ("nonce", .unsigned p.nonce),
  ("proof", Record.ofElements p.body),
  ("worker_id", .unsigned p.workerId.toUInt64)]

/-- The values that stand for a list of payout texts: the items of an array, the values of an
object in key order, nothing for null, and any other value for itself. -/
def payoutValues : Json → List Json
  | .array items => items
  | .object members => members.map (·.2)
  | .null => []
  | j => [j]

/-- A split from a text. -/
def payout (j : Json) : Except Record.Fault Payout :=
  match j with
  | .string s => (Payout.parse s).mapError .payout
  | _ => .error (.json .wrongType)

/-- A digest from a list of four. -/
def digestOfList? (xs : List Goldilocks) : Option (Vector Goldilocks 4) :=
  if h : xs.toArray.size = 4 then some ⟨xs.toArray, h⟩ else none

/-- A proof from an object. Members are read in a fixed order, so that the first fault is reported. -/
def ofJson (j : Json) : Except Record.Fault MinedProof := do
  let candidateId ← Record.wordMember j "candidate_id"
  let nonce ← Record.wordMember j "nonce"
  let workerId ← Record.halfWord "worker_id" (← Record.member j "worker_id")
  let generation ← Record.wordMember j "generation"
  let some digest := digestOfList? (← Record.elements (← Record.member j "digest"))
    | throw .digestLength
  let body ← Record.elements (← Record.member j "proof")
  let payouts ← match j.get? "mining_keys" with
    | some v => (payoutValues v).mapM payout
    | none => pure []
  return { candidateId, nonce, workerId, generation, digest, body, payouts }

/-- Reads the text of a proof. -/
def parse (cs : List Char) : Except Record.Fault MinedProof := do
  ofJson (← Record.parse cs)

/-- The text of a proof. -/
def render (p : MinedProof) : String := p.toJson.render

/-- The warning about a text that is no proof. -/
def rejection (e : Record.Fault) : String :=
  s!"[candidate] Failed to parse proof JSON: {e.message}"

end MinedProof
end ProofMiner
