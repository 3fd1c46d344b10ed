/-
# Candidates

One unit of mining work as the node delivers it:

    {"id": 12, "commitment": [1, 2, 3], "nonce_start": 0, "nonce_count": 64,
     "target": 18446744069414584320, "log2_trace_length": 6}

`nonce_start`, `nonce_count` and `log2_trace_length` may be absent.
-/

import ProofMiner.Work.Record

namespace ProofMiner

/-- A unit of mining work: find a nonce in the range whose digest begins below the target. -/
structure Candidate where
  id : UInt64 := 0
  commitment : List Goldilocks := []
  nonceStart : UInt64 := 0
  nonceCount : UInt64 := 1
  target : UInt64 := 0
  log2TraceLength : UInt32 := 6
  deriving DecidableEq, Repr, Inhabited

namespace Candidate

/-- The members in key order. -/
def toJson (c : Candidate) : Json := .object [
  ("commitment", Record.ofElements c.commitment),
  ("id", .unsigned c.id),
  ("log2_trace_length", .unsigned c.log2TraceLength.toUInt64),
  ("nonce_count", .unsigned c.nonceCount),
  ("nonce_start", .unsigned c.nonceStart),
  ("target", .unsigned c.target)]

/-- A candidate from an object. The range of its nonces and the length of the trace may be missing. -/
def ofJson (j : Json) : Except Record.Fault Candidate := do
  if !j.isObject then throw .notAnObject
  let id ← Record.wordMember j "id"
  let commitment ← Record.elements (← Record.member j "commitment")
  let nonceStart ← Record.wordMemberD j "nonce_start" 0
  let nonceCount ← Record.wordMemberD j "nonce_count" 1
  let target ← Record.wordMember j "target"
  let log2TraceLength ← match j.get? "log2_trace_length" with
    | some v => Record.halfWord "log2_trace_length" v
    | none => pure 6
  return { id, commitment, nonceStart, nonceCount, target, log2TraceLength }

/-- Reads the text of a candidate. -/
def parse (cs : List Char) : Except Record.Fault Candidate := do
  ofJson (← Record.parse cs)

/-- The text of a candidate. -/
def render (c : Candidate) : String := c.toJson.render

/-- The warning about a text that is no candidate. -/
def rejection (e : Record.Fault) : String :=
  s!"[candidate] Failed to parse candidate JSON: {e.message}"

end Candidate
end ProofMiner
