/-
# What a node asks for

A frame from the node delivers a candidate or turns mining on or off. A frame whose payload cannot
be read asks for nothing, and is no reason to end the connection.
-/

import ProofMiner.Supervisor.Step
import ProofMiner.Wire.Frame

namespace ProofMiner

/-- A call on the dispatcher. -/
inductive Order where
  | deliver (candidate : Candidate)
  | enable (on : Bool)
  deriving DecidableEq, Repr, Inhabited

namespace Order

/-- Blanks around the payload of an enable frame. -/
def isBlank (b : UInt8) : Bool := b == 0x20 || b == 0x09 || b == 0x0d || b == 0x0a

/-- Without the blanks at both ends. -/
def trim (payload : Bytes) : Bytes :=
  ((payload.dropWhile isBlank).reverse.dropWhile isBlank).reverse

/-- The value of an enable payload: `true` or `false` among blanks. -/
def enableValue? (payload : Bytes) : Option Bool :=
  let word := trim payload
  if word = bytesOfText "true" then some true
  else if word = bytesOfText "false" then some false
  else none

/-- What a frame asks for. -/
def ofFrame? (f : NodeFrame) : Option Order :=
  match f.kind with
  | .candidate => (Candidate.parse (charsOfPayload f.payload)).toOption.map deliver
  | .enable => (enableValue? f.payload).map enable

/-- The step of the dispatcher that a call begins with. -/
def action : Order → Dispatcher.Action
  | deliver c => .deliver c
  | enable on => .enable on

end Order
end ProofMiner
