/-
# The link to the node

One node is connected at a time. Frames for it wait in a bounded outbox and are written by a writer
of the connection, so that a node that stops reading never holds up those who send: a frame that
finds the outbox full, or nobody connected, is refused.

`step?` says what each step does. A write that fails has left a part of a frame behind, so nothing
is written after it on that connection. What still waits when a connection ends is lost.
-/

import ProofMiner.Wire.Frame

namespace ProofMiner

/-- The state of a link. -/
structure Link where
  /-- The most frames that wait in the outbox. -/
  capacity : Nat
  /-- A node is connected. -/
  connected : Bool := false
  /-- The writer of the last connection has not ended yet. -/
  writing : Bool := false
  /-- The frames that wait, oldest first. -/
  outbox : List MinerFrame := []
  /-- The frame that is being written. -/
  held : Option MinerFrame := none
  /-- A write has failed on this connection. -/
  broken : Bool := false
  /-- The frames that were written completely on this connection, oldest first. -/
  written : List MinerFrame := []
  /-- The frames that found the outbox full. -/
  dropped : Nat := 0
  deriving DecidableEq, Repr, Inhabited

namespace Link

/-- The frames that wait by default. -/
def defaultCapacity : Nat := 64

/-- A link without a node. At least one frame can wait, whatever capacity is asked for. -/
def new (capacity : Nat) : Link := { capacity := max 1 capacity }

/-- A step of the node, of a sender or of the writer. -/
inductive Action where
  | connect
  | send (frame : MinerFrame)
  /-- The writer takes the oldest frame. -/
  | take
  /-- The frame is written. -/
  | complete
  /-- The write fails. -/
  | fail
  /-- The connection ends. -/
  | disconnect
  /-- The writer ends, as the connection has ended. -/
  | finish
  deriving DecidableEq, Repr, Inhabited

/-- A frame that is sent now is accepted. -/
def accepts (l : Link) : Bool := l.connected && l.outbox.length < l.capacity

/-- The link after a frame is sent. -/
def afterSend (l : Link) (frame : MinerFrame) : Link :=
  if l.accepts then { l with outbox := l.outbox ++ [frame] }
  else if l.connected then { l with dropped := l.dropped + 1 }
  else l

/-- The link after a step, if the step is possible. -/
def step? (l : Link) (action : Action) : Option Link :=
  match action with
  | .connect =>
    if l.connected || l.writing then none
    else some { l with
      connected := true, writing := true, outbox := [], held := none, broken := false
      written := [] }
  | .send frame => some (l.afterSend frame)
  | .take =>
    match l.connected, l.held, l.outbox with
    | true, none, frame :: rest =>
      some { l with outbox := rest, held := if l.broken then none else some frame }
    | _, _, _ => none
  | .complete =>
    match l.held with
    | some frame => some { l with held := none, written := l.written ++ [frame] }
    | none => none
  | .fail =>
    match l.held with
    | some _ => some { l with held := none, broken := true }
    | none => none
  | .disconnect => if l.connected then some { l with connected := false, outbox := [] } else none
  | .finish =>
    if !l.connected && l.writing && l.held.isNone then some { l with writing := false } else none

/-- The links that a link of a capacity can become. -/
inductive Reachable (capacity : Nat) : Link → Prop where
  | new : Reachable capacity (new capacity)
  | step {l l' : Link} (action : Action) :
    Reachable capacity l → l.step? action = some l' → Reachable capacity l'

/-! ## With a node that reads or does not -/

/-- The writer takes a frame, and is held up in it. -/
def startWrite (l : Link) : Link := (l.step? .take).getD l

/-- The writer gets through with the frame that it holds. One that is too large fails. -/
def endWrite (l : Link) : Link :=
  let size := (l.held.map fun frame => frame.payload.length).getD 0
  (l.step? (if size ≤ Wire.payloadLimit then .complete else .fail)).getD l

/-- The writer gets through with the frame that it holds and with so many more. -/
def writeFrames : (count : Nat) → Link → Link
  | 0, l => l.endWrite
  | count + 1, l => writeFrames count l.endWrite.startWrite

/-- The writer gets through with all that waits. -/
def flush (l : Link) : Link := writeFrames l.outbox.length l

/-- The connection ends, and its writer with it. -/
def hangUp (l : Link) : Link :=
  match l.step? .disconnect with
  | none => l
  | some l =>
    let l := (l.step? .fail).getD l
    (l.step? .finish).getD l

end Link
end ProofMiner
