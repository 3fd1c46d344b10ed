/-
# The server

Waits for a node, reads its frames and hands them on in order. A connection ends with the stream of
the node, or with the first frame that is malformed; what was read of it asks for nothing.
-/

import ProofMiner.Node.Link
import ProofMiner.Node.Order

namespace ProofMiner

namespace Wire

/-- The frames at the front of a stream, why there is no further one, and what is left from there
on. -/
def nodeFrames (stream : Bytes) : List NodeFrame × ReadFault × Bytes :=
  match readNodeFrame.run stream with
  | (.ok frame, rest) =>
    if rest.length < stream.length then
      let (frames, fault, rest) := nodeFrames rest
      (frame :: frames, fault, rest)
    else ([frame], .ended, rest)
  | (.error fault, _) => ([], fault, stream)
termination_by stream.length

end Wire

/-- A text is an address: four numbers below 256 without leading zeros, between points. -/
def isAddress (text : List Char) : Bool :=
  let parts := Text.pieces '.' text
  let isPart (ds : List Char) : Bool :=
    !ds.isEmpty && ds.all Char.isDigit && (ds.length == 1 || ds.head? != some '0') &&
      Decimal.value ds < 256
  parts.length == 4 && parts.all isPart

/-- A server with its link. -/
structure Server where
  link : Link
  /-- It waits for nodes. -/
  running : Bool := false
  /-- What the node has sent and is not yet a whole frame. -/
  unread : Bytes := []
  /-- The frames of this connection so far. -/
  frames : Nat := 0
  deriving DecidableEq, Repr, Inhabited

namespace Server

/-- A server that nobody is connected to. -/
def new (outbox : Nat) : Server := { link := .new outbox }

/-- A node connects. -/
def connect (s : Server) : Server :=
  match s.link.step? .connect with
  | some link => { s with link, unread := [], frames := 0 }
  | none => s

/-- The connection ends. -/
def hangUp (s : Server) : Server := { s with link := s.link.hangUp, unread := [] }

/-- Bytes of the node arrive: the frames that they complete, and the server after them. -/
def receive (s : Server) (bytes : Bytes) : List NodeFrame × Server :=
  if !s.link.connected then ([], s)
  else
    let (frames, fault, rest) := Wire.nodeFrames (s.unread ++ bytes)
    let s := { s with unread := rest, frames := s.frames + frames.length }
    (frames, if fault = .ended then s else s.hangUp)

/-- What the frames of a whole connection ask for, in order. -/
def orders (stream : Bytes) : List Order := (Wire.nodeFrames stream).1.filterMap Order.ofFrame?

/-- Sends a frame to a node that reads what it gets. -/
def send (s : Server) (frame : MinerFrame) : Bool × Server :=
  (s.link.accepts, { s with link := (s.link.afterSend frame).flush })

/-- Sends a frame to a node that reads nothing. -/
def sendStalled (s : Server) (frame : MinerFrame) : Bool × Server :=
  (s.link.accepts, { s with link := (s.link.afterSend frame).startWrite })

/-- Ends the connection and waits for no further one. -/
def stop (s : Server) : Server := { s.hangUp with running := false }

/-- The line that is logged at the end of a connection. -/
def disconnectLine (s : Server) : String :=
  s!"[server] Node disconnected after {s.frames} frames"

/-- What is logged if the host is no address. -/
def invalidAddressLine (host : String) : String := s!"[server] Invalid address: {host}"

end Server
end ProofMiner
