/-
# The miner at work

One node after the other is served: its candidates are mined by the workers, and the proofs go back
over the link. Bytes come in portions, and each is worked off before the next one is looked at.
-/

import ProofMiner.Miner.CommandLine
import ProofMiner.Prover.Stark
import ProofMiner.Supervisor.Run

namespace ProofMiner
namespace Miner

/-- A miner at work. -/
structure Session where
  server : Server
  supervisor : Supervisor Jet.Registry
  outside : Outside Jet.Registry
  /-- The proofs that were passed to the link so far. -/
  sent : Nat := 0
  /-- What was printed so far. -/
  log : List String

/-- What the dispatcher of a miner is made from. -/
def dispatcherConfig (s : Settings) : Dispatcher.Config where
  threads := s.threads.toInt
  queueCapacity := s.queueCapacity.toNat
  policy := s.restart
  scratch := { root := s.scratchDir }

/-- What is printed once the workers are started. -/
def readyLine (c : Dispatcher.Config) : String :=
  s!"Miner ready ({c.workerCount} workers x {c.threadsPerWorker} threads)." ++
    " Press Ctrl+C to stop."

namespace Session

/-- Starts a miner that waits for its node. -/
def start (l : Launch) : Session :=
  let config := dispatcherConfig l.settings
  let outside : Outside Jet.Registry := {
    loader := some (Stark.load l.settings.payouts), threads := config.threadsPerWorker }
  let supervisor := (Supervisor.new config l.registry).call outside (.enable l.settings.mine)
  { server := { Server.new Link.defaultCapacity with running := true }
    supervisor := supervisor.call outside .start
    outside
    log := l.log ++ ["", readyLine config, ""] }

/-- Sends the proofs that were mined since the last time. -/
def sendProofs (s : Session) : Session :=
  let emitted := s.supervisor.dispatcher.emitted
  let server := (emitted.drop s.sent).foldl
    (fun server p => (server.send (.ofProof p)).2) s.server
  { s with server, sent := emitted.length }

/-- Does what a frame asks for. -/
def obey (s : Session) (frame : NodeFrame) : Session :=
  match Order.ofFrame? frame with
  | some order =>
    { s with supervisor := s.supervisor.call s.outside order.action }.sendProofs
  | none => s

/-- A node connects. -/
def connect (s : Session) : Session := { s with server := s.server.connect }

/-- Notes the end of a connection. -/
def noteEnd (s : Session) (before : Bool) : Session :=
  if before && !s.server.link.connected then
    { s with log := s.log ++ [s.server.disconnectLine] }
  else s

/-- Bytes of the node arrive. Their frames are worked off while the connection lasts, also if its
end follows them. -/
def receive (s : Session) (bytes : Bytes) : Session :=
  let before := s.server.link.connected
  let (frames, after) := s.server.receive bytes
  let s := frames.foldl obey s
  let server := { after with link := s.server.link }
  let s := { s with server := if after.link.connected then server else server.hangUp }
  s.noteEnd before

/-- Portions of bytes of the node arrive, one after the other. -/
def serve (s : Session) (portions : List Bytes) : Session := portions.foldl receive s

/-- The node goes away. -/
def disconnect (s : Session) : Session :=
  let before := s.server.link.connected
  { s with server := s.server.hangUp }.noteEnd before

/-- The frames that the node of the last connection has got. -/
def replies (s : Session) : List MinerFrame := s.server.link.written

/-- Ends the miner: what was printed up to its last line. -/
def stop (s : Session) : List String :=
  let before := s.server.link.connected
  let s := { s with server := s.server.stop }.noteEnd before
  let supervisor := s.supervisor.call s.outside .stop
  s.log ++ [supervisor.dispatcher.stoppedLine] ++ supervisor.shared.statsLines ++
    ["Miner stopped."]

end Session
end Miner
end ProofMiner
