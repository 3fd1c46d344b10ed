/-
# Frames between node and miner

    node to miner                     miner to node
    4 bytes  0x5a4b5043               4 bytes  0x5a4b5052
    4 bytes  version, 1               4 bytes  kind: 0 mined
    4 bytes  kind: 0 candidate,       8 bytes  id of the candidate
                   1 enable
    4 bytes  length of the payload    4 bytes  length of the payload
             payload                           payload

A payload has at most 16 MiB. The payload of a candidate frame and of a mined frame is JSON, that
of an enable frame is `true` or `false`.
-/

import ProofMiner.Wire.Bytes
import ProofMiner.Work.Candidate
import ProofMiner.Work.MinedProof

namespace ProofMiner

/-- The bytes of a text. -/
def bytesOfText (text : String) : Bytes := text.toUTF8.toList

/-- The characters of a text in bytes; see `Json.charsOfBytes`. -/
def charsOfPayload (payload : Bytes) : List Char := Json.charsOfBytes ⟨payload.toArray⟩

/-- What a frame from the node asks for. -/
inductive MessageKind where
  | candidate
  | enable
  deriving DecidableEq, Repr, Inhabited

namespace MessageKind

/-- The number that stands for a kind. -/
def code : MessageKind → UInt32
  | candidate => 0
  | enable => 1

/-- The kind of a number, if there is one. -/
def ofCode? (code : UInt32) : Option MessageKind :=
  if code = 0 then some candidate else if code = 1 then some enable else none

/-- Kinds are told apart by their numbers. -/
theorem ofCode?_code (kind : MessageKind) : ofCode? kind.code = some kind := by
  cases kind <;> rfl

end MessageKind

/-- A frame from the node. -/
structure NodeFrame where
  kind : MessageKind := .candidate
  payload : Bytes := []
  deriving DecidableEq, Repr, Inhabited

/-- A frame from the miner, which always reports a mined proof. -/
structure MinerFrame where
  candidateId : UInt64 := 0
  payload : Bytes := []
  deriving DecidableEq, Repr, Inhabited

/-- The frame that delivers a candidate. -/
def NodeFrame.ofCandidate (c : Candidate) : NodeFrame := ⟨.candidate, bytesOfText c.render⟩

/-- The frame that turns mining on or off. -/
def NodeFrame.ofEnable (on : Bool) : NodeFrame :=
  ⟨.enable, bytesOfText (if on then "true" else "false")⟩

/-- The frame that sends a proof. -/
def MinerFrame.ofProof (p : MinedProof) : MinerFrame := ⟨p.candidateId, bytesOfText p.render⟩

namespace Wire

/-- The first word of a frame from the node. -/
def requestMagic : UInt32 := 0x5a4b5043
/-- The first word of a frame from the miner. -/
def responseMagic : UInt32 := 0x5a4b5052
/-- The version of the protocol, which both sides have to agree on. -/
def version : UInt32 := 1

/-- The code of a mined frame. -/
def minedCode : UInt32 := 0

/-- The most bytes of a payload. -/
def payloadLimit : Nat := 16 * (1 <<< 20)

/-- A number in hexadecimal. -/
def hexText (n : Nat) : String := String.ofList (Nat.toDigits 16 n)

/-- The warning about a failed read. A stream that just ends is no cause for one. -/
def ReadFault.warning? : ReadFault → Option String
  | ended => none
  | magic expected found =>
    some (s!"[protocol] Invalid magic: expected 0x{hexText expected.toNat}" ++
      s!", got 0x{hexText found.toNat}")
  | version found => some s!"[protocol] Unsupported version: {found.toNat}"
  | messageKind found => some s!"[protocol] Unknown message kind: {found.toNat}"
  | responseKind found => some s!"[protocol] Unknown response kind: {found.toNat}"
  | payloadLength n =>
    some s!"[protocol] Payload too large: {n.toNat} bytes (limit {payloadLimit})"

/-- The warning about a failed write. -/
def WriteFault.warning? : WriteFault → Option String
  | closed => none
  | payloadLength n =>
    some s!"[protocol] Refusing to send {n} byte payload (limit {payloadLimit})"

/-! ## Reading -/

/-- A payload after its length. -/
def readPayload : Reader Bytes := do
  let n ← readUInt32
  if payloadLimit < n.toNat then throw (.payloadLength n)
  take n.toNat

/-- The word that opens the frames of one direction. -/
def readMagic (expected : UInt32) : Reader Unit := do
  let found ← readUInt32
  if found ≠ expected then throw (.magic expected found)

/-- A frame from the node. Its fields are checked in the order in which they stand. -/
def readNodeFrame : Reader NodeFrame := do
  readMagic requestMagic
  let found ← readUInt32
  if found ≠ version then throw (.version found)
  let code ← readUInt32
  match MessageKind.ofCode? code with
  | none => throw (.messageKind code)
  | some kind => return { kind, payload := ← readPayload }

/-- A frame from the miner, which is of one kind only. -/
def readMinerFrame : Reader MinerFrame := do
  readMagic responseMagic
  let code ← readUInt32
  if code ≠ minedCode then throw (.responseKind code)
  let candidateId ← readUInt64
  return { candidateId, payload := ← readPayload }

/-! ## Writing -/

/-- A payload after its length. One above the limit is refused before its length is written. -/
def writePayload (payload : Bytes) : Writer Unit := do
  if payloadLimit < payload.length then throw (.payloadLength payload.length)
  writeUInt32 (UInt32.ofNat payload.length)
  put payload

/-- A frame from the node with any code for its kind. -/
def writeMessage (code : UInt32) (payload : Bytes) : Writer Unit := do
  writeUInt32 requestMagic
  writeUInt32 version
  writeUInt32 code
  writePayload payload

/-- A frame from the node, its header first. -/
def writeNodeFrame (f : NodeFrame) : Writer Unit := writeMessage f.kind.code f.payload

/-- A frame from the miner, its header first. -/
def writeMinerFrame (f : MinerFrame) : Writer Unit := do
  writeUInt32 responseMagic
  writeUInt32 minedCode
  writeUInt64 f.candidateId
  writePayload f.payload

end Wire
end ProofMiner
