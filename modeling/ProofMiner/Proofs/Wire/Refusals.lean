/-
# Frames that are refused

A writer refuses a payload above the limit before anything of the payload is written, its length
included (`refuses_payload`), but the header of a frame stands before the payload and is written by
then. So a frame is written as a whole or not at all if and only if its payload is within the limit
(`Refusal.allOrNothing_iff`); otherwise the header stays behind. The reader takes it for that of the
next frame, the first word of which it then takes for a length, and no length is as large as that
(`Refusal.read_after`).
-/

import ProofMiner.Proofs.Wire.Frames

namespace ProofMiner

/-- What stands before the payload of a frame from the node, without its length. -/
def NodeFrame.header (f : NodeFrame) : Bytes :=
  Wire.split 4 Wire.requestMagic.toNat ++ (Wire.split 4 Wire.version.toNat ++
    Wire.split 4 f.kind.code.toNat)

/-- What stands before the payload of a frame from the miner, without its length. -/
def MinerFrame.header (f : MinerFrame) : Bytes :=
  Wire.split 4 Wire.responseMagic.toNat ++ (Wire.split 4 Wire.minedCode.toNat ++
    Wire.split 8 f.candidateId.toNat)

namespace Wire

variable {α : Type} {read : Reader α} {write : α → Writer Unit} {bytes header : α → Bytes}
  {Fits : α → Prop} {magic : UInt32}

/-! ### Writers that fail -/

/-- The writer fails, and leaves these bytes behind on an outlet that is open. -/
def Refuses (write : Writer Unit) (bytes : Bytes) (fault : WriteFault) : Prop :=
  ∀ written, write.run { written } = (.error fault, { written := written ++ bytes })

/-- What was written before a refusal stays. -/
theorem Writes.refuses {write write' : Writer Unit} {bytes bytes' : Bytes} {fault : WriteFault}
    (h : Writes write bytes) (h' : Refuses write' bytes' fault) :
    Refuses (do write; write') (bytes ++ bytes') fault := by
  intro written
  show ExceptT.bindCont (fun _ => write') (write.run { written }).1 (write.run { written }).2 = _
  rw [h written, ← List.append_assoc]
  exact h' (written ++ bytes)

/-- A payload above the limit is refused, and nothing is written. -/
theorem refuses_payload {payload : Bytes} (h : payloadLimit < payload.length) :
    Refuses (writePayload payload) [] (.payloadLength payload.length) := by
  intro written
  rw [writePayload, if_pos h, List.append_nil]
  rfl

/-- Frames that are too long are refused after their headers. -/
theorem refuses_nodeFrame {f : NodeFrame} (h : payloadLimit < f.payload.length) :
    Refuses (writeNodeFrame f) f.header (.payloadLength f.payload.length) := by
  have hrefuses := (writes_uint32 requestMagic).refuses ((writes_uint32 version).refuses
    ((writes_uint32 f.kind.code).refuses (refuses_payload h)))
  rwa [List.append_nil] at hrefuses

theorem refuses_minerFrame {f : MinerFrame} (h : payloadLimit < f.payload.length) :
    Refuses (writeMinerFrame f) f.header (.payloadLength f.payload.length) := by
  have hrefuses := (writes_uint32 responseMagic).refuses ((writes_uint32 minedCode).refuses
    ((writes_uint64 f.candidateId).refuses (refuses_payload h)))
  rwa [List.append_nil] at hrefuses

/-! ### Whole frames or nothing -/

/-- The writer succeeds and appends the bytes, or it fails and appends nothing. -/
def AllOrNothing (write : Writer Unit) (bytes : Bytes) : Prop :=
  ∀ written, write.run { written } = (.ok (), { written := written ++ bytes }) ∨
    ∃ fault, write.run { written } = (.error fault, { written })

/-- Frames of a format whose header is written before the payload is looked at. -/
structure Refusal (read : Reader α) (write : α → Writer Unit) (bytes header : α → Bytes)
    (Fits : α → Prop) (magic : UInt32) : Prop where
  format : Format read write bytes Fits
  refuses : ∀ {x}, ¬ Fits x → ∃ fault, Refuses (write x) (header x) fault
  header_ne_nil : ∀ x, header x ≠ []
  opening : ∀ x, ∃ tail, bytes x = split 4 magic.toNat ++ tail
  /-- The word after a header is taken for a length. -/
  read_header : ∀ x rest, read.run (header x ++ (split 4 magic.toNat ++ rest)) =
    (.error (.payloadLength magic), rest)

namespace Refusal

variable (refusal : Refusal read write bytes header Fits magic)
include refusal

/-- **A frame is written as a whole or not at all if and only if it fits.** -/
theorem allOrNothing_iff (x : α) : AllOrNothing (write x) (bytes x) ↔ Fits x := by
  constructor
  · intro h
    by_contra hfits
    obtain ⟨fault, hrefuses⟩ := refusal.refuses hfits
    rcases h [] with hok | ⟨fault', herror⟩
    · rw [hrefuses []] at hok
      cases hok
    · rw [hrefuses [], List.nil_append] at herror
      exact refusal.header_ne_nil x (congrArg (·.2.written) herror)
  · exact fun hfits written => .inl (refusal.format.writes hfits written)

/-- **After a frame that was refused no frame is read.** -/
theorem read_after (x next : α) (rest : Bytes) : ∃ left,
    read.run (header x ++ (bytes next ++ rest)) = (.error (.payloadLength magic), left) := by
  obtain ⟨tail, htail⟩ := refusal.opening next
  rw [htail, List.append_assoc]
  exact ⟨_, refusal.read_header x _⟩

end Refusal

/-- What becomes of a frame on an outlet that is open, and of the frames behind it. -/
structure Sending (read : Reader α) (write : α → Writer Unit) (bytes header : α → Bytes)
    (Fits : α → Prop) (x : α) : Prop where
  allOrNothing_iff : AllOrNothing (write x) (bytes x) ↔ Fits x
  /-- A frame that fits is read back, and so are later ones. -/
  whole : Fits x → ∀ later, (∀ y ∈ later, Fits y) → ∀ written rest, ∃ sent,
    (forM (x :: later) write).run { written } = (.ok (), { written := written ++ sent }) ∧
      (readTimes read (later.length + 1)).run (sent ++ rest) = (.ok (x :: later), rest)
  /-- Of another one the header is written. -/
  refused : ¬ Fits x → (∃ fault, Refuses (write x) (header x) fault) ∧ header x ≠ []
  /-- Behind that header no frame is read. -/
  lost : ¬ Fits x → ∀ next rest, ∃ fault left,
    read.run (header x ++ (bytes next ++ rest)) = (.error fault, left)

/-- What sending a value comes to, within the limit and beyond. -/
theorem Refusal.sending (refusal : Refusal read write bytes header Fits magic) (x : α) :
    Sending read write bytes header Fits x where
  allOrNothing_iff := refusal.allOrNothing_iff x
  whole hfits _ hlater written rest :=
    refusal.format.read_written (List.forall_mem_cons.2 ⟨hfits, hlater⟩) written rest
  refused hfits := ⟨refusal.refuses hfits, refusal.header_ne_nil x⟩
  lost _ next rest := ⟨_, refusal.read_after x next rest⟩

/-! ### Frames from the node and from the miner -/

/-- A length beyond the limit is refused before the bytes are looked at. -/
theorem run_readPayload_of_lt {n : UInt32} (h : payloadLimit < n.toNat) (rest : Bytes) :
    readPayload.run (split 4 n.toNat ++ rest) = (.error (.payloadLength n), rest) := by
  rw [readPayload, bind_run_of_ok (run_readUInt32_iff.2 rfl), if_pos h]
  rfl

/-- Both sorts of frames are refused in this way. -/
theorem refusal_nodeFrame : Refusal readNodeFrame writeNodeFrame NodeFrame.bytes NodeFrame.header
    (·.payload.length ≤ payloadLimit) requestMagic where
  format := format_nodeFrame
  refuses h := ⟨_, refuses_nodeFrame (Nat.not_le.1 h)⟩
  header_ne_nil _ := List.cons_ne_nil _ _
  opening _ := ⟨_, rfl⟩
  read_header f rest := by
    rw [NodeFrame.header, List.append_assoc, List.append_assoc, readNodeFrame,
      bind_run_of_ok (x := ()) (run_readMagic_iff.2 rfl),
      bind_run_of_ok (run_readUInt32_iff.2 rfl), if_neg (not_not.2 rfl),
      bind_run_of_ok (run_readUInt32_iff.2 rfl), MessageKind.ofCode?_code]
    dsimp only
    rw [bind_run_of_error (run_readPayload_of_lt (by decide) _)]

theorem refusal_minerFrame : Refusal readMinerFrame writeMinerFrame MinerFrame.bytes
    MinerFrame.header (·.payload.length ≤ payloadLimit) responseMagic where
  format := format_minerFrame
  refuses h := ⟨_, refuses_minerFrame (Nat.not_le.1 h)⟩
  header_ne_nil _ := List.cons_ne_nil _ _
  opening _ := ⟨_, rfl⟩
  read_header f rest := by
    rw [MinerFrame.header, List.append_assoc, List.append_assoc, readMinerFrame,
      bind_run_of_ok (x := ()) (run_readMagic_iff.2 rfl),
      bind_run_of_ok (run_readUInt32_iff.2 rfl), if_neg (not_not.2 rfl),
      bind_run_of_ok (run_readUInt64_iff.2 rfl), bind_run_of_error (run_readPayload_of_lt (by decide) _)]

/-- **Frames within the limit are written as a whole and read back, and no others are.** A frame above
the limit is refused, but its header is written, and the frames that follow it on the stream are lost. -/
theorem whole_iff_within_limit (request : NodeFrame) (report : MinerFrame) :
    Sending readNodeFrame writeNodeFrame NodeFrame.bytes NodeFrame.header
      (·.payload.length ≤ payloadLimit) request ∧
    Sending readMinerFrame writeMinerFrame MinerFrame.bytes MinerFrame.header
      (·.payload.length ≤ payloadLimit) report :=
  ⟨refusal_nodeFrame.sending request, refusal_minerFrame.sending report⟩

/-- A frame that is one byte too long is refused after sixteen bytes of it were written. -/
theorem refused_frame_leaves_header :
    let f : MinerFrame := ⟨1, List.replicate (payloadLimit + 1) 0x78⟩
    (writeMinerFrame f).run {} = (.error (.payloadLength (payloadLimit + 1)),
      { written := [0x52, 0x50, 0x4b, 0x5a, 0, 0, 0, 0, 1, 0, 0, 0, 0, 0, 0, 0] }) ∧
    ¬ AllOrNothing (writeMinerFrame f) f.bytes := by
  intro f
  have hlength : f.payload.length = payloadLimit + 1 := List.length_replicate
  have hlimit : payloadLimit < f.payload.length := by omega
  have hheader : f.header =
      [0x52, 0x50, 0x4b, 0x5a, 0, 0, 0, 0, 1, 0, 0, 0, 0, 0, 0, 0] := by decide
  have hrun := refuses_minerFrame hlimit []
  rw [hlength, List.nil_append, hheader] at hrun
  exact ⟨hrun, fun h => absurd ((refusal_minerFrame.allOrNothing_iff f).1 h) (Nat.not_le.2 hlimit)⟩

end Wire
end ProofMiner
