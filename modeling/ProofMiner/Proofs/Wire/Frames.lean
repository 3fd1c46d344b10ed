/-
# Frames are exact

A frame has a header of words and then its payload (`NodeFrame.bytes`, `MinerFrame.bytes`). Readers and
writers of frames have these bytes as their format (`format_nodeFrame`, `format_minerFrame`), so frames
come back in the order in which they were sent, whatever bytes are in them or follow them
(`sent_frames_received`).

A stream opens with a frame when the words at the places of its header are right and the payload is
there in full (`OpensNodeFrame`, `OpensMinerFrame`). Such streams are those that begin with the bytes of
a frame (`headed_nodeFrame`, `headed_minerFrame`), so that these, and no others, are accepted
(`frames_accepted_or_refused`).
-/

import Mathlib
import ProofMiner.Proofs.Wire.Formats

namespace ProofMiner

/-- The bytes of a frame from the node. -/
def NodeFrame.bytes (f : NodeFrame) : Bytes :=
  Wire.split 4 Wire.requestMagic.toNat ++ (Wire.split 4 Wire.version.toNat ++
    (Wire.split 4 f.kind.code.toNat ++ (Wire.split 4 f.payload.length ++ f.payload)))

/-- The bytes of a frame from the miner. -/
def MinerFrame.bytes (f : MinerFrame) : Bytes :=
  Wire.split 4 Wire.responseMagic.toNat ++ (Wire.split 4 Wire.minedCode.toNat ++
    (Wire.split 8 f.candidateId.toNat ++ (Wire.split 4 f.payload.length ++ f.payload)))

/-- Kinds are told by their codes. -/
theorem MessageKind.ofCode?_eq_some_iff {code : UInt32} {kind : MessageKind} :
    ofCode? code = some kind ↔ code = kind.code := by
  refine ⟨fun h => ?_, fun h => h ▸ ofCode?_code kind⟩
  unfold ofCode? at h
  split_ifs at h with h0 h1
  · cases h
    exact h0
  · cases h
    exact h1

namespace Wire

variable {stream rest : Bytes}

/-! ### Formats of frames -/

/-- A magic number is read if its bytes are there. -/
theorem run_readMagic_iff {magic : UInt32} {u : Unit} :
    (readMagic magic).run stream = (.ok u, rest) ↔ stream = split 4 magic.toNat ++ rest := by
  simp only [readMagic, bind_run_eq_ok_iff, run_readUInt32_iff]
  constructor
  · rintro ⟨w, mid, rfl, h⟩
    split at h
    next => cases h
    next hw =>
      cases h
      rw [not_not.1 hw]
  · rintro rfl
    exact ⟨magic, rest, rfl, by rw [if_neg (not_not.2 rfl)]; rfl⟩

/-- Frames in both directions, from the formats of their parts. -/
theorem format_nodeFrame : Format readNodeFrame writeNodeFrame NodeFrame.bytes
    (·.payload.length ≤ payloadLimit) where
  run_iff {stream f rest} := by
    simp only [readNodeFrame, bind_run_eq_ok_iff, run_readMagic_iff, run_readUInt32_iff, refuse_run_eq_ok_iff,
      NodeFrame.bytes, List.append_assoc]
    constructor
    · rintro ⟨-, -, rfl, w, -, rfl, hw, code, mid, rfl, h⟩
      split at h
      next => cases h
      next kind hkind =>
        simp only [bind_run_eq_ok_iff, format_payload.run_iff, pure_run_eq_ok_iff, List.append_assoc] at h
        obtain ⟨payload, -, ⟨hlimit, rfl⟩, rfl, rfl⟩ := h
        exact ⟨hlimit, by rw [not_not.1 hw, MessageKind.ofCode?_eq_some_iff.1 hkind]⟩
    · rintro ⟨hlimit, rfl⟩
      refine ⟨(), _, rfl, version, _, rfl, not_not.2 rfl, f.kind.code, _, rfl, ?_⟩
      rw [MessageKind.ofCode?_code]
      simp only [bind_run_eq_ok_iff, format_payload.run_iff, pure_run_eq_ok_iff, List.append_assoc]
      exact ⟨f.payload, rest, ⟨hlimit, rfl⟩, rfl, rfl⟩
  writes {f} hlimit := (writes_uint32 _).bind ((writes_uint32 _).bind ((writes_uint32 _).bind
    (format_payload.writes hlimit)))

theorem format_minerFrame : Format readMinerFrame writeMinerFrame MinerFrame.bytes
    (·.payload.length ≤ payloadLimit) where
  run_iff {stream f rest} := by
    simp only [readMinerFrame, bind_run_eq_ok_iff, run_readMagic_iff, run_readUInt32_iff,
      refuse_run_eq_ok_iff, run_readUInt64_iff, format_payload.run_iff, pure_run_eq_ok_iff,
      MinerFrame.bytes, List.append_assoc]
    constructor
    · rintro ⟨-, -, rfl, w, -, rfl, hw, id, -, rfl, payload, -, ⟨hlimit, rfl⟩, rfl, rfl⟩
      exact ⟨hlimit, by rw [not_not.1 hw]⟩
    · rintro ⟨hlimit, rfl⟩
      exact ⟨(), _, rfl, minedCode, _, rfl, not_not.2 rfl, f.candidateId, _, rfl, f.payload, rest,
        ⟨hlimit, rfl⟩, rfl, rfl⟩
  writes {f} hlimit := (writes_uint32 _).bind ((writes_uint32 _).bind ((writes_uint64 _).bind
    (format_payload.writes hlimit)))

/-- **Frames come back in order**, with what follows them unread: frames from the node, and frames
from the miner. -/
theorem sent_frames_received (written rest : Bytes) :
    (∀ frames : List NodeFrame, (∀ f ∈ frames, f.payload.length ≤ payloadLimit) →
      ∃ sent, (forM frames writeNodeFrame).run { written } =
          (.ok (), { written := written ++ sent }) ∧
        (readTimes readNodeFrame frames.length).run (sent ++ rest) = (.ok frames, rest)) ∧
    (∀ frames : List MinerFrame, (∀ f ∈ frames, f.payload.length ≤ payloadLimit) →
      ∃ sent, (forM frames writeMinerFrame).run { written } =
          (.ok (), { written := written ++ sent }) ∧
        (readTimes readMinerFrame frames.length).run (sent ++ rest) = (.ok frames, rest)) :=
  ⟨fun _ h => format_nodeFrame.read_written h written rest,
    fun _ h => format_minerFrame.read_written h written rest⟩

/-- A frame that carries the bytes of another one, before a second frame and one more byte. -/
theorem nested_frame_received :
    let frames : List NodeFrame := [⟨.candidate, (NodeFrame.mk .enable []).bytes⟩, ⟨.enable, [0x43]⟩]
    ∃ sent, (forM frames writeNodeFrame).run {} = (.ok (), { written := sent }) ∧
      (readTimes readNodeFrame 2).run (sent ++ [0x50]) = (.ok frames, [0x50]) :=
  (sent_frames_received [] [0x50]).1 _ (by decide)

/-! ### Places in a stream -/

/-- The number in the bytes at a place. -/
def field (stream : Bytes) (place width : ℕ) : ℕ := join ((stream.drop place).take width)

/-- The bytes of a number stand at a place if they are there in full and spell it. -/
theorem drop_eq_split_append_iff {place width n : ℕ} {tail : Bytes} (hwidth : 0 < width)
    (hn : n < 256 ^ width) : stream.drop place = split width n ++ tail ↔
      place + width ≤ stream.length ∧ field stream place width = n ∧
        stream.drop (place + width) = tail := by
  rw [field, ← List.drop_drop]
  constructor
  · intro h
    have hlen := congrArg List.length h
    rw [List.length_drop, List.length_append, length_split] at hlen
    refine ⟨by omega, ?_, ?_⟩
    · rw [h, List.take_left' (length_split width n), join_split]
      exact Nat.mod_eq_of_lt hn
    · rw [h, List.drop_left' (length_split width n)]
  · rintro ⟨hlen, hfield, rfl⟩
    have htake : ((stream.drop place).take width).length = width :=
      List.length_take_of_le (by rw [List.length_drop]; omega)
    have hsplit := split_join ((stream.drop place).take width)
    rw [htake, hfield] at hsplit
    rw [hsplit, List.take_append_drop]

/-- The stream begins with a frame from the node that has `n` bytes of payload. -/
structure OpensNodeFrame (stream : Bytes) (kind : MessageKind) (n : ℕ) : Prop where
  magic : field stream 0 4 = requestMagic.toNat
  version : field stream 4 4 = version.toNat
  kind : field stream 8 4 = kind.code.toNat
  length : field stream 12 4 = n
  limit : n ≤ payloadLimit
  present : 16 + n ≤ stream.length

/-- The stream begins with a frame from the miner that has `n` bytes of payload. -/
structure OpensMinerFrame (stream : Bytes) (candidateId : UInt64) (n : ℕ) : Prop where
  magic : field stream 0 4 = responseMagic.toNat
  kind : field stream 4 4 = minedCode.toNat
  candidateId : field stream 8 8 = candidateId.toNat
  length : field stream 16 4 = n
  limit : n ≤ payloadLimit
  present : 20 + n ≤ stream.length

/-- Frames that consist of a header of `place` bytes and a payload. A stream that opens with a frame
has the header of its key and of the length of its payload. -/
structure Headed {α Key : Type} (bytes : α → Bytes) (frame : Key → Bytes → α) (place : ℕ)
    (Opens : Bytes → Key → ℕ → Prop) : Prop where
  exists_eq : ∀ x, ∃ key payload, x = frame key payload
  length_bytes : ∀ key payload, (bytes (frame key payload)).length = place + payload.length
  limit : ∀ {stream key n}, Opens stream key n → n ≤ payloadLimit
  present : ∀ {stream key n}, Opens stream key n → place + n ≤ stream.length
  eq_append_iff : ∀ {stream key payload rest}, payload.length ≤ payloadLimit →
    (stream = bytes (frame key payload) ++ rest ↔
      Opens stream key payload.length ∧ stream.drop place = payload ++ rest)

/-- **A stream is accepted if and only if it opens with a frame.** The frame is what stands at the
places of its parts, its bytes are taken, and written again they are the same. -/
theorem Headed.accepted_or_refused {α Key : Type} {read : Reader α} {write : α → Writer Unit}
    {bytes : α → Bytes} {Fits : α → Prop} {frame : Key → Bytes → α} {place : ℕ}
    {Opens : Bytes → Key → ℕ → Prop} (headed : Headed bytes frame place Opens)
    (format : Format read write bytes Fits)
    (hfits : ∀ key payload, Fits (frame key payload) ↔ payload.length ≤ payloadLimit)
    (stream written : Bytes) :
    (∃ key n, Opens stream key n ∧
      read.run stream = (.ok (frame key ((stream.drop place).take n)), stream.drop (place + n)) ∧
      (write (frame key ((stream.drop place).take n))).run { written } =
        (.ok (), { written := written ++ stream.take (place + n) })) ∨
    (∀ key n, ¬ Opens stream key n) ∧ ∃ fault rest, read.run stream = (.error fault, rest) := by
  rcases format.read_cases stream with ⟨x, rest, hx, hstream, hread⟩ | ⟨hnone, hfault⟩
  · obtain ⟨key, payload, rfl⟩ := headed.exists_eq x
    obtain ⟨hopens, hdrop⟩ := (headed.eq_append_iff ((hfits key payload).1 hx)).1 hstream
    have htake : stream.take (place + payload.length) = bytes (frame key payload) := by
      rw [hstream, List.take_left' (headed.length_bytes key payload)]
    refine .inl ⟨key, payload.length, hopens, ?_⟩
    rw [← List.drop_drop, htake, hdrop, List.take_left, List.drop_left]
    exact ⟨hread, format.writes hx written⟩
  · refine .inr ⟨fun key n h => ?_, hfault⟩
    have hlen : ((stream.drop place).take n).length = n := by
      have hpresent := headed.present h
      exact List.length_take_of_le (by rw [List.length_drop]; omega)
    have hlimit : ((stream.drop place).take n).length ≤ payloadLimit := hlen.symm ▸ headed.limit h
    refine hnone _ (stream.drop (place + n)) ((hfits key _).2 hlimit)
      ((headed.eq_append_iff hlimit).2 ⟨hlen.symm ▸ h, ?_⟩)
    rw [← List.drop_drop, List.take_append_drop]

/-- The limit fits into four bytes. -/
theorem lt_pow_of_le_payloadLimit {n : ℕ} (h : n ≤ payloadLimit) : n < 256 ^ 4 :=
  Nat.lt_of_le_of_lt h (by decide)

/-- A payload ends where the stream does, or before. -/
theorem add_length_le_of_drop {place : ℕ} {payload : Bytes} (hplace : place ≤ stream.length)
    (h : stream.drop place = payload ++ rest) : place + payload.length ≤ stream.length := by
  have hlen := congrArg List.length h
  rw [List.length_drop, List.length_append] at hlen
  omega

/-- The header of either frame, by places in the stream. -/
theorem headed_nodeFrame : Headed NodeFrame.bytes NodeFrame.mk 16 OpensNodeFrame where
  exists_eq f := ⟨f.kind, f.payload, rfl⟩
  length_bytes kind payload := by
    simp only [NodeFrame.bytes, List.length_append, length_split]
    omega
  limit h := h.limit
  present h := h.present
  eq_append_iff {stream kind payload rest} hlimit := by
    have hwords : stream = (NodeFrame.mk kind payload).bytes ++ rest ↔
        stream.drop 0 = split 4 requestMagic.toNat ++ (split 4 version.toNat ++
          (split 4 kind.code.toNat ++ (split 4 payload.length ++ (payload ++ rest)))) := by
      simp only [List.drop_zero, NodeFrame.bytes, List.append_assoc]
    rw [hwords, drop_eq_split_append_iff (by decide) (UInt32.toNat_lt _),
      drop_eq_split_append_iff (by decide) (UInt32.toNat_lt _),
      drop_eq_split_append_iff (by decide) (UInt32.toNat_lt _),
      drop_eq_split_append_iff (by decide) (lt_pow_of_le_payloadLimit hlimit)]
    constructor
    · rintro ⟨-, magic, -, version, -, kind, hlen, length, hdrop⟩
      exact ⟨⟨magic, version, kind, length, hlimit, add_length_le_of_drop hlen hdrop⟩, hdrop⟩
    · rintro ⟨⟨magic, version, kind, length, -, present⟩, hdrop⟩
      exact ⟨by omega, magic, by omega, version, by omega, kind, by omega, length, hdrop⟩

theorem headed_minerFrame : Headed MinerFrame.bytes MinerFrame.mk 20 OpensMinerFrame where
  exists_eq f := ⟨f.candidateId, f.payload, rfl⟩
  length_bytes candidateId payload := by
    simp only [MinerFrame.bytes, List.length_append, length_split]
    omega
  limit h := h.limit
  present h := h.present
  eq_append_iff {stream candidateId payload rest} hlimit := by
    have hwords : stream = (MinerFrame.mk candidateId payload).bytes ++ rest ↔
        stream.drop 0 = split 4 responseMagic.toNat ++ (split 4 minedCode.toNat ++
          (split 8 candidateId.toNat ++ (split 4 payload.length ++ (payload ++ rest)))) := by
      simp only [List.drop_zero, MinerFrame.bytes, List.append_assoc]
    rw [hwords, drop_eq_split_append_iff (by decide) (UInt32.toNat_lt _),
      drop_eq_split_append_iff (by decide) (UInt32.toNat_lt _),
      drop_eq_split_append_iff (by decide) (UInt64.toNat_lt _),
      drop_eq_split_append_iff (by decide) (lt_pow_of_le_payloadLimit hlimit)]
    constructor
    · rintro ⟨-, magic, -, kind, -, candidateId, hlen, length, hdrop⟩
      exact ⟨⟨magic, kind, candidateId, length, hlimit, add_length_le_of_drop hlen hdrop⟩, hdrop⟩
    · rintro ⟨⟨magic, kind, candidateId, length, -, present⟩, hdrop⟩
      exact ⟨by omega, magic, by omega, kind, by omega, candidateId, by omega, length, hdrop⟩

/-- **Exactly the streams that open with a frame are accepted.** The frame is what stands at the
places of its parts, its bytes are taken, and written again they are the same. Every other stream, be
it that a word is wrong, that the payload is too long or that the stream ends early, gives a fault. -/
theorem frames_accepted_or_refused (stream written : Bytes) :
    ((∃ kind n, OpensNodeFrame stream kind n ∧
        readNodeFrame.run stream =
          (.ok ⟨kind, (stream.drop 16).take n⟩, stream.drop (16 + n)) ∧
        (writeNodeFrame ⟨kind, (stream.drop 16).take n⟩).run { written } =
          (.ok (), { written := written ++ stream.take (16 + n) })) ∨
      (∀ kind n, ¬ OpensNodeFrame stream kind n) ∧
        ∃ fault rest, readNodeFrame.run stream = (.error fault, rest)) ∧
    ((∃ candidateId n, OpensMinerFrame stream candidateId n ∧
        readMinerFrame.run stream =
          (.ok ⟨candidateId, (stream.drop 20).take n⟩, stream.drop (20 + n)) ∧
        (writeMinerFrame ⟨candidateId, (stream.drop 20).take n⟩).run { written } =
          (.ok (), { written := written ++ stream.take (20 + n) })) ∨
      (∀ candidateId n, ¬ OpensMinerFrame stream candidateId n) ∧
        ∃ fault rest, readMinerFrame.run stream = (.error fault, rest)) :=
  ⟨headed_nodeFrame.accepted_or_refused format_nodeFrame (fun _ _ => Iff.rfl) stream written,
    headed_minerFrame.accepted_or_refused format_minerFrame (fun _ _ => Iff.rfl) stream written⟩

end Wire
end ProofMiner
