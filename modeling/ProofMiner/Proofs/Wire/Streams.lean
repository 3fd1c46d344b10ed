/-
# Streams of frames

A stream of the node is a number of frames and then a rest that does not begin with one (`Parts`).
There is no second way to see it so (`Parts.unique`), and `nodeFrames` finds it (`parts_nodeFrames`).

It makes no difference in which portions a stream arrives. What a reader has made out, be it a value
or a fault other than the end of the stream, it makes out as well when more bytes follow (`Steady`).
Hence the frames of a longer stream are those of its beginning and those of the rest with what is new
(`nodeFrames_append`), and a rest at fault stays at fault (`nodeFrames_append_of_fault`).
-/

import ProofMiner.Node.Server
import ProofMiner.Proofs.Wire.Frames

namespace ProofMiner

/-- A frame has a header of sixteen bytes. -/
theorem NodeFrame.length_bytes (f : NodeFrame) : f.bytes.length = 16 + f.payload.length :=
  Wire.headed_nodeFrame.length_bytes f.kind f.payload

namespace Wire

variable {α β : Type} {stream more rest : Bytes}

/-! ### Readers and what follows -/

/-- More bytes change nothing in what the reader has made out, and stay unread. -/
def Steady (read : Reader α) : Prop := ∀ ⦃stream result rest⦄, read.run stream = (result, rest) →
  result ≠ .error .ended → ∀ more, read.run (stream ++ more) = (result, rest ++ more)

/-- Readers are steady: each part is, and so is a sequence of such parts. -/
theorem steady_pure (x : α) : Steady (pure x : Reader α) := by
  intro stream result rest h _ more
  cases h
  rfl

theorem steady_throw (fault : ReadFault) : Steady (throw fault : Reader α) := by
  intro stream result rest h _ more
  cases h
  rfl

/-- The case to be seen to is a first part that fails for another reason than a short stream. -/
theorem Steady.bind {read : Reader α} {next : α → Reader β} (h : Steady read)
    (hnext : ∀ x, Steady (next x)) : Steady (read >>= next) := by
  intro stream result rest hrun hresult more
  cases hread : read.run stream with
  | mk first mid =>
    cases first with
    | ok x =>
      rw [bind_run_of_ok hread] at hrun
      rw [bind_run_of_ok (h hread (by simp) more)]
      exact hnext x hrun hresult more
    | error fault =>
      rw [bind_run_of_error hread] at hrun
      cases hrun
      rw [bind_run_of_error (h hread (by simpa using hresult) more)]

theorem Steady.ite {c : Prop} [Decidable c] {read read' : Reader α} (h : Steady read)
    (h' : Steady read') : Steady (if c then read else read') := by
  split
  · exact h
  · exact h'

theorem steady_take (n : ℕ) : Steady (take n) := by
  intro stream result rest h hresult more
  rw [run_take] at h ⊢
  split at h
  next =>
    cases h
    exact absurd rfl hresult
  next hle =>
    cases h
    rw [Nat.not_lt] at hle
    rw [if_neg (by rw [List.length_append]; omega), List.take_append_of_le_length hle,
      List.drop_append_of_le_length hle]

theorem steady_readUInt32 : Steady readUInt32 := (steady_take 4).bind fun _ => steady_pure _

theorem steady_readPayload : Steady readPayload :=
  steady_readUInt32.bind fun n =>
    .ite ((steady_throw _).bind fun _ => steady_take n.toNat) (steady_take n.toNat)

theorem steady_readMagic (magic : UInt32) : Steady (readMagic magic) :=
  steady_readUInt32.bind fun _ => .ite (steady_throw _) (steady_pure _)

/-- **A frame, or a fault in its header, is made out for good.** -/
theorem steady_readNodeFrame : Steady readNodeFrame := by
  refine (steady_readMagic _).bind fun _ => steady_readUInt32.bind fun _ =>
    .ite ((steady_throw _).bind fun _ => steady_readUInt32.bind fun code => ?_)
      (steady_readUInt32.bind fun code => ?_)
  all_goals
    split
    · exact steady_throw _
    · exact steady_readPayload.bind fun _ => steady_pure _

/-! ### The parts of a stream -/

/-- The stream is these frames and a rest that does not begin with a further one. -/
structure Parts (stream : Bytes) (frames : List NodeFrame) (rest : Bytes) : Prop where
  eq_append : stream = frames.flatMap NodeFrame.bytes ++ rest
  fits : ∀ f ∈ frames, f.payload.length ≤ payloadLimit
  last : ∀ f : NodeFrame, f.payload.length ≤ payloadLimit → ∀ tail, rest ≠ f.bytes ++ tail

/-- The frames end at the first one that cannot be read. -/
theorem nodeFrames_of_error {fault : ReadFault}
    (h : readNodeFrame.run stream = (.error fault, rest)) :
    nodeFrames stream = ([], fault, stream) := by
  rw [nodeFrames, h]

/-- A frame in front is read first. -/
theorem nodeFrames_cons {f : NodeFrame} (h : f.payload.length ≤ payloadLimit) (rest : Bytes) :
    nodeFrames (f.bytes ++ rest) = (f :: (nodeFrames rest).1, (nodeFrames rest).2) := by
  have hrun : readNodeFrame.run (f.bytes ++ rest) = (.ok f, rest) :=
    format_nodeFrame.run_iff.2 ⟨h, rfl⟩
  have hlen : rest.length < (f.bytes ++ rest).length := by
    rw [List.length_append, f.length_bytes]
    omega
  rw [nodeFrames, hrun]
  exact if_pos hlen

/-- Induction along the frames of a stream. -/
theorem stream_induction {P : Bytes → Prop}
    (frame : ∀ (f : NodeFrame) rest, f.payload.length ≤ payloadLimit → P rest →
      P (f.bytes ++ rest))
    (last : ∀ stream fault rest, readNodeFrame.run stream = (.error fault, rest) → P stream)
    (stream : Bytes) : P stream := by
  induction hn : stream.length using Nat.strongRecOn generalizing stream with
  | _ n ih =>
    rcases format_nodeFrame.read_cases stream with ⟨f, rest, hf, rfl, -⟩ | ⟨-, fault, rest, h⟩
    · refine frame f rest hf (ih rest.length ?_ rest rfl)
      rw [← hn, List.length_append, f.length_bytes]
      omega
    · exact last stream fault rest h

/-- The parts of a stream are found, by induction on its frames. -/
theorem nodeFrames_of_parts {frames : List NodeFrame} (h : Parts stream frames rest) :
    (nodeFrames stream).1 = frames ∧ (nodeFrames stream).2.2 = rest := by
  obtain ⟨rfl, hfits, hlast⟩ := h
  induction frames with
  | nil =>
    rcases format_nodeFrame.read_cases rest with ⟨f, tail, hf, heq, -⟩ | ⟨-, fault, rest', hrun⟩
    · exact absurd heq (hlast f hf tail)
    · rw [List.flatMap_nil, List.nil_append, nodeFrames_of_error hrun]
      exact ⟨rfl, rfl⟩
  | cons f frames ih =>
    obtain ⟨hframes, hrest⟩ := ih fun g hg => hfits g (List.mem_cons_of_mem f hg)
    rw [List.flatMap_cons, List.append_assoc, nodeFrames_cons (hfits f List.mem_cons_self)]
    exact ⟨by rw [hframes], hrest⟩

/-- **There is one way to see a stream as frames and a rest.** -/
theorem Parts.unique {frames frames' : List NodeFrame} {rest' : Bytes}
    (h : Parts stream frames rest) (h' : Parts stream frames' rest') :
    frames = frames' ∧ rest = rest' := by
  obtain ⟨rfl, rfl⟩ := nodeFrames_of_parts h
  exact nodeFrames_of_parts h'

/-- What is found in a stream are its parts, and the fault is that of reading the rest. -/
theorem parts_nodeFrames (stream : Bytes) :
    Parts stream (nodeFrames stream).1 (nodeFrames stream).2.2 ∧
      ∃ rest, readNodeFrame.run (nodeFrames stream).2.2 =
        (.error (nodeFrames stream).2.1, rest) := by
  induction stream using stream_induction with
  | frame f rest hf ih =>
    obtain ⟨⟨heq, hfits, hlast⟩, hfault⟩ := ih
    rw [nodeFrames_cons hf]
    refine ⟨⟨?_, List.forall_mem_cons.2 ⟨hf, hfits⟩, hlast⟩, hfault⟩
    rw [List.flatMap_cons, List.append_assoc, ← heq]
  | last stream fault rest h =>
    rw [nodeFrames_of_error h]
    refine ⟨⟨rfl, nofun, fun f hf tail heq => ?_⟩, rest, h⟩
    have hok := format_nodeFrame.run_iff.2 ⟨hf, heq⟩
    rw [h] at hok
    cases hok

/-! ### Portions -/

/-- **A stream may be read in two portions**, with the rest of the first before the second. -/
theorem nodeFrames_append (stream more : Bytes) : nodeFrames (stream ++ more) =
    ((nodeFrames stream).1 ++ (nodeFrames ((nodeFrames stream).2.2 ++ more)).1,
      (nodeFrames ((nodeFrames stream).2.2 ++ more)).2) := by
  induction stream using stream_induction with
  | frame f rest hf ih =>
    rw [List.append_assoc, nodeFrames_cons hf, ih, nodeFrames_cons hf]
    rfl
  | last stream fault rest h =>
    rw [nodeFrames_of_error h]
    rfl

/-- A rest in which a fault was found has no frames, whatever follows. -/
theorem nodeFrames_append_of_fault (h : (nodeFrames stream).2.1 ≠ .ended) (more : Bytes) :
    nodeFrames ((nodeFrames stream).2.2 ++ more) =
      ([], (nodeFrames stream).2.1, (nodeFrames stream).2.2 ++ more) := by
  obtain ⟨-, rest, hrun⟩ := parts_nodeFrames stream
  exact nodeFrames_of_error (steady_readNodeFrame hrun (by simpa using h) more)

end Wire
end ProofMiner
