/-
# What a node's stream does to the dispatcher

A frame asks for a delivery if its payload is a candidate, and for turning mining on or off if its
payload is `true` or `false` among blanks (`NodeFrame.Asks`); every other frame asks for nothing and is
skipped. A session calls the dispatcher as the frames of the stream ask for (`calls_of_stream`): in
their order, once for each, and for nothing that stands behind the first malformed frame. The portions
in which the bytes arrive make no difference (`Wire.nodeFrames_append`), and the proofs that go out
between two frames do not touch the connection (`obey_all`).

Between two calls the dispatcher and its workers go on by themselves, which is no call (`ran_called`).
-/

import Mathlib.Data.List.TakeWhile
import ProofMiner.Miner.Session
import ProofMiner.Proofs.Supervisor.Schedules
import ProofMiner.Proofs.Wire.Streams

namespace ProofMiner

/-! ### What a frame asks for -/

open Dispatcher (Action Ran)

/-- Space, tab, carriage return and line feed. -/
def blanks : Bytes := [0x20, 0x09, 0x0d, 0x0a]

/-- The frame asks for the call of the dispatcher. -/
inductive NodeFrame.Asks : NodeFrame → Action → Prop
  /-- The payload is a candidate. -/
  | deliver {payload : Bytes} {c : Candidate}
      (h : Candidate.parse (charsOfPayload payload) = .ok c) :
      Asks ⟨.candidate, payload⟩ (.deliver c)
  /-- The payload is `true` or `false` among blanks. -/
  | enable {before after : Bytes} (on : Bool) (hbefore : ∀ b ∈ before, b ∈ blanks)
      (hafter : ∀ b ∈ after, b ∈ blanks) :
      Asks ⟨.enable, before ++ bytesOfText (if on then "true" else "false") ++ after⟩ (.enable on)

/-- The calls that frames ask for, in order. A frame that asks for none is skipped. -/
inductive Asking : List NodeFrame → List Action → Prop
  | nil : Asking [] []
  | call {f : NodeFrame} {frames : List NodeFrame} {call : Action} {calls : List Action} :
      f.Asks call → Asking frames calls → Asking (f :: frames) (call :: calls)
  | skip {f : NodeFrame} {frames : List NodeFrame} {calls : List Action} :
      (∀ call, ¬ f.Asks call) → Asking frames calls → Asking (f :: frames) calls

namespace Order

/-- The bytes that are stripped off a payload. -/
theorem isBlank_iff {b : UInt8} : isBlank b = true ↔ b ∈ blanks := by
  simp [isBlank, blanks, or_assoc]

/-- Blanks, and what is left without them. -/
theorem exists_eq_trim (payload : Bytes) : ∃ before after, (∀ b ∈ before, isBlank b) ∧
    (∀ b ∈ after, isBlank b) ∧ payload = before ++ trim payload ++ after := by
  refine ⟨payload.takeWhile isBlank, ((payload.dropWhile isBlank).reverse.takeWhile isBlank).reverse,
    fun b hb => List.mem_takeWhile_imp hb,
    fun b hb => List.mem_takeWhile_imp (List.mem_reverse.1 hb), ?_⟩
  rw [trim, List.append_assoc, ← List.reverse_append, List.takeWhile_append_dropWhile,
    List.reverse_reverse, List.takeWhile_append_dropWhile]

/-- Blanks are dropped as far as the word. -/
theorem dropWhile_blank_append {blanks word : Bytes} (hblanks : ∀ b ∈ blanks, isBlank b)
    (hword : ∃ b ∈ word.head?, ¬ isBlank b) (tail : Bytes) :
    (blanks ++ (word ++ tail)).dropWhile isBlank = word ++ tail := by
  rw [List.dropWhile_append_of_pos hblanks]
  obtain ⟨b, hb, hnot⟩ := hword
  obtain ⟨word', rfl⟩ := List.head?_eq_some_iff.1 hb
  exact List.dropWhile_cons_of_neg hnot

/-- A word that neither begins nor ends with a blank is found among blanks. -/
theorem trim_append {before word after : Bytes} (hbefore : ∀ b ∈ before, isBlank b)
    (hafter : ∀ b ∈ after, isBlank b) (hfirst : ∃ b ∈ word.head?, ¬ isBlank b)
    (hlast : ∃ b ∈ word.reverse.head?, ¬ isBlank b) : trim (before ++ word ++ after) = word := by
  have hafter' : ∀ b ∈ after.reverse, isBlank b := fun b hb => hafter b (List.mem_reverse.1 hb)
  have hdrop := dropWhile_blank_append hafter' hlast []
  rw [List.append_nil] at hdrop
  rw [trim, List.append_assoc, dropWhile_blank_append hbefore hfirst, List.reverse_append, hdrop,
    List.reverse_reverse]

/-- A payload switches if it is one of the two words between blanks. -/
theorem enableValue?_eq_some_iff {payload : Bytes} {on : Bool} :
    enableValue? payload = some on ↔ ∃ before after, (∀ b ∈ before, b ∈ blanks) ∧
      (∀ b ∈ after, b ∈ blanks) ∧
      payload = before ++ bytesOfText (if on then "true" else "false") ++ after := by
  simp only [← isBlank_iff]
  constructor
  · intro h
    obtain ⟨before, after, hbefore, hafter, heq⟩ := exists_eq_trim payload
    refine ⟨before, after, hbefore, hafter, ?_⟩
    dsimp only [enableValue?] at h
    split_ifs at h with htrue hfalse
    · cases h
      rwa [htrue] at heq
    · cases h
      rwa [hfalse] at heq
  · rintro ⟨before, after, hbefore, hafter, rfl⟩
    have htrue : bytesOfText "true" = [0x74, 0x72, 0x75, 0x65] := by cbv
    have hfalse : bytesOfText "false" = [0x66, 0x61, 0x6c, 0x73, 0x65] := by cbv
    dsimp only [enableValue?]
    cases on
    · rw [if_neg Bool.false_ne_true, trim_append hbefore hafter (by rw [hfalse]; decide)
        (by rw [hfalse]; decide), if_neg (by rw [htrue, hfalse]; decide), if_pos rfl]
    · rw [if_pos rfl, trim_append hbefore hafter (by rw [htrue]; decide) (by rw [htrue]; decide),
        if_pos rfl]

end Order

/-- The call that a frame is taken to ask for. -/
def NodeFrame.call? (f : NodeFrame) : Option Action := (Order.ofFrame? f).map Order.action

namespace NodeFrame

/-- What a frame is taken to ask for is what it asks for. -/
theorem call?_eq_some_iff {f : NodeFrame} {call : Action} : f.call? = some call ↔ f.Asks call := by
  obtain ⟨kind, payload⟩ := f
  cases kind with
  | candidate =>
    rw [call?, Order.ofFrame?, Option.map_map, Option.map_eq_some_iff]
    constructor
    · rintro ⟨c, hc, rfl⟩
      cases hparse : Candidate.parse (charsOfPayload payload) with
      | error fault =>
        rw [hparse] at hc
        cases hc
      | ok c' =>
        rw [hparse] at hc
        cases hc
        exact .deliver hparse
    · rintro ⟨hparse⟩
      exact ⟨_, by rw [hparse]; rfl, rfl⟩
  | enable =>
    rw [call?, Order.ofFrame?, Option.map_map, Option.map_eq_some_iff]
    constructor
    · rintro ⟨on, hon, rfl⟩
      obtain ⟨before, after, hbefore, hafter, rfl⟩ := Order.enableValue?_eq_some_iff.1 hon
      exact .enable on hbefore hafter
    · intro h
      cases h with
      | enable on hbefore hafter =>
        exact ⟨on, Order.enableValue?_eq_some_iff.2 ⟨_, _, hbefore, hafter, rfl⟩, rfl⟩

/-- What the frames ask is what the miner makes of them. -/
theorem asking_iff {frames : List NodeFrame} {calls : List Action} :
    Asking frames calls ↔ frames.filterMap call? = calls := by
  constructor
  · intro h
    induction h with
    | nil => rfl
    | call hasks _ ih => rw [List.filterMap_cons_some (call?_eq_some_iff.2 hasks), ih]
    | skip hnone _ ih =>
      rw [List.filterMap_cons_none, ih]
      exact Option.eq_none_iff_forall_ne_some.2 fun call h => hnone call (call?_eq_some_iff.1 h)
  · rintro rfl
    induction frames with
    | nil => exact .nil
    | cons f frames ih =>
      cases h : f.call? with
      | some call =>
        rw [List.filterMap_cons_some h]
        exact .call (call?_eq_some_iff.1 h) ih
      | none =>
        rw [List.filterMap_cons_none h]
        refine .skip (fun call hasks => ?_) ih
        rw [call?_eq_some_iff.2 hasks] at h
        cases h

end NodeFrame

/-! ### The connection while frames are worked off -/

namespace Link

variable {l : Link}

/-- Nothing that is sent or written ends the connection. -/
theorem connected_afterSend (frame : MinerFrame) : (l.afterSend frame).connected = l.connected := by
  rw [afterSend]
  split_ifs <;> rfl

/-- Nothing but its begin and its end makes a connection begin or end. -/
theorem connected_step {action : Action} (hconnect : action ≠ .connect)
    (hdisconnect : action ≠ .disconnect) :
    ((l.step? action).getD l).connected = l.connected := by
  cases action with
  | connect => exact absurd rfl hconnect
  | disconnect => exact absurd rfl hdisconnect
  | send frame => exact connected_afterSend frame
  | take | complete | fail | finish => rw [step?]; split <;> rfl

theorem connected_endWrite : l.endWrite.connected = l.connected := by
  apply connected_step <;> split <;> simp

theorem connected_writeFrames (count : ℕ) : (l.writeFrames count).connected = l.connected := by
  induction count generalizing l with
  | zero => exact connected_endWrite
  | succ count ih =>
    rw [writeFrames, ih, startWrite, connected_step (by simp) (by simp), connected_endWrite]

/-- A connection that was hung up is over. -/
theorem connected_hangUp : l.hangUp.connected = false := by
  cases h : l.connected with
  | false =>
    have hnone : l.step? .disconnect = none := by simp [step?, h]
    rw [hangUp, hnone]
    exact h
  | true =>
    have hsome : l.step? .disconnect = some { l with connected := false, outbox := [] } := by
      simp [step?, h]
    rw [hangUp, hsome]
    dsimp only
    rw [connected_step (by simp) (by simp), connected_step (by simp) (by simp)]

end Link

namespace Server

variable (s : Server)

theorem connected_send (frame : MinerFrame) :
    (s.send frame).2.link.connected = s.link.connected := by
  rw [send, Link.flush, Link.connected_writeFrames, Link.connected_afterSend]

variable {s}

/-- Nothing is received without a connection. -/
theorem receive_of_not_connected (h : s.link.connected = false) (bytes : Bytes) :
    s.receive bytes = ([], s) := by
  rw [receive, h]
  rfl

/-- What is received, and what it leaves behind. -/
theorem receive_of_connected (h : s.link.connected = true) (bytes : Bytes) :
    (s.receive bytes).1 = (Wire.nodeFrames (s.unread ++ bytes)).1 ∧
      ((s.receive bytes).2.link.connected = true ↔
        (Wire.nodeFrames (s.unread ++ bytes)).2.1 = .ended) ∧
      ((s.receive bytes).2.link.connected = true →
        (s.receive bytes).2.unread = (Wire.nodeFrames (s.unread ++ bytes)).2.2) := by
  rw [receive, if_neg (by simp [h])]
  dsimp only
  split_ifs with hended
  · exact ⟨rfl, iff_of_true h hended, fun _ => rfl⟩
  · have hclosed := Link.connected_hangUp (l := s.link)
    refine ⟨rfl, iff_of_false ?_ hended, fun hopen => ?_⟩
    · simpa [hangUp] using hclosed
    · simp [hangUp, hclosed] at hopen

end Server

namespace Miner
namespace Session

variable {s : Session}

/-- The dispatcher after the calls of a session, one after the other. -/
def called (s : Session) (calls : List Action) : Supervisor Jet.Registry :=
  calls.foldl (Supervisor.call s.outside) s.supervisor

/-- **The calls of a session are a run** with these calls and no others. By induction on them. -/
theorem ran_called (frames : List NodeFrame) : Ran s.supervisor.dispatcher
    (frames.filterMap NodeFrame.call?) (s.called (frames.filterMap NodeFrame.call?)).dispatcher := by
  rw [called]
  generalize s.supervisor = supervisor
  induction frames generalizing supervisor with
  | nil => exact .refl _
  | cons f frames ih =>
    cases h : f.call? with
    | none =>
      rw [List.filterMap_cons_none h]
      exact ih supervisor
    | some call =>
      rw [List.filterMap_cons_some h, List.foldl_cons]
      -- a delivery and a change of the switch are possible at any time
      have hcall : Ran supervisor.dispatcher [call] (supervisor.call s.outside call).dispatcher := by
        cases NodeFrame.call?_eq_some_iff.1 h with
        | deliver | enable => exact Supervisor.ran_call rfl rfl
      exact hcall.trans (ih _)

/-- Passing on proofs does not end the connection either. -/
theorem connected_sendProofs :
    s.sendProofs.server.link.connected = s.server.link.connected := by
  have hfold (proofs : List MinedProof) (server : Server) :
      (proofs.foldl (fun server p => (server.send (.ofProof p)).2) server).link.connected =
        server.link.connected := by
    induction proofs generalizing server with
    | nil => rfl
    | cons p proofs ih => rw [List.foldl_cons, ih, Server.connected_send]
  exact hfold _ s.server

/-- Frames that are worked off call the dispatcher, and the connection stays. -/
theorem obey_all (frames : List NodeFrame) :
    (frames.foldl obey s).supervisor = s.called (frames.filterMap NodeFrame.call?) ∧
      (frames.foldl obey s).outside = s.outside ∧
      (frames.foldl obey s).server.link.connected = s.server.link.connected := by
  induction frames generalizing s with
  | nil => exact ⟨rfl, rfl, rfl⟩
  | cons f frames ih =>
    obtain ⟨hcalled, houtside, hconnected⟩ := ih (s := s.obey f)
    rw [List.foldl_cons, hcalled, houtside, hconnected]
    unfold obey
    cases h : Order.ofFrame? f with
    | some order =>
      rw [List.filterMap_cons_some (show f.call? = some order.action by rw [NodeFrame.call?, h]; rfl)]
      exact ⟨rfl, rfl, connected_sendProofs⟩
    | none =>
      rw [List.filterMap_cons_none (show f.call? = none by rw [NodeFrame.call?, h]; rfl)]
      exact ⟨rfl, rfl, rfl⟩

/-- The end of a connection is logged, and nothing else. -/
theorem noteEnd_eq (before : Bool) : ∃ log, s.noteEnd before = { s with log } := by
  rw [noteEnd]
  split_ifs
  · exact ⟨_, rfl⟩
  · exact ⟨s.log, rfl⟩

/-- What a portion of bytes does, but for the log. -/
theorem receive_eq (s : Session) (bytes : Bytes) : ∃ log,
    let after := (s.server.receive bytes).2
    let obeyed := (s.server.receive bytes).1.foldl obey s
    let server := { after with link := obeyed.server.link }
    s.receive bytes =
      { obeyed with server := if after.link.connected then server else server.hangUp, log } :=
  noteEnd_eq _

/-- Nothing that arrives without a connection has an effect. -/
theorem serve_of_not_connected (h : s.server.link.connected = false) (portions : List Bytes) :
    (s.serve portions).supervisor = s.supervisor ∧
      (s.serve portions).server.link.connected = false := by
  induction portions generalizing s with
  | nil => exact ⟨rfl, h⟩
  | cons bytes portions ih =>
    obtain ⟨log, hreceive⟩ := receive_eq s bytes
    rw [Server.receive_of_not_connected h] at hreceive
    dsimp only [List.foldl_nil] at hreceive
    rw [if_neg (by simp [h])] at hreceive
    rw [serve, List.foldl_cons, hreceive]
    exact ih Link.connected_hangUp

/-- A portion of bytes: the dispatcher gets the calls of the frames that it completes, and the
connection is over if a fault is found. -/
theorem receive_of_connected (h : s.server.link.connected = true) (bytes : Bytes) :
    let found := Wire.nodeFrames (s.server.unread ++ bytes)
    (s.receive bytes).supervisor = s.called (found.1.filterMap NodeFrame.call?) ∧
      (s.receive bytes).outside = s.outside ∧
      ((s.receive bytes).server.link.connected = true ↔ found.2.1 = .ended) ∧
      ((s.receive bytes).server.link.connected = true →
        (s.receive bytes).server.unread = found.2.2) := by
  obtain ⟨hframes, hconnected, hunread⟩ := Server.receive_of_connected h bytes
  obtain ⟨hcalled, houtside, hlink⟩ := obey_all (s := s) (s.server.receive bytes).1
  obtain ⟨log, hreceive⟩ := receive_eq s bytes
  dsimp only at hreceive ⊢
  rw [hreceive, ← hconnected, ← hframes]
  refine ⟨hcalled, houtside, ?_⟩
  dsimp only
  cases hopen : (s.server.receive bytes).2.link.connected with
  | true =>
    rw [if_pos rfl]
    exact ⟨iff_of_true (hlink.trans h) rfl, fun _ => hunread hopen⟩
  | false =>
    rw [if_neg Bool.false_ne_true]
    have hclosed (server : Server) : server.hangUp.link.connected = false := Link.connected_hangUp
    rw [hclosed]
    exact ⟨Iff.rfl, fun h => nomatch h⟩

/-- **The portions of a stream do what the stream does**, if no frame is waiting to be read. -/
theorem serve_of_connected (h : s.server.link.connected = true)
    (hunread : Wire.nodeFrames s.server.unread = ([], .ended, s.server.unread))
    (portions : List Bytes) :
    let found := Wire.nodeFrames (s.server.unread ++ portions.flatten)
    (s.serve portions).supervisor = s.called (found.1.filterMap NodeFrame.call?) ∧
      ((s.serve portions).server.link.connected = true ↔ found.2.1 = .ended) := by
  induction portions generalizing s with
  | nil =>
    dsimp only
    rw [List.flatten_nil, List.append_nil, hunread]
    exact ⟨rfl, iff_of_true h rfl⟩
  | cons bytes portions ih =>
    obtain ⟨hcalled, houtside, hconnected, hrest⟩ := receive_of_connected h bytes
    dsimp only at hcalled hconnected hrest ⊢
    rw [List.flatten_cons, ← List.append_assoc, Wire.nodeFrames_append, List.filterMap_append]
    have hcalls (calls : List Action) : (s.receive bytes).called calls =
        s.called ((Wire.nodeFrames (s.server.unread ++ bytes)).1.filterMap NodeFrame.call? ++
          calls) := by
      rw [called, hcalled, houtside, called, called, List.foldl_append]
    rw [serve, List.foldl_cons, ← hcalls]
    by_cases hended : (Wire.nodeFrames (s.server.unread ++ bytes)).2.1 = .ended
    · have hopen := hconnected.2 hended
      rw [← hrest hopen]
      refine ih hopen ?_
      obtain ⟨-, rest, hrun⟩ := Wire.parts_nodeFrames (s.server.unread ++ bytes)
      rw [hrest hopen, Wire.nodeFrames_of_error hrun, hended]
    · -- The connection is over, and what follows the fault is no frame.
      obtain ⟨hsupervisor, hclosed⟩ := serve_of_not_connected
        (Bool.eq_false_iff.2 fun hopen => hended (hconnected.1 hopen)) portions
      rw [Wire.nodeFrames_append_of_fault hended]
      rw [serve] at hsupervisor hclosed
      rw [hsupervisor, hclosed]
      exact ⟨rfl, iff_of_false Bool.false_ne_true hended⟩

/-- **A session calls the dispatcher as the stream of its node asks.** A stream has one beginning of
frames that goes as far as it can, in whatever portions it arrives. The calls are those that these
frames ask for, each once and in their order: the session makes them one after the other, and the
dispatcher comes through a run in which these calls stand and no others. No other frame has an effect on
the dispatcher or on the connection, and nothing that stands behind them has: the connection is over
exactly if there is a fault in the rest other than that it ends. -/
theorem calls_of_stream (s : Session) (hconnected : s.server.link.connected = true)
    (hunread : s.server.unread = []) (portions : List Bytes) :
    (∃ frames rest calls, Wire.Parts portions.flatten frames rest ∧ Asking frames calls) ∧
    ∀ frames rest calls, Wire.Parts portions.flatten frames rest → Asking frames calls →
      (Server.orders portions.flatten).map Order.action = calls ∧
      (s.serve portions).supervisor = s.called calls ∧
      Ran s.supervisor.dispatcher calls (s.serve portions).supervisor.dispatcher ∧
      ((s.serve portions).server.link.connected = true ↔
        (Wire.readNodeFrame.run rest).1 = .error .ended) := by
  obtain ⟨hparts, rest, hrun⟩ := Wire.parts_nodeFrames portions.flatten
  refine ⟨⟨_, _, _, hparts, NodeFrame.asking_iff.2 rfl⟩, ?_⟩
  rintro frames rest' calls hparts' hasking
  obtain ⟨rfl, rfl⟩ := Wire.nodeFrames_of_parts hparts'
  obtain rfl := NodeFrame.asking_iff.1 hasking
  have hempty : Wire.nodeFrames s.server.unread = ([], .ended, s.server.unread) := by
    rw [hunread]
    exact Wire.nodeFrames_of_error rfl
  have hserve := serve_of_connected hconnected hempty portions
  rw [hunread, List.nil_append] at hserve
  refine ⟨List.map_filterMap, hserve.1, ?_, ?_⟩
  · rw [hserve.1]
    exact ran_called _
  · rw [hserve.2, hrun]
    exact ⟨fun h => congrArg Except.error h, fun h => Except.error.inj h⟩

/-- Two frames that cannot be read between frames that turn mining off and on, in two portions, and
then a word that opens no frame. -/
theorem calls_of_stream_skipping :
    let s : Session := {
      server := (Server.new 1).connect
      supervisor := .new {} {}
      outside := { loader := none }
      log := [] }
    let frames : List NodeFrame := [.ofEnable false, ⟨.candidate, bytesOfText "[1]"⟩,
      ⟨.enable, bytesOfText "TRUE"⟩, ⟨.enable, bytesOfText " true\r\n"⟩]
    let stream := frames.flatMap NodeFrame.bytes ++ Wire.split 4 Wire.responseMagic.toNat
    let served := s.serve [stream.take 7, stream.drop 7]
    (s.server.link.connected = true ∧ s.server.unread = []) ∧
      served.supervisor = s.called [.enable false, .enable true] ∧
      Ran s.supervisor.dispatcher [.enable false, .enable true] served.supervisor.dispatcher ∧
      served.server.link.connected = false := by
  intro s frames stream served
  have hflatten : [stream.take 7, stream.drop 7].flatten = stream := by
    rw [List.flatten_cons, List.flatten_cons, List.flatten_nil, List.append_nil,
      List.take_append_drop]
  have hparts : Wire.Parts stream frames (Wire.split 4 Wire.responseMagic.toNat) := by
    refine ⟨rfl, ?_, fun f _ tail heq => ?_⟩
    · decide +kernel
    · have hlen := congrArg List.length heq
      rw [List.length_append, f.length_bytes, Wire.length_split] at hlen
      omega
  have hasking : Asking frames [.enable false, .enable true] := NodeFrame.asking_iff.2 (by cbv)
  obtain ⟨-, hcalled, hran, hconnected⟩ :=
    (calls_of_stream s rfl rfl [stream.take 7, stream.drop 7]).2 _ _ _ (hflatten ▸ hparts) hasking
  refine ⟨⟨rfl, rfl⟩, hcalled, hran, Bool.eq_false_iff.2 fun hopen => ?_⟩
  have hfault : (Wire.readNodeFrame.run (Wire.split 4 Wire.responseMagic.toNat)).1 =
      .error (.magic Wire.requestMagic Wire.responseMagic) := by decide
  rw [hconnected.1 hopen] at hfault
  cases hfault

end Session
end Miner
end ProofMiner
