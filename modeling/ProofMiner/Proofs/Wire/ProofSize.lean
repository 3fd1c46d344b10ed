/-
# Which proofs fit into a frame

A proof is sent as JSON, so an element of its body takes up to twenty digits and a comma. The payload of
a proof without payout splits has 89 bytes, the digits of its four numbers and the texts of its digest
and of its body (`length_payload`); a list of elements takes their digits, the brackets and a comma
between two of them (`utf8Len_ofElements`). Since these lengths are exact, so is the bound on the body
up to which every proof fits (`bodyLimit`): elements with twenty digits, in a proof with the widest
numbers, reach it (`payloadSize_widest`).

That bound lies between the traces of 2 ^ 19 rows, which always fit (`traces_delivered_iff`), and those
of 2 ^ 20 rows, which the program accepts as well (`longestTrace_refused`).
-/

import ProofMiner.Proofs.Json.RoundTrip
import ProofMiner.Proofs.Wire.Refusals
import ProofMiner.Prover.Stark

namespace ProofMiner

/-! ### Bytes of a text -/

/-- The library lists the bytes of an array in a loop. -/
theorem length_loop (bytes : ByteArray) (i : ℕ) (read : Bytes) :
    (ByteArray.toList.loop bytes i read).length = read.length + (bytes.size - i) := by
  fun_induction ByteArray.toList.loop bytes i read with
  | case1 i read hlt ih =>
    rw [ih, List.length_cons]
    omega
  | case2 i read hge =>
    rw [List.length_reverse]
    omega

/-- A text has as many bytes as its encoding. -/
theorem length_bytesOfText (text : String) :
    (bytesOfText text).length = String.utf8Len text.toList := by
  rw [bytesOfText, ByteArray.toList, length_loop, String.toUTF8_eq_toByteArray,
    String.size_toByteArray, ← String.utf8ByteSize_ofList, String.ofList_toList]
  exact Nat.zero_add _

/-- How many digits a number has. -/
def digitCount (n : ℕ) : ℕ := (Nat.toDigits 10 n).length

/-- The digits of a number say how large it is. -/
theorem digitCount_le {n k : ℕ} (hk : 0 < k) : digitCount n ≤ k ↔ n < 10 ^ k :=
  Nat.length_toDigits_le_iff (by decide) hk

/-- A word of 64 bits has at most 20 of them. -/
theorem digitCount_toNat_le (n : UInt64) : digitCount n.toNat ≤ 20 :=
  (digitCount_le (by decide)).2 (Nat.lt_trans n.toNat_lt (by decide))

/-- A digit takes one byte. -/
theorem utf8Len_of_isDigit {cs : List Char} (h : ∀ c ∈ cs, c.isDigit) :
    String.utf8Len cs = cs.length := by
  induction cs with
  | nil => rfl
  | cons c cs ih =>
    have hsize : c.utf8Size = 1 := by
      have hc := h c List.mem_cons_self
      rw [Char.isDigit, Bool.and_eq_true, decide_eq_true_iff, decide_eq_true_iff] at hc
      exact Char.utf8Size_eq_one_iff.2 (UInt32.le_trans hc.2 (by decide))
    rw [String.utf8Len_cons, ih fun d hd => h d (List.mem_cons_of_mem c hd), hsize,
      List.length_cons]

namespace Json

/-- A number takes a byte for each of its digits. -/
theorem utf8Len_unsigned (n : UInt64) : String.utf8Len (chars (.unsigned n)) = digitCount n.toNat := by
  rw [chars, Nat.toString_eq_repr, Nat.toList_repr]
  exact utf8Len_of_isDigit fun c hc => Nat.isDigit_of_mem_toDigits (by decide) (by decide) hc

end Json

namespace Record

/-- How many digits elements have together. -/
def digitsOf : List Goldilocks → ℕ
  | [] => 0
  | x :: xs => digitCount x.toNat + digitsOf xs

/-- The printed length of an element, of elements with commas between them, and of their list. -/
theorem utf8Len_element (x : Goldilocks) :
    String.utf8Len (Json.chars (.unsigned x.val)) = digitCount x.toNat :=
  Json.utf8Len_unsigned x.val

theorem utf8Len_items (xs : List Goldilocks) :
    String.utf8Len (Json.charsItems (xs.map fun x => .unsigned x.val)) =
      digitsOf xs + xs.length := by
  induction xs with
  | nil => rfl
  | cons x xs ih =>
    rw [List.map_cons, Json.charsItems, List.cons_append, String.utf8Len_cons,
      String.utf8Len_append, utf8Len_element, ih, digitsOf, List.length_cons]
    have hcomma : ','.utf8Size = 1 := by decide
    omega

/-- Elements take their digits, the brackets and a comma between two of them. -/
def textSize (xs : List Goldilocks) : ℕ := 2 + digitsOf xs + (xs.length - 1)

theorem utf8Len_ofElements (xs : List Goldilocks) :
    String.utf8Len (Json.chars (ofElements xs)) = textSize xs := by
  cases xs with
  | nil => rfl
  | cons x xs =>
    rw [ofElements, List.map_cons, Json.chars, List.cons_append, List.cons_append,
      String.utf8Len_cons, String.utf8Len_append, String.utf8Len_append, utf8Len_element,
      utf8Len_items, textSize, digitsOf, List.length_cons]
    have hopen : '['.utf8Size = 1 := by decide
    have hclose : String.utf8Len [']'] = 1 := by decide
    omega

/-- The widest elements bound the length of a list. -/
theorem digitsOf_le (xs : List Goldilocks) : digitsOf xs ≤ 20 * xs.length := by
  induction xs with
  | nil => exact Nat.le_refl 0
  | cons x xs ih =>
    have hx : digitCount x.toNat ≤ 20 := digitCount_toNat_le x.val
    rw [digitsOf, List.length_cons]
    omega

theorem textSize_le (xs : List Goldilocks) : textSize xs ≤ 2 + 21 * xs.length := by
  have hdigits := digitsOf_le xs
  rw [textSize]
  omega

/-- The greatest element has twenty digits. -/
theorem digitsOf_replicate (n : ℕ) : digitsOf (List.replicate n (-1)) = 20 * n := by
  induction n with
  | zero => rfl
  | succ n ih =>
    have hwidest : digitCount (-1 : Goldilocks).toNat = 20 := by cbv
    rw [List.replicate_succ, digitsOf, ih, hwidest]
    omega

/-- A list of the widest elements reaches the bound. -/
theorem textSize_replicate {n : ℕ} (hn : 0 < n) :
    textSize (List.replicate n (-1)) = 1 + 21 * n := by
  rw [textSize, digitsOf_replicate, List.length_replicate]
  omega

end Record

namespace Wire

/-- The frame is written as a whole to an outlet that is open, and read back. -/
def Delivered (f : MinerFrame) : Prop := ∀ written rest,
  (writeMinerFrame f).run { written } = (.ok (), { written := written ++ f.bytes }) ∧
    readMinerFrame.run (f.bytes ++ rest) = (.ok f, rest)

/-- A frame is delivered if its payload is within the limit. -/
theorem delivered_iff {f : MinerFrame} : Delivered f ↔ f.payload.length ≤ payloadLimit := by
  constructor
  · intro h
    exact (format_minerFrame.run_iff.1 (h [] []).2).1
  · intro hfits written rest
    exact ⟨format_minerFrame.writes hfits written, format_minerFrame.run_iff.2 ⟨hfits, rfl⟩⟩

end Wire

namespace MinedProof

variable {p : MinedProof}

/-- The bytes of the payload that sends a proof without payout splits. -/
def payloadSize (p : MinedProof) : ℕ :=
  89 + digitCount p.candidateId.toNat + digitCount p.nonce.toNat + digitCount p.generation.toNat +
    digitCount p.workerId.toNat + Record.textSize p.digest.toList + Record.textSize p.body

/-- **The exact length of a proof without payouts.** -/
theorem length_payload (h : p.payouts = []) :
    (MinerFrame.ofProof p).payload.length = p.payloadSize := by
  have hid : String.utf8Len (Json.quoted "candidate_id") = 14 := by cbv
  have hdigest : String.utf8Len (Json.quoted "digest") = 8 := by cbv
  have hgeneration : String.utf8Len (Json.quoted "generation") = 12 := by cbv
  have hkeys : String.utf8Len (Json.quoted "mining_keys") = 13 := by cbv
  have hnonce : String.utf8Len (Json.quoted "nonce") = 7 := by cbv
  have hproof : String.utf8Len (Json.quoted "proof") = 7 := by cbv
  have hworker : String.utf8Len (Json.quoted "worker_id") = 11 := by cbv
  have hsigns : '\x7b'.utf8Size = 1 ∧ ':'.utf8Size = 1 ∧ ','.utf8Size = 1 := by decide
  have hclose : '\x7d'.utf8Size = 1 ∧ String.utf8Len [] = 0 := by decide
  have hnone : String.utf8Len (Json.chars (.array [])) = 2 := by decide
  rw [MinerFrame.ofProof, length_bytesOfText, render, Json.toList_render, toJson, h, Json.chars,
    payloadSize]
  simp only [List.map_nil, Json.charsMembers, List.cons_append, List.append_assoc, List.append_nil,
    String.utf8Len_cons, String.utf8Len_append, Json.utf8Len_unsigned, Record.utf8Len_ofElements,
    UInt32.toNat_toUInt64]
  omega

/-! ### The longest body -/

/-- The most elements that a body can have so that a proof fits whatever they are. -/
def bodyLimit : ℕ := 798903

/-- The length of a proof grows by 21 bytes an element at most. -/
theorem payloadSize_le (p : MinedProof) : p.payloadSize ≤ 247 + 21 * p.body.length := by
  have hid := digitCount_toNat_le p.candidateId
  have hnonce := digitCount_toNat_le p.nonce
  have hgeneration := digitCount_toNat_le p.generation
  have hworker : digitCount p.workerId.toNat ≤ 10 :=
    (digitCount_le (by decide)).2 (Nat.lt_trans p.workerId.toNat_lt (by decide))
  have hdigest := Record.textSize_le p.digest.toList
  have hbody := Record.textSize_le p.body
  rw [Vector.length_toList] at hdigest
  rw [payloadSize]
  omega

/-- The longest proof with so many elements. -/
def widest (n : ℕ) : MinedProof where
  candidateId := -1
  nonce := -1
  workerId := -1
  generation := -1
  digest := Vector.replicate 4 (-1)
  body := List.replicate n (-1)

/-- It grows by as many for the widest elements. -/
theorem payloadSize_widest {n : ℕ} (hn : 0 < n) : (widest n).payloadSize = 245 + 21 * n := by
  have hnumber : digitCount (-1 : UInt64).toNat = 20 := by cbv
  have hworker : digitCount (-1 : UInt32).toNat = 10 := by cbv
  have hdigest := Record.textSize_replicate (n := 4) (by decide)
  have hbody := Record.textSize_replicate hn
  rw [payloadSize]
  simp only [widest, Vector.toList_replicate]
  omega

theorem delivered_iff (h : p.payouts = []) :
    Wire.Delivered (.ofProof p) ↔ p.payloadSize ≤ Wire.payloadLimit := by
  rw [Wire.delivered_iff, length_payload h]

/-- A proof beyond the limit is refused after its header. -/
theorem refuses_of_lt (h : p.payouts = []) (hsize : Wire.payloadLimit < p.payloadSize) :
    Wire.Refuses (Wire.writeMinerFrame (.ofProof p)) (MinerFrame.ofProof p).header
      (.payloadLength p.payloadSize) := by
  rw [← length_payload h] at hsize ⊢
  exact Wire.refuses_minerFrame hsize

/-- Bodies up to a length fit, whatever is in them, if and only if the length is within the bound. -/
theorem all_delivered_iff (n : ℕ) :
    (∀ p : MinedProof, p.payouts = [] → p.body.length ≤ n → Wire.Delivered (.ofProof p)) ↔
      n ≤ bodyLimit := by
  have hlimit : Wire.payloadLimit = 16777216 := by decide
  constructor
  · intro h
    by_contra hlong
    have hn : bodyLimit < n := Nat.not_le.1 hlong
    have hfits := (delivered_iff rfl).1 (h (widest n) rfl (Nat.le_of_eq List.length_replicate))
    rw [payloadSize_widest (Nat.zero_lt_of_lt hn), hlimit] at hfits
    rw [bodyLimit] at hn
    omega
  · intro hn p hkeys hbody
    have hsize := payloadSize_le p
    rw [bodyLimit] at hn
    rw [delivered_iff hkeys, hlimit]
    omega

/-- The bodies of traces with `2 ^ k` rows fit if and only if `k` is at most 19. -/
theorem traces_delivered_iff (k : ℕ) :
    (∀ p : MinedProof, p.payouts = [] → p.body.length ≤ 2 ^ k → Wire.Delivered (.ofProof p)) ↔
      k ≤ 19 := by
  rw [all_delivered_iff]
  constructor
  · intro h
    by_contra hk
    have hlong : 2 ^ 20 ≤ 2 ^ k := Nat.pow_le_pow_right (by decide) (by omega)
    rw [bodyLimit] at h
    omega
  · intro hk
    exact Nat.le_trans (Nat.pow_le_pow_right (by decide) hk) (by decide)

/-- **A proof without payout splits is delivered if and only if its text is within the limit**, as it
is whenever the body has at most `bodyLimit` elements. Otherwise it is refused. -/
theorem delivered_iff_within_limit (p : MinedProof) (hkeys : p.payouts = []) :
    (MinerFrame.ofProof p).payload.length = p.payloadSize ∧
    (Wire.Delivered (.ofProof p) ↔ p.payloadSize ≤ Wire.payloadLimit) ∧
    (p.body.length ≤ bodyLimit → Wire.Delivered (.ofProof p)) ∧
    (Wire.payloadLimit < p.payloadSize → Wire.Refuses (Wire.writeMinerFrame (.ofProof p))
      (MinerFrame.ofProof p).header (.payloadLength p.payloadSize)) :=
  ⟨length_payload hkeys, delivered_iff hkeys,
    (all_delivered_iff bodyLimit).2 (Nat.le_refl _) p hkeys, refuses_of_lt hkeys⟩

theorem delivered_iff_within_limit_short :
    let p : MinedProof := { candidateId := 7, body := [1, -1] }
    p.payouts = [] ∧ p.body.length ≤ bodyLimit ∧ p.payloadSize = 126 ∧
    (MinerFrame.ofProof p).payload.length = 126 ∧ Wire.Delivered (.ofProof p) := by
  intro p
  have hsize : p.payloadSize = 126 := by cbv
  have hshort : p.body.length ≤ bodyLimit := by decide
  obtain ⟨hlength, -, hdelivered, -⟩ := delivered_iff_within_limit p rfl
  exact ⟨rfl, hshort, hsize, hlength.trans hsize, hdelivered hshort⟩

/-- A proof of the longest trace, all elements of which have twenty digits, is refused. -/
theorem longestTrace_refused :
    let p : MinedProof :=
      { candidateId := 1, body := List.replicate (2 ^ Stark.maxLog2TraceLength) (-1) }
    p.payouts = [] ∧ p.body.length = 2 ^ Stark.maxLog2TraceLength ∧
    (Wire.writeMinerFrame (.ofProof p)).run {} = (.error (.payloadLength 22020199),
      { written := [0x52, 0x50, 0x4b, 0x5a, 0, 0, 0, 0, 1, 0, 0, 0, 0, 0, 0, 0] }) ∧
    ¬ Wire.Delivered (.ofProof p) := by
  intro p
  have hlimit : Wire.payloadLimit = 16777216 := by decide
  have hsize : p.payloadSize = 22020199 := by
    have hnumbers : digitCount (1 : UInt64).toNat = 1 ∧ digitCount (0 : UInt64).toNat = 1 ∧
        digitCount (0 : UInt32).toNat = 1 := by cbv
    have hdigest : Record.textSize (Vector.replicate 4 (0 : Goldilocks)).toList = 9 := by cbv
    have hbody := Record.textSize_replicate (n := 2 ^ Stark.maxLog2TraceLength) (by decide)
    rw [payloadSize]
    simp only [p, hnumbers, hdigest, hbody]
    decide
  have hheader : (MinerFrame.ofProof p).header =
      [0x52, 0x50, 0x4b, 0x5a, 0, 0, 0, 0, 1, 0, 0, 0, 0, 0, 0, 0] := by
    rw [MinerFrame.header, MinerFrame.ofProof]
    decide
  have hrun := refuses_of_lt (p := p) rfl (by rw [hsize, hlimit]; decide) []
  rw [hsize, List.nil_append, hheader] at hrun
  refine ⟨rfl, List.length_replicate, hrun, fun h => ?_⟩
  have hfits := (delivered_iff rfl).1 h
  rw [hsize, hlimit] at hfits
  exact absurd hfits (by decide)

end MinedProof
end ProofMiner
