/-
# Formats of the wire

A `Format` is a reader and a writer that agree on the bytes of every value: the writer appends them,
and the reader takes them, whatever stands behind them, and takes nothing else. Since it says what the
reader accepts, and not only that it takes back what was written, the bytes of the parts give those of
the whole: for a reader by `bind_run_eq_ok_iff`, from words (`run_readUInt32_iff`, `run_readUInt64_iff`) to
payloads (`format_payload`), and for a writer by `Writes.bind`.

Values that were written one after the other are read in order (`Format.read_written`), and a stream
that does not begin with the bytes of a value is refused (`Format.read_cases`).
-/

import Mathlib.Data.Int.Notation
import Mathlib.Data.List.Basic
import ProofMiner.Proofs.Readers
import ProofMiner.Wire.Frame

namespace ProofMiner
namespace Wire

/-! ### Readers -/

section Readers

variable {α β : Type} {read : Reader α} {stream rest : Bytes}

/-- A short stream is taken as a whole before the reader fails. -/
theorem run_take (n : ℕ) (stream : Bytes) : (take n).run stream =
    (if stream.length < n then .error .ended else .ok (stream.take n), stream.drop n) := by
  show (if stream.length < n then (throw .ended : Reader Bytes) else return stream.take n).run
    (stream.drop n) = _
  split <;> rfl

/-- The bytes in front are taken. -/
theorem run_take_iff {n : ℕ} {bytes : Bytes} :
    (take n).run stream = (.ok bytes, rest) ↔ bytes.length = n ∧ stream = bytes ++ rest := by
  rw [run_take]
  split
  next hlt =>
    refine ⟨nofun, ?_⟩
    rintro ⟨rfl, rfl⟩
    rw [List.length_append] at hlt
    omega
  next hle =>
    constructor
    · intro h
      cases h
      exact ⟨List.length_take_of_le (Nat.not_lt.1 hle), (List.take_append_drop n stream).symm⟩
    · rintro ⟨rfl, rfl⟩
      rw [List.take_left, List.drop_left]

/-- A word of 32 bits is what its four bytes spell, and no others spell it. -/
theorem run_readUInt32_iff {w : UInt32} :
    readUInt32.run stream = (.ok w, rest) ↔ stream = split 4 w.toNat ++ rest := by
  simp only [readUInt32, bind_run_eq_ok_iff, run_take_iff, pure_run_eq_ok_iff]
  constructor
  · rintro ⟨bytes, mid, ⟨hlen, rfl⟩, rfl, rfl⟩
    have hlt := join_lt bytes
    rw [hlen] at hlt
    rw [UInt32.toNat_ofNat_of_lt' hlt, ← hlen, split_join]
  · rintro rfl
    refine ⟨_, rest, ⟨length_split 4 w.toNat, rfl⟩, ?_, rfl⟩
    rw [join_split, Nat.mod_eq_of_lt w.toNat_lt, UInt32.ofNat_toNat]

/-- A word of 64 bits is what its eight bytes spell. -/
theorem run_readUInt64_iff {w : UInt64} :
    readUInt64.run stream = (.ok w, rest) ↔ stream = split 8 w.toNat ++ rest := by
  simp only [readUInt64, bind_run_eq_ok_iff, run_take_iff, pure_run_eq_ok_iff]
  constructor
  · rintro ⟨bytes, mid, ⟨hlen, rfl⟩, rfl, rfl⟩
    have hlt := join_lt bytes
    rw [hlen] at hlt
    rw [UInt64.toNat_ofNat_of_lt' hlt, ← hlen, split_join]
  · rintro rfl
    refine ⟨_, rest, ⟨length_split 8 w.toNat, rfl⟩, ?_, rfl⟩
    rw [join_split, Nat.mod_eq_of_lt w.toNat_lt, UInt64.ofNat_toNat]

end Readers

/-! ### Writers in sequence -/

/-- The writer appends these bytes to what was written to an outlet that is open. -/
def Writes (write : Writer Unit) (bytes : Bytes) : Prop :=
  ∀ written, write.run { written } = (.ok (), { written := written ++ bytes })

/-- What the simplest writers append. -/
theorem writes_pure : Writes (pure ()) [] := fun written => by
  rw [List.append_nil]
  rfl

theorem writes_put (bytes : Bytes) : Writes (put bytes) bytes := fun _ => rfl

theorem writes_uint32 (w : UInt32) : Writes (writeUInt32 w) (split 4 w.toNat) := writes_put _

theorem writes_uint64 (w : UInt64) : Writes (writeUInt64 w) (split 8 w.toNat) := writes_put _

/-- What the parts append follows each other. -/
theorem Writes.bind {write write' : Writer Unit} {bytes bytes' : Bytes} (h : Writes write bytes)
    (h' : Writes write' bytes') : Writes (do write; write') (bytes ++ bytes') := by
  intro written
  show ExceptT.bindCont (fun _ => write') (write.run { written }).1 (write.run { written }).2 = _
  rw [h written, ← List.append_assoc]
  exact h' (written ++ bytes)

/-! ### Formats -/

/-- A reader and a writer of the values that fit, with the same bytes for each. -/
structure Format {α : Type} (read : Reader α) (write : α → Writer Unit) (bytes : α → Bytes)
    (Fits : α → Prop) : Prop where
  run_iff : ∀ {stream x rest},
    read.run stream = (.ok x, rest) ↔ Fits x ∧ stream = bytes x ++ rest
  writes : ∀ {x}, Fits x → Writes (write x) (bytes x)

/-- The length of a payload fits into its word. -/
theorem toNat_ofNat_length {payload : Bytes} (h : payload.length ≤ payloadLimit) :
    (UInt32.ofNat payload.length).toNat = payload.length :=
  UInt32.toNat_ofNat_of_lt' (Nat.lt_of_le_of_lt h (by decide))

/-- **A payload stands behind its length**, and one that is too long is neither written nor read. -/
theorem format_payload : Format readPayload writePayload
    (fun payload => split 4 payload.length ++ payload) (·.length ≤ payloadLimit) where
  run_iff {stream payload rest} := by
    simp only [readPayload, bind_run_eq_ok_iff, run_readUInt32_iff, refuse_run_eq_ok_iff, run_take_iff]
    constructor
    · rintro ⟨w, mid, rfl, hlimit, hlen, rfl⟩
      rw [hlen, List.append_assoc]
      exact ⟨Nat.not_lt.1 hlimit, rfl⟩
    · rintro ⟨hlimit, rfl⟩
      have hword := toNat_ofNat_length hlimit
      refine ⟨_, payload ++ rest, ?_, ?_, hword.symm, rfl⟩
      · rw [hword, List.append_assoc]
      · rw [hword]
        exact Nat.not_lt.2 hlimit
  writes {payload} hlimit := by
    have h := (writes_uint32 (UInt32.ofNat payload.length)).bind (writes_put payload)
    rw [toNat_ofNat_length hlimit] at h
    rw [writePayload, if_neg (Nat.not_lt.2 hlimit)]
    exact h

/-- The values of `n` readings. -/
def readTimes {α : Type} (read : Reader α) : ℕ → Reader (List α)
  | 0 => return []
  | n + 1 => do
    let x ← read
    return x :: (← readTimes read n)

namespace Format

variable {α : Type} {read : Reader α} {write : α → Writer Unit} {bytes : α → Bytes}
  {Fits : α → Prop} (format : Format read write bytes Fits)
include format

/-- Values are written one after the other. -/
theorem writes_forM {xs : List α} (h : ∀ x ∈ xs, Fits x) :
    Writes (forM xs write) (xs.flatMap bytes) := by
  induction xs with
  | nil => exact writes_pure
  | cons x xs ih =>
    rw [List.forM_cons, List.flatMap_cons]
    exact (format.writes (h x List.mem_cons_self)).bind
      (ih fun y hy => h y (List.mem_cons_of_mem x hy))

/-- They are read in the same order, by induction on their number. -/
theorem run_readTimes {xs : List α} (h : ∀ x ∈ xs, Fits x) (rest : Bytes) :
    (readTimes read xs.length).run (xs.flatMap bytes ++ rest) = (.ok xs, rest) := by
  induction xs with
  | nil => rfl
  | cons x xs ih =>
    rw [List.length_cons, List.flatMap_cons, List.append_assoc, readTimes]
    simp only [bind_run_eq_ok_iff, pure_run_eq_ok_iff]
    exact ⟨x, _, format.run_iff.2 ⟨h x List.mem_cons_self, rfl⟩, xs, rest,
      ih fun y hy => h y (List.mem_cons_of_mem x hy), rfl, rfl⟩

/-- **Values that were written one after the other are read in order**, and what follows them stays
unread. -/
theorem read_written {xs : List α} (h : ∀ x ∈ xs, Fits x) (written rest : Bytes) :
    ∃ sent, (forM xs write).run { written } = (.ok (), { written := written ++ sent }) ∧
      (readTimes read xs.length).run (sent ++ rest) = (.ok xs, rest) :=
  ⟨xs.flatMap bytes, format.writes_forM h written, format.run_readTimes h rest⟩

/-- **What becomes of reading a stream**: it begins with the bytes of a value, or there is a fault. -/
theorem read_cases (stream : Bytes) :
    (∃ x rest, Fits x ∧ stream = bytes x ++ rest ∧ read.run stream = (.ok x, rest)) ∨
      (∀ x rest, Fits x → stream ≠ bytes x ++ rest) ∧
        ∃ fault rest, read.run stream = (.error fault, rest) := by
  rcases h : read.run stream with ⟨fault | x, rest⟩
  · refine .inr ⟨fun x rest' hx heq => ?_, fault, rest, rfl⟩
    have hok := format.run_iff.2 ⟨hx, heq⟩
    rw [h] at hok
    cases hok
  · obtain ⟨hx, heq⟩ := format.run_iff.1 h
    exact .inl ⟨x, rest, hx, heq, rfl⟩

end Format
end Wire
end ProofMiner
