/-
# Bytes on the wire

Words travel least significant byte first. A reader takes its bytes from the front of what has
arrived; a read that finds too few bytes fails and has taken what there was. A writer appends to
what the other side will read, unless that side is gone.
-/

namespace ProofMiner

/-- A byte string. -/
abbrev Bytes := List UInt8

namespace Wire

/-- The `width` bytes of a number, the lowest first. Higher bytes are lost. -/
def split : Nat → Nat → Bytes
  | 0, _ => []
  | width + 1, n => UInt8.ofNat (n % 256) :: split width (n / 256)

/-- The number with the given bytes. -/
def join : Bytes → Nat
  | [] => 0
  | b :: rest => b.toNat + 256 * join rest

/-- A word of a given width has as many bytes. -/
theorem length_split (width n : Nat) : (split width n).length = width := by
  induction width generalizing n with
  | zero => rfl
  | succ width ih => simp [split, ih]

/-- Bytes that are split off are joined again, as far as the width goes. -/
theorem join_split (width n : Nat) : join (split width n) = n % Nat.pow 256 width := by
  induction width generalizing n with
  | zero => simp [split, join, Nat.mod_one]
  | succ width ih =>
    have low : n % 256 % 2 ^ 8 = n % 256 := Nat.mod_eq_of_lt (Nat.mod_lt _ (by decide))
    rw [split, join, ih, UInt8.toNat_ofNat', low, Nat.pow_eq, Nat.pow_eq, Nat.pow_succ',
      Nat.mod_mul]

/-- Bytes spell no number beyond their width. -/
theorem join_lt (bytes : Bytes) : join bytes < Nat.pow 256 bytes.length := by
  induction bytes with
  | nil => decide
  | cons b rest ih =>
    have hb : b.toNat < 256 := b.toNat_lt
    rw [join, List.length_cons, Nat.pow_eq, Nat.pow_succ]
    rw [Nat.pow_eq] at ih
    omega

/-- A number is spelled by no other bytes of that width. -/
theorem split_join (bytes : Bytes) : split bytes.length (join bytes) = bytes := by
  induction bytes with
  | nil => rfl
  | cons b rest ih =>
    have hb : b.toNat < 256 := b.toNat_lt
    have low : (b.toNat + 256 * join rest) % 256 = b.toNat := by omega
    have high : (b.toNat + 256 * join rest) / 256 = join rest := by omega
    rw [List.length_cons, join, split, low, high, ih, UInt8.ofNat_toNat]

/-! ## Reading -/

/-- Why a read failed. -/
inductive ReadFault where
  /-- The stream ended too early. -/
  | ended
  /-- A frame begins with another word than the one for its direction. -/
  | magic (expected found : UInt32)
  | version (found : UInt32)
  | messageKind (found : UInt32)
  | responseKind (found : UInt32)
  /-- The length of a payload is above the limit. -/
  | payloadLength (length : UInt32)
  deriving DecidableEq, Repr, Inhabited

/-- A computation that takes bytes from the front of a stream. -/
abbrev Reader := ExceptT ReadFault (StateM Bytes)

/-- The next `n` bytes. -/
def take (n : Nat) : Reader Bytes := do
  let stream ← get
  set (stream.drop n)
  if stream.length < n then throw .ended else return stream.take n

/-- A word of 32 bits. -/
def readUInt32 : Reader UInt32 := do return UInt32.ofNat (join (← take 4))

/-- A word of 64 bits. -/
def readUInt64 : Reader UInt64 := do return UInt64.ofNat (join (← take 8))

/-! ## Writing -/

/-- The writing end of a stream. -/
structure Outlet where
  /-- The other side takes no more bytes. -/
  closed : Bool := false
  /-- What was written so far. -/
  written : Bytes := []
  deriving DecidableEq, Repr, Inhabited

/-- Why a write failed. -/
inductive WriteFault where
  | closed
  /-- The payload is above the limit. -/
  | payloadLength (length : Nat)
  deriving DecidableEq, Repr, Inhabited

/-- A computation that appends bytes to a stream. -/
abbrev Writer := ExceptT WriteFault (StateM Outlet)

/-- Appends bytes. To write nothing never fails. -/
def put (bytes : Bytes) : Writer Unit := do
  let outlet ← get
  if outlet.closed && !bytes.isEmpty then throw .closed
  set { outlet with written := outlet.written ++ bytes }

/-- Four bytes, the lowest first. -/
def writeUInt32 (n : UInt32) : Writer Unit := put (split 4 n.toNat)

/-- Eight bytes, the lowest first. -/
def writeUInt64 (n : UInt64) : Writer Unit := put (split 8 n.toNat)

end Wire
end ProofMiner
