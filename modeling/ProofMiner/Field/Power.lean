/-
# Square and multiply

Powers of a multiplicative value, from the low bit of the exponent to the high one.
-/

namespace ProofMiner

variable {α : Type}

/-- `acc * base ^ e` for an exponent of at most `bits` bits. -/
def powerBits [Mul α] : (bits : Nat) → (base acc : α) → (e : Nat) → α
  | 0, _, acc, _ => acc
  | bits + 1, base, acc, e =>
    if e = 0 then acc
    else powerBits bits (base * base) (if e % 2 = 1 then acc * base else acc) (e / 2)

/-- `x ^ e`, with one squaring for each bit of `e`. -/
def power [One α] [Mul α] (x : α) (e : Nat) : α :=
  powerBits (e.log2 + 1) x 1 e

end ProofMiner
