/-
# The Goldilocks field

The prime field of order `p = 2^64 - 2^32 + 1`. An element is a 64-bit word below `p`, so every
value has exactly one representation.

* sums and differences wrap around modulo `2^64` and are corrected by one multiple of `p`;
* products go through 128 bits;
* an inverse is the power `p - 2`, and a whole list is inverted with a single inversion.
-/

import ProofMiner.Fault
import ProofMiner.Field.Power
import ProofMiner.Field.PowerOfTwo

namespace ProofMiner

/-- The order of the field, `2^64 - 2^32 + 1`. -/
def modulus : UInt64 := 18446744069414584321

/-- An element of the field by its canonical representative. -/
structure Goldilocks where
  /-- The representative. -/
  val : UInt64
  /-- It is below the modulus. -/
  isLt : val < modulus
  deriving DecidableEq

namespace Goldilocks

/-- The class of a word. -/
def ofWord (w : UInt64) : Goldilocks :=
  ⟨w % modulus, UInt64.mod_lt w (by decide)⟩

/-- The class of a number below `2^64`. -/
def ofNat (n : Nat) : Goldilocks := ofWord (UInt64.ofNat n)

/-- The representative as a number. -/
def toNat (a : Goldilocks) : Nat := a.val.toNat

/-- An element is less than the modulus. -/
theorem toNat_lt (a : Goldilocks) : a.toNat < modulus.toNat :=
  UInt64.lt_iff_toNat_lt.1 a.isLt

@[ext] theorem ext {a b : Goldilocks} (h : a.val = b.val) : a = b := by
  cases a; cases b; cases h; rfl

/-- Words that are residues already are kept as they are. -/
theorem ofWord_val (a : Goldilocks) : ofWord a.val = a := by
  apply ext
  exact UInt64.toNat_inj.1 (by
    rw [ofWord, UInt64.toNat_mod]
    exact Nat.mod_eq_of_lt a.toNat_lt)

instance : Zero Goldilocks := ⟨ofWord 0⟩
instance : One Goldilocks := ⟨ofWord 1⟩
instance : Inhabited Goldilocks := ⟨0⟩
instance : Repr Goldilocks := ⟨fun a _ => repr a.val⟩

/-- The word sum, less `p` if it left the word or reached `p`. -/
def add (a b : Goldilocks) : Goldilocks :=
  let sum := a.val + b.val
  if sum < a.val || modulus ≤ sum then ofWord (sum - modulus) else ofWord sum

/-- The word difference, plus `p` if it went below zero. -/
def sub (a b : Goldilocks) : Goldilocks :=
  let difference := a.val - b.val
  if a.val < b.val then ofWord (difference + modulus) else ofWord difference

/-- Zero stays, everything else is taken from `p`. -/
def neg (a : Goldilocks) : Goldilocks :=
  if a.val = 0 then a else ofWord (modulus - a.val)

/-- The 128-bit product, reduced. -/
def mul (a b : Goldilocks) : Goldilocks :=
  ofNat (a.toNat * b.toNat % modulus.toNat)

instance : Add Goldilocks := ⟨add⟩
instance : Sub Goldilocks := ⟨sub⟩
instance : Neg Goldilocks := ⟨neg⟩
instance : Mul Goldilocks := ⟨mul⟩
instance : Pow Goldilocks Nat := ⟨power⟩

/-- The power `p - 2`: the inverse of every element but zero, which it leaves as it is. -/
def inv (a : Goldilocks) : Goldilocks := a ^ (modulus.toNat - 2)

instance : Inv Goldilocks := ⟨inv⟩

/-- The inverse of an element other than zero. -/
def inverse (a : Goldilocks) : Except Fault Goldilocks :=
  if a = 0 then .error .invertZero else .ok a⁻¹

/-- The quotient by an element other than zero. -/
def div (a b : Goldilocks) : Except Fault Goldilocks := do
  return a * (← b.inverse)

/-- Order of the canonical representatives. -/
def lt (a b : Goldilocks) : Bool := a.val < b.val

/-- The first `n` powers of `r`, from `r ^ 0`, each from the one before. -/
def powers (r : Goldilocks) (n : Nat) : Array Goldilocks :=
  (n.fold (fun _ _ (table, w) => (table.push w, w * r)) (#[], 1)).1

/-- For each element the product of those before it (times `acc`), and the product of all. -/
def prefixProducts : (acc : Goldilocks) → List Goldilocks → List Goldilocks × Goldilocks
  | acc, [] => ([], acc)
  | acc, x :: xs =>
    let (before, all) := prefixProducts (acc * x) xs
    (acc :: before, all)

/-- The inverse of every element of a list without zeros. Only the product of the whole list is
inverted: going back to front, the inverse of a product of `i + 1` elements times the product of
the first `i` is the inverse of the last one. -/
def batchInverse (xs : List Goldilocks) : Except Fault (List Goldilocks) :=
  if xs.contains 0 then .error .invertBatchWithZero
  else
    let (before, all) := prefixProducts 1 xs
    let step := fun (x, product) (inverses, inverse) =>
      ((product * inverse) :: inverses, inverse * x)
    .ok ((xs.zip before).foldr step ([], all⁻¹)).1

/-- `7` generates the whole multiplicative group. -/
def generator : Goldilocks := ofWord 7

/-- `2 ^ 32` is the largest power of two that divides `p - 1`. -/
def twoAdicity : Nat := 32

/-- An element of order `2 ^ k`: the generator to the power `(p - 1) / 2 ^ k`. -/
def rootOfUnity (k : Nat) : Except Fault Goldilocks :=
  if twoAdicity < k then .error (.log2TooLarge k)
  else .ok (generator ^ ((modulus.toNat - 1) >>> k))

/-- The generator of the subgroup of the given order, which has to be a power of two that
divides `p - 1`. -/
def orderedRoot (order : Nat) : Except Fault Goldilocks :=
  if !isPowerOfTwo order then .error (.noSubgroup order)
  else match log2Exact? order with
    | none => .error (.orderTooLarge order)
    | some k => if twoAdicity < k then .error (.orderTooLarge order) else rootOfUnity k

/-- The decimal text of the representative. -/
def render (a : Goldilocks) : String := toString a.val.toNat

end Goldilocks
end ProofMiner
