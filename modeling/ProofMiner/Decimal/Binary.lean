/-
# Doubles as exact numbers

A finite double is `± mantissa * 2 ^ exponent`. Reading a decimal rounds to the nearest double;
cutting a double off gives the integer towards zero.
-/

namespace ProofMiner
namespace Decimal

/-- The parts of a finite double. -/
structure Binary where
  negative : Bool
  mantissa : Nat
  exponent : Int
  /-- The gap to the next double below is half the gap to the next one above. -/
  lowestOfBinade : Bool
  deriving DecidableEq, Repr

/-- The parts of a double, taken from its bits. -/
def Binary.ofFloat (x : Float) : Binary :=
  let bits := x.toBits.toNat
  let fraction : Nat := bits % (1 <<< 52)
  let exponent : Nat := (bits >>> 52) % (1 <<< 11)
  let negative := (bits >>> 63) % 2 == 1
  if exponent = 0 then ⟨negative, fraction, -1074, false⟩
  else ⟨negative, fraction + (1 <<< 52), exponent - 1075, fraction == 0 && 1 < exponent⟩

/-- `a / b` to the nearest integer, a half to the even neighbour. -/
def roundDiv (a b : Nat) : Nat :=
  let quotient := a / b
  let rest := 2 * (a % b)
  if rest < b || (rest == b && quotient % 2 == 0) then quotient else quotient + 1

/-- The integer part of a finite double. -/
def truncate (x : Float) : Int :=
  let b := Binary.ofFloat x
  let size := if 0 ≤ b.exponent then b.mantissa <<< b.exponent.toNat
    else b.mantissa >>> (-b.exponent).toNat
  if b.negative then -(size : Int) else size

/-- The integer part of a double, if 64 bits hold it. -/
def truncateInt64? (x : Float) : Option Int64 :=
  let n := truncate x
  if Int64.minValue.toInt ≤ n ∧ n ≤ Int64.maxValue.toInt then some (Int64.ofInt n) else none

/-- A finite double that is not negative, with one digit after the point. -/
def renderTenths (x : Float) : String :=
  let b := Binary.ofFloat x
  let tenths := if 0 ≤ b.exponent then (10 * b.mantissa) <<< b.exponent.toNat
    else roundDiv (10 * b.mantissa) (1 <<< (-b.exponent).toNat)
  s!"{tenths / 10}.{tenths % 10}"

/-- The double nearest to `digits * 10 ^ exponent`, or nothing if that is too large. -/
def toFloat? (digits : Nat) (exponent : Int) : Option Float :=
  if digits = 0 then some 0.0
  else
    let magnitude : Int := (toString digits).length + exponent
    if 310 < magnitude then none
    else if magnitude < -330 then some 0.0
    else
      let x := if 0 ≤ exponent then Float.ofScientific digits false exponent.toNat
        else Float.ofScientific digits true (-exponent).toNat
      if x.isInf then none else some x

end Decimal
end ProofMiner
