/-
# Numbers of a fixed type

Lenient readings of a JSON value as a number of a fixed type.

* integers wrap to the width of the type;
* doubles lose their fraction; one that a 64-bit integer cannot hold gives a fixed value;
* `true` and `false` are 1 and 0 for the types of 32 bits, and no number for the others.

Booleans, texts and lists of texts are read as what they are only.
-/

import ProofMiner.Decimal.Binary
import ProofMiner.Json.Value

namespace ProofMiner
namespace Json

/-- The integer part of a double as a signed number; the least one if it does not fit. -/
def int32OfFloat (x : Float) : Int32 :=
  let n := Decimal.truncate x
  if Int32.minValue.toInt ≤ n ∧ n ≤ Int32.maxValue.toInt then Int32.ofInt n else Int32.minValue

/-- The integer part of a double, cut to 32 bits; 0 if 64 bits do not hold it. -/
def uint32OfFloat (x : Float) : UInt32 :=
  ((Decimal.truncateInt64? x).map fun n => n.toUInt64.toUInt32).getD 0

/-- The integer part of a double as a 64-bit word, negative ones wrapped; 0 if it is too large
and `2 ^ 63` if it is too small. -/
def wordOfFloat (x : Float) : UInt64 :=
  let n := Decimal.truncate x
  if n < Int64.minValue.toInt then Int64.minValue.toUInt64
  else if n < UInt64.size then UInt64.ofInt n
  else 0

/-- A signed number of 32 bits. -/
def toInt32? : Json → Option Int32
  | .unsigned n => some (Int32.ofInt n.toNat)
  | .signed n => some (Int32.ofInt n.toInt)
  | .float x => some (int32OfFloat x)
  | .bool b => some (if b then 1 else 0)
  | _ => none

/-- A number of 32 bits. -/
def toUInt32? : Json → Option UInt32
  | .unsigned n => some n.toUInt32
  | .signed n => some n.toUInt64.toUInt32
  | .float x => some (uint32OfFloat x)
  | .bool b => some (if b then 1 else 0)
  | _ => none

/-- A number of 64 bits. -/
def toWord? : Json → Option UInt64
  | .unsigned n => some n
  | .signed n => some n.toUInt64
  | .float x => some (wordOfFloat x)
  | _ => none

/-- A double. -/
def toFloat? : Json → Option Float
  | .unsigned n => some n.toFloat
  | .signed n => some n.toFloat
  | .float x => some x
  | _ => none

/-- The truth value, if it is one. -/
def bool? : Json → Option Bool
  | .bool b => some b
  | _ => none

/-- The texts of an array that holds nothing else. -/
def strings? : Json → Option (List String)
  | .array items => items.mapM string?
  | _ => none

end Json
end ProofMiner
