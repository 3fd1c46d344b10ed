/-
# Decimal numbers in texts

Strict readers: a text of digits only, and the integer that a text begins with.
-/

namespace ProofMiner
namespace Decimal

/-- The number written by a list of decimal digits. -/
def value (digits : List Char) : Nat :=
  digits.foldl (fun n d => 10 * n + (d.toNat - '0'.toNat)) 0

/-- Why a text is no 64-bit number. -/
inductive WordFault where
  /-- It is empty or holds something else than digits. -/
  | notDigits
  /-- Its value is `2 ^ 64` or more. -/
  | tooLarge
  deriving DecidableEq, Repr, Inhabited

/-- The 64-bit number of a text of decimal digits. -/
def word (text : List Char) : Except WordFault UInt64 :=
  if text.isEmpty || !text.all Char.isDigit then .error .notDigits
  else if value text < UInt64.size then .ok (UInt64.ofNat (value text))
  else .error .tooLarge

/-- Blanks that may stand before a number. -/
def isBlank (c : Char) : Bool :=
  c == ' ' || c == '\t' || c == '\n' || c == '\x0b' || c == '\x0c' || c == '\r'

/-- The integer that a text begins with, after blanks and a sign; what follows is not looked at,
and without digits it is 0. It is held within 64 bits and then cut to 32. -/
def leadingInt32 (text : List Char) : Int32 :=
  let text := text.dropWhile isBlank
  let (negative, text) := match text with
    | '-' :: rest => (true, rest)
    | '+' :: rest => (false, rest)
    | rest => (false, rest)
  let n : Int := value (text.takeWhile Char.isDigit)
  let n := if negative then max (-n) Int64.minValue.toInt else min n Int64.maxValue.toInt
  Int32.ofInt n

end Decimal
end ProofMiner
