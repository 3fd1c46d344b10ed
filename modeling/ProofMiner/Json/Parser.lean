/-
# Reading JSON

A strict reader: no comments, no trailing commas, no leading zeros, no raw control characters and
no lone surrogates in strings. Blanks may stand around every token, and one byte-order mark before
all of them. A NUL where the next token would begin is the end of the input: behind a complete value
it hides whatever follows it, anywhere else the text is cut off there.

Each reader takes the remaining characters and returns a value with what is left. The first fault
in text order wins: a number too large for a double is reported where it stands.
-/

import ProofMiner.Decimal.Binary
import ProofMiner.Decimal.Digits
import ProofMiner.Json.Value
import ProofMiner.Text.Hex

namespace ProofMiner
namespace Json

/-- The blanks that may stand between the parts of a text. -/
def isBlank (c : Char) : Bool := c == ' ' || c == '\t' || c == '\n' || c == '\r'

/-- What follows the blanks. -/
def skipBlanks (cs : List Char) : List Char := cs.dropWhile isBlank

/-- Four hexadecimal digits as a code unit. -/
def codeUnit? (a b c d : Char) : Option Nat := do
  return (← Text.hexValue? a) * 4096 + (← Text.hexValue? b) * 256 + (← Text.hexValue? c) * 16 +
    (← Text.hexValue? d)

/-- The character behind a backslash that stands for a single one. -/
def simpleEscape? (c : Char) : Option Char :=
  match c with
  | '"' => some '"'
  | '\\' => some '\\'
  | '/' => some '/'
  | 'b' => some '\x08'
  | 'f' => some '\x0c'
  | 'n' => some '\n'
  | 'r' => some '\r'
  | 't' => some '\t'
  | _ => none

/-- The first half of a pair of code units. -/
def isHighSurrogate (u : Nat) : Bool := 0xD800 ≤ u && u < 0xDC00
/-- The second half of a pair of code units. -/
def isLowSurrogate (u : Nat) : Bool := 0xDC00 ≤ u && u < 0xE000

/-- The rest of a string after its opening quote; `acc` holds what was read, last first. -/
def readString (acc : List Char) : List Char → Except Fault (String × List Char)
  | '"' :: rest => .ok (String.ofList acc.reverse, rest)
  | '\\' :: 'u' :: a :: b :: c :: d :: rest =>
    match codeUnit? a b c d with
    | none => .error .malformed
    | some u =>
      if isHighSurrogate u then
        match rest with
        | '\\' :: 'u' :: e :: f :: g :: h :: rest =>
          match codeUnit? e f g h with
          | some v =>
            if isLowSurrogate v then
              readString (Char.ofNat (0x10000 + (u - 0xD800) * 1024 + (v - 0xDC00)) :: acc) rest
            else .error .malformed
          | none => .error .malformed
        | _ => .error .malformed
      else if isLowSurrogate u then .error .malformed
      else readString (Char.ofNat u :: acc) rest
  | '\\' :: c :: rest =>
    match simpleEscape? c with
    | some c => readString (c :: acc) rest
    | none => .error .malformed
  | c :: rest =>
    if c.toNat < 0x20 || c == '\\' then .error .malformed else readString (c :: acc) rest
  | [] => .error .malformed

/-- The longest run of digits, and what is left. -/
def readDigits (cs : List Char) : List Char × List Char :=
  (cs.takeWhile Char.isDigit, cs.dropWhile Char.isDigit)

/-- A run of one digit or more. -/
def readSomeDigits (cs : List Char) : Except Fault (List Char × List Char) :=
  let (ds, rest) := readDigits cs
  if ds.isEmpty then .error .malformed else .ok (ds, rest)

/-- The digits before the point: a single zero, or digits that do not begin with one. -/
def readWhole (cs : List Char) : Except Fault (List Char × List Char) :=
  match cs with
  | '0' :: rest => .ok (['0'], rest)
  | cs => readSomeDigits cs

/-- The digits after the point, if there is a point. -/
def readFraction (cs : List Char) : Except Fault (Option (List Char) × List Char) :=
  match cs with
  | '.' :: rest => do
    let (ds, rest) ← readSomeDigits rest
    return (some ds, rest)
  | cs => .ok (none, cs)

/-- The exponent, if there is one. -/
def readExponent (cs : List Char) : Except Fault (Option Int × List Char) :=
  match cs with
  | c :: rest =>
    if c == 'e' || c == 'E' then
      let (negative, rest) := match rest with
        | '-' :: rest => (true, rest)
        | '+' :: rest => (false, rest)
        | rest => (false, rest)
      do
        let (ds, rest) ← readSomeDigits rest
        let size : Int := Decimal.value ds
        return (some (if negative then -size else size), rest)
    else .ok (none, c :: rest)
  | [] => .ok (none, [])

/-- The number with the given sign, digits and exponent. -/
def number (negative : Bool) (whole : List Char) (fraction : Option (List Char))
    (exponent : Option Int) : Except Fault Json :=
  let float (digits : Nat) (exponent : Int) : Except Fault Json :=
    match Decimal.toFloat? digits exponent with
    | some x => .ok (.float (if negative then -x else x))
    | none => .error .numberTooLarge
  match fraction, exponent with
  | none, none =>
    let n := Decimal.value whole
    if negative then
      if 2 * n ≤ UInt64.size then .ok (.signed (Int64.ofInt (-(n : Int)))) else float n 0
    else if n < UInt64.size then .ok (.unsigned (UInt64.ofNat n))
    else float n 0
  | _, _ =>
    let tail := fraction.getD []
    float (Decimal.value (whole ++ tail)) (exponent.getD 0 - tail.length)

/-- A number: a sign, the whole part, a fraction and an exponent, of which only the whole part must be
there. -/
def readNumber (cs : List Char) : Except Fault (Json × List Char) := do
  let (negative, cs) := match cs with
    | '-' :: rest => (true, rest)
    | cs => (false, cs)
  let (whole, cs) ← readWhole cs
  let (fraction, cs) ← readFraction cs
  let (exponent, cs) ← readExponent cs
  return (← number negative whole fraction exponent, cs)

mutual

/-- A value at the first character. The first argument bounds the nesting of calls. -/
def readValue : Nat → List Char → Except Fault (Json × List Char)
  | 0, _ => .error .malformed
  | fuel + 1, cs =>
    match cs with
    | 'n' :: 'u' :: 'l' :: 'l' :: rest => .ok (.null, rest)
    | 't' :: 'r' :: 'u' :: 'e' :: rest => .ok (.bool true, rest)
    | 'f' :: 'a' :: 'l' :: 's' :: 'e' :: rest => .ok (.bool false, rest)
    | '"' :: rest => do
      let (s, rest) ← readString [] rest
      return (.string s, rest)
    | '[' :: rest =>
      match skipBlanks rest with
      | ']' :: rest => .ok (.array [], rest)
      | rest => readItems fuel [] rest
    | '\x7b' :: rest =>
      match skipBlanks rest with
      | '\x7d' :: rest => .ok (.object [], rest)
      | rest => readMembers fuel [] rest
    | cs => readNumber cs

/-- The items of an array from the next one on; `acc` holds those before it, last first. -/
def readItems : Nat → List Json → List Char → Except Fault (Json × List Char)
  | 0, _, _ => .error .malformed
  | fuel + 1, acc, cs => do
    let (v, rest) ← readValue fuel cs
    match skipBlanks rest with
    | ',' :: rest => readItems fuel (v :: acc) (skipBlanks rest)
    | ']' :: rest => return (.array (v :: acc).reverse, rest)
    | _ => throw .malformed

/-- The members of an object from the next one on; `acc` holds those before it. -/
def readMembers : Nat → List (String × Json) → List Char → Except Fault (Json × List Char)
  | 0, _, _ => .error .malformed
  | fuel + 1, acc, cs =>
    match cs with
    | '"' :: rest => do
      let (key, rest) ← readString [] rest
      match skipBlanks rest with
      | ':' :: rest =>
        let (v, rest) ← readValue fuel (skipBlanks rest)
        match skipBlanks rest with
        | ',' :: rest => readMembers fuel (insertMember key v acc) (skipBlanks rest)
        | '\x7d' :: rest => return (.object (insertMember key v acc), rest)
        | _ => throw .malformed
      | _ => throw .malformed
    | _ => .error .malformed

end

/-- A text without the byte-order mark it may begin with. -/
def skipMark : List Char → List Char
  | '\ufeff' :: rest => rest
  | cs => cs

/-- The first value of a text, with what follows it. Every second call takes a character, which
bounds their number. -/
def readText (cs : List Char) : Except Fault (Json × List Char) :=
  readValue (2 * cs.length + 2) (skipBlanks (skipMark cs))

/-- The first value of a text; what follows it is not looked at. -/
def parseFirst (cs : List Char) : Except Fault Json := do
  let (v, _) ← readText cs
  return v

/-- Whether the input ends here: no character is left, or the next one is a NUL. -/
def inputEnds : List Char → Bool
  | [] => true
  | c :: _ => c == '\x00'

/-- The value of a text that holds nothing else before the end of the input. -/
def parse (cs : List Char) : Except Fault Json := do
  let (v, rest) ← readText cs
  if inputEnds (skipBlanks rest) then return v else throw .malformed

/-- The characters of a byte string. Where the bytes stop being UTF-8 the text goes on with a control
character that may stand nowhere in JSON, and ends. -/
def charsOfBytes (bytes : ByteArray) : List Char :=
  match String.fromUTF8? bytes with
  | some s => s.toList
  | none =>
    let valid := (List.range bytes.size).reverse.findSome? fun n =>
      String.fromUTF8? (bytes.extract 0 n)
    (valid.getD "").toList ++ ['\x01']

end Json
end ProofMiner
