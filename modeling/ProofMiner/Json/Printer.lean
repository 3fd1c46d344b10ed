/-
# Printing JSON

The compact form: no blanks, members in key order. Strings keep every character but the quote,
the backslash and the control characters below U+0020.
-/

import ProofMiner.Decimal.Shortest
import ProofMiner.Json.Value
import ProofMiner.Text.Hex

namespace ProofMiner
namespace Json

/-- Doubles are written with the fewest digits that read back, plainly for decimal exponents from
-4 to 14, else with an exponent of two digits or more. -/
def floatLayout : Decimal.Layout := ⟨-4, 14, 2⟩

/-- A character inside a quoted text. -/
def escapeChar (c : Char) : List Char :=
  if c = '"' then ['\\', '"']
  else if c = '\\' then ['\\', '\\']
  else if c = '\x08' then ['\\', 'b']
  else if c = '\t' then ['\\', 't']
  else if c = '\n' then ['\\', 'n']
  else if c = '\x0c' then ['\\', 'f']
  else if c = '\r' then ['\\', 'r']
  else if c.toNat < 0x20 then
    ['\\', 'u', '0', '0', Text.hexDigit (c.toNat / 16), Text.hexDigit c.toNat]
  else [c]

/-- Appends a quoted text. -/
def writeString (out : String) (s : String) : String :=
  (s.foldl (fun out c => (escapeChar c).foldl String.push out) (out.push '"')).push '"'

mutual

/-- Appends the text of a value. -/
def write (out : String) : Json → String
  | .null => out ++ "null"
  | .bool true => out ++ "true"
  | .bool false => out ++ "false"
  | .unsigned n => out ++ toString n.toNat
  | .signed n => out ++ toString n.toInt
  | .float x => out ++ floatLayout.renderFloat x
  | .string s => writeString out s
  | .array [] => out ++ "[]"
  | .array (x :: xs) => (writeItems (write (out.push '[') x) xs).push ']'
  | .object [] => out ++ "\x7b\x7d"
  | .object ((k, v) :: rest) =>
    (writeMembers (write ((writeString (out.push '\x7b') k).push ':') v) rest).push '\x7d'

/-- Appends further items, each after a comma. -/
def writeItems (out : String) : List Json → String
  | [] => out
  | x :: xs => writeItems (write (out.push ',') x) xs

/-- Appends further members, each after a comma. -/
def writeMembers (out : String) : List (String × Json) → String
  | [] => out
  | (k, v) :: rest => writeMembers (write ((writeString (out.push ',') k).push ':') v) rest

end

/-- The compact text of a value. -/
def render (j : Json) : String := write "" j

end Json
end ProofMiner
