/-
# Payout splits

A split pays `share` parts of a mined block to a set of keys of which `threshold` have to sign.
Its text is `share,threshold:key1,key2,…`.
-/

import ProofMiner.Decimal.Digits
import ProofMiner.Text.Pieces

namespace ProofMiner

/-- A payout split. -/
structure Payout where
  share : UInt64 := 1
  threshold : UInt64 := 1
  keys : List String := []
  deriving DecidableEq, Repr, Inhabited

namespace Payout

/-- What is wrong with the text of a split. -/
inductive Fault where
  /-- There is no comma, or no colon after the first comma. -/
  | layout (text : String)
  /-- A part that has to be a number is none. -/
  | notNumber (what part : String)
  /-- A number of `2 ^ 64` or more. -/
  | numberTooLarge (what part : String)
  | emptyKey (text : String)
  | noKeys (text : String)
  /-- The threshold is zero or above the number of keys. -/
  | threshold (text : String)
  deriving DecidableEq, Repr, Inhabited

/-- What there is to say about a fault, with the text it is about. -/
def Fault.wording : Fault → String
  | layout text => s!"mining key must look like share,m:key1,key2 (got '{text}')"
  | notNumber what part => s!"invalid {what}: '{part}'"
  | numberTooLarge what part => s!"{what} out of range: '{part}'"
  | emptyKey text => s!"empty key in '{text}'"
  | noKeys text => s!"mining key needs at least one key: '{text}'"
  | threshold text => s!"m must be between 1 and the number of keys: '{text}'"

/-- The message of a fault: its wording up to the first NUL, which ends a message. -/
def Fault.message (f : Fault) : String :=
  String.ofList (f.wording.toList.takeWhile (· ≠ '\x00'))

/-- A number of the given name. -/
def number (what : String) (part : List Char) : Except Fault UInt64 :=
  match Decimal.word part with
  | .ok n => .ok n
  | .error .notDigits => .error (.notNumber what (String.ofList part))
  | .error .tooLarge => .error (.numberTooLarge what (String.ofList part))

/-- The keys of a list: its pieces, where an empty piece at the end is no key. -/
def keyPieces (cs : List Char) : List (List Char) :=
  let all := Text.pieces ',' cs
  if all.getLast? = some [] then all.dropLast else all

/-- Reads the text of a split. -/
def parse (text : String) : Except Fault Payout := do
  let cs := text.toList
  let shareText := cs.takeWhile (· ≠ ',')
  let afterShare := cs.drop (shareText.length + 1)
  let thresholdText := afterShare.takeWhile (· ≠ ':')
  if !cs.contains ',' || !afterShare.contains ':' || shareText.contains ':' then
    throw (.layout text)
  let share ← number "share" shareText
  let threshold ← number "m" thresholdText
  let keys := keyPieces (afterShare.drop (thresholdText.length + 1))
  if keys.any List.isEmpty then throw (.emptyKey text)
  if keys.isEmpty then throw (.noKeys text)
  if threshold = 0 || keys.length < threshold.toNat then throw (.threshold text)
  return { share, threshold, keys := keys.map String.ofList }

/-- The text of a split. -/
def render (p : Payout) : String :=
  s!"{p.share.toNat},{p.threshold.toNat}:" ++ ",".intercalate p.keys

end Payout
end ProofMiner
