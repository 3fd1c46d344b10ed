/-
# Records in JSON

Readers for the members of the records that a miner exchanges with its node, and what can be
wrong with them.
-/

import ProofMiner.Field.Goldilocks
import ProofMiner.Json.Parser
import ProofMiner.Json.Printer
import ProofMiner.Work.Payout

namespace ProofMiner
namespace Record

/-- What can be wrong with a record. -/
inductive Fault where
  /-- The text is not JSON, a member is missing, or a value has the wrong type. -/
  | json (fault : Json.Fault)
  /-- A candidate has to be an object. -/
  | notAnObject
  /-- The value has to be an integer below `2 ^ 64` and not negative. -/
  | notNatural (what : String) (value : Json)
  /-- The value has to be below `2 ^ 32`. -/
  | tooLarge (what : String) (value : UInt64)
  | notElements
  /-- A field element has to be below the modulus. -/
  | notCanonical (value : UInt64)
  /-- A digest has four elements. -/
  | digestLength
  | payout (fault : Payout.Fault)
  deriving Repr, Inhabited

/-- What is said of a fault of a record. -/
def Fault.message : Fault → String
  | json e => e.message
  | notAnObject => "candidate must be a JSON object"
  | notNatural what j => s!"{what} must be an unsigned integer, got {j.render}"
  | tooLarge what v => s!"{what} out of range: {v.toNat}"
  | notElements => "expected an array of field elements"
  | notCanonical v => s!"field element {v.toNat} is not canonical"
  | digestLength => "digest must have 4 elements"
  | payout e => e.message

/-- The value of a JSON text. -/
def parse (cs : List Char) : Except Fault Json := (Json.parse cs).mapError .json

/-- A member that has to be there. -/
def member (j : Json) (key : String) : Except Fault Json := (j.get key).mapError .json

/-- A number of 64 bits; `what` names it in the fault. -/
def word (what : String) (j : Json) : Except Fault UInt64 :=
  match j.natural? with
  | some v => .ok v
  | none => .error (.notNatural what j)

/-- A 32-bit number. -/
def halfWord (what : String) (j : Json) : Except Fault UInt32 := do
  let v ← word what j
  if v.toNat < UInt32.size then return v.toUInt32 else throw (.tooLarge what v)

/-- A member with a 64-bit number. -/
def wordMember (j : Json) (key : String) : Except Fault UInt64 := do
  word key (← member j key)

/-- A member with a 64-bit number, or a value to use when it is absent. -/
def wordMemberD (j : Json) (key : String) (default : UInt64) : Except Fault UInt64 :=
  match j.get? key with
  | some v => word key v
  | none => .ok default

/-- A field element. -/
def element (j : Json) : Except Fault Goldilocks := do
  let v ← word "field element" j
  if h : v < modulus then return ⟨v, h⟩ else throw (.notCanonical v)

/-- A list of elements of the field. -/
def elements (j : Json) : Except Fault (List Goldilocks) :=
  match j with
  | .array items => items.mapM element
  | _ => .error .notElements

/-- Field elements as numbers. -/
def ofElements (xs : List Goldilocks) : Json := .array (xs.map fun x => .unsigned x.val)

end Record
end ProofMiner
