/-
# Calls in JSON

A request is an object such as

    {"op": "bp-coseword", "bpolys": [[1, 2, 3]], "offset": 7, "order": 8}

with the optional members `order`, `exponent`, `offset`, `root`, `belts`, `felts`, `bpolys` and
`fpolys`. Field elements are integers below the modulus, extension field elements are
`[c0, c1, c2]`. A result has a `status` and either an `error` or the value under the name of its
sort.
-/

import ProofMiner.Jet.Registry
import ProofMiner.Json.Parser
import ProofMiner.Json.Printer

namespace ProofMiner

namespace Goldilocks

/-- A field element as a number. -/
def toJson (a : Goldilocks) : Json := .unsigned a.val

/-- A list of field elements as an array. -/
def listToJson (xs : List Goldilocks) : Json := .array (xs.map toJson)

end Goldilocks

/-- An extension field element as the array of its coefficients. -/
def Cubic.toJson (a : Cubic) : Json := Goldilocks.listToJson a.toList

namespace Jet

/-- What can be wrong with the arguments of a request. -/
inductive ArgsFault where
  | notAnObject
  /-- The member has to be an integer below `2 ^ 64` and not negative. -/
  | notNatural (member : String)
  /-- A field element has to be such an integer. -/
  | elementNotNatural (value : Json)
  | elementTooLarge (value : UInt64)
  | notThreeCoefficients (value : Json)
  | notAnArray (what : String)
  deriving Repr, Inhabited

/-- What is said of a fault of the arguments. -/
def ArgsFault.message : ArgsFault → String
  | notAnObject => "request must be a JSON object"
  | notNatural member => s!"{member} must be an unsigned integer"
  | elementNotNatural j => s!"field element must be an unsigned integer, got {j.render}"
  | elementTooLarge v => s!"field element {v.toNat} is not below the modulus"
  | notThreeCoefficients j => s!"extension field element must be [c0, c1, c2], got {j.render}"
  | notAnArray what => s!"{what} must be an array"

/-- A field element: an integer below the modulus. -/
def beltOfJson (j : Json) : Except ArgsFault Goldilocks :=
  match j.natural? with
  | none => .error (.elementNotNatural j)
  | some v => if h : v < modulus then .ok ⟨v, h⟩ else .error (.elementTooLarge v)

/-- An extension field element: three field elements. They are read from the last to the first,
so of several faults the last one is reported. -/
def feltOfJson (j : Json) : Except ArgsFault Cubic :=
  match j with
  | .array [a, b, c] => do
    let c ← beltOfJson c
    let b ← beltOfJson b
    let a ← beltOfJson a
    return ⟨a, b, c⟩
  | j => .error (.notThreeCoefficients j)

/-- An array, element by element; `what` names it in the fault. -/
def listOfJson {α : Type} (what : String) (element : Json → Except ArgsFault α) (j : Json) :
    Except ArgsFault (List α) :=
  match j with
  | .array items => items.mapM element
  | _ => .error (.notAnArray what)

/-- A number of 64 bits that is not negative. -/
def wordOfJson (member : String) (j : Json) : Except ArgsFault UInt64 :=
  match j.natural? with
  | some v => .ok v
  | none => .error (.notNatural member)

/-- A polynomial: the array of its coefficients. -/
def polyOfJson {α : Type} (what : String) (element : Json → Except ArgsFault α) (j : Json) :
    Except ArgsFault (Array α) :=
  (listOfJson what element j).map List.toArray

namespace Args

/-- A member that may be absent. -/
def optional {α : Type} (j : Json) (key : String) (read : Json → Except ArgsFault α) :
    Except ArgsFault (Option α) :=
  match j.get? key with
  | some v => (read v).map some
  | none => .ok none

/-- A list that is empty when its member is absent. -/
def items {α : Type} (j : Json) (key : String) (element : Json → Except ArgsFault α) :
    Except ArgsFault (List α) :=
  match j.get? key with
  | some v => listOfJson key element v
  | none => .ok []

/-- The arguments in an object, read in a fixed order. Members that are missing give no argument. -/
def ofJson (j : Json) : Except ArgsFault Args := do
  if !j.isObject then throw .notAnObject
  let order ← optional j "order" (wordOfJson "order")
  let exponent ← optional j "exponent" (wordOfJson "exponent")
  let offset ← optional j "offset" beltOfJson
  let root ← optional j "root" beltOfJson
  let belts ← items j "belts" beltOfJson
  let felts ← items j "felts" feltOfJson
  let bpolys ← items j "bpolys" (polyOfJson "bpoly" beltOfJson)
  let fpolys ← items j "fpolys" (polyOfJson "fpoly" feltOfJson)
  return { order, exponent, offset, root, belts, felts, bpolys, fpolys }

/-- A member for a list that is not empty. -/
def listMember (key : String) (items : List Json) : List (String × Json) :=
  if items.isEmpty then [] else [(key, .array items)]

/-- The members that are present, in key order. -/
def toJson (a : Args) : Json :=
  .object (listMember "belts" (a.belts.map Goldilocks.toJson)
    ++ listMember "bpolys" (a.bpolys.map fun p => Goldilocks.listToJson p.toList)
    ++ (a.exponent.map fun e => ("exponent", Json.unsigned e)).toList
    ++ listMember "felts" (a.felts.map Cubic.toJson)
    ++ listMember "fpolys" (a.fpolys.map fun p => .array (p.toList.map Cubic.toJson))
    ++ (a.offset.map fun x => ("offset", x.toJson)).toList
    ++ (a.order.map fun n => ("order", Json.unsigned n)).toList
    ++ (a.root.map fun x => ("root", x.toJson)).toList)

end Args

/-- The member that holds a value. -/
def Value.toMember : Value → String × Json
  | .belt x => ("belt", x.toJson)
  | .felt x => ("felt", x.toJson)
  | .bpoly p => ("bpoly", Goldilocks.listToJson p.toList)
  | .fpoly p => ("fpoly", .array (p.toList.map Cubic.toJson))

/-- The answer to a request: the value under its own key, or the status and what went wrong. -/
def Result.toJson (r : Result) : Json :=
  match r with
  | .ok v => .object [v.toMember, ("status", .string Status.ok.name)]
  | .failed s message => .object [("error", .string message), ("status", .string s.name)]

/-- Decodes a request and runs it. A text that is not JSON, a request without an operation and
arguments of a wrong shape give results; only a number too large for a double is passed on. -/
def Registry.request (r : Registry) (text : String) : Except Json.Fault Result × Registry :=
  match Json.parse text.toList with
  | .error .malformed =>
    (.ok (.failed .malformedArguments s!"invalid JSON: {Json.Fault.malformed.message}"), r)
  | .error e => (.error e, r)
  | .ok j =>
    match (j.get? "op").bind Json.string? with
    | none => (.ok (.failed .unknownOperation "request has no \"op\" string"), r)
    | some name =>
      match Args.ofJson j with
      | .error e => (.ok (.failed .malformedArguments e.message), r)
      | .ok a =>
        let (result, r) := r.invokeName name a
        (.ok result, r)

end Jet
end ProofMiner
