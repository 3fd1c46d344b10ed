/-
# JSON values

Integers without fraction or exponent stay integers as long as 64 bits hold them; every other
number is a double. The members of an object are kept in the order of their keys, each key once.
-/

namespace ProofMiner

/-- A JSON value. -/
inductive Json where
  | null
  | bool (value : Bool)
  /-- A number without sign, fraction or exponent, below `2 ^ 64`. -/
  | unsigned (value : UInt64)
  /-- A number with a minus sign and without fraction or exponent, from `-2 ^ 63` to `0`. -/
  | signed (value : Int64)
  | float (value : Float)
  | string (value : String)
  | array (items : List Json)
  | object (members : List (String × Json))
  deriving Repr, Inhabited

namespace Json

/-- What can be wrong with a JSON text, or with the shape of a value. -/
inductive Fault where
  /-- The text is not JSON. -/
  | malformed
  /-- A number in the text is too large for a double. -/
  | numberTooLarge
  /-- The value is not of the type that is read. -/
  | wrongType
  /-- A member was looked up in a value that is not an object. -/
  | notAnObject
  /-- The object has no such member. -/
  | missingKey (key : String)
  deriving DecidableEq, Repr, Inhabited

/-- The wording of a fault, which opens with its class and number. -/
def Fault.message : Fault → String
  | malformed => "[json.exception.parse_error.101] parse error: syntax error"
  | numberTooLarge => "[json.exception.out_of_range.406] number overflow"
  | wrongType => "[json.exception.type_error.302] type mismatch"
  | notAnObject => "[json.exception.type_error.304] cannot look up a key in this value"
  | missingKey key => s!"[json.exception.out_of_range.403] key '{key}' not found"

/-- Puts a member at its place in the key order; a key that is there already takes the new value. -/
def insertMember (key : String) (value : Json) : List (String × Json) → List (String × Json)
  | [] => [(key, value)]
  | (k, v) :: rest =>
    if key < k then (key, value) :: (k, v) :: rest
    else if key = k then (key, value) :: rest
    else (k, v) :: insertMember key value rest

/-- The object with the given members; of members with one key the last one counts. -/
def ofMembers (members : List (String × Json)) : Json :=
  .object (members.foldl (fun acc (k, v) => insertMember k v acc) [])

/-- The member of an object, if the value is an object and has it. -/
def get? (j : Json) (key : String) : Option Json :=
  match j with
  | .object members => members.lookup key
  | _ => none

/-- The member that must be there. -/
def get (j : Json) (key : String) : Except Fault Json :=
  match j with
  | .object members => match members.lookup key with
    | some v => .ok v
    | none => .error (.missingKey key)
  | _ => .error .notAnObject

/-- Whether it is an object. -/
def isObject : Json → Bool
  | .object _ => true
  | _ => false

/-- A number that is an integer and not negative. A double is none, nor is a boolean. -/
def natural? : Json → Option UInt64
  | .unsigned n => some n
  | .signed n => if 0 ≤ n then some n.toUInt64 else none
  | _ => none

/-- The text, if it is one. -/
def string? : Json → Option String
  | .string s => some s
  | _ => none

/-- The items, if it is an array. -/
def array? : Json → Option (List Json)
  | .array items => some items
  | _ => none

end Json
end ProofMiner
