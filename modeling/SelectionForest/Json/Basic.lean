import SelectionForest.Decimal.Binary64
import SelectionForest.OrderedMap

/-!
# JSON values

A JSON value whose objects are ordered maps. Numbers are either integers or binary64 numbers, and an
integer is never equal to a binary64 number: `1` and `1.0` differ.
-/

namespace SelectionForest

/-- A JSON number: an integer of at most 64 bits, or a binary64 number. -/
inductive Number where
  | int (value : Int)
  | float (value : Binary64)
  deriving DecidableEq, Repr

/-- A JSON value. The members of an object are kept in order. -/
inductive Json where
  | null
  | bool (value : Bool)
  | number (value : Number)
  | string (value : String)
  | array (items : List Json)
  | object (members : List (String × Json))

/-- The members of an object, in order. -/
abbrev Members := OrderedMap String Json

namespace Json

/-- Whether the value is `null`. -/
def isNull : Json → Bool
  | .null => true
  | _ => false

/-- The boolean that a value is, if it is one. -/
def asBool? : Json → Option Bool
  | .bool b => some b
  | _ => none

/-- The string that a value is, if it is one. -/
def asString? : Json → Option String
  | .string s => some s
  | _ => none

/-- The integer that a value is, if it is one. -/
def asInt? : Json → Option Int
  | .number (.int n) => some n
  | _ => none

/-- The items of an array. -/
def asArray? : Json → Option (List Json)
  | .array items => some items
  | _ => none

/-- The members of an object. -/
def asObject? : Json → Option Members
  | .object members => some members
  | _ => none

/-- The value of an object's member, and nothing for a value that is no object. -/
def get? (value : Json) (key : String) : Option Json :=
  value.asObject?.bind (OrderedMap.get? · key)

end Json

end SelectionForest
