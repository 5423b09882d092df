import SelectionForest.Error

/-!
# Literals as JSON

A literal without variables is a JSON value (`Value.toJson`), whatever its type is: names of enums
become strings, and numbers are read like JSON numbers. A number beyond the largest one is refused
as a fault of the arguments.
-/

namespace SelectionForest

/-- The JSON number that a number literal writes. -/
def literalNumber (text : String) (overflow : InputFault) : Outcome Json :=
  match Number.ofToken? text.toList with
  | some number => .ok (.number number)
  | none => .error (.argument overflow)

mutual

/-- The JSON value of a literal that stands at a position. -/
def Value.toJson (position : Position) : Value → Outcome Json
  | .null => .ok .null
  | .boolean value => .ok (.bool value)
  | .int text => literalNumber text (.intOverflow position)
  | .float text => literalNumber text (.floatOverflow position)
  | .string text => .ok (.string text)
  | .enum name => .ok (.string name)
  | .variable _ => .error (.internal (.variableInConstant position))
  | .list items => (itemsToJson position items).map .array
  | .object fields => (fieldsToJson position fields).map fun members =>
    .object (OrderedMap.ofList members)

/-- The JSON values of the items of a list. -/
def itemsToJson (position : Position) : List Value → Outcome (List Json)
  | [] => .ok []
  | item :: items => do
    let first ← item.toJson position
    let rest ← itemsToJson position items
    pure (first :: rest)

/-- The JSON values of the fields of an object. -/
def fieldsToJson (position : Position) : List (Name × Value) → Outcome (List (String × Json))
  | [] => .ok []
  | (name, value) :: fields => do
    let first ← value.toJson position
    let rest ← fieldsToJson position fields
    pure ((name, first) :: rest)

end

end SelectionForest
