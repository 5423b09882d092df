import SelectionForest.Input.Literal
import SelectionForest.Schema.Basic

/-!
# Values of variables

The values that a request gives to the variables of an operation are coerced to their declared
types (`coerceVariables`). A variable without a value takes its default, which is taken as it is
written; a nullable variable without either stays absent.

Coercion (`Json.coerce`) goes down a value along its type. A single value stands for a list of one.
The members of an input object are coerced in place and come first; then follow the defaults of the
fields without a member. Faults of an object are found in the order in which its type defines the
fields, and a member that the type does not define before all others.
-/

namespace SelectionForest

/-- The place of a field in a list of definitions. -/
def findDefinition? (definitions : List InputDefinition) (name : Name) : Option InputDefinition :=
  definitions.find? (·.name = name)

/-- A value in as many lists of one as the type has lists. -/
def TypeRef.wrap : TypeRef → Json → Json
  | .named _ _, value => value
  | .list item _, value => .array [item.wrap value]

/-- The least value of the type `Int`. -/
def leastInt : Int := -Int.pow 2 31

/-- The greatest value of the type `Int`. -/
def greatestInt : Int := Int.pow 2 31 - 1

/-- The least integer that is an identifier. -/
def leastIdentifier : Int := -Int.pow 2 63

/-- The greatest integer that is an identifier. -/
def greatestIdentifier : Int := Int.pow 2 63 - 1

/-- Whether a value is one of a scalar. Scalars that are not built in take every value. -/
def scalarAccepts (scalar : Name) (value : Json) : Bool :=
  if scalar = "Int" then value.asInt?.any fun n => leastInt ≤ n && n ≤ greatestInt
  else if scalar = "Float" then
    match value with
    | .number _ => true
    | _ => false
  else if scalar = "String" then value.asString?.isSome
  else if scalar = "Boolean" then value.asBool?.isSome
  else if scalar = "ID" then
    value.asString?.isSome
      || value.asInt?.any fun n => leastIdentifier ≤ n && n ≤ greatestIdentifier
  else true

/-- A value at a named type that is no input object. -/
def coerceLeaf (schema : Schema) (position : Position) (type : Name) (value : Json) :
    Outcome Json :=
  match schema.type? type with
  | none => .error (.internal (.undefinedInputType type position))
  | some .scalar =>
    if scalarAccepts type value then .ok value
    else .error (.variable (.wrongValue position value type))
  | some (.enum values) =>
    if value.asString?.any (values.contains ·) then .ok value
    else .error (.variable (.wrongValue position value type))
  | some (.inputObject _) => .error (.variable (.wrongValue position value type))
  | some _ => .error (.internal (.outputTypeAsInput type position))

/-- An object with one of the fields of its type coerced, or filled in. The outcome of coercing a
member of the field's name is given if there is one. -/
def fillMember (type : Name) (outcomes : OrderedMap String (Outcome Json)) (members : Members)
    (field : InputDefinition) : Outcome Members :=
  match outcomes.get? field.name with
  | some outcome => outcome.map (members.insert field.name)
  | none =>
    match field.default with
    | some default => (default.toJson (.inputField type field.name)).map (members.insert field.name)
    | none =>
      if field.type.isNonNull then .error (.variable (.missingField type field.name))
      else .ok members

/-- An object at an input object type with the given fields. The outcomes of coercing its members
are given in order. -/
def fillMembers (type : Name) (fields : List InputDefinition)
    (outcomes : OrderedMap String (Outcome Json)) (members : Members) : Outcome Json :=
  match members.find? fun member => (findDefinition? fields member.1).isNone with
  | some (key, _) => .error (.variable (.unknownKey key type))
  | none => (fields.foldlM (fillMember type outcomes) members).map .object

mutual

/-- A value coerced to a type. -/
def Json.coerce (schema : Schema) : Json → Position → TypeRef → Outcome Json
  | .null, position, type =>
    if type.isNonNull then .error (.variable (.nullValue position)) else .ok .null
  | .array items, position, .list item _ =>
    (coerceItems schema items position item).map .array
  | .array items, position, .named name _ => coerceLeaf schema position name (.array items)
  | .object members, position, type =>
    match schema.type? type.innerName with
    | some (.inputObject fields) =>
      (fillMembers type.innerName fields
        (coerceMembers schema members type.innerName fields) members).map type.wrap
    | _ => (coerceLeaf schema position type.innerName (.object members)).map type.wrap
  | .bool value, position, type =>
    (coerceLeaf schema position type.innerName (.bool value)).map type.wrap
  | .number value, position, type =>
    (coerceLeaf schema position type.innerName (.number value)).map type.wrap
  | .string value, position, type =>
    (coerceLeaf schema position type.innerName (.string value)).map type.wrap

/-- The items of an array, each coerced to the type of the items. -/
def coerceItems (schema : Schema) : List Json → Position → TypeRef → Outcome (List Json)
  | [], _, _ => .ok []
  | item :: items, position, type => do
    let first ← item.coerce schema position type
    let rest ← coerceItems schema items position type
    pure (first :: rest)

/-- The outcomes of coercing the members of an object, each to the type of its field. -/
def coerceMembers (schema : Schema) :
    List (String × Json) → Name → List InputDefinition → OrderedMap String (Outcome Json)
  | [], _, _ => []
  | (key, value) :: members, type, fields =>
    (key, match findDefinition? fields key with
      | some field => value.coerce schema (.inputField type key) field.type
      | none => .error (.variable (.unknownKey key type)))
      :: coerceMembers schema members type fields

end

/-- The coerced value of a variable, if it has one. -/
def coerceVariable (schema : Schema) (values : Members) (definition : VariableDefinition) :
    Outcome (Option Json) :=
  match values.get? definition.name with
  | some value => (value.coerce schema (.variable definition.name) definition.type).map some
  | none =>
    match definition.default with
    | some default => (default.toJson (.variable definition.name)).map some
    | none =>
      if definition.type.isNonNull then .error (.variable (.missingVariable definition.name))
      else .ok none

/-- The coerced values of the variables that have one, in the order of their definitions. -/
def coerceVariables (schema : Schema) (definitions : List VariableDefinition) (values : Members) :
    Outcome Members :=
  definitions.foldlM (fun coerced definition => do
    match ← coerceVariable schema values definition with
    | some value => pure (coerced.insert definition.name value)
    | none => pure coerced) []

end SelectionForest
