import SelectionForest.Input.Variables

/-!
# Values of arguments

The arguments written on a field are resolved to JSON values (`resolveArguments`), with the coerced
values of the variables that they mention. An argument that is not written, or is a variable without
a value, takes its default, which is taken as it is written; a nullable argument without either
stays absent. The result has the order in which the field defines its arguments.

Resolution (`Value.resolve`) goes down a literal along its type. A single literal stands for a list
of one, and a variable for its value, which is not looked at again. A literal of an input object
gets the fields of its type in the order of their definitions; a field bound to a variable without a
value counts as not written.
-/

namespace SelectionForest

/-- The value of a variable inside a literal, at a position of a type. -/
def resolveVariable (bindings : Members) (position : Position) (type : TypeRef) (name : Name) :
    Outcome Json :=
  match bindings.get? name with
  | some value =>
    if value.isNull && type.isNonNull then .error (.argument (.nullVariable position))
    else .ok value
  | none =>
    if type.isNonNull then .error (.argument (.unsetVariable position)) else .ok .null

/-- A literal at a named type that is no input object literal. Scalars and enums take every
literal. -/
def resolveLeaf (schema : Schema) (position : Position) (type : Name) (literal : Value) :
    Outcome Json :=
  match schema.type? type with
  | none => .error (.internal (.undefinedInputType type position))
  | some (.inputObject _) => .error (.argument (.wrongLiteral position literal type))
  | some _ => literal.toJson position

/-- An object with the value of one more field of its type. The outcome of resolving what is written
for the field is given if something is. -/
def resolveField (type : Name) (outcomes : OrderedMap Name (Option (Outcome Json)))
    (members : Members) (field : InputDefinition) : Outcome Members :=
  match (outcomes.get? field.name).join with
  | some outcome => outcome.map (members.insert field.name)
  | none =>
    match field.default with
    | some default => (default.toJson (.inputField type field.name)).map (members.insert field.name)
    | none =>
      if field.type.isNonNull then .error (.argument (.missingField type field.name))
      else .ok members

/-- An object literal at an input object type with the given fields. The outcomes of resolving what
is written are given in order. -/
def resolveFields (type : Name) (fields : List InputDefinition)
    (outcomes : OrderedMap Name (Option (Outcome Json))) : Outcome Json :=
  match outcomes.find? fun entry => (findDefinition? fields entry.1).isNone with
  | some (key, _) => .error (.argument (.unknownKey key type))
  | none => (fields.foldlM (resolveField type outcomes) []).map .object

/-- Whether a literal is a variable without a value. -/
def Value.isUnset (bindings : Members) (literal : Value) : Bool :=
  literal.asVariable?.any fun name => !bindings.has name

mutual

/-- The value of a literal at a type. -/
def Value.resolve (schema : Schema) (bindings : Members) :
    Value → Position → TypeRef → Outcome Json
  | .null, position, type =>
    if type.isNonNull then .error (.argument (.nullValue position)) else .ok .null
  | .variable name, position, type => resolveVariable bindings position type name
  | .list items, position, .list item _ =>
    (resolveItems schema bindings items position item).map .array
  | .list items, position, .named name _ => resolveLeaf schema position name (.list items)
  | .object fields, position, type =>
    match schema.type? type.innerName with
    | some (.inputObject definitions) =>
      (resolveFields type.innerName definitions
        (resolveEntries schema bindings fields type.innerName definitions)).map type.wrap
    | _ => (resolveLeaf schema position type.innerName (.object fields)).map type.wrap
  | .boolean value, position, type =>
    (resolveLeaf schema position type.innerName (.boolean value)).map type.wrap
  | .int text, position, type =>
    (resolveLeaf schema position type.innerName (.int text)).map type.wrap
  | .float text, position, type =>
    (resolveLeaf schema position type.innerName (.float text)).map type.wrap
  | .string text, position, type =>
    (resolveLeaf schema position type.innerName (.string text)).map type.wrap
  | .enum name, position, type =>
    (resolveLeaf schema position type.innerName (.enum name)).map type.wrap

/-- The values of the items of a list, each at the type of the items. -/
def resolveItems (schema : Schema) (bindings : Members) :
    List Value → Position → TypeRef → Outcome (List Json)
  | [], _, _ => .ok []
  | item :: items, position, type => do
    let first ← item.resolve schema bindings position type
    let rest ← resolveItems schema bindings items position type
    pure (first :: rest)

/-- The outcomes of resolving the fields of an object literal, each at the type of its definition;
a field bound to a variable without a value has none. -/
def resolveEntries (schema : Schema) (bindings : Members) :
    List (Name × Value) → Name → List InputDefinition → OrderedMap Name (Option (Outcome Json))
  | [], _, _ => []
  | (key, value) :: fields, type, definitions =>
    (key,
      if value.isUnset bindings then none
      else some (match findDefinition? definitions key with
        | some field => value.resolve schema bindings (.inputField type key) field.type
        | none => .error (.argument (.unknownKey key type))))
      :: resolveEntries schema bindings fields type definitions

end

/-- The value of an argument that is written as a literal, and nothing for a variable without a
value. -/
def resolveWritten (schema : Schema) (bindings : Members) (definition : InputDefinition)
    (literal : Value) : Outcome (Option Json) :=
  match literal with
  | .variable name =>
    match bindings.get? name with
    | some value =>
      if value.isNull && definition.type.isNonNull then
        .error (.argument (.nullArgument definition.name))
      else .ok (some value)
    | none => .ok none
  | literal =>
    (literal.resolve schema bindings (.argument definition.name) definition.type).map some

/-- The value of an argument that has no value of its own: its default, if it has one. -/
def resolveUnwritten (definition : InputDefinition) : Outcome (Option Json) :=
  match definition.default with
  | some default => (default.toJson (.argument definition.name)).map some
  | none =>
    if definition.type.isNonNull then .error (.argument (.missingArgument definition.name))
    else .ok none

/-- The value of an argument, if it has one. -/
def resolveArgument (schema : Schema) (bindings : Members) (arguments : List Argument)
    (definition : InputDefinition) : Outcome (Option Json) :=
  match findArgument? arguments definition.name with
  | some literal => do
    match ← resolveWritten schema bindings definition literal with
    | some value => pure (some value)
    | none => resolveUnwritten definition
  | none => resolveUnwritten definition

/-- The values of the arguments of a field that have one, in the order of their definitions. -/
def resolveArguments (schema : Schema) (bindings : Members) (definition : FieldDefinition)
    (arguments : List Argument) : Outcome Members :=
  definition.arguments.foldlM (fun resolved argument => do
    match ← resolveArgument schema bindings arguments argument with
    | some value => pure (resolved.insert argument.name value)
    | none => pure resolved) []

end SelectionForest
