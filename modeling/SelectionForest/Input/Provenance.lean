import SelectionForest.Input.Literal
import SelectionForest.Schema.Basic

/-!
# The provenance of input values

A `Provenance` is an input value that remembers where its parts come from: from a literal of the
document, from a variable, from the request, or from a default. Variables are traced first
(`traceVariables`), and then the arguments of a field with them (`traceArguments`).

In a traced list a variable without a value counts as `null`; in a traced object it is left out, and
an argument that is such a variable takes its default.
-/

namespace SelectionForest

/-- An input value and where it comes from. -/
inductive Provenance where
  /-- A literal of the document. -/
  | literal (value : Value)
  /-- A variable, with its own provenance. -/
  | variable (name : Name) (value : Provenance)
  /-- A value of the request. -/
  | input (value : Json)
  /-- A default of the schema or of a variable. -/
  | default (value : Value)
  | list (items : List Provenance)
  | object (fields : List (Name × Provenance))

/-- An input value with its declared type. -/
structure TracedInput where
  type : TypeRef
  value : Provenance

/-- Variables or arguments by name. -/
abbrev TracedInputs := OrderedMap Name TracedInput

mutual

/-- The text of an input value that shows where it comes from. -/
def Provenance.render : Provenance → String
  | .literal value => value.render
  | .variable name value => "$" ++ name ++ " = " ++ value.render
  | .input value => value.render
  | .default value => value.render ++ " (default)"
  | .list items => "[" ++ ", ".intercalate (renderTracedItems items) ++ "]"
  | .object fields => "\x7b" ++ ", ".intercalate (renderTracedFields fields) ++ "\x7d"

/-- The texts of the items of a list. -/
def renderTracedItems : List Provenance → List String
  | [] => []
  | item :: items => item.render :: renderTracedItems items

/-- The texts of the fields of an object. -/
def renderTracedFields : List (Name × Provenance) → List String
  | [] => []
  | (name, value) :: fields => (name ++ ": " ++ value.render) :: renderTracedFields fields

end

/-- Where the value of a variable comes from, if it has one. -/
def traceVariable? (values : Members) (definition : VariableDefinition) : Option Provenance :=
  match values.get? definition.name with
  | some value => some (.input value)
  | none => definition.default.map .default

/-- The variables that have a value, in the order of their definitions. -/
def traceVariables (definitions : List VariableDefinition) (values : Members) : TracedInputs :=
  OrderedMap.ofList (definitions.filterMap fun definition =>
    (traceVariable? values definition).map fun value => (definition.name, ⟨definition.type, value⟩))

mutual

/-- Where the parts of a literal come from; a variable without a value comes from nowhere. -/
def Value.trace? (sources : TracedInputs) : Value → Option Provenance
  | .variable name => (sources.get? name).map fun traced => .variable name traced.value
  | .list items => some (.list (traceItems sources items))
  | .object fields => some (.object (OrderedMap.ofList (traceFields sources fields)))
  | .null => some (.literal .null)
  | .boolean value => some (.literal (.boolean value))
  | .int text => some (.literal (.int text))
  | .float text => some (.literal (.float text))
  | .string text => some (.literal (.string text))
  | .enum name => some (.literal (.enum name))

/-- Where the items of a list come from. -/
def traceItems (sources : TracedInputs) : List Value → List Provenance
  | [] => []
  | item :: items =>
    (item.trace? sources).getD (.literal .null) :: traceItems sources items

/-- Where the fields of an object come from, without those from nowhere. -/
def traceFields (sources : TracedInputs) : List (Name × Value) → List (Name × Provenance)
  | [] => []
  | (name, value) :: fields =>
    match value.trace? sources with
    | some traced => (name, traced) :: traceFields sources fields
    | none => traceFields sources fields

end

/-- Where the value of an argument comes from, if it has one. -/
def traceArgument? (sources : TracedInputs) (arguments : List Argument)
    (definition : InputDefinition) : Option Provenance :=
  match (findArgument? arguments definition.name).bind (Value.trace? sources) with
  | some traced => some traced
  | none => definition.default.map .default

/-- The arguments of a field that have a value, in the order of their definitions. -/
def traceArguments (sources : TracedInputs) (definition : FieldDefinition)
    (arguments : List Argument) : TracedInputs :=
  OrderedMap.ofList (definition.arguments.filterMap fun argument =>
    (traceArgument? sources arguments argument).map fun value =>
      (argument.name, ⟨argument.type, value⟩))

end SelectionForest
