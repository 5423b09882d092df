/-!
# Executable documents

The operations and fragments of a GraphQL document. A selection set is a list of selections; a
selection is a field, an inline fragment or a fragment spread.

Two fields written alike at different places of a document are told apart by their `place`. A
document gives different places to its fields, and a fragment's fields keep theirs wherever the
fragment is spread.
-/

namespace SelectionForest

/-- A name of a GraphQL document. -/
abbrev Name := String

/-- A reference to a type: a named type or a list, and whether it excludes `null`. -/
inductive TypeRef where
  | named (name : Name) (nonNull : Bool)
  | list (item : TypeRef) (nonNull : Bool)
  deriving DecidableEq, Repr

namespace TypeRef

/-- Whether `null` is excluded. -/
def isNonNull : TypeRef → Bool
  | .named _ nonNull => nonNull
  | .list _ nonNull => nonNull

/-- The named type inside all lists. -/
def innerName : TypeRef → Name
  | .named name _ => name
  | .list item _ => item.innerName

/-- How many lists enclose the named type. -/
def listDepth : TypeRef → Nat
  | .named _ _ => 0
  | .list item _ => item.listDepth + 1

/-- The type as it is written. -/
def render : TypeRef → String
  | .named name nonNull => name ++ (if nonNull then "!" else "")
  | .list item nonNull => "[" ++ item.render ++ "]" ++ (if nonNull then "!" else "")

end TypeRef

/-- A literal. Numbers keep the text they were written with. -/
inductive Value where
  | null
  | boolean (value : Bool)
  | int (text : String)
  | float (text : String)
  | string (text : String)
  | enum (name : Name)
  | variable (name : Name)
  | list (items : List Value)
  | object (fields : List (Name × Value))

/-- Whether a literal is `null`. -/
def Value.isNull : Value → Bool
  | .null => true
  | _ => false

/-- The variable that a literal is, if it is one. -/
def Value.asVariable? : Value → Option Name
  | .variable name => some name
  | _ => none

/-- An argument as it is written. -/
structure Argument where
  name : Name
  value : Value

/-- The value of the first argument of a name. -/
def findArgument? (arguments : List Argument) (name : Name) : Option Value :=
  (arguments.find? (·.name = name)).map (·.value)

/-- A directive as it is written. -/
structure Directive where
  name : Name
  arguments : List Argument

mutual

/-- An entry of a selection set. -/
inductive Selection where
  | field (field : Field)
  | inline (condition : Option Name) (directives : List Directive) (selections : List Selection)
  | spread (fragment : Name) (directives : List Directive)

/-- A selected field. -/
structure Field where
  /-- Tells the field from all other fields of its document. -/
  place : Nat
  aliasName : Option Name
  name : Name
  arguments : List Argument
  directives : List Directive
  selections : List Selection

end

/-- The key of a field in a response: its alias, or else its name. -/
def Field.responseKey (field : Field) : Name := field.aliasName.getD field.name

mutual

/-- The fields that a selection writes at any depth, in document order. Spreads write none. -/
def Selection.fields : Selection → List Field
  | .field field => field.fields
  | .inline _ _ selections => fieldsOf selections
  | .spread _ _ => []

/-- A field, and the fields below it in document order. -/
def Field.fields : Field → List Field
  | ⟨place, aliasName, name, arguments, directives, selections⟩ =>
    ⟨place, aliasName, name, arguments, directives, selections⟩ :: fieldsOf selections

/-- The fields that a selection set writes at any depth, in document order. -/
def fieldsOf : List Selection → List Field
  | [] => []
  | selection :: selections => selection.fields ++ fieldsOf selections

end

/-- A variable of an operation. -/
structure VariableDefinition where
  name : Name
  type : TypeRef
  default : Option Value

/-- What an operation does. -/
inductive OperationKind where
  | query
  | mutation
  | subscription
  deriving DecidableEq, Repr

/-- An operation and the type that its selection set is on. -/
structure Operation where
  name : Option Name
  rootType : Name
  variableDefinitions : List VariableDefinition
  selections : List Selection

/-- A named fragment and the type that its selection set is on. -/
structure Fragment where
  name : Name
  condition : Name
  directives : List Directive
  selections : List Selection

/-- The fragments that spreads refer to. -/
abbrev Fragments := List Fragment

/-- The fragment of a name. -/
def Fragments.get? (fragments : Fragments) (name : Name) : Option Fragment :=
  fragments.find? (·.name = name)

/-- The operations and the fragments of a document, in document order. -/
structure Document where
  operations : List Operation
  fragments : Fragments

/-- The operation of a name; without a name the operation that has none, if it stands alone, or
else the only operation. -/
def Document.operation? (document : Document) : Option Name → Option Operation
  | some name => document.operations.find? (·.name = some name)
  | none =>
    match document.operations with
    | [operation] => some operation
    | _ => none

end SelectionForest
