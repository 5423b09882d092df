import SelectionForest.Document.Executable
import SelectionForest.Document.Nesting
import SelectionForest.Schema.Assembly

/-!
# Documents on a schema

An executable document is resolved on a schema: each operation gets its root type, and each selected
field is looked up on the type of its selection set (`Document.resolve?`). A field that its type
does not have, a selection set below a scalar or enum, an undefined type condition and an undefined
root have no resolution. Fields of a type that is not in the schema are left out.

`Document.isValid` adds what a valid document needs besides: its fragments and the types of its
variables are defined, required arguments are given, fields of composite type have selections, and
selection sets nest within the limits.
-/

namespace SelectionForest

mutual

/-- A selection on a type, or no selection where it is left out. -/
def Selection.resolve? (schema : Schema) (parent : Name) : Selection → Option (List Selection)
  | .field field => (field.resolve? schema parent).map (·.map .field)
  | .inline condition directives selections =>
    if condition.any fun type => (schema.type? type).isNone then none
    else (resolveAll? schema (condition.getD parent) selections).map fun resolved =>
      [.inline condition directives resolved]
  | .spread fragment directives => some [.spread fragment directives]

/-- A field on a type, or no field where it is left out. -/
def Field.resolve? (schema : Schema) (parent : Name) : Field → Option (List Field)
  | ⟨place, aliasName, name, arguments, directives, selections⟩ =>
    if (schema.type? parent).isNone then some []
    else match schema.field? parent name with
      | none => none
      | some definition =>
        let type := definition.type.innerName
        if !selections.isEmpty && (schema.type? type).any (·.isLeaf) then none
        else (resolveAll? schema type selections).map fun resolved =>
          [⟨place, aliasName, name, arguments, directives, resolved⟩]

/-- A selection set on a type. -/
def resolveAll? (schema : Schema) (parent : Name) : List Selection → Option (List Selection)
  | [] => some []
  | selection :: selections =>
    match selection.resolve? schema parent, resolveAll? schema parent selections with
    | some resolved, some rest => some (resolved ++ rest)
    | _, _ => none

end

/-- An operation on its root type. -/
def OperationDefinition.resolve? (schema : Schema) (definition : OperationDefinition) :
    Option Operation := do
  let root ← schema.root? definition.kind
  let selections ← resolveAll? schema root definition.selections
  some ⟨definition.name, root, definition.variableDefinitions, selections⟩

/-- A fragment on its type. -/
def Fragment.resolve? (schema : Schema) (fragment : Fragment) : Option Fragment :=
  if (schema.type? fragment.condition).isNone then none
  else (resolveAll? schema fragment.condition fragment.selections).map fun resolved =>
    { fragment with selections := resolved }

namespace ExecutableDefinition

/-- The operation that a definition defines. -/
def operation? : ExecutableDefinition → Option OperationDefinition
  | .operation definition => some definition
  | _ => none

/-- The fragment that a definition defines. -/
def fragment? : ExecutableDefinition → Option Fragment
  | .fragment definition => some definition
  | _ => none

end ExecutableDefinition

/-- Whether operations can be told apart: their names differ, and one without a name is alone. -/
def areDistinguished (operations : List OperationDefinition) : Bool :=
  distinct (operations.filterMap (·.name))
    && (operations.length ≤ 1 || operations.all (·.name.isSome))

/-- The document that definitions describe on a schema. -/
def Document.resolve? (schema : Schema) (definitions : List ExecutableDefinition) :
    Option Document := do
  let operations := definitions.filterMap ExecutableDefinition.operation?
  let fragments := definitions.filterMap ExecutableDefinition.fragment?
  if areDistinguished operations && distinct (fragments.map (·.name)) then
    let operations ← operations.mapM (·.resolve? schema)
    let fragments ← fragments.mapM (·.resolve? schema)
    some ⟨operations, fragments⟩
  else none

/-- Whether arguments give a value to each definition that needs one. -/
def givesRequired (definitions : List InputDefinition) (arguments : List Argument) : Bool :=
  definitions.all fun definition =>
    !definition.type.isNonNull || definition.default.isSome
      || (findArgument? arguments definition.name).any (!·.isNull)

/-- Whether directives that the schema knows have the arguments they need. -/
def Schema.allowsDirectives (schema : Schema) (directives : List Directive) : Bool :=
  directives.all fun directive =>
    (schema.directives.get? directive.name).all (givesRequired · directive.arguments)

mutual

/-- Whether a resolved selection on a type is valid. -/
def Selection.isValid (schema : Schema) (fragments : Fragments) (parent : Name) :
    Selection → Bool
  | .field field => field.isValid schema fragments parent
  | .inline condition directives selections =>
    schema.allowsDirectives directives
      && areValid schema fragments (condition.getD parent) selections
  | .spread fragment directives =>
    schema.allowsDirectives directives && (fragments.get? fragment).isSome

/-- Whether a resolved field on a type is valid. -/
def Field.isValid (schema : Schema) (fragments : Fragments) (parent : Name) : Field → Bool
  | ⟨_, _, name, arguments, directives, selections⟩ =>
    schema.allowsDirectives directives
      && (match schema.field? parent name with
        | none => true
        | some definition =>
          givesRequired definition.arguments arguments
            && (!selections.isEmpty || !schema.isComposite definition.type.innerName)
            && areValid schema fragments definition.type.innerName selections)

/-- Whether a resolved selection set on a type is valid. -/
def areValid (schema : Schema) (fragments : Fragments) (parent : Name) : List Selection → Bool
  | [] => true
  | selection :: selections =>
    selection.isValid schema fragments parent && areValid schema fragments parent selections

end

/-- Whether a resolved document is valid. -/
def Document.isValid (schema : Schema) (document : Document) : Bool :=
  document.isWithinLimits && document.operations.all (fun operation =>
      operation.variableDefinitions.all (fun v => (schema.type? v.type.innerName).isSome)
        && areValid schema document.fragments operation.rootType operation.selections)
    && document.fragments.all fun fragment =>
      schema.allowsDirectives fragment.directives
        && areValid schema document.fragments fragment.condition fragment.selections

/-- The document that a text describes on a schema, without checking that it is valid. -/
def Document.build? (schema : Schema) (text : String) : Option Document :=
  (ExecutableDefinition.read? text).bind (resolve? schema)

/-- The valid document that a text describes on a schema. -/
def Document.validated? (schema : Schema) (text : String) : Option Document := do
  let document ← build? schema text
  if document.isValid schema then some document else none

end SelectionForest
