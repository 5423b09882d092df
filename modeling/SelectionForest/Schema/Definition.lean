import SelectionForest.Schema.Basic
import SelectionForest.Document.Grammar

/-!
# Reading type-system documents

The definitions and extensions of a type-system document, in the order they are written
(`TypeSystemDefinition.read?`). A type definition and an extension of that kind of type hold the
same things, so both are kept as a `TypeDefinition`. Executable definitions are refused.

A schema definition may leave out its roots; an extension can add them.

No comma stands behind the description of a definition, nor behind the word that introduces an
extension.
-/

namespace SelectionForest

/-- A definition or extension of a type-system document. -/
inductive TypeSystemDefinition where
  | schema (roots : List (OperationKind × Name))
  | schemaExtension (roots : List (OperationKind × Name))
  | type (name : Name) (definition : TypeDefinition)
  | typeExtension (name : Name) (definition : TypeDefinition)
  | directive (name : Name) (arguments : List InputDefinition)

namespace Reading

/-- An argument of a field or directive, or a field of an input object. -/
def inputDefinition : Reading InputDefinition := do
  let _ ← description
  let n ← name
  mark ':'
  let t ← type
  let default ← defaultValue
  let _ ← constantDirectives
  pure ⟨n, t, default⟩

/-- A field of an object or interface. -/
def fieldDefinition : Reading FieldDefinition := do
  let _ ← description
  let n ← name
  let parameters ← enclosedOptional '(' ')' inputDefinition
  mark ':'
  let t ← type
  let _ ← constantDirectives
  pure ⟨n, parameters, t⟩

/-- A value of an enum. -/
def enumValue : Reading Name := do
  let _ ← description
  let n ← nameExcept ["true", "false", "null"]
  let _ ← constantDirectives
  pure n

/-- The root type of a kind of operations, and nothing if the name of the type is missing. -/
def rootType? : Reading (Option (OperationKind × Name)) := do
  match operationKind? (← name) with
  | some kind =>
    mark ':'
    pure ((← name?).map fun n => (kind, n))
  | none => failure

/-- The interfaces that a type implements, if any come. -/
def interfaces : Reading (List Name) := do
  if ← accept (.name "implements") then separated '&' name else pure []

/-- The members of a union, if any come. -/
def members : Reading (List Name) := do
  if ← acceptMark '=' then separated '|' name else pure []

/-- What follows the word and the name of a type definition. An extension adds something. -/
def typeBody (word : Name) (extending : Bool) : Reading TypeDefinition := do
  if word = "scalar" then
    let applied ← constantDirectives
    if extending ∧ applied.isEmpty then failure else pure .scalar
  else if word = "type" ∨ word = "interface" then
    let implemented ← interfaces
    let applied ← constantDirectives
    let fields ← enclosedOptional '{' '}' fieldDefinition
    if extending ∧ implemented.isEmpty ∧ applied.isEmpty ∧ fields.isEmpty then failure
    else if word = "type" then pure (.object implemented fields)
    else pure (.interface implemented fields)
  else if word = "union" then
    let applied ← constantDirectives
    let names ← members
    if extending ∧ applied.isEmpty ∧ names.isEmpty then failure else pure (.union names)
  else if word = "enum" then
    let applied ← constantDirectives
    let values ← enclosedOptional '{' '}' enumValue
    if extending ∧ applied.isEmpty ∧ values.isEmpty then failure else pure (.enum values)
  else if word = "input" then
    let applied ← constantDirectives
    let fields ← enclosedOptional '{' '}' inputDefinition
    if extending ∧ applied.isEmpty ∧ fields.isEmpty then failure else pure (.inputObject fields)
  else failure

/-- The places of a document where a directive may be allowed. -/
def directiveLocations : List Name :=
  ["QUERY", "MUTATION", "SUBSCRIPTION", "FIELD", "FRAGMENT_DEFINITION", "FRAGMENT_SPREAD",
    "INLINE_FRAGMENT", "VARIABLE_DEFINITION", "SCHEMA", "SCALAR", "OBJECT", "FIELD_DEFINITION",
    "ARGUMENT_DEFINITION", "INTERFACE", "UNION", "ENUM", "ENUM_VALUE", "INPUT_OBJECT",
    "INPUT_FIELD_DEFINITION"]

/-- A place where a directive is allowed. -/
def directiveLocation : Reading Name := do
  let n ← name
  if directiveLocations.contains n then pure n else failure

/-- A definition of a directive, after its first word. -/
def directiveDefinition : Reading TypeSystemDefinition := do
  mark '@'
  let n ← name
  let parameters ← enclosedOptional '(' ')' inputDefinition
  let _ ← accept (.name "repeatable")
  keyword "on"
  let _ ← separated '|' directiveLocation
  pure (.directive n parameters)

/-- What an extension adds, after the word that introduces it. -/
def typeSystemExtension : Reading TypeSystemDefinition := do
  let word ← name
  if word = "schema" then
    let applied ← constantDirectives
    let roots ←
      if ← isNext (.punctuator '{') then enclosed '{' '}' rootType? else pure []
    if applied.isEmpty ∧ roots.isEmpty then failure
    else pure (.schemaExtension (roots.filterMap id))
  else
    let n ← name
    let body ← typeBody word true
    pure (.typeExtension n body)

/-- A definition or extension of a type-system document. Extensions have no description. -/
def typeSystemDefinition : Reading TypeSystemDefinition := do
  let described ← description
  if described then noComma
  let word ← name
  if word = "schema" then
    let _ ← constantDirectives
    let roots ← enclosedOptional '{' '}' rootType?
    pure (.schema (roots.filterMap id))
  else if word = "directive" then directiveDefinition
  else if word = "extend" then
    if described then failure
    noComma
    typeSystemExtension
  else
    let n ← name
    let body ← typeBody word false
    pure (.type n body)

end Reading

/-- The definitions of a type-system document. -/
def TypeSystemDefinition.read? (text : String) : Option (List TypeSystemDefinition) :=
  Reading.run? Reading.typeSystemDefinition text

end SelectionForest
