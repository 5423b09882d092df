import SelectionForest.Document.Grammar

/-!
# Reading executable documents

The definitions of an executable document as they are written (`ExecutableDefinition.read?`): an
operation names what it does and not yet the type it is on, which is the schema's to say.
Type-system definitions are refused.
-/

namespace SelectionForest

/-- An operation as it is written. -/
structure OperationDefinition where
  name : Option Name
  kind : OperationKind
  variableDefinitions : List VariableDefinition
  directives : List Directive
  selections : List Selection

/-- A definition of an executable document. -/
inductive ExecutableDefinition where
  | operation (definition : OperationDefinition)
  | fragment (definition : Fragment)

namespace Reading

/-- A selection whose selection set, if it has one, is read by `set`. The values of its arguments
have at most `levels` levels. No comma stands behind a spread, nor before the colon of an alias. -/
def selectionOf (levels : Nat) (set : Reading (List Selection)) : Reading Selection := do
  if ← accept .spread then
    noComma
    match ← name? with
    | some "on" =>
      let condition ← name
      let written ← directives false levels
      let selections ← set
      pure (.inline (some condition) written selections)
    | some fragment =>
      let written ← directives false levels
      pure (.spread fragment written)
    | none =>
      let written ← directives false levels
      let selections ← set
      pure (.inline none written selections)
  else
    let place ← remaining
    let first ← name
    let aliased ← if ← isAfterComma then pure false else acceptMark ':'
    let fieldName ← if aliased then name else pure first
    let written ← arguments false levels
    let applied ← directives false levels
    let selections ← if ← isNext (.punctuator '{') then set else pure []
    pure (.field
      ⟨place, if aliased then some first else none, fieldName, written, applied, selections⟩)

/-- A selection set in braces, with at least one selection and at most `levels` levels of selection
sets. -/
def selectionSetIn : Nat → Reading (List Selection)
  | 0 => failure
  | levels + 1 => enclosedSome '{' '}' (selectionOf levels (selectionSetIn levels))

/-- A selection set in braces. -/
def selectionSet : Reading (List Selection) := selectionSetIn nestingLimit

/-- A definition of a variable. -/
def variableDefinition : Reading VariableDefinition := do
  mark '$'
  let n ← name
  mark ':'
  let t ← type
  let default ← defaultValue
  let _ ← constantDirectives
  pure ⟨n, t, default⟩

/-- An operation after the word that introduces it. -/
def operationOf (kind : OperationKind) : Reading ExecutableDefinition := do
  let n ← name?
  let variableDefinitions ← enclosedOptional '(' ')' variableDefinition
  let applied ← directives false nestingLimit
  let selections ← selectionSet
  pure (.operation ⟨n, kind, variableDefinitions, applied, selections⟩)

/-- A fragment after the word that introduces it. -/
def fragment : Reading ExecutableDefinition := do
  let n ← nameExcept ["on"]
  keyword "on"
  let condition ← name
  let applied ← directives false nestingLimit
  let selections ← selectionSet
  pure (.fragment ⟨n, condition, applied, selections⟩)

/-- A definition of an executable document. -/
def executableDefinition : Reading ExecutableDefinition := do
  if ← isNext (.punctuator '{') then
    let selections ← selectionSet
    pure (.operation ⟨none, .query, [], [], selections⟩)
  else
    let word ← name
    if word = "fragment" then fragment
    else match operationKind? word with
      | some kind => operationOf kind
      | none => failure

end Reading

/-- The definitions of an executable document. -/
def ExecutableDefinition.read? (text : String) : Option (List ExecutableDefinition) :=
  Reading.run? Reading.executableDefinition text

end SelectionForest
