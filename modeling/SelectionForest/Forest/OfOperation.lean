import SelectionForest.Forest.Builder

/-!
# The forest of an operation

A forest is built from an operation, the schema that it is on, and the fragments that it may spread.
The values of its variables are either coerced already (`Operation.forest`) or those of a request
(`Operation.forestOfValues`), which are coerced first; in the latter case it is known where the
values of arguments come from, and the options say whether to record it.

`Document.forest` and `Document.forestOfValues` choose the operation by its name, and let it spread
the fragments of its document.
-/

namespace SelectionForest

namespace Operation

/-- The forest of an operation, with coerced values of its variables and, if arguments are to be
traced, with the provenance of these values. -/
def forestWith (operation : Operation) (schema : Schema) (options : Options)
    (fragments : Fragments) (bindings : Members) (sources : Option TracedInputs) :
    Outcome Forest :=
  let request : Request := ⟨schema, fragments, bindings, sources⟩
  request.build options operation

/-- The forest of an operation, with coerced values of its variables. -/
def forest (operation : Operation) (schema : Schema) (options : Options) (fragments : Fragments)
    (bindings : Members) : Outcome Forest :=
  operation.forestWith schema options fragments bindings none

/-- The forest of an operation, with the values that a request gives to its variables. -/
def forestOfValues (operation : Operation) (schema : Schema) (options : Options)
    (fragments : Fragments) (values : Members) : Outcome Forest := do
  let definitions := operation.variableDefinitions
  let bindings ← coerceVariables schema definitions values
  let sources := if options.tracesArguments then some (traceVariables definitions values) else none
  operation.forestWith schema options fragments bindings sources

end Operation

namespace Document

/-- The operation of a name in a document; without a name, the only one. -/
def selectOperation (document : Document) (name : Option Name) : Outcome Operation :=
  match document.operation? name with
  | some operation => .ok operation
  | none => .error (.unknownOperation name)

/-- The forest of an operation of a document, with coerced values of its variables. -/
def forest (document : Document) (name : Option Name) (schema : Schema) (options : Options)
    (bindings : Members) : Outcome Forest := do
  let operation ← document.selectOperation name
  operation.forest schema options document.fragments bindings

/-- The forest of an operation of a document, with the values that a request gives to its
variables. -/
def forestOfValues (document : Document) (name : Option Name) (schema : Schema)
    (options : Options) (values : Members) : Outcome Forest := do
  let operation ← document.selectOperation name
  operation.forestOfValues schema options document.fragments values

end Document

end SelectionForest
