import SelectionForest.Condition
import SelectionForest.Input.Provenance
import SelectionForest.Schema.Possible

/-!
# Walks through selection sets

A `Request` is what an operation is run with: a schema, the fragments that it may spread, and the
values of its variables. A walk (`Request.walk`) goes through a selection set in document order,
into inline fragments and spread fragments, and visits each field that takes part for some object
type. It starts with a set of object types, which type conditions narrow on the way; a field is
visited with the object types that are left, and passed by if none are.

A walk carries a state, and ends with the first error.
-/

namespace SelectionForest

/-- What an operation is run with. -/
structure Request where
  schema : Schema
  fragments : Fragments
  /-- The coerced values of the variables. -/
  bindings : Members
  /-- Where the values of the variables come from, if arguments are to be traced. -/
  traced : Option TracedInputs

/-- What a walk does at a field: it gets the state, the field, the first of the object types that
are left, and all of them. -/
abbrev Visit (σ : Type) := σ → Field → Name → TypeSet → Outcome σ

namespace Request

/-- The object types of a set that a type condition leaves. -/
def restrict (request : Request) (types : TypeSet) (condition : Name) : Outcome TypeSet := do
  request.schema.restrict types (← request.schema.compositeOf condition)

variable {σ : Type}

mutual

/-- Walks through a selection; `enter` walks through a spread fragment. -/
def walkSelection (request : Request) (enter : Name → TypeSet → σ → Outcome σ)
    (visit : Visit σ) : Selection → TypeSet → σ → Outcome σ
  | .field field, types, state => do
    if ← isIncluded request.bindings field.directives then
      match types.first? with
      | some first => visit state field first types
      | none => pure state
    else pure state
  | .inline condition directives selections, types, state => do
    if ← isIncluded request.bindings directives then
      if types.isEmpty then pure state
      else match condition with
        | some type => do
          let left ← request.restrict types type
          walkSelections request enter visit selections left state
        | none => walkSelections request enter visit selections types state
    else pure state
  | .spread fragment directives, types, state => do
    if ← isIncluded request.bindings directives then enter fragment types state
    else pure state

/-- Walks through selections one after the other. -/
def walkSelections (request : Request) (enter : Name → TypeSet → σ → Outcome σ)
    (visit : Visit σ) : List Selection → TypeSet → σ → Outcome σ
  | [], _, state => pure state
  | selection :: selections, types, state => do
    let next ← walkSelection request enter visit selection types state
    walkSelections request enter visit selections types next

end

/-- Walks through a fragment, entering at most `nesting` fragments one inside the other. -/
def enterFragment (request : Request) (visit : Visit σ) :
    Nat → Name → TypeSet → σ → Outcome σ
  | 0, _, _, _ => .error .endless
  | nesting + 1, name, types, state =>
    match request.fragments.get? name with
    | none => .error (.internal (.undefinedFragment name))
    | some fragment => do
      if ← isIncluded request.bindings fragment.directives then
        if types.isEmpty then pure state
        else
          let left ← request.restrict types fragment.condition
          walkSelections request (enterFragment request visit nesting) visit
            fragment.selections left state
      else pure state

/-- How many fragments a walk may enter one inside the other. On the way down the object types only
get fewer, so a walk that enters more comes to a fragment again with the same types, and has no
end. -/
def nestingBound (request : Request) (types : TypeSet) : Nat :=
  request.fragments.length * (types.names.length + 1) + 1

/-- Walks through a selection set, from a set of object types. -/
def walk (request : Request) (visit : Visit σ) (types : TypeSet) (selections : List Selection)
    (state : σ) : Outcome σ :=
  walkSelections request (enterFragment request visit (request.nestingBound types)) visit
    selections types state

end Request

end SelectionForest
