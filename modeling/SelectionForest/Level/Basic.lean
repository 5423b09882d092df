import SelectionForest.Document.Likeness
import SelectionForest.Input.Arguments
import SelectionForest.Level.Request

/-!
# Levels

The selections below one position of an operation are collected into a `Level`: a list of clusters
in the order in which they are founded. A cluster merges the fields of one response key that select
the same field, of the same type and with like arguments. It keeps the object types that any of them
is selected for; all else comes from the field that founded it (`Request.level`).

A level is listed by response key (`Level.grouped`): clusters of one key stand together, in the
order in which they were founded, and keys in the order in which they came first.
-/

namespace SelectionForest

/-- The fields of a document that were merged into one, in the order in which they were met. There
is at least one. -/
structure Bundle where
  first : Field
  more : List Field

namespace Bundle

/-- The merged fields. -/
def fields (bundle : Bundle) : List Field := bundle.first :: bundle.more

/-- Merges one more field. -/
def push (bundle : Bundle) (field : Field) : Bundle :=
  { bundle with more := bundle.more ++ [field] }

/-- The name of the merged fields. -/
def name (bundle : Bundle) : Name := bundle.first.name

/-- The response key of the merged fields. -/
def responseKey (bundle : Bundle) : Name := bundle.first.responseKey

/-- The arguments as the first field writes them; those of the others are like them. -/
def arguments (bundle : Bundle) : List Argument := bundle.first.arguments

/-- How many fields were merged. -/
def length (bundle : Bundle) : Nat := bundle.fields.length

end Bundle

/-- Fields of one level that select the same. -/
structure Cluster where
  merged : Bundle
  /-- The declared type of the field. -/
  type : TypeRef
  /-- The object types that the field is selected for. -/
  objectTypes : TypeSet
  /-- The values of the arguments. -/
  resolved : Members
  /-- Where the values of the arguments come from, if that is traced. -/
  traced : Option TracedInputs

namespace Cluster

/-- Whether a field that has the given type belongs to a cluster. -/
def takes (cluster : Cluster) (field : Field) (type : TypeRef) : Bool :=
  cluster.merged.responseKey == field.responseKey && cluster.merged.name == field.name
    && cluster.type == type && areLike cluster.merged.arguments field.arguments

/-- Merges a field that is selected for the given object types. -/
def merge (cluster : Cluster) (field : Field) (types : TypeSet) : Cluster :=
  { cluster with
    merged := cluster.merged.push field
    objectTypes := cluster.objectTypes.union types }

/-- The selection sets of the merged fields. -/
def selectionSets (cluster : Cluster) : List (List Selection) :=
  cluster.merged.fields.map (·.selections)

end Cluster

/-- The clusters of a level, in the order in which they were founded. -/
abbrev Level := List Cluster

namespace Level

/-- Merges a field into the first cluster that takes it, if one does. -/
def merge? (field : Field) (type : TypeRef) (types : TypeSet) : Level → Option Level
  | [] => none
  | cluster :: level =>
    if cluster.takes field type then some (cluster.merge field types :: level)
    else (merge? field type types level).map (cluster :: ·)

/-- The clusters by response key, each with its place in the order of foundation. -/
def grouped (level : Level) : List (Cluster × Nat) :=
  (withoutRepeats (level.map (·.merged.responseKey))).flatMap fun key =>
    level.zipIdx.filter (·.1.merged.responseKey == key)

end Level

namespace Request

/-- The cluster that a field founds. -/
def found (request : Request) (definition : FieldDefinition) (field : Field) (types : TypeSet) :
    Outcome Cluster := do
  let resolved ← resolveArguments request.schema request.bindings definition field.arguments
  pure {
    merged := ⟨field, []⟩
    type := definition.type
    objectTypes := types
    resolved := resolved
    traced := request.traced.map fun sources =>
      traceArguments sources definition field.arguments }

/-- Puts a field into a level: it is merged into a cluster, or founds one. Its definition is that on
the first of its object types. -/
def add (request : Request) : Visit Level := fun level field first types => do
  let definition ← request.schema.definitionOf first field.name
  match level.merge? field definition.type types with
  | some merged => pure merged
  | none => do
    let cluster ← request.found definition field types
    pure (level ++ [cluster])

/-- The level of selection sets that are selected for the given object types. -/
def level (request : Request) (types : TypeSet) (sets : List (List Selection)) :
    Outcome Level :=
  sets.foldlM (fun level selections => request.walk request.add types selections level) []

end Request

end SelectionForest
