import SelectionForest.Schema.Basic
import SelectionForest.Error
import SelectionForest.TypeSet

/-!
# Possible types

A composite type stands for a set of object types: an object for itself, an interface for the
objects that implement it, in the order of the schema, and a union for its members
(`Schema.possibleTypes`). A type condition narrows a set of object types to those that it stands
for (`Schema.restrict`); the empty set counts as no restriction there, so a caller that has pruned
everything has to stop before it narrows.
-/

namespace SelectionForest

/-- A type that may have a selection set or be a type condition. -/
inductive CompositeType where
  | object (name : Name)
  | interface (name : Name)
  | union (name : Name)
  deriving DecidableEq, Repr

namespace CompositeType

/-- The name of a composite type. -/
def name : CompositeType → Name
  | .object name => name
  | .interface name => name
  | .union name => name

/-- Whether a composite type may stand for other object types than itself. -/
def isAbstract : CompositeType → Bool
  | .object _ => false
  | _ => true

end CompositeType

namespace Schema

/-- The composite type of a name. -/
def compositeOf (schema : Schema) (name : Name) : Outcome CompositeType :=
  match schema.type? name with
  | some (.object _ _) => .ok (.object name)
  | some (.interface _ _) => .ok (.interface name)
  | some (.union _) => .ok (.union name)
  | some _ => .error (.internal (.notComposite name))
  | none => .error (.internal (.undefinedType name))

/-- The interfaces that object types declare, each with the object, in the order of the schema. -/
def implementations (schema : Schema) : List (Name × Name) :=
  schema.types.flatMap fun (object, type) =>
    match type with
    | .object interfaces _ => interfaces.map fun interface => (interface, object)
    | _ => []

/-- The interfaces that object types implement, in the order in which they come first, each with the
objects that implement it. -/
def implementedInterfaces (schema : Schema) : OrderedMap Name TypeSet :=
  (OrderedMap.pushAll schema.implementations).map fun (interface, objects) =>
    (interface, .ofList objects)

/-- The object types that implement an interface. -/
def objectsImplementing (schema : Schema) (interface : Name) : TypeSet :=
  (schema.implementedInterfaces.get? interface).getD .empty

/-- The object types that a composite type stands for. -/
def possibleTypes (schema : Schema) : CompositeType → Outcome TypeSet
  | .object name => .ok (.singleton name)
  | .interface name => .ok (schema.objectsImplementing name)
  | .union name =>
    match schema.type? name with
    | some (.union members) => .ok (.ofList members)
    | _ => .error (.internal (.undefinedUnion name))

/-- The object types of a set that a type condition stands for, and all that it stands for if the
set is empty. -/
def restrict (schema : Schema) (current : TypeSet) (condition : CompositeType) :
    Outcome TypeSet := do
  let possible ← schema.possibleTypes condition
  pure (if current.isEmpty then possible else current.inter possible)

/-- The definition of a field on a type, the meta-fields included. -/
def definitionOf (schema : Schema) (type field : Name) : Outcome FieldDefinition :=
  match schema.field? type field with
  | some definition => .ok definition
  | none => .error (.internal (.undefinedField field type))

/-- A set of names in braces, each in quotation marks. -/
def renderNames (names : List Name) : String :=
  "\x7b" ++ ", ".intercalate (names.map Text.quotedName) ++ "\x7d"

/-- The interfaces of a schema with the objects that implement them, on one line. -/
def renderInterfaces (schema : Schema) : String :=
  let entries := schema.implementedInterfaces.map fun (interface, objects) =>
    Text.quotedName interface ++ ": " ++ renderNames objects.names
  "QuerySchema \x7b implementers: \x7b" ++ ", ".intercalate entries ++ "\x7d, .. \x7d"

end Schema

end SelectionForest
