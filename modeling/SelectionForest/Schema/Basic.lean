import SelectionForest.Document.Basic
import SelectionForest.OrderedMap

/-!
# Schemas

A schema lists its types in order, names the root types of the three kinds of operations, and knows
the arguments of its directives. A type is one of six kinds; a field has arguments and a type.

`Schema.field?` finds a field of a type, the meta-fields included: every object, interface and union
has `__typename`, and the query root has `__schema` and `__type`.
-/

namespace SelectionForest

/-- An argument of a field, or a field of an input object. -/
structure InputDefinition where
  name : Name
  type : TypeRef
  default : Option Value

/-- A field of an object or interface. -/
structure FieldDefinition where
  name : Name
  arguments : List InputDefinition
  type : TypeRef

/-- What a type is. -/
inductive TypeDefinition where
  | scalar
  | object (interfaces : List Name) (fields : List FieldDefinition)
  | interface (interfaces : List Name) (fields : List FieldDefinition)
  | union (members : List Name)
  | enum (values : List Name)
  | inputObject (fields : List InputDefinition)

namespace TypeDefinition

/-- The fields of an object or interface; other types have none. -/
def fields : TypeDefinition → List FieldDefinition
  | .object _ fields => fields
  | .interface _ fields => fields
  | _ => []

/-- Whether a type may have a selection set: it is an object, an interface or a union. -/
def isComposite : TypeDefinition → Bool
  | .object _ _ => true
  | .interface _ _ => true
  | .union _ => true
  | _ => false

/-- Whether a type has values without parts: it is a scalar or an enum. -/
def isLeaf : TypeDefinition → Bool
  | .scalar => true
  | .enum _ => true
  | _ => false

end TypeDefinition

/-- A schema. -/
structure Schema where
  types : OrderedMap Name TypeDefinition
  query : Option Name
  mutation : Option Name
  subscription : Option Name
  directives : OrderedMap Name (List InputDefinition)

namespace Schema

/-- The type of a name. -/
def type? (schema : Schema) (name : Name) : Option TypeDefinition := schema.types.get? name

/-- The root type of a kind of operations. -/
def root? (schema : Schema) : OperationKind → Option Name
  | .query => schema.query
  | .mutation => schema.mutation
  | .subscription => schema.subscription

/-- Whether a name is that of an object, interface or union. -/
def isComposite (schema : Schema) (name : Name) : Bool :=
  (schema.type? name).any TypeDefinition.isComposite

/-- The field `__typename`. -/
def typenameField : FieldDefinition := ⟨"__typename", [], .named "String" true⟩

/-- The field `__schema` of the query root. -/
def schemaField : FieldDefinition := ⟨"__schema", [], .named "__Schema" true⟩

/-- The field `__type` of the query root. -/
def typeField : FieldDefinition :=
  ⟨"__type", [⟨"name", .named "String" true, none⟩], .named "__Type" false⟩

/-- The meta-fields of a type. -/
def metaFields (schema : Schema) (name : Name) (type : TypeDefinition) : List FieldDefinition :=
  (if type.isComposite then [typenameField] else [])
    ++ (if schema.query = some name then [schemaField, typeField] else [])

/-- The definition of a field on a type, and nothing if the type is not in the schema or has no such
field. -/
def field? (schema : Schema) (typeName fieldName : Name) : Option FieldDefinition :=
  match schema.type? typeName with
  | none => none
  | some type =>
    (type.fields ++ schema.metaFields typeName type).find? (·.name = fieldName)

end Schema

end SelectionForest
