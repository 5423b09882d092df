import SelectionForest.Schema.Basic

/-!
# Built-in types and directives

The types that every schema starts with, in order: the introspection types and the five built-in
scalars; and the directives that every schema knows.
-/

namespace SelectionForest.Schema

/-- The built-in scalars. -/
def builtInScalars : List Name := ["Int", "Float", "String", "Boolean", "ID"]

/-- A named type. -/
def named (name : Name) : TypeRef := .named name false

/-- A named type without `null`. -/
def required (name : Name) : TypeRef := .named name true

/-- A list of values of a named type without `null`. -/
def listOf (name : Name) (nonNull : Bool) : TypeRef := .list (.named name true) nonNull

/-- A field without arguments. -/
def plainField (name : Name) (type : TypeRef) : FieldDefinition := ⟨name, [], type⟩

/-- A field that lists deprecated entries only on demand. -/
def deprecatableField (name : Name) (type : TypeRef) : FieldDefinition :=
  ⟨name, [⟨"includeDeprecated", named "Boolean", some (.boolean false)⟩], type⟩

/-- The introspection types. -/
def introspectionTypes : OrderedMap Name TypeDefinition :=
  [("__Schema", .object []
      [plainField "description" (named "String"),
        plainField "types" (listOf "__Type" true),
        plainField "queryType" (required "__Type"),
        plainField "mutationType" (named "__Type"),
        plainField "subscriptionType" (named "__Type"),
        plainField "directives" (listOf "__Directive" true)]),
    ("__Type", .object []
      [plainField "kind" (required "__TypeKind"),
        plainField "name" (named "String"),
        plainField "description" (named "String"),
        deprecatableField "fields" (listOf "__Field" false),
        plainField "interfaces" (listOf "__Type" false),
        plainField "possibleTypes" (listOf "__Type" false),
        deprecatableField "enumValues" (listOf "__EnumValue" false),
        deprecatableField "inputFields" (listOf "__InputValue" false),
        plainField "ofType" (named "__Type"),
        plainField "specifiedByURL" (named "String")]),
    ("__TypeKind", .enum
      ["SCALAR", "OBJECT", "INTERFACE", "UNION", "ENUM", "INPUT_OBJECT", "LIST", "NON_NULL"]),
    ("__Field", .object []
      [plainField "name" (required "String"),
        plainField "description" (named "String"),
        deprecatableField "args" (listOf "__InputValue" true),
        plainField "type" (required "__Type"),
        plainField "isDeprecated" (required "Boolean"),
        plainField "deprecationReason" (named "String")]),
    ("__InputValue", .object []
      [plainField "name" (required "String"),
        plainField "description" (named "String"),
        plainField "type" (required "__Type"),
        plainField "defaultValue" (named "String"),
        plainField "isDeprecated" (required "Boolean"),
        plainField "deprecationReason" (named "String")]),
    ("__EnumValue", .object []
      [plainField "name" (required "String"),
        plainField "description" (named "String"),
        plainField "isDeprecated" (required "Boolean"),
        plainField "deprecationReason" (named "String")]),
    ("__Directive", .object []
      [plainField "name" (required "String"),
        plainField "description" (named "String"),
        plainField "locations" (listOf "__DirectiveLocation" true),
        deprecatableField "args" (listOf "__InputValue" true),
        plainField "isRepeatable" (required "Boolean")]),
    ("__DirectiveLocation", .enum
      ["QUERY", "MUTATION", "SUBSCRIPTION", "FIELD", "FRAGMENT_DEFINITION", "FRAGMENT_SPREAD",
        "INLINE_FRAGMENT", "VARIABLE_DEFINITION", "SCHEMA", "SCALAR", "OBJECT",
        "FIELD_DEFINITION", "ARGUMENT_DEFINITION", "INTERFACE", "UNION", "ENUM", "ENUM_VALUE",
        "INPUT_OBJECT", "INPUT_FIELD_DEFINITION"])]

/-- The types that every schema starts with. -/
def builtInTypes : OrderedMap Name TypeDefinition :=
  introspectionTypes ++ builtInScalars.map fun name => (name, .scalar)

/-- The directives that every schema knows. -/
def builtInDirectives : OrderedMap Name (List InputDefinition) :=
  [("skip", [⟨"if", required "Boolean", none⟩]),
    ("include", [⟨"if", required "Boolean", none⟩]),
    ("deprecated", [⟨"reason", named "String", some (.string "No longer supported")⟩]),
    ("specifiedBy", [⟨"url", required "String", none⟩])]

end SelectionForest.Schema
