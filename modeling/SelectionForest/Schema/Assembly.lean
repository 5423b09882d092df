import SelectionForest.Schema.Definition
import SelectionForest.Schema.Introspection

/-!
# Assembling a schema

A schema is assembled from the definitions of a type-system document (`Schema.ofDefinitions?`). Its
types are the built-in ones and then the defined ones in the order of their definitions. Extensions
add to their type in the order they are written, and may stand before its definition: they wait for
it then, and those that turn out to be for another kind of type add nothing. The roots are those
that the document names, or else the object types with the default names.

Definitions that contradict each other have no schema: a type, a directive or the roots defined
twice, a field, value or member given twice, an extension of a type that is never defined, or one
behind the definition of another kind of type.

In a validated schema (`Schema.isValid`) every type that is mentioned is defined and there is a
query root. It has no built-in scalars that nothing uses (`Schema.dropUnusedScalars`).
-/

namespace SelectionForest

/-- Whether the names of a list are different. -/
def distinct (names : List Name) : Bool := decide names.Nodup

namespace TypeDefinition

/-- A type with what an extension of its kind adds. -/
def extend? : TypeDefinition → TypeDefinition → Option TypeDefinition
  | .scalar, .scalar => some .scalar
  | .object is fs, .object is' fs' => some (.object (is ++ is') (fs ++ fs'))
  | .interface is fs, .interface is' fs' => some (.interface (is ++ is') (fs ++ fs'))
  | .union ms, .union ms' => some (.union (ms ++ ms'))
  | .enum vs, .enum vs' => some (.enum (vs ++ vs'))
  | .inputObject fs, .inputObject fs' => some (.inputObject (fs ++ fs'))
  | _, _ => none

/-- A type with what those of some extensions that are of its kind add, one after the other. -/
def extendAll (definition : TypeDefinition) (extensions : List TypeDefinition) : TypeDefinition :=
  extensions.foldl (fun whole extension => (whole.extend? extension).getD whole) definition

/-- Whether a type has no part twice. -/
def hasDistinctParts : TypeDefinition → Bool
  | .scalar => true
  | .object is fs => distinct is && distinct (fs.map (·.name))
  | .interface is fs => distinct is && distinct (fs.map (·.name))
  | .union ms => distinct ms
  | .enum vs => distinct vs
  | .inputObject fs => distinct (fs.map (·.name))

/-- The types of the fields and arguments that a type has. -/
def mentioned : TypeDefinition → List Name
  | .object _ fs => fs.flatMap fun f => f.type.innerName :: f.arguments.map (·.type.innerName)
  | .interface _ fs => fs.flatMap fun f => f.type.innerName :: f.arguments.map (·.type.innerName)
  | .inputObject fs => fs.map (·.type.innerName)
  | _ => []

/-- The interfaces and union members that a type names. -/
def related : TypeDefinition → List Name
  | .object is _ => is
  | .interface is _ => is
  | .union ms => ms
  | _ => []

end TypeDefinition

namespace TypeSystemDefinition

/-- The directive that a definition defines. -/
def definedDirective? : TypeSystemDefinition → Option (Name × List InputDefinition)
  | .directive name arguments => some (name, arguments)
  | _ => none

/-- The roots that a schema definition names. -/
def definedRoots? : TypeSystemDefinition → Option (List (OperationKind × Name))
  | .schema roots => some roots
  | _ => none

/-- The roots that a schema extension names. -/
def extendedRoots? : TypeSystemDefinition → Option (List (OperationKind × Name))
  | .schemaExtension roots => some roots
  | _ => none

end TypeSystemDefinition

/-- The types that the first definitions of a document describe. -/
structure AssembledTypes where
  types : OrderedMap Name TypeDefinition
  /-- The extensions of types that are not defined so far, in the order they are written. -/
  waiting : List (Name × TypeDefinition)

namespace AssembledTypes

/-- The types with one more definition or extension. A definition takes the extensions that wait for
it; an extension is added to its type, or waits. -/
def add? (assembled : AssembledTypes) : TypeSystemDefinition → Option AssembledTypes
  | .type name definition =>
    if assembled.types.has name then none
    else
      let (mine, others) := assembled.waiting.partition (·.1 = name)
      some ⟨assembled.types ++ [(name, definition.extendAll (mine.map (·.2)))], others⟩
  | .typeExtension name extension =>
    match assembled.types.get? name with
    | some definition =>
      (definition.extend? extension).map fun whole =>
        { assembled with types := assembled.types.insert name whole }
    | none => some { assembled with waiting := assembled.waiting ++ [(name, extension)] }
  | _ => some assembled

/-- The types of a whole document, if nothing waits any more and no type has a part twice. -/
def finish? (assembled : AssembledTypes) : Option (OrderedMap Name TypeDefinition) :=
  if assembled.waiting.isEmpty && assembled.types.all (·.2.hasDistinctParts) then
    some assembled.types
  else none

end AssembledTypes

namespace Schema

/-- The default name of the root type of a kind of operations. -/
def defaultRoot : OperationKind → Name
  | .query => "Query"
  | .mutation => "Mutation"
  | .subscription => "Subscription"

/-- The roots of a document that names none: the object types with the default names. -/
def implicitRoots (types : OrderedMap Name TypeDefinition) : List (OperationKind × Name) :=
  [OperationKind.query, .mutation, .subscription].filterMap fun kind =>
    match types.get? (defaultRoot kind) with
    | some (.object _ _) => some (kind, defaultRoot kind)
    | _ => none

/-- The roots of a document with the given types, if they are named once. -/
def rootsOf? (definitions : List TypeSystemDefinition) (types : OrderedMap Name TypeDefinition) :
    Option (OrderedMap OperationKind Name) := do
  let extensions := definitions.filterMap TypeSystemDefinition.extendedRoots?
  let named ← match definitions.filterMap TypeSystemDefinition.definedRoots? with
    | [] =>
      let implicit := implicitRoots types
      if implicit.isEmpty ∧ ¬ extensions.isEmpty then none else some implicit
    | [roots] => some roots
    | _ => none
  let roots := named ++ extensions.flatten
  if (roots.map (·.1)).Nodup then some roots else none

/-- The types of a document, with their extensions. -/
def typesOf? (definitions : List TypeSystemDefinition) :
    Option (OrderedMap Name TypeDefinition) :=
  (definitions.foldlM AssembledTypes.add? ⟨builtInTypes, []⟩).bind AssembledTypes.finish?

/-- The directives of a document: those that it defines, and the built-in ones that it does not
define again. -/
def directivesOf? (definitions : List TypeSystemDefinition) :
    Option (OrderedMap Name (List InputDefinition)) :=
  let defined : OrderedMap Name (List InputDefinition) :=
    definitions.filterMap TypeSystemDefinition.definedDirective?
  if distinct (defined.map (·.1)) then
    some (builtInDirectives.filter (!defined.has ·.1) ++ defined)
  else none

/-- The schema that the definitions of a document describe. -/
def ofDefinitions? (definitions : List TypeSystemDefinition) : Option Schema := do
  let types ← typesOf? definitions
  let roots ← rootsOf? definitions types
  let directives ← directivesOf? definitions
  some ⟨types, roots.get? .query, roots.get? .mutation, roots.get? .subscription, directives⟩

/-- The types that the fields, arguments and directives of a schema mention. -/
def mentioned (schema : Schema) : List Name :=
  schema.types.flatMap (·.2.mentioned)
    ++ schema.directives.flatMap (·.2.map (·.type.innerName))

/-- The roots that a schema names. -/
def roots (schema : Schema) : List Name :=
  schema.query.toList ++ schema.mutation.toList ++ schema.subscription.toList

/-- Whether a schema has a query root and defines the types that it mentions. -/
def isValid (schema : Schema) : Bool :=
  schema.query.isSome
    && (schema.mentioned ++ schema.roots ++ schema.types.flatMap (·.2.related)).all
      fun name => (schema.type? name).isSome

/-- The schema without the built-in scalars that it does not mention. -/
def dropUnusedScalars (schema : Schema) : Schema :=
  let used := schema.mentioned
  { schema with
    types := schema.types.filter fun (name, _) =>
      !builtInScalars.contains name || used.contains name }

/-- The schema that a text describes, without checking that it is valid. -/
def build? (text : String) : Option Schema :=
  (TypeSystemDefinition.read? text).bind ofDefinitions?

/-- The valid schema that a text describes. -/
def validated? (text : String) : Option Schema := do
  let schema ← build? text
  if schema.isValid then some schema.dropUnusedScalars else none

end Schema

end SelectionForest
