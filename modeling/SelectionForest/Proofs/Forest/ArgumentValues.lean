import SelectionForest.Proofs.Arguments
import SelectionForest.Proofs.Forest.Covariance
import SelectionForest.Proofs.Forest.Definitions

/-!
# The argument values of nodes

The values of the arguments of a node are those on the first of its object types. On another of its
object types, the definition of the field may give an argument another default, or another type to a
literal that is written for it; then it has another value there, or none that it may have
(`Defaults.not_resolved`). All other arguments have the same value on all object types
(`Node.ResolvesOn`, `forestWith_resolves`).
-/

namespace SelectionForest

/-- Whether no field of an object or interface has two arguments of one name. -/
def Schema.hasDistinctArguments (schema : Schema) : Bool :=
  schema.types.all fun (_, type) => type.fields.all fun field =>
    distinct (field.arguments.map (·.name))

theorem Schema.metaFields_subset (schema : Schema) (name : Name) (type : TypeDefinition) :
    schema.metaFields name type ⊆ [typenameField, schemaField, typeField] := by
  rw [metaFields]
  split <;> split <;> simp

theorem Schema.arguments_nodup {schema : Schema} (hdistinct : schema.hasDistinctArguments = true)
    {name fieldName : Name} {definition : FieldDefinition}
    (h : schema.field? name fieldName = some definition) :
    (definition.arguments.map (·.name)).Nodup := by
  obtain ⟨type, htype, -, hfield | hmeta⟩ := field?_eq_some h
  · have hfields := List.all_eq_true.1 hdistinct _ (mem_of_type? htype)
    exact of_decide_eq_true (List.all_eq_true.1 hfields definition hfield)
  · have hall : ∀ field ∈ [typenameField, schemaField, typeField],
        (field.arguments.map (·.name)).Nodup := by decide
    exact hall definition (metaFields_subset schema name type hmeta)

namespace Node

/-- Whether the arguments of a node can be resolved on an object type, to the values that the node
has for them. -/
def IsResolvedOn (node : Node) (request : Request) (type : Name) : Prop :=
  ∃ definition values, request.schema.field? type node.name = some definition
    ∧ resolveArguments request.schema request.bindings definition node.arguments = .ok values
    ∧ ∀ name, values.get? name = node.resolved.get? name

/-- The values that a node has for its arguments are those on the object type. -/
theorem IsResolvedOn.get?_eq {node : Node} {request : Request} {type : Name}
    (h : node.IsResolvedOn request type) {definition : FieldDefinition} {values : Members}
    (hdef : request.schema.field? type node.name = some definition)
    (hvalues : resolveArguments request.schema request.bindings definition node.arguments
      = .ok values) (name : Name) : values.get? name = node.resolved.get? name := by
  obtain ⟨definition', values', hdef', hvalues', hall⟩ := h
  obtain rfl := Option.some.inj (hdef.symm.trans hdef')
  obtain rfl := Except.ok.inj (hvalues.symm.trans hvalues')
  exact hall name

/-- Whether a definition takes the argument of a name from the same source as another, if it stands
on a node. -/
def TakesSame (node : Node) (request : Request) (other definition : FieldDefinition) (name : Name) :
    Prop :=
  other.source? request.bindings node.arguments name
    = definition.source? request.bindings node.arguments name

/-- What the arguments of a node are on an object type, if the node is resolved on a definition.
Those that are taken from the same source have the values of the node; only another one can be
refused. -/
def ResolvesOn (node : Node) (request : Request) (definition : FieldDefinition) (type : Name) :
    Prop :=
  ∃ other, request.schema.field? type node.name = some other
    ∧ match resolveArguments request.schema request.bindings other node.arguments with
      | .ok values => ∀ name, node.TakesSame request other definition name →
        values.get? name = node.resolved.get? name
      | .error error => ∃ argument ∈ other.arguments,
        resolveArgument request.schema request.bindings node.arguments argument = .error error
          ∧ ¬ node.TakesSame request other definition argument.name

/-- Where all arguments are taken from the same sources, they are resolved to the same values. -/
theorem ResolvesOn.isResolvedOn {node : Node} {request : Request} {definition : FieldDefinition}
    {type : Name} (h : node.ResolvesOn request definition type)
    (hsame : ∀ other, request.schema.field? type node.name = some other →
      ∀ name, node.TakesSame request other definition name) : node.IsResolvedOn request type := by
  obtain ⟨other, hother, hall⟩ := h
  split at hall
  · rename_i values hvalues
    exact ⟨other, values, hother, hvalues, fun name => hall name (hsame other hother name)⟩
  · obtain ⟨argument, -, -, hdiffers⟩ := hall
    exact absurd (hsame other hother argument.name) hdiffers

end Node

/-- The arguments of a node are resolved on its first object type, and have the same values on the
others unless they are taken from other sources there. -/
theorem Operation.forestWith_resolves {operation : Operation} {schema : Schema}
    {options : Options} {fragments : Fragments} {bindings : Members}
    {sources : Option TracedInputs} {forest : Forest} (hformed : schema.isWellFormed = true)
    (himplemented : schema.isImplemented = true) (hdistinct : schema.hasDistinctArguments = true)
    (hdefined : operation.isDefined schema fragments = true)
    (h : operation.forestWith schema options fragments bindings sources = .ok forest) :
    let request : Request := ⟨schema, fragments, bindings, sources⟩
    ∀ id node, forest.node? id = some node → ∃ definition, node.HasDefinition request definition
      ∧ ∀ type ∈ node.objectTypes, node.ResolvesOn request definition type := by
  intro request id node hnode
  have hcollects : forest.Collects request operation := forestWith_collects h
  have hrequest : request.IsImplemented := by
    rw [isDefined, Bool.and_eq_true, List.all_eq_true] at hdefined
    exact ⟨hformed, himplemented, hdefined.2⟩
  obtain ⟨definition, hdef⟩ := hcollects.exists_definition hnode
  refine ⟨definition, hdef, fun type ht => ?_⟩
  obtain ⟨other, hother⟩ := hcollects.exists_field hrequest hdefined hnode ht
  obtain ⟨first, -, hfirst⟩ := Node.definition_eq_ok.1 hdef.found
  have hnd := Schema.arguments_nodup hdistinct hfirst
  have hothers := Schema.arguments_nodup hdistinct hother
  refine ⟨other, hother, ?_⟩
  split
  · rename_i values hvalues
    exact fun name hsame => resolveArguments_agree hnd hothers hdef.resolved hvalues hsame
  · rename_i error herror
    exact resolveArguments_refused hnd hothers hdef.resolved herror

/-! ## Objects that change a default

The objects of an interface may give an argument another default than each other, or none. The
members of a union may give an argument another type. -/

namespace Defaults

/-- A field of type `Int` with an argument `x`. -/
def fieldOn (name : Name) (type : TypeRef) (default : Option Value) : FieldDefinition :=
  ⟨name, [⟨"x", type, default⟩], .named "Int" false⟩

/-- `type Query { node: Node thing: Thing }`. A `Node` has a field `f(x: Int! = 0)`, with the
default `1` on `A`, `2` on `B` and none on `C`. A `Thing` is a `D` with a field `g(x: Int)` or an
`E` with `g(x: [Int])`. -/
def schema : Schema where
  types := Schema.builtInTypes ++ [
    ("Query", .object [] [⟨"node", [], .named "Node" false⟩, ⟨"thing", [], .named "Thing" false⟩]),
    ("Node", .interface [] [fieldOn "f" (.named "Int" true) (some (.int "0"))]),
    ("A", .object ["Node"] [fieldOn "f" (.named "Int" true) (some (.int "1"))]),
    ("B", .object ["Node"] [fieldOn "f" (.named "Int" true) (some (.int "2"))]),
    ("C", .object ["Node"] [fieldOn "f" (.named "Int" true) none]),
    ("Thing", .union ["D", "E"]),
    ("D", .object [] [fieldOn "g" (.named "Int" false) none]),
    ("E", .object [] [fieldOn "g" (.list (.named "Int" false) false) none])]
  query := some "Query"
  mutation := none
  subscription := none
  directives := Schema.builtInDirectives

def request : Request := ⟨schema, [], [], none⟩

/-- A field of a document that may write a value for `x`. -/
def selected (place : Nat) (name : Name) (x : Option Value) : Field :=
  ⟨place, none, name, (x.map (⟨"x", ·⟩)).toList, [], []⟩

def node : Field := Sample.plain 0 "node" [.field (selected 1 "f" none)]
def thing : Field :=
  Sample.plain 2 "thing" [.inline "D" [] [.field (selected 3 "g" (some (.int "1")))],
    .inline "E" [] [.field (selected 4 "g" (some (.int "1")))]]

/-- `{ node { f } thing { ... on D { g(x: 1) } ... on E { g(x: 1) } } }` -/
def operation : Operation := ⟨none, "Query", [], [.field node, .field thing]⟩

/-- The node `f` has the default on `A`. -/
def f : Node :=
  ⟨none, "f", .named "Int" false, 2, .ofList ["A", "B", "C"], [("x", .number (.int 1))], none, [],
    some 0, []⟩

/-- The node `g` has the value on `D`. -/
def g : Node :=
  ⟨none, "g", .named "Int" false, 2, .ofList ["D", "E"], [("x", .number (.int 1))], none,
    [⟨"x", .int "1"⟩], some 1, []⟩

def forest : Forest where
  nodes := [
    ⟨none, "node", .named "Node" false, 1, .singleton "Query", [], none, [], none, [2]⟩,
    ⟨none, "thing", .named "Thing" false, 1, .singleton "Query", [], none, [], none, [3]⟩, f, g]
  merged := [⟨node, []⟩, ⟨thing, []⟩, ⟨selected 1 "f" none, []⟩,
    ⟨selected 3 "g" (some (.int "1")), [selected 4 "g" (some (.int "1"))]⟩]
  roots := [0, 1]
  byPlace := [(0, [0]), (1, [2]), (2, [1]), (3, [3]), (4, [3])]
  byCoordinate := [(⟨"Query", "node"⟩, [0]), (⟨"A", "f"⟩, [2]), (⟨"B", "f"⟩, [2]),
    (⟨"C", "f"⟩, [2]), (⟨"Query", "thing"⟩, [1]), (⟨"D", "g"⟩, [3]), (⟨"E", "g"⟩, [3])]

theorem forest_eq : operation.forestWith schema {} [] [] none = .ok forest := rfl

/-- The argument of `f` has another value on `B` and none on `C`, and that of `g` another one on
`E`. -/
theorem not_resolved :
    (schema.isValid && schema.isWellFormed && schema.isImplemented && schema.hasDistinctArguments
        && operation.isDefined schema []) = true
      ∧ operation.forestWith schema {} [] [] none = .ok forest
      ∧ (forest.node? 2 = some f ∧ ∀ type ∈ ["B", "C"],
        type ∈ f.objectTypes ∧ ¬ f.IsResolvedOn request type)
      ∧ forest.node? 3 = some g ∧ "E" ∈ g.objectTypes ∧ ¬ g.IsResolvedOn request "E" := by
  have hf : ∀ type ∈ ["A", "B", "C"], type ∈ f.objectTypes := fun type ht => TypeSet.mem_ofList.2 ht
  have hg : "E" ∈ g.objectTypes := TypeSet.mem_ofList.2 (by simp)
  refine ⟨by decide +kernel, forest_eq, ⟨rfl, fun type ht => ?_⟩, rfl, hg, ?_⟩
  · refine ⟨hf type (List.mem_cons_of_mem _ ht), ?_⟩
    rcases List.mem_cons.1 ht with rfl | ht
    · intro hB
      have hx : some (Json.number (.int 2)) = some (.number (.int 1)) := hB.get?_eq rfl rfl "x"
      cases hx
    · obtain rfl := List.mem_singleton.1 ht
      rintro ⟨definition, values, hdef, hvalues, -⟩
      obtain rfl : fieldOn "f" (.named "Int" true) none = definition := Option.some.inj hdef
      cases hvalues
  · intro hE
    have hx : some (Json.array [.number (.int 1)]) = some (.number (.int 1)) :=
      hE.get?_eq rfl rfl "x"
    cases hx

/-- `{ node { f(x: 3) } }` -/
def written : Operation :=
  ⟨none, "Query", [], [.field (Sample.plain 0 "node" [.field (selected 1 "f" (some (.int "3")))])]⟩

/-- The node `f` has the value that is written. -/
def writtenNode : Node :=
  ⟨none, "f", .named "Int" false, 2, .ofList ["A", "B", "C"], [("x", .number (.int 3))], none,
    [⟨"x", .int "3"⟩], some 0, []⟩

def writtenForest : Forest where
  nodes := [⟨none, "node", .named "Node" false, 1, .singleton "Query", [], none, [], none, [1]⟩,
    writtenNode]
  merged := [⟨Sample.plain 0 "node" [.field (selected 1 "f" (some (.int "3")))], []⟩,
    ⟨selected 1 "f" (some (.int "3")), []⟩]
  roots := [0]
  byPlace := [(0, [0]), (1, [1])]
  byCoordinate := [(⟨"Query", "node"⟩, [0]), (⟨"A", "f"⟩, [1]), (⟨"B", "f"⟩, [1]),
    (⟨"C", "f"⟩, [1])]

theorem written_eq : written.forestWith schema {} [] [] none = .ok writtenForest := rfl

/-- The objects of `Node` differ in their default only. -/
theorem field?_f : ∀ type ∈ ["A", "B", "C"],
    ∃ default, schema.field? type "f" = some (fieldOn "f" (.named "Int" true) default) := by
  simp only [List.forall_mem_cons]
  exact ⟨⟨_, rfl⟩, ⟨_, rfl⟩, ⟨_, rfl⟩, List.forall_mem_nil _⟩

/-- A default takes no part where a value is written. -/
theorem source?_of_written (type : TypeRef) (default other : Option Value) (name : Name) :
    (fieldOn "f" type default).source? [] writtenNode.arguments name
      = (fieldOn "f" type other).source? [] writtenNode.arguments name := by
  by_cases h : "x" = name
  · subst h
    rfl
  · simp [fieldOn, FieldDefinition.source?, findDefinition?, h]

/-- The written argument has the same value on all objects. -/
theorem written_resolved :
    (schema.isWellFormed && schema.isImplemented && schema.hasDistinctArguments
        && written.isDefined schema []) = true
      ∧ ∀ type ∈ writtenNode.objectTypes, writtenNode.IsResolvedOn request type := by
  obtain ⟨definition, hdef, hall⟩ := Operation.forestWith_resolves (by decide +kernel)
    (by decide +kernel) (by decide +kernel) (by decide +kernel) written_eq 1 writtenNode rfl
  refine ⟨by decide +kernel, fun type ht => (hall type ht).isResolvedOn fun other hother name => ?_⟩
  obtain rfl : fieldOn "f" (.named "Int" true) (some (.int "1")) = definition :=
    Except.ok.inj hdef.found
  obtain ⟨default, hdefault⟩ := field?_f type (TypeSet.mem_ofList.1 ht)
  obtain rfl := Option.some.inj (hdefault.symm.trans hother)
  exact source?_of_written _ _ _ name

end Defaults

end SelectionForest
