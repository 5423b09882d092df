import SelectionForest.Proofs.Forest.Coverage

/-!
# The return types of nodes

The type of a node is that of its field on the first object type of an occurrence. Whether it is
right for all object types of all nodes (`Node.IsTyped`) depends on the operation and the schema
alone: it is if and only if each occurrence that the levels of the operation expand to has one
return type on all its object types (`Request.IsUniformOn`, `Collects.isTyped_iff`). Where an object
refines the type that an interface declares, an occurrence can have several; in a uniform schema
none has (`IsUniform.isUniformOn`).
-/

namespace SelectionForest

/-- Whether a position of an operation has the given object types and selections: it is the top, or
stands below a class of occurrences of another position. -/
inductive Request.HasLevel (request : Request) (operation : Operation) :
    TypeSet → List Selection → Prop
  | top {types : TypeSet} (h : request.typesOf operation.rootType = .ok types) :
      HasLevel request operation types operation.selections
  | lower {types below : TypeSet} {selections : List Selection} {occs : List Occurrence}
      {cls : OccurrenceClass} {type : TypeRef}
      (hlevel : HasLevel request operation types selections)
      (hexp : request.Expands types [] selections occs)
      (hcls : cls ∈ request.schema.groups occs)
      (htype : request.schema.declaredType? cls.1 = some type)
      (hbelow : request.typesOf type.innerName = .ok below) :
      HasLevel request operation below (cls.fields.fields.flatMap (·.selections))

/-- Whether the field of an occurrence has one return type on all its object types. -/
def Occurrence.HasOneType (occ : Occurrence) (schema : Schema) : Prop :=
  ∃ type, ∀ object ∈ occ.types,
    ∃ definition, schema.field? object occ.field.name = some definition ∧ definition.type = type

/-- Whether each occurrence that the levels of an operation expand to has one return type. -/
def Request.IsUniformOn (request : Request) (operation : Operation) : Prop :=
  ∀ types selections occs,
    request.HasLevel operation types selections → request.Expands types [] selections occs →
    ∀ occ ∈ occs, occ.HasOneType request.schema

/-- The one return type of an occurrence is its declared type. -/
theorem Occurrence.HasOneType.type_eq {schema : Schema} {occ : Occurrence} {type : TypeRef}
    (h : occ.HasOneType schema) (htype : schema.declaredType? occ = some type) {object : Name}
    (hobject : object ∈ occ.types) :
    ∃ definition, schema.field? object occ.field.name = some definition
      ∧ definition.type = type := by
  obtain ⟨one, hone⟩ := h
  obtain ⟨first, definition, hfirst, hdef, rfl⟩ := Schema.exists_definition htype
  obtain ⟨other, hother, rfl⟩ := hone first hfirst
  obtain rfl := Option.some.inj (hother.symm.trans hdef)
  exact hone object hobject

namespace Forest.Collects

variable {forest : Forest} {request : Request} {operation : Operation}

/-- The roots of a forest, or the children of one of its nodes, list every level of its operation. -/
theorem exists_siblings (hcollects : forest.Collects request operation) {types : TypeSet}
    {selections : List Selection} (h : request.HasLevel operation types selections) :
    ∃ ids, forest.Lists request types selections ids
      ∧ (ids = forest.roots ∨ ∃ id node, forest.node? id = some node ∧ ids = node.children) := by
  induction h with
  | top htypes =>
    obtain ⟨types', htypes', hroots⟩ := hcollects.roots
    obtain rfl := Except.ok.inj (htypes.symm.trans htypes')
    exact ⟨forest.roots, hroots, .inl rfl⟩
  | lower _ hexp hcls htype hbelow ih =>
    obtain ⟨ids, hlisted, -⟩ := ih
    obtain ⟨id, -, node, hnode, hselects, hmerged⟩ := hlisted.exists_node hexp hcls
    obtain rfl := Option.some.inj (htype.symm.trans hselects.type)
    obtain ⟨types', merged, htypes', hmerged', hlists⟩ :=
      hcollects.below hnode (Request.isComposite_of_typesOf hbelow)
    obtain rfl := Except.ok.inj (hbelow.symm.trans htypes')
    obtain rfl := Option.some.inj (hmerged.symm.trans hmerged')
    exact ⟨node.children, hlists, .inr ⟨id, node, hnode, rfl⟩⟩

/-- The nodes of a forest list every level of its operation. -/
theorem exists_lists (hcollects : forest.Collects request operation) {types : TypeSet}
    {selections : List Selection} (h : request.HasLevel operation types selections) :
    ∃ ids, forest.Lists request types selections ids := by
  obtain ⟨ids, hlisted, -⟩ := hcollects.exists_siblings h
  exact ⟨ids, hlisted⟩

/-- Where a node of a composite type is listed at a level, its children are those of a lower level. -/
theorem exists_lower (hcollects : forest.Collects request operation) {types : TypeSet}
    {selections : List Selection} {ids : List Nat}
    (hlevel : request.HasLevel operation types selections)
    (hlisted : forest.Lists request types selections ids) {id : Nat} {node : Node}
    (hid : id ∈ ids) (hnode : forest.node? id = some node)
    (hcomposite : request.schema.isComposite node.type.innerName = true) :
    ∃ below merged, request.typesOf node.type.innerName = .ok below
      ∧ forest.merged? id = some merged
      ∧ request.HasLevel operation below (merged.fields.flatMap (·.selections))
      ∧ forest.Lists request below (merged.fields.flatMap (·.selections)) node.children := by
  obtain ⟨below, merged, hbelow, hmerged, hlists⟩ := hcollects.below hnode hcomposite
  obtain ⟨occs, cls, hexp, hcls, hselects, hmerged'⟩ := hlisted.exists_class hid hnode
  obtain rfl := Option.some.inj (hmerged'.symm.trans hmerged)
  exact ⟨below, _, hbelow, hmerged, .lower hlevel hexp hcls hselects.type hbelow, hlists⟩

/-- Every node of a forest is listed at a level of its operation. -/
theorem exists_level (hcollects : forest.Collects request operation) {id : Nat} {node : Node}
    (hnode : forest.node? id = some node) :
    ∃ types selections ids, request.HasLevel operation types selections
      ∧ forest.Lists request types selections ids ∧ id ∈ ids := by
  refine hcollects.reached (R := fun id => ∃ types selections ids,
    request.HasLevel operation types selections ∧ forest.Lists request types selections ids
      ∧ id ∈ ids) ?_ ?_ hnode
  · intro id hid
    obtain ⟨types, htypes, hroots⟩ := hcollects.roots
    exact ⟨types, operation.selections, forest.roots, .top htypes, hroots, hid⟩
  · intro id node hnode hlisted child hchild
    obtain ⟨types, selections, ids, hlevel, hlisted, hid⟩ := hlisted
    obtain ⟨below, merged, -, -, hlower, hlists⟩ := hcollects.exists_lower hlevel hlisted hid
      hnode (hcollects.isComposite_of_child hnode hchild)
    exact ⟨below, _, node.children, hlower, hlists, hchild⟩

/-- The types of all nodes are right if and only if each occurrence has one return type. -/
theorem isTyped_iff (hcollects : forest.Collects request operation) :
    (∀ id node, forest.node? id = some node → node.IsTyped request.schema)
      ↔ request.IsUniformOn operation := by
  constructor
  · intro htyped types selections occs hlevel hexp occ hocc
    obtain ⟨ids, hlisted⟩ := hcollects.exists_lists hlevel
    obtain ⟨cls, hcls, hmember⟩ := request.schema.exists_group hocc
    obtain ⟨id, -, node, hnode, hselects, -⟩ := hlisted.exists_node hexp hcls
    obtain ⟨-, hname⟩ := hselects.of_member hcls hmember
    refine ⟨node.type, fun object hobject => ?_⟩
    rw [hname]
    refine htyped id node hnode object ?_
    rw [hselects.objectTypes]
    exact OccurrenceClass.mem_objectTypes.2 ⟨occ, hmember, hobject⟩
  · intro huniform id node hnode object hobject
    obtain ⟨types, selections, ids, hlevel, hlisted, hid⟩ := hcollects.exists_level hnode
    obtain ⟨occs, cls, hexp, hcls, hselects, -⟩ := hlisted.exists_class hid hnode
    rw [hselects.objectTypes] at hobject
    obtain ⟨occ, hmember, hobject⟩ := OccurrenceClass.mem_objectTypes.1 hobject
    obtain ⟨htype, hname⟩ := hselects.of_member hcls hmember
    have hone := huniform _ _ _ hlevel hexp occ (Schema.mem_of_group hcls hmember)
    rw [← hname]
    exact hone.type_eq htype hobject

end Forest.Collects

/-- In a uniform schema, the levels of an operation with defined fields are defined on one type. -/
theorem Request.HasLevel.definedOn {request : Request} (huniform : request.IsUniform)
    {operation : Operation}
    (hdefined : operation.isDefined request.schema request.fragments = true) {types : TypeSet}
    {selections : List Selection} (h : request.HasLevel operation types selections) :
    ∃ parent, request.DefinedOn parent types selections := by
  induction h with
  | top htypes => exact ⟨operation.rootType, Operation.definedOn_rootType hdefined htypes⟩
  | @lower types below selections occs cls type _ hexp hcls htype hbelow ih =>
    obtain ⟨parent, ih⟩ := ih
    refine ⟨type.innerName, hbelow, areDefined_flatMap.2 fun field hfield => ?_⟩
    obtain ⟨occ, hmember, rfl⟩ := OccurrenceClass.mem_fields.1 hfield
    obtain ⟨_, definition, hdef⟩ := ih.occurrence huniform hexp (Schema.mem_of_group hcls hmember)
    have htype' := (Schema.declaredType_of_group hcls hmember).1.trans htype
    rw [hdef.declaredType huniform.formed huniform.uniform htype']
    exact hdef.below

/-- In a uniform schema, each occurrence of an operation with defined fields has one return type. -/
theorem Request.IsUniform.isUniformOn {request : Request} (huniform : request.IsUniform)
    {operation : Operation}
    (hdefined : operation.isDefined request.schema request.fragments = true) :
    request.IsUniformOn operation := by
  intro types selections occs hlevel hexp occ hocc
  obtain ⟨parent, hlevelDefined⟩ := hlevel.definedOn huniform hdefined
  obtain ⟨_, definition, hdef⟩ := hlevelDefined.occurrence huniform hexp hocc
  exact ⟨definition.type, fun object hobject =>
    hdef.type_eq huniform.formed huniform.uniform hobject⟩

/-- The return types of a forest are right for all object types if and only if each occurrence of
the operation has one, as it has in a uniform schema. -/
theorem Operation.forestWith_isTyped_iff {operation : Operation} {schema : Schema}
    {options : Options} {fragments : Fragments} {bindings : Members}
    {sources : Option TracedInputs} {forest : Forest}
    (h : operation.forestWith schema options fragments bindings sources = .ok forest) :
    let request : Request := ⟨schema, fragments, bindings, sources⟩
    ((∀ id node, forest.node? id = some node → node.IsTyped schema)
        ↔ request.IsUniformOn operation)
      ∧ (schema.isWellFormed = true → schema.isUniform = true →
        operation.isDefined schema fragments = true → request.IsUniformOn operation) := by
  intro request
  have hcollects : forest.Collects request operation := forestWith_collects h
  refine ⟨hcollects.isTyped_iff, fun hformed huniform hdefined => ?_⟩
  have hrequest : request.IsUniform :=
    isUniform_of_isDefined hformed huniform hdefined bindings sources
  exact hrequest.isUniformOn hdefined

/-- The schema of the sample is uniform, so the return types of its forest are right. -/
theorem Sample.nodes_typed :
    Sample.request.IsUniformOn Sample.operation
      ∧ ∀ id node, Sample.forest.node? id = some node → node.IsTyped Sample.schema := by
  obtain ⟨hiff, huniform⟩ := Operation.forestWith_isTyped_iff Sample.forest_eq
  have hone : Sample.request.IsUniformOn Sample.operation :=
    huniform (by decide +kernel) (by decide +kernel) (by decide +kernel)
  exact ⟨hone, hiff.2 hone⟩

/-! ## An object that refines a type -/

namespace Covariant

/-- `type Query { node: Node }`, where the `id: ID` of a `Node` is refined to `ID!` by `A` and kept
by `B`. -/
def schema : Schema where
  types := Schema.builtInTypes ++ [
    ("Query", .object [] [⟨"node", [], .named "Node" false⟩]),
    ("Node", .interface [] [⟨"id", [], .named "ID" false⟩]),
    ("A", .object ["Node"] [⟨"id", [], .named "ID" true⟩]),
    ("B", .object ["Node"] [⟨"id", [], .named "ID" false⟩])]
  query := some "Query"
  mutation := none
  subscription := none
  directives := Schema.builtInDirectives

def idField : Field := Sample.plain 1 "id" []
def node : Field := Sample.plain 0 "node" [.field idField]

/-- `{ node { id } }` -/
def operation : Operation := ⟨none, "Query", [], [.field node]⟩

/-- The node `id` is one for both objects, with the type that it has on `A`. -/
def forest : Forest where
  nodes := [
    ⟨none, "node", .named "Node" false, 1, .singleton "Query", [], none, [], none, [1]⟩,
    ⟨none, "id", .named "ID" true, 2, .ofList ["A", "B"], [], none, [], some 0, []⟩]
  merged := [⟨node, []⟩, ⟨idField, []⟩]
  roots := [0]
  byPlace := [(0, [0]), (1, [1])]
  byCoordinate := [(⟨"Query", "node"⟩, [0]), (⟨"A", "id"⟩, [1]), (⟨"B", "id"⟩, [1])]

theorem forest_eq : operation.forestWith schema {} [] [] none = .ok forest := rfl

/-- The type `ID!` of the node `id` is not the one that `id` has on `B`. -/
theorem not_typed :
    (schema.isValid && schema.isWellFormed && operation.isDefined schema []) = true
      ∧ operation.forestWith schema {} [] [] none = .ok forest
      ∧ ¬ ∀ id node, forest.node? id = some node → node.IsTyped schema := by
  refine ⟨by decide +kernel, forest_eq, fun htyped => ?_⟩
  have hB : "B" ∈ TypeSet.ofList ["A", "B"] := TypeSet.mem_ofList.2 (by simp)
  obtain ⟨definition, hdef, htype⟩ := htyped 1 _ rfl "B" hB
  obtain rfl : FieldDefinition.mk "id" [] (.named "ID" false) = definition := Option.some.inj hdef
  cases htype

end Covariant

end SelectionForest
