import SelectionForest.Proofs.Forest.Siblings
import SelectionForest.Proofs.Refinement

/-!
# One node for a response key and an object type

In the response to an operation each object has a key once, so of the nodes with one parent and one
response key at most one should have a given object type (`Forest.IsUnambiguous`). In an operation
whose fields can be merged (`Request.FieldsCanMerge`), this is so if and only if the occurrences of a
key that share an object type have one declared type (`Request.HasOneTypePerKey`,
`Collects.isUnambiguous_iff`). The declared type is looked up on the first object type of an
occurrence, which need not be one that is shared. It is the same where each occurrence has one
return type on all its object types (`IsUniformOn.hasOneTypePerKey`).
-/

namespace SelectionForest

namespace Request

/-- Whether fields that are reached at one position, for one object type and with one response key,
have the same name and like arguments. -/
def FieldsCanMerge (request : Request) (operation : Operation) : Prop :=
  ∀ types selections, request.HasLevel operation types selections → ∀ type ∈ types,
    ∀ field other, request.Reaches type selections field → request.Reaches type selections other →
      field.responseKey = other.responseKey →
      field.name = other.name ∧ areLike field.arguments other.arguments

/-- Whether occurrences at one position that share a response key and an object type have the same
declared type. -/
def HasOneTypePerKey (request : Request) (operation : Operation) : Prop :=
  ∀ types selections occs,
    request.HasLevel operation types selections → request.Expands types [] selections occs →
    ∀ occ ∈ occs, ∀ other ∈ occs, occ.responseKey = other.responseKey →
      (∃ type ∈ occ.types, type ∈ other.types) →
      request.schema.declaredType? occ = request.schema.declaredType? other

end Request

/-- The one return type of an occurrence, on any of its object types, is its declared type. -/
theorem Occurrence.HasOneType.declaredType {schema : Schema} {occ : Occurrence}
    (h : occ.HasOneType schema) {object : Name} (hobject : object ∈ occ.types) :
    ∃ definition, schema.field? object occ.field.name = some definition
      ∧ schema.declaredType? occ = some definition.type := by
  obtain ⟨type, hall⟩ := h
  have hne : occ.types.isEmpty = false :=
    Bool.eq_false_iff.2 fun hempty => TypeSet.isEmpty_iff.1 hempty object hobject
  obtain ⟨first, hfirst, hmem⟩ := TypeSet.exists_first hne
  obtain ⟨founding, hfounding, rfl⟩ := hall first hmem
  obtain ⟨definition, hdef, htype⟩ := hall object hobject
  refine ⟨definition, hdef, ?_⟩
  rw [Schema.declaredType?, hfirst, htype]
  show (schema.field? first occ.field.name).bind _ = _
  rw [hfounding]
  rfl

namespace Request

variable {request : Request} {operation : Operation}

/-- What holds of all fields that can be met holds of those that are reached. -/
theorem Reaches.forall_fields {P : Field → Prop} (hfragments : request.OfFragments P) {type : Name}
    {selections : List Selection} {field : Field} (h : request.Reaches type selections field)
    (hP : ∀ field ∈ fieldsOf selections, P field) : P field := by
  induction h with
  | later _ ih => exact ih (List.forall_mem_append.1 hP).2
  | here _ => exact (List.forall_mem_append.1 hP).1 _ (Field.mem_fields.2 (.inl rfl))
  | inline _ _ _ ih => exact ih (List.forall_mem_append.1 hP).1
  | spread _ hget _ _ _ ih => exact ih (hfragments _ (List.mem_of_find?_eq_some hget))

/-- The fields of an operation can be merged if all fields of a response key, wherever they are
written, have the same name and like arguments. -/
theorem FieldsCanMerge.of_written {fields : List Field}
    (hoperation : ∀ field ∈ fieldsOf operation.selections, field ∈ fields)
    (hfragments : request.OfFragments (· ∈ fields))
    (h : ∀ field ∈ fields, ∀ other ∈ fields, field.responseKey = other.responseKey →
      field.name = other.name ∧ areLike field.arguments other.arguments) :
    request.FieldsCanMerge operation := by
  intro types selections hlevel type _ field other hfield hother
  have hwritten := hlevel.forall_fields hfragments hoperation
  exact h field (hfield.forall_fields hfragments hwritten) other
    (hother.forall_fields hfragments hwritten)

/-- Occurrences that share a response key and an object type have the same name and like arguments,
in an operation whose fields can be merged. -/
theorem FieldsCanMerge.like (hmerge : request.FieldsCanMerge operation) {types : TypeSet}
    {selections : List Selection} {occs : List Occurrence}
    (hlevel : request.HasLevel operation types selections)
    (hexp : request.Expands types [] selections occs) {occ other : Occurrence} (hocc : occ ∈ occs)
    (hother : other ∈ occs) (hkey : occ.responseKey = other.responseKey)
    (hshared : ∃ type ∈ occ.types, type ∈ other.types) :
    occ.field.name = other.field.name ∧ areLike occ.field.arguments other.field.arguments := by
  obtain ⟨type, ht, ht'⟩ := hshared
  obtain ⟨hleft, hreach⟩ := hexp.reaches hocc ht
  obtain ⟨-, hreach'⟩ := hexp.reaches hother ht'
  rw [left_nil] at hleft
  exact hmerge types selections hlevel type hleft _ _ hreach hreach' hkey

theorem FieldsCanMerge.selectsSame (hmerge : request.FieldsCanMerge operation) {types : TypeSet}
    {selections : List Selection} {occs : List Occurrence}
    (hlevel : request.HasLevel operation types selections)
    (hexp : request.Expands types [] selections occs) {occ other : Occurrence} (hocc : occ ∈ occs)
    (hother : other ∈ occs) (hkey : occ.responseKey = other.responseKey)
    (hshared : ∃ type ∈ occ.types, type ∈ other.types)
    (htype : request.schema.declaredType? occ = request.schema.declaredType? other) :
    request.schema.selectsSame occ other := by
  obtain ⟨hname, hlike⟩ := hmerge.like hlevel hexp hocc hother hkey hshared
  exact Schema.selectsSame_iff.2 ⟨hkey, hname, htype, hlike⟩

/-- Where each occurrence has one return type, those that share a key and an object type have the
same. -/
theorem IsUniformOn.hasOneTypePerKey (huniform : request.IsUniformOn operation)
    (hmerge : request.FieldsCanMerge operation) : request.HasOneTypePerKey operation := by
  intro types selections occs hlevel hexp occ hocc other hother hkey hshared
  have ⟨type, ht, ht'⟩ := hshared
  obtain ⟨hname, -⟩ := hmerge.like hlevel hexp hocc hother hkey hshared
  obtain ⟨definition, hdef, htype⟩ :=
    (huniform types selections occs hlevel hexp occ hocc).declaredType ht
  obtain ⟨definition', hdef', htype'⟩ :=
    (huniform types selections occs hlevel hexp other hother).declaredType ht'
  rw [hname] at hdef
  obtain rfl := Option.some.inj (hdef.symm.trans hdef')
  rw [htype, htype']

end Request

/-! ## The members of a class -/

namespace Node.Selects

variable {request : Request} {node : Node} {cls : OccurrenceClass} {occs : List Occurrence}

theorem key_of_member (h : node.Selects request cls) (hcls : cls ∈ request.schema.groups occs)
    {occ : Occurrence} (hocc : occ ∈ membersOf cls) : occ.responseKey = node.responseKey := by
  rw [h.responseKey]
  rcases List.mem_cons.1 hocc with rfl | hocc
  · rfl
  · exact (Schema.selectsSame_iff.1 (Schema.selectsSame_founder hcls hocc)).1.symm

/-- The object types of a node are those of the members of its class. -/
theorem mem_objectTypes (h : node.Selects request cls) {type : Name} :
    type ∈ node.objectTypes ↔ ∃ occ ∈ membersOf cls, type ∈ occ.types := by
  rw [h.objectTypes]
  exact OccurrenceClass.mem_objectTypes

end Node.Selects

/-! ## Nodes that share an object type -/

namespace Forest

/-- Whether no two nodes with one parent have a response key and an object type in common. -/
def IsUnambiguous (forest : Forest) : Prop :=
  ∀ (parent : Option Nat), ∀ id ∈ forest.siblings parent, ∀ other ∈ forest.siblings parent,
    ∀ node sibling, forest.node? id = some node → forest.node? other = some sibling →
      node.responseKey = sibling.responseKey →
      (∃ type ∈ node.objectTypes, type ∈ sibling.objectTypes) → id = other

variable {forest : Forest} {request : Request} {operation : Operation}

/-- The nodes of a level are unambiguous, if its occurrences have one declared type for each key. -/
theorem Lists.eq_of_shared (hmerge : request.FieldsCanMerge operation)
    (htypes : request.HasOneTypePerKey operation) {types : TypeSet} {selections : List Selection}
    {ids : List Nat} (hlevel : request.HasLevel operation types selections)
    (h : forest.Lists request types selections ids) {id other : Nat} (hid : id ∈ ids)
    (hother : other ∈ ids) {node sibling : Node} (hnode : forest.node? id = some node)
    (hsibling : forest.node? other = some sibling) (hkey : node.responseKey = sibling.responseKey)
    (hshared : ∃ type ∈ node.objectTypes, type ∈ sibling.objectTypes) : id = other := by
  obtain ⟨occs, hexp, -, hshows⟩ := h
  -- No members of two classes both select the same as the other.
  have hclasses : (request.schema.groups occs).Pairwise fun cls later =>
      ∀ occ ∈ membersOf cls, ∀ occ' ∈ membersOf later,
        ¬ (request.schema.selectsSame occ occ' ∧ request.schema.selectsSame occ' occ) := by
    refine (Schema.groups_pairwise _ _).imp fun hapart occ hocc occ' hocc' hsame => ?_
    exact Bool.false_ne_true ((hapart occ hocc occ' hocc').symm.trans hsame.1)
  by_contra hne
  obtain ⟨cls, hcls, later, hlater, ⟨_, hnode', hselects, -⟩, ⟨_, hsibling', hselects', -⟩,
    hapart⟩ := exists_apart (fun h occ hocc occ' hocc' hsame => h occ' hocc' occ hocc hsame.symm)
      hshows hclasses hid hother hne
  obtain rfl := Option.some.inj (hnode.symm.trans hnode')
  obtain rfl := Option.some.inj (hsibling.symm.trans hsibling')
  obtain ⟨type, ht, ht'⟩ := hshared
  obtain ⟨occ, hmember, hocc⟩ := hselects.mem_objectTypes.1 ht
  obtain ⟨occ', hmember', hocc'⟩ := hselects'.mem_objectTypes.1 ht'
  have hsameKey : occ.responseKey = occ'.responseKey :=
    (hselects.key_of_member hcls hmember).trans
      (hkey.trans (hselects'.key_of_member hlater hmember').symm)
  have hin := Schema.mem_of_group hcls hmember
  have hin' := Schema.mem_of_group hlater hmember'
  have htype := htypes _ _ _ hlevel hexp occ hin occ' hin' hsameKey ⟨type, hocc, hocc'⟩
  refine hapart occ hmember occ' hmember' ⟨?_, ?_⟩
  · exact hmerge.selectsSame hlevel hexp hin hin' hsameKey ⟨type, hocc, hocc'⟩ htype
  · exact hmerge.selectsSame hlevel hexp hin' hin hsameKey.symm ⟨type, hocc', hocc⟩ htype.symm

namespace Collects

/-- In an operation whose fields can be merged, no two nodes with one parent have a response key and
an object type in common if and only if occurrences that have both have the same declared type. -/
theorem isUnambiguous_iff (hcollects : forest.Collects request operation)
    (hmerge : request.FieldsCanMerge operation) :
    forest.IsUnambiguous ↔ request.HasOneTypePerKey operation := by
  constructor
  · intro hone types selections occs hlevel hexp occ hocc other hother hkey hshared
    obtain ⟨ids, hlisted, hids⟩ := hcollects.exists_siblings hlevel
    obtain ⟨parent, rfl⟩ : ∃ parent, ids = forest.siblings parent := by
      rcases hids with rfl | ⟨id, node, hnode, rfl⟩
      · exact ⟨none, rfl⟩
      · exact ⟨some id, (children_of_node? hnode).symm⟩
    obtain ⟨cls, hcls, hmember⟩ := request.schema.exists_group hocc
    obtain ⟨later, hlater, hmember'⟩ := request.schema.exists_group hother
    obtain ⟨id, hid, node, hnode, hselects, -⟩ := hlisted.exists_node hexp hcls
    obtain ⟨id', hid', sibling, hsibling, hselects', -⟩ := hlisted.exists_node hexp hlater
    obtain ⟨type, ht, ht'⟩ := hshared
    have hsameKey : node.responseKey = sibling.responseKey :=
      (hselects.key_of_member hcls hmember).symm.trans
        (hkey.trans (hselects'.key_of_member hlater hmember'))
    obtain rfl := hone parent id hid id' hid' node sibling hnode hsibling hsameKey
      ⟨type, hselects.mem_objectTypes.2 ⟨occ, hmember, ht⟩,
        hselects'.mem_objectTypes.2 ⟨other, hmember', ht'⟩⟩
    obtain rfl := Option.some.inj (hnode.symm.trans hsibling)
    exact (hselects.of_member hcls hmember).1.trans (hselects'.of_member hlater hmember').1.symm
  · intro htypes parent id hid other hother node sibling hnode hsibling hkey hshared
    obtain ⟨types, selections, hlevel, hlisted⟩ := hcollects.level_of_siblings hid
    exact hlisted.eq_of_shared hmerge htypes hlevel hid hother hnode hsibling hkey hshared

end Collects

end Forest

/-- In an operation whose fields can be merged, no two nodes of its forest with one parent have a
response key and an object type in common if and only if the occurrences that have both have the
same declared type. They do if each occurrence has one return type, as it has in a uniform schema. -/
theorem Operation.forestWith_isUnambiguous_iff {operation : Operation} {schema : Schema}
    {options : Options} {fragments : Fragments} {bindings : Members}
    {sources : Option TracedInputs} {forest : Forest}
    (hmerge : Request.FieldsCanMerge ⟨schema, fragments, bindings, sources⟩ operation)
    (h : operation.forestWith schema options fragments bindings sources = .ok forest) :
    let request : Request := ⟨schema, fragments, bindings, sources⟩
    (forest.IsUnambiguous ↔ request.HasOneTypePerKey operation)
      ∧ (request.IsUniformOn operation → request.HasOneTypePerKey operation)
      ∧ (schema.isWellFormed = true → schema.isUniform = true →
        operation.isDefined schema fragments = true → request.HasOneTypePerKey operation) := by
  intro request
  have hcollects : forest.Collects request operation := forestWith_collects h
  refine ⟨hcollects.isUnambiguous_iff hmerge, fun hone => hone.hasOneTypePerKey hmerge,
    fun hformed huniform hdefined => ?_⟩
  have hrequest : request.IsUniform :=
    isUniform_of_isDefined hformed huniform hdefined bindings sources
  exact (hrequest.isUniformOn hdefined).hasOneTypePerKey hmerge

/-- In the sample, whose schema is uniform, each object type has one node for a response key. -/
theorem Sample.isUnambiguous : Sample.request.FieldsCanMerge Sample.operation
    ∧ Sample.forest.IsUnambiguous := by
  have hmerge : Sample.request.FieldsCanMerge Sample.operation :=
    .of_written (fun _ hfield => hfield) (fun _ hfragment => absurd hfragment List.not_mem_nil)
      (by decide +kernel)
  obtain ⟨hiff, -, huniform⟩ := Operation.forestWith_isUnambiguous_iff hmerge Sample.forest_eq
  exact ⟨hmerge, hiff.2 (huniform (by decide +kernel) (by decide +kernel) (by decide +kernel))⟩

/-! ## A field met with two sets of object types

The type of `id` is `ID!` for both objects of a `Node`, by its definition on the first one, and `ID`
where it is selected for the second one alone. -/

namespace Covariant

def idOfB : Field := Sample.plain 2 "id" []
def nodeTwice : Field := Sample.plain 0 "node" [.field idField, .inline "B" [] [.field idOfB]]

/-- `{ node { id ... on B { id } } }` -/
def twice : Operation := ⟨none, "Query", [], [.field nodeTwice]⟩

/-- The object type `B` has two nodes `id`. -/
def twiceForest : Forest where
  nodes := [
    ⟨none, "node", .named "Node" false, 1, .singleton "Query", [], none, [], none, [1, 2]⟩,
    ⟨none, "id", .named "ID" true, 2, .ofList ["A", "B"], [], none, [], some 0, []⟩,
    ⟨none, "id", .named "ID" false, 2, .ofList ["B"], [], none, [], some 0, []⟩]
  merged := [⟨nodeTwice, []⟩, ⟨idField, []⟩, ⟨idOfB, []⟩]
  roots := [0]
  byPlace := [(0, [0]), (1, [1]), (2, [2])]
  byCoordinate := [(⟨"Query", "node"⟩, [0]), (⟨"A", "id"⟩, [1]), (⟨"B", "id"⟩, [1, 2])]

theorem twiceForest_eq : twice.forestWith schema {} [] [] none = .ok twiceForest := rfl

/-- The fields `id` can be merged, but the object type `B` has both nodes of this key. -/
theorem not_unambiguous :
    (schema.isValid && schema.isWellFormed && schema.isImplemented && twice.isDefined schema []
        && twice.hasUniqueNames []) = true
      ∧ Request.FieldsCanMerge ⟨schema, [], [], none⟩ twice
      ∧ twice.forestWith schema {} [] [] none = .ok twiceForest
      ∧ ¬ twiceForest.IsUnambiguous := by
  refine ⟨by decide +kernel, .of_written (fun _ hfield => hfield)
    (fun _ hfragment => absurd hfragment List.not_mem_nil) (by decide +kernel), twiceForest_eq,
    fun hone => ?_⟩
  have hB : "B" ∈ TypeSet.ofList ["A", "B"] := TypeSet.mem_ofList.2 (by simp)
  have hB' : "B" ∈ TypeSet.ofList ["B"] := TypeSet.mem_ofList.2 (by simp)
  have heq := hone (some 0) 1 (by decide) 2 (by decide) _ _ rfl rfl rfl ⟨"B", hB, hB'⟩
  exact absurd heq (by decide)

end Covariant

end SelectionForest
