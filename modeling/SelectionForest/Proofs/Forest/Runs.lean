import SelectionForest.Proofs.Forest.Levels
import SelectionForest.Proofs.Typing
import SelectionForest.Proofs.Walk.Reach

/-!
# Runs and paths

A run of an operation is what execution does along one path: fields that are reached one below the
other, each for one object type that the field before may return (`Request.Runs`). In a forest,
nodes stand one below the other in the same way (`Forest.Descends`). This file relates the two level
by level.

* `Lists.exists_covering`: a field that is reached for an object type is merged into a node that has
  that type;
* `Lists.reached_of_type`, `Lists.type_of_field`: a type of a node reaches one of its fields, and a
  field of a node is reached for one of its types;
* `Collects.exists_run`: every path of a forest is that of a run, with any type of its last node.

The other types of such a run cannot be chosen: the selection sets of all fields that are merged
into a node are taken together, whichever of its object types each of them was selected for. They
can along chains that are `Forest.Unmixed` (`Collects.selected_of_unmixed`).
-/

namespace SelectionForest

namespace Request

/-- Whether fields are reached one below the other, each for its object type. -/
def Follows (request : Request) : List Selection → List (Field × Name) → Prop
  | _, [] => True
  | selections, (field, type) :: run =>
    request.Reaches type selections field ∧ Follows request field.selections run

/-- Whether fields are reached one below the other, each for an object type that the field before
may return on its own. -/
def Runs (request : Request) : TypeSet → List Selection → List (Field × Name) → Prop
  | _, _, [] => True
  | types, selections, (field, type) :: run =>
    type ∈ types ∧ request.Reaches type selections field
      ∧ (run = [] ∨ ∃ definition below,
        request.schema.field? type field.name = some definition
          ∧ request.typesOf definition.type.innerName = .ok below
          ∧ Runs request below field.selections run)

/-- What is reached from the selection sets of fields is reached from one of them. -/
theorem Reaches.flatMap_iff {request : Request} {type : Name} {fields : List Field}
    {inner : Field} :
    request.Reaches type (fields.flatMap (·.selections)) inner
      ↔ ∃ field ∈ fields, request.Reaches type field.selections inner := by
  rw [List.flatMap_def, flatten_iff]
  simp only [List.mem_map, exists_exists_and_eq_and]

/-- A run from the selection sets of fields is one from the selection set of one of them. -/
theorem Runs.exists_upper {request : Request} {types : TypeSet} {fields : List Field}
    {run : List (Field × Name)} (h : request.Runs types (fields.flatMap (·.selections)) run)
    (hne : run ≠ []) : ∃ field ∈ fields, request.Runs types field.selections run := by
  cases run with
  | nil => exact absurd rfl hne
  | cons step run =>
    obtain ⟨hleft, hreach, hrest⟩ := h
    obtain ⟨field, hfield, hreach⟩ := Reaches.flatMap_iff.1 hreach
    exact ⟨field, hfield, hleft, hreach, hrest⟩

/-- A run from the selection set of one of some fields is one from those of them all. -/
theorem Runs.flatMap {request : Request} {types : TypeSet} {fields : List Field}
    {run : List (Field × Name)} {field : Field} (hfield : field ∈ fields)
    (h : request.Runs types field.selections run) :
    request.Runs types (fields.flatMap (·.selections)) run := by
  cases run with
  | nil => trivial
  | cons step run =>
    obtain ⟨hleft, hreach, hrest⟩ := h
    exact ⟨hleft, Reaches.flatMap_iff.2 ⟨field, hfield, hreach⟩, hrest⟩

end Request

namespace Forest

/-- Whether nodes stand one below the other, the first among the given ones. -/
def Descends (forest : Forest) : List Nat → List Nat → Prop
  | _, [] => True
  | ids, id :: path => id ∈ ids ∧ Descends forest (forest.children id) path

/-- Whether a field is merged into a node that has an object type. -/
def Covers (forest : Forest) (id : Nat) (step : Field × Name) : Prop :=
  ∃ node merged, forest.node? id = some node ∧ forest.merged? id = some merged
    ∧ step.1 ∈ merged.fields ∧ step.2 ∈ node.objectTypes

theorem children_of_node? {forest : Forest} {id : Nat} {node : Node}
    (h : forest.node? id = some node) : forest.children id = node.children := by
  rw [children, h]

end Forest

/-! ## One level -/

/-- The members of a class have the name of its node, and the type of its node as declared type. -/
theorem Node.Selects.of_member {node : Node} {request : Request} {cls : OccurrenceClass}
    {occs : List Occurrence} (h : node.Selects request cls)
    (hcls : cls ∈ request.schema.groups occs) {occ : Occurrence} (hocc : occ ∈ membersOf cls) :
    request.schema.declaredType? occ = some node.type ∧ occ.field.name = node.name := by
  obtain ⟨htype, hname⟩ := Schema.declaredType_of_group hcls hocc
  exact ⟨htype.trans h.type, hname.trans h.name.symm⟩

/-- The declared type of an occurrence is that of its field on one of its object types. -/
theorem Schema.exists_definition {schema : Schema} {occ : Occurrence} {type : TypeRef}
    (h : schema.declaredType? occ = some type) :
    ∃ first definition, first ∈ occ.types ∧ schema.field? first occ.field.name = some definition
      ∧ definition.type = type := by
  obtain ⟨first, hfirst, h⟩ := Option.bind_eq_some_iff.1 h
  obtain ⟨definition, hdef, h⟩ := Option.bind_eq_some_iff.1 h
  exact ⟨first, definition, TypeSet.mem_of_first? hfirst, hdef, Option.some.inj h⟩

namespace Forest.Lists

variable {forest : Forest} {request : Request} {types : TypeSet} {selections : List Selection}
  {ids : List Nat}

/-- Each class of the selections of a level has a node. -/
theorem exists_node (h : forest.Lists request types selections ids) {occs : List Occurrence}
    (hexp : request.Expands types [] selections occs) {cls : OccurrenceClass}
    (hcls : cls ∈ request.schema.groups occs) :
    ∃ id ∈ ids, ∃ node, forest.node? id = some node ∧ node.Selects request cls
      ∧ forest.merged? id = some cls.fields := by
  obtain ⟨occs', hexp', -, hshows⟩ := h
  obtain rfl := hexp.unique hexp'
  exact exists_left hshows hcls

/-- A field that is reached for an object type of a level is merged into a node that has it. -/
theorem exists_covering (h : forest.Lists request types selections ids) {type : Name}
    (ht : type ∈ types) {field : Field} (hreach : request.Reaches type selections field) :
    ∃ id ∈ ids, forest.Covers id (field, type) := by
  have ⟨occs, hexp, _⟩ := h
  rw [← Request.left_nil request types] at ht
  obtain ⟨occ, hocc, rfl, htype⟩ := hexp.exists_occurrence ht hreach
  obtain ⟨cls, hcls, hmember⟩ := request.schema.exists_group hocc
  obtain ⟨id, hid, node, hnode, hselects, hmerged⟩ := h.exists_node hexp hcls
  refine ⟨id, hid, node, cls.fields, hnode, hmerged, ?_, ?_⟩
  · exact OccurrenceClass.mem_fields.2 ⟨occ, hmember, rfl⟩
  · rw [hselects.objectTypes]
    exact OccurrenceClass.mem_objectTypes.2 ⟨occ, hmember, htype⟩

variable (h : forest.Lists request types selections ids) {id : Nat} (hid : id ∈ ids) {node : Node}
  (hnode : forest.node? id = some node)

include h hid hnode

/-- Each node of a level has a class of its selections. -/
theorem exists_class :
    ∃ occs cls, request.Expands types [] selections occs ∧ cls ∈ request.schema.groups occs
      ∧ node.Selects request cls ∧ forest.merged? id = some cls.fields := by
  obtain ⟨occs, hexp, -, hshows⟩ := h
  obtain ⟨cls, hcls, node', hnode', hselects, hmerged⟩ := exists_right hshows hid
  obtain rfl := Option.some.inj (hnode.symm.trans hnode')
  exact ⟨occs, cls, hexp, hcls, hselects, hmerged⟩

/-- An object type of a node is one of its level, and reaches one of its fields. -/
theorem reached_of_type {type : Name} (ht : type ∈ node.objectTypes) :
    type ∈ types ∧ ∃ merged field, forest.merged? id = some merged ∧ field ∈ merged.fields
      ∧ request.Reaches type selections field := by
  obtain ⟨occs, cls, hexp, hcls, hselects, hmerged⟩ := h.exists_class hid hnode
  rw [hselects.objectTypes] at ht
  obtain ⟨occ, hmember, htype⟩ := OccurrenceClass.mem_objectTypes.1 ht
  obtain ⟨hleft, hreach⟩ := hexp.reaches (Schema.mem_of_group hcls hmember) htype
  rw [Request.left_nil] at hleft
  exact ⟨hleft, cls.fields, occ.field, hmerged, OccurrenceClass.mem_fields.2 ⟨occ, hmember, rfl⟩,
    hreach⟩

/-- A field of a node is reached for one of its object types, on which it has the type of the
node. -/
theorem type_of_field {merged : Bundle} (hmerged : forest.merged? id = some merged) {field : Field}
    (hfield : field ∈ merged.fields) :
    ∃ type definition, type ∈ types ∧ type ∈ node.objectTypes
      ∧ request.Reaches type selections field
      ∧ request.schema.field? type field.name = some definition ∧ definition.type = node.type := by
  obtain ⟨occs, cls, hexp, hcls, hselects, hmerged'⟩ := h.exists_class hid hnode
  obtain rfl := Option.some.inj (hmerged.symm.trans hmerged')
  obtain ⟨occ, hmember, rfl⟩ := OccurrenceClass.mem_fields.1 hfield
  obtain ⟨htype, -⟩ := hselects.of_member hcls hmember
  obtain ⟨first, definition, hfirst, hdef, heq⟩ := Schema.exists_definition htype
  obtain ⟨hleft, hreach⟩ := hexp.reaches (Schema.mem_of_group hcls hmember) hfirst
  rw [Request.left_nil] at hleft
  refine ⟨first, definition, hleft, ?_, hreach, hdef, heq⟩
  rw [hselects.objectTypes]
  exact OccurrenceClass.mem_objectTypes.2 ⟨occ, hmember, hfirst⟩

/-- The fields of a node have its name. -/
theorem name_eq {merged : Bundle} (hmerged : forest.merged? id = some merged) {field : Field}
    (hfield : field ∈ merged.fields) : field.name = node.name := by
  obtain ⟨occs, cls, -, hcls, hselects, hmerged'⟩ := h.exists_class hid hnode
  obtain rfl := Option.some.inj (hmerged.symm.trans hmerged')
  obtain ⟨occ, hmember, rfl⟩ := OccurrenceClass.mem_fields.1 hfield
  exact (hselects.of_member hcls hmember).2

end Forest.Lists

/-! ## Whole paths -/

namespace Forest

/-- Whether nodes stand one below the other, each with one of its object types, which the field of
the node before may return on the type chosen there. -/
def Chain (forest : Forest) (request : Request) : List Nat → List (Nat × Name) → Prop
  | _, [] => True
  | ids, (id, type) :: chain =>
    id ∈ ids ∧ ∃ node, forest.node? id = some node ∧ type ∈ node.objectTypes
      ∧ (∀ next ∈ chain.head?, ∃ definition below,
        request.schema.field? type node.name = some definition
          ∧ request.typesOf definition.type.innerName = .ok below ∧ next.2 ∈ below)
      ∧ Chain forest request node.children chain

/-- Whether fields merged into the nodes of a chain are reached one below the other, for the types
chosen in it. -/
def Selected (forest : Forest) (request : Request) (selections : List Selection)
    (chain : List (Nat × Name)) : Prop :=
  ∃ run, request.Follows selections run
    ∧ List.Forall₂ (fun link step => step.2 = link.2
      ∧ ∃ merged, forest.merged? link.1 = some merged ∧ step.1 ∈ merged.fields) chain run

/-- Whether each field that contributes to the next node of a chain, since a field of that node is
reached from its selection set, is itself reached for the type chosen before. -/
def Unmixed (forest : Forest) (request : Request) : List Selection → List (Nat × Name) → Prop
  | selections, (id, type) :: (next, below) :: chain =>
    ∀ merged, forest.merged? id = some merged →
      (∀ field ∈ merged.fields, ∀ lower, forest.merged? next = some lower →
        (∃ inner ∈ lower.fields, request.Reaches below field.selections inner) →
        request.Reaches type selections field)
      ∧ Unmixed forest request (merged.fields.flatMap (·.selections)) ((next, below) :: chain)
  | _, _ => True

end Forest

namespace Forest.Collects

variable {forest : Forest} {request : Request} {operation : Operation}

/-- A node that has a child is of a composite type. -/
theorem isComposite_of_child (hcollects : forest.Collects request operation) {id child : Nat}
    {node : Node} (hnode : forest.node? id = some node) (hchild : child ∈ node.children) :
    request.schema.isComposite node.type.innerName = true := by
  cases hc : request.schema.isComposite node.type.innerName with
  | true => rfl
  | false =>
    rw [hcollects.leaves hnode hc] at hchild
    exact absurd hchild List.not_mem_nil

/-- Below a node that has a child stands a level. -/
theorem level_of_child (hcollects : forest.Collects request operation) {id child : Nat}
    {node : Node} (hnode : forest.node? id = some node) (hchild : child ∈ node.children) :
    ∃ types merged, request.typesOf node.type.innerName = .ok types
      ∧ forest.merged? id = some merged
      ∧ forest.Lists request types (merged.fields.flatMap (·.selections)) node.children :=
  hcollects.below hnode (hcollects.isComposite_of_child hnode hchild)

/-- Every path that ends in a node with an object type is that of a run that ends with this type. -/
theorem exists_run (hcollects : forest.Collects request operation) {path : List Nat}
    {types : TypeSet} {selections : List Selection} {ids : List Nat}
    (hlists : forest.Lists request types selections ids) {id : Nat}
    (hpath : forest.Descends ids (path ++ [id])) {node : Node}
    (hnode : forest.node? id = some node) {type : Name} (ht : type ∈ node.objectTypes) :
    ∃ run field, request.Runs types selections (run ++ [(field, type)])
      ∧ List.Forall₂ forest.Covers (path ++ [id]) (run ++ [(field, type)]) := by
  induction path generalizing types selections ids with
  | nil =>
    obtain ⟨hleft, merged, field, hmerged, hfield, hreach⟩ :=
      hlists.reached_of_type hpath.1 hnode ht
    refine ⟨[], field, ⟨hleft, hreach, .inl rfl⟩, .cons ?_ .nil⟩
    exact ⟨node, merged, hnode, hmerged, hfield, ht⟩
  | cons first path ih =>
    obtain ⟨hfirst, hpath⟩ := hpath
    obtain ⟨top, htop⟩ : ∃ top, forest.node? first = some top := by
      obtain ⟨_, -, -, hshows⟩ := hlists
      obtain ⟨_, -, top, htop, -⟩ := exists_right hshows hfirst
      exact ⟨top, htop⟩
    rw [Forest.children_of_node? htop] at hpath
    obtain ⟨child, hchild⟩ : ∃ child, child ∈ top.children := by
      cases path with
      | nil => exact ⟨_, hpath.1⟩
      | cons second path => exact ⟨_, hpath.1⟩
    obtain ⟨below, merged, hbelow, hmerged, hlower⟩ := hcollects.level_of_child htop hchild
    obtain ⟨run, field, hrun, hcovers⟩ := ih hlower hpath
    -- Above the run that is found stands a field from which the first field of the run is reached.
    obtain ⟨upper, hupper, hrun⟩ := hrun.exists_upper (List.concat_ne_nil _ _)
    obtain ⟨upperType, definition, hleft, hmem, hreach, hdef, heq⟩ :=
      hlists.type_of_field hfirst htop hmerged hupper
    refine ⟨(upper, upperType) :: run, field, ⟨hleft, hreach, .inr ?_⟩, .cons ?_ hcovers⟩
    · exact ⟨definition, below, hdef, heq ▸ hbelow, hrun⟩
    · exact ⟨top, merged, htop, hmerged, hupper, hmem⟩

/-- The types of an unmixed chain are those of a run. -/
theorem selected_of_unmixed (hcollects : forest.Collects request operation)
    {chain : List (Nat × Name)} {types : TypeSet} {selections : List Selection} {ids : List Nat}
    (hlists : forest.Lists request types selections ids)
    (hchain : forest.Chain request ids chain) (hunmixed : forest.Unmixed request selections chain) :
    forest.Selected request selections chain := by
  induction chain generalizing types selections ids with
  | nil => exact ⟨[], trivial, .nil⟩
  | cons link chain ih =>
    obtain ⟨id, type⟩ := link
    obtain ⟨hid, node, hnode, ht, -, hrest⟩ := hchain
    cases chain with
    | nil =>
      obtain ⟨-, merged, field, hmerged, hfield, hreach⟩ := hlists.reached_of_type hid hnode ht
      exact ⟨[(field, type)], ⟨hreach, trivial⟩, .cons ⟨rfl, merged, hmerged, hfield⟩ .nil⟩
    | cons next chain =>
      obtain ⟨below, belowType⟩ := next
      obtain ⟨types', merged, -, hmerged, hlower⟩ := hcollects.level_of_child hnode hrest.1
      obtain ⟨hcontributes, hunmixed⟩ := hunmixed merged hmerged
      obtain ⟨run, hfollows, hmatch⟩ := ih hlower hrest hunmixed
      obtain ⟨⟨inner, innerType⟩, rest, ⟨rfl, lower, hlowerMerged, hinner⟩, hmatch', rfl⟩ :=
        List.forall₂_cons_left_iff.1 hmatch
      obtain ⟨field, hfield, hreach⟩ := Request.Reaches.flatMap_iff.1 hfollows.1
      have htop := hcontributes field hfield lower hlowerMerged ⟨inner, hinner, hreach⟩
      exact ⟨(field, type) :: (inner, _) :: rest, ⟨htop, hreach, hfollows.2⟩,
        .cons ⟨rfl, merged, hmerged, hfield⟩ hmatch⟩

end Forest.Collects

/-- Every path of the forest of an operation is that of a run with any type of its last node, and
the types of a chain are those of a run if it is unmixed. -/
theorem Operation.forestWith_runs {operation : Operation} {schema : Schema} {options : Options}
    {fragments : Fragments} {bindings : Members} {sources : Option TracedInputs} {forest : Forest}
    (h : operation.forestWith schema options fragments bindings sources = .ok forest) :
    let request : Request := ⟨schema, fragments, bindings, sources⟩
    ∃ types, request.typesOf operation.rootType = .ok types
      ∧ (∀ (path : List Nat) (id : Nat) (node : Node) (type : Name),
        forest.Descends forest.roots (path ++ [id]) → forest.node? id = some node →
        type ∈ node.objectTypes →
        ∃ run field, request.Runs types operation.selections (run ++ [(field, type)])
          ∧ List.Forall₂ forest.Covers (path ++ [id]) (run ++ [(field, type)]))
      ∧ ∀ chain, forest.Chain request forest.roots chain →
        forest.Unmixed request operation.selections chain →
        forest.Selected request operation.selections chain := by
  intro request
  have hcollects : forest.Collects request operation := forestWith_collects h
  obtain ⟨types, htypes, hroots⟩ := hcollects.roots
  refine ⟨types, htypes, ?_, ?_⟩
  · exact fun path id node type hpath hnode ht => hcollects.exists_run hroots hpath hnode ht
  · exact fun chain => hcollects.selected_of_unmixed hroots

namespace Sample

/-- What the sample is run with. -/
def request : Request := ⟨schema, [], [], none⟩

/-- The path to the node `y` is that of a run, which has a `B` above. -/
theorem forest_runs :
    ∃ run field, request.Runs (.singleton "Query") operation.selections (run ++ [(field, "Thing")])
      ∧ List.Forall₂ forest.Covers ([0, 1] ++ [3]) (run ++ [(field, "Thing")]) := by
  obtain ⟨types, htypes, hruns, -⟩ := Operation.forestWith_runs forest_eq
  obtain rfl : TypeSet.singleton "Query" = types := Except.ok.inj htypes
  have hpath : forest.Descends forest.roots ([0, 1] ++ [3]) :=
    ⟨by decide, by decide, by decide, trivial⟩
  exact hruns [0, 1] 3 _ "Thing" hpath rfl (TypeSet.mem_singleton.2 rfl)

/-- The node `y` is a child of the node `child`, which is there for an `A`. -/
theorem chain_to_y : forest.Chain request forest.roots [(0, "Query"), (1, "A"), (3, "Thing")] := by
  have hroot : "Query" ∈ TypeSet.singleton "Query" := TypeSet.mem_singleton.2 rfl
  have hA : "A" ∈ TypeSet.ofList ["A", "B"] := TypeSet.mem_ofList.2 (by simp)
  have hthing : "Thing" ∈ TypeSet.singleton "Thing" := TypeSet.mem_singleton.2 rfl
  refine ⟨by decide, _, rfl, hroot, ?_, by decide, _, rfl, hA, ?_, by decide, _, rfl, hthing, ?_,
    trivial⟩
  · intro next hnext
    obtain rfl : (1, "A") = next := Option.some.inj hnext
    exact ⟨_, .ofList ["A", "B"], rfl, rfl, hA⟩
  · intro next hnext
    obtain rfl : (3, "Thing") = next := Option.some.inj hnext
    exact ⟨_, .singleton "Thing", rfl, rfl, hthing⟩
  · exact fun _ h => absurd h (by simp)

/-- From the field `child` that an `A` reaches, `y` is not reached. -/
theorem not_reaches_y {field : Field} (hreach : request.Reaches "A" node.selections field) :
    ¬ request.Reaches "Thing" field.selections y := by
  have hxy : x ≠ y := fun h => by
    have hplace : x.place = y.place := by rw [h]
    exact absurd hplace (by decide)
  change request.Reaches "A"
    [.inline "A" [] [.field childOfA], .inline "B" [] [.field childOfB]] field at hreach
  cases hreach with
  | inline _ _ hinner =>
    cases hinner with
    | later hrest => cases hrest
    | here _ =>
      intro hy
      change request.Reaches "Thing" [.field x] y at hy
      generalize hz : y = z at hy
      cases hy with
      | later hrest => cases hrest
      | here _ => exact hxy hz.symm
  | later hrest =>
    cases hrest with
    | later hrest => cases hrest
    | inline _ happlies _ => exact absurd (happlies "B" rfl) (by decide)

/-- The node `y` stands below `child`, but for `B` only: it is not selected for an `A`. -/
theorem not_selected :
    (schema.isValid && schema.isWellFormed && schema.isUniform
        && operation.isDefined schema []) = true
      ∧ operation.forestWith schema {} [] [] none = .ok forest
      ∧ ¬ ∀ chain, forest.Chain request forest.roots chain →
        forest.Selected request operation.selections chain := by
  refine ⟨by decide +kernel, forest_eq, fun hall => ?_⟩
  obtain ⟨run, hfollows, hmatch⟩ := hall _ chain_to_y
  obtain ⟨⟨top, _⟩, _, ⟨rfl, _, hnode, htop⟩, hbelow, rfl⟩ := List.forall₂_cons_left_iff.1 hmatch
  obtain ⟨⟨child, _⟩, _, ⟨rfl, -⟩, hleaf, rfl⟩ := List.forall₂_cons_left_iff.1 hbelow
  obtain ⟨⟨last, _⟩, _, ⟨rfl, _, hy, hlast⟩, -, rfl⟩ := List.forall₂_cons_left_iff.1 hleaf
  obtain rfl : Bundle.mk node [] = _ := Option.some.inj hnode
  obtain rfl : Bundle.mk y [] = _ := Option.some.inj hy
  obtain rfl : top = node := List.mem_singleton.1 htop
  obtain rfl : last = y := List.mem_singleton.1 hlast
  exact not_reaches_y hfollows.2.1 hfollows.2.2.1

end Sample

end SelectionForest
