import SelectionForest.Proofs.Forest.Definitions
import SelectionForest.Proofs.Forest.WellFormed
import SelectionForest.Proofs.Walk.Fields

/-!
# Nodes beside each other

Selections below one position are merged into one node if and only if they agree on their response
key, their field, its type and its arguments. If an operation and its fragments write no argument,
and no object literal a key, twice (`Operation.hasUniqueNames`), then
to agree is an equivalence, and a forest is merged as far as it can be (`Forest.IsMerged`).

* `Lists.eq_of_agrees`: no two nodes of a level agree;
* `ShowsLevel.together`, `ShowsLevel.ascending`: the nodes of a response key stand together, in the
  order in which they were founded;
* `Selects.merges`: a node agrees with the fields merged into it, and is written as the first of
  them.
-/

namespace SelectionForest

/-- Whether an operation and the fragments that it may spread write no argument, and no object
literal a key, twice. -/
def Operation.hasUniqueNames (operation : Operation) (fragments : Fragments) : Bool :=
  (fieldsOf operation.selections
      ++ fragments.flatMap fun fragment => fieldsOf fragment.selections).all
    fun field => haveUniqueNames field.arguments

namespace Node

/-- Whether two nodes agree on their response key, their field, its type and its arguments. -/
def agreesWith (node other : Node) : Bool :=
  node.responseKey == other.responseKey && node.name == other.name && node.type == other.type
    && areLike node.arguments other.arguments

/-- Whether a node is written as the first of the fields merged into it, and agrees with them
all. -/
structure Merges (node : Node) (bundle : Bundle) : Prop where
  aliasName : node.aliasName = bundle.first.aliasName
  arguments : node.arguments = bundle.first.arguments
  responseKey : ∀ field ∈ bundle.fields, field.responseKey = node.responseKey
  name : ∀ field ∈ bundle.fields, field.name = node.name
  like : ∀ field ∈ bundle.fields,
    areLike node.arguments field.arguments ∧ areLike field.arguments node.arguments

end Node

namespace Forest

/-- The response key of the node of a number. -/
def keyOf? (forest : Forest) (id : Nat) : Option Name := (forest.node? id).map (·.responseKey)

/-- The nodes that stand below a parent, or at the top. -/
def siblings (forest : Forest) : Option Nat → List Nat
  | none => forest.roots
  | some id => forest.children id

/-- Whether the selections of a forest are merged into as few nodes as they can be. -/
structure IsMerged (forest : Forest) (request : Request) : Prop where
  /-- Different nodes with one parent do not agree. -/
  apart : ∀ {id other : Nat} {node sibling : Node}, forest.node? id = some node →
    forest.node? other = some sibling → node.parent = sibling.parent →
    node.agreesWith sibling = true → id = other
  /-- Those of one response key stand together. -/
  together : ∀ parent, AreTogether ((forest.siblings parent).map forest.keyOf?)
  /-- They stand in the order in which they were founded. -/
  ascending : ∀ parent, (forest.siblings parent).Pairwise fun id later =>
    forest.keyOf? id = forest.keyOf? later → id < later
  merged : ∀ {id : Nat} {node : Node}, forest.node? id = some node →
    ∃ bundle, forest.merged? id = some bundle ∧ node.Merges bundle
  /-- What is merged later changes neither the definition nor what was taken from it. -/
  definition : ∀ {id : Nat} {node : Node}, forest.node? id = some node →
    ∃ definition, node.HasDefinition request definition

end Forest

/-! ## Levels with unambiguous arguments -/

namespace Request

variable {request : Request} {operation : Operation} {types : TypeSet}
  {selections : List Selection}

/-- What holds of all fields of an operation and the fragments holds of those of its levels. -/
theorem HasLevel.forall_fields {P : Field → Prop} (hfragments : request.OfFragments P)
    (hoperation : ∀ field ∈ fieldsOf operation.selections, P field)
    (h : request.HasLevel operation types selections) :
    ∀ field ∈ fieldsOf selections, P field := by
  induction h with
  | top _ => exact hoperation
  | lower _ hexp hcls _ _ ih =>
    intro field hfield
    rw [fieldsOf_flatMap] at hfield
    obtain ⟨upper, hupper, hfield⟩ := List.mem_flatMap.1 hfield
    obtain ⟨occ, hmember, rfl⟩ := OccurrenceClass.mem_fields.1 hupper
    exact hexp.forall_fields hfragments ih occ (Schema.mem_of_group hcls hmember) field
      (Field.mem_fields.2 (.inr hfield))

/-- The occurrences of a level have arguments of unique names, if all fields do. -/
theorem HasLevel.hasUniqueNames
    (hnames : operation.hasUniqueNames request.fragments = true)
    (h : request.HasLevel operation types selections) {occs : List Occurrence}
    (hexp : request.Expands types [] selections occs) : ∀ occ ∈ occs, occ.hasUniqueNames := by
  rw [Operation.hasUniqueNames, List.all_eq_true] at hnames
  obtain ⟨hoperation, hfragments⟩ := List.forall_mem_append.1 hnames
  have hbelow : request.OfFragments (haveUniqueNames ·.arguments) := fun fragment hfragment field
    hfield => hfragments field (List.mem_flatMap.2 ⟨fragment, hfragment, hfield⟩)
  intro occ hocc
  exact hexp.forall_fields hbelow (h.forall_fields hbelow hoperation) occ hocc occ.field
    (Field.mem_fields.2 (.inl rfl))

end Request

/-! ## Agreement -/

namespace Node.Selects

variable {request : Request} {node other : Node} {cls cls' : OccurrenceClass}

theorem responseKey (h : node.Selects request cls) : node.responseKey = cls.1.responseKey := by
  rw [Node.responseKey, h.aliasName, h.name]
  rfl

/-- Nodes agree if the founders of their classes select the same. -/
theorem agreesWith_eq (h : node.Selects request cls) (h' : other.Selects request cls') :
    node.agreesWith other = request.schema.selectsSame cls.1 cls'.1 := by
  have hbeq : (some node.type == some other.type) = (node.type == other.type) := rfl
  rw [agreesWith, Schema.selectsSame, h.responseKey, h'.responseKey, h.name, h'.name, h.arguments,
    h'.arguments, h.type, h'.type, hbeq]

/-- A node agrees with the fields merged into it, and is written as the first of them. -/
theorem merges (h : node.Selects request cls) {occs : List Occurrence}
    (hnames : ∀ occ ∈ occs, occ.hasUniqueNames) (hcls : cls ∈ request.schema.groups occs) :
    node.Merges cls.fields := by
  have hsame {field : Field} (hfield : field ∈ cls.fields.fields) :
      ∃ occ ∈ membersOf cls, occ.field = field ∧ request.schema.selectsSame cls.1 occ := by
    obtain ⟨occ, hmember, heq⟩ := OccurrenceClass.mem_fields.1 hfield
    have hocc := Schema.mem_of_group hcls hmember
    exact ⟨occ, hmember, heq,
      (Schema.mem_group_iff hnames hcls List.mem_cons_self hocc).1 hmember⟩
  refine ⟨h.aliasName, h.arguments, fun field hfield => ?_, fun field hfield => ?_,
    fun field hfield => ?_⟩
  · obtain ⟨occ, -, rfl, hocc⟩ := hsame hfield
    rw [h.responseKey]
    exact (Schema.selectsSame_iff.1 hocc).1.symm
  · obtain ⟨occ, -, rfl, hocc⟩ := hsame hfield
    rw [h.name]
    exact (Schema.selectsSame_iff.1 hocc).2.1.symm
  · obtain ⟨occ, hmember, rfl, hocc⟩ := hsame hfield
    have hlike := (Schema.selectsSame_iff.1 hocc).2.2.2
    rw [h.arguments]
    exact ⟨hlike, areLike_symm (hnames _ (Schema.mem_of_group hcls List.mem_cons_self))
      (hnames _ (Schema.mem_of_group hcls hmember)) hlike⟩

end Node.Selects

namespace Forest

variable {forest : Forest} {request : Request} {operation : Operation}

/-- No two nodes of a level agree. -/
theorem Lists.eq_of_agrees {types : TypeSet} {selections : List Selection} {ids : List Nat}
    (h : forest.Lists request types selections ids)
    (hnames : ∀ occs, request.Expands types [] selections occs → ∀ occ ∈ occs, occ.hasUniqueNames)
    {id other : Nat} (hid : id ∈ ids) (hother : other ∈ ids) {node sibling : Node}
    (hnode : forest.node? id = some node) (hsibling : forest.node? other = some sibling)
    (hagree : node.agreesWith sibling = true) : id = other := by
  obtain ⟨occs, hexp, -, hshows⟩ := h
  have hocc := hnames occs hexp
  -- Of two classes, no founder selects the same as the other.
  have hclasses : (request.schema.groups occs).Pairwise fun cls later =>
      request.schema.selectsSame cls.1 later.1 = false
        ∧ request.schema.selectsSame later.1 cls.1 = false := by
    refine (Schema.groups_pairwise _ _).imp_of_mem fun {cls later} hcls hlater hapart => ?_
    have hfirst := hapart cls.1 List.mem_cons_self later.1 List.mem_cons_self
    refine ⟨hfirst, Bool.eq_false_iff.2 fun hsame => ?_⟩
    have hflip := (Schema.selectsSame_equiv request.schema).symm
      (hocc _ (Schema.mem_of_group hlater List.mem_cons_self))
      (hocc _ (Schema.mem_of_group hcls List.mem_cons_self)) hsame
    exact Bool.false_ne_true (hfirst.symm.trans hflip)
  by_contra hne
  obtain ⟨cls, -, later, -, ⟨node', hnode', hselects, -⟩, ⟨sibling', hsibling', hselects', -⟩,
    hapart⟩ := exists_apart And.symm hshows hclasses hid hother hne
  obtain rfl := Option.some.inj (hnode.symm.trans hnode')
  obtain rfl := Option.some.inj (hsibling.symm.trans hsibling')
  rw [hselects.agreesWith_eq hselects', hapart.1] at hagree
  cases hagree

/-- Nodes that stand below a number are the children of its node. -/
theorem exists_parent {p : Nat} (h : forest.siblings (some p) ≠ []) :
    ∃ node, forest.node? p = some node ∧ forest.siblings (some p) = node.children := by
  cases hp : forest.node? p with
  | none =>
    rw [siblings, children, hp] at h
    exact absurd rfl h
  | some node => exact ⟨node, rfl, children_of_node? hp⟩

/-- The nodes beside a node list a level of the operation. -/
theorem Collects.level_of_siblings (hcollects : forest.Collects request operation)
    {parent : Option Nat} {id : Nat} (hid : id ∈ forest.siblings parent) :
    ∃ types selections, request.HasLevel operation types selections
      ∧ forest.Lists request types selections (forest.siblings parent) := by
  cases parent with
  | none =>
    obtain ⟨types, htypes, hroots⟩ := hcollects.roots
    exact ⟨types, operation.selections, .top htypes, hroots⟩
  | some p =>
    obtain ⟨node, hp, hchildren⟩ := exists_parent (List.ne_nil_of_mem hid)
    rw [hchildren] at hid ⊢
    obtain ⟨types, selections, ids, hlevel, hlisted, hmem⟩ := hcollects.exists_level hp
    obtain ⟨below, merged, -, -, hlower, hlists⟩ := hcollects.exists_lower hlevel hlisted hmem hp
      (hcollects.isComposite_of_child hp hid)
    exact ⟨below, _, hlower, hlists⟩

/-- In a well-formed forest, a node stands below its parent or at the top. -/
theorem IsWellFormed.mem_siblings {schema : Schema} (h : forest.IsWellFormed schema) {id : Nat}
    {node : Node} (hnode : forest.node? id = some node) : id ∈ forest.siblings node.parent := by
  cases hparent : node.parent with
  | none => exact h.root_iff.2 ⟨node, hnode, hparent⟩
  | some p =>
    refine h.child_iff.2 ?_
    rw [parent?, hnode]
    exact hparent

end Forest

/-! ## Order -/

theorem NumberedNode.Shows.responseKey {n : NumberedNode} {cluster : Cluster}
    (h : n.Shows cluster) : n.node.responseKey = cluster.merged.responseKey := by
  rw [Node.responseKey, h.aliasName, h.name]
  rfl

namespace Forest.ShowsLevel

variable {forest : Forest} {request : Request} {types : TypeSet} {sets : List (List Selection)}
  {ids : List Nat}

/-- The nodes of a level have the response keys of its clusters. -/
theorem keyOf_tree {trees : List Tree} {start : Nat}
    (h : ∀ tree ∈ trees, ∃ n : NumberedNode, forest.node? n.id = some n.node
      ∧ forest.merged? n.id = some n.merged ∧ n.id = start + tree.rank ∧ n.Shows tree.cluster)
    {tree : Tree} (htree : tree ∈ trees) :
    forest.keyOf? (start + tree.rank) = some tree.cluster.merged.responseKey := by
  obtain ⟨n, hnode, -, hid, hshows⟩ := h tree htree
  rw [keyOf?, ← hid, hnode, ← hshows.responseKey]
  rfl

/-- The nodes of a response key stand together. -/
theorem together (h : forest.ShowsLevel request types sets ids) :
    AreTogether (ids.map forest.keyOf?) := by
  obtain ⟨trees, start, ⟨level, -, htrees⟩, rfl, hnodes⟩ := h
  have hkeys : (trees.map (start + ·.rank)).map forest.keyOf?
      = (level.grouped.map (·.1.merged.responseKey)).map some := by
    rw [← htrees, List.map_map, List.map_map, List.map_map]
    exact List.map_congr_left fun tree htree => keyOf_tree hnodes htree
  rw [hkeys]
  exact level.grouped_together.map (Option.some_injective _)

/-- The nodes of a response key stand in the order in which they were founded. -/
theorem ascending (h : forest.ShowsLevel request types sets ids) :
    ids.Pairwise fun id later => forest.keyOf? id = forest.keyOf? later → id < later := by
  obtain ⟨trees, start, ⟨level, -, htrees⟩, rfl, hnodes⟩ := h
  have hgrouped := level.grouped_ascending
  rw [← htrees, List.pairwise_map] at hgrouped
  refine List.pairwise_map.2 (hgrouped.imp_of_mem fun htree hlater hlt hkey => ?_)
  rw [keyOf_tree hnodes htree, keyOf_tree hnodes hlater] at hkey
  exact Nat.add_lt_add_left (hlt (Option.some.inj hkey)) start

end Forest.ShowsLevel

namespace Request

variable {request : Request} {options : Options} {operation : Operation} {trees : List Tree}

/-- The nodes with one parent show a level, if there are any. -/
theorem grow_siblings (h : request.grow options operation = .ok trees) (parent : Option Nat) :
    (Forest.ofTrees trees).siblings parent = []
      ∨ ∃ types sets, (Forest.ofTrees trees).ShowsLevel request types sets
        ((Forest.ofTrees trees).siblings parent) := by
  refine or_iff_not_imp_left.2 fun hne => ?_
  cases parent with
  | none =>
    obtain ⟨types, -, hroots⟩ := grow_roots h
    exact ⟨types, _, hroots⟩
  | some p =>
    obtain ⟨node, hp, hchildren⟩ := Forest.exists_parent hne
    rw [hchildren] at hne ⊢
    cases hc : request.schema.isComposite node.type.innerName with
    | true =>
      obtain ⟨types, merged, -, -, hlevel⟩ := grow_below h hp hc
      exact ⟨types, _, hlevel⟩
    | false => exact absurd ((grow_collects h).leaves hp hc) hne

/-- The forest of the trees of an operation is merged. -/
theorem grow_isMerged (h : request.grow options operation = .ok trees)
    (hnames : operation.hasUniqueNames request.fragments = true) :
    (Forest.ofTrees trees).IsMerged request := by
  have hcollects := grow_collects h
  have hformed := grow_isWellFormed h
  exact {
    apart := fun hnode hsibling hparent hagree => by
      have hid := hformed.mem_siblings hnode
      have hother := hformed.mem_siblings hsibling
      rw [← hparent] at hother
      obtain ⟨types, selections, hlevel, hlisted⟩ := hcollects.level_of_siblings hid
      exact hlisted.eq_of_agrees (fun _ hexp => hlevel.hasUniqueNames hnames hexp) hid hother hnode
        hsibling hagree
    together := fun parent => by
      rcases grow_siblings h parent with hnil | ⟨types, sets, hlevel⟩
      · rw [hnil]
        exact fun _ _ hsub => absurd (List.sublist_nil.1 hsub) (List.cons_ne_nil _ _)
      · exact hlevel.together
    ascending := fun parent => by
      rcases grow_siblings h parent with hnil | ⟨types, sets, hlevel⟩
      · rw [hnil]
        exact .nil
      · exact hlevel.ascending
    merged := fun hnode => by
      obtain ⟨types, selections, ids, hlevel, hlisted, hid⟩ := hcollects.exists_level hnode
      obtain ⟨occs, cls, hexp, hcls, hselects, hmerged⟩ := hlisted.exists_class hid hnode
      exact ⟨cls.fields, hmerged, hselects.merges (hlevel.hasUniqueNames hnames hexp) hcls⟩
    definition := fun hnode => hcollects.exists_definition hnode }

end Request

/-- If an operation and its fragments write no argument, and no object literal a key, twice, then
the forest of the operation is merged as far as it can be. -/
theorem Operation.forestWith_isMerged {operation : Operation} {schema : Schema}
    {options : Options} {fragments : Fragments} {bindings : Members}
    {sources : Option TracedInputs} {forest : Forest}
    (hnames : operation.hasUniqueNames fragments = true)
    (h : operation.forestWith schema options fragments bindings sources = .ok forest) :
    forest.IsMerged ⟨schema, fragments, bindings, sources⟩ := by
  obtain ⟨trees, htrees, rfl⟩ := Operation.forestWith_eq_ok.1 h
  exact Request.grow_isMerged htrees hnames

/-- The sample is merged: both fields `child` into one node, `x` and `y` into two. -/
theorem Sample.isMerged : Sample.operation.hasUniqueNames [] = true
    ∧ Sample.forest.IsMerged Sample.request := by
  have hnames : Sample.operation.hasUniqueNames [] = true := by decide
  exact ⟨hnames, Operation.forestWith_isMerged hnames Sample.forest_eq⟩

end SelectionForest
