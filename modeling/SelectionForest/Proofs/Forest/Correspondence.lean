import Mathlib.Data.Set.Function
import SelectionForest.Proofs.Forest.Relating
import SelectionForest.Proofs.Forest.Siblings
import SelectionForest.Proofs.Level.Mirroring
import SelectionForest.Proofs.Reordering

/-!
# Forests of the same selections in another order

Two operations may come to the same fields at every level, each for the same object types, and only
in another order (`Request.Reorders`). Then which field founds a node, and the numbers that nodes
have, differ between their forests. But the fields that are merged into one node of one forest are
merged into one node of the other (`exists_matching_group`). So if arguments have unique names, each
node corresponds to the one that matches it below the node that its parent corresponds to
(`Forest.Corresponds`), to no other (`Corresponds.unique`), and this is a bijection
(`Request.Reorders.exists_reordering`).
-/

namespace SelectionForest

/-! ## Occurrences -/

/-- Whether two operations come to related fields, each for the same object types, in whatever
order: at the top, and below fields that are related. -/
structure Request.Reorders (request : Request) (operation : Operation) (request' : Request)
    (operation' : Operation) (R : Field → Field → Prop) : Prop where
  schema : request'.schema = request.schema
  rootType : operation'.rootType = operation.rootType
  head : ∀ {field other}, R field other → field.SameHead other
  top : ∀ {types occs others}, request.Expands types [] operation.selections occs →
    request'.Expands types [] operation'.selections others →
    Reordered (Occurrence.Like R) occs others
  below : ∀ {field other}, R field other → ∀ {types occs others},
    request.Expands types [] field.selections occs →
    request'.Expands types [] other.selections others → Reordered (Occurrence.Like R) occs others

namespace Occurrence.Like

variable {R : Field → Field → Prop} {occ other : Occurrence} {schema : Schema}

theorem symm (h : occ.Like R other) : other.Like (flip R) occ := ⟨h.types.symm, h.field⟩

variable (hhead : ∀ {field other : Field}, R field other → field.SameHead other)

include hhead

theorem declaredType (h : occ.Like R other) :
    schema.declaredType? other = schema.declaredType? occ := by
  rw [Schema.declaredType?, Schema.declaredType?, h.types, (hhead h.field).name]

theorem responseKey (h : occ.Like R other) : other.responseKey = occ.responseKey :=
  (hhead h.field).responseKey

/-- What selects the same as an occurrence is the same for one like it. -/
theorem selectsSame_left (h : occ.Like R other) (third : Occurrence) :
    schema.selectsSame other third = schema.selectsSame occ third := by
  have hfield := hhead h.field
  rw [Schema.selectsSame, Schema.selectsSame, h.responseKey hhead, h.declaredType hhead,
    hfield.name, hfield.arguments]

theorem selectsSame_right (h : occ.Like R other) (third : Occurrence) :
    schema.selectsSame third other = schema.selectsSame third occ := by
  have hfield := hhead h.field
  rw [Schema.selectsSame, Schema.selectsSame, h.responseKey hhead, h.declaredType hhead,
    hfield.name, hfield.arguments]

end Occurrence.Like

section Groups

variable {R : Field → Field → Prop} {schema : Schema} {occs others : List Occurrence}
  {cls cls' : OccurrenceClass}

/-- Whether the members of a class match those of another one, whichever of them founds it. -/
structure OccurrenceClass.Matches (R : Field → Field → Prop) (schema : Schema)
    (cls cls' : OccurrenceClass) : Prop where
  members : Reordered (Occurrence.Like R) (membersOf cls) (membersOf cls')
  founders : schema.selectsSame cls.1 cls'.1 ∧ schema.selectsSame cls'.1 cls.1

theorem OccurrenceClass.Matches.fields (h : OccurrenceClass.Matches R schema cls cls') :
    Reordered R cls.fields.fields cls'.fields.fields := by
  have hmap (cls : OccurrenceClass) : cls.fields.fields = (membersOf cls).map (·.field) := rfl
  rw [hmap, hmap, Reordered.map_iff]
  exact h.members.imp fun _ _ hocc => hocc.field

theorem OccurrenceClass.Matches.mem_objectTypes (h : OccurrenceClass.Matches R schema cls cls')
    {type : Name} : type ∈ cls.objectTypes ↔ type ∈ cls'.objectTypes := by
  rw [OccurrenceClass.mem_objectTypes, OccurrenceClass.mem_objectTypes]
  constructor
  · rintro ⟨occ, hocc, htype⟩
    obtain ⟨other, hother, hlike⟩ := h.members.exists_right hocc
    exact ⟨other, hother, hlike.types ▸ htype⟩
  · rintro ⟨other, hother, htype⟩
    obtain ⟨occ, hocc, hlike⟩ := h.members.exists_left hother
    exact ⟨occ, hocc, hlike.types ▸ htype⟩

/-- For each class of occurrences there is one of those that match its members. -/
theorem exists_matching_group
    (hhead : ∀ {field other : Field}, R field other → field.SameHead other)
    (h : Reordered (Occurrence.Like R) occs others)
    (hnames : ∀ occ ∈ occs, occ.hasUniqueNames) (hnames' : ∀ occ ∈ others, occ.hasUniqueNames)
    (hcls : cls ∈ schema.groups occs) :
    ∃ cls' ∈ schema.groups others, OccurrenceClass.Matches R schema cls cls' := by
  have hfounder : cls.1 ∈ occs := Schema.mem_of_group hcls List.mem_cons_self
  obtain ⟨other, hother, hlike⟩ := h.exists_right hfounder
  obtain ⟨cls', hcls', hmember⟩ := schema.exists_group hother
  have hfounder' : cls'.1 ∈ others := Schema.mem_of_group hcls' List.mem_cons_self
  refine ⟨cls', hcls', ?_, ?_, ?_⟩
  · rw [Schema.membersOf_group hnames hcls List.mem_cons_self,
      Schema.membersOf_group hnames' hcls' hmember]
    refine h.filter fun _ _ hocc => ?_
    rw [hlike.selectsSame_left hhead, hocc.selectsSame_right hhead]
  · -- What is like the founder of the class selects the same as the founder of the other.
    rw [← hlike.selectsSame_left hhead]
    exact (Schema.mem_group_iff hnames' hcls' hmember hfounder').1 List.mem_cons_self
  · rw [← hlike.selectsSame_right hhead]
    exact (Schema.mem_group_iff hnames' hcls' List.mem_cons_self hother).1 hmember

end Groups

/-! ## Nodes -/

/-- Whether nodes are the same, but for their numbers, the order of their object types and the way
in which their arguments are written. -/
structure Node.Matches (node other : Node) : Prop where
  responseKey : node.responseKey = other.responseKey
  name : node.name = other.name
  type : node.type = other.type
  objectTypes : ∀ type, type ∈ node.objectTypes ↔ type ∈ other.objectTypes
  arguments : areLike node.arguments other.arguments ∧ areLike other.arguments node.arguments

namespace Node

variable {node other third : Node}

theorem Matches.symm (h : node.Matches other) : other.Matches node :=
  ⟨h.responseKey.symm, h.name.symm, h.type.symm, fun type => (h.objectTypes type).symm,
    h.arguments.symm⟩

/-- Nodes that match one node agree. -/
theorem Matches.agreesWith (h : node.Matches other) (h' : node.Matches third) :
    other.agreesWith third = true := by
  have hlike : areLike other.arguments third.arguments = true :=
    areLike_trans h.arguments.2 h'.arguments.1
  rw [Node.agreesWith, ← h.responseKey, ← h'.responseKey, ← h.name, ← h'.name, ← h.type, ← h'.type,
    hlike]
  simp

/-- Nodes of classes that match do. -/
theorem Selects.matches_of {R : Field → Field → Prop} {request request' : Request}
    {cls cls' : OccurrenceClass} (h : node.Selects request cls) (h' : other.Selects request' cls')
    (hschema : request'.schema = request.schema)
    (hcls : OccurrenceClass.Matches R request.schema cls cls') : node.Matches other := by
  obtain ⟨hkey, hname, htype, hlike⟩ := Schema.selectsSame_iff.1 hcls.founders.1
  obtain ⟨-, -, -, hback⟩ := Schema.selectsSame_iff.1 hcls.founders.2
  rw [← hschema, h'.type, hschema, h.type] at htype
  exact {
    responseKey := by rw [h.responseKey, h'.responseKey, hkey]
    name := by rw [h.name, h'.name, hname]
    type := Option.some.inj htype
    objectTypes := fun _ => by
      rw [h.objectTypes, h'.objectTypes]
      exact hcls.mem_objectTypes
    arguments := by
      rw [h.arguments, h'.arguments]
      exact ⟨hlike, hback⟩ }

end Node

/-! ## Forests -/

namespace Forest

/-- Whether nodes match, and related fields are merged into them. -/
def Pairs (forest other : Forest) (R : Field → Field → Prop) (id id' : Nat) : Prop :=
  ∃ node node' bundle bundle', forest.node? id = some node ∧ other.node? id' = some node'
    ∧ node.Matches node' ∧ forest.merged? id = some bundle ∧ other.merged? id' = some bundle'
    ∧ Reordered R bundle.fields bundle'.fields

/-- Whether a node corresponds to one of another forest: they match, and are roots or stand below
nodes that correspond. -/
inductive Corresponds (forest other : Forest) (R : Field → Field → Prop) : Nat → Nat → Prop
  | root {id id' : Nat} (hid : id ∈ forest.roots) (hid' : id' ∈ other.roots)
      (hpairs : forest.Pairs other R id id') : Corresponds forest other R id id'
  | child {id id' child child' : Nat} (hupper : Corresponds forest other R id id')
      (hchild : child ∈ forest.children id) (hchild' : child' ∈ other.children id')
      (hpairs : forest.Pairs other R child child') : Corresponds forest other R child child'

/-- Whether giving the nodes of a forest new numbers makes them those of another one: every node has
a number there that no other one has, and has it below that of its parent, at the same depth; and
the fields merged into the nodes are the same, as often as they are. -/
structure IsReordering (forest other : Forest) (R : Field → Field → Prop) (number : Nat → Nat) :
    Prop where
  bijOn : Set.BijOn number {id | id < forest.size} {id | id < other.size}
  node : ∀ {id : Nat} {node : Node}, forest.node? id = some node →
    ∃ node', other.node? (number id) = some node' ∧ node.Matches node'
      ∧ node'.parent = node.parent.map number ∧ node'.depth = node.depth
  merged : ∀ {id : Nat} {bundle : Bundle}, forest.merged? id = some bundle →
    ∃ bundle', other.merged? (number id) = some bundle'
      ∧ Reordered R bundle.fields bundle'.fields

/-- Whether a forest is that of an operation whose arguments have unique names. -/
structure IsForestOf (forest : Forest) (request : Request) (operation : Operation) : Prop where
  names : operation.hasUniqueNames request.fragments = true
  formed : forest.IsWellFormed request.schema
  collects : forest.Collects request operation
  merged : forest.IsMerged request

theorem lt_size_iff {forest : Forest} {id : Nat} :
    id < forest.size ↔ ∃ node, forest.node? id = some node := by
  rw [node?, size]
  constructor
  · exact fun h => ⟨_, List.getElem?_eq_getElem h⟩
  · rintro ⟨node, hnode⟩
    exact (List.getElem?_eq_some_iff.1 hnode).1

variable {forest other : Forest} {R : Field → Field → Prop} {request request' : Request}
  {operation operation' : Operation} {id id' id'' : Nat}

theorem Pairs.symm (h : forest.Pairs other R id id') : other.Pairs forest (flip R) id' id := by
  obtain ⟨node, node', bundle, bundle', hnode, hnode', hmatches, hmerged, hmerged', hfields⟩ := h
  exact ⟨node', node, bundle', bundle, hnode', hnode, hmatches.symm, hmerged', hmerged,
    hfields.flip⟩

/-- A node of a merged forest is known by its parent and a node that it matches. -/
theorem Pairs.eq (hmerged : other.IsMerged request') (h : forest.Pairs other R id id')
    (h' : forest.Pairs other R id id'') (hparent : other.parent? id' = other.parent? id'') :
    id' = id'' := by
  obtain ⟨node, node', -, -, hnode, hnode', hmatches, -⟩ := h
  obtain ⟨_, node'', -, -, hnode₂, hnode'', hmatches', -⟩ := h'
  obtain rfl := Option.some.inj (hnode.symm.trans hnode₂)
  rw [parent?, parent?, hnode', hnode''] at hparent
  exact hmerged.apart hnode' hnode'' hparent (hmatches.agreesWith hmatches')

namespace IsWellFormed

variable {schema : Schema} {child : Nat}

theorem parent?_of_root (h : forest.IsWellFormed schema) (hroot : id ∈ forest.roots) :
    forest.parent? id = none := by
  obtain ⟨node, hnode, hparent⟩ := h.root_iff.1 hroot
  rw [parent?, hnode]
  exact hparent

/-- No root is a child. -/
theorem not_root (h : forest.IsWellFormed schema) (hchild : child ∈ forest.children id) :
    child ∉ forest.roots := fun hroot => by
  have hparent := (h.parent?_of_root hroot).symm.trans (h.child_iff.1 hchild)
  cases hparent

end IsWellFormed

namespace Corresponds

theorem pairs (h : forest.Corresponds other R id id') : forest.Pairs other R id id' := by
  cases h with
  | root _ _ hpairs => exact hpairs
  | child _ _ _ hpairs => exact hpairs

theorem symm (h : forest.Corresponds other R id id') :
    other.Corresponds forest (flip R) id' id := by
  induction h with
  | root hid hid' hpairs => exact .root hid' hid hpairs.symm
  | child _ hchild hchild' hpairs ih => exact .child ih hchild' hchild hpairs.symm

theorem lt_size (h : forest.Corresponds other R id id') : id < forest.size ∧ id' < other.size := by
  obtain ⟨node, node', -, -, hnode, hnode', -⟩ := h.pairs
  exact ⟨lt_size_iff.2 ⟨node, hnode⟩, lt_size_iff.2 ⟨node', hnode'⟩⟩

variable {schema : Schema} (hformed : forest.IsWellFormed schema)
  (hother : other.IsWellFormed schema)

include hformed hother

/-- A node corresponds to one node at most. -/
theorem unique (hmerged : other.IsMerged request') (h : forest.Corresponds other R id id')
    (h' : forest.Corresponds other R id id'') : id' = id'' := by
  induction h generalizing id'' with
  | root hid hid' hpairs =>
    cases h' with
    | root _ hid'' hpairs' =>
      refine hpairs.eq hmerged hpairs' ?_
      rw [hother.parent?_of_root hid', hother.parent?_of_root hid'']
    | child _ hchild => exact absurd hid (hformed.not_root hchild)
  | child _ hchild hchild' hpairs ih =>
    cases h' with
    | root hid => exact absurd hid (hformed.not_root hchild)
    | child hupper hchild₂ hchild'' hpairs' =>
      -- Both stand below nodes that the one parent corresponds to, which are the same.
      obtain rfl := Option.some.inj
        ((hformed.child_iff.1 hchild).symm.trans (hformed.child_iff.1 hchild₂))
      obtain rfl := ih hupper
      refine hpairs.eq hmerged hpairs' ?_
      rw [hother.child_iff.1 hchild', hother.child_iff.1 hchild'']

/-- Nodes that correspond have the same depth. -/
theorem depth (h : forest.Corresponds other R id id') {node node' : Node}
    (hnode : forest.node? id = some node) (hnode' : other.node? id' = some node') :
    node'.depth = node.depth := by
  induction h generalizing node node' with
  | root hid hid' _ =>
    obtain ⟨top, htop, hnone⟩ := hformed.root_iff.1 hid
    obtain ⟨top', htop', hnone'⟩ := hother.root_iff.1 hid'
    obtain rfl := Option.some.inj (htop.symm.trans hnode)
    obtain rfl := Option.some.inj (htop'.symm.trans hnode')
    rw [hformed.root_depth htop hnone, hother.root_depth htop' hnone']
  | child hupper hchild hchild' _ ih =>
    obtain ⟨upper, upper', -, -, hup, hup', -⟩ := hupper.pairs
    rw [children_of_node? hup] at hchild
    rw [children_of_node? hup'] at hchild'
    rw [(hformed.child_below hup hnode hchild).2, (hother.child_below hup' hnode' hchild').2,
      ih hup hup']

end Corresponds

/-- Where selections expand to occurrences that match, each node of their level has a partner. -/
theorem Lists.exists_pair {types : TypeSet} {selections selections' : List Selection}
    {ids ids' : List Nat} (hschema : request'.schema = request.schema)
    (hhead : ∀ {field other : Field}, R field other → field.SameHead other)
    (h : forest.Lists request types selections ids)
    (h' : other.Lists request' types selections' ids')
    (hoccs : ∀ {occs others}, request.Expands types [] selections occs →
      request'.Expands types [] selections' others → Reordered (Occurrence.Like R) occs others)
    (hnames : ∀ {occs}, request.Expands types [] selections occs →
      ∀ occ ∈ occs, occ.hasUniqueNames)
    (hnames' : ∀ {occs}, request'.Expands types [] selections' occs →
      ∀ occ ∈ occs, occ.hasUniqueNames) (hid : id ∈ ids) :
    ∃ id' ∈ ids', forest.Pairs other R id id' := by
  obtain ⟨occs, hexp, -, hshows⟩ := h
  obtain ⟨others, hexp', -, hshows'⟩ := h'
  obtain ⟨cls, hcls, node, hnode, hselects, hmerged⟩ := exists_right hshows hid
  obtain ⟨cls', hcls', hmatches⟩ :=
    exists_matching_group hhead (hoccs hexp hexp') (hnames hexp) (hnames' hexp') hcls
  rw [← hschema] at hcls'
  obtain ⟨id', hid', node', hnode', hselects', hmerged'⟩ := exists_left hshows' hcls'
  exact ⟨id', hid', node, node', cls.fields, cls'.fields, hnode, hnode',
    hselects.matches_of hselects' hschema hmatches, hmerged, hmerged', hmatches.fields⟩

/-- The children of a node list the selections of its fields, which have unique names. -/
theorem IsForestOf.level_below (h : forest.IsForestOf request operation) {node : Node}
    (hnode : forest.node? id = some node)
    (hcomposite : request.schema.isComposite node.type.innerName = true) :
    ∃ types merged, request.typesOf node.type.innerName = .ok types
      ∧ forest.merged? id = some merged
      ∧ forest.Lists request types (merged.fields.flatMap (·.selections)) node.children
      ∧ ∀ {occs}, request.Expands types [] (merged.fields.flatMap (·.selections)) occs →
        ∀ occ ∈ occs, occ.hasUniqueNames := by
  obtain ⟨_, _, ids, hlevel, hlisted, hid⟩ := h.collects.exists_level hnode
  obtain ⟨types, merged, htypes, hmerged, hlower, hlists⟩ :=
    h.collects.exists_lower hlevel hlisted hid hnode hcomposite
  exact ⟨types, merged, htypes, hmerged, hlists, fun hexp => hlower.hasUniqueNames h.names hexp⟩

end Forest

namespace Request.Reorders

variable {request request' : Request} {operation operation' : Operation}
  {R : Field → Field → Prop} {forest other : Forest}

/-- To come to the same fields in another order is symmetric. -/
theorem symm (h : request.Reorders operation request' operation' R) :
    request'.Reorders operation' request operation (flip R) where
  schema := h.schema.symm
  rootType := h.rootType.symm
  head hfield := by
    have hback := h.head hfield
    exact ⟨hback.aliasName.symm, hback.name.symm, hback.arguments.symm⟩
  top hexp hexp' := (h.top hexp' hexp).flip.imp fun _ _ hocc => Occurrence.Like.symm hocc
  below hfield _ _ _ hexp hexp' :=
    (h.below hfield hexp' hexp).flip.imp fun _ _ hocc => Occurrence.Like.symm hocc

/-- Below fields in another order, taken together, stand the same fields in another order. -/
theorem flatMap (h : request.Reorders operation request' operation' R) {fields others : List Field}
    (hfields : Reordered R fields others) {types : TypeSet} {occs occs' : List Occurrence}
    (hexp : request.Expands types [] (fields.flatMap (·.selections)) occs)
    (hexp' : request'.Expands types [] (others.flatMap (·.selections)) occs') :
    Reordered (Occurrence.Like R) occs occs' := by
  induction fields generalizing others occs occs' with
  | nil =>
    obtain rfl := hfields.eq_nil
    cases hexp
    cases hexp'
    exact .nil
  | cons field fields ih =>
    obtain ⟨other, before, after, rfl, hfield, hrest⟩ := hfields.exists_of_cons
    rw [List.flatMap_cons] at hexp
    rw [List.flatMap_append, List.flatMap_cons] at hexp'
    obtain ⟨first, rest, rfl, hfirst, hexp⟩ := hexp.exists_append
    obtain ⟨front, _, rfl, hfront, hexp'⟩ := hexp'.exists_append
    obtain ⟨first', back, rfl, hfirst', hback⟩ := hexp'.exists_append
    have hboth := hfront.append hback
    rw [← List.flatMap_append] at hboth
    exact (ih hrest hexp hboth).insert (h.below hfield hfirst hfirst')

variable (h : request.Reorders operation request' operation' R)
  (hforest : forest.IsForestOf request operation) (hother : other.IsForestOf request' operation')

include h hforest hother

/-- Each root has a partner. -/
theorem exists_root {id : Nat} (hid : id ∈ forest.roots) :
    ∃ id', forest.Corresponds other R id id' := by
  obtain ⟨types, htypes, hroots⟩ := hforest.collects.roots
  obtain ⟨types', htypes', hroots'⟩ := hother.collects.roots
  have hsame := htypes'
  rw [typesOf_eq h.schema, h.rootType, htypes] at hsame
  obtain rfl := Except.ok.inj hsame
  obtain ⟨id', hid', hpairs⟩ := hroots.exists_pair h.schema h.head hroots' h.top
    (fun hexp => (HasLevel.top htypes).hasUniqueNames hforest.names hexp)
    (fun hexp => (HasLevel.top htypes').hasUniqueNames hother.names hexp) hid
  exact ⟨id', .root hid hid' hpairs⟩

/-- Below nodes that correspond, each child has a partner. -/
theorem exists_child {id id' child : Nat} (hupper : forest.Corresponds other R id id')
    (hchild : child ∈ forest.children id) : ∃ child', forest.Corresponds other R child child' := by
  obtain ⟨node, node', bundle, bundle', hnode, hnode', hmatches, hmerged, hmerged', hfields⟩ :=
    hupper.pairs
  rw [Forest.children_of_node? hnode] at hchild
  have hcomposite : request.schema.isComposite node.type.innerName = true :=
    hforest.collects.isComposite_of_child hnode hchild
  have hcomposite' : request'.schema.isComposite node'.type.innerName = true := by
    rwa [h.schema, ← hmatches.type]
  obtain ⟨types, merged, htypes, hmerged₂, hlists, hnames⟩ :=
    hforest.level_below hnode hcomposite
  obtain ⟨types', merged', htypes', hmerged₂', hlists', hnames'⟩ :=
    hother.level_below hnode' hcomposite'
  obtain rfl := Option.some.inj (hmerged.symm.trans hmerged₂)
  obtain rfl := Option.some.inj (hmerged'.symm.trans hmerged₂')
  rw [typesOf_eq h.schema, ← hmatches.type, htypes] at htypes'
  obtain rfl := Except.ok.inj htypes'
  obtain ⟨child', hchild', hpairs⟩ := hlists.exists_pair h.schema h.head hlists'
    (fun hexp hexp' => h.flatMap hfields hexp hexp') hnames hnames' hchild
  rw [← Forest.children_of_node? hnode] at hchild
  rw [← Forest.children_of_node? hnode'] at hchild'
  exact ⟨child', .child hupper hchild hchild' hpairs⟩

/-- Each node corresponds to one of the other forest. -/
theorem exists_corresponding {id : Nat} (hid : id < forest.size) :
    ∃ id', forest.Corresponds other R id id' := by
  obtain ⟨node, hnode⟩ := Forest.lt_size_iff.1 hid
  refine hforest.collects.reached (fun id hid => h.exists_root hforest hother hid) ?_ hnode
  intro id node hnode hupper child hchild
  obtain ⟨id', hupper⟩ := hupper
  rw [← Forest.children_of_node? hnode] at hchild
  exact h.exists_child hforest hother hupper hchild

section Number

variable {number : Nat → Nat}
  (hnumber : ∀ id < forest.size, forest.Corresponds other R id (number id))

include hnumber

/-- A node has no other number than that of the node that it corresponds to. -/
theorem number_eq {id id' : Nat} (hid : forest.Corresponds other R id id') : number id = id' := by
  have hformed : other.IsWellFormed request.schema := h.schema ▸ hother.formed
  exact (hnumber id hid.lt_size.1).unique hforest.formed hformed hother.merged hid

theorem bijOn_number : Set.BijOn number {id | id < forest.size} {id | id < other.size} := by
  have hformed : other.IsWellFormed request.schema := h.schema ▸ hother.formed
  refine ⟨fun id hid => (hnumber id hid).lt_size.2, fun id hid id' hid' hsame => ?_,
    fun id' hid' => ?_⟩
  · have hback := (hnumber id' hid').symm
    rw [← hsame] at hback
    exact (hnumber id hid).symm.unique hformed hforest.formed hforest.merged hback
  · obtain ⟨id, hback⟩ := h.symm.exists_corresponding hother hforest hid'
    have hid : forest.Corresponds other R id id' := hback.symm
    exact ⟨id, hid.lt_size.1, h.number_eq hforest hother hnumber hid⟩

/-- The parent of a node has the number of the parent there. -/
theorem parent_number {id : Nat} (hid : id < forest.size) :
    other.parent? (number id) = (forest.parent? id).map number := by
  cases hnumber id hid with
  | root hroot hroot' =>
    rw [hforest.formed.parent?_of_root hroot, hother.formed.parent?_of_root hroot']
    rfl
  | child hupper hchild hchild' =>
    rw [hforest.formed.child_iff.1 hchild, hother.formed.child_iff.1 hchild', Option.map_some,
      h.number_eq hforest hother hnumber hupper]

end Number

/-- Forests of the same selections in another order are the same, up to the numbers of nodes. -/
theorem exists_reordering : ∃ number, forest.IsReordering other R number := by
  have hformed : other.IsWellFormed request.schema := h.schema ▸ hother.formed
  have htotal (id : Nat) : ∃ id', id < forest.size → forest.Corresponds other R id id' := by
    by_cases hid : id < forest.size
    · obtain ⟨id', hid'⟩ := h.exists_corresponding hforest hother hid
      exact ⟨id', fun _ => hid'⟩
    · exact ⟨0, fun hlt => absurd hlt hid⟩
  choose number hnumber using htotal
  refine ⟨number, h.bijOn_number hforest hother hnumber, ?_, ?_⟩
  · intro id node hnode
    have hid : id < forest.size := Forest.lt_size_iff.2 ⟨node, hnode⟩
    obtain ⟨node₂, node', -, -, hnode₂, hnode', hmatches, -⟩ := (hnumber id hid).pairs
    obtain rfl := Option.some.inj (hnode.symm.trans hnode₂)
    have hparent := h.parent_number hforest hother hnumber hid
    rw [Forest.parent?, Forest.parent?, hnode, hnode'] at hparent
    exact ⟨node', hnode', hmatches, hparent,
      (hnumber id hid).depth hforest.formed hformed hnode hnode'⟩
  · intro id bundle hbundle
    have hid : id < forest.size := by
      rw [Forest.size, hforest.formed.paired]
      exact (List.getElem?_eq_some_iff.1 hbundle).1
    obtain ⟨-, -, bundle₂, bundle', -, -, -, hbundle₂, hbundle', hfields⟩ := (hnumber id hid).pairs
    obtain rfl := Option.some.inj (hbundle.symm.trans hbundle₂)
    exact ⟨bundle', hbundle', hfields⟩

end Request.Reorders

end SelectionForest
