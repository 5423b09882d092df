import SelectionForest.Proofs.Forest.Definitions
import SelectionForest.Proofs.Forest.Traversal

/-!
# Forests are well formed

Numbers are given level by level, while trees are built one inside the other. What comes of it is a
forest in which each node stands in one place (`Forest.IsWellFormed`).

* `preorder_ids_perm_children`: the numbers of nodes are those of the roots and of all children,
  each once;
* `Tree.number_hasChildren`: the children of a node are nodes, and stand below it (`IsBelow`);
* `preorder_parent`: every node is a root or stands below one node;
* `forestWith_isWellFormed`: the forest of an operation is well formed.
-/

namespace SelectionForest

/-! ## Roots and children -/

mutual

theorem Tree.number_ids_perm_children : ∀ (tree : Tree) (parent : Option Nat)
    (depth start next : Nat),
    ((tree.number parent depth start next).map (·.id)).Perm
      ((start + tree.rank)
        :: (tree.number parent depth start next).flatMap (·.node.children))
  | ⟨cluster, rank, children⟩, parent, depth, start, next => by
    rw [Tree.number, List.map_cons, List.flatMap_cons]
    exact .cons _ (numberLevel_ids_perm_children children _ _ next _)

theorem numberLevel_ids_perm_children : ∀ (trees : List Tree) (parent : Option Nat)
    (depth start next : Nat),
    ((numberLevel parent depth start next trees).map (·.id)).Perm
      (trees.map (start + ·.rank)
        ++ (numberLevel parent depth start next trees).flatMap (·.node.children))
  | [], _, _, _, _ => by
    rw [numberLevel]
    exact .nil
  | tree :: trees, parent, depth, start, next => by
    rw [numberLevel, List.map_append, List.flatMap_append, List.map_cons, List.cons_append]
    have htree := tree.number_ids_perm_children parent depth start next
    have htrees := numberLevel_ids_perm_children trees parent depth start
      (next + tree.descendants)
    refine (htree.append htrees).trans (.cons _ ?_)
    exact List.perm_append_comm_assoc ..

end

/-- The numbers of nodes are those of the roots and of all children, each once. -/
theorem preorder_ids_perm_children (trees : List Tree) :
    ((preorderOf trees).map (·.id)).Perm
      (trees.map (·.rank) ++ (preorderOf trees).flatMap (·.node.children)) := by
  have h := numberLevel_ids_perm_children trees none 1 0 trees.length
  simp only [Nat.zero_add] at h
  exact h

/-- Whether a node stands below another one, as its child. -/
structure NumberedNode.IsBelow (n upper : NumberedNode) : Prop where
  parent : n.node.parent = some upper.id
  depth : n.node.depth = upper.node.depth + 1
  later : upper.id < n.id

/-- Whether the children of a node are among some nodes, and stand below it. -/
def NumberedNode.HasChildren (nodes : List NumberedNode) (n : NumberedNode) : Prop :=
  ∀ child ∈ n.node.children, ∃ m ∈ nodes, m.id = child ∧ m.IsBelow n

/-- The node that stands first in the pre-order of a tree has the place that the tree is given. -/
theorem Tree.exists_placed (tree : Tree) (parent : Option Nat) (depth start next : Nat) :
    ∃ n ∈ tree.number parent depth start next,
      n.id = start + tree.rank ∧ n.node.parent = parent ∧ n.node.depth = depth := by
  obtain ⟨cluster, rank, children⟩ := tree
  rw [Tree.number]
  exact ⟨_, List.mem_cons_self, rfl, rfl, rfl⟩

theorem Tree.HaveRanks.rank_lt {trees : List Tree} (h : HaveRanks trees) {tree : Tree}
    (ht : tree ∈ trees) : tree.rank < trees.length :=
  List.mem_range.1 (h.mem_iff.1 (List.mem_map_of_mem ht))

theorem Tree.number_hasChildren {tree : Tree} (h : tree.Throughout fun t => HaveRanks t.children)
    {parent : Option Nat} {depth start next : Nat} (hlt : start + tree.rank < next) :
    ∀ n ∈ tree.number parent depth start next,
      n.HasChildren (tree.number parent depth start next) := by
  induction h generalizing parent depth start next with
  | @intro tree self _ ih =>
    obtain ⟨cluster, rank, children⟩ := tree
    intro n hn
    rw [Tree.number] at hn ⊢
    rcases List.mem_cons.1 hn with rfl | hn
    · -- The children of the first node are the nodes of the level below it.
      intro child hchild
      obtain ⟨lower, hlower, rfl⟩ := List.mem_map.1 hchild
      obtain ⟨below, -, hsub⟩ := number_subset_level hlower (some (start + rank)) (depth + 1) next
        (next + children.length)
      obtain ⟨m, hm, hid, hparent, hdepth⟩ := lower.exists_placed (some (start + rank)) (depth + 1)
        next below
      refine ⟨m, List.mem_cons_of_mem _ (hsub hm), hid, hparent, hdepth, ?_⟩
      exact hid ▸ Nat.lt_of_lt_of_le hlt (Nat.le_add_right _ _)
    · -- All others are nodes of one tree of that level.
      obtain ⟨lower, hlower, below, hle, hn, hsub⟩ := mem_numberLevel hn
      have hranks : Tree.HaveRanks children := self
      have hbelow : next + lower.rank < below :=
        Nat.lt_of_lt_of_le (Nat.add_lt_add_left (hranks.rank_lt hlower) next) hle
      intro child hchild
      obtain ⟨m, hm, hm'⟩ := ih lower hlower hbelow n hn child hchild
      exact ⟨m, List.mem_cons_of_mem _ (hsub hm), hm'⟩

section Preorder

variable {trees : List Tree} (hranks : Tree.HaveRanks trees)
  (hthrough : ∀ tree ∈ trees, tree.Throughout fun t => Tree.HaveRanks t.children)

include hranks hthrough

/-- The children of a node are nodes below it. -/
theorem preorder_hasChildren : ∀ n ∈ preorderOf trees, n.HasChildren (preorderOf trees) := by
  intro n hn child hchild
  obtain ⟨tree, htree, below, hle, hn, hsub⟩ := mem_numberLevel hn
  have hlt : 0 + tree.rank < below :=
    Nat.lt_of_lt_of_le (by rw [Nat.zero_add]; exact hranks.rank_lt htree) hle
  obtain ⟨m, hm, hm'⟩ := Tree.number_hasChildren (hthrough tree htree) hlt n hn child hchild
  exact ⟨m, hsub hm, hm'⟩

/-- No two nodes have one number. -/
theorem preorder_eq_of_id {n m : NumberedNode} (hn : n ∈ preorderOf trees)
    (hm : m ∈ preorderOf trees) (h : n.id = m.id) : n = m := by
  have hnodup : ((preorderOf trees).map (·.id)).Nodup :=
    (preorder_ids hranks hthrough).nodup_iff.2 List.nodup_range
  exact List.inj_on_of_nodup_map hnodup hn hm h

/-- Every node is a root, which has no parent, or a child of one node, and stands below it. -/
theorem preorder_parent {n : NumberedNode} (hn : n ∈ preorderOf trees) :
    (n.id ∈ trees.map (·.rank) ∧ n.node.parent = none ∧ n.node.depth = 1)
      ∨ ∃ p ∈ preorderOf trees, n.id ∈ p.node.children ∧ n.IsBelow p := by
  have hplace := (preorder_ids_perm_children trees).mem_iff.1 (List.mem_map_of_mem hn)
  rcases List.mem_append.1 hplace with hroot | hchild
  · obtain ⟨tree, htree, hid⟩ := List.mem_map.1 hroot
    obtain ⟨below, -, hsub⟩ := number_subset_level htree none 1 0 trees.length
    obtain ⟨m, hm, hmid, hparent, hdepth⟩ := tree.exists_placed none 1 0 below
    rw [Nat.zero_add] at hmid
    obtain rfl := preorder_eq_of_id hranks hthrough (hsub hm) hn (hmid.trans hid)
    exact .inl ⟨hroot, hparent, hdepth⟩
  · obtain ⟨p, hp, hchild⟩ := List.mem_flatMap.1 hchild
    obtain ⟨m, hm, hid, hbelow⟩ := preorder_hasChildren hranks hthrough p hp _ hchild
    obtain rfl := preorder_eq_of_id hranks hthrough hm hn hid
    exact .inr ⟨p, hp, hchild, hbelow⟩

end Preorder

/-! ## Well-formed forests -/

namespace Forest

/-- Whether a forest has each node in one place, and each of its nodes selects something. -/
structure IsWellFormed (forest : Forest) (schema : Schema) : Prop where
  /-- The nodes and the merged fields are paired. -/
  paired : forest.nodes.length = forest.merged.length
  /-- Going through the forest ends. -/
  ends : forest.Traverses forest.roots forest.order
  /-- It meets every node once. -/
  complete : forest.order.Perm (List.range forest.size)
  /-- It meets a node before its children. -/
  parent_first : ∀ {id child : Nat}, child ∈ forest.children id → [id, child].Sublist forest.order
  root_iff : ∀ {id : Nat},
    id ∈ forest.roots ↔ ∃ node, forest.node? id = some node ∧ node.parent = none
  root_depth : ∀ {id : Nat} {node : Node}, forest.node? id = some node → node.parent = none →
    node.depth = 1
  child_iff : ∀ {id child : Nat}, child ∈ forest.children id ↔ forest.parent? child = some id
  child_below : ∀ {id child : Nat} {node lower : Node}, forest.node? id = some node →
    forest.node? child = some lower → child ∈ node.children →
    id < child ∧ lower.depth = node.depth + 1
  /-- No number stands in two places. -/
  once : (forest.roots ++ forest.nodes.flatMap (·.children)).Nodup
  selected : ∀ {id : Nat} {node : Node}, forest.node? id = some node →
    node.objectTypes.names ≠ [] ∧ node.objectTypes.names.Nodup
  merged : ∀ {id : Nat} {node : Node}, forest.node? id = some node →
    ∃ bundle, forest.merged? id = some bundle ∧ bundle.fields ≠ []
  /-- The definition of a node is looked up on a type, in whatever schema. -/
  definition : ∀ {id : Nat} {node : Node}, forest.node? id = some node → ∀ other : Schema,
    node.definition other ≠ .error (.internal (.fieldWithoutType node.name))
  branch : ∀ {id : Nat} {node : Node}, forest.node? id = some node → node.children ≠ [] →
    schema.isComposite node.type.innerName = true

section OfTrees

variable {trees : List Tree} (hranks : Tree.HaveRanks trees)
  (hthrough : ∀ tree ∈ trees, tree.Throughout fun t => Tree.HaveRanks t.children)

include hranks hthrough

theorem mem_roots_iff {id : Nat} : id ∈ (ofTrees trees).roots
    ↔ ∃ node, (ofTrees trees).node? id = some node ∧ node.parent = none := by
  have hids := preorder_ids hranks hthrough
  constructor
  · intro hroot
    obtain ⟨tree, htree, rfl⟩ := List.mem_map.1 hroot
    obtain ⟨below, -, hsub⟩ := number_subset_level htree none 1 0 trees.length
    obtain ⟨n, hn, hid, hparent, -⟩ := tree.exists_placed none 1 0 below
    rw [Nat.zero_add] at hid
    exact ⟨n.node, hid ▸ (node?_of_mem hids (hsub hn)).1, hparent⟩
  · rintro ⟨node, hnode, hparent⟩
    obtain ⟨n, hn, rfl, rfl⟩ := exists_of_node? hids hnode
    rcases preorder_parent hranks hthrough hn with ⟨hroot, -⟩ | ⟨p, -, -, hbelow⟩
    · exact hroot
    · exact absurd (hbelow.parent.symm.trans hparent) (by simp)

theorem depth_of_root {id : Nat} {node : Node} (hnode : (ofTrees trees).node? id = some node)
    (hparent : node.parent = none) : node.depth = 1 := by
  obtain ⟨n, hn, rfl, rfl⟩ := exists_of_node? (preorder_ids hranks hthrough) hnode
  rcases preorder_parent hranks hthrough hn with ⟨-, -, hdepth⟩ | ⟨p, -, -, hbelow⟩
  · exact hdepth
  · exact absurd (hbelow.parent.symm.trans hparent) (by simp)

/-- The children of a number are those of a node, and are nodes below it. -/
theorem exists_of_child {id child : Nat} (h : child ∈ (ofTrees trees).children id) :
    ∃ n ∈ preorderOf trees, ∃ m ∈ preorderOf trees, n.id = id ∧ m.id = child ∧ m.IsBelow n := by
  have hids := preorder_ids hranks hthrough
  unfold children at h
  split at h
  · rename_i node hnode
    obtain ⟨n, hn, rfl, rfl⟩ := exists_of_node? hids hnode
    obtain ⟨m, hm, hid, hbelow⟩ := preorder_hasChildren hranks hthrough n hn child h
    exact ⟨n, hn, m, hm, rfl, hid, hbelow⟩
  · exact absurd h List.not_mem_nil

theorem mem_children_iff {id child : Nat} : child ∈ (ofTrees trees).children id
    ↔ (ofTrees trees).parent? child = some id := by
  have hids := preorder_ids hranks hthrough
  constructor
  · intro h
    obtain ⟨n, -, m, hm, rfl, rfl, hbelow⟩ := exists_of_child hranks hthrough h
    rw [parent?, (node?_of_mem hids hm).1]
    exact hbelow.parent
  · intro h
    obtain ⟨node, hnode, hparent⟩ := Option.bind_eq_some_iff.1 h
    obtain ⟨m, hm, rfl, rfl⟩ := exists_of_node? hids hnode
    rcases preorder_parent hranks hthrough hm with ⟨-, hnone, -⟩ | ⟨p, hp, hchild, hbelow⟩
    · exact absurd (hnone.symm.trans hparent) (by simp)
    · obtain rfl := Option.some.inj (hbelow.parent.symm.trans hparent)
      rwa [children_of_mem hids hp]

theorem child_of_node {id child : Nat} {node lower : Node}
    (hnode : (ofTrees trees).node? id = some node)
    (hlower : (ofTrees trees).node? child = some lower) (h : child ∈ node.children) :
    id < child ∧ lower.depth = node.depth + 1 := by
  have hids := preorder_ids hranks hthrough
  rw [← children_of_node? hnode] at h
  obtain ⟨n, hn, m, hm, rfl, rfl, hbelow⟩ := exists_of_child hranks hthrough h
  obtain rfl := Option.some.inj ((node?_of_mem hids hn).1.symm.trans hnode)
  obtain rfl := Option.some.inj ((node?_of_mem hids hm).1.symm.trans hlower)
  exact ⟨hbelow.later, hbelow.depth⟩

theorem roots_children_nodup :
    ((ofTrees trees).roots ++ (ofTrees trees).nodes.flatMap (·.children)).Nodup := by
  have hids := preorder_ids hranks hthrough
  have hnodes : ((ofTrees trees).nodes.flatMap (·.children)).Perm
      ((preorderOf trees).flatMap (·.node.children)) := by
    show (((sortByNumber (preorderOf trees)).map _).flatMap _).Perm _
    rw [List.flatMap_map, sortByNumber_eq_insertionSort]
    exact (List.perm_insertionSort _ _).flatMap_right _
  have hplaces := (hnodes.append_left _).trans (preorder_ids_perm_children trees).symm
  exact hplaces.nodup_iff.2 (hids.nodup_iff.2 List.nodup_range)

end OfTrees

variable {forest : Forest} {request : Request} {operation : Operation}

/-- Every node selects its field on some object type, for some field of a document. -/
theorem Collects.objectTypes_ne_nil (hcollects : forest.Collects request operation) {id : Nat}
    {node : Node} (hnode : forest.node? id = some node) : node.objectTypes.names ≠ [] := by
  obtain ⟨definition, hdef⟩ := hcollects.exists_definition hnode
  obtain ⟨first, hfirst, -⟩ := Node.definition_eq_ok.1 hdef.found
  exact List.ne_nil_of_mem (TypeSet.mem_of_first? hfirst)

end Forest

theorem Node.definition_ne_fieldWithoutType {node : Node} (h : node.objectTypes.names ≠ [])
    (schema : Schema) :
    node.definition schema ≠ .error (.internal (.fieldWithoutType node.name)) := by
  rw [definition]
  cases hfirst : node.objectTypes.first? with
  | none => exact absurd (List.head?_eq_none_iff.1 hfirst) h
  | some first =>
    dsimp only
    unfold Schema.definitionOf
    split <;> simp

/-- The forest of the trees of an operation is well formed. -/
theorem Request.grow_isWellFormed {request : Request} {options : Options} {operation : Operation}
    {trees : List Tree} (h : request.grow options operation = .ok trees) :
    (Forest.ofTrees trees).IsWellFormed request.schema := by
  obtain ⟨hranks, hthrough⟩ := grow_ranks h
  have hids := preorder_ids hranks hthrough
  have hcollects := grow_collects h
  have horder := Forest.order_ofTrees hids
  exact {
    paired := by simp [Forest.ofTrees]
    ends := horder ▸ Forest.traverses_roots hids
    complete := by
      rw [horder, Forest.size_ofTrees hids]
      exact hids
    parent_first := fun hchild => by
      obtain ⟨n, hn, -, -, rfl, -⟩ := Forest.exists_of_child hranks hthrough hchild
      rw [horder]
      exact (Forest.traverses_roots hids).child_later (List.mem_map_of_mem hn) hchild
    root_iff := Forest.mem_roots_iff hranks hthrough
    root_depth := Forest.depth_of_root hranks hthrough
    child_iff := Forest.mem_children_iff hranks hthrough
    child_below := Forest.child_of_node hranks hthrough
    once := Forest.roots_children_nodup hranks hthrough
    selected := fun {_ node} hnode => ⟨hcollects.objectTypes_ne_nil hnode, node.objectTypes.nodup⟩
    merged := fun hnode => by
      obtain ⟨cls, -, hmerged⟩ := hcollects.exists_selects hnode
      exact ⟨cls.fields, hmerged, List.cons_ne_nil _ _⟩
    definition := fun hnode =>
      Node.definition_ne_fieldWithoutType (hcollects.objectTypes_ne_nil hnode)
    branch := fun {_ node} hnode hne => by
      cases hcomposite : request.schema.isComposite node.type.innerName with
      | true => rfl
      | false => exact absurd (hcollects.leaves hnode hcomposite) hne }

/-- The forest of an operation is well formed. -/
theorem Operation.forestWith_isWellFormed {operation : Operation} {schema : Schema}
    {options : Options} {fragments : Fragments} {bindings : Members}
    {sources : Option TracedInputs} {forest : Forest}
    (h : operation.forestWith schema options fragments bindings sources = .ok forest) :
    forest.IsWellFormed schema := by
  obtain ⟨trees, htrees, rfl⟩ := Operation.forestWith_eq_ok.1 h
  exact Request.grow_isWellFormed htrees

/-- The sample is well formed: its four nodes stand one below the other, the last two beside each
other. -/
theorem Sample.isWellFormed : Sample.forest.IsWellFormed Sample.schema :=
  Operation.forestWith_isWellFormed Sample.forest_eq

end SelectionForest
