import Mathlib.Data.List.Sort
import SelectionForest.Forest.Tree

/-!
# The numbers of nodes

If the ranks of each level of trees are the numbers from zero on (`Tree.HaveRanks`), the numbers of
the nodes are so as well (`preorder_ids`): no number is given twice and none is left out. So the
node of a number in a forest is the one that pre-order gives that number.

* `Tree.id_of_number`, `id_of_numberLevel`: a tree takes the number of its rank and free ones;
* `node?_of_mem`, `exists_of_node?`: looking up numbers in a forest;
* `exists_tree`: each node shows the cluster of a tree, and its children those of the trees below;
* `preorder_reached`: all nodes are reached from the roots.
-/

namespace SelectionForest

/-- A property that a tree has and all trees below it. -/
inductive Tree.Throughout (P : Tree → Prop) : Tree → Prop
  | intro {tree : Tree} (self : P tree) (below : ∀ child ∈ tree.children, Throughout P child) :
      Throughout P tree

theorem Tree.Throughout.imp {P Q : Tree → Prop} (hPQ : ∀ tree, P tree → Q tree) {tree : Tree}
    (h : tree.Throughout P) : tree.Throughout Q := by
  induction h with
  | intro self _ ih => exact .intro (hPQ _ self) ih

/-- Whether the ranks of trees are the numbers from zero on, in some order. -/
def Tree.HaveRanks (trees : List Tree) : Prop :=
  (trees.map (·.rank)).Perm (List.range trees.length)

/-! ## Pre-order -/

/-- The nodes of a tree of a level are among those of the level. -/
theorem number_subset_level {trees : List Tree} {tree : Tree} (h : tree ∈ trees)
    (parent : Option Nat) (depth start next : Nat) :
    ∃ below, next ≤ below
      ∧ tree.number parent depth start below ⊆ numberLevel parent depth start next trees := by
  induction trees generalizing next with
  | nil => exact absurd h List.not_mem_nil
  | cons other trees ih =>
    rw [numberLevel]
    rcases List.mem_cons.1 h with rfl | h
    · exact ⟨next, Nat.le_refl _, List.subset_append_left _ _⟩
    · obtain ⟨below, hle, hsub⟩ := ih h (next + other.descendants)
      exact ⟨below, Nat.le_trans (Nat.le_add_right _ _) hle,
        List.Subset.trans hsub (List.subset_append_right _ _)⟩

/-- The nodes of a level are those of its trees. -/
theorem mem_numberLevel {trees : List Tree} {parent : Option Nat} {depth start next : Nat}
    {n : NumberedNode} (h : n ∈ numberLevel parent depth start next trees) :
    ∃ tree ∈ trees, ∃ below, next ≤ below ∧ n ∈ tree.number parent depth start below
      ∧ tree.number parent depth start below ⊆ numberLevel parent depth start next trees := by
  induction trees generalizing next with
  | nil =>
    rw [numberLevel] at h
    exact absurd h List.not_mem_nil
  | cons tree trees ih =>
    rw [numberLevel] at h ⊢
    rcases List.mem_append.1 h with h | h
    · exact ⟨tree, List.mem_cons_self, next, Nat.le_refl _, h, List.subset_append_left _ _⟩
    · obtain ⟨other, hother, below, hle, hn, hsub⟩ := ih h
      exact ⟨other, List.mem_cons_of_mem _ hother, below, Nat.le_trans (Nat.le_add_right _ _) hle, hn,
        List.Subset.trans hsub (List.subset_append_right _ _)⟩

mutual

/-- A tree takes the number of its rank, and numbers that are free. -/
theorem Tree.id_of_number : ∀ (tree : Tree) {parent : Option Nat} {depth start next : Nat},
    ∀ n ∈ tree.number parent depth start next, n.id = start + tree.rank ∨ next ≤ n.id
  | ⟨cluster, rank, children⟩, parent, depth, start, next, n, hn => by
    rw [Tree.number] at hn
    rcases List.mem_cons.1 hn with rfl | hn
    · exact .inl rfl
    · rcases id_of_numberLevel children n hn with ⟨child, -, hid⟩ | hid
      · exact .inr (hid ▸ Nat.le_add_right _ _)
      · exact .inr (Nat.le_trans (Nat.le_add_right _ _) hid)

theorem id_of_numberLevel : ∀ (trees : List Tree) {parent : Option Nat} {depth start next : Nat},
    ∀ n ∈ numberLevel parent depth start next trees,
      (∃ tree ∈ trees, n.id = start + tree.rank) ∨ next ≤ n.id
  | [], _, _, _, _, n, hn => by
    rw [numberLevel] at hn
    exact absurd hn List.not_mem_nil
  | tree :: trees, parent, depth, start, next, n, hn => by
    rw [numberLevel] at hn
    rcases List.mem_append.1 hn with hn | hn
    · exact (tree.id_of_number n hn).imp_left fun hid => ⟨tree, List.mem_cons_self, hid⟩
    · rcases id_of_numberLevel trees n hn with ⟨other, hother, hid⟩ | hid
      · exact .inl ⟨other, List.mem_cons_of_mem _ hother, hid⟩
      · exact .inr (Nat.le_trans (Nat.le_add_right _ _) hid)

end

/-- A level that is added takes numbers that are free. -/
theorem le_id_of_numberLevel {trees : List Tree} {parent : Option Nat} {depth start more : Nat}
    {n : NumberedNode} (h : n ∈ numberLevel parent depth start (start + more) trees) :
    start ≤ n.id := by
  rcases id_of_numberLevel trees n h with ⟨_, -, hid⟩ | hid
  · exact hid ▸ Nat.le_add_right _ _
  · exact Nat.le_trans (Nat.le_add_right _ _) hid

theorem numberLevel_ids_of {trees : List Tree}
    (h : ∀ tree ∈ trees, ∀ parent depth start next,
      ((tree.number parent depth start next).map (·.id)).Perm
        ((start + tree.rank) :: List.range' next tree.descendants))
    (parent : Option Nat) (depth start next : Nat) :
    ((numberLevel parent depth start next trees).map (·.id)).Perm
      (trees.map (start + ·.rank) ++ List.range' next (descendantsOf trees)) := by
  induction trees generalizing next with
  | nil => exact .nil
  | cons tree trees ih =>
    obtain ⟨htree, hrest⟩ := List.forall_mem_cons.1 h
    rw [numberLevel, List.map_append, descendantsOf, ← List.range'_append_1, List.map_cons,
      List.cons_append]
    refine ((htree parent depth start next).append (ih hrest _)).trans (.cons _ ?_)
    exact List.perm_append_comm_assoc ..

/-- A level with ranks takes up the numbers from `start` on. -/
theorem numberLevel_ids {trees : List Tree} (hranks : Tree.HaveRanks trees)
    (h : ∀ tree ∈ trees, ∀ parent depth start next,
      ((tree.number parent depth start next).map (·.id)).Perm
        ((start + tree.rank) :: List.range' next tree.descendants))
    (parent : Option Nat) (depth start : Nat) :
    ((numberLevel parent depth start (start + trees.length) trees).map (·.id)).Perm
      (List.range' start (trees.length + descendantsOf trees)) := by
  have hstart : (trees.map (start + ·.rank)).Perm (List.range' start trees.length) := by
    rw [List.range'_eq_map_range]
    have hmap := hranks.map (start + ·)
    rwa [List.map_map] at hmap
  rw [← List.range'_append_1]
  exact (numberLevel_ids_of h parent depth start _).trans (hstart.append_right _)

theorem Tree.number_ids {tree : Tree} (h : tree.Throughout fun t => HaveRanks t.children)
    (parent : Option Nat) (depth start next : Nat) :
    ((tree.number parent depth start next).map (·.id)).Perm
      ((start + tree.rank) :: List.range' next tree.descendants) := by
  induction h generalizing parent depth start next with
  | @intro tree self _ ih =>
    obtain ⟨cluster, rank, children⟩ := tree
    rw [Tree.number, List.map_cons, Tree.descendants]
    exact .cons _ (numberLevel_ids self ih _ _ _)

/-- The nodes of the trees of a top level, in pre-order. -/
def preorderOf (trees : List Tree) : List NumberedNode := numberLevel none 1 0 trees.length trees

section Ranked

variable {trees : List Tree} (hranks : Tree.HaveRanks trees)
  (h : ∀ tree ∈ trees, tree.Throughout fun t => Tree.HaveRanks t.children)

include hranks h

theorem preorder_range' : ((preorderOf trees).map (·.id)).Perm
    (List.range' 0 (trees.length + descendantsOf trees)) := by
  have hids := numberLevel_ids hranks (fun tree ht => Tree.number_ids (h tree ht)) none 1 0
  rwa [Nat.zero_add] at hids

theorem length_preorderOf :
    (preorderOf trees).length = trees.length + descendantsOf trees := by
  have hlength := (preorder_range' hranks h).length_eq
  rwa [List.length_map, List.length_range'] at hlength

/-- The numbers of nodes are those from zero on. -/
theorem preorder_ids :
    ((preorderOf trees).map (·.id)).Perm (List.range (preorderOf trees).length) := by
  rw [length_preorderOf hranks h, List.range_eq_range']
  exact preorder_range' hranks h

end Ranked

/-! ## By number -/

theorem sortByNumber_eq_insertionSort (nodes : List NumberedNode) :
    sortByNumber nodes = nodes.insertionSort fun n m => n.id ≤ m.id := by
  have hinsert (n : NumberedNode) (ms : List NumberedNode) :
      insertByNumber n ms = ms.orderedInsert (fun n m => n.id ≤ m.id) n := by
    induction ms with
    | nil => rfl
    | cons m ms ih => rw [insertByNumber, List.orderedInsert, ih]
  induction nodes with
  | nil => rfl
  | cons n nodes ih =>
    rw [List.insertionSort_cons, ← ih, ← hinsert]
    rfl

theorem sortByNumber_ids {nodes : List NumberedNode}
    (h : (nodes.map (·.id)).Perm (List.range nodes.length)) :
    (sortByNumber nodes).map (·.id) = List.range nodes.length := by
  rw [sortByNumber_eq_insertionSort, List.map_insertionSort _ (· ≤ ·) _ _ fun _ _ _ _ => Iff.rfl]
  exact ((List.perm_insertionSort _ _).trans h).eq_of_sortedLE List.sortedLE_insertionSort
    (List.sortedLT_range _).sortedLE

/-- Sorted nodes that have the numbers from zero on stand at the places of their numbers. -/
theorem getElem?_sortByNumber {nodes : List NumberedNode}
    (h : (nodes.map (·.id)).Perm (List.range nodes.length)) {id : Nat} {n : NumberedNode} :
    (sortByNumber nodes)[id]? = some n ↔ n ∈ nodes ∧ n.id = id := by
  have hmem : n ∈ sortByNumber nodes ↔ n ∈ nodes := by
    rw [sortByNumber_eq_insertionSort, List.mem_insertionSort]
  have hplace {place : Nat} (hn : (sortByNumber nodes)[place]? = some n) : n.id = place := by
    have hid : ((sortByNumber nodes).map (·.id))[place]? = some n.id := by
      rw [List.getElem?_map, hn, Option.map_some]
    rw [sortByNumber_ids h, List.getElem?_eq_some_iff] at hid
    obtain ⟨_, hid⟩ := hid
    rw [← hid, List.getElem_range]
  constructor
  · exact fun hn => ⟨hmem.1 (List.mem_of_getElem? hn), hplace hn⟩
  · rintro ⟨hn, rfl⟩
    obtain ⟨place, hn⟩ := List.mem_iff_getElem?.1 (hmem.2 hn)
    rwa [hplace hn]

/-- A list that has something of each node at the place of its number has it in sorted order. -/
theorem eq_map_sortByNumber {α : Type} {nodes : List NumberedNode}
    (h : (nodes.map (·.id)).Perm (List.range nodes.length)) {xs : List α} {f : NumberedNode → α}
    (hlength : xs.length = nodes.length) (hxs : ∀ n ∈ nodes, xs[n.id]? = some (f n)) :
    xs = (sortByNumber nodes).map f := by
  have hsorted : ((sortByNumber nodes).map f).length = nodes.length := by
    rw [sortByNumber_eq_insertionSort, List.length_map, List.length_insertionSort]
  refine List.ext_getElem?' fun id hid => ?_
  rw [hlength, hsorted, Nat.max_self, ← List.mem_range, ← h.mem_iff] at hid
  obtain ⟨n, hn, rfl⟩ := List.mem_map.1 hid
  rw [hxs n hn, List.getElem?_map, (getElem?_sortByNumber h).2 ⟨hn, rfl⟩, Option.map_some]

namespace Forest

variable {trees : List Tree} (hids : ((preorderOf trees).map (·.id)).Perm
  (List.range (preorderOf trees).length))

include hids

theorem node?_of_mem {n : NumberedNode} (hn : n ∈ preorderOf trees) :
    (ofTrees trees).node? n.id = some n.node ∧ (ofTrees trees).merged? n.id = some n.merged := by
  have hplace := (getElem?_sortByNumber hids).2 ⟨hn, rfl⟩
  constructor
  · exact (List.getElem?_map ..).trans (congrArg (Option.map (·.node)) hplace)
  · exact (List.getElem?_map ..).trans (congrArg (Option.map (·.merged)) hplace)

theorem exists_of_node? {id : Nat} {node : Node} (h : (ofTrees trees).node? id = some node) :
    ∃ n ∈ preorderOf trees, n.id = id ∧ n.node = node := by
  obtain ⟨n, hplace, rfl⟩ := Option.map_eq_some_iff.1 ((List.getElem?_map ..).symm.trans h)
  obtain ⟨hn, hid⟩ := (getElem?_sortByNumber hids).1 hplace
  exact ⟨n, hn, hid, rfl⟩

end Forest

/-! ## The trees that nodes come from -/

/-- Whether a node is that of a cluster. -/
structure NumberedNode.Shows (n : NumberedNode) (cluster : Cluster) : Prop where
  merged : n.merged = cluster.merged
  aliasName : n.node.aliasName = cluster.merged.first.aliasName
  name : n.node.name = cluster.merged.name
  arguments : n.node.arguments = cluster.merged.arguments
  type : n.node.type = cluster.type
  objectTypes : n.node.objectTypes = cluster.objectTypes
  resolved : n.node.resolved = cluster.resolved
  traced : n.node.traced = cluster.traced

/-- Whether a node comes from a tree that has a property, and its children from the trees below. -/
def NumberedNode.ComesFrom (P : Tree → Prop) (nodes : List NumberedNode) (n : NumberedNode) :
    Prop :=
  ∃ tree, P tree ∧ n.Shows tree.cluster
    ∧ ∃ start, n.node.children = tree.children.map (start + ·.rank)
      ∧ ∀ child ∈ tree.children, ∃ m ∈ nodes, m.id = start + child.rank ∧ m.Shows child.cluster

theorem NumberedNode.ComesFrom.mono {P : Tree → Prop} {nodes others : List NumberedNode}
    {n : NumberedNode} (h : n.ComesFrom P nodes) (hsub : nodes ⊆ others) :
    n.ComesFrom P others := by
  obtain ⟨tree, hP, hshows, start, hchildren, hbelow⟩ := h
  refine ⟨tree, hP, hshows, start, hchildren, fun child hchild => ?_⟩
  obtain ⟨m, hm, hmchild⟩ := hbelow child hchild
  exact ⟨m, hsub hm, hmchild⟩

/-- The node that stands first in the pre-order of a tree is that of its cluster. -/
theorem Tree.exists_first (tree : Tree) (parent : Option Nat) (depth start next : Nat) :
    ∃ n ∈ tree.number parent depth start next, n.id = start + tree.rank ∧ n.Shows tree.cluster := by
  obtain ⟨cluster, rank, children⟩ := tree
  rw [Tree.number]
  exact ⟨_, List.mem_cons_self, rfl, rfl, rfl, rfl, rfl, rfl, rfl, rfl, rfl⟩

theorem exists_in_level {trees : List Tree} {tree : Tree} (h : tree ∈ trees) (parent : Option Nat)
    (depth start next : Nat) :
    ∃ n ∈ numberLevel parent depth start next trees,
      n.id = start + tree.rank ∧ n.Shows tree.cluster := by
  obtain ⟨below, -, hsub⟩ := number_subset_level h parent depth start next
  obtain ⟨n, hn, hshows⟩ := tree.exists_first parent depth start below
  exact ⟨n, hsub hn, hshows⟩

theorem comesFrom_of_level {P : Tree → Prop} {trees : List Tree}
    (h : ∀ tree ∈ trees, ∀ parent depth start next,
      ∀ n ∈ tree.number parent depth start next,
        n.ComesFrom P (tree.number parent depth start next))
    {parent : Option Nat} {depth start next : Nat} :
    ∀ n ∈ numberLevel parent depth start next trees,
      n.ComesFrom P (numberLevel parent depth start next trees) := by
  intro n hn
  obtain ⟨tree, htree, below, -, hn, hsub⟩ := mem_numberLevel hn
  exact (h tree htree parent depth start below n hn).mono hsub

theorem Tree.comesFrom_of_number {P : Tree → Prop} {tree : Tree} (h : tree.Throughout P)
    (parent : Option Nat) (depth start next : Nat) :
    ∀ n ∈ tree.number parent depth start next,
      n.ComesFrom P (tree.number parent depth start next) := by
  induction h generalizing parent depth start next with
  | @intro tree self _ ih =>
    obtain ⟨cluster, rank, children⟩ := tree
    intro n hn
    rw [Tree.number] at hn ⊢
    rcases List.mem_cons.1 hn with rfl | hn
    · refine ⟨⟨cluster, rank, children⟩, self, ⟨rfl, rfl, rfl, rfl, rfl, rfl, rfl, rfl⟩, next, rfl,
        fun child hchild => ?_⟩
      obtain ⟨m, hm, hmchild⟩ := exists_in_level hchild (some (start + rank)) (depth + 1) next
        (next + children.length)
      exact ⟨m, List.mem_cons_of_mem _ hm, hmchild⟩
    · exact (comesFrom_of_level ih n hn).mono (List.subset_cons_self _ _)

/-- Each node shows the cluster of a tree, and its children those of the trees below. -/
theorem exists_tree {P : Tree → Prop} {trees : List Tree}
    (h : ∀ tree ∈ trees, tree.Throughout P) :
    ∀ n ∈ preorderOf trees, n.ComesFrom P (preorderOf trees) :=
  comesFrom_of_level fun tree ht => Tree.comesFrom_of_number (h tree ht)

/-! ## Reaching all nodes -/

/-- Whether a property of numbers passes from nodes to their children. -/
def PassesDown (R : Nat → Prop) (nodes : List NumberedNode) : Prop :=
  ∀ n ∈ nodes, R n.id → ∀ child ∈ n.node.children, R child

variable {R : Nat → Prop} {nodes : List NumberedNode}

mutual

theorem Tree.number_reached (hdown : PassesDown R nodes) :
    ∀ (tree : Tree) {parent : Option Nat} {depth start next : Nat},
    tree.number parent depth start next ⊆ nodes → R (start + tree.rank) →
    ∀ n ∈ tree.number parent depth start next, R n.id
  | ⟨cluster, rank, children⟩, parent, depth, start, next, hsub, hrank, n, hn => by
    rw [Tree.number] at hsub hn
    obtain ⟨hfirst, hrest⟩ := List.cons_subset.1 hsub
    rcases List.mem_cons.1 hn with rfl | hn
    · exact hrank
    · refine numberLevel_reached hdown children hrest (fun child hchild => ?_) n hn
      exact hdown _ hfirst hrank _ (List.mem_map_of_mem hchild)

theorem numberLevel_reached (hdown : PassesDown R nodes) :
    ∀ (trees : List Tree) {parent : Option Nat} {depth start next : Nat},
    numberLevel parent depth start next trees ⊆ nodes → (∀ tree ∈ trees, R (start + tree.rank)) →
    ∀ n ∈ numberLevel parent depth start next trees, R n.id
  | [], _, _, _, _, _, _, n, hn => by
    rw [numberLevel] at hn
    exact absurd hn List.not_mem_nil
  | tree :: trees, parent, depth, start, next, hsub, hranks, n, hn => by
    rw [numberLevel] at hsub hn
    obtain ⟨htree, hrest⟩ := List.append_subset.1 hsub
    obtain ⟨hrank, hranks⟩ := List.forall_mem_cons.1 hranks
    rcases List.mem_append.1 hn with hn | hn
    · exact Tree.number_reached hdown tree htree hrank n hn
    · exact numberLevel_reached hdown trees hrest hranks n hn

end

/-- All nodes are reached from the roots by going to children. -/
theorem preorder_reached {trees : List Tree} (hroots : ∀ tree ∈ trees, R tree.rank)
    (hdown : PassesDown R (preorderOf trees)) : ∀ n ∈ preorderOf trees, R n.id :=
  numberLevel_reached hdown trees (List.Subset.refl _) fun tree ht => by
    rw [Nat.zero_add]
    exact hroots tree ht

end SelectionForest
