import SelectionForest.Proofs.Forest.Growth
import SelectionForest.Proofs.Level.Relating

/-!
# Trees of two requests

Two requests on one schema may be run side by side. Where a relation of selection sets is kept by
their levels, and passes from the clusters of a level to what is below them (`Request.Relates`), the
trees that grow are related cluster by cluster (`growLevel_related`), and their nodes get the same
numbers (`preorder_related`). The two may fail apart, if their levels may.

* `growLevel_mono`: growth that succeeds gives the same trees with more levels;
* `sortByNumber_rel`: sorting keeps a relation of nodes of one number;
* `ofTrees_hasNodesOf`: the forests of trees that differ in merged fields have the same nodes.
-/

namespace SelectionForest

/-! ## Trees -/

mutual

/-- Whether two trees have the same shape and related clusters. -/
def Tree.Related (C : Cluster → Cluster → Prop) : Tree → Tree → Prop
  | ⟨cluster, rank, children⟩, ⟨cluster', rank', children'⟩ =>
    C cluster cluster' ∧ rank' = rank ∧ treesRelated C children children'

/-- Whether trees are related one by one. -/
def treesRelated (C : Cluster → Cluster → Prop) : List Tree → List Tree → Prop
  | [], [] => True
  | tree :: trees, tree' :: trees' => tree.Related C tree' ∧ treesRelated C trees trees'
  | _, _ => False

end

variable {C : Cluster → Cluster → Prop}

theorem treesRelated_iff {trees others : List Tree} :
    treesRelated C trees others ↔ List.Forall₂ (Tree.Related C) trees others := by
  induction trees generalizing others with
  | nil => cases others <;> simp [treesRelated]
  | cons tree trees ih => cases others <;> simp [treesRelated, ih]

theorem Tree.Related.rank {tree other : Tree} (h : tree.Related C other) :
    other.rank = tree.rank := by
  cases tree
  cases other
  exact h.2.1

theorem ranks_related {trees others : List Tree} (h : treesRelated C trees others) :
    others.map (·.rank) = trees.map (·.rank) :=
  map_eq_of_forall₂ (fun _ _ htree => htree.rank) (treesRelated_iff.1 h)

theorem length_related {trees others : List Tree} (h : treesRelated C trees others) :
    others.length = trees.length :=
  (treesRelated_iff.1 h).length_eq.symm

/-- Related clusters of the same response keys are grouped in the same way. -/
theorem Level.grouped_rel
    (hkey : ∀ {cluster other}, C cluster other →
      other.merged.responseKey = cluster.merged.responseKey)
    {level others : Level} (h : List.Forall₂ C level others) :
    List.Forall₂ (fun entry other => C entry.1 other.1 ∧ other.2 = entry.2)
      level.grouped others.grouped := by
  have hkeys : others.map (·.merged.responseKey) = level.map (·.merged.responseKey) :=
    map_eq_of_forall₂ (fun _ _ hc => hkey hc) h
  rw [Level.grouped, Level.grouped, hkeys]
  refine List.rel_flatMap (List.forall₂_same.2 fun _ _ => rfl) ?_
  rintro key _ rfl
  refine List.rel_filter (fun entry other hc => ?_) (forall₂_zipIdx h 0)
  show (entry.1.merged.responseKey == key) = true ↔ (other.1.merged.responseKey == key) = true
  rw [hkey hc.1]

/-! ## Growth -/

namespace Request

variable {request other : Request} {options : Options} {apart : Prop}
  {S : TypeSet → List Selection → List Selection → Prop}

/-- What the levels of two requests keep: selection sets that are related for some object types make
related clusters, and what is below related clusters is related again. -/
structure Relates (request other : Request) (apart : Prop) (C : Cluster → Cluster → Prop)
    (S : TypeSet → List Selection → List Selection → Prop) : Prop where
  schema : other.schema = request.schema
  type : ∀ {cluster cluster'}, C cluster cluster' → cluster'.type = cluster.type
  responseKey : ∀ {cluster cluster'}, C cluster cluster' →
    cluster'.merged.responseKey = cluster.merged.responseKey
  level : ∀ {types : TypeSet} {sets others : List (List Selection)},
    S types sets.flatten others.flatten →
    AgreeUnless apart (List.Forall₂ C) (request.level types sets) (other.level types others)
  below : ∀ {cluster cluster' types}, C cluster cluster' →
    request.typesOf cluster.type.innerName = .ok types →
    S types cluster.selectionSets.flatten cluster'.selectionSets.flatten

theorem typesOf_eq (h : other.schema = request.schema) (name : Name) :
    other.typesOf name = request.typesOf name := by
  unfold typesOf
  rw [h]

theorem growTree_related (h : request.Relates other apart C S)
    {below below' : TypeSet → List (List Selection) → Outcome (List Tree)}
    {cluster cluster' : Cluster} (hcluster : C cluster cluster')
    (hbelow : ∀ {types}, S types cluster.selectionSets.flatten cluster'.selectionSets.flatten →
      AgreeUnless apart (treesRelated C) (below types cluster.selectionSets)
        (below' types cluster'.selectionSets)) (depth rank : Nat) :
    AgreeUnless apart (Tree.Related C) (request.growTree options below depth (cluster, rank))
      (other.growTree options below' depth (cluster', rank)) := by
  rw [growTree, growTree, h.type hcluster, h.schema, typesOf_eq h.schema]
  show AgreeUnless apart _ (if request.schema.isComposite cluster.type.innerName then _ else _) _
  by_cases hcomposite : request.schema.isComposite cluster.type.innerName
  · rw [if_pos hcomposite, if_pos hcomposite]
    refine .bind_left _ fun _ _ => .bind_left _ fun types htypes => ?_
    have hchildren := hbelow (h.below hcluster htypes)
    exact hchildren.bind fun _ _ hrelated => .ok ⟨hcluster, rfl, hrelated⟩
  · rw [if_neg hcomposite, if_neg hcomposite]
    exact .ok ⟨hcluster, rfl, trivial⟩

/-- What grows from related selection sets is related. -/
theorem growLevel_related (h : request.Relates other apart C S) {levels depth : Nat}
    {types : TypeSet} {sets others : List (List Selection)}
    (hsets : S types sets.flatten others.flatten) :
    AgreeUnless apart (treesRelated C) (request.growLevel options levels depth types sets)
      (other.growLevel options levels depth types others) := by
  induction levels generalizing depth types sets others with
  | zero => exact .error .endless
  | succ levels ih =>
    rw [growLevel, growLevel]
    refine (h.level hsets).bind fun level level' hlevel => ?_
    have hgrouped := Level.grouped_rel h.responseKey hlevel
    refine (AgreeUnless.mapM (fun entry entry' hentry => ?_) hgrouped).imp
      fun _ _ => treesRelated_iff.2
    obtain ⟨cluster, rank⟩ := entry
    obtain ⟨cluster', rank'⟩ := entry'
    obtain ⟨hcluster, rfl⟩ := hentry
    exact growTree_related h hcluster ih depth _

theorem growTree_mono {below below' : TypeSet → List (List Selection) → Outcome (List Tree)}
    (hbelow : ∀ {types sets trees}, below types sets = .ok trees → below' types sets = .ok trees)
    {depth : Nat} {entry : Cluster × Nat} {tree : Tree}
    (h : request.growTree options below depth entry = .ok tree) :
    request.growTree options below' depth entry = .ok tree := by
  obtain ⟨cluster, rank⟩ := entry
  rw [growTree] at h ⊢
  by_cases hcomposite : request.schema.isComposite cluster.type.innerName
  · rw [if_pos hcomposite] at h ⊢
    obtain ⟨allowed, hallowed, h⟩ := bind_eq_ok.1 h
    obtain ⟨types, htypes, h⟩ := bind_eq_ok.1 h
    obtain ⟨children, hchildren, h⟩ := bind_eq_ok.1 h
    rw [hallowed, ok_bind, htypes, ok_bind, hbelow hchildren, ok_bind, h]
  · rw [if_neg hcomposite] at h ⊢
    exact h

/-- Growth that succeeds gives the same trees with more levels. -/
theorem growLevel_mono {levels more depth : Nat} {types : TypeSet} {sets : List (List Selection)}
    {trees : List Tree} (hle : levels ≤ more)
    (h : request.growLevel options levels depth types sets = .ok trees) :
    request.growLevel options more depth types sets = .ok trees := by
  induction levels generalizing more depth types sets trees with
  | zero => cases h
  | succ levels ih =>
    obtain ⟨more, rfl⟩ : ∃ n, more = n + 1 := ⟨more - 1, by omega⟩
    rw [growLevel] at h ⊢
    obtain ⟨level, hlevel, h⟩ := bind_eq_ok.1 h
    rw [hlevel, ok_bind]
    have htrees := mapM_eq_ok.1 h
    refine mapM_eq_ok.2 (htrees.imp fun _ _ htree => ?_)
    exact growTree_mono (ih (by omega)) htree

end Request

/-! ## Numbers -/

/-- Whether two numbered nodes stand at the same place, for related clusters. -/
structure NumberedNode.Related (C : Cluster → Cluster → Prop) (n other : NumberedNode) :
    Prop where
  id : other.id = n.id
  depth : other.node.depth = n.node.depth
  parent : other.node.parent = n.node.parent
  children : other.node.children = n.node.children
  clusters : ∃ cluster cluster', C cluster cluster' ∧ n.Shows cluster ∧ other.Shows cluster'

mutual

theorem Tree.descendants_related : ∀ (tree other : Tree), tree.Related C other →
    other.descendants = tree.descendants
  | ⟨_, _, children⟩, ⟨_, _, others⟩, ⟨_, _, hchildren⟩ => by
    rw [Tree.descendants, Tree.descendants, descendantsOf_related children others hchildren,
      length_related hchildren]

theorem descendantsOf_related : ∀ (trees others : List Tree), treesRelated C trees others →
    descendantsOf others = descendantsOf trees
  | [], [], _ => rfl
  | tree :: trees, other :: others, ⟨htree, hrest⟩ => by
    rw [descendantsOf, descendantsOf, Tree.descendants_related tree other htree,
      descendantsOf_related trees others hrest]

end

mutual

theorem Tree.number_related : ∀ (tree other : Tree), tree.Related C other →
    ∀ parent depth start next, List.Forall₂ (NumberedNode.Related C)
      (tree.number parent depth start next) (other.number parent depth start next)
  | ⟨cluster, rank, children⟩, ⟨cluster', rank', children'⟩, ⟨hcluster, hrank, hchildren⟩,
      parent, depth, start, next => by
    subst hrank
    have hranks := ranks_related hchildren
    rw [Tree.number, Tree.number, length_related hchildren]
    refine .cons ?_ (numberLevel_related children children' hchildren _ _ _ _)
    refine ⟨rfl, rfl, rfl, ?_, cluster, cluster', hcluster, ?_, ?_⟩
    · have hnumbers := congrArg (List.map (next + ·)) hranks
      rwa [List.map_map, List.map_map] at hnumbers
    · exact ⟨rfl, rfl, rfl, rfl, rfl, rfl, rfl, rfl⟩
    · exact ⟨rfl, rfl, rfl, rfl, rfl, rfl, rfl, rfl⟩

/-- Related trees are numbered in the same way. -/
theorem numberLevel_related : ∀ (trees others : List Tree), treesRelated C trees others →
    ∀ parent depth start next, List.Forall₂ (NumberedNode.Related C)
      (numberLevel parent depth start next trees) (numberLevel parent depth start next others)
  | [], [], _, _, _, _, _ => by
    rw [numberLevel]
    exact .nil
  | tree :: trees, other :: others, ⟨htree, hrest⟩, parent, depth, start, next => by
    rw [numberLevel, numberLevel, Tree.descendants_related tree other htree]
    exact List.rel_append (Tree.number_related tree other htree ..)
      (numberLevel_related trees others hrest ..)

end

/-- The nodes of related trees are related in pre-order. -/
theorem preorder_related {trees others : List Tree} (h : treesRelated C trees others) :
    List.Forall₂ (NumberedNode.Related C) (preorderOf trees) (preorderOf others) := by
  unfold preorderOf
  rw [length_related h]
  exact numberLevel_related trees others h none 1 0 trees.length

section Sorting

variable {R : NumberedNode → NumberedNode → Prop} (hid : ∀ {n m}, R n m → m.id = n.id)

include hid

theorem insertByNumber_rel {n m : NumberedNode} (hn : R n m) {nodes others : List NumberedNode}
    (h : List.Forall₂ R nodes others) :
    List.Forall₂ R (insertByNumber n nodes) (insertByNumber m others) := by
  induction h with
  | nil => exact .cons hn .nil
  | @cons first other rest others hfirst hrest ih =>
    rw [insertByNumber, insertByNumber, hid hn, hid hfirst]
    by_cases hle : n.id ≤ first.id
    · rw [if_pos hle, if_pos hle]
      exact .cons hn (.cons hfirst hrest)
    · rw [if_neg hle, if_neg hle]
      exact .cons hfirst ih

/-- Sorting keeps a relation of nodes that have the same number. -/
theorem sortByNumber_rel {nodes others : List NumberedNode} (h : List.Forall₂ R nodes others) :
    List.Forall₂ R (sortByNumber nodes) (sortByNumber others) := by
  induction h with
  | nil => exact .nil
  | cons hn _ ih => exact insertByNumber_rel hid hn ih

end Sorting

/-- Related nodes make one index, if what they enter is the same. -/
theorem index_eq_of_forall₂ {κ : Type} [DecidableEq κ] {R : NumberedNode → NumberedNode → Prop}
    {entries : NumberedNode → List (κ × Nat)} (hentries : ∀ n m, R n m → entries m = entries n)
    {nodes others : List NumberedNode} (h : List.Forall₂ R nodes others) :
    OrderedMap.pushAll (others.flatMap entries) = OrderedMap.pushAll (nodes.flatMap entries) := by
  rw [List.flatMap_def, List.flatMap_def, map_eq_of_forall₂ hentries h]

/-! ## Forests -/

/-- Whether two forests have the same nodes, the same roots and the same index by coordinates. -/
structure Forest.HasNodesOf (forest other : Forest) : Prop where
  nodes : other.nodes = forest.nodes
  roots : other.roots = forest.roots
  byCoordinate : other.byCoordinate = forest.byCoordinate

attribute [ext] Node

section Nodes

variable {C : Cluster → Cluster → Prop}
  (hC : ∀ {cluster other : Cluster}, C cluster other → cluster.SameNode other)

include hC

theorem NumberedNode.Related.node_eq {n m : NumberedNode} (h : n.Related C m) :
    m.node = n.node := by
  obtain ⟨cluster, cluster', hcluster, hn, hm⟩ := h.clusters
  have hsame := hC hcluster
  have hname : cluster'.merged.name = cluster.merged.name := hsame.first.name
  have harguments : cluster'.merged.arguments = cluster.merged.arguments := hsame.first.arguments
  apply Node.ext
  · rw [hm.aliasName, hn.aliasName, hsame.first.aliasName]
  · rw [hm.name, hn.name, hname]
  · rw [hm.type, hn.type, hsame.type]
  · exact h.depth
  · rw [hm.objectTypes, hn.objectTypes, hsame.objectTypes]
  · rw [hm.resolved, hn.resolved, hsame.resolved]
  · rw [hm.traced, hn.traced, hsame.traced]
  · rw [hm.arguments, hn.arguments, harguments]
  · exact h.parent
  · exact h.children

/-- Trees whose clusters differ in what they merge have the same nodes. -/
theorem Forest.ofTrees_hasNodesOf {trees others : List Tree} (h : treesRelated C trees others) :
    (Forest.ofTrees trees).HasNodesOf (Forest.ofTrees others) := by
  have hpreorder := preorder_related h
  have hsorted := sortByNumber_rel NumberedNode.Related.id hpreorder
  refine ⟨map_eq_of_forall₂ (fun _ _ hn => hn.node_eq hC) hsorted, ranks_related h, ?_⟩
  exact index_eq_of_forall₂ (fun _ _ hn => by rw [hn.node_eq hC, hn.id]) hpreorder

end Nodes

end SelectionForest
