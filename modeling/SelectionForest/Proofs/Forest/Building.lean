import SelectionForest.Forest.OfOperation
import SelectionForest.Proofs.Forest.Growth

/-!
# What is built is what grows

A forest is built node by node, and its operation grows into trees. Where trees grow, building finds
the nodes that they have in pre-order, each in its place (`Forest.Builds`): a node that stands in a
forest stays as it is while others are built, so it is registered as it is in the end.

* `Builds.trans`: building goes on where it has come to, if no node is built twice;
* `buildNode_agrees`, `buildNodes_agree`: the turn of one node, and of those of a level;
* `buildLevel_agrees`: by induction on the levels, a level is built as it grows;
* `build_eq_ofTrees`: the forest that is built is that of the trees, and the error is the same;
* `forestWith_eq_ok`: so the forests of an operation are those of the trees that it grows into.
-/

namespace SelectionForest

theorem modify_append_left {α : Type} {xs : List α} {place : Nat} (h : place < xs.length)
    (f : α → α) (ys : List α) : (xs ++ ys).modify place f = xs.modify place f ++ ys := by
  induction xs generalizing place with
  | nil => exact absurd h (Nat.not_lt_zero place)
  | cons x xs ih =>
    cases place with
    | zero => rfl
    | succ place =>
      rw [List.cons_append, List.modify_succ_cons, List.modify_succ_cons,
        ih (Nat.lt_of_succ_lt_succ h), List.cons_append]

namespace Forest

/-- Whether a numbered node stands in its place. -/
def Has (forest : Forest) (n : NumberedNode) : Prop :=
  forest.node? n.id = some n.node ∧ forest.merged? n.id = some n.merged

/-- What a node is found by in the index of places. -/
def placesOf (n : NumberedNode) : List (Nat × Nat) :=
  n.merged.fields.map fun field => (field.place, n.id)

/-- What a node is found by in the index of coordinates. -/
def coordinatesOf (n : NumberedNode) : List (Coordinate × Nat) :=
  n.node.coordinates.map fun coordinate => (coordinate, n.id)

/-- Whether building some nodes leads from a forest to another one that has `added` more. -/
structure Builds (before after : Forest) (built : List NumberedNode) (added : Nat) : Prop where
  nodes : after.nodes.length = before.nodes.length + added
  merged : after.merged.length = before.merged.length + added
  roots : after.roots = before.roots
  /-- What is built is in its place. -/
  found : ∀ n ∈ built, after.Has n
  /-- What was there before and is not built stays. -/
  kept : ∀ n, before.Has n → (∀ other ∈ built, other.id ≠ n.id) → after.Has n
  byPlace : after.byPlace = before.byPlace.pushEach (built.flatMap placesOf)
  byCoordinate : after.byCoordinate = before.byCoordinate.pushEach (built.flatMap coordinatesOf)

theorem Has.lt_size {forest : Forest} {n : NumberedNode} (h : forest.Has n) :
    n.id < forest.size := by
  obtain ⟨hlt, -⟩ := List.getElem?_eq_some_iff.1 h.1
  exact hlt

theorem Builds.refl (forest : Forest) : forest.Builds forest [] 0 :=
  ⟨rfl, rfl, rfl, List.forall_mem_nil _, fun _ hn _ => hn, rfl, rfl⟩

/-- Building keeps as many merged fields as nodes. -/
theorem Builds.paired {before after : Forest} {built : List NumberedNode} {added : Nat}
    (h : before.Builds after built added) (hpaired : before.merged.length = before.nodes.length) :
    after.merged.length = after.nodes.length := by
  rw [h.merged, h.nodes, hpaired]

/-- Building goes on where it has come to, if no node is built twice. -/
theorem Builds.trans {forest middle after : Forest} {built others : List NumberedNode}
    {added more : Nat} (h : forest.Builds middle built added)
    (hmore : middle.Builds after others more)
    (hapart : ∀ n ∈ built, ∀ other ∈ others, other.id ≠ n.id) :
    forest.Builds after (built ++ others) (added + more) where
  nodes := by rw [hmore.nodes, h.nodes, Nat.add_assoc]
  merged := by rw [hmore.merged, h.merged, Nat.add_assoc]
  roots := hmore.roots.trans h.roots
  found := List.forall_mem_append.2 ⟨fun n hn => hmore.kept n (h.found n hn) (hapart n hn),
    hmore.found⟩
  kept n hn hothers := by
    obtain ⟨hbuilt, hrest⟩ := List.forall_mem_append.1 hothers
    exact hmore.kept n (h.kept n hn hbuilt) hrest
  byPlace := by rw [hmore.byPlace, h.byPlace, List.flatMap_append, OrderedMap.pushEach_append]
  byCoordinate := by
    rw [hmore.byCoordinate, h.byCoordinate, List.flatMap_append, OrderedMap.pushEach_append]

/-! ## Single steps -/

variable {forest : Forest} {n : NumberedNode}

/-- A level is added behind the nodes that are there. -/
theorem builds_addLevel (forest : Forest) (parent : Option Nat) (depth : Nat) (level : Level) :
    forest.Builds (forest.addLevel parent depth level) [] level.length where
  nodes := by rw [addLevel, List.length_append, List.length_map]
  merged := by rw [addLevel, List.length_append, List.length_map]
  roots := rfl
  found := List.forall_mem_nil _
  kept n hn _ := by
    obtain ⟨hnode, -⟩ := List.getElem?_eq_some_iff.1 hn.1
    obtain ⟨hmerged, -⟩ := List.getElem?_eq_some_iff.1 hn.2
    exact ⟨(List.getElem?_append_left hnode).trans hn.1,
      (List.getElem?_append_left hmerged).trans hn.2⟩
  byPlace := rfl
  byCoordinate := rfl

/-- The clusters of a level are its nodes. -/
theorem addLevel_has (hpaired : forest.merged.length = forest.nodes.length)
    (parent : Option Nat) (depth : Nat) {level : Level} {cluster : Cluster} {rank : Nat}
    (h : level[rank]? = some cluster) :
    (forest.addLevel parent depth level).Has
      ⟨forest.size + rank, cluster.node parent depth, cluster.merged⟩ := by
  constructor
  · rw [node?, addLevel, size, List.getElem?_append_right (Nat.le_add_right _ _),
      Nat.add_sub_cancel_left, List.getElem?_map, h]
    rfl
  · rw [merged?, addLevel, size, ← hpaired, List.getElem?_append_right (Nat.le_add_right _ _),
      Nat.add_sub_cancel_left, List.getElem?_map, h]
    rfl

theorem adopt_addLevel {parent : Option Nat} (h : ∀ id, parent = some id → id < forest.size)
    (depth : Nat) (level : Level) (ids : List Nat) :
    (forest.addLevel parent depth level).adopt parent ids
      = (forest.adopt parent ids).addLevel parent depth level := by
  cases parent with
  | none => rfl
  | some id =>
    rw [adopt, adopt, addLevel, addLevel]
    dsimp only
    rw [modify_append_left (h id rfl)]

theorem size_adopt (forest : Forest) (parent : Option Nat) (ids : List Nat) :
    (forest.adopt parent ids).size = forest.size := by
  cases parent with
  | none => rfl
  | some id => exact List.length_modify ..

theorem merged_adopt (forest : Forest) (parent : Option Nat) (ids : List Nat) :
    (forest.adopt parent ids).merged = forest.merged := by
  cases parent <;> rfl

/-- A node that stands in its place is registered. -/
theorem builds_register (h : forest.Has n) :
    forest.Builds (forest.register n.id n.node n.merged) [n] 0 where
  nodes := rfl
  merged := rfl
  roots := rfl
  found := List.forall_mem_singleton.2 h
  kept _ hn _ := hn
  byPlace := by rw [List.flatMap_singleton]; rfl
  byCoordinate := by rw [List.flatMap_singleton]; rfl

/-- A node is registered and gets its children. -/
theorem builds_adopt (h : forest.Has n) (ids : List Nat) :
    forest.Builds ((forest.register n.id n.node n.merged).adopt (some n.id) ids)
      [{ n with node := { n.node with children := ids } }] 0 where
  nodes := List.length_modify ..
  merged := rfl
  roots := rfl
  found := by
    refine List.forall_mem_singleton.2 ⟨?_, h.2⟩
    exact (List.getElem?_modify_eq ..).trans (congrArg _ h.1)
  kept other hother hne := by
    have hid := hne _ List.mem_cons_self
    exact ⟨(List.getElem?_modify_ne _ _ hid).trans hother.1, hother.2⟩
  byPlace := by rw [List.flatMap_singleton]; rfl
  byCoordinate := by rw [List.flatMap_singleton]; rfl

end Forest

/-! ## Turns -/

namespace Request

variable {request : Request} {options : Options}

/-- Whether levels are built as they grow, with at most so many levels: the parent gets its
children, and then the nodes of the level are built. -/
def BuildsAsGrown (request : Request) (options : Options) (levels : Nat) : Prop :=
  ∀ (parent : Option Nat) (depth : Nat) (types : TypeSet) (sets : List (List Selection))
    (forest : Forest), forest.merged.length = forest.nodes.length →
    (∀ id, parent = some id → id < forest.size) →
    Agree (fun trees after => (forest.adopt parent (trees.map (forest.size + ·.rank))).Builds after
        (numberLevel parent depth forest.size (forest.size + trees.length) trees)
        (trees.length + descendantsOf trees))
      (request.growLevel options levels depth types sets)
      (request.buildLevel options levels parent depth types sets forest)

section Turns

variable {levels depth start : Nat} {parent : Option Nat} {forest : Forest}
  (hlevels : request.BuildsAsGrown options levels)

include hlevels

/-- The turn of a node builds the tree of its cluster. -/
theorem buildNode_agrees (hpaired : forest.merged.length = forest.nodes.length)
    {cluster : Cluster} {rank : Nat}
    (hnode : forest.Has ⟨start + rank, cluster.node parent depth, cluster.merged⟩) :
    Agree (fun tree after => tree.rank = rank
        ∧ forest.Builds after (tree.number parent depth start forest.size) tree.descendants)
      (request.growTree options (request.growLevel options levels (depth + 1)) depth
        (cluster, rank))
      (request.buildNode options (fun id => request.buildLevel options levels (some id)) forest
        (start + rank)) := by
  rw [growTree, buildNode, hnode.1, hnode.2]
  dsimp only
  have htype : (cluster.node parent depth).type = cluster.type := rfl
  rw [htype]
  by_cases hcomposite : request.schema.isComposite cluster.type.innerName = true
  · rw [if_pos hcomposite, if_pos hcomposite]
    refine .bind_left _ fun _ => .bind_left _ fun types => ?_
    refine Agree.map_left (hlevels (some (start + rank)) (depth + 1) types cluster.selectionSets
      (forest.register (start + rank) (cluster.node parent depth) cluster.merged) hpaired ?_) ?_
    · rintro _ ⟨⟩
      exact hnode.lt_size
    · intro children after hbelow
      have hbuilt := (Forest.builds_adopt hnode _).trans hbelow fun n hn other hother => by
        obtain rfl := List.mem_singleton.1 hn
        have hlt := hnode.lt_size
        have hle : forest.size ≤ other.id := le_id_of_numberLevel hother
        exact Nat.ne_of_gt (Nat.lt_of_lt_of_le hlt hle)
      rw [Nat.zero_add] at hbuilt
      refine ⟨rfl, ?_⟩
      rw [Tree.number, Tree.descendants]
      exact hbuilt
  · rw [if_neg hcomposite, if_neg hcomposite]
    refine .ok ⟨rfl, ?_⟩
    rw [Tree.number, Tree.descendants, List.map_nil, numberLevel, descendantsOf]
    exact Forest.builds_register hnode

/-- The turns of the nodes of a level build the trees of its clusters. -/
theorem buildNodes_agree {entries : List (Cluster × Nat)} (hnodup : (entries.map (·.2)).Nodup)
    (hpaired : forest.merged.length = forest.nodes.length)
    (hnodes : ∀ entry ∈ entries,
      forest.Has ⟨start + entry.2, entry.1.node parent depth, entry.1.merged⟩) :
    Agree (fun trees after => trees.map (·.rank) = entries.map (·.2)
        ∧ forest.Builds after (numberLevel parent depth start forest.size trees)
          (descendantsOf trees))
      (entries.mapM
        (request.growTree options (request.growLevel options levels (depth + 1)) depth))
      ((entries.map (start + ·.2)).foldlM
        (request.buildNode options fun id => request.buildLevel options levels (some id))
        forest) := by
  induction entries generalizing forest with
  | nil => exact .ok ⟨rfl, .refl forest⟩
  | cons entry entries ih =>
    obtain ⟨cluster, rank⟩ := entry
    obtain ⟨hfirst, hrest⟩ := List.forall_mem_cons.1 hnodes
    obtain ⟨hnew, hnodup⟩ := List.nodup_cons.1 hnodup
    rw [List.mapM_cons, List.map_cons, List.map_cons, List.foldlM_cons]
    refine (buildNode_agrees hlevels hpaired hfirst).bind fun tree middle hturn => ?_
    obtain ⟨hrank, htree⟩ := hturn
    -- The first turn leaves the nodes alone whose turns are still to come.
    have hapart : ∀ n ∈ tree.number parent depth start forest.size,
        ∀ other ∈ entries.map (·.2), n.id ≠ start + other := fun n hn other hother heq => by
      obtain ⟨entry, hentry, rfl⟩ := List.mem_map.1 hother
      have hlt : start + entry.2 < forest.size := (hrest entry hentry).lt_size
      rcases tree.id_of_number n hn with hid | hid
      · have hsame : entry.2 = rank := by omega
        exact hnew (hsame ▸ hother)
      · omega
    have hnodes' : ∀ other ∈ entries,
        middle.Has ⟨start + other.2, other.1.node parent depth, other.1.merged⟩ :=
      fun other hother => htree.kept _ (hrest other hother) fun n hn =>
        hapart n hn _ (List.mem_map_of_mem hother)
    refine (ih hnodup (htree.paired hpaired) hnodes').map_left fun trees after hturns => ?_
    obtain ⟨hranks, htrees⟩ := hturns
    constructor
    · rw [List.map_cons, hrank, hranks]
    · have hsize : middle.size = forest.size + tree.descendants := htree.nodes
      rw [numberLevel, descendantsOf, ← hsize]
      refine htree.trans htrees fun n hn other hother => ?_
      rcases id_of_numberLevel trees other hother with ⟨later, hlater, hid⟩ | hid
      · rw [hid]
        exact (hapart n hn _ (hranks ▸ List.mem_map_of_mem hlater)).symm
      · exact Nat.ne_of_gt (Nat.lt_of_lt_of_le (htree.found n hn).lt_size hid)

end Turns

/-- Levels are built as they grow. -/
theorem buildLevel_agrees (levels : Nat) : request.BuildsAsGrown options levels := by
  induction levels with
  | zero => exact fun _ _ _ _ _ _ _ => .error _
  | succ levels ih =>
    intro parent depth types sets forest hpaired hparent
    rw [growLevel, buildLevel]
    refine .bind_left _ fun level => ?_
    dsimp only
    rw [Forest.adopt_addLevel hparent]
    let adopted := forest.adopt parent (level.grouped.map (forest.size + ·.2))
    have hsize : adopted.size = forest.size := forest.size_adopt parent _
    have hpaired' : adopted.merged.length = adopted.nodes.length := by
      rw [forest.merged_adopt, hpaired]
      exact hsize.symm
    have hadded := adopted.builds_addLevel parent depth level
    have hnodes : ∀ entry ∈ level.grouped, (adopted.addLevel parent depth level).Has
        ⟨forest.size + entry.2, entry.1.node parent depth, entry.1.merged⟩ := fun entry hentry => by
      have hhas := Forest.addLevel_has hpaired' parent depth
        (Level.getElem?_of_mem_grouped hentry)
      rwa [hsize] at hhas
    have hranks := level.grouped_ranks
    refine (buildNodes_agree ih (hranks.nodup_iff.2 List.nodup_range) (hadded.paired hpaired')
      hnodes).imp fun trees after htrees => ?_
    obtain ⟨hgrown, hbuilt⟩ := htrees
    have hids : trees.map (forest.size + ·.rank) = level.grouped.map (forest.size + ·.2) := by
      have hmap := congrArg (List.map (forest.size + ·)) hgrown
      rwa [List.map_map, List.map_map] at hmap
    have hlength : trees.length = level.length := by
      rw [← List.length_map (·.rank), hgrown, hranks.length_eq, List.length_range]
    have hnext : (adopted.addLevel parent depth level).size = forest.size + trees.length := by
      rw [hlength, ← hsize]
      exact hadded.nodes
    rw [hids, ← hnext, hlength]
    exact hadded.trans hbuilt fun _ hn => absurd hn List.not_mem_nil

/-- The forest of an operation is built as its trees grow. -/
theorem build_agrees (request : Request) (options : Options) (operation : Operation) :
    Agree (fun trees after => (Forest.empty.adopt none (trees.map (0 + ·.rank))).Builds after
        (numberLevel none 1 0 (0 + trees.length) trees) (trees.length + descendantsOf trees))
      (request.grow options operation) (request.build options operation) := by
  have hlevels : request.BuildsAsGrown options (request.levelBound options operation.selections) :=
    buildLevel_agrees _
  exact .bind_left _ fun types => .bind_left _ fun _ =>
    hlevels none 1 types [operation.selections] .empty rfl nofun

end Request

/-- A forest in which the nodes of trees have been built is the forest of the trees. -/
theorem Forest.Builds.eq_ofTrees {trees : List Tree} {after : Forest}
    (hids : ((preorderOf trees).map (·.id)).Perm (List.range (preorderOf trees).length))
    (h : (Forest.empty.adopt none (trees.map (·.rank))).Builds after (preorderOf trees)
      (preorderOf trees).length) : after = .ofTrees trees := by
  have hnodes := eq_map_sortByNumber hids (h.nodes.trans (Nat.zero_add _)) fun n hn =>
    (h.found n hn).1
  have hmerged := eq_map_sortByNumber hids (h.merged.trans (Nat.zero_add _)) fun n hn =>
    (h.found n hn).2
  have hroots := h.roots
  have hplace := h.byPlace
  have hcoordinate := h.byCoordinate
  obtain ⟨nodes, merged, roots, byPlace, byCoordinate⟩ := after
  subst hnodes hmerged hroots hplace hcoordinate
  rfl

/-- The forest that is built is that of the trees, and the error is the same. -/
theorem Request.build_eq_ofTrees (request : Request) (options : Options) (operation : Operation) :
    request.build options operation = request.grow options operation >>= fun trees =>
      pure (.ofTrees trees) := by
  have hagree := request.build_agrees options operation
  cases hgrow : request.grow options operation with
  | error error => exact hagree.error_right hgrow
  | ok trees =>
    obtain ⟨after, hbuild, hbuilt⟩ := hagree.exists_right hgrow
    obtain ⟨hranks, hthrough⟩ := grow_ranks hgrow
    simp only [Nat.zero_add, ← length_preorderOf hranks hthrough] at hbuilt
    rw [hbuild, hbuilt.eq_ofTrees (preorder_ids hranks hthrough)]
    rfl

namespace Operation

variable {operation : Operation} {schema : Schema} {options : Options} {fragments : Fragments}
  {bindings : Members} {sources : Option TracedInputs}

/-- The forest of an operation is that of its trees. -/
theorem forestWith_eq_grow : operation.forestWith schema options fragments bindings sources
    = (Request.mk schema fragments bindings sources).grow options operation >>= fun trees =>
      pure (.ofTrees trees) :=
  Request.build_eq_ofTrees ..

theorem forestWith_eq_ok {forest : Forest} :
    operation.forestWith schema options fragments bindings sources = .ok forest
      ↔ ∃ trees, (Request.mk schema fragments bindings sources).grow options operation = .ok trees
        ∧ Forest.ofTrees trees = forest := by
  rw [forestWith_eq_grow, bind_eq_ok]
  simp only [pure_eq_ok]

end Operation

end SelectionForest
