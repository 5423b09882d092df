import SelectionForest.Proofs.Forest.Indexes
import SelectionForest.Proofs.Walk.Fields

/-!
# How often fields are merged

A walk meets each field of its selections at most once, on one way through inline fragments; only
the fields of fragments may be met again and again. What stands below a field is handed on to the
one cluster that it is merged into. So the fields that a test picks out, none of which stands in a
fragment, are merged at most as often as they are written.

* `Expands.countP_le`: one walk;
* `LevelOf.countP_le`, `Tree.countP_mergedFields_le`: the trees of a level, and what grows below;
* `length_nodesOf`, `timesMerged_eq_count`: the nodes that are found for a field.
-/

namespace SelectionForest

variable {p : Field → Bool}

/-- A field counts once, and all below it by themselves. -/
theorem countP_flatMap_fields (fields : List Field) :
    (fields.flatMap Field.fields).countP p
      = fields.countP p + (fieldsOf (fields.flatMap (·.selections))).countP p := by
  induction fields with
  | nil => rfl
  | cons field fields ih =>
    have hfield : field.fields = field :: fieldsOf field.selections := by
      cases field
      rfl
    rw [List.flatMap_cons, List.flatMap_cons, fieldsOf_append, List.countP_append,
      List.countP_append, ih, hfield, List.countP_cons, List.countP_cons]
    omega

/-! ## Walks -/

/-- The fields that a walk meets hold no more than its selections do, if those of fragments do not
count. -/
theorem Request.Expands.countP_le {request : Request}
    (hfragments : request.OfFragments fun field => p field = false) {root : TypeSet}
    {conditions : List Name} {selections : List Selection} {occs : List Occurrence}
    (h : request.Expands root conditions selections occs) :
    (occs.flatMap (·.field.fields)).countP p ≤ (fieldsOf selections).countP p := by
  induction h with
  | nil => exact Nat.le_refl _
  | excluded _ _ ih =>
    rw [fieldsOf, List.countP_append]
    omega
  | pruned _ _ ih =>
    rw [fieldsOf, List.countP_append]
    omega
  | field _ _ _ ih =>
    rw [fieldsOf, Selection.fields, List.flatMap_cons, List.countP_append, List.countP_append]
    exact Nat.add_le_add_left ih _
  | inline _ _ _ ihinner ihrest =>
    rw [fieldsOf, Selection.fields, List.flatMap_append, List.countP_append, List.countP_append]
    omega
  | spread _ hget _ _ _ ihinner ihrest =>
    have hnone := List.countP_eq_zero.2 fun field hfield =>
      Bool.eq_false_iff.1 (hfragments _ (List.mem_of_find?_eq_some hget) field hfield)
    rw [hnone] at ihinner
    rw [fieldsOf, Selection.fields, List.flatMap_append, List.countP_append, List.nil_append]
    omega
  | fragmentExcluded _ _ _ ih => exact ih

/-! ## Trees -/

mutual

/-- The fields that are merged into the nodes of a tree, in pre-order. -/
def Tree.mergedFields : Tree → List Field
  | ⟨cluster, _, children⟩ => cluster.merged.fields ++ mergedFieldsOf children

/-- The fields that are merged into the nodes of trees, in pre-order. -/
def mergedFieldsOf : List Tree → List Field
  | [] => []
  | tree :: trees => tree.mergedFields ++ mergedFieldsOf trees

end

/-- The fields of the top nodes of trees, with all that stands below them. -/
def topFields (trees : List Tree) : List Field :=
  trees.flatMap fun tree => tree.cluster.merged.fields.flatMap Field.fields

theorem countP_mergedFieldsOf_le {trees : List Tree}
    (h : ∀ tree ∈ trees,
      tree.mergedFields.countP p ≤ (tree.cluster.merged.fields.flatMap Field.fields).countP p) :
    (mergedFieldsOf trees).countP p ≤ (topFields trees).countP p := by
  induction trees with
  | nil => exact Nat.le_refl _
  | cons tree trees ih =>
    obtain ⟨hfirst, hrest⟩ := List.forall_mem_cons.1 h
    rw [mergedFieldsOf, topFields, List.flatMap_cons, List.countP_append, List.countP_append]
    exact Nat.add_le_add hfirst (ih hrest)

/-- The top nodes of trees that gather classes have the fields of all their members. -/
theorem topFields_of_gathers {request : Request} {trees : List Tree}
    {classes : List OccurrenceClass}
    (h : List.Forall₂ (fun tree cls => tree.cluster.Gathers request cls) trees classes) :
    topFields trees = (classes.flatMap membersOf).flatMap (·.field.fields) := by
  rw [topFields, List.flatMap_assoc]
  induction h with
  | nil => rfl
  | cons hcluster _ ih =>
    rw [List.flatMap_cons, List.flatMap_cons, ih, hcluster.merged]
    simp [OccurrenceClass.fields, Bundle.fields, membersOf, List.flatMap_map]

section Trees

variable {request : Request} (hfragments : request.OfFragments fun field => p field = false)

include hfragments

/-- The trees of a level are handed no more than its selection sets write. -/
theorem Request.LevelOf.countP_le {types : TypeSet} {sets : List (List Selection)}
    {trees : List Tree} (h : request.LevelOf types sets trees) :
    (topFields trees).countP p ≤ (fieldsOf sets.flatten).countP p := by
  obtain ⟨occs, hexp, hgathers⟩ := h.gathers
  have hperm := (Schema.groups_perm request.schema occs).flatMap_right (·.field.fields)
  rw [topFields_of_gathers hgathers, hperm.countP_eq]
  exact hexp.countP_le hfragments

/-- The nodes of a tree merge no more than the fields of its top node hold. -/
theorem Tree.countP_mergedFields_le {tree : Tree} (h : tree.Throughout (Request.Grown request)) :
    tree.mergedFields.countP p ≤ (tree.cluster.merged.fields.flatMap Field.fields).countP p := by
  induction h with
  | @intro tree hgrown _ ih =>
    obtain ⟨cluster, rank, children⟩ := tree
    have hbelow : (topFields children).countP p
        ≤ (fieldsOf (cluster.merged.fields.flatMap (·.selections))).countP p := by
      cases hcomposite : request.schema.isComposite cluster.type.innerName with
      | false =>
        obtain rfl : children = [] := hgrown.leaf hcomposite
        exact Nat.zero_le _
      | true =>
        obtain ⟨types, -, hlevel⟩ := hgrown.branch hcomposite
        have hle := hlevel.countP_le hfragments
        rwa [Cluster.selectionSets, ← List.flatMap_def] at hle
    have hchildren : (mergedFieldsOf children).countP p ≤ (topFields children).countP p :=
      countP_mergedFieldsOf_le ih
    show (Tree.mergedFields ⟨cluster, rank, children⟩).countP p
      ≤ (cluster.merged.fields.flatMap Field.fields).countP p
    rw [Tree.mergedFields, List.countP_append, countP_flatMap_fields]
    omega

/-- The nodes of an operation merge no more than the operation writes. -/
theorem Request.countP_grow_le {options : Options} {operation : Operation} {trees : List Tree}
    (h : request.grow options operation = .ok trees) :
    (mergedFieldsOf trees).countP p ≤ (fieldsOf operation.selections).countP p := by
  obtain ⟨types, -, hlevel, hgrown⟩ := grow_grown h
  have htop := hlevel.countP_le hfragments
  rw [List.flatten_singleton] at htop
  exact Nat.le_trans (countP_mergedFieldsOf_le fun tree htree =>
    Tree.countP_mergedFields_le hfragments (hgrown tree htree)) htop

end Trees

/-! ## Nodes -/

mutual

theorem Tree.flatMap_merged_number : ∀ (tree : Tree) (parent : Option Nat)
    (depth start next : Nat),
    (tree.number parent depth start next).flatMap (·.merged.fields) = tree.mergedFields
  | ⟨cluster, rank, children⟩, parent, depth, start, next => by
    rw [Tree.number, List.flatMap_cons, flatMap_merged_numberLevel, Tree.mergedFields]

theorem flatMap_merged_numberLevel : ∀ (trees : List Tree) (parent : Option Nat)
    (depth start next : Nat),
    (numberLevel parent depth start next trees).flatMap (·.merged.fields) = mergedFieldsOf trees
  | [], _, _, _, _ => by rw [numberLevel, mergedFieldsOf, List.flatMap_nil]
  | tree :: trees, parent, depth, start, next => by
    rw [numberLevel, List.flatMap_append, tree.flatMap_merged_number,
      flatMap_merged_numberLevel trees, mergedFieldsOf]

end

namespace Forest

/-- As many nodes are found for a field as there are merged fields in its place. -/
theorem length_nodesOf (trees : List Tree) (field : Field) :
    ((ofTrees trees).nodesOf field).length
      = (mergedFieldsOf trees).countP (·.place = field.place) := by
  have hindex : (ofTrees trees).nodesOf field = (preorderOf trees).flatMap fun n =>
      List.replicate (n.merged.fields.countP (·.place = field.place)) n.id :=
    getAll_index (preorderOf trees) (·.merged.fields) (·.place) field.place
  have hmerged : (preorderOf trees).flatMap (·.merged.fields) = mergedFieldsOf trees :=
    flatMap_merged_numberLevel trees none 1 0 trees.length
  rw [hindex, ← hmerged, List.length_flatMap, List.countP_flatMap]
  simp only [List.length_replicate, Function.comp_def]

/-- How often a number stands in a list with each entry so many times. -/
theorem count_flatMap_replicate {order : List Nat} (h : order.Nodup) (times : Nat → Nat)
    (id : Nat) : (order.flatMap fun n => List.replicate (times n) n).count id
      = if id ∈ order then times id else 0 := by
  induction order with
  | nil => rfl
  | cons n order ih =>
    obtain ⟨hnew, horder⟩ := List.nodup_cons.1 h
    rw [List.flatMap_cons, List.count_append, ih horder, List.count_replicate]
    by_cases hid : n = id
    · subst hid
      simp [hnew]
    · simp [hid, Ne.symm hid]

variable {forest : Forest} {schema : Schema} (hindexed : forest.IsIndexed)
  (hwell : forest.IsWellFormed schema)

include hindexed hwell

/-- A field is merged into a node as often as the node is found for it. -/
theorem timesMerged_eq_count (field : Field) (id : Nat) :
    forest.timesMerged field id = (forest.nodesOf field).count id := by
  have hnodup : forest.order.Nodup := hwell.complete.nodup_iff.2 List.nodup_range
  rw [hindexed.of_field, count_flatMap_replicate hnodup]
  split
  · rfl
  · rename_i hid
    have hsize : forest.merged.length ≤ id := by
      rw [hwell.complete.mem_iff, List.mem_range, size, hwell.paired] at hid
      exact Nat.le_of_not_lt hid
    rw [timesMerged, merged?, List.getElem?_eq_none hsize]

/-- The nodes that are found for a field have merged one in its place. -/
theorem mem_nodesOf {field : Field} {id : Nat} : id ∈ forest.nodesOf field
    ↔ ∃ merged, forest.merged? id = some merged
      ∧ ∃ other ∈ merged.fields, other.place = field.place := by
  rw [← List.count_pos_iff, ← timesMerged_eq_count hindexed hwell, timesMerged]
  cases forest.merged? id with
  | none => simp
  | some merged => simp [List.countP_pos_iff]

end Forest

end SelectionForest
