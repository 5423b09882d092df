import SelectionForest.Proofs.Forest.WellFormed

/-!
# The indexes of a forest

A forest is indexed while its nodes are gone through, and a node is entered when all that is merged
into it has been. So the two indexes say the same as the nodes themselves (`Forest.IsIndexed`).

* `nodesAt_eq_filter`: the nodes that are found for a field of an object type are those that select
  it there, in pre-order;
* `nodesOf_eq_flatMap`: those that are found for a field of a document are those that it is merged
  into, in pre-order and each as often as it was.
-/

namespace SelectionForest

namespace Forest

/-- Whether the node of a number selects a field on an object type. -/
def selectsAt (forest : Forest) (coordinate : Coordinate) (id : Nat) : Bool :=
  (forest.node? id).any fun node =>
    node.name == coordinate.field && decide (coordinate.type ∈ node.objectTypes.names)

/-- How often a field of a document is merged into the node of a number. -/
def timesMerged (forest : Forest) (field : Field) (id : Nat) : Nat :=
  match forest.merged? id with
  | some merged => merged.fields.countP (·.place == field.place)
  | none => 0

/-- Whether the indexes of a forest say what its nodes do, in pre-order. -/
structure IsIndexed (forest : Forest) : Prop where
  at_coordinate : ∀ coordinate : Coordinate,
    forest.nodesAt coordinate = forest.order.filter (forest.selectsAt coordinate)
  once : ∀ coordinate : Coordinate, (forest.nodesAt coordinate).Nodup
  of_field : ∀ field : Field, forest.nodesOf field
    = forest.order.flatMap fun id => List.replicate (forest.timesMerged field id) id

end Forest

namespace Node

theorem mem_coordinates {node : Node} {coordinate : Coordinate} : coordinate ∈ node.coordinates
    ↔ node.name = coordinate.field ∧ coordinate.type ∈ node.objectTypes.names := by
  obtain ⟨type, field⟩ := coordinate
  simp only [coordinates, List.mem_map, Coordinate.mk.injEq]
  constructor
  · rintro ⟨_, htype, rfl, rfl⟩
    exact ⟨rfl, htype⟩
  · rintro ⟨rfl, htype⟩
    exact ⟨type, htype, rfl, rfl⟩

theorem coordinates_nodup (node : Node) : node.coordinates.Nodup :=
  node.objectTypes.nodup.map fun _ _ h => congrArg Coordinate.type h

end Node

/-- An index that each node enters itself into under some keys, and what it has for a key. -/
theorem getAll_index {ι κ : Type} [DecidableEq κ] (nodes : List NumberedNode)
    (entries : NumberedNode → List ι) (keyOf : ι → κ) (key : κ) :
    (OrderedMap.pushAll (nodes.flatMap fun n => (entries n).map fun e =>
        (keyOf e, n.id))).getAll key
      = nodes.flatMap fun n => List.replicate ((entries n).countP (keyOf · = key)) n.id := by
  rw [OrderedMap.getAll_pushAll, List.filter_flatMap, List.map_flatMap]
  refine List.flatMap_congr fun n _ => ?_
  rw [List.filter_map, List.map_map, List.countP_eq_length_filter]
  exact List.map_const'

namespace Forest

section OfTrees

variable {trees : List Tree} (hids : ((preorderOf trees).map (·.id)).Perm
  (List.range (preorderOf trees).length))

include hids

theorem selectsAt_of_mem {n : NumberedNode} (hn : n ∈ preorderOf trees) (coordinate : Coordinate) :
    (ofTrees trees).selectsAt coordinate n.id = decide (coordinate ∈ n.node.coordinates) := by
  rw [selectsAt, (node?_of_mem hids hn).1, Bool.eq_iff_iff]
  simp [Node.mem_coordinates]

theorem timesMerged_of_mem {n : NumberedNode} (hn : n ∈ preorderOf trees) (field : Field) :
    (ofTrees trees).timesMerged field n.id = n.merged.fields.countP (·.place == field.place) := by
  rw [timesMerged, (node?_of_mem hids hn).2]

/-- The nodes that are found for a coordinate are those that select it, in pre-order. -/
theorem nodesAt_eq_filter (coordinate : Coordinate) : (ofTrees trees).nodesAt coordinate
    = (ofTrees trees).order.filter ((ofTrees trees).selectsAt coordinate) := by
  rw [order_ofTrees hids, List.filter_map, ← List.filterMap_eq_filter,
    List.filterMap_eq_flatMap_toList, List.map_flatMap]
  refine (getAll_index (preorderOf trees) (·.node.coordinates) id coordinate).trans ?_
  refine List.flatMap_congr fun n hn => ?_
  have hcount : n.node.coordinates.countP (id · = coordinate)
      = if coordinate ∈ n.node.coordinates then 1 else 0 := n.node.coordinates_nodup.count
  rw [hcount, Option.guard, Function.comp_apply, selectsAt_of_mem hids hn]
  by_cases hmem : coordinate ∈ n.node.coordinates <;> simp [hmem]

/-- The nodes that are found for a field are those that it is merged into, in pre-order and each as
often as it was. -/
theorem nodesOf_eq_flatMap (field : Field) : (ofTrees trees).nodesOf field
    = (ofTrees trees).order.flatMap fun id =>
      List.replicate ((ofTrees trees).timesMerged field id) id := by
  rw [order_ofTrees hids, List.flatMap_map]
  refine (getAll_index (preorderOf trees) (·.merged.fields) (·.place) field.place).trans ?_
  refine List.flatMap_congr fun n hn => ?_
  rw [timesMerged_of_mem hids hn]
  rfl

/-- The indexes of the forest of trees say what its nodes do. -/
theorem isIndexed_ofTrees : (ofTrees trees).IsIndexed where
  at_coordinate := nodesAt_eq_filter hids
  once coordinate := by
    rw [nodesAt_eq_filter hids, order_ofTrees hids]
    exact (hids.nodup_iff.2 List.nodup_range).filter _
  of_field := nodesOf_eq_flatMap hids

end OfTrees

end Forest

/-- The indexes of the forest of an operation say what its nodes do. -/
theorem Operation.forestWith_isIndexed {operation : Operation} {schema : Schema}
    {options : Options} {fragments : Fragments} {bindings : Members}
    {sources : Option TracedInputs} {forest : Forest}
    (h : operation.forestWith schema options fragments bindings sources = .ok forest) :
    forest.IsIndexed := by
  obtain ⟨trees, htrees, rfl⟩ := Operation.forestWith_eq_ok.1 h
  obtain ⟨hranks, hthrough⟩ := Request.grow_ranks htrees
  exact Forest.isIndexed_ofTrees (preorder_ids hranks hthrough)

/-- The sample is indexed: both fields `child` lead to the node that they are merged into. -/
theorem Sample.isIndexed : Sample.forest.IsIndexed :=
  Operation.forestWith_isIndexed Sample.forest_eq

end SelectionForest
