import SelectionForest.Proofs.Forest.Building
import SelectionForest.Schema.Introspection

/-!
# The levels of a forest

What the forest of an operation holds, level by level. Its roots list the selections of the
operation, and the children of a node of a composite type list the selections of the fields merged
into that node (`Forest.Collects`). To list selections is to have one node for each class of the
occurrences that they expand to, in the order of the classes (`Forest.Lists`).

* `grow_roots`, `grow_below`: the nodes of a level are those of its trees;
* `forestWith_collects`: the forest of an operation has the levels of the operation.
-/

namespace SelectionForest

/-- Whether a node selects what the occurrences of a class do. All but its object types comes from
the founder. -/
structure Node.Selects (node : Node) (request : Request) (cls : OccurrenceClass) : Prop where
  aliasName : node.aliasName = cls.1.field.aliasName
  name : node.name = cls.1.field.name
  arguments : node.arguments = cls.1.field.arguments
  type : request.schema.declaredType? cls.1 = some node.type
  objectTypes : node.objectTypes = cls.objectTypes
  values : ∃ first definition, cls.1.types.first? = some first
    ∧ request.schema.field? first cls.1.field.name = some definition
    ∧ resolveArguments request.schema request.bindings definition cls.1.field.arguments
      = .ok node.resolved
    ∧ node.traced
      = request.traced.map fun sources => traceArguments sources definition cls.1.field.arguments

namespace Forest

/-- Whether the node of a number is the one of a class of occurrences. -/
def Shows (forest : Forest) (request : Request) (id : Nat) (cls : OccurrenceClass) : Prop :=
  ∃ node, forest.node? id = some node ∧ node.Selects request cls
    ∧ forest.merged? id = some cls.fields

/-- Whether nodes are those of selections, for the object types of a position: one for each class of
the occurrences that the selections expand to. -/
def Lists (forest : Forest) (request : Request) (types : TypeSet) (selections : List Selection)
    (ids : List Nat) : Prop :=
  ∃ occs, request.Expands types [] selections occs ∧ ids.Nodup
    ∧ List.Forall₂ (forest.Shows request) ids (request.schema.groups occs)

/-- Whether nodes are those of the trees of a level, in their order and numbered by their ranks. -/
def ShowsLevel (forest : Forest) (request : Request) (types : TypeSet)
    (sets : List (List Selection)) (ids : List Nat) : Prop :=
  ∃ trees start, request.LevelOf types sets trees ∧ ids = trees.map (start + ·.rank)
    ∧ ∀ tree ∈ trees, ∃ n : NumberedNode, forest.node? n.id = some n.node
      ∧ forest.merged? n.id = some n.merged ∧ n.id = start + tree.rank ∧ n.Shows tree.cluster

/-- Whether the levels of a forest are those of an operation. -/
structure Collects (forest : Forest) (request : Request) (operation : Operation) : Prop where
  roots : ∃ types, request.typesOf operation.rootType = .ok types
    ∧ forest.Lists request types operation.selections forest.roots
  below : ∀ {id : Nat} {node : Node}, forest.node? id = some node →
    request.schema.isComposite node.type.innerName = true →
    ∃ types merged, request.typesOf node.type.innerName = .ok types
      ∧ forest.merged? id = some merged
      ∧ forest.Lists request types (merged.fields.flatMap (·.selections)) node.children
  leaves : ∀ {id : Nat} {node : Node}, forest.node? id = some node →
    request.schema.isComposite node.type.innerName = false → node.children = []
  /-- All nodes are reached from the roots. -/
  reached : ∀ {R : Nat → Prop}, (∀ id ∈ forest.roots, R id) →
    (∀ {id : Nat} {node : Node}, forest.node? id = some node → R id →
      ∀ child ∈ node.children, R child) →
    ∀ {id : Nat} {node : Node}, forest.node? id = some node → R id

end Forest

/-- A node of a cluster selects what the occurrences that the cluster gathers do. -/
theorem Request.selects_of_gathers {request : Request} {n : NumberedNode} {cluster : Cluster}
    {cls : OccurrenceClass} (hn : n.Shows cluster) (hcluster : cluster.Gathers request cls) :
    n.node.Selects request cls where
  aliasName := by rw [hn.aliasName, hcluster.merged]; rfl
  name := by rw [hn.name, hcluster.merged]; rfl
  arguments := by rw [hn.arguments, hcluster.merged]; rfl
  type := by rw [hn.type, hcluster.type]
  objectTypes := by rw [hn.objectTypes, hcluster.objectTypes]
  values := by
    rw [hn.resolved, hn.traced]
    exact hcluster.founded

/-- Nodes that show a level list its selection sets. -/
theorem Forest.ShowsLevel.lists {forest : Forest} {request : Request} {types : TypeSet}
    {sets : List (List Selection)} {ids : List Nat} (h : forest.ShowsLevel request types sets ids) :
    forest.Lists request types sets.flatten ids := by
  obtain ⟨trees, start, hlevel, rfl, hnodes⟩ := h
  obtain ⟨occs, hexp, hgathers⟩ := hlevel.gathers
  refine ⟨occs, hexp, ?_, ?_⟩
  · have hnodup : (trees.map (·.rank)).Nodup := hlevel.haveRanks.nodup_iff.2 List.nodup_range
    have hmap := hnodup.map (f := (start + ·)) fun _ _ h => Nat.add_left_cancel h
    rwa [List.map_map] at hmap
  · rw [List.forall₂_map_left_iff]
    have hboth := (List.forall₂_and_left trees (request.schema.groups occs)).2 ⟨hnodes, hgathers⟩
    refine hboth.imp fun tree cls h => ?_
    obtain ⟨⟨n, hnode, hmerged, hid, hshows⟩, hcluster⟩ := h
    refine ⟨n.node, hid ▸ hnode, Request.selects_of_gathers hshows hcluster, ?_⟩
    rw [← hid, hmerged, hshows.merged, hcluster.merged]

namespace Request

section Grow

variable {request : Request} {options : Options} {operation : Operation} {trees : List Tree}
  (h : request.grow options operation = .ok trees)

include h

/-- The roots show the top level of an operation. -/
theorem grow_roots : ∃ types, request.typesOf operation.rootType = .ok types
    ∧ (Forest.ofTrees trees).ShowsLevel request types [operation.selections]
      (Forest.ofTrees trees).roots := by
  obtain ⟨hranks, hthrough⟩ := grow_ranks h
  obtain ⟨types, htypes, hlevel, -⟩ := grow_grown h
  have hroots : (Forest.ofTrees trees).roots = trees.map (0 + ·.rank) := by
    simp only [Nat.zero_add]
    rfl
  refine ⟨types, htypes, trees, 0, hlevel, hroots, fun tree ht => ?_⟩
  obtain ⟨n, hn, hshows⟩ := exists_in_level ht none 1 0 trees.length
  obtain ⟨hnode, hmerged⟩ := Forest.node?_of_mem (preorder_ids hranks hthrough) hn
  exact ⟨n, hnode, hmerged, hshows⟩

/-- The children of a node of a composite type show the level of the fields merged into it. -/
theorem grow_below {id : Nat} {node : Node} (hnode : (Forest.ofTrees trees).node? id = some node)
    (hcomposite : request.schema.isComposite node.type.innerName = true) :
    ∃ types merged, request.typesOf node.type.innerName = .ok types
      ∧ (Forest.ofTrees trees).merged? id = some merged
      ∧ (Forest.ofTrees trees).ShowsLevel request types (merged.fields.map (·.selections))
        node.children := by
  obtain ⟨hranks, hthrough⟩ := grow_ranks h
  have hids := preorder_ids hranks hthrough
  obtain ⟨_, -, -, hgrown⟩ := grow_grown h
  obtain ⟨n, hn, rfl, rfl⟩ := Forest.exists_of_node? hids hnode
  obtain ⟨tree, htree, hshows, start, hchildren, hbelow⟩ := exists_tree hgrown n hn
  rw [hshows.type] at hcomposite
  obtain ⟨types, htypes, hlevel⟩ := htree.branch hcomposite
  refine ⟨types, n.merged, hshows.type ▸ htypes, (Forest.node?_of_mem hids hn).2,
    tree.children, start, ?_, hchildren, fun child hc => ?_⟩
  · rw [hshows.merged]
    exact hlevel
  · obtain ⟨m, hm, hmchild⟩ := hbelow child hc
    obtain ⟨hnode, hmerged⟩ := Forest.node?_of_mem hids hm
    exact ⟨m, hnode, hmerged, hmchild⟩

theorem grow_collects : (Forest.ofTrees trees).Collects request operation := by
  obtain ⟨hranks, hthrough⟩ := grow_ranks h
  have hids := preorder_ids hranks hthrough
  constructor
  · obtain ⟨types, htypes, hroots⟩ := grow_roots h
    have hlists := hroots.lists
    rw [List.flatten_singleton] at hlists
    exact ⟨types, htypes, hlists⟩
  · intro id node hnode hcomposite
    obtain ⟨types, merged, htypes, hmerged, hlevel⟩ := grow_below h hnode hcomposite
    refine ⟨types, merged, htypes, hmerged, ?_⟩
    rw [List.flatMap_def]
    exact hlevel.lists
  · intro id node hnode hleaf
    obtain ⟨_, -, -, hgrown⟩ := grow_grown h
    obtain ⟨n, hn, rfl, rfl⟩ := Forest.exists_of_node? hids hnode
    obtain ⟨tree, htree, hshows, start, hchildren, -⟩ := exists_tree hgrown n hn
    rw [hshows.type] at hleaf
    rw [hchildren, htree.leaf hleaf, List.map_nil]
  · intro R hroots hclosed id node hnode
    obtain ⟨n, hn, rfl, rfl⟩ := Forest.exists_of_node? hids hnode
    refine preorder_reached (fun tree ht => hroots _ (List.mem_map_of_mem ht)) ?_ n hn
    exact fun m hm hR => hclosed (Forest.node?_of_mem hids hm).1 hR

end Grow

end Request

/-- The levels of the forest of an operation are those of the operation. -/
theorem Operation.forestWith_collects {operation : Operation} {schema : Schema} {options : Options}
    {fragments : Fragments} {bindings : Members} {sources : Option TracedInputs} {forest : Forest}
    (h : operation.forestWith schema options fragments bindings sources = .ok forest) :
    forest.Collects ⟨schema, fragments, bindings, sources⟩ operation := by
  obtain ⟨trees, htrees, rfl⟩ := Operation.forestWith_eq_ok.1 h
  exact Request.grow_collects htrees

/-- The levels of the forest of an operation are the grouped occurrences of its fields, and groups
are the classes of occurrences that select the same. -/
theorem Operation.forestWith_levels {operation : Operation} {schema : Schema} {options : Options}
    {fragments : Fragments} {bindings : Members} {sources : Option TracedInputs} {forest : Forest}
    (h : operation.forestWith schema options fragments bindings sources = .ok forest) :
    forest.Collects ⟨schema, fragments, bindings, sources⟩ operation
      ∧ ∀ occs, schema.AreClasses occs (schema.groups occs) :=
  ⟨forestWith_collects h, schema.areClasses_groups⟩

/-! ## A sample

The two objects of an interface select different fields of what stands below them. -/

namespace Sample

/-- `type Query { node: Node }`, where `Node` is `A` or `B`, each with a `child: Thing`. -/
def schema : Schema where
  types := Schema.builtInTypes ++ [
    ("Query", .object [] [⟨"node", [], .named "Node" false⟩]),
    ("Node", .interface [] [⟨"child", [], .named "Thing" false⟩]),
    ("A", .object ["Node"] [⟨"child", [], .named "Thing" false⟩]),
    ("B", .object ["Node"] [⟨"child", [], .named "Thing" false⟩]),
    ("Thing", .object [] [⟨"x", [], .named "Int" false⟩, ⟨"y", [], .named "Int" false⟩])]
  query := some "Query"
  mutation := none
  subscription := none
  directives := Schema.builtInDirectives

/-- A field without an alias, arguments and directives. -/
def plain (place : Nat) (name : Name) (selections : List Selection) : Field :=
  ⟨place, none, name, [], [], selections⟩

def x : Field := plain 2 "x" []
def y : Field := plain 4 "y" []
def childOfA : Field := plain 1 "child" [.field x]
def childOfB : Field := plain 3 "child" [.field y]
def node : Field :=
  plain 0 "node" [.inline "A" [] [.field childOfA], .inline "B" [] [.field childOfB]]

/-- `{ node { ... on A { child { x } } ... on B { child { y } } } }` -/
def operation : Operation := ⟨none, "Query", [], [.field node]⟩

/-- Both fields `child` are merged into one node, for both objects. -/
def forest : Forest where
  nodes := [
    ⟨none, "node", .named "Node" false, 1, .singleton "Query", [], none, [], none, [1]⟩,
    ⟨none, "child", .named "Thing" false, 2, .ofList ["A", "B"], [], none, [], some 0, [2, 3]⟩,
    ⟨none, "x", .named "Int" false, 3, .singleton "Thing", [], none, [], some 1, []⟩,
    ⟨none, "y", .named "Int" false, 3, .singleton "Thing", [], none, [], some 1, []⟩]
  merged := [⟨node, []⟩, ⟨childOfA, [childOfB]⟩, ⟨x, []⟩, ⟨y, []⟩]
  roots := [0]
  byPlace := [(0, [0]), (1, [1]), (3, [1]), (2, [2]), (4, [3])]
  byCoordinate := [(⟨"Query", "node"⟩, [0]), (⟨"A", "child"⟩, [1]), (⟨"B", "child"⟩, [1]),
    (⟨"Thing", "x"⟩, [2]), (⟨"Thing", "y"⟩, [3])]

theorem forest_eq : operation.forestWith schema {} [] [] none = .ok forest := rfl

/-- The sample with its four nodes has the levels of its operation. -/
theorem operation_levels :
    forest.Collects ⟨schema, [], [], none⟩ operation
      ∧ ∀ occs, schema.AreClasses occs (schema.groups occs) :=
  Operation.forestWith_levels forest_eq

end Sample

end SelectionForest
