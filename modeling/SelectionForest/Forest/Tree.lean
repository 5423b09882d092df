import SelectionForest.Forest.Builder

/-!
# Trees of selections

A forest is built node by node; what it holds is stated of the trees that it consists of, which keep
no numbers. The selections of an operation grow into trees, level by level (`Request.grow`). The top
level collects the selection set of the operation, for the object types of its root. Below a cluster
whose type is composite stands the level that collects the selection sets of its fields, for the
object types of that type.

The trees of a level stand in the order of `Level.grouped`, and each is grown to its end before the
next one is begun; so the error that comes first decides. Each tree keeps the rank of its cluster,
its place in the order of foundation.

`Forest.ofTrees` numbers the nodes of trees. The nodes of a level get consecutive numbers by rank;
the levels below follow, tree by tree in the order of the level. It lists the nodes by number, and
indexes them in pre-order.
-/

namespace SelectionForest

/-- A cluster, its place in the order in which the clusters of its level were founded, and the trees
below it. -/
structure Tree where
  cluster : Cluster
  rank : Nat
  children : List Tree

namespace Request

/-- The tree of a cluster at a depth; `below` grows the level below it. -/
def growTree (request : Request) (options : Options)
    (below : TypeSet → List (List Selection) → Outcome (List Tree)) (depth : Nat) :
    Cluster × Nat → Outcome Tree
  | (cluster, rank) =>
    let name := cluster.type.innerName
    if request.schema.isComposite name then do
      options.allowDepth (depth + 1)
      let types ← request.typesOf name
      let children ← below types cluster.selectionSets
      pure ⟨cluster, rank, children⟩
    else pure ⟨cluster, rank, []⟩

/-- The trees of a level at a depth, with at most `levels` levels. -/
def growLevel (request : Request) (options : Options) :
    Nat → Nat → TypeSet → List (List Selection) → Outcome (List Tree)
  | 0, _, _, _ => .error .endless
  | levels + 1, depth, types, sets => do
    let level ← request.level types sets
    let below := growLevel request options levels (depth + 1)
    level.grouped.mapM (request.growTree options below depth)

/-- The trees of an operation. -/
def grow (request : Request) (options : Options) (operation : Operation) :
    Outcome (List Tree) := do
  let types ← request.typesOf operation.rootType
  options.allowDepth 1
  request.growLevel options (request.levelBound options operation.selections) 1 types
    [operation.selections]

end Request

/-! ## Numbers -/

/-- A node with its number and the fields merged into it. -/
structure NumberedNode where
  id : Nat
  node : Node
  merged : Bundle

mutual

/-- The number of nodes below a tree. -/
def Tree.descendants : Tree → Nat
  | ⟨_, _, children⟩ => children.length + descendantsOf children

/-- The number of nodes below trees. -/
def descendantsOf : List Tree → Nat
  | [] => 0
  | tree :: trees => tree.descendants + descendantsOf trees

end

mutual

/-- The nodes of a tree in pre-order. The nodes of its level are numbered from `start` on by rank,
and the levels below it from `next` on. -/
def Tree.number (parent : Option Nat) (depth start next : Nat) : Tree → List NumberedNode
  | ⟨cluster, rank, children⟩ =>
    { id := start + rank
      node := { cluster.node parent depth with children := children.map (next + ·.rank) }
      merged := cluster.merged }
      :: numberLevel (some (start + rank)) (depth + 1) next (next + children.length) children

/-- The nodes of the trees of a level in pre-order, numbered in the same way. -/
def numberLevel (parent : Option Nat) (depth start next : Nat) : List Tree → List NumberedNode
  | [] => []
  | tree :: trees =>
    tree.number parent depth start next
      ++ numberLevel parent depth start (next + tree.descendants) trees

end

/-- Puts a node into a list that ascends by number. -/
def insertByNumber (node : NumberedNode) : List NumberedNode → List NumberedNode
  | [] => [node]
  | other :: nodes =>
    if node.id ≤ other.id then node :: other :: nodes else other :: insertByNumber node nodes

/-- Nodes in ascending order of their numbers. -/
def sortByNumber (nodes : List NumberedNode) : List NumberedNode := nodes.foldr insertByNumber []

/-- The forest of the trees of a top level. -/
def Forest.ofTrees (trees : List Tree) : Forest :=
  let preorder := numberLevel none 1 0 trees.length trees
  let numbered := sortByNumber preorder
  { nodes := numbered.map (·.node)
    merged := numbered.map (·.merged)
    roots := trees.map (·.rank)
    byPlace := OrderedMap.pushAll (preorder.flatMap fun n =>
      n.merged.fields.map fun field => (field.place, n.id))
    byCoordinate := OrderedMap.pushAll (preorder.flatMap fun n =>
      n.node.coordinates.map fun coordinate => (coordinate, n.id)) }

end SelectionForest
