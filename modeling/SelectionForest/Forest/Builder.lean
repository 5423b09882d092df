import SelectionForest.Forest.Basic
import SelectionForest.Options

/-!
# Building a forest

A forest is built while its operation is gone through. When a level has been collected, its clusters
become nodes behind those that are there already, in the order in which they were founded, and their
parent gets its children. Then the nodes of the level have their turns, by response key as
`Level.grouped` has them: a node is entered into both indexes, and all that is selected below it is
built before the next one has its turn (`Request.buildLevel`).

Building takes a bound on the number of levels. Without a limit on the depth, the bound is the
number of different levels that the fields of the documents can make: an operation that goes on
below has met one of its levels before, and does not end (`Request.levelBound`).
-/

namespace SelectionForest

/-- The node of a cluster, before anything is built below it. -/
def Cluster.node (cluster : Cluster) (parent : Option Nat) (depth : Nat) : Node where
  aliasName := cluster.merged.first.aliasName
  name := cluster.merged.name
  type := cluster.type
  depth := depth
  objectTypes := cluster.objectTypes
  resolved := cluster.resolved
  traced := cluster.traced
  arguments := cluster.merged.arguments
  parent := parent
  children := []

namespace Forest

/-- The forest without nodes. -/
def empty : Forest := ⟨[], [], [], [], []⟩

/-- Adds the clusters of a level as nodes below a parent. -/
def addLevel (forest : Forest) (parent : Option Nat) (depth : Nat) (level : Level) : Forest :=
  { forest with
    nodes := forest.nodes ++ level.map (·.node parent depth)
    merged := forest.merged ++ level.map (·.merged) }

/-- Gives a node its children. Without a node, they are the roots. -/
def adopt (forest : Forest) (parent : Option Nat) (children : List Nat) : Forest :=
  match parent with
  | some id => { forest with nodes := forest.nodes.modify id fun node => { node with children } }
  | none => { forest with roots := children }

/-- Enters a node into the indexes: under the fields merged into it, and under the coordinates that
it selects. -/
def register (forest : Forest) (id : Nat) (node : Node) (merged : Bundle) : Forest :=
  { forest with
    byPlace := forest.byPlace.pushEach (merged.fields.map fun field => (field.place, id))
    byCoordinate := forest.byCoordinate.pushEach
      (node.coordinates.map fun coordinate => (coordinate, id)) }

end Forest

namespace Request

/-- The object types that a composite type stands for. -/
def typesOf (request : Request) (name : Name) : Outcome TypeSet := do
  request.schema.possibleTypes (← request.schema.compositeOf name)

/-- The turn of a node: it is registered, and what is selected below it is built; `below` builds the
level below it. -/
def buildNode (request : Request) (options : Options)
    (below : Nat → Nat → TypeSet → List (List Selection) → Forest → Outcome Forest)
    (forest : Forest) (id : Nat) : Outcome Forest :=
  match forest.node? id, forest.merged? id with
  | some node, some merged =>
    let registered := forest.register id node merged
    let name := node.type.innerName
    if request.schema.isComposite name then do
      options.allowDepth (node.depth + 1)
      let types ← request.typesOf name
      below id (node.depth + 1) types (merged.fields.map (·.selections)) registered
    else pure registered
  | _, _ => pure forest

/-- Builds the level of selection sets below a parent, with at most `levels` levels. -/
def buildLevel (request : Request) (options : Options) :
    Nat → Option Nat → Nat → TypeSet → List (List Selection) → Forest → Outcome Forest
  | 0, _, _, _, _, _ => .error .endless
  | levels + 1, parent, depth, types, sets, forest => do
    let level ← request.level types sets
    let ids := level.grouped.map (forest.size + ·.2)
    let below := fun id => buildLevel request options levels (some id)
    let founded := (forest.addLevel parent depth level).adopt parent ids
    ids.foldlM (request.buildNode options below) founded

/-- How many levels building may take. A level is made by a list of different selection sets and a
type, so an operation without a limit that takes more levels than there are of these does not
end. -/
def levelBound (request : Request) (options : Options) (selections : List Selection) : Nat :=
  match options.depthLimit with
  | some limit => limit + 1
  | none =>
    let fields := (fieldsOf selections).length
      + (request.fragments.flatMap fun fragment => fieldsOf fragment.selections).length
    Nat.pow (fields + 1) (fields + 1) * (request.schema.types.length + 1)

/-- Builds the forest of an operation. -/
def build (request : Request) (options : Options) (operation : Operation) : Outcome Forest := do
  let types ← request.typesOf operation.rootType
  options.allowDepth 1
  request.buildLevel options (request.levelBound options operation.selections) none 1 types
    [operation.selections] .empty

end Request

end SelectionForest
