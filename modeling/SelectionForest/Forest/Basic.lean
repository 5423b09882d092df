import SelectionForest.Level.Basic

/-!
# Forests

A `Forest` holds the nodes of an operation, each with the fields of the document that are merged
into it. A node is referred to by its number, which is its place; it keeps the numbers of its parent
and its children. Two indexes find nodes: by the fields that are merged into them, and by the object
types and field names that they select.

`Forest.order` goes through a forest in pre-order, by the numbers that its nodes keep.
-/

namespace SelectionForest

/-- A field on an object type. -/
structure Coordinate where
  type : Name
  field : Name
  deriving DecidableEq, Repr

/-- The text of a coordinate. -/
def Coordinate.render (coordinate : Coordinate) : String :=
  coordinate.type ++ "." ++ coordinate.field

/-- A node of a forest: a field as it is selected at one position of an operation. -/
structure Node where
  aliasName : Option Name
  name : Name
  /-- The declared type of the field. -/
  type : TypeRef
  /-- The number of levels from the root, which has depth one. -/
  depth : Nat
  /-- The object types that the field is selected for. -/
  objectTypes : TypeSet
  /-- The values of the arguments. -/
  resolved : Members
  /-- Where the values of the arguments come from, if that is traced. -/
  traced : Option TracedInputs
  /-- The arguments as they are written. -/
  arguments : List Argument
  parent : Option Nat
  children : List Nat

namespace Node

/-- The key of a node in a response: its alias, or else its name. -/
def responseKey (node : Node) : Name := node.aliasName.getD node.name

/-- The field on each object type of a node. -/
def coordinates (node : Node) : List Coordinate :=
  node.objectTypes.names.map fun type => ⟨type, node.name⟩

/-- Whether a node has no parent. -/
def isRoot (node : Node) : Bool := node.parent.isNone

/-- The definition of the field on the first object type. -/
def definition (node : Node) (schema : Schema) : Outcome FieldDefinition :=
  match node.objectTypes.first? with
  | some type => schema.definitionOf type node.name
  | none => .error (.internal (.fieldWithoutType node.name))

/-- The definitions of the field on all object types. -/
def definitions (node : Node) (schema : Schema) : Outcome (List FieldDefinition) :=
  node.objectTypes.names.mapM fun type => schema.definitionOf type node.name

end Node

/-- The nodes of an operation. A node is referred to by its place in `nodes`. -/
structure Forest where
  nodes : List Node
  /-- The fields merged into each node. -/
  merged : List Bundle
  roots : List Nat
  /-- The nodes that each field of the document is merged into, by the place of the field. -/
  byPlace : OrderedMap Nat (List Nat)
  /-- The nodes that select each field of an object type. -/
  byCoordinate : OrderedMap Coordinate (List Nat)

namespace Forest

/-- The number of nodes. -/
def size (forest : Forest) : Nat := forest.nodes.length

/-- Whether a forest has no node. -/
def isEmpty (forest : Forest) : Bool := forest.nodes.isEmpty

/-- The node of a number. -/
def node? (forest : Forest) (id : Nat) : Option Node := forest.nodes[id]?

/-- The fields merged into the node of a number. -/
def merged? (forest : Forest) (id : Nat) : Option Bundle := forest.merged[id]?

/-- The children of a node. -/
def children (forest : Forest) (id : Nat) : List Nat :=
  match forest.node? id with
  | some node => node.children
  | none => []

/-- The parent of a node, if it has one. -/
def parent? (forest : Forest) (id : Nat) : Option Nat := (forest.node? id).bind (·.parent)

/-- The children of a node that have a response key. -/
def childrenWithKey (forest : Forest) (id : Nat) (key : Name) : List Nat :=
  (forest.children id).filter fun child =>
    (forest.node? child).any (·.responseKey == key)

/-- The nodes that a field of the document is merged into, once for each time. -/
def nodesOf (forest : Forest) (field : Field) : List Nat := forest.byPlace.getAll field.place

/-- The nodes that select a field on an object type. -/
def nodesAt (forest : Forest) (coordinate : Coordinate) : List Nat :=
  forest.byCoordinate.getAll coordinate

/-- The nodes that a walk with a stack meets in at most `steps` steps. -/
def orderFrom (forest : Forest) : Nat → List Nat → List Nat
  | 0, _ => []
  | _ + 1, [] => []
  | steps + 1, id :: stack => id :: orderFrom forest steps (forest.children id ++ stack)

/-- The nodes in pre-order: parents before their children, and one tree after the other. -/
def order (forest : Forest) : List Nat := forest.orderFrom forest.size forest.roots

end Forest

end SelectionForest
