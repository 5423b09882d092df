import SelectionForest.Forest.Basic

/-!
# The text of a forest

A node is shown by its alias, its object types and its field with the arguments as written
(`Node.render`). A forest has a line for each node, indented by two blanks for each level. Its text
is written from the roots on, with a level that is raised for the children of a node and lowered
after them (`Writer`, `Forest.render`).
-/

namespace SelectionForest

/-- The object types of a node: one stands alone, several in brackets. -/
def renderTypes : List Name → String
  | [name] => name
  | names => "[" ++ ", ".intercalate names ++ "]"

/-- The text of a node. -/
def Node.render (node : Node) : String :=
  (match node.aliasName with
      | some key => key ++ ": "
      | none => "")
    ++ renderTypes node.objectTypes.names ++ "." ++ node.name ++ renderArguments node.arguments

/-- Two blanks for each level. -/
def blanks (level : Nat) : String := String.ofList (List.replicate (2 * level) ' ')

/-- A text that is being written, and the level at which its next line starts. -/
structure Writer where
  text : String
  level : Nat

namespace Writer

/-- A text without anything in it, at the outermost level. -/
def empty : Writer := ⟨"", 0⟩

/-- Goes on with a text. -/
def write (w : Writer) (text : String) : Writer := { w with text := w.text ++ text }

/-- Goes on with a new line, which starts with two blanks for each level. -/
def newLine (w : Writer) : Writer := (w.write "\n").write (blanks w.level)

/-- Raises the level of the lines to come. -/
def indent (w : Writer) : Writer := { w with level := w.level + 1 }

/-- Lowers the level of the lines to come. -/
def dedent (w : Writer) : Writer := { w with level := w.level - 1 }

/-- Writes each of some values on a line of its own. -/
def writeLines {α : Type} (writeValue : Writer → α → Writer) (values : List α) (w : Writer) :
    Writer :=
  values.foldl (fun w value => writeValue w.newLine value) w

/-- Writes each of some values on a line of its own, one level deeper. -/
def writeBelow {α : Type} (writeValue : Writer → α → Writer) (values : List α) (w : Writer) :
    Writer :=
  (w.indent.writeLines writeValue values).dedent

end Writer

namespace Forest

/-- Writes a node, and the nodes below it in at most `levels` levels. -/
def writeNode (forest : Forest) : Nat → Writer → Nat → Writer
  | 0, w, _ => w
  | levels + 1, w, id =>
    let written := match forest.node? id with
      | some node => w.write node.render
      | none => w
    written.writeBelow (forest.writeNode levels) (forest.children id)

/-- The text of a forest, which has no more levels than nodes. -/
def render (forest : Forest) : String :=
  match forest.roots with
  | [] => ""
  | first :: rest =>
    let top := forest.writeNode forest.size .empty first
    (top.writeLines (forest.writeNode forest.size) rest).text

end Forest

end SelectionForest
