import SelectionForest.Document.Basic
import SelectionForest.Text

/-!
# The text of literals and selections

Literals are written in two ways. On one line (`Value.render`), items and fields are separated by
commas and strings are always quoted. With indentation (`Value.renderIndented`), a list or an object
that is not empty has each entry on a line of its own, two blanks deeper than the line it starts
on, and a string of several lines is written as a block where reading the block gives it back.

Arguments, directives, fields and selections are written on one line only.
-/

namespace SelectionForest

/-- The escaped form of a character in a quoted string. A tab stands as it is. -/
def escapeStringChar (c : Char) : String :=
  match Text.escapeMark c with
  | some escaped => escaped
  | none =>
    match c.toNat with
    | 8 => "\\b"
    | 9 => "\t"
    | 10 => "\\n"
    | 12 => "\\f"
    | 13 => "\\r"
    | n => if n < 32 then "\\u" ++ Text.hexDigits .upper 4 n else c.toString

/-- A quoted string. -/
def renderQuoted (s : String) : String := Text.quoted escapeStringChar s

/-- Whether a character is a blank of a block string. -/
def isBlockBlank (c : Char) : Bool := c = ' ' || c = '\t'

/-- The lines of a text, without the line feeds between them. -/
def linesOf : List Char → List (List Char)
  | [] => [[]]
  | c :: rest =>
    if c = '\n' then [] :: linesOf rest
    else match linesOf rest with
      | line :: lines => (c :: line) :: lines
      | [] => [[c]]

/-- Whether a line has nothing but blanks. -/
def isBlankLine (line : List Char) : Bool := line.all isBlockBlank

/-- Whether reading the block form of a text gives the text back: it has several lines and no
carriage return, its first and last lines are not blank, and a line that is not blank starts without
indentation. -/
def hasBlockForm (s : String) : Bool :=
  let lines := linesOf s.toList
  1 < lines.length && !s.toList.any (· = '\r')
    && !(lines.head?.all isBlankLine) && !(lines.getLast?.all isBlankLine)
    && lines.any fun line => line.head?.any (!isBlockBlank ·)

/-- A line of a block string, with a backslash in front of three quotation marks. -/
def escapeBlockLine : List Char → List Char
  | '"' :: '"' :: '"' :: rest => '\\' :: '"' :: '"' :: '"' :: escapeBlockLine rest
  | c :: rest => c :: escapeBlockLine rest
  | [] => []

/-- A new line, indented by two blanks a level. -/
def newLine (level : Nat) : String := "\n" ++ String.ofList (List.replicate (2 * level) ' ')

/-- A block string whose lines stand at a level. Empty lines are not indented. -/
def renderBlock (level : Nat) (s : String) : String :=
  let line (cs : List Char) :=
    if cs.isEmpty then "\n" else newLine level ++ String.ofList (escapeBlockLine cs)
  "\"\"\"" ++ String.join ((linesOf s.toList).map line) ++ newLine level ++ "\"\"\""

namespace Value

mutual

/-- A literal on one line. -/
def render : Value → String
  | .null => "null"
  | .boolean b => if b then "true" else "false"
  | .int text => text
  | .float text => text
  | .string s => renderQuoted s
  | .enum name => name
  | .variable name => "$" ++ name
  | .list items => "[" ++ ", ".intercalate (renderItems items) ++ "]"
  | .object fields => "\x7b" ++ ", ".intercalate (renderFields fields) ++ "\x7d"

/-- The items of a list, each on one line. -/
def renderItems : List Value → List String
  | [] => []
  | item :: items => item.render :: renderItems items

/-- The fields of an object, each on one line. -/
def renderFields : List (Name × Value) → List String
  | [] => []
  | (name, value) :: fields => (name ++ ": " ++ value.render) :: renderFields fields

end

mutual

/-- A literal with indentation, on a line that is indented by `level`. -/
def renderAt (level : Nat) : Value → String
  | .null => "null"
  | .boolean b => if b then "true" else "false"
  | .int text => text
  | .float text => text
  | .string s => if hasBlockForm s then renderBlock level s else renderQuoted s
  | .enum name => name
  | .variable name => "$" ++ name
  | .list [] => "[]"
  | .list (item :: items) =>
    "[" ++ newLine (level + 1) ++ renderAt (level + 1) item ++ ","
      ++ renderItemsAt (level + 1) items ++ newLine level ++ "]"
  | .object [] => "\x7b\x7d"
  | .object ((name, value) :: fields) =>
    "\x7b" ++ newLine (level + 1) ++ name ++ ": " ++ renderAt (level + 1) value ++ ","
      ++ renderFieldsAt (level + 1) fields ++ newLine level ++ "\x7d"

/-- The items of a list, each on a new line. -/
def renderItemsAt (level : Nat) : List Value → String
  | [] => ""
  | item :: items => newLine level ++ renderAt level item ++ "," ++ renderItemsAt level items

/-- The fields of an object, each on a new line. -/
def renderFieldsAt (level : Nat) : List (Name × Value) → String
  | [] => ""
  | (name, value) :: fields =>
    newLine level ++ name ++ ": " ++ renderAt level value ++ "," ++ renderFieldsAt level fields

end

/-- A literal with indentation. -/
def renderIndented (value : Value) : String := value.renderAt 0

end Value

/-- An argument on one line. -/
def Argument.render (argument : Argument) : String :=
  argument.name ++ ": " ++ argument.value.render

/-- Arguments in parentheses; no arguments have no parentheses. -/
def renderArguments (arguments : List Argument) : String :=
  if arguments.isEmpty then ""
  else "(" ++ ", ".intercalate (arguments.map Argument.render) ++ ")"

/-- A directive on one line. -/
def Directive.render (directive : Directive) : String :=
  "@" ++ directive.name ++ renderArguments directive.arguments

/-- Directives, each after a blank. -/
def renderDirectives (directives : List Directive) : String :=
  String.join (directives.map fun directive => " " ++ directive.render)

mutual

/-- A selection on one line. -/
def Selection.render : Selection → String
  | .field field => field.render
  | .inline condition directives selections =>
    "..." ++ (match condition with
        | some type => " on " ++ type
        | none => "")
      ++ renderDirectives directives ++ " " ++ renderBraces selections
  | .spread fragment directives => "..." ++ fragment ++ renderDirectives directives

/-- A field on one line; a field without selections has no braces. -/
def Field.render : Field → String
  | ⟨_, aliasName, name, arguments, directives, selections⟩ =>
    (match aliasName with
        | some key => key ++ ": "
        | none => "")
      ++ name ++ renderArguments arguments ++ renderDirectives directives
      ++ (if selections.isEmpty then "" else " " ++ renderBraces selections)

/-- A selection set in braces. -/
def renderBraces : List Selection → String
  | [] => "\x7b\x7d"
  | selection :: selections =>
    "\x7b " ++ selection.render ++ renderSelections selections ++ " \x7d"

/-- Selections, each after a blank. -/
def renderSelections : List Selection → String
  | [] => ""
  | selection :: selections => " " ++ selection.render ++ renderSelections selections

end

end SelectionForest
