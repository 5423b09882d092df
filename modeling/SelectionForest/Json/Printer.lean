import SelectionForest.Json.Number
import SelectionForest.Text

/-!
# The compact text of JSON values

A value is written without any blanks and with its members in order. In strings, the quotation mark,
the backslash and the characters below the blank are escaped, and everything else stands as it is.
-/

namespace SelectionForest.Json

/-- The escaped form of a character in a JSON string. -/
def escapeChar (c : Char) : String :=
  match Text.escapeMark c with
  | some escaped => escaped
  | none =>
    match c.toNat with
    | 8 => "\\b"
    | 9 => "\\t"
    | 10 => "\\n"
    | 12 => "\\f"
    | 13 => "\\r"
    | n => if n < 32 then "\\u" ++ Text.hexDigits .lower 4 n else c.toString

/-- A JSON string. -/
def renderString (s : String) : String := Text.quoted escapeChar s

mutual

/-- The compact text of a value. -/
def render : Json → String
  | .null => "null"
  | .bool b => if b then "true" else "false"
  | .number n => n.render
  | .string s => renderString s
  | .array items => "[" ++ ",".intercalate (renderItems items) ++ "]"
  | .object members => "\x7b" ++ ",".intercalate (renderMembers members) ++ "\x7d"

/-- The texts of the items of an array. -/
def renderItems : List Json → List String
  | [] => []
  | item :: items => item.render :: renderItems items

/-- The texts of the members of an object. -/
def renderMembers : List (String × Json) → List String
  | [] => []
  | (key, value) :: members =>
    (renderString key ++ ":" ++ value.render) :: renderMembers members

end

end SelectionForest.Json
