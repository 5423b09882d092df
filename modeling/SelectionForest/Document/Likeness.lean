import SelectionForest.Document.Basic

/-!
# Literals that are alike

Two literals are alike if they write the same value: numbers by their text, variables by their name,
lists item by item, and objects whatever the order of their fields (`Value.isLike`). Two lists of
arguments are alike if each argument of the one has a like argument of its name in the other, and
both have the same length (`areLike`).
-/

namespace SelectionForest

mutual

/-- Whether two literals are alike. -/
def Value.isLike : Value → Value → Bool
  | .null, .null => true
  | .boolean a, .boolean b => a == b
  | .int a, .int b => a == b
  | .float a, .float b => a == b
  | .string a, .string b => a == b
  | .enum a, .enum b => a == b
  | .variable a, .variable b => a == b
  | .list items, .list others => itemsLike items others
  | .object fields, .object others => fields.length == others.length && fieldsLike fields others
  | _, _ => false

/-- Whether two lists of literals are alike item by item. -/
def itemsLike : List Value → List Value → Bool
  | [], [] => true
  | item :: items, other :: others => item.isLike other && itemsLike items others
  | _, _ => false

/-- Whether each field has a like field of its name among others. -/
def fieldsLike : List (Name × Value) → List (Name × Value) → Bool
  | [], _ => true
  | (name, value) :: fields, others =>
    (match others.find? (·.1 = name) with
      | some other => value.isLike other.2
      | none => false)
      && fieldsLike fields others

end

/-- Whether two lists of arguments are alike. Of arguments with one name on the right side, the last
one counts. -/
def areLike (arguments others : List Argument) : Bool :=
  arguments.length == others.length
    && arguments.all fun argument =>
      (findArgument? others.reverse argument.name).any argument.value.isLike

end SelectionForest
