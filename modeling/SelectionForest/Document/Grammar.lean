import SelectionForest.Document.Token

/-!
# Grammar shared by executable and type-system documents

A `Reading` takes tokens from the front of the tokens to come, or refuses them. Readings that repeat
take a bound on the number of steps; every step takes a token, so that the number of tokens is a
bound that is never reached. Readings that nest take the number of levels that are left: a document
nests at most `nestingLimit` of them.

Here are the readings that both kinds of documents use: literals, types, arguments, directives and
descriptions. A literal in a constant position holds no variables. An argument, or a field of an
object, that is written without a colon has no value and is left out.
-/

namespace SelectionForest

/-- Takes tokens from the front of those to come and gives a result, or refuses. -/
abbrev Reading := StateT (List Lexeme) Option

namespace Reading

/-- How many levels of selection sets, of lists and objects, or of list types may stand one inside
the other. -/
def nestingLimit : Nat := 500

/-- The next token, left in its place. -/
def peek? : Reading (Option Token) := fun lexemes => some (lexemes.head?.map (·.token), lexemes)

/-- How many tokens are to come. -/
def remaining : Reading Nat := fun lexemes => some (lexemes.length, lexemes)

/-- Takes the next token. -/
def next : Reading Token
  | [] => none
  | lexeme :: lexemes => some (lexeme.token, lexemes)

/-- Whether the next token is the given one, left in its place. -/
def isNext (token : Token) : Reading Bool := fun lexemes =>
  some (lexemes.head?.any (·.token = token), lexemes)

/-- Whether there is a comma before the next token. -/
def isAfterComma : Reading Bool := fun lexemes =>
  some (lexemes.head?.any (·.afterComma), lexemes)

/-- Refuses a comma before the next token. -/
def noComma : Reading Unit := do
  if ← isAfterComma then failure

/-- Takes the given token. -/
def expect (token : Token) : Reading Unit := fun lexemes =>
  match lexemes with
  | [] => none
  | first :: rest => if first.token = token then some ((), rest) else none

/-- Takes the given token if it is next, and says whether it was. -/
def accept (token : Token) : Reading Bool := fun lexemes =>
  match lexemes with
  | [] => some (false, [])
  | first :: rest => if first.token = token then some (true, rest) else some (false, first :: rest)

/-- Takes a punctuator. -/
def mark (c : Char) : Reading Unit := expect (.punctuator c)

/-- Takes a punctuator if it is next, and says whether it was. -/
def acceptMark (c : Char) : Reading Bool := accept (.punctuator c)

/-- Takes a word of the grammar. -/
def keyword (word : String) : Reading Unit := expect (.name word)

/-- Takes a name. -/
def name : Reading Name := do
  match ← next with
  | .name n => pure n
  | _ => failure

/-- Takes a name that is not among the words left out. -/
def nameExcept (words : List Name) : Reading Name := do
  let n ← name
  if words.contains n then failure else pure n

/-- Takes a name if one is next. -/
def name? : Reading (Option Name) := do
  match ← peek? with
  | some (.name n) =>
    let _ ← next
    pure (some n)
  | _ => pure none

/-- Repeats a reading until a token comes, and takes that token too. -/
def untilToken {α : Type} (close : Token) (item : Reading α) : Nat → Reading (List α)
  | 0 => failure
  | steps + 1 => do
    if ← accept close then pure []
    else
      let first ← item
      let rest ← untilToken close item steps
      pure (first :: rest)

/-- Any number of items between two punctuators. -/
def enclosed {α : Type} (opening closing : Char) (item : Reading α) : Reading (List α) := do
  mark opening
  untilToken (.punctuator closing) item ((← remaining) + 1)

/-- One or more items between two punctuators. -/
def enclosedSome {α : Type} (opening closing : Char) (item : Reading α) : Reading (List α) := do
  let items ← enclosed opening closing item
  if items.isEmpty then failure else pure items

/-- One or more items between two punctuators, or nothing if the first one does not come. -/
def enclosedOptional {α : Type} (opening closing : Char) (item : Reading α) :
    Reading (List α) := do
  if ← isNext (.punctuator opening) then enclosedSome opening closing item else pure []

/-- Items one after the other, as long as a token introduces them. -/
def whileToken {α : Type} (introduction : Token) (item : Reading α) : Nat → Reading (List α)
  | 0 => failure
  | steps + 1 => do
    if ← isNext introduction then
      let first ← item
      let rest ← whileToken introduction item steps
      pure (first :: rest)
    else pure []

/-- One or more items with a punctuator between them, and perhaps one in front. -/
def separated {α : Type} (separator : Char) (item : Reading α) : Reading (List α) := do
  let _ ← acceptMark separator
  let first ← item
  let next : Reading α := do
    mark separator
    item
  let rest ← whileToken (.punctuator separator) next ((← remaining) + 1)
  pure (first :: rest)

/-- Takes a description if one comes, and says whether it did. -/
def description : Reading Bool := do
  match ← peek? with
  | some (.string _) =>
    let _ ← next
    pure true
  | _ => pure false

/-- A name as a literal. -/
def nameLiteral (n : Name) : Value :=
  if n = "true" then .boolean true
  else if n = "false" then .boolean false
  else if n = "null" then .null
  else .enum n

/-- A name with a value behind a colon, and nothing for a name without a colon. -/
def named? (value : Reading Value) : Reading (Option (Name × Value)) := do
  let n ← name
  if ← acceptMark ':' then
    let v ← value
    pure (some (n, v))
  else pure none

/-- A literal whose parts, if it has any, are read by `part`; variables are refused in a constant
position. -/
def valueOf (constant : Bool) (part : Reading Value) : Reading Value := do
  match ← peek? with
  | some (.punctuator '[') =>
    let items ← enclosed '[' ']' part
    pure (.list items)
  | some (.punctuator '{') =>
    let fields ← enclosed '{' '}' (named? part)
    pure (.object (fields.filterMap id))
  | some (.punctuator '$') =>
    if constant then failure
    else
      mark '$'
      let n ← name
      pure (.variable n)
  | some (.int text) =>
    let _ ← next
    pure (.int text)
  | some (.float text) =>
    let _ ← next
    pure (.float text)
  | some (.string text) =>
    let _ ← next
    pure (.string text)
  | some (.name n) =>
    let _ ← next
    pure (nameLiteral n)
  | _ => failure

/-- A literal with parts in at most `levels` levels below its own. -/
def value (constant : Bool) : Nat → Reading Value
  | 0 => valueOf constant failure
  | levels + 1 => valueOf constant (value constant levels)

/-- A type; the type of the items of a list is read by `item`. -/
def typeOf (item : Reading TypeRef) : Reading TypeRef := do
  if ← acceptMark '[' then
    let itemType ← item
    mark ']'
    let nonNull ← acceptMark '!'
    pure (.list itemType nonNull)
  else
    let n ← name
    let nonNull ← acceptMark '!'
    pure (.named n nonNull)

/-- A type of at most `levels` lists. -/
def typeIn : Nat → Reading TypeRef
  | 0 => typeOf failure
  | levels + 1 => typeOf (typeIn levels)

/-- A type. -/
def type : Reading TypeRef := typeIn nestingLimit

/-- Arguments in parentheses, if they come, with values of at most `levels` levels. -/
def arguments (constant : Bool) (levels : Nat) : Reading (List Argument) := do
  let written ← enclosedOptional '(' ')' (named? (value constant levels))
  pure ((written.filterMap id).map fun (n, v) => ⟨n, v⟩)

/-- A directive. -/
def directive (constant : Bool) (levels : Nat) : Reading Directive := do
  mark '@'
  let n ← name
  let written ← arguments constant levels
  pure ⟨n, written⟩

/-- Any number of directives. -/
def directives (constant : Bool) (levels : Nat) : Reading (List Directive) := do
  whileToken (.punctuator '@') (directive constant levels) ((← remaining) + 1)

/-- Any number of directives with constant arguments. -/
def constantDirectives : Reading (List Directive) := directives true nestingLimit

/-- A default value, if one comes. -/
def defaultValue : Reading (Option Value) := do
  if ← acceptMark '=' then
    let v ← value true nestingLimit
    pure (some v)
  else pure none

/-- The words for kinds of operations. -/
def operationKind? (word : Name) : Option OperationKind :=
  if word = "query" then some .query
  else if word = "mutation" then some .mutation
  else if word = "subscription" then some .subscription
  else none

/-- One or more definitions that take all tokens of a text. -/
def definitions {α : Type} (definition : Reading α) : Nat → Reading (List α)
  | 0 => failure
  | steps + 1 => do
    let first ← definition
    if (← remaining) = 0 then pure [first]
    else
      let rest ← definitions definition steps
      pure (first :: rest)

/-- The definitions that a text holds. -/
def run? {α : Type} (definition : Reading α) (text : String) : Option (List α) := do
  let lexemes ← Token.scan? text
  let (found, _) ← (definitions definition (lexemes.length + 1)).run lexemes
  some found

end Reading

end SelectionForest
