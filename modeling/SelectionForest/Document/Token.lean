import SelectionForest.Document.Printer
import SelectionForest.Json.Reader

/-!
# Tokens of GraphQL documents

`Token.scan?` splits a document into its tokens. Blanks, line ends, byte order marks and comments
stand between tokens and are left out. Commas are left out too, but it is kept behind which of them
a token stands, because a few places of the grammar have no comma. Names and numbers are as long as
they can be, and a number is not followed by a digit, a point or the start of a name.

The value of a block string is its text without the indentation that its lines share and without the
blank lines at both ends (`blockStringValue`). The first line does not count for the indentation,
because it stands behind the quotation marks.
-/

namespace SelectionForest

/-! ## Block strings -/

/-- A text with every line end, `\r\n` and `\r` included, written as a line feed. -/
def unifyLineEnds : List Char → List Char
  | '\r' :: '\n' :: rest => '\n' :: unifyLineEnds rest
  | '\r' :: rest => '\n' :: unifyLineEnds rest
  | c :: rest => c :: unifyLineEnds rest
  | [] => []

/-- The number of blanks that a line starts with. -/
def indentation (line : List Char) : Nat := (line.takeWhile isBlockBlank).length

/-- The least indentation of the lines that are not blank; zero if all of them are. -/
def commonIndentation (lines : List (List Char)) : Nat :=
  (((lines.filter (!isBlankLine ·)).map indentation).min?).getD 0

/-- Lines without the blank ones at both ends. -/
def dropBlankEnds (lines : List (List Char)) : List (List Char) :=
  ((lines.dropWhile isBlankLine).reverse.dropWhile isBlankLine).reverse

/-- The value of a block string with the given text between its quotation marks. -/
def blockStringValue (text : List Char) : String :=
  match linesOf (unifyLineEnds text) with
  | [] => ""
  | first :: rest =>
    let common := commonIndentation rest
    "\n".intercalate ((dropBlankEnds (first :: rest.map (·.drop common))).map String.ofList)

/-! ## Tokens -/

/-- A token. Strings are kept as their values, numbers as they are written. -/
inductive Token where
  | punctuator (mark : Char)
  | spread
  | name (name : Name)
  | int (text : String)
  | float (text : String)
  | string (value : String)
  deriving DecidableEq, Repr

/-- A token in its place. -/
structure Lexeme where
  token : Token
  /-- Whether there is a comma between the token and the one before it. -/
  afterComma : Bool
  deriving DecidableEq, Repr

namespace Token

/-- Whether a character stands between tokens and means nothing. -/
def isBlank (c : Char) : Bool :=
  c = ' ' || c = '\t' || c = '\n' || c = '\r' || c.toNat = 0xFEFF

/-- Whether a character ends a line. -/
def isLineEnd (c : Char) : Bool := c = '\n' || c = '\r'

/-- Whether a character may start a name. -/
def isNameStart (c : Char) : Bool := c.isAlpha || c = '_'

/-- Whether a character may stand in a name. -/
def isNameChar (c : Char) : Bool := c.isAlphanum || c = '_'

/-- Whether a character is a token of its own. -/
def isPunctuator (c : Char) : Bool :=
  ['!', '$', '&', '(', ')', ':', '=', '@', '[', ']', '{', '|', '}'].contains c

/-- Reads a number token. -/
def readNumber? (cs : List Char) : Option (Token × List Char) :=
  let (minus, unsigned) := match cs with
    | '-' :: rest => (['-'], rest)
    | rest => ([], rest)
  let whole := unsigned.takeWhile Char.isDigit
  let afterWhole := unsigned.dropWhile Char.isDigit
  let (point, afterPoint) := match afterWhole with
    | '.' :: rest => ('.' :: rest.takeWhile Char.isDigit, rest.dropWhile Char.isDigit)
    | rest => ([], rest)
  let (mark, afterMark) := match afterPoint with
    | c :: sign :: rest =>
      if c = 'e' ∨ c = 'E' then
        if sign = '-' ∨ sign = '+' then ([c, sign], rest) else ([c], sign :: rest)
      else ([], c :: sign :: rest)
    | rest => ([], rest)
  let power := if mark.isEmpty then [] else afterMark.takeWhile Char.isDigit
  let rest := if mark.isEmpty then afterMark else afterMark.dropWhile Char.isDigit
  let text := String.ofList (minus ++ whole ++ point ++ mark ++ power)
  if whole.isEmpty ∨ (whole.head? = some '0' ∧ 1 < whole.length) ∨ point = ['.']
      ∨ (!mark.isEmpty ∧ power.isEmpty) ∨ rest.head?.any (fun c => isNameStart c || c = '.') then
    none
  else if point.isEmpty ∧ mark.isEmpty then some (.int text, rest)
  else some (.float text, rest)

/-- The character that the hexadecimal digits before a closing brace write. -/
def bracedEscape? (cs : List Char) : Option (Char × List Char) := do
  let digits ← (cs.takeWhile (· ≠ '}')).mapM Json.hexDigit?
  let n := digits.foldl (fun n digit => 16 * n + digit) 0
  match cs.dropWhile (· ≠ '}') with
  | '}' :: rest => if digits.isEmpty ∨ ¬ n.isValidChar then none else some (Char.ofNat n, rest)
  | _ => none

/-- The character that the text after a backslash writes in a quoted string. -/
def escape? : List Char → Option (Char × List Char)
  | 'u' :: '{' :: rest => bracedEscape? rest
  | rest => Json.escape? rest

/-- Reads a quoted string up to its closing mark; `read` holds its characters so far, last
first. -/
def readQuoted? : Nat → List Char → List Char → Option (Token × List Char)
  | 0, _, _ => none
  | _ + 1, _, [] => none
  | steps + 1, read, c :: rest =>
    if c = '"' then some (.string (String.ofList read.reverse), rest)
    else if c = '\\' then
      match escape? rest with
      | some (escaped, rest) => readQuoted? steps (escaped :: read) rest
      | none => none
    else if isLineEnd c then none
    else readQuoted? steps (c :: read) rest

/-- Reads a quoted string behind its opening mark. Directly behind the mark, and only there, a line
end may stand. -/
def readQuotedFrom? : List Char → Option (Token × List Char)
  | [] => none
  | c :: rest =>
    if isLineEnd c then readQuoted? (rest.length + 1) [c] rest
    else readQuoted? (rest.length + 2) [] (c :: rest)

/-- Reads a block string up to its closing marks; `read` holds its text so far, last first. -/
def readBlock? (read : List Char) : List Char → Option (Token × List Char)
  | '\\' :: '"' :: '"' :: '"' :: rest => readBlock? ('"' :: '"' :: '"' :: read) rest
  | '"' :: '"' :: '"' :: rest => some (.string (blockStringValue read.reverse), rest)
  | c :: rest => readBlock? (c :: read) rest
  | [] => none

/-- Reads the token that a text starts with. -/
def read? : List Char → Option (Token × List Char)
  | '"' :: '"' :: '"' :: rest => readBlock? [] rest
  | '"' :: rest => readQuotedFrom? rest
  | '.' :: '.' :: '.' :: rest => some (.spread, rest)
  | [] => none
  | c :: rest =>
    if isPunctuator c then some (.punctuator c, rest)
    else if isNameStart c then
      some (.name (String.ofList (c :: rest.takeWhile isNameChar)), rest.dropWhile isNameChar)
    else readNumber? (c :: rest)

/-- The tokens of a text, in at most `steps` steps; `afterComma` says whether there was a comma
since the last token. -/
def scanFrom? : Nat → Bool → List Char → Option (List Lexeme)
  | 0, _, _ => none
  | _ + 1, _, [] => some []
  | steps + 1, afterComma, c :: rest =>
    if c = ',' then scanFrom? steps true rest
    else if isBlank c then scanFrom? steps afterComma rest
    else if c = '#' then scanFrom? steps afterComma (rest.dropWhile (!isLineEnd ·))
    else do
      let (token, rest) ← read? (c :: rest)
      let lexemes ← scanFrom? steps false rest
      some (⟨token, afterComma⟩ :: lexemes)

/-- The tokens of a document. Each step takes a character, so that the length bounds the steps. -/
def scan? (text : String) : Option (List Lexeme) :=
  let cs := text.toList
  scanFrom? (cs.length + 1) false cs

end Token

end SelectionForest
