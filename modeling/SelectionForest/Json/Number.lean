import SelectionForest.Json.Basic
import SelectionForest.Decimal.Shortest

/-!
# The text of JSON numbers

A number token without a fraction and an exponent is an integer if it fits 64 bits, unsigned or,
with a minus sign, signed. Every other token is the nearest binary64 number, and so is `-0`. A token
beyond the largest binary64 number has no value (`Number.ofToken?`).
-/

namespace SelectionForest.Number

/-- A number token split into its parts: the sign, the digits before the point, and the digits
after it and the exponent, where written. -/
structure Token where
  negative : Bool
  whole : List Char
  fraction : Option (List Char)
  exponent : Option Int
  deriving DecidableEq, Repr

/-- The number that a list of decimal digits writes. -/
def ofDigits (digits : List Char) : Nat :=
  digits.foldl (fun n c => 10 * n + (c.toNat - '0'.toNat)) 0

/-- Whether an exponent mark follows, and the signed exponent after it. -/
def exponentPart : List Char → Option (Option Int)
  | [] => some none
  | c :: rest =>
    if c ≠ 'e' ∧ c ≠ 'E' then none
    else
      let (negative, digits) := match rest with
        | '-' :: digits => (true, digits)
        | '+' :: digits => (false, digits)
        | digits => (false, digits)
      if digits.isEmpty ∨ ¬ digits.all Char.isDigit then none
      else some (some (if negative then -(ofDigits digits : Int) else ofDigits digits))

/-- Splits a number token; a text that is no number token has no parts. -/
def Token.ofChars? (text : List Char) : Option Token :=
  let (negative, unsigned) := match text with
    | '-' :: rest => (true, rest)
    | rest => (false, rest)
  let whole := unsigned.takeWhile Char.isDigit
  let afterWhole := unsigned.dropWhile Char.isDigit
  if whole.isEmpty ∨ (whole.head? = some '0' ∧ 1 < whole.length) then none
  else match afterWhole with
    | '.' :: rest =>
      let fraction := rest.takeWhile Char.isDigit
      if fraction.isEmpty then none
      else (exponentPart (rest.dropWhile Char.isDigit)).map (⟨negative, whole, some fraction, ·⟩)
    | rest => (exponentPart rest).map (⟨negative, whole, none, ·⟩)

/-- The greatest unsigned integer of 64 bits. -/
def greatestUnsigned : Nat := Nat.pow 2 64 - 1

/-- The magnitude of the least signed integer of 64 bits. -/
def leastSignedMagnitude : Nat := Nat.pow 2 63

/-- The integer that a token without fraction and exponent writes, if it fits. -/
def Token.integer? (token : Token) : Option Int :=
  if token.fraction.isSome ∨ token.exponent.isSome then none
  else
    let n := ofDigits token.whole
    if token.negative then
      if n ≠ 0 ∧ n ≤ leastSignedMagnitude then some (-(n : Int)) else none
    else if n ≤ greatestUnsigned then some n else none

/-- The binary64 number nearest to a token. -/
def Token.float? (token : Token) : Option Binary64 :=
  let fraction := token.fraction.getD []
  Binary64.ofDecimal? token.negative (ofDigits (token.whole ++ fraction))
    (token.exponent.getD 0 - fraction.length)

/-- The number that a token writes. -/
def ofToken? (text : List Char) : Option Number := do
  let token ← Token.ofChars? text
  match token.integer? with
  | some n => some (.int n)
  | none => token.float?.map .float

/-- The text of a number. -/
def render : Number → String
  | .int n => toString n
  | .float x => x.render

end SelectionForest.Number
