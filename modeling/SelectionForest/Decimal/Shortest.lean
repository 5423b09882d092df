import SelectionForest.Decimal.Binary64

/-!
# The shortest decimal text of a binary64 number

A binary64 number is written with the fewest significant digits that read back as the same number;
of the decimals with that many digits, the nearest to the number is taken, and of two equally near
ones the even one (`Binary64.shortest`). The digits are found by trying one digit, two digits, and
so on: at each count only the two neighbours of the number on that decimal grid can be the answer.

`Binary64.render` lays the digits out: positionally, and always with a fraction, while the exponent
of the first digit is between `-5` and `15`, and in scientific notation with a signed exponent
otherwise.
-/

namespace SelectionForest

namespace Binary64

/-- A positive decimal number `digits · 10 ^ scale`. -/
structure Decimal where
  digits : Nat
  scale : Int
  deriving DecidableEq, Repr

/-- The numerator and denominator of `significand · 2 ^ exponent / 10 ^ scale`, both multiplied by
four so that the ends of the rounding interval are natural numbers too. -/
def onGrid (significand : Nat) (exponent scale : Int) : Nat × Nat :=
  (4 * significand * Nat.pow 2 exponent.toNat * Nat.pow 10 (-scale).toNat,
    4 * Nat.pow 2 (-exponent).toNat * Nat.pow 10 scale.toNat)

/-- The exponent of the first decimal digit of a positive `num / den`, found by a search upwards
from `start` that takes at most `steps` steps. -/
def leadingExponentFrom (num den : Nat) : Nat → Int → Int
  | 0, start => start
  | steps + 1, start =>
    if num * Nat.pow 10 (-(start + 1)).toNat < den * Nat.pow 10 (start + 1).toNat then start
    else leadingExponentFrom num den steps (start + 1)

/-- The exponent of the first decimal digit of a positive number. -/
def leadingExponent (x : Binary64) : Int :=
  let num := x.significand * Nat.pow 2 x.exponent.toNat
  let den := Nat.pow 2 (-x.exponent).toNat
  let guess : Int := (digitCount num : Int) - (digitCount den : Int) - 1
  leadingExponentFrom num den 2 guess

/-- The nearest decimal on the grid of `count` significant digits that reads back as `x`, if there
is one. The rounding interval of `x` reaches half a unit of its significand to both sides, but only
a quarter below a power of two; its ends belong to it iff the significand is even. -/
def onDigits? (x : Binary64) (leading : Int) (count : Nat) : Option Decimal :=
  let scale := leading - (count : Int) + 1
  let (num, den) := onGrid x.significand x.exponent scale
  let half := 2 * (num / (4 * x.significand))
  let below :=
    if x.significand = Nat.pow 2 (precision - 1) ∧ leastExponent < x.exponent then half / 2
    else half
  let closed := x.significand % 2 = 0
  let floor := num / den
  let down := num - floor * den
  let up := den - down
  let reachesDown := down < below ∨ (closed ∧ down = below)
  let reachesUp := up < half ∨ (closed ∧ up = half)
  let takesDown := down < up ∨ (down = up ∧ floor % 2 = 0)
  if reachesDown ∧ (takesDown ∨ ¬ reachesUp) then some ⟨floor, scale⟩
  else if reachesUp then some ⟨floor + 1, scale⟩
  else none

/-- The first answer of `onDigits?` among the digit counts `count, count + 1, …`. -/
def shortestFrom (x : Binary64) (leading : Int) : Nat → Nat → Decimal
  | 0, count => (x.onDigits? leading count).getD ⟨x.significand, 0⟩
  | steps + 1, count =>
    (x.onDigits? leading count).getD (shortestFrom x leading steps (count + 1))

/-- The shortest decimal that reads back as a positive `x`. Seventeen digits always do. -/
def shortest (x : Binary64) : Decimal := shortestFrom x x.leadingExponent 16 1

/-- The significant digits without trailing zeros; at least one digit is kept. -/
def significantDigits (digits : Nat) : List Char :=
  let kept := ((Nat.toDigits 10 digits).reverse.dropWhile (· = '0')).reverse
  if kept.isEmpty then ['0'] else kept

/-- Where the layout of a number turns from positional to scientific. -/
structure Layout where
  /-- The least exponent of a first digit that is written positionally. -/
  least : Int
  /-- The greatest exponent of a first digit that is written positionally. -/
  greatest : Int

/-- Numbers are positional from `0.00001` up to sixteen digits before the point. -/
def layout : Layout := ⟨-5, 15⟩

/-- Digits with a point after the first `places` of them, filled up with zeros, and at least one
digit on both sides of the point. -/
def positional (digits : List Char) (leading : Int) : String :=
  if leading < 0 then
    "0." ++ String.ofList (List.replicate (-leading - 1).toNat '0' ++ digits)
  else
    let places := leading.toNat + 1
    let whole := digits.take places ++ List.replicate (places - digits.length) '0'
    let fraction := digits.drop places
    String.ofList whole ++ "." ++ (if fraction.isEmpty then "0" else String.ofList fraction)

/-- One digit before the point, a fraction only if there is one, and a signed exponent. -/
def scientific (digits : List Char) (leading : Int) : String :=
  let fraction := digits.drop 1
  String.ofList (digits.take 1) ++ (if fraction.isEmpty then "" else "." ++ String.ofList fraction)
    ++ "e" ++ (if leading < 0 then "-" else "+") ++ toString leading.natAbs

/-- The text of a positive decimal. -/
def Decimal.render (d : Decimal) : String :=
  let digits := significantDigits d.digits
  let leading := (digitCount d.digits : Int) - 1 + d.scale
  if layout.least ≤ leading ∧ leading ≤ layout.greatest then positional digits leading
  else scientific digits leading

/-- The shortest text of a number; zeros keep their sign. -/
def render (x : Binary64) : String :=
  (if x.negative then "-" else "")
    ++ if x.significand = 0 then "0.0" else x.shortest.render

end Binary64

end SelectionForest
