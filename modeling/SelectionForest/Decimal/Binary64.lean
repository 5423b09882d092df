/-!
# Finite binary64 numbers

A finite binary64 number is kept exactly, as a sign, a natural significand and a power of two, so
that reading, printing and comparing it are arithmetic on natural numbers. `Binary64.ofDecimal?`
rounds a decimal number to the nearest binary64 number, ties to the even significand, and has no
answer for a number that rounds beyond the largest one.
-/

namespace SelectionForest

/-- The number `± significand · 2 ^ exponent`. It is kept in the canonical form of the format: the
significand is below `2 ^ 53`, the exponent lies between `-1074` and `971`, and the significand is
at least `2 ^ 52` unless the exponent is the least one. -/
structure Binary64 where
  negative : Bool
  significand : Nat
  exponent : Int
  deriving DecidableEq, Repr

namespace Binary64

/-- The number of bits of a significand. -/
def precision : Nat := 53

/-- The exponent of the smallest subnormal number. -/
def leastExponent : Int := -1074

/-- The exponent of the largest finite number. -/
def greatestExponent : Int := 971

/-- A zero of the given sign. -/
def zero (negative : Bool) : Binary64 := ⟨negative, 0, leastExponent⟩

/-- `num / den`, rounded to the nearest natural number, a half to the even one. -/
def roundDiv (num den : Nat) : Nat :=
  let quotient := num / den
  let rest := num % den
  if 2 * rest < den ∨ (2 * rest = den ∧ quotient % 2 = 0) then quotient else quotient + 1

/-- The numerator and denominator of `num / den / 2 ^ exponent`. -/
def scaled (num den : Nat) (exponent : Int) : Nat × Nat :=
  (num * Nat.pow 2 (-exponent).toNat, den * Nat.pow 2 exponent.toNat)

/-- The exponent at which a positive `num / den` has a significand of full precision, or the least
exponent if that one is larger. -/
def exponentOf (num den : Nat) : Int :=
  let guess : Int := (num.log2 : Int) - (den.log2 : Int) - ((precision : Int) - 1)
  let (n, d) := scaled num den guess
  max leastExponent (if n < d * Nat.pow 2 (precision - 1) then guess - 1 else guess)

/-- The binary64 number nearest to a positive `num / den`, or nothing beyond the largest one. -/
def ofRatio? (negative : Bool) (num den : Nat) : Option Binary64 :=
  let exponent := exponentOf num den
  let (n, d) := scaled num den exponent
  let significand := roundDiv n d
  let rounded : Binary64 :=
    if significand = Nat.pow 2 precision then ⟨negative, Nat.pow 2 (precision - 1), exponent + 1⟩
    else ⟨negative, significand, exponent⟩
  if rounded.exponent ≤ greatestExponent then some rounded else none

/-- Beyond this many decimal places to the left of the point every number overflows, and beyond it
to the right every number rounds to zero. -/
def decimalReach : Int := 400

/-- The number of decimal digits of a natural number; zero has one. -/
def digitCount (n : Nat) : Nat := (Nat.toDigits 10 n).length

/-- The binary64 number nearest to `± digits · 10 ^ scale`, or nothing if it overflows. -/
def ofDecimal? (negative : Bool) (digits : Nat) (scale : Int) : Option Binary64 :=
  if digits = 0 then some (zero negative)
  else
    let magnitude : Int := (digitCount digits : Int) + scale
    if decimalReach < magnitude then none
    else if magnitude < -decimalReach then some (zero negative)
    else ofRatio? negative (digits * Nat.pow 10 scale.toNat) (Nat.pow 10 (-scale).toNat)

end Binary64

end SelectionForest
