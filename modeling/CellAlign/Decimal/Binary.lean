/-!
# Finite binary64 numbers

A number of the format is written `± mantissa · 2 ^ exponent`, with a mantissa of at most 53 bits
and an exponent between -1074 and 971.  The form is canonical (`Binary.Canonical`): either the
mantissa has all its 53 bits, or the exponent is the least one.  Everything is exact arithmetic on
naturals: a quotient is rounded to the nearest number of the format, a half going to the even
mantissa, and what lies beyond the largest number has no value.
-/

namespace CellAlign.Decimal

/-- A finite binary64 number, `± mantissa · 2 ^ exponent`. -/
structure Binary where
  negative : Bool
  mantissa : Nat
  exponent : Int
deriving DecidableEq

namespace Binary

/-- The exponent of the smallest numbers. -/
def leastExponent : Int := -1074

/-- The exponent of the largest numbers. -/
def greatestExponent : Int := 971

/-- A number is in canonical form: its mantissa has all 53 bits unless its exponent is the least
one, and both are within the format. -/
structure Canonical (x : Binary) : Prop where
  mantissa_lt : x.mantissa < 1 <<< 53
  least_le : leastExponent ≤ x.exponent
  le_greatest : x.exponent ≤ greatestExponent
  full_or_least : 1 <<< 52 ≤ x.mantissa ∨ x.exponent = leastExponent

/-- Zero, with a sign. -/
def zero (negative : Bool) : Binary := ⟨negative, 0, leastExponent⟩

/-- Whether a number is one of the two zeros. -/
def isZero (x : Binary) : Bool := x.mantissa == 0

/-- Equality of values: the two zeros are equal, all else is equal only to itself. -/
def sameValue (x y : Binary) : Bool := x == y || (x.isZero && y.isZero)

/-- The whole part and the remainder of `num / den` measured in units of `2 ^ exponent`, together
with the divisor that the remainder refers to. -/
def inUnits (num den : Nat) (exponent : Int) : Nat × Nat × Nat :=
  let num := num <<< (-exponent).toNat
  let den := den <<< exponent.toNat
  (num / den, num % den, den)

/-- The exponent at which `num / den` has a whole part of 53 bits, or the least one if that is
greater. -/
def exponentOf (num den : Nat) : Int :=
  let guess : Int := (Nat.log2 num : Int) - (Nat.log2 den : Int) - 53
  let exponent := if (inUnits num den guess).1 < 1 <<< 53 then guess else guess + 1
  max exponent leastExponent

/-- The number nearest to `num / den`, a half going to the even mantissa; nothing if that is too
large for the format. -/
def ofRatio? (num den : Nat) : Option Binary :=
  if num == 0 then some (zero false)
  else
    let exponent := exponentOf num den
    let (whole, rest, unit) := inUnits num den exponent
    let up := unit < 2 * rest || (unit == 2 * rest && whole % 2 == 1)
    let mantissa := if up then whole + 1 else whole
    let (mantissa, exponent) :=
      if mantissa == 1 <<< 53 then (1 <<< 52, exponent + 1) else (mantissa, exponent)
    if exponent ≤ greatestExponent then some ⟨false, mantissa, exponent⟩ else none

/-- The numerator and the denominator of the absolute value. -/
def ratio (x : Binary) : Nat × Nat :=
  (x.mantissa <<< x.exponent.toNat, 1 <<< (-x.exponent).toNat)

/-- The product of two absolute values, rounded. -/
def mul? (x y : Binary) : Option Binary :=
  ofRatio? (x.ratio.1 * y.ratio.1) (x.ratio.2 * y.ratio.2)

/-- The quotient of two absolute values, rounded; the divisor must not be zero. -/
def div? (x y : Binary) : Option Binary :=
  ofRatio? (x.ratio.1 * y.ratio.2) (x.ratio.2 * y.ratio.1)

/-- The number nearest to `significand · 10 ^ exponent`, reached in the way a one-pass reader
takes: the significand is rounded first, and then multiplied or divided by a rounded power of ten.
The result therefore may differ from the nearest number by a unit or two in the last place.
Exponents below -308 are worked off in divisions by `10 ^ 308`; three of them leave zero of any
significand below `2 ^ 64`. -/
def ofDecimal? (significand : Nat) (exponent : Int) : Option Binary := do
  let start ← ofRatio? significand 1
  let power (n : Nat) := ofRatio? (Nat.pow 10 n) 1
  let rec lower : Nat → Binary → Nat → Option Binary
    | 0, x, _ => some x
    | steps + 1, x, n =>
      if n ≤ 308 then do x.div? (← power n)
      else if x.isZero then some x
      else do lower steps (← x.div? (← power 308)) (n - 308)
  if exponent < 0 then lower 4 start (-exponent).toNat
  else if exponent ≤ 308 then start.mul? (← power exponent.toNat)
  else if start.isZero then some start
  else none

end Binary

end CellAlign.Decimal
