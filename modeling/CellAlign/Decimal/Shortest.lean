import CellAlign.Decimal.Binary

/-!
# The fewest digits that identify a number

A binary64 number stands for an interval: the reals that round to it.  Its shortest decimal is the
decimal of fewest digits in that interval, and among those the one nearest to the number.  The
search tries one digit, two, three and so on; on each decimal grid only the two neighbours of the
number can be hits.
-/

namespace CellAlign.Decimal

/-- A positive decimal, `digits · 10 ^ exponent`. -/
structure Positive where
  digits : Nat
  exponent : Int
deriving DecidableEq

/-- What becomes of a number exactly half way between two shortest decimals. -/
inductive Tie where
  | toEven
  | up

/-- Compares `a · 10 ^ i` with `n · 2 ^ j`. -/
def compareScaled (a : Nat) (i : Int) (n : Nat) (j : Int) : Ordering :=
  compare ((a * Nat.pow 10 i.toNat) <<< (-j).toNat) ((n * Nat.pow 10 (-i).toNat) <<< j.toNat)

namespace Binary

/-- Whether the gap below `x` is half the gap above it: so at powers of two. -/
def narrowBelow (x : Binary) : Bool := x.mantissa == 1 <<< 52 && leastExponent < x.exponent

/-- Whether a decimal lies among the reals that round to the absolute value of `x`: between the
half way points to its neighbours, ends included exactly when the mantissa is even. -/
def readsBack (x : Binary) (d : Positive) : Bool :=
  let low := if x.narrowBelow then 4 * x.mantissa - 1 else 4 * x.mantissa - 2
  let high := 4 * x.mantissa + 2
  let ends := x.mantissa % 2 == 0
  let toLow := compareScaled d.digits d.exponent low (x.exponent - 2)
  let toHigh := compareScaled d.digits d.exponent high (x.exponent - 2)
  (toLow == .gt || (ends && toLow == .eq)) && (toHigh == .lt || (ends && toHigh == .eq))

/-- The least `k` such that the absolute value is below `10 ^ k`, up to a guess from the binary
logarithm that is corrected by at most two steps. -/
def magnitude (x : Binary) : Int :=
  let below (k : Int) : Bool := compareScaled 1 k x.mantissa x.exponent == .gt
  let bits : Int := Nat.log2 x.mantissa + x.exponent
  let guess := bits * 1233 / 4096
  if below guess then guess else if below (guess + 1) then guess + 1 else guess + 2

/-- The whole number of grid steps `10 ^ exponent` in the absolute value. -/
def steps (x : Binary) (exponent : Int) : Nat :=
  (x.ratio.1 * Nat.pow 10 (-exponent).toNat) / (x.ratio.2 * Nat.pow 10 exponent.toNat)

/-- Chooses between the decimals with `n` and `n + 1` grid steps, both hits. -/
def nearer (x : Binary) (tie : Tie) (n : Nat) (exponent : Int) : Nat :=
  match compareScaled (2 * n + 1) exponent (2 * x.mantissa) x.exponent with
  | .gt => n
  | .lt => n + 1
  | .eq =>
    match tie with
    | .up => n + 1
    | .toEven => if n % 2 == 0 then n else n + 1

/-- A hit on the grid `10 ^ exponent`, if there is one. -/
def onGrid? (x : Binary) (tie : Tie) (exponent : Int) : Option Positive :=
  let n := x.steps exponent
  let low := x.readsBack ⟨n, exponent⟩
  let high := x.readsBack ⟨n + 1, exponent⟩
  if low && high then some ⟨x.nearer tie n exponent, exponent⟩
  else if low then some ⟨n, exponent⟩
  else if high then some ⟨n + 1, exponent⟩
  else none

/-- The exact value as a decimal. -/
def exactDecimal (x : Binary) : Positive :=
  if x.exponent < 0 then ⟨x.mantissa * Nat.pow 5 (-x.exponent).toNat, x.exponent⟩
  else ⟨x.mantissa <<< x.exponent.toNat, 0⟩

end Binary

/-- Moves trailing zeros of the digits into the exponent. -/
def Positive.strip : Nat → Positive → Positive
  | 0, d => d
  | steps + 1, d =>
    if d.digits % 10 == 0 then Positive.strip steps ⟨d.digits / 10, d.exponent + 1⟩ else d

/-- The shortest decimal of the absolute value of a number that is not zero. -/
def Binary.shortest (x : Binary) (tie : Tie) : Positive :=
  let top := x.magnitude
  let rec search : Nat → Nat → Positive
    | 0, _ => x.exactDecimal
    | more + 1, places =>
      match x.onGrid? tie (top - places) with
      | some d => d.strip 20
      | none => search more (places + 1)
  search 17 1

end CellAlign.Decimal
