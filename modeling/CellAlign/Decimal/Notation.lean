import CellAlign.Decimal.Shortest

/-!
# Writing numbers

How the digits of a number are laid out is a matter of the output: where positional notation ends,
whether a whole number keeps a fraction of zero, how the exponent is written and what becomes of
the sign of zero.  A `Layout` holds these decisions and `render` follows them.
-/

namespace CellAlign.Decimal

/-- The decisions of an output format on how numbers are written. -/
structure Layout where
  /-- Which of two equally near shortest decimals is taken. -/
  tie : Tie
  /-- The magnitudes written positionally: `k` such that `10 ^ (k - 1) ≤ x < 10 ^ k`. -/
  positional : Int → Bool
  /-- Whether a whole number is written with the fraction `.0`. -/
  keepFraction : Bool
  /-- Whether negative zero keeps its sign. -/
  signedZero : Bool

/-- The decimal digits of a natural number. -/
def digitsOf (n : Nat) : List Char := Nat.toDigits 10 n

/-- A whole number in decimal, with a sign if it is negative. -/
def wholeText (i : Int) : String :=
  match i with
  | .ofNat n => String.ofList (digitsOf n)
  | .negSucc n => String.ofList ('-' :: digitsOf (n + 1))

namespace Layout

/-- A number in positional notation. -/
def plain (layout : Layout) (digits : List Char) (exponent : Int) : List Char :=
  if 0 ≤ exponent then
    digits ++ List.replicate exponent.toNat '0' ++ (if layout.keepFraction then ['.', '0'] else [])
  else
    let places := (-exponent).toNat
    if places < digits.length then
      digits.take (digits.length - places) ++ '.' :: digits.drop (digits.length - places)
    else
      '0' :: '.' :: List.replicate (places - digits.length) '0' ++ digits

/-- A number in scientific notation: one digit before the point and an exponent with its sign. -/
def scientific (digits : List Char) (exponent : Int) : List Char :=
  let power : Int := exponent + digits.length - 1
  let mark := if power < 0 then ['e', '-'] else ['e', '+']
  match digits with
  | [] => []
  | [d] => d :: mark ++ digitsOf power.natAbs
  | d :: rest => d :: '.' :: rest ++ mark ++ digitsOf power.natAbs

/-- The text of a number. -/
def render (layout : Layout) (x : Binary) : String :=
  if x.isZero then
    let sign := if x.negative && layout.signedZero then ['-'] else []
    String.ofList (sign ++ layout.plain ['0'] 0)
  else
    let d := x.shortest layout.tie
    let digits := digitsOf d.digits
    let sign := if x.negative then ['-'] else []
    if layout.positional (d.exponent + digits.length) then
      String.ofList (sign ++ layout.plain digits d.exponent)
    else String.ofList (sign ++ scientific digits d.exponent)

end Layout

end CellAlign.Decimal
