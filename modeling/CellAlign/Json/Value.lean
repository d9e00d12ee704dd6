import CellAlign.Decimal.Notation

/-!
# JSON values

A value as it stands in a text: members keep their order and may repeat a key.  A number is either
a whole number that fits 64 bits (signed below zero, unsigned above) or a finite binary64 number;
which of the two it is depends on how it was written, and the two kinds are never equal.
-/

namespace CellAlign.Json

/-- The whole numbers that are kept as such: those of a signed or an unsigned 64-bit word. -/
def Whole : Type := { i : Int // -0x8000000000000000 ≤ i ∧ i < 0x10000000000000000 }

instance : DecidableEq Whole :=
  inferInstanceAs (DecidableEq { i : Int // -0x8000000000000000 ≤ i ∧ i < 0x10000000000000000 })

/-- The whole number `i`, if it fits. -/
def Whole.ofInt? (i : Int) : Option Whole :=
  if h : -0x8000000000000000 ≤ i ∧ i < 0x10000000000000000 then some ⟨i, h⟩ else none

/-- A JSON number. -/
inductive Number where
  | whole (value : Whole)
  | binary (value : Decimal.Binary)
deriving DecidableEq

namespace Number

/-- Numbers in JSON have the fewest digits that identify them, positionally between `1e-5` and
`1e16` and with a fraction in any case; otherwise they have an exponent with a sign. -/
def layout : Decimal.Layout where
  tie := .toEven
  positional := fun k => -5 < k && k ≤ 16
  keepFraction := true
  signedZero := true

/-- The number as JSON. -/
def text : Number → String
  | whole i => Decimal.wholeText i.val
  | binary x => layout.render x

/-- Equality within a kind; the two zeros of the binary kind are equal. -/
def same : Number → Number → Bool
  | whole i, whole j => i == j
  | binary x, binary y => x.sameValue y
  | _, _ => false

end Number

/-- A JSON value, members in the order of the text. -/
inductive Value where
  | null
  | bool (value : Bool)
  | number (value : Number)
  | string (value : String)
  | array (items : List Value)
  | object (members : List (String × Value))

end CellAlign.Json
