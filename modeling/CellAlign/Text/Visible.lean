/-!
# The visible part of a text

A text can hold controls and control sequences, which a terminal obeys and does not show.  Where a
text goes to something else they are left out, and `visible` is what remains of it.

A sequence begins with an escape character and goes on as what follows demands: a single character,
perhaps behind some punctuation; behind `[` parameters up to a letter; behind `P`, `X`, `^` or `_` a
string, which only another escape character ends; behind `]` a command, which the bell ends too.
Two controls cancel a sequence.

The characters that lay out lines are kept even inside a sequence, and what follows such a character
counts as text up to the next control.  Only then the sequence goes on, unless a character beyond
ASCII has ended it.
-/

namespace CellAlign.Text

/-- How far a control sequence has been read. -/
inductive Sequence where
  /-- There is none. -/
  | none
  /-- Behind the escape character. -/
  | escape
  /-- Behind punctuation that follows the escape character. -/
  | punctuation
  /-- Among the parameters of a sequence that a letter ends. -/
  | parameters
  /-- At the beginning of the head of a string. -/
  | head
  /-- Behind a parameter in the head of a string. -/
  | headParameters
  /-- Behind punctuation in the head of a string. -/
  | headPunctuation
  /-- Inside a string. -/
  | string
  /-- Inside a command. -/
  | command
deriving DecidableEq

/-- Whether a character lays out lines. -/
def isLayout (c : Char) : Bool :=
  c == '\t' || c == '\n' || c == '\x0C' || c == '\r'

/-- Whether a character can be seen or lays out lines. -/
def isVisible (c : Char) : Bool :=
  isLayout c || (0x20 ≤ c.toNat && c.toNat != 0x7F)

/-- Whether the encoding of a character in bytes holds the byte that ends a string.  Behind the
first byte each one holds six bits of the code point. -/
def endsString (c : Char) : Bool :=
  let n := c.toNat
  (0x80 ≤ n && n % 64 == 0x1C) || (0x800 ≤ n && n / 64 % 64 == 0x1C) ||
    (0x10000 ≤ n && n / 4096 % 64 == 0x1C)

namespace Sequence

/-- Whether characters that lay out lines are kept inside a sequence. -/
def keepsLayout : Sequence → Bool
  | none | escape | punctuation | parameters => true
  | head | headParameters | headPunctuation | string | command => false

/-- Reads a character that is not kept. -/
def next (sequence : Sequence) (c : Char) : Sequence :=
  let n := c.toNat
  if n = 0x1B then escape
  else if n = 0x18 ∨ n = 0x1A then none
  else
    match sequence with
    | none => none
    | escape =>
      if n < 0x20 ∨ 0x7F ≤ n then escape
      else if n < 0x30 then punctuation
      else if c = '[' then parameters
      else if c = ']' then command
      else if c = 'P' then head
      else if c = 'X' ∨ c = '^' ∨ c = '_' then string
      else none
    | punctuation => if n < 0x30 ∨ 0x7F ≤ n then punctuation else none
    | parameters => if n < 0x40 ∨ 0x7F ≤ n then parameters else none
    | head =>
      if n < 0x20 ∨ 0x7F ≤ n then head
      else if n < 0x30 then headPunctuation
      else if n < 0x40 then headParameters
      else string
    | headParameters =>
      if n < 0x20 ∨ 0x7F ≤ n then headParameters
      else if n < 0x30 then headPunctuation
      else if n < 0x3C then headParameters
      else string
    | headPunctuation => if n < 0x30 ∨ 0x7F ≤ n then headPunctuation else string
    | string => if endsString c then none else string
    | command => if n = 0x07 then none else command

end Sequence

/-- What is kept of a text.  `kept` says whether the character in front was. -/
def visibleFrom (kept : Bool) (sequence : Sequence) : List Char → List Char
  | [] => []
  | c :: rest =>
    let keep :=
      if kept || sequence == .none then isVisible c else sequence.keepsLayout && isLayout c
    if keep then c :: visibleFrom true (if 0x80 ≤ c.toNat then .none else sequence) rest
    else visibleFrom false (sequence.next c) rest

/-- A text without its controls and control sequences. -/
def visible (text : String) : String := String.ofList (visibleFrom false .none text.toList)

end CellAlign.Text
