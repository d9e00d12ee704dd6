/-!
# Blank characters, words and trimming

Two sets of separators matter to this library: the characters with the Unicode property
White_Space, at which a `class` attribute is split when markup is read, and the five characters
that HTML itself takes for space.  A text is looked at as the list of its characters; `words` cuts
it into maximal runs without separators and `trim` removes separators at both ends.  Texts are put
together again by `join`, with a text between neighbours and nothing at the ends.

* `isBlank_of_isSpace`: HTML's space characters are among the White_Space ones.
-/

namespace CellAlign.Text

/-- The characters with the Unicode property White_Space. -/
def isBlank (c : Char) : Bool :=
  let n := c.toNat
  (9 ≤ n && n ≤ 13) || n == 0x20 || n == 0x85 || n == 0xA0 || n == 0x1680 ||
    (0x2000 ≤ n && n ≤ 0x200A) || n == 0x2028 || n == 0x2029 || n == 0x202F || n == 0x205F ||
    n == 0x3000

/-- The five characters that HTML takes for space: tab, line feed, form feed, carriage return and
the space itself. -/
def isSpace (c : Char) : Bool :=
  c == '\t' || c == '\n' || c == '\x0c' || c == '\r' || c == ' '

/-- HTML's space characters are blank. -/
theorem isBlank_of_isSpace {c : Char} (h : isSpace c = true) : isBlank c = true := by
  simp only [isSpace, Bool.or_eq_true, beq_iff_eq] at h
  rcases h with (((h | h) | h) | h) | h <;> subst h <;> decide

/-- The maximal runs of characters that are no separators, from left to right. -/
def words (sep : Char → Bool) : List Char → List (List Char)
  | [] => []
  | c :: rest =>
    if sep c then words sep rest
    else
      match rest with
      | [] => [[c]]
      | d :: _ =>
        if sep d then [c] :: words sep rest
        else
          match words sep rest with
          | word :: more => (c :: word) :: more
          | [] => [[c]]

/-- Removes the characters of a set at both ends. -/
def trim (blank : Char → Bool) (text : List Char) : List Char :=
  ((text.dropWhile blank).reverse.dropWhile blank).reverse

/-- The blank-separated words of a text. -/
def blankWords (text : String) : List String :=
  (words isBlank text.toList).map String.ofList

/-- The texts one after the other with `sep` between neighbours. -/
def join (sep : String) : List String → String
  | [] => ""
  | [text] => text
  | text :: next :: more => text ++ sep ++ join sep (next :: more)

/-- What is left of `text` once blanks and byte order marks are removed at both ends. -/
def trimBlank (text : String) : String :=
  String.ofList (trim (fun c => isBlank c || c == '\uFEFF') text.toList)

end CellAlign.Text
