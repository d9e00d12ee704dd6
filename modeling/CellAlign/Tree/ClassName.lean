import CellAlign.Text.Blank

/-!
# Class names

The class of an element is kept in the shape it was given: not at all, as one token, or as a list
of tokens.  One token is never split, even if it holds blanks.
-/

namespace CellAlign

/-- The class of an element. -/
inductive ClassName where
  | absent
  | single (token : String)
  | list (tokens : List String)
deriving DecidableEq

namespace ClassName

/-- Whether the element has no class at all; an empty list is a class. -/
def isAbsent : ClassName → Bool
  | absent => true
  | _ => false

/-- The tokens from first to last. -/
def tokens : ClassName → List String
  | absent => []
  | single token => [token]
  | list tokens => tokens

/-- Appends a token, which always leaves a list. -/
def push (class_ : ClassName) (token : String) : ClassName := .list (class_.tokens ++ [token])

/-- The tokens after a push are those before it and the new one. -/
@[simp]
theorem tokens_push (class_ : ClassName) (token : String) :
    (class_.push token).tokens = class_.tokens ++ [token] := rfl

/-- The class given by the text of a `class` attribute: its blank-separated words. -/
def ofAttribute (text : String) : ClassName := .list (Text.blankWords text)

end ClassName

end CellAlign
