/-!
# Tokens of markup

Markup is read as a sequence of tokens.  Runs of text come in two kinds, white space and other text,
because many rules treat the two differently; the character of code zero is a token of its own.
-/

namespace CellAlign.Markup

/-- A start tag; the names of tag and attributes are in lower case, and no attribute is repeated. -/
structure Tag where
  name : String
  attributes : List (String × String) := []
  selfClosing : Bool := false

/-- A document type declaration; `broken` ones end too early or hold something unexpected. -/
structure Doctype where
  name : Option String := none
  publicId : Option String := none
  systemId : Option String := none
  broken : Bool := false

/-- A token. -/
inductive Token where
  | startTag (tag : Tag)
  | endTag (name : String)
  | comment (text : String)
  | doctype (doctype : Doctype)
  | space (run : String)
  | text (run : String)
  | zero
  | nothing
  | finish

/-- How the text at a place is to be read: as markup, as the text of an element that ends with the
end tag of that element (with or without character references), as a script, or as plain text up to
the end. -/
inductive Region where
  | markup
  | escapable (name : String)
  | raw (name : String)
  | script
  | plain
deriving DecidableEq

end CellAlign.Markup
