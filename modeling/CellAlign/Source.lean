import CellAlign.Markup.Construction
import CellAlign.Options.Reader
import CellAlign.Tree.Reader

/-!
# Trees and options from texts

A tree is read from JSON, from an HTML document or from an HTML fragment.  Any text is HTML, so only
JSON can fail.  A document becomes a root with the nodes of the document, doctype and comments
around the root element included; a fragment becomes a root with the nodes of the fragment.

What a caller can do wrong is to hand in a text that is no JSON of the expected shape, or to name a
method that does not exist.
-/

namespace CellAlign

open Markup

/-! ## Errors -/

/-- The errors of the library. -/
inductive Error where
  | json (fault : Json.Fault)
  | unknownMethod (name : String)

/-- The message of an error. -/
def Error.message : Error → String
  | json fault => "invalid json: " ++ fault.message
  | unknownMethod name =>
    "unknown alignment method `" ++ name ++ "` (expected `style` or `class`)"

/-- The method of a name, or the error that there is none. -/
def Method.ofName (name : String) : Except Error Method :=
  match Method.ofName? name with
  | some method => .ok method
  | none => .error (.unknownMethod name)

/-! ## Texts -/

/-- The tree of a document. -/
def Node.ofDocument (text : String) : Node :=
  let parsed := parseDocument text
  .root (parsed.draft.nodesBelow parsed.top)

/-- The tree of a fragment. -/
def Node.ofFragment (text : String) : Node :=
  let parsed := parseFragment text
  .root ((parsed.rootElement?.map parsed.draft.nodesBelow).getD [])

/-- The forms a tree is read from. -/
inductive Format where
  | json
  | document
  | fragment
deriving DecidableEq

/-- The tree of a text. -/
def Node.ofText (format : Format) (text : String) : Except Error Node :=
  match format with
  | .json =>
    match Node.ofJson text with
    | .ok node => .ok node
    | .error fault => .error (.json fault)
  | .document => .ok (Node.ofDocument text)
  | .fragment => .ok (Node.ofFragment text)

/-- The options of a JSON text, or the default ones without a text. -/
def Options.ofText (text : Option String) : Except Error Options :=
  match text with
  | none => .ok {}
  | some text =>
    match Options.ofJson text with
    | .ok options => .ok options
    | .error fault => .error (.json fault)

end CellAlign
