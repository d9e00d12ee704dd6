import CellAlign.Text.Utf8
import CellAlign.Tree.Node

/-!
# Trees as HTML

A tree is told to a serializer call by call: where an element starts and ends, and each text, comment
and document type in between.  The calls come from a stack of what is still to be told, nodes to be
opened and elements to be closed; any serializer can be told a tree in this way (`tell?`).

The serializer of HTML writes bytes and keeps a stack of its own, the elements that are open around
the place reached.  Void elements have no end tag, and elements below them are not written at all,
while the texts and comments below them are.  Text directly inside an element of raw text is not
escaped.

* `tell?` tells a serializer what is pending;
* `Serializer.take?` is the serializer of HTML;
* `Node.toHtml` is the text that it writes of a tree, and `Node.calls` are its calls by recursion.
-/

namespace CellAlign.Markup

/-- The elements without contents and without end tag. -/
def voidTags : List String :=
  ["area", "base", "basefont", "bgsound", "br", "col", "embed", "frame", "hr", "img", "input",
    "keygen", "link", "meta", "param", "source", "track", "wbr"]

/-- The elements whose text is not escaped. -/
def rawTags : List String :=
  ["style", "script", "xmp", "iframe", "noembed", "noframes", "plaintext", "noscript"]

/-- Whether a tag is one of a void element. -/
def isVoid (tag : String) : Bool := voidTags.contains tag

/-- Whether a tag is one of an element of raw text. -/
def isRaw (tag : String) : Bool := rawTags.contains tag

/-- A character of a text. -/
def escapeTextChar (c : Char) : List Char :=
  if c = '&' then ['&', 'a', 'm', 'p', ';']
  else if c = '\u00A0' then ['&', 'n', 'b', 's', 'p', ';']
  else if c = '<' then ['&', 'l', 't', ';']
  else if c = '>' then ['&', 'g', 't', ';']
  else [c]

/-- A character of the value of an attribute. -/
def escapeValueChar (c : Char) : List Char :=
  if c = '&' then ['&', 'a', 'm', 'p', ';']
  else if c = '\u00A0' then ['&', 'n', 'b', 's', 'p', ';']
  else if c = '"' then ['&', 'q', 'u', 'o', 't', ';']
  else [c]

/-- A text with its special characters escaped. -/
def escapeText (text : String) : String := String.ofList (text.toList.flatMap escapeTextChar)

/-- The value of an attribute with its special characters escaped. -/
def escapeValue (text : String) : String := String.ofList (text.toList.flatMap escapeValueChar)

/-- Attributes in a start tag. -/
def attributesText : List (String × String) → String
  | [] => ""
  | (name, value) :: more =>
    " " ++ name ++ "=\"" ++ escapeValue value ++ "\"" ++ attributesText more

/-- A start tag. -/
def startTag (tag : String) (attributes : List (String × String)) : String :=
  "<" ++ tag ++ attributesText attributes ++ ">"

/-- An end tag. -/
def endTag (tag : String) : String := "</" ++ tag ++ ">"

/-- A comment. -/
def commentText (value : String) : String := "<!--" ++ value ++ "-->"

/-- A document type. -/
def doctypeText (name : String) : String := "<!DOCTYPE " ++ name ++ ">"

/-! ## Telling a tree -/

/-- What a serializer is told. -/
inductive Call where
  | start (tag : String) (attributes : List (String × String))
  | finish (tag : String)
  | text (value : String)
  | comment (value : String)
  | doctype (name : String)

/-- The start of an element. -/
def Call.ofElement (tag : String) (properties : Option Properties) : Call :=
  .start tag ((properties.map Properties.attributes).getD [])

/-- What is still to be told. -/
inductive Pending where
  | opening (node : Node)
  | closing (tag : String)

/-- How much work something pending is. -/
def Pending.work : Pending → Nat
  | opening node => 2 * node.size
  | closing _ => 1

/-- The nodes of a list, to be opened one after the other. -/
def openings (nodes : List Node) : List Pending := nodes.map .opening

/-- How much work the things pending on a list are. -/
def workOf : List Pending → Nat
  | [] => 0
  | first :: pending => first.work + workOf pending

/-- Opening the nodes of a list is twice as much work as there are nodes. -/
theorem workOf_openings (nodes : List Node) (pending : List Pending) :
    workOf (openings nodes ++ pending) = 2 * Node.sizeList nodes + workOf pending := by
  induction nodes with
  | nil => simp [openings, Node.sizeList]
  | cons node nodes ih =>
    rw [show openings (node :: nodes) = .opening node :: openings nodes from rfl, List.cons_append,
      workOf, ih, Pending.work, Node.sizeList]
    omega

/-- Tells a serializer what is pending.  There is no answer if a call has none. -/
def tell? {σ : Type} (take? : σ → Call → Option σ) (state : σ) (pending : List Pending) :
    Option σ :=
  match pending with
  | [] => some state
  | .closing tag :: pending =>
    match take? state (.finish tag) with
    | some state => tell? take? state pending
    | none => none
  | .opening (.root children) :: pending => tell? take? state (openings children ++ pending)
  | .opening (.element tag properties children) :: pending =>
    match take? state (.ofElement tag properties) with
    | some state => tell? take? state (openings children ++ .closing tag :: pending)
    | none => none
  | .opening (.text value) :: pending =>
    match take? state (.text value) with
    | some state => tell? take? state pending
    | none => none
  | .opening (.comment value) :: pending =>
    match take? state (.comment value) with
    | some state => tell? take? state pending
    | none => none
  | .opening .doctype :: pending =>
    match take? state (.doctype "html") with
    | some state => tell? take? state pending
    | none => none
termination_by workOf pending
decreasing_by
  all_goals
    simp [workOf_openings, workOf, Pending.work, Node.size]
    try omega

/-! ## Writing HTML -/

/-- An element open around the place reached, and whether it keeps its children from being
written.  At the bottom of all is one without a tag, for what is around the tree. -/
structure Open where
  tag : Option String
  silent : Bool

/-- What has been written, and the elements open around the place reached, innermost first. -/
structure Serializer where
  out : ByteArray := .empty
  around : List Open := [{ tag := none, silent := false }]

namespace Serializer

/-- Writes a text. -/
def write (serializer : Serializer) (text : String) : Serializer :=
  { out := serializer.out ++ text.toUTF8, around := serializer.around }

/-- Opens an element. -/
def enter (serializer : Serializer) (opened : Open) : Serializer :=
  { out := serializer.out, around := opened :: serializer.around }

/-- A text inside an element. -/
def textIn (inner : Open) (value : String) : String :=
  if inner.tag.any isRaw then value else escapeText value

/-- Takes a call.  There is no answer if nothing is open around the place reached. -/
def take? (serializer : Serializer) (call : Call) : Option Serializer :=
  match call, serializer.around with
  | .start _ _, [] => none
  | .start tag attributes, inner :: _ =>
    if inner.silent then some (serializer.enter { tag, silent := true })
    else
      some ((serializer.write (startTag tag attributes)).enter { tag, silent := isVoid tag })
  | .finish _, [] => none
  | .finish tag, inner :: outer =>
    let left := { serializer with around := outer }
    if inner.silent then some left else some (left.write (endTag tag))
  | .text _, [] => none
  | .text value, inner :: _ => some (serializer.write (textIn inner value))
  | .comment value, _ => some (serializer.write (commentText value))
  | .doctype name, _ => some (serializer.write (doctypeText name))

end Serializer

end CellAlign.Markup

namespace CellAlign

open Markup

namespace Node

/-- The bytes of a tree as HTML.  There are none if the serializer has no answer. -/
def htmlBytes? (node : Node) : Option ByteArray :=
  (tell? Serializer.take? {} [.opening node]).map (·.out)

/-- The tree as HTML. -/
def toHtml (node : Node) : String := Text.Utf8.decode (node.htmlBytes?.getD .empty)

mutual

/-- What a serializer is told of a tree. -/
def calls : Node → List Call
  | .root children => callsList children
  | .element tag properties children =>
    .ofElement tag properties :: callsList children ++ [.finish tag]
  | .text value => [.text value]
  | .comment value => [.comment value]
  | .doctype => [.doctype "html"]

/-- What a serializer is told of the trees of a list. -/
def callsList : List Node → List Call
  | [] => []
  | node :: nodes => node.calls ++ callsList nodes

end

end Node

end CellAlign
