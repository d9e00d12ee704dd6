import CellAlign.Markup.Render
import CellAlign.Proofs.Text.Utf8

/-!
# The two stacks of writing HTML

A tree is told to a serializer from one stack, and the serializer of HTML keeps another.  The HTML
of a tree by recursion needs neither: it knows the element around a node and whether a void element
encloses it, and says in full what is written there.

* `Node.html`: the HTML of a tree by recursion;
* `html_element`, `html_text`: the serializer writes the same tags and texts;
* `tell?_eq_foldlM`: whatever the serializer, telling what is pending is telling the calls of the
  trees one after the other, so that the first stack only puts the calls in their order;
* `bracketed_calls`: every start has its own end, with the same tag;
* `foldlM_calls`: the serializer takes all calls of a tree, writes the HTML of the tree for the
  place reached, and has the same elements open as before;
* `toHtml_renders_tree`: the HTML of a tree is that of the recursion.
-/

namespace CellAlign

/-! ## HTML by recursion -/

namespace Markup

/-- The elements that end with their start tag: those in use, and those that no longer are. -/
def tagsWithoutEnd : List String :=
  ["area", "base", "br", "col", "embed", "hr", "img", "input", "link", "meta", "source", "track",
    "wbr"] ++ ["basefont", "bgsound", "frame", "keygen", "param"]

/-- The elements whose text is no markup, so that nothing in it can be taken for markup. -/
def tagsOfRawText : List String :=
  ["script", "style", "xmp", "iframe", "noembed", "noframes", "plaintext", "noscript"]

/-- What stands in a text for the characters that cannot stand there themselves. -/
def textReferences : List (Char × String) :=
  [('&', "&amp;"), ('<', "&lt;"), ('>', "&gt;"), ('\u00A0', "&nbsp;")]

/-- What stands in the value of an attribute for the characters that cannot stand there. -/
def valueReferences : List (Char × String) :=
  [('&', "&amp;"), ('"', "&quot;"), ('\u00A0', "&nbsp;")]

/-- A text with references for the characters that have one. -/
def refer (references : List (Char × String)) (text : String) : String :=
  String.join (text.toList.map fun c => (references.lookup c).getD (String.singleton c))

/-- An attribute in a start tag, with the blank in front of it. -/
def attributeHtml : String × String → String
  | (name, value) => " " ++ name ++ "=\"" ++ refer valueReferences value ++ "\""

/-- Where a node stands: the tag of the nearest element around it and whether a void element
encloses it. -/
structure Context where
  parent : Option String := none
  inVoid : Bool := false

end Markup

open Markup

namespace Node

mutual

/-- The HTML of a node in its context. -/
def html (context : Context) : Node → String
  | .root children => htmlList context children
  | .element tag properties children =>
    -- Below a void element there are no tags, but what stands between them is still written.
    if context.inVoid then htmlList { parent := some tag, inVoid := true } children
    else
      "<" ++ tag ++
        String.join (((properties.map Properties.attributes).getD []).map attributeHtml) ++ ">" ++
        htmlList { parent := some tag, inVoid := tag ∈ tagsWithoutEnd } children ++
        (if tag ∈ tagsWithoutEnd then "" else "</" ++ tag ++ ">")
  | .text value =>
    if ∃ tag ∈ context.parent, tag ∈ tagsOfRawText then value else refer textReferences value
  | .comment value => "<!--" ++ value ++ "-->"
  | .doctype => "<!DOCTYPE html>"

/-- The HTML of the nodes of a list in their context. -/
def htmlList (context : Context) : List Node → String
  | [] => ""
  | node :: nodes => node.html context ++ htmlList context nodes

end

end Node

/-! ## Tags and texts -/

namespace Markup

/-- The serializer has the same void elements. -/
theorem isVoid_iff {tag : String} : isVoid tag = true ↔ tag ∈ tagsWithoutEnd := by
  have hperm : voidTags.Perm tagsWithoutEnd := by decide
  rw [isVoid, List.contains_iff_mem, hperm.mem_iff]

/-- The serializer has the same elements of raw text. -/
theorem isRaw_iff {tag : String} : isRaw tag = true ↔ tag ∈ tagsOfRawText := by
  have hperm : rawTags.Perm tagsOfRawText := by decide
  rw [isRaw, List.contains_iff_mem, hperm.mem_iff]

/-- A text is escaped as its characters are. -/
theorem ofList_flatMap_eq_refer {escape : Char → List Char} {references : List (Char × String)}
    (h : ∀ c, String.ofList (escape c) = (references.lookup c).getD (String.singleton c))
    (text : String) : String.ofList (text.toList.flatMap escape) = refer references text := by
  rw [refer]
  induction text.toList with
  | nil => rfl
  | cons c chars ih =>
      rw [List.flatMap_cons, String.ofList_append, h, ih, List.map_cons, String.join_cons]

/-- The serializer writes the same references in a text. -/
theorem escapeText_eq_refer (text : String) : escapeText text = refer textReferences text := by
  refine ofList_flatMap_eq_refer (fun c => ?_) text
  by_cases hamp : c = '&'
  · subst hamp
    rfl
  by_cases hspace : c = '\u00A0'
  · subst hspace
    rfl
  by_cases hless : c = '<'
  · subst hless
    rfl
  by_cases hgreater : c = '>'
  · subst hgreater
    rfl
  · rw [String.singleton_eq_ofList]
    simp [escapeTextChar, textReferences, List.lookup_cons, beq_false_of_ne, hamp, hspace, hless,
      hgreater]

/-- The serializer writes the same references in the value of an attribute. -/
theorem escapeValue_eq_refer (text : String) : escapeValue text = refer valueReferences text := by
  refine ofList_flatMap_eq_refer (fun c => ?_) text
  by_cases hamp : c = '&'
  · subst hamp
    rfl
  by_cases hspace : c = '\u00A0'
  · subst hspace
    rfl
  by_cases hquote : c = '"'
  · subst hquote
    rfl
  · rw [String.singleton_eq_ofList]
    simp [escapeValueChar, valueReferences, List.lookup_cons, beq_false_of_ne, hamp, hspace,
      hquote]

/-- The serializer writes the same start tags. -/
theorem startTag_eq (tag : String) (attributes : List (String × String)) :
    startTag tag attributes =
      "<" ++ tag ++ String.join (attributes.map attributeHtml) ++ ">" := by
  have hattributes : attributesText attributes = String.join (attributes.map attributeHtml) := by
    induction attributes with
    | nil => rfl
    | cons a attributes ih =>
        rw [attributesText, List.map_cons, String.join_cons, attributeHtml, ih,
          escapeValue_eq_refer]
  rw [startTag, hattributes]

end Markup

namespace Node

variable (context : Context)

/-- An element is written in the tags of the serializer. -/
theorem html_element (tag : String) (properties : Option Properties) (children : List Node) :
    (element tag properties children).html context =
      if context.inVoid then htmlList { parent := some tag, inVoid := true } children
      else
        startTag tag ((properties.map Properties.attributes).getD []) ++
          htmlList { parent := some tag, inVoid := isVoid tag } children ++
          (if isVoid tag then "" else endTag tag) := by
  have hvoid : decide (tag ∈ tagsWithoutEnd) = isVoid tag := by
    rw [Bool.eq_iff_iff, decide_eq_true_iff, isVoid_iff]
  rw [html, hvoid, startTag_eq]
  simp only [isVoid_iff, endTag]

/-- A text is written as the serializer writes it. -/
theorem html_text (value : String) :
    (text value).html context =
      if context.parent.any isRaw then value else escapeText value := by
  have hraw : context.parent.any isRaw = true ↔ ∃ tag ∈ context.parent, tag ∈ tagsOfRawText := by
    simp only [Option.any_eq_true, isRaw_iff]
    rfl
  rw [html, escapeText_eq_refer]
  simp only [hraw]

/-- A comment is written as the serializer writes it. -/
theorem html_comment (value : String) : (comment value).html context = commentText value := by
  rw [html, commentText]

/-- A document type is written as the serializer writes it. -/
theorem html_doctype : doctype.html context = doctypeText "html" := by
  rw [html, doctypeText]
  rfl

end Node

namespace Markup

/-! ## Calls -/

/-- The calls for something pending. -/
def Pending.calls : Pending → List Call
  | opening node => node.calls
  | closing tag => [.finish tag]

/-- The calls for opening the nodes of a list. -/
theorem flatMap_openings (nodes : List Node) :
    (openings nodes).flatMap Pending.calls = Node.callsList nodes := by
  induction nodes with
  | nil => rfl
  | cons node nodes ih =>
      rw [openings, List.map_cons, List.flatMap_cons, ← openings, ih]
      rfl

/-- Telling what is pending is telling its calls one after the other. -/
theorem tell?_eq_foldlM {σ : Type} (take? : σ → Call → Option σ) (state : σ)
    (pending : List Pending) :
    tell? take? state pending = (pending.flatMap Pending.calls).foldlM take? state := by
  fun_induction tell? take? state pending with
  | case1 state => rfl
  | case4 state children pending ih =>
      rw [ih, List.flatMap_append, flatMap_openings]
      rfl
  | case5 state tag properties children pending next htake ih =>
      rw [ih, List.flatMap_append, flatMap_openings]
      simp [Pending.calls, Node.calls, htake]
  | case2 | case7 | case9 | case11 => simp_all [Pending.calls, Node.calls]
  | case3 | case6 | case8 | case10 | case12 => simp_all [Pending.calls, Node.calls]

/-! ## Starts and ends -/

/-- Calls in which each start has an end of the same tag, with nothing left open in between. -/
inductive Bracketed : List Call → Prop
  | nil : Bracketed []
  | text (value : String) {calls} (rest : Bracketed calls) : Bracketed (.text value :: calls)
  | comment (value : String) {calls} (rest : Bracketed calls) : Bracketed (.comment value :: calls)
  | doctype (name : String) {calls} (rest : Bracketed calls) : Bracketed (.doctype name :: calls)
  | element (tag : String) (attributes : List (String × String)) {inner calls}
      (inside : Bracketed inner) (rest : Bracketed calls) :
      Bracketed (.start tag attributes :: inner ++ .finish tag :: calls)

/-- Bracketed calls behind bracketed calls are bracketed. -/
theorem Bracketed.append {a b : List Call} (ha : Bracketed a) (hb : Bracketed b) :
    Bracketed (a ++ b) := by
  induction ha with
  | nil => exact hb
  | text value _ ih => exact .text value ih
  | comment value _ ih => exact .comment value ih
  | doctype name _ ih => exact .doctype name ih
  | element tag attributes inside _ _ ih =>
      have h := Bracketed.element tag attributes inside ih
      simpa using h

mutual

/-- The calls of a tree are bracketed. -/
theorem bracketed_calls : (node : Node) → Bracketed node.calls
  | .root children => bracketed_callsList children
  | .element _ _ children => .element _ _ (bracketed_callsList children) .nil
  | .text value => .text value .nil
  | .comment value => .comment value .nil
  | .doctype => .doctype "html" .nil

/-- The calls of a row of trees are bracketed. -/
theorem bracketed_callsList : (nodes : List Node) → Bracketed (Node.callsList nodes)
  | [] => .nil
  | node :: nodes => (bracketed_calls node).append (bracketed_callsList nodes)

end

/-! ## What is written -/

/-- The place inside an open element, as the recursion over the tree knows it. -/
def Open.context (inner : Open) : Context := { parent := inner.tag, inVoid := inner.silent }

namespace Serializer

variable (serializer : Serializer)

/-- Nothing is written of an empty text. -/
@[simp]
theorem write_empty : serializer.write "" = serializer := by
  simp [write]

/-- Two texts are written like one. -/
@[simp]
theorem write_write (a b : String) :
    (serializer.write a).write b = serializer.write (a ++ b) := by
  simp [write, String.toByteArray_append, ByteArray.append_assoc]

variable {serializer} {inner : Open} {outer : List Open}

/-- The start of an element is written unless the element around it is silent. -/
theorem take?_start (h : serializer.around = inner :: outer) (tag : String)
    (attributes : List (String × String)) :
    serializer.take? (.start tag attributes) =
      if inner.silent then some (serializer.enter ⟨tag, true⟩)
      else some ((serializer.write (startTag tag attributes)).enter ⟨tag, isVoid tag⟩) := by
  simp [take?, h]

variable (serializer) in
/-- The end of the element opened last is written unless it is silent, and what was open before it
is open again. -/
theorem take?_finish (opened : Open) (tag text : String) :
    ((serializer.enter opened).write text).take? (.finish tag) =
      some (serializer.write (text ++ if opened.silent then "" else endTag tag)) := by
  cases h : opened.silent <;>
    simp [take?, enter, write, h, String.toByteArray_append, ByteArray.append_assoc]

end Serializer

mutual

/-- A serializer takes the calls of a tree: it writes the HTML of the tree for the place reached,
and what was open stays open. -/
theorem foldlM_calls : (node : Node) → (serializer : Serializer) → (inner : Open) →
    (outer : List Open) → serializer.around = inner :: outer →
    node.calls.foldlM Serializer.take? serializer =
      some (serializer.write (node.html inner.context))
  | .root children, serializer, inner, outer, h => by
      rw [Node.calls, Node.html]
      exact foldlM_callsList children serializer inner outer h
  | .element tag properties children, serializer, inner, outer, h => by
      -- Inside the element the serializer goes on with the element on top of what was open; its end
      -- takes it off again.
      have hinside : ∀ (before : Serializer) (silent : Bool),
          ((Node.callsList children ++ [Call.finish tag]).foldlM Serializer.take?
            (before.enter ⟨tag, silent⟩)) =
          some (before.write (Node.htmlList ⟨tag, silent⟩ children ++
            if silent then "" else endTag tag)) := by
        intro before silent
        rw [List.foldlM_append, foldlM_callsList children _ ⟨tag, silent⟩ before.around rfl]
        simp only [Option.bind_eq_bind, Option.bind_some, List.foldlM_cons, List.foldlM_nil,
          Serializer.take?_finish]
        rfl
      rw [Node.calls, Node.html_element, List.cons_append, List.foldlM_cons, Call.ofElement,
        Serializer.take?_start h]
      cases hsilent : inner.silent with
      | true => simp [hinside, Open.context, hsilent, -List.foldlM_append]
      | false =>
          simp [hinside, Open.context, hsilent, String.append_assoc, -List.foldlM_append]
  | .text value, serializer, inner, outer, h => by
      simp only [Node.calls, List.foldlM_cons, Serializer.take?, h, Node.html_text]
      rfl
  | .comment value, serializer, inner, outer, h => by
      simp [Node.calls, Node.html_comment, Serializer.take?]
  | .doctype, serializer, inner, outer, h => by
      simp [Node.calls, Node.html_doctype, Serializer.take?]

/-- A serializer takes the calls of a row of trees. -/
theorem foldlM_callsList : (nodes : List Node) → (serializer : Serializer) → (inner : Open) →
    (outer : List Open) → serializer.around = inner :: outer →
    (Node.callsList nodes).foldlM Serializer.take? serializer =
      some (serializer.write (Node.htmlList inner.context nodes))
  | [], serializer, inner, outer, h => by simp [Node.callsList, Node.htmlList]
  | node :: nodes, serializer, inner, outer, h => by
      rw [Node.callsList, Node.htmlList, List.foldlM_append,
        foldlM_calls node serializer inner outer h]
      simp only [Option.bind_eq_bind, Option.bind_some]
      rw [foldlM_callsList nodes (serializer.write _) inner outer h, Serializer.write_write]

end

end CellAlign.Markup

namespace CellAlign

open Markup

/-- A tree is told to any serializer by its calls. -/
theorem Node.tell?_eq_foldlM_calls (node : Node) {σ : Type} (take? : σ → Call → Option σ)
    (state : σ) : tell? take? state [.opening node] = node.calls.foldlM take? state := by
  rw [Markup.tell?_eq_foldlM]
  simp [Pending.calls]

/-- The bytes of a tree are those of its text by recursion. -/
theorem Node.htmlBytes?_eq (node : Node) : node.htmlBytes? = some (node.html {}).toUTF8 := by
  rw [htmlBytes?, tell?_eq_foldlM_calls, foldlM_calls node {} ⟨none, false⟩ [] rfl]
  simp [Serializer.write, Open.context]

/-- The HTML of a tree is its text by recursion. -/
theorem Node.toHtml_eq_html (node : Node) : node.toHtml = node.html {} := by
  rw [toHtml, htmlBytes?_eq, Option.getD_some, Text.Utf8.decode_toUTF8]

/-- A tree is told to any serializer by its calls, which are bracketed; the serializer of HTML never
lacks an open element and writes the bytes of the text that the recursion gives; and these bytes are
read back as that text. -/
theorem toHtml_renders_tree (node : Node) :
    (∀ {σ : Type} (take? : σ → Call → Option σ) (state : σ),
      tell? take? state [.opening node] = node.calls.foldlM take? state) ∧
      Bracketed node.calls ∧
      node.htmlBytes? = some (node.html {}).toUTF8 ∧
      node.toHtml = node.html {} :=
  ⟨fun take? state => node.tell?_eq_foldlM_calls take? state, bracketed_calls node,
    node.htmlBytes?_eq, node.toHtml_eq_html⟩

end CellAlign
