import CellAlign.Proofs.Markup.Playback
import CellAlign.Proofs.Markup.Serializing

/-!
# Texts of parsed markup, written again

The characters of a text that could be taken for markup are escaped where it is written, but inside
an element of raw text.  Of parsed markup only the local names of elements are kept, so an element
is taken for one of raw text by its local name, whatever its namespace.  The HTML of parsed markup
is cut into pieces here, among which are all its texts, and the pieces are compared with those in
which only the elements of HTML are of raw text.

* `length_lt_escapeText`: where a character is escaped, more is written;
* `htmlList_convertList`: the HTML of what parsed markup becomes, piece by piece;
* `texts_of_pieces`: the texts among the pieces;
* `Tree.toHtml_escapes_texts_iff`: when all texts outside of HTML are escaped.
-/

namespace CellAlign.Markup

/-! ## Escaped characters -/

/-- The characters that are escaped in a text. -/
def specials : List Char := ['&', '\u00A0', '<', '>']

/-- A character that is escaped is written as several, any other as itself. -/
theorem escapeTextChar_eq (c : Char) :
    (c ∈ specials ∧ 1 < (escapeTextChar c).length) ∨ (c ∉ specials ∧ escapeTextChar c = [c]) := by
  unfold escapeTextChar
  by_cases hamp : c = '&'
  · subst hamp
    decide
  by_cases hspace : c = '\u00A0'
  · subst hspace
    decide
  by_cases hless : c = '<'
  · subst hless
    decide
  by_cases hgreater : c = '>'
  · subst hgreater
    decide
  · right
    simp [specials, hamp, hspace, hless, hgreater]

/-- No angle bracket is written for a character of a text. -/
theorem not_mem_escapeTextChar (c : Char) : '<' ∉ escapeTextChar c ∧ '>' ∉ escapeTextChar c := by
  unfold escapeTextChar
  split
  · decide
  · split
    · decide
    · split
      · decide
      · split
        · decide
        · next hless hgreater =>
          simp [Ne.symm hless, Ne.symm hgreater]

/-- No angle bracket is written of a text that is escaped. -/
theorem not_mem_escapeText (value : String) :
    '<' ∉ (escapeText value).toList ∧ '>' ∉ (escapeText value).toList := by
  rw [escapeText, String.toList_ofList]
  constructor
  · intro h
    obtain ⟨c, -, hc⟩ := List.mem_flatMap.mp h
    exact (not_mem_escapeTextChar c).1 hc
  · intro h
    obtain ⟨c, -, hc⟩ := List.mem_flatMap.mp h
    exact (not_mem_escapeTextChar c).2 hc

/-- Escaping leaves nothing out. -/
theorem length_le_flatMap_escapeTextChar (chars : List Char) :
    chars.length ≤ (chars.flatMap escapeTextChar).length := by
  induction chars with
  | nil => exact Nat.le_refl 0
  | cons c chars ih =>
      have hc : 1 ≤ (escapeTextChar c).length := by
        rcases escapeTextChar_eq c with ⟨-, hlength⟩ | ⟨-, heq⟩
        · omega
        · rw [heq]
          exact Nat.le_refl 1
      rw [List.flatMap_cons, List.length_cons, List.length_append]
      omega

/-- Where a character of a text is escaped, more is written than the text. -/
theorem length_lt_escapeText {value : String} {c : Char} (h : c ∈ value.toList)
    (hc : c ∈ specials) : value.length < (escapeText value).length := by
  obtain ⟨before, after, hsplit⟩ := List.append_of_mem h
  have hlonger : 1 < (escapeTextChar c).length := by
    rcases escapeTextChar_eq c with ⟨-, hlength⟩ | ⟨hplain, -⟩
    · exact hlength
    · exact absurd hc hplain
  have hbefore := length_le_flatMap_escapeTextChar before
  have hafter := length_le_flatMap_escapeTextChar after
  rw [escapeText, String.length_ofList, ← String.length_toList, hsplit, List.flatMap_append,
    List.flatMap_cons]
  simp only [List.length_append, List.length_cons]
  omega

/-- A text without characters to escape is written as it is. -/
theorem escapeText_eq_self {value : String} (h : ∀ c ∈ value.toList, c ∉ specials) :
    escapeText value = value := by
  have hchars : value.toList.flatMap escapeTextChar = value.toList := by
    generalize value.toList = chars at h
    induction chars with
    | nil => rfl
    | cons c chars ih =>
        obtain ⟨hc, hrest⟩ := List.forall_mem_cons.mp h
        rw [List.flatMap_cons, ih hrest]
        rcases escapeTextChar_eq c with ⟨hspecial, -⟩ | ⟨-, heq⟩
        · exact absurd hspecial hc
        · rw [heq]
          rfl
  rw [escapeText, hchars, String.ofList_toList]

/-! ## Pieces of written markup -/

/-- A piece of written markup: a tag, a comment, a document type, or a text with the name of the
innermost element around it. -/
inductive Piece where
  | start (tag : String) (attributes : List (String × String))
  | finish (tag : String)
  | comment (value : String)
  | doctype
  | text (parent : Option Name) (value : String)

/-- A piece as it is written, if the elements of some names are of raw text. -/
def Piece.written (raw : Name → Bool) : Piece → String
  | start tag attributes => startTag tag attributes
  | finish tag => endTag tag
  | comment value => commentText value
  | doctype => doctypeText "html"
  | text parent value => if parent.any raw then value else escapeText value

/-- A text with the name of the innermost element around it, if a piece is one. -/
def Piece.text? : Piece → Option (Option Name × String)
  | text parent value => some (parent, value)
  | _ => none

/-- Pieces as they are written one after the other. -/
def writePieces (raw : Name → Bool) (pieces : List Piece) : String :=
  String.join (pieces.map (Piece.written raw))

/-- Nothing is written of no pieces. -/
@[simp]
theorem writePieces_nil (raw : Name → Bool) : writePieces raw [] = "" := rfl

/-- The first piece is written in front of the others. -/
@[simp]
theorem writePieces_cons (raw : Name → Bool) (piece : Piece) (pieces : List Piece) :
    writePieces raw (piece :: pieces) = piece.written raw ++ writePieces raw pieces := by
  rw [writePieces, List.map_cons, String.join_cons]
  rfl

/-- Pieces of two rows are written one row after the other. -/
theorem writePieces_append (raw : Name → Bool) (before behind : List Piece) :
    writePieces raw (before ++ behind) = writePieces raw before ++ writePieces raw behind := by
  rw [writePieces, List.map_append, String.join_append]
  rfl

/-- The elements that are taken for elements of raw text, whatever their namespaces. -/
def rawByLocalName (name : Name) : Bool := isRaw name.localName

/-- The elements of HTML that are of raw text. -/
def rawInHtml (name : Name) : Bool := name.isHtmlIn rawTags

/-- A text has characters to escape and stands in an element that is taken for one of raw text, but
is none of HTML. -/
def Exposed (parent : Option Name) (value : String) : Prop :=
  ∃ name ∈ parent, isRaw name.localName = true ∧ name.space ≠ .html ∧
    ∃ c ∈ value.toList, c ∈ specials

/-- What is of raw text in HTML is of raw text by its local name. -/
theorem rawInHtml_iff {name : Name} :
    rawInHtml name = true ↔ name.space = .html ∧ rawByLocalName name = true := by
  simp [rawInHtml, Name.isHtmlIn, rawByLocalName, isRaw]

namespace Piece

variable {piece : Piece}

/-- A piece is the same by either rule if it is no exposed text. -/
theorem written_of_not_exposed (h : ∀ t ∈ piece.text?, ¬Exposed t.1 t.2) :
    piece.written rawByLocalName = piece.written rawInHtml := by
  cases piece with
  | text parent value =>
      cases parent with
      | none => rfl
      | some name =>
          have hsafe : ¬Exposed (some name) value := h (some name, value) rfl
          by_cases hraw : rawByLocalName name = true
          · by_cases hspace : name.space = .html
            · have hhtml : rawInHtml name = true := rawInHtml_iff.mpr ⟨hspace, hraw⟩
              simp [written, hraw, hhtml]
            · have hplain : ∀ c ∈ value.toList, c ∉ specials := by
                intro c hc hspecial
                exact hsafe ⟨name, rfl, hraw, hspace, c, hc, hspecial⟩
              simp [written, hraw, escapeText_eq_self hplain]
          · have hhtml : ¬rawInHtml name = true := fun hname => hraw (rawInHtml_iff.mp hname).2
            simp [written, hraw, hhtml]
  | start | finish | comment | doctype => rfl

/-- An exposed text is written shorter than it is where only elements of HTML are of raw text. -/
theorem length_lt_of_exposed {t : Option Name × String} (ht : piece.text? = some t)
    (h : Exposed t.1 t.2) :
    (piece.written rawByLocalName).length < (piece.written rawInHtml).length := by
  cases piece with
  | text parent value =>
      cases ht
      obtain ⟨name, rfl, hraw, hspace, c, hc, hspecial⟩ := h
      have hlocal : rawByLocalName name = true := hraw
      have hhtml : ¬rawInHtml name = true := fun hname => hspace (rawInHtml_iff.mp hname).1
      have hlength := length_lt_escapeText hc hspecial
      simpa [written, hlocal, hhtml] using hlength
  | start | finish | comment | doctype => cases ht

/-- No piece is written longer than it is where only elements of HTML are of raw text. -/
theorem length_written_le (piece : Piece) :
    (piece.written rawByLocalName).length ≤ (piece.written rawInHtml).length := by
  by_cases h : ∃ t ∈ piece.text?, Exposed t.1 t.2
  · obtain ⟨t, ht, hexposed⟩ := h
    exact Nat.le_of_lt (length_lt_of_exposed ht hexposed)
  · have heq := written_of_not_exposed fun t ht hexposed => h ⟨t, ht, hexposed⟩
    exact Nat.le_of_eq (congrArg String.length heq)

end Piece

/-- Pieces are no longer together than where only elements of HTML are of raw text. -/
theorem length_writePieces_le (pieces : List Piece) :
    (writePieces rawByLocalName pieces).length ≤ (writePieces rawInHtml pieces).length := by
  induction pieces with
  | nil => exact Nat.le_refl 0
  | cons piece pieces ih =>
      have hpiece := piece.length_written_le
      rw [writePieces_cons, writePieces_cons, String.length_append, String.length_append]
      omega

/-- Pieces are the same by either rule if no text among them is exposed, and only then: an exposed
text makes what is written shorter, and no piece makes it longer. -/
theorem writePieces_eq_iff (pieces : List Piece) :
    writePieces rawByLocalName pieces = writePieces rawInHtml pieces ↔
      ∀ t ∈ pieces.filterMap Piece.text?, ¬Exposed t.1 t.2 := by
  induction pieces with
  | nil => simp
  | cons piece pieces ih =>
      rw [writePieces_cons, writePieces_cons]
      constructor
      · intro h t ht
        have hlengths := congrArg String.length h
        rw [String.length_append, String.length_append] at hlengths
        have hpiece := piece.length_written_le
        have hpieces := length_writePieces_le pieces
        have hsafe : ∀ t ∈ piece.text?, ¬Exposed t.1 t.2 := by
          intro t ht hexposed
          have hlt := Piece.length_lt_of_exposed ht hexposed
          omega
        rw [Piece.written_of_not_exposed hsafe] at h
        have hrest := ih.mp (String.append_right_inj _ |>.mp h)
        obtain ⟨other, hmem, hother⟩ := List.mem_filterMap.mp ht
        rcases List.mem_cons.mp hmem with rfl | hmem
        · exact hsafe t hother
        · exact hrest t (List.mem_filterMap.mpr ⟨other, hmem, hother⟩)
      · intro h
        have hsafe : ∀ t ∈ piece.text?, ¬Exposed t.1 t.2 := by
          intro t ht
          exact h t (List.mem_filterMap.mpr ⟨piece, List.mem_cons_self, ht⟩)
        have hrest : ∀ t ∈ pieces.filterMap Piece.text?, ¬Exposed t.1 t.2 := by
          intro t ht
          obtain ⟨other, hmem, hother⟩ := List.mem_filterMap.mp ht
          exact h t (List.mem_filterMap.mpr ⟨other, List.mem_cons_of_mem _ hmem, hother⟩)
        rw [Piece.written_of_not_exposed hsafe, ih.mpr hrest]

/-! ## The pieces of parsed markup -/

/-- The piece that an item is written as inside an element, if it is a leaf. -/
def Item.piece? (parent : Option Name) : Item → Option Piece
  | .doctype _ _ _ => some .doctype
  | .comment value => some (.comment value)
  | .text value => some (.text parent value)
  | _ => none

namespace Tree

mutual

/-- The pieces that a tree is written in, inside the element `parent` and possibly inside a void
one: there no tags are written. -/
def pieces (parent : Option Name) (inVoid : Bool) : Tree → List Piece
  | .node (.element name attributes) children =>
    if inVoid then piecesList (some name) true children
    else
      .start name.localName (propertiesOf attributes).attributes ::
        piecesList (some name) (isVoid name.localName) children ++
          if isVoid name.localName then [] else [.finish name.localName]
  | .node item children => (item.piece? parent).toList ++ piecesList parent inVoid children

/-- The pieces that the trees of a list are written in. -/
def piecesList (parent : Option Name) (inVoid : Bool) : List Tree → List Piece
  | [] => []
  | tree :: trees => tree.pieces parent inVoid ++ piecesList parent inVoid trees

end

mutual

/-- The texts of a tree in document order, each with the name of the innermost element around it. -/
def texts (parent : Option Name) : Tree → List (Option Name × String)
  | .node (.element name _) children => textsList (some name) children
  | .node (.text value) children => (parent, value) :: textsList parent children
  | .node _ children => textsList parent children

/-- The texts of the trees of a list. -/
def textsList (parent : Option Name) : List Tree → List (Option Name × String)
  | [] => []
  | tree :: trees => tree.texts parent ++ textsList parent trees

end

mutual

/-- All texts of a tree are among its pieces, and no others. -/
theorem texts_of_pieces : (tree : Tree) → (parent : Option Name) → (inVoid : Bool) →
    (tree.pieces parent inVoid).filterMap Piece.text? = tree.texts parent
  | .node (.element name attributes) children, parent, inVoid => by
      have hchildren := textsList_of_piecesList children (some name)
      rw [pieces, texts]
      split
      · exact hchildren true
      · split <;> simp [List.filterMap_cons, hchildren, Piece.text?]
  | .node .document children, parent, inVoid | .node .fragment children, parent, inVoid
  | .node (.instruction _ _) children, parent, inVoid
  | .node (.doctype _ _ _) children, parent, inVoid | .node (.comment _) children, parent, inVoid
  | .node (.text _) children, parent, inVoid => by
      have hchildren := textsList_of_piecesList children parent inVoid
      simp [pieces, texts, Item.piece?, Piece.text?, List.filterMap_cons, hchildren]

/-- All texts of the trees of a list are among their pieces, and no others. -/
theorem textsList_of_piecesList : (trees : List Tree) → (parent : Option Name) →
    (inVoid : Bool) →
    (piecesList parent inVoid trees).filterMap Piece.text? = textsList parent trees
  | [], _, _ => rfl
  | tree :: trees, parent, inVoid => by
      rw [piecesList, List.filterMap_append, texts_of_pieces tree parent inVoid,
        textsList_of_piecesList trees parent inVoid, textsList]

end

/-! ## Written markup -/

/-- Nodes of two rows are written one row after the other. -/
theorem htmlList_append (context : Context) (before behind : List Node) :
    Node.htmlList context (before ++ behind) =
      Node.htmlList context before ++ Node.htmlList context behind := by
  induction before with
  | nil => simp [Node.htmlList]
  | cons node before ih => simp [Node.htmlList, ih, String.append_assoc]

/-- What is converted knows the element around it by its local name. -/
def context (parent : Option Name) (inVoid : Bool) : Context :=
  { parent := parent.map Name.localName, inVoid }

/-- What an item becomes is written in its piece. -/
theorem htmlList_leaf? (item : Item) (parent : Option Name) (inVoid : Bool) :
    Node.htmlList (context parent inVoid) item.leaf?.toList =
      writePieces rawByLocalName (item.piece? parent).toList := by
  cases item with
  | text value =>
      have hraw : (context parent inVoid).parent.any isRaw = parent.any rawByLocalName := by
        cases parent <;> rfl
      simp [Item.leaf?, Item.piece?, Node.htmlList, Node.html_text, Piece.written, hraw]
  | doctype | comment | document | fragment | instruction | element =>
      simp [Item.leaf?, Item.piece?, Node.htmlList, Node.html_comment, Node.html_doctype,
        Piece.written]

mutual

/-- What a tree becomes is written in its pieces. -/
theorem htmlList_convert : (tree : Tree) → (parent : Option Name) → (inVoid : Bool) →
    Node.htmlList (context parent inVoid) tree.convert =
      writePieces rawByLocalName (tree.pieces parent inVoid)
  | .node (.element name attributes) children, parent, inVoid => by
      have hchildren (inVoid : Bool) :
          Node.htmlList ⟨some name.localName, inVoid⟩ (convertList children) =
            writePieces rawByLocalName (piecesList (some name) inVoid children) :=
        htmlList_convertList children (some name) inVoid
      rw [convert, pieces, Node.htmlList, Node.htmlList, String.append_empty, Node.html_element]
      cases inVoid with
      | true => exact hchildren true
      | false =>
          cases hvoid : isVoid name.localName <;>
            simp [context, hchildren, writePieces_append, Piece.written, String.append_assoc]
  | .node .document children, parent, inVoid | .node .fragment children, parent, inVoid
  | .node (.instruction _ _) children, parent, inVoid
  | .node (.doctype _ _ _) children, parent, inVoid | .node (.comment _) children, parent, inVoid
  | .node (.text _) children, parent, inVoid => by
      rw [convert, pieces, htmlList_append, writePieces_append, htmlList_leaf?,
        htmlList_convertList children parent inVoid]
      all_goals exact nofun

/-- What the trees of a list become is written in their pieces. -/
theorem htmlList_convertList : (trees : List Tree) → (parent : Option Name) → (inVoid : Bool) →
    Node.htmlList (context parent inVoid) (convertList trees) =
      writePieces rawByLocalName (piecesList parent inVoid trees)
  | [], _, _ => by
      simp [convertList, piecesList, Node.htmlList]
  | tree :: trees, parent, inVoid => by
      rw [convertList, piecesList, htmlList_append, writePieces_append,
        htmlList_convert tree parent inVoid, htmlList_convertList trees parent inVoid]

end

/-- The HTML of parsed markup is written in its pieces. -/
theorem toHtml_convertChildren (tree : Tree) :
    (Node.root tree.convertChildren).toHtml =
      writePieces rawByLocalName (piecesList none false tree.children) := by
  rw [Node.toHtml_eq_html, Node.html, convertChildren, play_edgesList]
  exact htmlList_convertList tree.children none false

/-- The HTML of parsed markup is written in pieces that hold all its texts, one by one in document
order.  It is the text in which all texts are escaped but those inside elements of raw text of HTML,
if and only if no text with characters to escape stands in an element of another namespace that has
the local name of one of those.  What is escaped has no angle brackets. -/
theorem toHtml_escapes_texts_iff (tree : Tree) :
    (Node.root tree.convertChildren).toHtml =
        writePieces rawByLocalName (piecesList none false tree.children) ∧
      (piecesList none false tree.children).filterMap Piece.text? =
        textsList none tree.children ∧
      ((Node.root tree.convertChildren).toHtml =
          writePieces rawInHtml (piecesList none false tree.children) ↔
        ∀ t ∈ textsList none tree.children, ¬Exposed t.1 t.2) ∧
      ∀ value : String, '<' ∉ (escapeText value).toList ∧ '>' ∉ (escapeText value).toList := by
  have htexts := textsList_of_piecesList tree.children none false
  refine ⟨tree.toHtml_convertChildren, htexts, ?_, not_mem_escapeText⟩
  rw [toHtml_convertChildren, writePieces_eq_iff, htexts]

/-- A style sheet of SVG with a text that could be taken for markup, and is. -/
theorem toHtml_style_of_svg :
    let svg : Name := { space := .svg, localName := "svg" }
    let style : Name := { space := .svg, localName := "style" }
    let text := "<img src=x onerror=alert(1)>"
    let tree : Tree := .node .fragment
      [.node (.element svg []) [.node (.element style []) [.node (.text text) []]]]
    textsList none tree.children = [(some style, text)] ∧ Exposed (some style) text ∧
      writePieces rawInHtml (piecesList none false tree.children) =
        "<svg><style>&lt;img src=x onerror=alert(1)&gt;</style></svg>" ∧
      (Node.root tree.convertChildren).toHtml =
        "<svg><style><img src=x onerror=alert(1)></style></svg>" := by
  intro svg style text tree
  have hexposed : Exposed (some style) text :=
    ⟨style, rfl, by decide, by decide, '<', by decide, by decide⟩
  refine ⟨rfl, hexposed, by decide, ?_⟩
  rw [toHtml_convertChildren]
  decide

end Tree

end CellAlign.Markup
