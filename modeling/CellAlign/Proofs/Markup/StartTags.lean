import CellAlign.Proofs.Markup.LocalNames
import CellAlign.Proofs.Session.Reached

/-!
# The names in start tags

The keys of canonical properties are distinct, but the attribute of the class is not named like its
key: an entry with the key `class` is open-ended, and is written under the name that the class is
written under.  No other name can come twice.

* `Node.html_eq_writePieces`, `Node.starts_of_pieces`: the start tags that are written of a tree are
  those of its elements inside no void one;
* `Properties.Canonical.nodup_keys_attributes_iff`: when the names in a start tag are distinct;
* `Node.elements_realign`, `Properties.exists_realign_eq_some`: what a pass makes of an element;
* `start_tags_of_ofJson`: the start tags of trees that are read, before and behind a pass.
-/

namespace CellAlign

open Markup

/-! ## The start tags of a tree -/

namespace Node

mutual

/-- The pieces that a tree is written in, inside the element `parent` and possibly inside a void
one. -/
def pieces (parent : Option Name) (inVoid : Bool) : Node → List Piece
  | .root children => piecesList parent inVoid children
  | .element tag properties children =>
    if inVoid then piecesList (some (.html tag)) true children
    else
      .start tag ((properties.map Properties.attributes).getD []) ::
        piecesList (some (.html tag)) (isVoid tag) children ++
          if isVoid tag then [] else [.finish tag]
  | .text value => [.text parent value]
  | .comment value => [.comment value]
  | .doctype => [.doctype]

/-- The pieces that the trees of a list are written in. -/
def piecesList (parent : Option Name) (inVoid : Bool) : List Node → List Piece
  | [] => []
  | node :: nodes => node.pieces parent inVoid ++ piecesList parent inVoid nodes

end

mutual

/-- A tree is written in its pieces. -/
theorem html_eq_writePieces : (node : Node) → (parent : Option Name) → (inVoid : Bool) →
    node.html (Tree.context parent inVoid) =
      writePieces rawByLocalName (node.pieces parent inVoid)
  | .root children, parent, inVoid => by
      rw [html, pieces]
      exact htmlList_eq_writePieces children parent inVoid
  | .element tag properties children, parent, inVoid => by
      have hchildren (inVoid : Bool) : htmlList ⟨some tag, inVoid⟩ children =
          writePieces rawByLocalName (piecesList (some (.html tag)) inVoid children) :=
        htmlList_eq_writePieces children (some (.html tag)) inVoid
      rw [html_element, pieces]
      cases inVoid with
      | true => exact hchildren true
      | false =>
          cases hvoid : isVoid tag <;>
            simp [Tree.context, hchildren, writePieces_append, Piece.written, String.append_assoc]
  | .text value, parent, inVoid => by
      have hraw : (Tree.context parent inVoid).parent.any isRaw = parent.any rawByLocalName := by
        cases parent <;> rfl
      simp [html_text, pieces, Piece.written, hraw]
  | .comment _, _, _ | .doctype, _, _ => by
      simp [html_comment, html_doctype, pieces, Piece.written]

/-- The trees of a list are written in their pieces. -/
theorem htmlList_eq_writePieces : (nodes : List Node) → (parent : Option Name) →
    (inVoid : Bool) → htmlList (Tree.context parent inVoid) nodes =
      writePieces rawByLocalName (piecesList parent inVoid nodes)
  | [], _, _ => by simp [htmlList, piecesList]
  | node :: nodes, parent, inVoid => by
      rw [htmlList, piecesList, writePieces_append, html_eq_writePieces node parent inVoid,
        htmlList_eq_writePieces nodes parent inVoid]

end

mutual

/-- The elements of a tree that are inside no void element, in document order. -/
def elements : Node → List (String × Option Properties)
  | .root children => elementsList children
  | .element tag properties children =>
    (tag, properties) :: if isVoid tag then [] else elementsList children
  | _ => []

/-- The elements of the trees of a list that are inside no void element. -/
def elementsList : List Node → List (String × Option Properties)
  | [] => []
  | node :: nodes => node.elements ++ elementsList nodes

end

/-- The start tag of an element. -/
def startOf (element : String × Option Properties) : String × List (String × String) :=
  (element.1, (element.2.map Properties.attributes).getD [])

mutual

/-- The start tags among the pieces of a tree are those of its elements. -/
theorem starts_of_pieces : (node : Node) → (parent : Option Name) → (inVoid : Bool) →
    (node.pieces parent inVoid).filterMap Piece.start? =
      if inVoid then [] else node.elements.map startOf
  | .root children, parent, inVoid => by
      rw [pieces, elements]
      exact starts_of_piecesList children parent inVoid
  | .element tag properties children, parent, inVoid => by
      have hchildren := starts_of_piecesList children (some (.html tag))
      rw [pieces, elements]
      cases inVoid with
      | true => simpa using hchildren true
      | false =>
          cases hvoid : isVoid tag <;>
            simp [List.filterMap_cons, hchildren, Piece.start?, startOf]
  | .text _, _, inVoid | .comment _, _, inVoid | .doctype, _, inVoid => by
      cases inVoid <;> rfl

/-- The start tags among the pieces of the trees of a list are those of their elements. -/
theorem starts_of_piecesList : (nodes : List Node) → (parent : Option Name) → (inVoid : Bool) →
    (piecesList parent inVoid nodes).filterMap Piece.start? =
      if inVoid then [] else (elementsList nodes).map startOf
  | [], _, inVoid => by cases inVoid <;> rfl
  | node :: nodes, parent, inVoid => by
      rw [piecesList, List.filterMap_append, starts_of_pieces node parent inVoid,
        starts_of_piecesList nodes parent inVoid, elementsList]
      cases inVoid <;> simp

end

mutual

/-- The elements of a tree have a quality that all properties in it have. -/
theorem quality_of_mem_elements {quality : Properties → Prop} : (node : Node) →
    node.Every quality → ∀ found ∈ node.elements, ∀ p ∈ found.2, quality p
  | .root children, h, found, hmem => quality_of_mem_elementsList children h found hmem
  | .element tag properties children, h, found, hmem => by
      obtain ⟨htop, hchildren⟩ := h
      rcases List.mem_cons.mp hmem with heq | hbelow
      · exact heq ▸ htop
      · split at hbelow
        · cases hbelow
        · exact quality_of_mem_elementsList children hchildren found hbelow
  | .text _, _, _, hmem | .comment _, _, _, hmem | .doctype, _, _, hmem => by cases hmem

/-- The elements of the trees of a list have a quality that all properties in them have. -/
theorem quality_of_mem_elementsList {quality : Properties → Prop} : (nodes : List Node) →
    EveryList quality nodes → ∀ found ∈ elementsList nodes, ∀ p ∈ found.2, quality p
  | [], _, _, hmem => by cases hmem
  | node :: nodes, h, found, hmem => by
      rcases List.mem_append.mp hmem with hnode | hnodes
      · exact quality_of_mem_elements node h.1 found hnode
      · exact quality_of_mem_elementsList nodes h.2 found hnodes

end

mutual

/-- The elements of a realigned tree are those of the tree, each realigned. -/
theorem elements_realign (options : Options) : (node : Node) →
    (node.realign options).elements =
      node.elements.map fun element => (element.1, Properties.realign options element.1 element.2)
  | .root children => by
      rw [realign, elements, elements]
      exact elementsList_realign options children
  | .element tag properties children => by
      rw [realign, elements, elements, elementsList_realign options children, List.map_cons]
      split <;> rfl
  | .text _ | .comment _ | .doctype => by simp [realign, elements]

/-- The elements of realigned trees are those of the trees, each realigned. -/
theorem elementsList_realign (options : Options) : (nodes : List Node) →
    elementsList (realignList options nodes) =
      (elementsList nodes).map fun element =>
        (element.1, Properties.realign options element.1 element.2)
  | [] => by simp [realignList, elementsList]
  | node :: nodes => by
      rw [realignList, elementsList, elementsList, List.map_append, elements_realign options node,
        elementsList_realign options nodes]

end

end Node

/-! ## The names in a start tag -/

namespace Properties

variable {properties : Properties}

/-- An entry is named like the attribute of the class, and has a value that is written. -/
def NamesClass (properties : Properties) : Prop :=
  ∃ value, ("class", value) ∈ properties.other ∧ (attributeValue? value).isSome = true

/-- The class is among the attributes of the known properties, if there is one. -/
theorem class_mem_knownAttributes :
    "class" ∈ Entries.keys properties.knownAttributes ↔ properties.className ≠ .absent := by
  have hknown (name : String) (found : Option PropertyValue) (hname : name ≠ "class") :
      "class" ∉ (found.bind (attribute? name)).toList.map Prod.fst := by
    rw [bind_attribute?]
    cases found.bind attributeValue? <;> simp [Ne.symm hname]
  have halign := hknown "align" properties.align (by decide)
  have hstyle := hknown "style" properties.style (by decide)
  rw [knownAttributes, Entries.keys, List.map_append, List.map_append, List.mem_append,
    List.mem_append, or_iff_left hstyle, or_iff_right halign]
  cases properties.className <;> simp [classAttribute?, ClassName.isAbsent]

/-- A class is among the attributes of the open-ended properties, if an entry names it. -/
theorem class_mem_otherAttributes :
    "class" ∈ Entries.keys properties.otherAttributes ↔ properties.NamesClass := by
  constructor
  · intro h
    obtain ⟨a, ha, hname⟩ := List.mem_map.mp h
    obtain ⟨⟨key, value⟩, hentry, hvalue⟩ := List.mem_filterMap.mp ha
    obtain ⟨text, htext, rfl⟩ := Option.map_eq_some_iff.mp hvalue
    obtain rfl : key = "class" := hname
    exact ⟨value, hentry, Option.isSome_iff_exists.mpr ⟨text, htext⟩⟩
  · intro h
    obtain ⟨value, hentry, hvalue⟩ := h
    obtain ⟨text, htext⟩ := Option.isSome_iff_exists.mp hvalue
    have hattribute : attribute? "class" value = some ("class", text) := by
      rw [attribute?, htext]
      rfl
    have hmem : ("class", text) ∈ properties.otherAttributes :=
      List.mem_filterMap.mpr ⟨("class", value), hentry, hattribute⟩
    exact List.mem_map.mpr ⟨("class", text), hmem, rfl⟩

/-- The names of the attributes of the known properties are distinct. -/
theorem nodup_keys_knownAttributes (properties : Properties) :
    (Entries.keys properties.knownAttributes).Nodup :=
  properties.sublist_keys_knownAttributes.nodup (by decide)

namespace Canonical

/-- The names of the attributes of the open-ended properties are distinct. -/
theorem nodup_keys_otherAttributes (h : properties.Canonical) :
    (Entries.keys properties.otherAttributes).Nodup :=
  properties.sublist_keys_otherAttributes.nodup h.distinct

/-- The name of a known property and of an open-ended one is that of the class: the others are named
like their keys. -/
theorem eq_class (h : properties.Canonical) {name : String}
    (hknown : name ∈ Entries.keys properties.knownAttributes)
    (hother : name ∈ Entries.keys properties.otherAttributes) : name = "class" := by
  have hname := properties.sublist_keys_knownAttributes.subset hknown
  have hunknown := h.unknown name (properties.sublist_keys_otherAttributes.subset hother)
  simp only [knownNames, List.mem_cons, List.not_mem_nil, or_false] at hname
  simp only [knownKeys, List.mem_cons, List.not_mem_nil, or_false, not_or] at hunknown
  rcases hname with halign | hclass | hstyle
  · exact absurd halign hunknown.1
  · exact hclass
  · exact absurd hstyle hunknown.2.2

/-- A name comes at most once, that of the class at most twice. -/
theorem count_keys_attributes_le (h : properties.Canonical) (name : String) :
    (Entries.keys properties.attributes).count name ≤ if name = "class" then 2 else 1 := by
  have hknown := List.nodup_iff_count_le_one.mp properties.nodup_keys_knownAttributes name
  have hother := List.nodup_iff_count_le_one.mp h.nodup_keys_otherAttributes name
  rw [keys_attributes, List.count_append]
  split
  · omega
  · next hname =>
    by_cases hmem : name ∈ Entries.keys properties.knownAttributes
    · have hnot : name ∉ Entries.keys properties.otherAttributes :=
        fun hmem' => hname (h.eq_class hmem hmem')
      rw [List.count_eq_zero_of_not_mem hnot]
      exact hknown
    · rw [List.count_eq_zero_of_not_mem hmem, Nat.zero_add]
      exact hother

/-- The names are distinct unless there is a class and an entry that names it. -/
theorem nodup_keys_attributes_iff (h : properties.Canonical) :
    (Entries.keys properties.attributes).Nodup ↔
      ¬(properties.NamesClass ∧ properties.className ≠ .absent) := by
  rw [← class_mem_otherAttributes, ← class_mem_knownAttributes, keys_attributes,
    List.nodup_append']
  constructor
  · intro hdistinct htwice
    exact hdistinct.2.2 htwice.2 htwice.1
  · intro hnot
    refine ⟨properties.nodup_keys_knownAttributes, h.nodup_keys_otherAttributes, ?_⟩
    intro name hmem hmem'
    obtain rfl := h.eq_class hmem hmem'
    exact hnot ⟨hmem', hmem⟩

end Canonical

/-! ## What a pass makes of the class -/

/-- The alignment of a cell is one that a class token stands for in class mode. -/
def GainsToken (options : Options) (tag : String) (properties : Properties) : Prop :=
  ∃ value token, IsCell tag properties value ∧ options.method = .byClass ∧
    (value.text, token) ∈ options.classes.pairs

/-- Realigning an element keeps its entries, and leaves it with a class if there is one or a token
comes in the place of its alignment. -/
theorem exists_realign_eq_some (options : Options) (tag : String) (properties : Properties) :
    ∃ next, realign options tag (some properties) = some next ∧
      next.other = properties.other ∧
      (next.className ≠ .absent ↔
        properties.className ≠ .absent ∨ GainsToken options tag properties) := by
  have hrule := realigned_iff.mpr (Eq.refl (realign options tag (some properties)))
  generalize realign options tag (some properties) = found at hrule
  cases hrule with
  | byClass hcell hmethod hnamed =>
      have hgains : GainsToken options tag properties := ⟨_, _, hcell, hmethod, hnamed⟩
      exact ⟨_, rfl, rfl, by simp [hgains]⟩
  | @byStyle _ value hcell hunnamed =>
      have hnot : ¬GainsToken options tag properties := by
        intro hgains
        obtain ⟨other, token, hother, hmethod, hnamed⟩ := hgains
        obtain rfl : value = other := Option.some.inj (hcell.align_eq.symm.trans hother.align_eq)
        have htoken := ClassNames.get?_eq_some_iff.mpr hnamed
        rw [ClassNames.get?_eq_none_iff.mpr (hunnamed hmethod)] at htoken
        cases htoken
      exact ⟨_, rfl, rfl, by simp [hnot]⟩
  | kept hnone =>
      have hnot : ¬GainsToken options tag properties := by
        intro hgains
        obtain ⟨value, -, hcell, -⟩ := hgains
        exact hnone properties value rfl hcell
      exact ⟨_, rfl, rfl, by simp [hnot]⟩

end Properties

/-! ## Trees that are read -/

/-- The start tags that are written of a tree are those of its elements inside no void one.  No name
comes twice in one of them but that of the class, which comes at most twice; and the names are
distinct unless there is a class and an entry that names it. -/
structure Node.StartTags (node : Node) : Prop where
  pieces : node.toHtml = writePieces rawByLocalName (node.pieces none false)
  starts : (node.pieces none false).filterMap Piece.start? = node.elements.map startOf
  counts : ∀ element ∈ node.elements, ∀ name,
    (Entries.keys (startOf element).2).count name ≤ if name = "class" then 2 else 1
  distinct_iff : ∀ element ∈ node.elements,
    (Entries.keys (startOf element).2).Nodup ↔
      ∀ p ∈ element.2, ¬(p.NamesClass ∧ p.className ≠ .absent)

/-- The start tags of a tree with canonical properties. -/
theorem Node.startTags_of_canonical {node : Node} (h : node.Every Properties.Canonical) :
    node.StartTags := by
  have hcanonical := quality_of_mem_elements node h
  refine ⟨?_, starts_of_pieces node none false, fun element hmem name => ?_,
    fun element hmem => ?_⟩
  · rw [toHtml_eq_html]
    exact html_eq_writePieces node none false
  · obtain ⟨tag, properties⟩ := element
    cases properties with
    | none => simp [startOf, Entries.keys]
    | some p => exact (hcanonical _ hmem p rfl).count_keys_attributes_le name
  · obtain ⟨tag, properties⟩ := element
    cases properties with
    | none => simp [startOf, Entries.keys]
    | some p =>
        have hnames := (hcanonical _ hmem p rfl).nodup_keys_attributes_iff
        simpa [startOf] using hnames

/-- The start tags of a tree that is read, and of the tree that a pass leaves: in the first the
names are distinct unless an element has a class and an entry that names it, and in the second
unless an element with such an entry has a class or is given one. -/
theorem start_tags_of_ofJson {text : String} {tree : Node} (h : Node.ofJson text = .ok tree)
    (options : Options) :
    let settled := (run options tree).tree
    tree.StartTags ∧ settled.StartTags ∧
      ((∀ element ∈ tree.elements, (Entries.keys (Node.startOf element).2).Nodup) ↔
        ∀ element ∈ tree.elements, ∀ p ∈ element.2, ¬(p.NamesClass ∧ p.className ≠ .absent)) ∧
      ((∀ element ∈ settled.elements, (Entries.keys (Node.startOf element).2).Nodup) ↔
        ∀ element ∈ tree.elements, ∀ p ∈ element.2,
          ¬(p.NamesClass ∧ (p.className ≠ .absent ∨ p.GainsToken options element.1))) := by
  intro settled
  have hcanonical := Node.every_of_ofJson h
  have htree := Node.startTags_of_canonical hcanonical
  have hsettled : settled.StartTags :=
    Node.startTags_of_canonical (Node.every_run hcanonical options)
  refine ⟨htree, hsettled, forall₂_congr htree.distinct_iff, ?_⟩
  rw [forall₂_congr hsettled.distinct_iff, show settled = tree.realign options from
    run_tree options tree, Node.elements_realign, List.forall_mem_map]
  refine forall₂_congr fun element _ => ?_
  obtain ⟨tag, properties⟩ := element
  cases properties with
  | none => simp [Properties.realign, Properties.cellAlignment?]
  | some p =>
      obtain ⟨next, hnext, hother, hclass⟩ := p.exists_realign_eq_some options tag
      have hnames : next.NamesClass ↔ p.NamesClass := by
        rw [Properties.NamesClass, hother, Properties.NamesClass]
      simp only [hnext, Option.mem_some_iff, forall_eq', hnames, hclass]

/-- A cell with an entry that names its class: the names in its start tag are distinct at first, and
behind a pass that gives it a token they are not. -/
theorem start_tags_of_cell :
    let p : Properties := { align := some (.string "left"), other := [("class", .string "b")] }
    let cell : Node := .element "td" (some p) []
    let settled := (run { method := .byClass } cell).tree
    let text := "\x7b\"type\":\"element\",\"tagName\":\"td\",\"properties\":" ++
      "\x7b\"align\":\"left\",\"class\":\"b\"\x7d\x7d"
    Node.ofJson text = .ok cell ∧
      (∀ element ∈ cell.elements, (Entries.keys (Node.startOf element).2).Nodup) ∧
      ¬∀ element ∈ settled.elements, (Entries.keys (Node.startOf element).2).Nodup := by
  intro p cell settled text
  have hread : Node.ofJson text = .ok cell := by
    simp only [text, String.reduceAppend, Node.ofJson, String.reduceToList]
    rfl
  obtain ⟨-, -, hbefore, hbehind⟩ := start_tags_of_ofJson hread { method := .byClass }
  have helements : cell.elements = [("td", some p)] := rfl
  rw [helements] at hbefore hbehind
  refine ⟨hread, helements ▸ hbefore.mpr fun element helement q hq htwice => ?_, ?_⟩
  · obtain rfl := List.mem_singleton.mp helement
    obtain rfl := Option.some.inj hq
    exact htwice.2 rfl
  · intro hdistinct
    have hcell : IsCell "td" p (.string "left") := ⟨.inl rfl, rfl, by simp⟩
    have hgains : p.GainsToken { method := .byClass } "td" :=
      ⟨.string "left", "left", hcell, rfl, by decide⟩
    have hnames : p.NamesClass := ⟨.string "b", List.mem_cons_self, rfl⟩
    exact hbehind.mp hdistinct _ List.mem_cons_self p rfl ⟨hnames, .inr hgains⟩

/-- A text that gives an element its class twice, under the key of the class and under the name of
its attribute: both are written. -/
theorem start_tag_with_class_twice :
    let element : Node := .element "p"
      (some { className := .single "a", other := [("class", .string "b")] }) []
    let text := "\x7b\"type\":\"element\",\"tagName\":\"p\",\"properties\":" ++
      "\x7b\"className\":\"a\",\"class\":\"b\"\x7d\x7d"
    Node.ofJson text = .ok element ∧
      element.toHtml = "<p class=\"a\" class=\"b\"></p>" ∧
      (element.pieces none false).filterMap Piece.start? =
        [("p", [("class", "a"), ("class", "b")])] ∧
      ¬(Entries.keys [("class", "a"), ("class", "b")]).Nodup := by
  intro element text
  have hread : Node.ofJson text = .ok element := by
    simp only [text, String.reduceAppend, Node.ofJson, String.reduceToList]
    rfl
  refine ⟨hread, ?_, by decide, by decide⟩
  rw [Node.toHtml_eq_html]
  decide

end CellAlign
