import CellAlign.Proofs.Markup.Escaping
import CellAlign.Proofs.Tree.Attributes

/-!
# Attributes of parsed markup, written again

The attributes of an element of parsed markup have qualified names, of which only the local ones are
kept.  So attributes with one local name in several namespaces become one property, and one of them
is written: the last.  Elements below a void one are not written, and so are their attributes.

* `Tree.starts_of_pieces`: the start tags that are written;
* `nodup_localNames`: attributes outside of all namespaces are told apart by their local names;
* `Tree.toHtml_writes_attributes_iff`: when all attributes of an element are written.
-/

namespace CellAlign.Markup

/-- An attribute as it is written by its local name. -/
def Attribute.written (a : Attribute) : String × String :=
  (a.name.localName, Properties.writtenValue a.name.localName a.value)

/-- Attributes outside of all namespaces have distinct local names if they have distinct names. -/
theorem nodup_localNames {attributes : List Attribute}
    (hplain : ∀ a ∈ attributes, a.name = .plain a.name.localName)
    (hdistinct : (attributes.map Attribute.name).Nodup) :
    (attributes.map fun a => a.name.localName).Nodup := by
  have hnames : attributes.map Attribute.name =
      (attributes.map fun a => a.name.localName).map Name.plain := by
    rw [List.map_map]
    exact List.map_congr_left hplain
  rw [hnames] at hdistinct
  exact List.Nodup.of_map _ hdistinct

/-- The value written for a local name is that of the last attribute that has it. -/
theorem get?_attributes_propertiesOf (attributes : List Attribute) (name : String) :
    Entries.get? name (propertiesOf attributes).attributes =
      (attributes.reverse.find? fun a => a.name.localName = name).map
        fun a => Properties.writtenValue name a.value := by
  have hget (found : List Attribute) :
      Entries.get? name (found.map fun a => (a.name.localName, a.value)) =
        (found.find? fun a => a.name.localName = name).map Attribute.value := by
    induction found with
    | nil => rfl
    | cons a found ih =>
        by_cases hname : a.name.localName = name
        · simp [Entries.get?, hname]
        · simpa [Entries.get?, hname] using ih
  rw [propertiesOf, Properties.get?_attributes (Properties.textual_ofAttributes _),
    Properties.text?_ofAttributes, ← List.map_reverse, hget, Option.map_map]
  rfl

/-- Each attribute is written once, if and only if their local names are distinct. -/
theorem perm_attributes_propertiesOf_iff (attributes : List Attribute) :
    (propertiesOf attributes).attributes.Perm (attributes.map Attribute.written) ↔
      (attributes.map fun a => a.name.localName).Nodup := by
  have h := Properties.perm_attributes_iff (attributes.map fun a => (a.name.localName, a.value))
  rw [List.map_map, List.map_map] at h
  exact h

/-! ## Start tags -/

/-- The tag and the attributes of a start tag, if a piece is one. -/
def Piece.start? : Piece → Option (String × List (String × String))
  | start tag attributes => some (tag, attributes)
  | _ => none

namespace Tree

mutual

/-- The elements of a tree that are inside no void element, in document order. -/
def elements : Tree → List (Name × List Attribute)
  | .node (.element name attributes) children =>
    (name, attributes) :: if isVoid name.localName then [] else elementsList children
  | .node _ children => elementsList children

/-- The elements of the trees of a list that are inside no void element. -/
def elementsList : List Tree → List (Name × List Attribute)
  | [] => []
  | tree :: trees => tree.elements ++ elementsList trees

end

/-- The start tag of an element as it is written: by local names. -/
def startOf (element : Name × List Attribute) : String × List (String × String) :=
  (element.1.localName, (propertiesOf element.2).attributes)

mutual

/-- The start tags among the pieces of a tree are those of its elements. -/
theorem starts_of_pieces : (tree : Tree) → (parent : Option Name) → (inVoid : Bool) →
    (tree.pieces parent inVoid).filterMap Piece.start? =
      if inVoid then [] else tree.elements.map startOf
  | .node (.element name attributes) children, parent, inVoid => by
      have hchildren := starts_of_piecesList children (some name)
      rw [pieces, elements]
      cases inVoid with
      | true => simpa using hchildren true
      | false =>
          cases hvoid : isVoid name.localName <;>
            simp [List.filterMap_cons, hchildren, Piece.start?, startOf]
  | .node .document children, parent, inVoid | .node .fragment children, parent, inVoid
  | .node (.instruction _ _) children, parent, inVoid
  | .node (.doctype _ _ _) children, parent, inVoid | .node (.comment _) children, parent, inVoid
  | .node (.text _) children, parent, inVoid => by
      have hchildren := starts_of_piecesList children parent inVoid
      simp [pieces, elements, Item.piece?, Piece.start?, List.filterMap_cons, hchildren]

/-- The start tags among the pieces of the trees of a list are those of their elements. -/
theorem starts_of_piecesList : (trees : List Tree) → (parent : Option Name) → (inVoid : Bool) →
    (piecesList parent inVoid trees).filterMap Piece.start? =
      if inVoid then [] else (elementsList trees).map startOf
  | [], _, inVoid => by cases inVoid <;> rfl
  | tree :: trees, parent, inVoid => by
      rw [piecesList, List.filterMap_append, starts_of_pieces tree parent inVoid,
        starts_of_piecesList trees parent inVoid, elementsList]
      cases inVoid <;> simp

end

/-- The HTML of parsed markup is written in pieces, whose start tags are those of the elements that
are inside no void element, one by one in document order.  In the start tag of an element no name
stands twice, and the value of a name is that of the last attribute with this local name; so each
attribute is written once if and only if their local names are distinct, as those of distinct
attributes outside of all namespaces are. -/
theorem toHtml_writes_attributes_iff (tree : Tree) :
    (Node.root tree.convertChildren).toHtml =
        writePieces rawByLocalName (piecesList none false tree.children) ∧
      (piecesList none false tree.children).filterMap Piece.start? =
        (elementsList tree.children).map startOf ∧
      ∀ (name : Name) (attributes : List Attribute),
        (Entries.keys (startOf (name, attributes)).2).Nodup ∧
          (∀ localName, Entries.get? localName (startOf (name, attributes)).2 =
            (attributes.reverse.find? fun a => a.name.localName = localName).map
              fun a => Properties.writtenValue localName a.value) ∧
          ((startOf (name, attributes)).2.Perm (attributes.map Attribute.written) ↔
            (attributes.map fun a => a.name.localName).Nodup) ∧
          ((∀ a ∈ attributes, a.name = .plain a.name.localName) →
            (attributes.map Attribute.name).Nodup →
            (startOf (name, attributes)).2.Perm (attributes.map Attribute.written)) := by
  refine ⟨tree.toHtml_convertChildren, starts_of_piecesList tree.children none false,
    fun name attributes => ?_⟩
  have hperm := perm_attributes_propertiesOf_iff attributes
  refine ⟨Properties.nodup_keys_attributes (Properties.textual_ofAttributes _),
    get?_attributes_propertiesOf attributes, hperm, fun hplain hdistinct => ?_⟩
  exact hperm.mpr (nodup_localNames hplain hdistinct)

/-- A link of SVG with two addresses, one of them in a namespace, of which one is written. -/
theorem toHtml_link_of_svg :
    let svg : Name := { space := .svg, localName := "svg" }
    let link : Name := { space := .svg, localName := "a" }
    let xlink : Name := { qualifier := some "xlink", space := .xlink, localName := "href" }
    let attributes : List Attribute := [⟨.plain "href", "x"⟩, ⟨xlink, "y"⟩]
    let tree : Tree := .node .fragment
      [.node (.element svg []) [.node (.element link attributes) []]]
    (attributes.map Attribute.name).Nodup ∧
      elementsList tree.children = [(svg, []), (link, attributes)] ∧
      ¬(startOf (link, attributes)).2.Perm (attributes.map Attribute.written) ∧
      (startOf (link, attributes)).2 = [("href", "y")] ∧
      (Node.root tree.convertChildren).toHtml = "<svg><a href=\"y\"></a></svg>" := by
  intro svg link xlink attributes tree
  have hwritten : (startOf (link, attributes)).2 = [("href", "y")] := by decide
  have hlost : ¬(startOf (link, attributes)).2.Perm (attributes.map Attribute.written) := by
    intro hperm
    have hlength := hperm.length_eq
    rw [hwritten] at hlength
    exact absurd hlength (by decide)
  refine ⟨by decide, rfl, hlost, hwritten, ?_⟩
  rw [toHtml_convertChildren]
  decide

end Tree

end CellAlign.Markup
