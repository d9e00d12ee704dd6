import CellAlign.Markup.OpenElements
import CellAlign.Markup.Token

/-!
# Building a tree from tokens

The state of the construction and the steps that all of its rules are made of: creating elements at
the right place, opening and closing them, adding texts and comments.  The right place is at the end
of the current element, but in a table, where content that belongs into no cell is put in front of
the table.
-/

namespace CellAlign.Markup

/-- Where the construction stands, which decides what the next token does. -/
inductive Mode where
  | initial
  | beforeHtml
  | beforeHead
  | inHead
  | afterHead
  | inBody
  | text
  | inTable
  | inTableText
  | inCaption
  | inColumnGroup
  | inTableBody
  | inRow
  | inCell
  | inSelect
  | inSelectInTable
  | inTemplate
  | afterBody
  | inFrameset
  | afterFrameset
  | afterAfterBody
  | afterAfterFrameset
deriving DecidableEq

/-- A formatting element that may have to be opened again, or a mark that bounds the search for
one. -/
inductive Format where
  | element (id : ItemId) (tag : Tag)
  | mark

/-- The state of the construction.  The formatting elements are listed latest first. -/
structure Builder where
  draft : Draft
  document : ItemId
  isFragment : Bool
  opened : OpenElements := []
  formats : List Format := []
  mode : Mode := .initial
  returnMode : Mode := .inBody
  templateModes : List Mode := []
  tableText : List Token := []
  head : Option ItemId := none
  form : Option ItemId := none
  framesetAllowed : Bool := true
  fostering : Bool := false
  dropLineFeed : Bool := false
  loose : Bool := false
  region : Region := .markup

/-- A step of the construction. -/
abbrev Build (α : Type) : Type := StateM Builder α

namespace Build

/-- Changes the mode. -/
def setMode (mode : Mode) : Build Unit := modify fun b => { b with mode }

/-- Changes the stack of open elements. -/
def onOpened (change : OpenElements → OpenElements) : Build Unit :=
  modify fun b => { b with opened := change b.opened }

/-- Closes the current element. -/
def close : Build Unit := onOpened (·.drop 1)

/-- Forbids that a frameset takes the place of the body. -/
def forbidFrameset : Build Unit := modify fun b => { b with framesetAllowed := false }

/-- A place for a new node: at the end of an item, or in front of a table that may have been moved,
in which case it is at the end of the element around the table. -/
inductive Place where
  | inside (parent : ItemId)
  | beforeTable (table around : ItemId)

/-- The place in front of the innermost table, or at the end of the contents of the innermost
template if that is nearer. -/
def fosterPlace (draft : Draft) (root : ItemId) : OpenElements → Place
  | [] => .inside root
  | e :: rest =>
    if e.name.isHtml "template" then .inside (draft.contentsOf e.id)
    else if e.name.isHtml "table" then
      match rest with
      | around :: _ => .beforeTable e.id around.id
      | [] => .inside e.id
    else fosterPlace draft root rest

/-- The right place for a new node in an element. -/
def placeIn (b : Builder) (target : OpenElement) : Place :=
  if b.fostering && NameSet.fosterTarget target.name then
    fosterPlace b.draft ((b.opened.getLast?.map (·.id)).getD b.document) b.opened
  else if target.name.isHtml "template" then .inside (b.draft.contentsOf target.id)
  else .inside target.id

/-- The right place for a new node. -/
def place (b : Builder) : Place :=
  match b.opened with
  | [] => .inside b.document
  | current :: _ => placeIn b current

/-- Puts an item at a place. -/
def putItem (draft : Draft) (place : Place) (id : ItemId) : Draft :=
  match place with
  | .inside parent => draft.append parent id
  | .beforeTable table around =>
    if (draft.parent? table).isSome then draft.insertBefore table id else draft.append around id

/-- Puts a text at a place. -/
def putText (draft : Draft) (place : Place) (text : String) : Draft :=
  match place with
  | .inside parent => draft.appendText parent text
  | .beforeTable table around =>
    if (draft.parent? table).isSome then draft.insertTextBefore table text
    else draft.appendText around text

/-- Adds a text. -/
def addText (text : String) : Build Unit :=
  modify fun b => { b with draft := putText b.draft (place b) text }

/-- Adds a comment. -/
def addComment (text : String) : Build Unit :=
  modify fun b =>
    let (id, draft) := b.draft.create (.comment text)
    { b with draft := putItem draft (place b) id }

/-- Adds a comment to an item. -/
def addCommentTo (parent : ItemId) (text : String) : Build Unit :=
  modify fun b =>
    let (id, draft) := b.draft.create (.comment text)
    { b with draft := draft.append parent id }

/-- Adds an element, without opening it. -/
def addElement (name : Name) (attributes : List Attribute) : Build OpenElement :=
  modifyGet fun b =>
    let (id, draft) := b.draft.createElement name attributes
    ({ id, name }, { b with draft := putItem draft (place b) id })

/-- Opens an element. -/
def push (e : OpenElement) : Build Unit := onOpened (e :: ·)

/-- The attributes of a tag of HTML. -/
def plainAttributes (tag : Tag) : List Attribute :=
  tag.attributes.map fun (name, value) => { name := .plain name, value }

/-- Adds and opens the element of a tag of HTML. -/
def openTag (tag : Tag) : Build OpenElement := do
  let e ← addElement (.html tag.name) (plainAttributes tag)
  push e
  return e

/-- Adds and opens the element of a tag of HTML, whose number is not needed. -/
def openFor (tag : Tag) : Build Unit := do
  let _ ← openTag tag

/-- Adds the element of a tag of HTML, which has no contents. -/
def addFor (tag : Tag) : Build Unit := do
  let _ ← addElement (.html tag.name) (plainAttributes tag)

/-- Adds and opens the root element. -/
def openRoot (attributes : List Attribute) : Build Unit :=
  modify fun b =>
    let name := Name.html "html"
    let (id, draft) := b.draft.createElement name attributes
    { b with draft := draft.append b.document id, opened := { id, name } :: b.opened }

/-- Goes on in a region of text, up to the end tag of the current element. -/
def enterText (region : Region) : Build Unit :=
  modify fun b => { b with region, returnMode := b.mode, mode := .text }

/-- Opens the element of a tag and goes on in the region of its text. -/
def openText (tag : Tag) (region : Region) : Build Unit := do
  openFor tag
  enterText region

/-- Closes elements up to and with the innermost one of a name. -/
def closeNamed (name : String) : Build Unit := onOpened (·.closeThrough (NameSet.html [name]))

/-- Closes elements whose end is implied. -/
def closeImplied : Build Unit := onOpened (·.closeImplied NameSet.impliedEnd)

/-- Closes elements whose end is implied, up to one of a name. -/
def closeImpliedBut (name : String) : Build Unit :=
  onOpened (·.closeImplied (NameSet.impliedEnd.without name))

/-- Closes a paragraph. -/
def closeParagraph : Build Unit := do
  closeImpliedBut "p"
  closeNamed "p"

/-- Closes a paragraph that is open within the innermost button. -/
def closeParagraphInButton : Build Unit := do
  if (← get).opened.hasInScope NameSet.buttonScope "p" then closeParagraph

/-- Puts a mark on the list of formatting elements. -/
def pushMark : Build Unit := modify fun b => { b with formats := .mark :: b.formats }

/-- The formatting elements before the latest mark. -/
def dropToMark : List Format → List Format
  | [] => []
  | .mark :: rest => rest
  | .element _ _ :: rest => dropToMark rest

/-- Forgets the formatting elements up to and with the latest mark. -/
def clearToMark : Build Unit := modify fun b => { b with formats := dropToMark b.formats }

/-- The mode that the open elements call for. -/
def modeOf (b : Builder) : OpenElements → Mode
  | [] => .inBody
  | e :: rest =>
    let last := rest.isEmpty
    let name := if last && b.isFragment then Name.html "body" else e.name
    if name.space ≠ .html then modeOf b rest
    else
      match name.localName with
      | "select" =>
        if NameSet.html ["template", "table"] (firstOf rest) then
          if (firstOf rest).localName = "table" then .inSelectInTable else .inSelect
        else .inSelect
      | "td" => if last then modeOf b rest else .inCell
      | "th" => if last then modeOf b rest else .inCell
      | "tr" => .inRow
      | "tbody" => .inTableBody
      | "thead" => .inTableBody
      | "tfoot" => .inTableBody
      | "caption" => .inCaption
      | "colgroup" => .inColumnGroup
      | "table" => .inTable
      | "template" => b.templateModes.headD .inBody
      | "head" => if last then modeOf b rest else .inHead
      | "body" => .inBody
      | "frameset" => .inFrameset
      | "html" => if b.head.isNone then .beforeHead else .afterHead
      | _ => modeOf b rest
where
  /-- The name of the innermost template or table, or of the root. -/
  firstOf : OpenElements → Name
    | [] => Name.html "html"
    | e :: rest =>
      if NameSet.html ["template", "table"] e.name then e.name else firstOf rest

/-- Goes to the mode that the open elements call for. -/
def resetMode : Build Unit := modify fun b => { b with mode := modeOf b b.opened }

end Build

end CellAlign.Markup
