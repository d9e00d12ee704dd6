import CellAlign.Markup.Parsed

/-!
# Trees under construction

While markup is read its tree is a draft: items are numbered in the order of their creation, and
each is linked with its parent, with its neighbours and with its first and last child.  Items can be
added, moved and taken away by number.  Texts that come to stand side by side by being appended are
one text.  A template holds its contents in a fragment, which is its first child.

When all children of an item are moved at once, only the first and the last of them learn who their
parent is from then on; those in between go on naming the old one.  A walk through a draft
(`Draft.walk`) goes down to the first child and on to the next neighbour, and at the last child up
to the parent that this child names.
-/

namespace CellAlign.Markup

/-- The number of an item. -/
abbrev ItemId : Type := Nat

/-- An item with its links: the parent that it names, the items directly before and after it, and
its first and last child. -/
structure Entry where
  item : Item
  parent : Option ItemId := none
  before : Option ItemId := none
  after : Option ItemId := none
  ends : Option (ItemId × ItemId) := none

/-- A tree under construction. -/
structure Draft where
  entries : Array Entry := #[]

namespace Draft

/-- The entry of an item. -/
def entry? (draft : Draft) (id : ItemId) : Option Entry := draft.entries[id]?

/-- Changes the entry of an item. -/
def modify (draft : Draft) (id : ItemId) (change : Entry → Entry) : Draft :=
  { entries := draft.entries.modify id change }

/-- Changes the entry of an item that may be missing. -/
def modify? (draft : Draft) (id : Option ItemId) (change : Entry → Entry) : Draft :=
  match id with
  | some id => draft.modify id change
  | none => draft

/-- The parent that an item names. -/
def parent? (draft : Draft) (id : ItemId) : Option ItemId := (draft.entry? id).bind (·.parent)

/-- The item directly before another. -/
def before? (draft : Draft) (id : ItemId) : Option ItemId := (draft.entry? id).bind (·.before)

/-- The item directly after another. -/
def after? (draft : Draft) (id : ItemId) : Option ItemId := (draft.entry? id).bind (·.after)

/-- The first and the last child of an item. -/
def ends? (draft : Draft) (id : ItemId) : Option (ItemId × ItemId) :=
  (draft.entry? id).bind (·.ends)

/-- The first child of an item. -/
def first? (draft : Draft) (id : ItemId) : Option ItemId := (draft.ends? id).map (·.1)

/-- The last child of an item. -/
def last? (draft : Draft) (id : ItemId) : Option ItemId := (draft.ends? id).map (·.2)

/-- Creates an item that stands nowhere yet. -/
def create (draft : Draft) (item : Item) : ItemId × Draft :=
  (draft.entries.size, { entries := draft.entries.push { item } })

/-- The first and last child that are left when a child with these neighbours goes. -/
def endsWithout (id : ItemId) (before after : Option ItemId) :
    Option (ItemId × ItemId) → Option (ItemId × ItemId)
  | none => none
  | some (first, last) =>
    if first = last then none
    else if first = id then after.map fun next => (next, last)
    else if last = id then before.map fun previous => (first, previous)
    else some (first, last)

/-- Takes an item away from its parent and its neighbours. -/
def detach (draft : Draft) (id : ItemId) : Draft :=
  match draft.parent? id with
  | none => draft
  | some parent =>
    let before := draft.before? id
    let after := draft.after? id
    let draft := draft.modify id fun e => { e with parent := none, before := none, after := none }
    let draft := draft.modify? before fun e => { e with after }
    let draft := draft.modify? after fun e => { e with before }
    draft.modify parent fun e => { e with ends := endsWithout id before after e.ends }

/-- Moves an item to the end of the children of another. -/
def append (draft : Draft) (parent id : ItemId) : Draft :=
  let last := draft.last? parent
  if last = some id then draft
  else
    let draft := draft.detach id
    let draft := draft.modify id fun e => { e with parent := some parent, before := last }
    let draft := draft.modify? last fun e => { e with after := some id }
    draft.modify parent fun e => { e with ends := some ((e.ends.map (·.1)).getD id, id) }

/-- Adds to a text; nothing if the item is no text. -/
def extendText? (draft : Draft) (id : ItemId) (text : String) : Option Draft :=
  match draft.entry? id with
  | some { item := .text _, .. } =>
    some <| draft.modify id fun e =>
      match e with
      | { item := .text start, parent, before, after, ends } =>
        { item := .text (start ++ text), parent, before, after, ends }
      | e => e
  | _ => none

/-- Appends a text to the children of an item. -/
def appendText (draft : Draft) (parent : ItemId) (text : String) : Draft :=
  match (draft.last? parent).bind fun last => draft.extendText? last text with
  | some draft => draft
  | none =>
    let (id, draft) := draft.create (.text text)
    draft.append parent id

/-- Puts an item that stands nowhere directly before another, or nowhere if that names no parent. -/
def insertAt (draft : Draft) (sibling id : ItemId) : Draft :=
  match draft.parent? sibling with
  | none => draft
  | some parent =>
    let before := draft.before? sibling
    let draft := draft.modify id fun e =>
      { e with parent := some parent, before, after := some sibling }
    let draft := draft.modify? before fun e => { e with after := some id }
    let draft := draft.modify sibling fun e => { e with before := some id }
    draft.modify parent fun e =>
      let ends := e.ends.map fun (first, last) => (if first = sibling then id else first, last)
      { e with ends }

/-- Moves an item directly before another, or nowhere if that names no parent. -/
def insertBefore (draft : Draft) (sibling id : ItemId) : Draft :=
  (draft.detach id).insertAt sibling id

/-- Puts a text directly before an item, or nowhere if that names no parent. -/
def insertTextBefore (draft : Draft) (sibling : ItemId) (text : String) : Draft :=
  if (draft.parent? sibling).isNone then draft
  else
    match (draft.before? sibling).bind fun before => draft.extendText? before text with
    | some draft => draft
    | none =>
      let (id, draft) := draft.create (.text text)
      draft.insertAt sibling id

/-- Moves the children of an item to the end of those of another.  The first and the last of them
are told of their new parent. -/
def moveChildren (draft : Draft) (source target : ItemId) : Draft :=
  match draft.ends? source with
  | none => draft
  | some (first, last) =>
    let draft := draft.modify source fun e => { e with ends := none }
    let draft := draft.modify first fun e => { e with parent := some target }
    let draft := draft.modify last fun e => { e with parent := some target }
    match draft.ends? target with
    | none => draft.modify target fun e => { e with ends := some (first, last) }
    | some (start, previous) =>
      let draft := draft.modify previous fun e => { e with after := some first }
      let draft := draft.modify first fun e => { e with before := some previous }
      draft.modify target fun e => { e with ends := some (start, last) }

/-- Creates an element; a template comes with a fragment for its contents. -/
def createElement (draft : Draft) (name : Name) (attributes : List Attribute) : ItemId × Draft :=
  let (id, draft) := draft.create (.element name (sortAttributes attributes))
  if name.isHtml "template" then
    let (contents, draft) := draft.create .fragment
    (id, draft.append id contents)
  else (id, draft)

/-- The item that holds the contents of a template. -/
def contentsOf (draft : Draft) (template : ItemId) : ItemId :=
  (draft.first? template).getD template

/-- Gives an element the attributes that it lacks. -/
def addAttributes (draft : Draft) (id : ItemId) (new : List Attribute) : Draft :=
  draft.modify id fun e =>
    match e.item with
    | .element name attributes =>
      { e with
        item := .element name (new.foldl (fun sorted a => insertAttribute a sorted) attributes) }
    | _ => e

/-! ## The finished tree -/

/-- An item and those after it, up to `last`, `limit` of them at most. -/
def through (draft : Draft) (last : ItemId) : Nat → ItemId → List ItemId
  | 0, _ => []
  | limit + 1, id =>
    if id = last then [id]
    else
      match draft.after? id with
      | some next => id :: through draft last limit next
      | none => [id]

/-- The children of an item. -/
def childrenOf (draft : Draft) (id : ItemId) : List ItemId :=
  match draft.ends? id with
  | none => []
  | some (first, last) => draft.through last draft.entries.size first

/-- The tree below an item, `depth` levels deep at most. -/
def treeAt (draft : Draft) : Nat → ItemId → Tree
  | 0, _ => .node .fragment []
  | depth + 1, id =>
    match draft.entry? id with
    | none => .node .fragment []
    | some entry => .node entry.item ((draft.childrenOf id).map (draft.treeAt depth))

/-- The tree below an item.  As a draft has finitely many items and no item stands below itself, the
number of items bounds the depth. -/
def tree (draft : Draft) (id : ItemId) : Tree := draft.treeAt draft.entries.size id

/-- A stop on a walk: an item is entered or left. -/
inductive Stop where
  | entering (id : ItemId)
  | leaving (id : ItemId)

namespace Stop

/-- The edge of a stop. -/
def edge? (draft : Draft) : Stop → Option Edge
  | entering id => (draft.entry? id).map fun e => .opening e.item
  | leaving id => (draft.entry? id).map fun e => .closing e.item

/-- The next stop of a walk that ends when `top` is left. -/
def next? (draft : Draft) (top : ItemId) : Stop → Option Stop
  | entering id =>
    match draft.first? id with
    | some child => some (.entering child)
    | none => some (.leaving id)
  | leaving id =>
    if id = top then none
    else
      match draft.after? id with
      | some sibling => some (.entering sibling)
      | none => (draft.parent? id).map .leaving

/-- Whether a stop is at an item. -/
def isAt (id : ItemId) : Stop → Bool
  | entering other => other == id
  | leaving other => other == id

end Stop

/-- The stops of a walk that ends when `top` is left, from one of them on: at most `limit`. -/
def stopsFrom (draft : Draft) (top : ItemId) : Nat → Stop → List Stop
  | 0, _ => []
  | limit + 1, stop =>
    match stop.next? draft top with
    | some next => stop :: stopsFrom draft top limit next
    | none => [stop]

/-- The stops of the walk through what is below an item.  Where it goes from a stop depends on the
stop alone, so a walk with more stops than there are would never end. -/
def stops (draft : Draft) (top : ItemId) : List Stop :=
  draft.stopsFrom top (2 * draft.entries.size) (.entering top)

/-- The edges of the walk through what is below an item, but for those of the item itself. -/
def walk (draft : Draft) (top : ItemId) : List Edge :=
  ((draft.stops top).filter fun stop => !stop.isAt top).filterMap (Stop.edge? draft)

/-- The nodes that the items below an item become. -/
def nodesBelow (draft : Draft) (top : ItemId) : List Node := Conversion.play (draft.walk top)

end Draft

/-- Parsed markup: a finished draft, and the item that all others stand below. -/
structure Parsed where
  draft : Draft
  top : ItemId

namespace Parsed

/-- The root element of parsed markup. -/
def rootElement? (parsed : Parsed) : Option ItemId :=
  (parsed.draft.childrenOf parsed.top).find? fun id =>
    (parsed.draft.entry? id).any fun e => e.item.isElement

end Parsed

end CellAlign.Markup
