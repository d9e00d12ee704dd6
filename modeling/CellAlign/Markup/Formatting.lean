import CellAlign.Markup.Builder

/-!
# Formatting elements

Elements such as `b` and `a` go on past the end of the block they were opened in: whatever closed
them, they are opened again for the next text.  When one is closed out of turn, with a block open
inside it, the block is taken out and the formatting is opened anew inside the block (`adopt`).
-/

namespace CellAlign.Markup.Build

/-- The formatting elements behind the latest mark, latest first. -/
def recent : List Format → List (ItemId × Tag)
  | [] => []
  | .mark :: _ => []
  | .element id tag :: rest => (id, tag) :: recent rest

/-- Whether an entry is that of an element. -/
def isFor (id : ItemId) : Format → Bool
  | .element other _ => other == id
  | .mark => false

/-- The tag of a formatting element. -/
def formatTag? (formats : List Format) (id : ItemId) : Option Tag :=
  formats.findSome? fun f =>
    match f with
    | .element other tag => if other = id then some tag else none
    | .mark => none

/-- Takes an element off the list. -/
def dropFormat (formats : List Format) (id : ItemId) : List Format :=
  formats.filter fun f => !isFor id f

/-- Puts another element in the place of one on the list. -/
def replaceFormat (formats : List Format) (id : ItemId) (new : Format) : List Format :=
  formats.map fun f => if isFor id f then new else f

/-- Puts an element on the list directly later than another. -/
def insertLater (formats : List Format) (id : ItemId) (new : Format) : List Format :=
  formats.flatMap fun f => if isFor id f then [new, f] else [f]

/-- Whether nothing has to be opened again because of an entry. -/
def isSettled (opened : OpenElements) : Format → Bool
  | .mark => true
  | .element id _ => opened.contains id

/-- Opens elements again, the earliest first, and answers their new entries, latest first. -/
def reopenEach : List Format → Build (List Format)
  | [] => return []
  | .mark :: rest => reopenEach rest
  | .element _ tag :: rest => do
    let later ← reopenEach rest
    let e ← openTag tag
    return .element e.id tag :: later

/-- Opens the formatting elements again that were closed since the latest mark. -/
def reopenFormats : Build Unit := do
  let b ← get
  let closed := b.formats.takeWhile fun f => !isSettled b.opened f
  let settled := b.formats.dropWhile fun f => !isSettled b.opened f
  let reopened ← reopenEach closed
  modify fun b => { b with formats := reopened ++ settled }

/-- Whether two tags are the same up to the order of their attributes. -/
def sameTag (a b : Tag) : Bool :=
  a.name == b.name && a.attributes.length == b.attributes.length &&
    a.attributes.all fun pair => b.attributes.contains pair

/-- Opens a formatting element.  No more than three of the same tag are kept on the list. -/
def openFormat (tag : Tag) : Build Unit := do
  let twins := (recent (← get).formats).filter fun (_, other) => sameTag tag other
  if 3 ≤ twins.length then
    match twins.getLast? with
    | some (id, _) => modify fun b => { b with formats := dropFormat b.formats id }
    | none => return
  let e ← openTag tag
  modify fun b => { b with formats := .element e.id tag :: b.formats }

/-- Closes the innermost element of a name, unless a special element is open inside it. -/
def closeGeneric (name : String) : Build Unit := onOpened fun opened => close opened opened
where
  /-- What is left of `all` if the search goes on in `rest`. -/
  close (all : OpenElements) : OpenElements → OpenElements
    | [] => all
    | e :: rest =>
      if e.name.isHtml name then rest
      else if NameSet.special e.name then all
      else close all rest

/-- Where the new entry of a formatting element goes: in the place of the old one, or directly later
than another one. -/
inductive Bookmark where
  | replacing
  | laterThan (id : ItemId)

/-- Goes through the elements between a block and the formatting element around it, from the inside.
Those that are no formatting elements are closed, and so are all but the first three; the others
are opened anew, each around what was gathered before.  Answers the elements that stay open, what was
gathered, and where the new entry goes. -/
def rewrap (count : Nat) (gathered : ItemId) (isBlock : Bool) (bookmark : Bookmark) :
    OpenElements → Build (OpenElements × ItemId × Bookmark)
  | [] => return ([], gathered, bookmark)
  | e :: rest => do
    let b ← get
    match formatTag? b.formats e.id with
    | none => rewrap (count + 1) gathered isBlock bookmark rest
    | some tag =>
      if 3 ≤ count then
        modify fun b => { b with formats := dropFormat b.formats e.id }
        rewrap (count + 1) gathered isBlock bookmark rest
      else
        let name := Name.html tag.name
        let (id, draft) := b.draft.createElement name (plainAttributes tag)
        let formats := replaceFormat b.formats e.id (.element id tag)
        set { b with draft := draft.append id gathered, formats }
        let bookmark := if isBlock then .laterThan id else bookmark
        let (kept, gathered, bookmark) ← rewrap (count + 1) id false bookmark rest
        return ({ id, name } :: kept, gathered, bookmark)

/-- Takes the block out of a formatting element and opens the formatting anew inside it.  Both are
open, with the elements `inner` inside the block, `between` the two, and `outer` around the
formatting element. -/
def takeOut (format block : OpenElement) (tag : Tag) (inner between outer : OpenElements) :
    Build Unit := do
  let (kept, gathered, bookmark) ← rewrap 0 block.id true .replacing between
  let b ← get
  let place :=
    match outer with
    | around :: _ => placeIn b around
    | [] => .inside b.document
  let draft := putItem (b.draft.detach gathered) place gathered
  let name := Name.html tag.name
  let (id, draft) := draft.createElement name (plainAttributes tag)
  let draft := (draft.moveChildren block.id id).append block.id id
  let new := Format.element id tag
  let formats :=
    match bookmark with
    | .replacing => replaceFormat b.formats format.id new
    | .laterThan other => dropFormat (insertLater b.formats other new) format.id
  let reopened : OpenElement := { id, name }
  set { b with draft, formats, opened := inner ++ reopened :: block :: (kept ++ outer) }

/-- One round of closing a formatting element of a name.  Answers whether there may be another one to
close. -/
def adoptOnce (name : String) : Build Bool := do
  let b ← get
  match (recent b.formats).find? fun (_, tag) => tag.name == name with
  | none =>
    closeGeneric name
    return false
  | some (id, tag) =>
    let inside := b.opened.takeWhile fun e => e.id != id
    match b.opened.dropWhile fun e => e.id != id with
    | [] =>
      modify fun b => { b with formats := dropFormat b.formats id }
      return false
    | format :: outer =>
      if !b.opened.inScope NameSet.defaultScope (fun e => e.id == id) then return false
      else
        let between := inside.reverse.takeWhile fun e => !NameSet.special e.name
        match inside.reverse.dropWhile fun e => !NameSet.special e.name with
        | [] =>
          modify fun b => { b with opened := outer, formats := dropFormat b.formats id }
          return false
        | block :: inner =>
          takeOut format block tag inner.reverse between.reverse outer
          return true

/-- Closes formatting elements of a name, for a number of rounds at most. -/
def adoptTimes (name : String) : Nat → Build Unit
  | 0 => return
  | rounds + 1 => do
    if ← adoptOnce name then adoptTimes name rounds

/-- Closes the formatting element of a name. -/
def adopt (name : String) : Build Unit := do
  let b ← get
  match b.opened with
  | [] => return
  | current :: rest =>
    if current.name.isHtml name && (formatTag? b.formats current.id).isNone then
      set { b with opened := rest }
    else adoptTimes name 8

/-- Closes a link that is still open when another one starts. -/
def closeLink : Build Unit := do
  match (recent (← get).formats).find? fun (_, tag) => tag.name == "a" with
  | none => return
  | some (id, _) =>
    adopt "a"
    modify fun b =>
      { b with formats := dropFormat b.formats id, opened := b.opened.remove id }

end CellAlign.Markup.Build
