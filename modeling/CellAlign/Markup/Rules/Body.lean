import CellAlign.Markup.Rules.Head

/-!
# Rules inside the body

Most tokens open or close an element, after closing those that it cannot stand in: a paragraph ends
before a block, an item before the next item, a heading before another heading.  An end tag closes
what is open inside its element, but only if that element is open within the boundary of its kind.
-/

namespace CellAlign.Markup.Rule

open Build

/-- The blocks that end a paragraph. -/
def blockTags : List String :=
  ["address", "article", "aside", "blockquote", "center", "details", "dialog", "dir", "div", "dl",
    "fieldset", "figcaption", "figure", "footer", "header", "hgroup", "main", "menu", "nav", "ol",
    "p", "search", "section", "summary", "ul"]

/-- The end tags that close a block. -/
def blockEndTags : List String :=
  ["address", "article", "aside", "blockquote", "button", "center", "details", "dialog", "dir",
    "div", "dl", "fieldset", "figcaption", "figure", "footer", "header", "hgroup", "listing",
    "main", "menu", "nav", "ol", "pre", "search", "section", "summary", "ul"]

/-- Headings. -/
def headingTags : List String := ["h1", "h2", "h3", "h4", "h5", "h6"]

/-- Formatting elements of which any number may be nested. -/
def formatTags : List String :=
  ["b", "big", "code", "em", "font", "i", "s", "small", "strike", "strong", "tt", "u"]

/-- Elements that bound the formatting inside them. -/
def objectTags : List String := ["applet", "marquee", "object"]

/-- Start tags that mean nothing in the body. -/
def strayTags : List String :=
  ["caption", "col", "colgroup", "frame", "head", "tbody", "td", "tfoot", "th", "thead", "tr"]

/-- The body, if it is where it should be: second from the bottom of the stack. -/
def bodyElement? (opened : OpenElements) : Option OpenElement :=
  match opened.reverse with
  | _ :: body :: _ => if body.name.isHtml "body" then some body else none
  | _ => none

/-- Adds the attributes of a repeated body tag to the body. -/
def mergeBody (tag : Tag) : Build Unit := do
  let b ← get
  match bodyElement? b.opened with
  | some body =>
    if !b.opened.has "template" then
      set { b with
        framesetAllowed := false
        draft := b.draft.addAttributes body.id (plainAttributes tag) }
  | none => return

/-- Puts a frameset in the place of the body, if nothing speaks against it. -/
def replaceBody (tag : Tag) : Build Unit := do
  let b ← get
  if b.framesetAllowed then
    match bodyElement? b.opened with
    | some body =>
      set { b with draft := b.draft.detach body.id, opened := b.opened.getLast?.toList }
      openFor tag
      setMode .inFrameset
    | none => return

/-- Opens a form, unless one is open already. -/
def openForm (tag : Tag) : Build Unit := do
  let b ← get
  let inTemplate := b.opened.has "template"
  if b.form.isSome && !inTemplate then return
  closeParagraphInButton
  let e ← openTag tag
  if !inTemplate then modify fun b => { b with form := some e.id }

/-- The name of the item that a new item of the same list closes, if there is one. -/
def itemToClose (names : List String) : OpenElements → Option String
  | [] => none
  | e :: rest =>
    if e.name.isHtmlIn names then some e.name.localName
    else if NameSet.special e.name && !e.name.isHtmlIn ["address", "div", "p"] then none
    else itemToClose names rest

/-- Opens an item of a list. -/
def openItem (names : List String) (tag : Tag) : Build Unit := do
  forbidFrameset
  match itemToClose names (← get).opened with
  | some name =>
    closeImpliedBut name
    closeNamed name
  | none => pure ()
  closeParagraphInButton
  openFor tag

/-- Opens a button; one that is open already ends. -/
def openButton (tag : Tag) : Build Unit := do
  if (← get).opened.hasInScope NameSet.defaultScope "button" then
    closeImplied
    closeNamed "button"
  reopenFormats
  openFor tag
  forbidFrameset

/-- Whether an input is hidden. -/
def isHidden (tag : Tag) : Bool :=
  tag.attributes.any fun (name, value) => name == "type" && value.toLower == "hidden"

/-- Opens a select.  Inside a table its rules are others than elsewhere. -/
def openSelect (tag : Tag) : Build Unit := do
  reopenFormats
  openFor tag
  modify fun b =>
    { b with
      framesetAllowed := false
      mode :=
        if [Mode.inTable, .inCaption, .inTableBody, .inRow, .inCell].contains b.mode then
          .inSelectInTable
        else .inSelect }

/-- The rule of a start tag in the body. -/
def bodyStart (tag : Tag) : Build Unit := do
  let tag := if tag.name = "image" then { tag with name := "img" } else tag
  let name := tag.name
  if name = "html" then mergeRoot tag
  else if headTags.contains name then headTag tag
  else if name = "body" then mergeBody tag
  else if name = "frameset" then replaceBody tag
  else if blockTags.contains name then
    closeParagraphInButton
    openFor tag
  else if headingTags.contains name then
    closeParagraphInButton
    if (← get).opened.currentIn NameSet.heading then close
    openFor tag
  else if name = "pre" || name = "listing" then
    closeParagraphInButton
    openFor tag
    modify fun b => { b with dropLineFeed := true, framesetAllowed := false }
  else if name = "form" then openForm tag
  else if name = "li" then openItem ["li"] tag
  else if name = "dd" || name = "dt" then openItem ["dd", "dt"] tag
  else if name = "plaintext" then
    closeParagraphInButton
    openFor tag
    modify fun b => { b with region := .plain }
  else if name = "button" then openButton tag
  else if name = "a" then
    closeLink
    reopenFormats
    openFormat tag
  else if formatTags.contains name then
    reopenFormats
    openFormat tag
  else if name = "nobr" then
    reopenFormats
    if (← get).opened.hasInScope NameSet.defaultScope "nobr" then
      adopt "nobr"
      reopenFormats
    openFormat tag
  else if objectTags.contains name then
    reopenFormats
    openFor tag
    pushMark
    forbidFrameset
  else if name = "table" then
    if !(← get).loose then closeParagraphInButton
    openFor tag
    forbidFrameset
    setMode .inTable
  else if ["area", "br", "embed", "img", "keygen", "wbr", "input"].contains name then
    reopenFormats
    addFor tag
    if !(name = "input" && isHidden tag) then forbidFrameset
  else if ["param", "source", "track"].contains name then addFor tag
  else if name = "hr" then
    closeParagraphInButton
    addFor tag
    forbidFrameset
  else if name = "textarea" then
    modify fun b => { b with dropLineFeed := true, framesetAllowed := false }
    openText tag (.escapable name)
  else if name = "xmp" then
    closeParagraphInButton
    reopenFormats
    forbidFrameset
    openText tag (.raw name)
  else if name = "iframe" then
    forbidFrameset
    openText tag (.raw name)
  else if name = "noembed" || name = "noscript" then openText tag (.raw name)
  else if name = "select" then openSelect tag
  else if name = "optgroup" || name = "option" then
    if (← get).opened.currentIs "option" then close
    reopenFormats
    openFor tag
  else if name = "rb" || name = "rtc" then
    if (← get).opened.hasInScope NameSet.defaultScope "ruby" then closeImplied
    openFor tag
  else if name = "rp" || name = "rt" then
    if (← get).opened.hasInScope NameSet.defaultScope "ruby" then closeImpliedBut "rtc"
    openFor tag
  else if name = "math" then Foreign.enter .mathml tag
  else if name = "svg" then Foreign.enter .svg tag
  else if strayTags.contains name then return
  else
    reopenFormats
    openFor tag

/-- Closes a form. -/
def closeForm : Build Unit := do
  let b ← get
  if b.opened.has "template" then
    if b.opened.hasInScope NameSet.defaultScope "form" then
      closeImplied
      closeNamed "form"
  else
    match b.form with
    | none => return
    | some form =>
      modify fun b => { b with form := none }
      if b.opened.inScope NameSet.defaultScope fun e => e.id == form then
        closeImplied
        onOpened (·.remove form)

/-- Closes the innermost element of a name inside a boundary, after those whose end is implied. -/
def closeInScope (boundary : NameSet) (name : String) : Build Bool := do
  if (← get).opened.hasInScope boundary name then
    closeImplied
    closeNamed name
    return true
  else return false

/-- Closes an item of a list. -/
def closeItem (boundary : NameSet) (name : String) : Build Unit := do
  if (← get).opened.hasInScope boundary name then
    closeImpliedBut name
    closeNamed name

/-- The rule of an end tag in the body, but for those of body and root. -/
def bodyEnd (name : String) : Build Unit := do
  if name = "template" then closeTemplate
  else if blockEndTags.contains name then
    let _ ← closeInScope NameSet.defaultScope name
  else if name = "form" then closeForm
  else if name = "p" then
    if !(← get).opened.hasInScope NameSet.buttonScope "p" then openFor { name := "p" }
    closeParagraph
  else if name = "li" then closeItem NameSet.listScope name
  else if name = "dd" || name = "dt" then closeItem NameSet.defaultScope name
  else if headingTags.contains name then
    if (← get).opened.inScope NameSet.defaultScope fun e => NameSet.heading e.name then
      closeImplied
      onOpened (·.closeThrough NameSet.heading)
  else if name = "a" || name = "nobr" || formatTags.contains name then adopt name
  else if objectTags.contains name then
    if ← closeInScope NameSet.defaultScope name then clearToMark
  else if name = "br" then bodyStart { name }
  else closeGeneric name

/-- The end of the text while templates are open. -/
def finishTemplate : Rule := do
  if (← get).opened.has "template" then
    closeNamed "template"
    clearToMark
    modify fun b => { b with templateModes := b.templateModes.drop 1 }
    resetMode
    return some .finish
  else done

/-- Inside the body. -/
def inBody (token : Token) : Rule :=
  match token with
  | .space run => do
    reopenFormats
    addText run
    done
  | .text run => do
    reopenFormats
    forbidFrameset
    addText run
    done
  | .comment text => do
    addComment text
    done
  | .startTag tag => do
    bodyStart tag
    done
  | .endTag name => do
    if name = "body" || name = "html" then
      if (← get).opened.hasInScope NameSet.defaultScope "body" then
        setMode .afterBody
        return if name = "html" then some token else none
      else done
    else
      bodyEnd name
      done
  | .finish => do
    if (← get).templateModes.isEmpty then done else finishTemplate
  | _ => done

/-- Inside an element of raw text. -/
def inText (token : Token) : Rule :=
  let leave : Build Unit := do
    close
    modify fun b => { b with mode := b.returnMode, region := .markup }
  match token with
  | .space run => do
    addText run
    done
  | .text run => do
    addText run
    done
  | .finish => do
    leave
    return some token
  | .endTag _ => do
    leave
    done
  | _ => done

end CellAlign.Markup.Rule
