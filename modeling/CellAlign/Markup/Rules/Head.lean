import CellAlign.Markup.Foreign
import CellAlign.Markup.Formatting

/-!
# Rules before and inside the head

Tokens that come before the first element of the head or the body open the elements around it, even
if no tag stands for them.  A rule answers the token if it is to be taken again, in the mode that
the rule has set.
-/

namespace CellAlign.Markup

/-- A rule: a step that may answer a token to be taken again. -/
abbrev Rule : Type := Build (Option Token)

namespace Rule

open Build

/-- Nothing is left to do. -/
def done : Rule := return none

/-- The token is to be taken again in another mode. -/
def again (mode : Mode) (token : Token) : Rule := do
  setMode mode
  return some token

/-- Adds the attributes of a repeated root tag to the root. -/
def mergeRoot (tag : Tag) : Build Unit :=
  modify fun b =>
    if b.opened.has "template" then b
    else
      match b.opened.getLast? with
      | some root => { b with draft := b.draft.addAttributes root.id (plainAttributes tag) }
      | none => b

/-- The start tags that the head treats in a way of its own, wherever they stand. -/
def headTags : List String :=
  ["base", "basefont", "bgsound", "link", "meta", "noframes", "script", "style", "template",
    "title"]

/-- Whether the tag of a template asks for its contents to be a hidden part of the element that it
stands in. -/
def asksForHiding (tag : Tag) : Bool :=
  tag.attributes.any fun (name, value) =>
    name == "shadowrootmode" && (value == "open" || value == "close")

/-- Opens a template.  One that asks for hiding anywhere but directly inside the root leaves no
element, so what would be its contents belongs to the element around it. -/
def openTemplate (tag : Tag) : Build Unit := do
  pushMark
  forbidFrameset
  modify fun b => { b with mode := .inTemplate, templateModes := .inTemplate :: b.templateModes }
  if !(asksForHiding tag && 1 < (← get).opened.length) then openFor tag

/-- Closes a template, if one is open. -/
def closeTemplate : Build Unit := do
  if (← get).opened.has "template" then
    onOpened (·.closeImplied NameSet.thoroughEnd)
    closeNamed "template"
    clearToMark
    modify fun b => { b with templateModes := b.templateModes.drop 1 }
    resetMode

/-- The rule of one of `headTags`. -/
def headTag (tag : Tag) : Build Unit :=
  match tag.name with
  | "title" => openText tag (.escapable "title")
  | "noframes" => openText tag (.raw "noframes")
  | "style" => openText tag (.raw "style")
  | "script" => openText tag .script
  | "template" => openTemplate tag
  | _ => addFor tag

/-- Whether an end tag opens the elements before it that are not there, and does not count for
nothing. -/
def impliesBody (name : String) : Bool := ["body", "html", "br"].contains name

/-- Before anything but comments. -/
def initial (token : Token) : Rule :=
  match token with
  | .space _ => done
  | .comment text => do
    addCommentTo (← get).document text
    done
  | token => do
    modify fun b => { b with loose := true }
    again .beforeHtml token

/-- Before the root. -/
def beforeHtml (token : Token) : Rule :=
  let implied : Rule := do
    openRoot []
    again .beforeHead token
  match token with
  | .space _ => done
  | .comment text => do
    addCommentTo (← get).document text
    done
  | .startTag tag =>
    if tag.name = "html" then do
      openRoot (plainAttributes tag)
      setMode .beforeHead
      done
    else implied
  | .endTag name => if name = "head" || impliesBody name then implied else done
  | _ => implied

/-- Opens the head. -/
def openHead (tag : Tag) : Build Unit := do
  let e ← openTag tag
  modify fun b => { b with head := some e.id }

/-- Before the head. -/
def beforeHead (token : Token) : Rule :=
  let implied : Rule := do
    openHead { name := "head" }
    again .inHead token
  match token with
  | .space _ => done
  | .comment text => do
    addComment text
    done
  | .startTag tag =>
    if tag.name = "html" then do
      mergeRoot tag
      done
    else if tag.name = "head" then do
      openHead tag
      setMode .inHead
      done
    else implied
  | .endTag name => if name = "head" || impliesBody name then implied else done
  | _ => implied

/-- Inside the head. -/
def inHead (token : Token) : Rule :=
  let after : Rule := do
    close
    again .afterHead token
  match token with
  | .space run => do
    addText run
    done
  | .comment text => do
    addComment text
    done
  | .startTag tag =>
    if tag.name = "html" then do
      mergeRoot tag
      done
    else if headTags.contains tag.name then do
      headTag tag
      done
    else if tag.name = "noscript" then do
      openText tag (.raw "noscript")
      done
    else if tag.name = "head" then done
    else after
  | .endTag name =>
    if name = "head" then do
      close
      setMode .afterHead
      done
    else if name = "template" then do
      closeTemplate
      done
    else if impliesBody name then after
    else done
  | _ => after

/-- Between the head and the body. -/
def afterHead (token : Token) : Rule :=
  let implied : Rule := do
    openFor { name := "body" }
    again .inBody token
  match token with
  | .space run => do
    addText run
    done
  | .comment text => do
    addComment text
    done
  | .startTag tag =>
    if tag.name = "html" then do
      mergeRoot tag
      done
    else if tag.name = "body" then do
      openFor tag
      forbidFrameset
      setMode .inBody
      done
    else if tag.name = "frameset" then do
      openFor tag
      setMode .inFrameset
      done
    else if headTags.contains tag.name then do
      match (← get).head with
      | some head => do
        push { id := head, name := .html "head" }
        headTag tag
        onOpened (·.remove head)
        done
      | none => done
    else if tag.name = "head" then done
    else implied
  | .endTag name =>
    if name = "template" then do
      closeTemplate
      done
    else if impliesBody name then implied
    else done
  | _ => implied

end Rule

end CellAlign.Markup
