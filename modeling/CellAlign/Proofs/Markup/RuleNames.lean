import CellAlign.Markup.Construction
import CellAlign.Proofs.Markup.Building
import CellAlign.Proofs.Markup.TokenNames

/-!
# Names of attributes in parsed markup

Every rule of the construction keeps the names of attributes: it makes elements from the tags that
it is given and from tags without attributes, moves items and adds texts.  The tokens that it is
given come from the lexer, which reads names in lower case.  So whatever the text, each attribute of
the parsed tree has a name that attributes have.

A proof states what the rules that are called keep; the steps in between are those of all rules.

* `Rule.keeps_inBody`, `Rule.keeps_inTable`: the rules, each from those that it calls;
* `Rule.keeps_ofMode`, `Rule.keeps_inForeign`: all of them together;
* `keeps_buildAll`: all rounds of the construction;
* `named_parseDocument`, `named_parseFragment`: parsed trees.
-/

namespace CellAlign.Markup

open Build

/-! ## Tokens -/

@[grind =]
theorem named_startTag {tag : Tag} : Named (Token.startTag tag) ↔ Named tag := Iff.rfl

@[grind ←]
theorem named_textToken (run : String) : Named (Token.text run) := trivial

@[grind ←]
theorem named_spaceToken (run : String) : Named (Token.space run) := trivial

@[grind ←]
theorem named_finish : Named Token.finish := trivial

/-- Tokens that were put aside, in the order in which they came. -/
@[grind ←]
theorem named_reverse {collected : List Token} (h : Named collected) : Named collected.reverse :=
  fun token htoken => h token (List.mem_reverse.mp htoken)

/-! ## Foreign elements -/

namespace Foreign

theorem keeps_add (space : Namespace) (name : Name) {tag : Tag} (h : Named tag) :
    Keeps (add space name tag) := by
  grind [add]

theorem keeps_enter (space : Namespace) {tag : Tag} (h : Named tag) : Keeps (enter space tag) :=
  keeps_add space _ h

theorem keeps_addInside {tag : Tag} (h : Named tag) : Keeps (addInside tag) := by
  have hadd (space : Namespace) (name : Name) : Keeps (add space name tag) := keeps_add space name h
  grind [addInside]

end Foreign

namespace Rule

/-! ## The head -/

@[grind ←]
theorem keeps_done : Keeps done := Keeps.pure (named_none.mpr trivial)

@[grind ←]
theorem keeps_again (mode : Mode) {token : Token} (h : Named token) : Keeps (again mode token) :=
  Keeps.bind (keeps_setMode mode) fun _ _ => Keeps.pure (named_some.mpr h)

theorem keeps_mergeRoot {tag : Tag} (h : Named tag) : Keeps (mergeRoot tag) := by
  grind [mergeRoot]

theorem keeps_openTemplate {tag : Tag} (h : Named tag) : Keeps (openTemplate tag) := by
  grind [openTemplate]

theorem keeps_closeTemplate : Keeps closeTemplate := by
  have hclose : Keeps (do
      closeNamed "template"
      clearToMark
      modify fun b => { b with templateModes := b.templateModes.drop 1 }
      resetMode) := by
    grind
  grind [closeTemplate]

theorem keeps_headTag {tag : Tag} (h : Named tag) : Keeps (headTag tag) := by
  have htemplate : Keeps (openTemplate tag) := keeps_openTemplate h
  grind [headTag]

theorem keeps_initial {token : Token} (h : Named token) : Keeps (initial token) := by
  cases token <;> grind [initial]

theorem keeps_beforeHtml {token : Token} (h : Named token) : Keeps (beforeHtml token) := by
  cases token <;> grind [beforeHtml]

theorem keeps_openHead {tag : Tag} (h : Named tag) : Keeps (openHead tag) := by
  grind [openHead]

theorem keeps_beforeHead {token : Token} (h : Named token) : Keeps (beforeHead token) := by
  have hmerge (tag : Tag) (htag : Named tag) : Keeps (mergeRoot tag) := keeps_mergeRoot htag
  have hopen (tag : Tag) (htag : Named tag) : Keeps (openHead tag) := keeps_openHead htag
  cases token <;> grind [beforeHead]

theorem keeps_inHead {token : Token} (h : Named token) : Keeps (inHead token) := by
  have hmerge (tag : Tag) (htag : Named tag) : Keeps (mergeRoot tag) := keeps_mergeRoot htag
  have hhead (tag : Tag) (htag : Named tag) : Keeps (headTag tag) := keeps_headTag htag
  have hclose : Keeps closeTemplate := keeps_closeTemplate
  cases token <;> grind [inHead]

theorem keeps_afterHead {token : Token} (h : Named token) : Keeps (afterHead token) := by
  have hmerge (tag : Tag) (htag : Named tag) : Keeps (mergeRoot tag) := keeps_mergeRoot htag
  have hhead (tag : Tag) (htag : Named tag) : Keeps (headTag tag) := keeps_headTag htag
  have hclose : Keeps closeTemplate := keeps_closeTemplate
  cases token <;> grind [afterHead]

/-! ## The body -/

theorem keeps_mergeBody {tag : Tag} (h : Named tag) : Keeps (mergeBody tag) := by
  grind [mergeBody]

theorem keeps_replaceBody {tag : Tag} (h : Named tag) : Keeps (replaceBody tag) := by
  grind [replaceBody]

theorem keeps_openForm {tag : Tag} (h : Named tag) : Keeps (openForm tag) := by
  grind [openForm]

theorem keeps_openItem (names : List String) {tag : Tag} (h : Named tag) :
    Keeps (openItem names tag) := by
  have hopen : Keeps (do closeParagraphInButton; openFor tag) := by grind
  grind [openItem]

theorem keeps_openButton {tag : Tag} (h : Named tag) : Keeps (openButton tag) := by
  have hopen : Keeps (do reopenFormats; openFor tag; forbidFrameset) := by grind
  grind [openButton]

theorem keeps_openSelect {tag : Tag} (h : Named tag) : Keeps (openSelect tag) := by
  grind [openSelect]

/-- All start tags in the body: what they have in common is that they keep their attributes. -/
theorem keeps_bodyStart {tag : Tag} (h : Named tag) : Keeps (bodyStart tag) := by
  have hrenamed : Named (if tag.name = "image" then { tag with name := "img" } else tag) := by
    split <;> exact h
  unfold bodyStart
  generalize (if tag.name = "image" then { tag with name := "img" } else tag) = tag at hrenamed
  have hmerge : Keeps (mergeRoot tag) := keeps_mergeRoot hrenamed
  have hhead : Keeps (headTag tag) := keeps_headTag hrenamed
  have hbody : Keeps (mergeBody tag) := keeps_mergeBody hrenamed
  have hreplace : Keeps (replaceBody tag) := keeps_replaceBody hrenamed
  have hform : Keeps (openForm tag) := keeps_openForm hrenamed
  have hitem (names : List String) : Keeps (openItem names tag) := keeps_openItem names hrenamed
  have hbutton : Keeps (openButton tag) := keeps_openButton hrenamed
  have hselect : Keeps (openSelect tag) := keeps_openSelect hrenamed
  have hforeign (space : Namespace) : Keeps (Foreign.enter space tag) :=
    Foreign.keeps_enter space hrenamed
  repeat' with_reducible refine Keeps.ite ?_ ?_
  all_goals grind

theorem keeps_closeForm : Keeps closeForm := by
  grind [closeForm]

theorem keeps_closeInScope (boundary : NameSet) (name : String) :
    Keeps (closeInScope boundary name) := by
  grind [closeInScope]

theorem keeps_closeItem (boundary : NameSet) (name : String) : Keeps (closeItem boundary name) := by
  grind [closeItem]

theorem keeps_bodyEnd (name : String) : Keeps (bodyEnd name) := by
  have htemplate : Keeps closeTemplate := keeps_closeTemplate
  have hform : Keeps closeForm := keeps_closeForm
  have hscope : Keeps (closeInScope NameSet.defaultScope name) := keeps_closeInScope _ _
  have hitem (boundary : NameSet) : Keeps (closeItem boundary name) := keeps_closeItem boundary name
  have hstart : Keeps (bodyStart { name }) := keeps_bodyStart (named_bareTag name)
  unfold bodyEnd
  repeat' with_reducible refine Keeps.ite ?_ ?_
  all_goals grind

theorem keeps_finishTemplate : Keeps finishTemplate := by
  grind [finishTemplate]

theorem keeps_inBody {token : Token} (h : Named token) : Keeps (inBody token) := by
  have hstart (tag : Tag) (htag : Named tag) : Keeps (bodyStart tag) := keeps_bodyStart htag
  have hend (name : String) : Keeps (bodyEnd name) := keeps_bodyEnd name
  have hfinish : Keeps finishTemplate := keeps_finishTemplate
  cases token <;> grind [inBody]

theorem keeps_inText {token : Token} (h : Named token) : Keeps (inText token) := by
  cases token <;> grind [inText]

/-! ## Tables -/

theorem keeps_foster {token : Token} (h : Named token) : Keeps (foster token) := by
  have hbody : Keeps (inBody token) := keeps_inBody h
  grind [foster]

theorem keeps_tableText {token : Token} (h : Named token) : Keeps (tableText token) := by
  have hfoster : Keeps (foster token) := keeps_foster h
  grind [tableText]

theorem keeps_fosterAll {collected : List Token} (h : Named collected) :
    Keeps (fosterAll collected) := by
  induction collected with
  | nil => exact Keeps.pure trivial
  | cons token more ih =>
      obtain ⟨htoken, hmore⟩ := named_cons.mp h
      exact Keeps.bind (keeps_foster htoken) fun _ _ => ih hmore

theorem keeps_addSpaces (collected : List Token) : Keeps (addSpaces collected) := by
  fun_induction addSpaces collected <;> grind

theorem keeps_inTableText {token : Token} (h : Named token) : Keeps (inTableText token) := by
  have hfoster (collected : List Token) (hcollected : Named collected) :
      Keeps (fosterAll collected) :=
    keeps_fosterAll hcollected
  have hspaces (collected : List Token) : Keeps (addSpaces collected) := keeps_addSpaces collected
  cases token <;> grind [inTableText]

theorem keeps_openPart {tag : Tag} (h : Named tag) (mode : Mode) : Keeps (openPart tag mode) := by
  grind [openPart]

theorem keeps_implyPart (name : String) (mode : Mode) {token : Token} (h : Named token) :
    Keeps (implyPart name mode token) :=
  Keeps.bind (keeps_openPart (named_bareTag name) mode) fun _ _ => Keeps.pure (named_some.mpr h)

theorem keeps_tableStart {tag : Tag} (h : Named tag) : Keeps (tableStart tag) := by
  have hpart (mode : Mode) : Keeps (openPart tag mode) := keeps_openPart h mode
  have himply (name : String) (mode : Mode) : Keeps (implyPart name mode (.startTag tag)) :=
    keeps_implyPart name mode h
  have hhead : Keeps (headTag tag) := keeps_headTag h
  have hfoster : Keeps (foster (.startTag tag)) := keeps_foster h
  unfold tableStart
  repeat' with_reducible refine Keeps.ite ?_ ?_
  all_goals grind [tableStart.again']

theorem keeps_inTable {token : Token} (h : Named token) : Keeps (inTable token) := by
  have hbody : Keeps (inBody token) := keeps_inBody h
  have hfoster : Keeps (foster token) := keeps_foster h
  have htext : Keeps (tableText token) := keeps_tableText h
  have hstart (tag : Tag) (htag : Named tag) : Keeps (tableStart tag) := keeps_tableStart htag
  have hclose : Keeps closeTemplate := keeps_closeTemplate
  cases token <;> grind [inTable]

theorem keeps_closeCaption : Keeps closeCaption := by
  have hclose : Keeps (closeInScope NameSet.tableScope "caption") := keeps_closeInScope _ _
  grind [closeCaption]

theorem keeps_inCaption {token : Token} (h : Named token) : Keeps (inCaption token) := by
  have hbody : Keeps (inBody token) := keeps_inBody h
  have hclose : Keeps closeCaption := keeps_closeCaption
  cases token <;> grind [inCaption]

theorem keeps_inColumnGroup {token : Token} (h : Named token) : Keeps (inColumnGroup token) := by
  have hbody : Keeps (inBody token) := keeps_inBody h
  have hmerge (tag : Tag) (htag : Named tag) : Keeps (mergeRoot tag) := keeps_mergeRoot htag
  have hhead (tag : Tag) (htag : Named tag) : Keeps (headTag tag) := keeps_headTag htag
  have hclose : Keeps closeTemplate := keeps_closeTemplate
  cases token <;> grind [inColumnGroup]

theorem keeps_leaveBody : Keeps leaveBody := by
  grind [leaveBody]

theorem keeps_inTableBody {token : Token} (h : Named token) : Keeps (inTableBody token) := by
  have htable : Keeps (inTable token) := keeps_inTable h
  have hleave : Keeps leaveBody := keeps_leaveBody
  cases token <;> grind [inTableBody]

theorem keeps_leaveRow : Keeps leaveRow := by
  grind [leaveRow]

theorem keeps_inRow {token : Token} (h : Named token) : Keeps (inRow token) := by
  have htable : Keeps (inTable token) := keeps_inTable h
  have hleave : Keeps leaveRow := keeps_leaveRow
  cases token <;> grind [inRow]

theorem keeps_closeCell : Keeps closeCell := by
  grind [closeCell]

theorem keeps_inCell {token : Token} (h : Named token) : Keeps (inCell token) := by
  have hbody : Keeps (inBody token) := keeps_inBody h
  have hcell : Keeps closeCell := keeps_closeCell
  have hscope (name : String) : Keeps (closeInScope NameSet.tableScope name) :=
    keeps_closeInScope _ name
  cases token <;> grind [inCell]

/-! ## Selects, templates and framesets -/

theorem keeps_closeSelect : Keeps closeSelect := by
  grind [closeSelect]

theorem keeps_closeOptions : Keeps closeOptions := by
  grind [closeOptions]

theorem keeps_inSelect {token : Token} (h : Named token) : Keeps (inSelect token) := by
  have hbody : Keeps (inBody token) := keeps_inBody h
  have hmerge (tag : Tag) (htag : Named tag) : Keeps (mergeRoot tag) := keeps_mergeRoot htag
  have hhead (tag : Tag) (htag : Named tag) : Keeps (headTag tag) := keeps_headTag htag
  have hclose : Keeps closeTemplate := keeps_closeTemplate
  have hselect : Keeps closeSelect := keeps_closeSelect
  have hoptions : Keeps closeOptions := keeps_closeOptions
  have hgroup : Keeps (do
      if (← get).opened.currentIs "optgroup" then close
      done) := by
    grind
  cases token with
  | endTag name =>
      unfold inSelect
      refine Keeps.ite (Keeps.bind Keeps.get fun b hb => ?_) ?_
      · split
        · exact Keeps.ite (Keeps.bind keeps_close fun _ _ => hgroup) hgroup
        · exact hgroup
      · grind
  | _ => grind [inSelect]

theorem keeps_inSelectInTable {token : Token} (h : Named token) :
    Keeps (inSelectInTable token) := by
  have hselect : Keeps (inSelect token) := keeps_inSelect h
  have hclose : Keeps closeSelect := keeps_closeSelect
  cases token <;> grind [inSelectInTable]

theorem keeps_settleTemplate (mode : Mode) {token : Token} (h : Named token) :
    Keeps (settleTemplate mode token) := by
  grind [settleTemplate]

theorem keeps_inTemplate {token : Token} (h : Named token) : Keeps (inTemplate token) := by
  have hbody : Keeps (inBody token) := keeps_inBody h
  have hhead (tag : Tag) (htag : Named tag) : Keeps (headTag tag) := keeps_headTag htag
  have hsettle (mode : Mode) : Keeps (settleTemplate mode token) := keeps_settleTemplate mode h
  have hclose : Keeps closeTemplate := keeps_closeTemplate
  have hfinish : Keeps finishTemplate := keeps_finishTemplate
  cases token <;> grind [inTemplate]

theorem keeps_addCommentToRoot (text : String) : Keeps (addCommentToRoot text) := by
  grind [addCommentToRoot]

theorem keeps_afterBody {token : Token} (h : Named token) : Keeps (afterBody token) := by
  have hbody : Keeps (inBody token) := keeps_inBody h
  have hmerge (tag : Tag) (htag : Named tag) : Keeps (mergeRoot tag) := keeps_mergeRoot htag
  have hcomment (text : String) : Keeps (addCommentToRoot text) := keeps_addCommentToRoot text
  cases token <;> grind [afterBody]

theorem keeps_inFrameset {token : Token} (h : Named token) : Keeps (inFrameset token) := by
  have hmerge (tag : Tag) (htag : Named tag) : Keeps (mergeRoot tag) := keeps_mergeRoot htag
  have hhead (tag : Tag) (htag : Named tag) : Keeps (headTag tag) := keeps_headTag htag
  cases token <;> grind [inFrameset]

theorem keeps_afterFrameset {token : Token} (h : Named token) : Keeps (afterFrameset token) := by
  have hmerge (tag : Tag) (htag : Named tag) : Keeps (mergeRoot tag) := keeps_mergeRoot htag
  have hhead (tag : Tag) (htag : Named tag) : Keeps (headTag tag) := keeps_headTag htag
  cases token <;> grind [afterFrameset]

theorem keeps_afterAfterBody {token : Token} (h : Named token) : Keeps (afterAfterBody token) := by
  have hbody : Keeps (inBody token) := keeps_inBody h
  have hmerge (tag : Tag) (htag : Named tag) : Keeps (mergeRoot tag) := keeps_mergeRoot htag
  cases token <;> grind [afterAfterBody]

theorem keeps_afterAfterFrameset {token : Token} (h : Named token) :
    Keeps (afterAfterFrameset token) := by
  have hbody : Keeps (inBody token) := keeps_inBody h
  have hmerge (tag : Tag) (htag : Named tag) : Keeps (mergeRoot tag) := keeps_mergeRoot htag
  have hhead (tag : Tag) (htag : Named tag) : Keeps (headTag tag) := keeps_headTag htag
  cases token <;> grind [afterAfterFrameset]

/-! ## All rules -/

/-- The rule of any mode keeps the names of attributes. -/
theorem keeps_ofMode (mode : Mode) {token : Token} (h : Named token) : Keeps (ofMode mode token) := by
  cases mode with
  | initial => exact keeps_initial h
  | beforeHtml => exact keeps_beforeHtml h
  | beforeHead => exact keeps_beforeHead h
  | inHead => exact keeps_inHead h
  | afterHead => exact keeps_afterHead h
  | inBody => exact keeps_inBody h
  | text => exact keeps_inText h
  | inTable => exact keeps_inTable h
  | inTableText => exact keeps_inTableText h
  | inCaption => exact keeps_inCaption h
  | inColumnGroup => exact keeps_inColumnGroup h
  | inTableBody => exact keeps_inTableBody h
  | inRow => exact keeps_inRow h
  | inCell => exact keeps_inCell h
  | inSelect => exact keeps_inSelect h
  | inSelectInTable => exact keeps_inSelectInTable h
  | inTemplate => exact keeps_inTemplate h
  | afterBody => exact keeps_afterBody h
  | inFrameset => exact keeps_inFrameset h
  | afterFrameset => exact keeps_afterFrameset h
  | afterAfterBody => exact keeps_afterAfterBody h
  | afterAfterFrameset => exact keeps_afterAfterFrameset h

theorem keeps_breakOut {token : Token} (h : Named token) : Keeps (breakOut token) := by
  have hmode (mode : Mode) : Keeps (ofMode mode token) := keeps_ofMode mode h
  grind [breakOut]

/-- The rules of foreign content keep the names of attributes. -/
theorem keeps_inForeign {token : Token} (h : Named token) : Keeps (inForeign token) := by
  have hbreak : Keeps (breakOut token) := keeps_breakOut h
  have hinside (tag : Tag) (htag : Named tag) : Keeps (Foreign.addInside tag) :=
    Foreign.keeps_addInside htag
  have hmode (mode : Mode) : Keeps (ofMode mode token) := keeps_ofMode mode h
  cases token with
  | endTag name =>
      unfold inForeign
      refine Keeps.ite hbreak (Keeps.bind Keeps.get fun b hb => ?_)
      split <;> grind
  | _ => grind [inForeign]

end Rule

/-! ## The construction -/

/-- A token that is taken again and again keeps the names of attributes each time. -/
theorem keeps_takeToken (limit : Nat) {token : Token} (h : Named token) :
    Keeps (takeToken limit token) := by
  induction limit generalizing token with
  | zero => exact Keeps.pure trivial
  | succ limit ih =>
      have hforeign : Keeps (Rule.inForeign token) := Rule.keeps_inForeign h
      have hmode (mode : Mode) : Keeps (Rule.ofMode mode token) := Rule.keeps_ofMode mode h
      grind [takeToken]

theorem named_of_withoutLineFeed {token cut : Token} (h : Named token)
    (hcut : withoutLineFeed token = some cut) : Named cut := by
  cases token <;> grind [withoutLineFeed]

theorem keeps_addDoctype (doctype : Doctype) : Keeps (addDoctype doctype) := by
  grind [addDoctype]

theorem keeps_feed {token : Token} (h : Named token) : Keeps (feed token) := by
  have hcut (cut : Token) (hcut : withoutLineFeed token = some cut) : Named cut :=
    named_of_withoutLineFeed h hcut
  have hdoctype (doctype : Doctype) : Keeps (addDoctype doctype) := keeps_addDoctype doctype
  have htake (limit : Nat) (token : Token) (h : Named token) : Keeps (takeToken limit token) :=
    keeps_takeToken limit h
  grind [feed]

theorem keeps_feedAll {tokens : List Token} (h : Named tokens) : Keeps (feedAll tokens) := by
  induction tokens with
  | nil => exact Keeps.pure trivial
  | cons token more ih =>
      obtain ⟨htoken, hmore⟩ := named_cons.mp h
      exact Keeps.bind (keeps_feed htoken) fun _ _ => ih hmore

/-- All rounds of the construction: the tokens of each are named, whatever the text. -/
theorem keeps_buildAll (rounds : Nat) (text : List Char) : Keeps (buildAll rounds text) := by
  induction rounds generalizing text with
  | zero => exact Keeps.pure trivial
  | succ rounds ih =>
      have hfeed (region : Region) (foreign : Bool) :
          Keeps (feedAll (nextTokens region foreign text).1) :=
        keeps_feedAll (named_nextTokens region foreign text)
      grind [buildAll]

/-- The draft that is built from a state with named attributes has named attributes. -/
theorem named_build {start : Builder} (h : Named start) (text : String) :
    Named (build start text).draft :=
  (keeps_buildAll _ _ start h).2.1

theorem named_emptyDraft : Named ({} : Draft) := by
  intro id entry hentry
  simp [Draft.entry?] at hentry

/-- Every attribute of a parsed document has a name that attributes have. -/
theorem named_parseDocument (text : String) : Named (parseDocument text).draft := by
  have hdocument : Named (({} : Draft).create .document).2 :=
    Draft.named_create named_emptyDraft trivial
  exact named_build ⟨hdocument, named_nil.mpr trivial, named_nil.mpr trivial⟩ text

/-- Every attribute of a parsed fragment has a name that attributes have. -/
theorem named_parseFragment (text : String) : Named (parseFragment text).draft := by
  have hfragment : Named (({} : Draft).create .fragment).2 :=
    Draft.named_create named_emptyDraft trivial
  have hroot : Keeps (openRoot []) := keeps_openRoot (named_nil.mpr trivial)
  exact named_build (hroot _ ⟨hfragment, named_nil.mpr trivial, named_nil.mpr trivial⟩).2 text

end CellAlign.Markup
