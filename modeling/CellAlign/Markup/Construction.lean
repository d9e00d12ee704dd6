import CellAlign.Markup.Lexer
import CellAlign.Markup.Rules.Other

/-!
# The tree of a token sequence

Each token is handled by the rule of the mode, or by the rules of foreign content if the current
element is a foreign one; a rule may want the token to be taken again.  The rules also decide the
region in which the text behind the token is read.
-/

namespace CellAlign.Markup

open Build

namespace Rule

/-- The rule of a mode. -/
def ofMode (mode : Mode) (token : Token) : Rule :=
  match mode with
  | .initial => initial token
  | .beforeHtml => beforeHtml token
  | .beforeHead => beforeHead token
  | .inHead => inHead token
  | .afterHead => afterHead token
  | .inBody => inBody token
  | .text => inText token
  | .inTable => inTable token
  | .inTableText => inTableText token
  | .inCaption => inCaption token
  | .inColumnGroup => inColumnGroup token
  | .inTableBody => inTableBody token
  | .inRow => inRow token
  | .inCell => inCell token
  | .inSelect => inSelect token
  | .inSelectInTable => inSelectInTable token
  | .inTemplate => inTemplate token
  | .afterBody => afterBody token
  | .inFrameset => inFrameset token
  | .afterFrameset => afterFrameset token
  | .afterAfterBody => afterAfterBody token
  | .afterAfterFrameset => afterAfterFrameset token

/-- Leaves foreign content for a token that ends it. -/
def breakOut (token : Token) : Rule := do
  onOpened (·.closeTo Foreign.holdsHtml)
  ofMode (← get).mode token

/-- Looks for the foreign element that an end tag closes, from the current element outwards: the
elements left open if there is one, nothing if the tag closes none.  `first` is said of the current
element; at an element of HTML further out the tag is one of HTML. -/
inductive ForeignEnd where
  | closes (opened : OpenElements)
  | isHtml
  | nothing

/-- Looks for the foreign element that an end tag closes. -/
def foreignEnd (name : String) (first : Bool) : OpenElements → ForeignEnd
  | [] => .nothing
  | e :: rest =>
    if rest.isEmpty then .nothing
    else if !first && e.name.space = .html then .isHtml
    else if e.name.localName.toLower = name then .closes rest
    else foreignEnd name false rest

/-- Inside foreign content. -/
def inForeign (token : Token) : Rule :=
  match token with
  | .zero => do
    addText (String.singleton replacement)
    done
  | .space run => do
    addText run
    done
  | .text run => do
    forbidFrameset
    addText run
    done
  | .comment text => do
    addComment text
    done
  | .startTag tag =>
    if Foreign.breaksOut tag then breakOut token
    else do
      Foreign.addInside tag
      done
  | .endTag name => do
    if name = "br" || name = "p" then breakOut token
    else
      let b ← get
      match foreignEnd name true b.opened with
      | .closes opened => do
        set { b with opened }
        done
      | .isHtml => ofMode b.mode token
      | .nothing => done
  | _ => done

end Rule

/-- Takes a token until no rule wants it again, `limit` times at most. -/
def takeToken : Nat → Token → Build Unit
  | 0, _ => return
  | limit + 1, token => do
    let b ← get
    let next ← if Foreign.governs b token then Rule.inForeign token else Rule.ofMode b.mode token
    match next with
    | none => return
    | some token => takeToken limit token

/-- A token without the line feed that directly follows the start of some elements; nothing if that
is all there is. -/
def withoutLineFeed (token : Token) : Option Token :=
  let cut (run : String) : List Char :=
    match run.toList with
    | '\n' :: rest => rest
    | chars => chars
  match token with
  | .space run => if (cut run).isEmpty then none else some (.space (String.ofList (cut run)))
  | .text run => if (cut run).isEmpty then none else some (.text (String.ofList (cut run)))
  | token => some token

/-- The beginnings of public identifiers of documents that are read loosely. -/
def loosePublicStarts : List String :=
  ["-//advasoft ltd//dtd html 3.0 aswedit + extensions//",
    "-//as//dtd html 3.0 aswedit + extensions//", "-//ietf//dtd html 2.0 level 1//",
    "-//ietf//dtd html 2.0 level 2//", "-//ietf//dtd html 2.0 strict level 1//",
    "-//ietf//dtd html 2.0 strict level 2//", "-//ietf//dtd html 2.0 strict//",
    "-//ietf//dtd html 2.0//", "-//ietf//dtd html 2.1e//", "-//ietf//dtd html 3.0//",
    "-//ietf//dtd html 3.2 final//", "-//ietf//dtd html 3.2//", "-//ietf//dtd html 3//",
    "-//ietf//dtd html level 0//", "-//ietf//dtd html level 1//", "-//ietf//dtd html level 2//",
    "-//ietf//dtd html level 3//", "-//ietf//dtd html strict level 0//",
    "-//ietf//dtd html strict level 1//", "-//ietf//dtd html strict level 2//",
    "-//ietf//dtd html strict level 3//", "-//ietf//dtd html strict//", "-//ietf//dtd html//",
    "-//metrius//dtd metrius presentational//",
    "-//microsoft//dtd internet explorer 2.0 html strict//",
    "-//microsoft//dtd internet explorer 2.0 html//",
    "-//microsoft//dtd internet explorer 2.0 tables//",
    "-//microsoft//dtd internet explorer 3.0 html strict//",
    "-//microsoft//dtd internet explorer 3.0 html//",
    "-//microsoft//dtd internet explorer 3.0 tables//", "-//netscape comm. corp.//dtd html//",
    "-//netscape comm. corp.//dtd strict html//", "-//o'reilly and associates//dtd html 2.0//",
    "-//o'reilly and associates//dtd html extended 1.0//",
    "-//o'reilly and associates//dtd html extended relaxed 1.0//",
    "-//softquad software//dtd hotmetal pro 6.0::19990601::extensions to html 4.0//",
    "-//softquad//dtd hotmetal pro 4.0::19971010::extensions to html 4.0//",
    "-//spyglass//dtd html 2.0 extended//", "-//sq//dtd html 2.0 hotmetal + extensions//",
    "-//sun microsystems corp.//dtd hotjava html//",
    "-//sun microsystems corp.//dtd hotjava strict html//",
    "-//w3c//dtd html 3 1995-03-24//", "-//w3c//dtd html 3.2 draft//",
    "-//w3c//dtd html 3.2 final//", "-//w3c//dtd html 3.2//", "-//w3c//dtd html 3.2s draft//",
    "-//w3c//dtd html 4.0 frameset//", "-//w3c//dtd html 4.0 transitional//",
    "-//w3c//dtd html experimental 19960712//", "-//w3c//dtd html experimental 970421//",
    "-//w3c//dtd w3 html//", "-//w3o//dtd w3 html 3.0//", "-//webtechs//dtd mozilla html 2.0//",
    "-//webtechs//dtd mozilla html//"]

/-- The public identifiers of documents that are read loosely. -/
def loosePublics : List String :=
  ["-//w3o//dtd w3 html strict 3.0//en//", "-/w3c/dtd html 4.0 transitional/en", "html"]

/-- The beginnings of public identifiers of documents that are read loosely if there is no system
identifier besides. -/
def looseAlone : List String :=
  ["-//w3c//dtd html 4.01 frameset//", "-//w3c//dtd html 4.01 transitional//"]

/-- The system identifier of documents that are read loosely. -/
def looseSystem : String := "http://www.ibm.com/data/dtd/v11/ibmxhtml1-transitional.dtd"

/-- Whether a declaration means that the document is read loosely, as documents were before there
was a standard. -/
def Doctype.isLoose (doctype : Doctype) : Bool :=
  let startsIn (starts : List String) (id : String) : Bool :=
    starts.any fun start => start.toList.isPrefixOf id.toList
  doctype.broken || doctype.name != some "html" ||
    match doctype.publicId.map String.toLower, doctype.systemId.map String.toLower with
    | some id, system =>
      loosePublics.contains id || system == some looseSystem || startsIn loosePublicStarts id ||
        (system.isNone && startsIn looseAlone id)
    | none, system => system == some looseSystem

/-- Adds a document type, which has to come before everything else. -/
def addDoctype (doctype : Doctype) : Build Unit :=
  modify fun b =>
    if b.mode = .initial then
      let (id, draft) := b.draft.create
        (.doctype (doctype.name.getD "") (doctype.publicId.getD "") (doctype.systemId.getD ""))
      { b with
        draft := draft.append b.document id
        loose := doctype.isLoose
        mode := .beforeHtml }
    else b

/-- Takes a token. -/
def feed (token : Token) : Build Unit := do
  let b ← get
  set { b with dropLineFeed := false }
  match if b.dropLineFeed then withoutLineFeed token else some token with
  | none => return
  | some .nothing => return
  | some (.doctype doctype) => addDoctype doctype
  | some token => takeToken (4 * b.opened.length + 40) token

/-- Takes tokens one after the other. -/
def feedAll : List Token → Build Unit
  | [] => return
  | token :: more => do
    feed token
    feedAll more

/-- Whether a token is the end of the text. -/
def Token.isFinish : Token → Bool
  | finish => true
  | _ => false

/-- A text without a byte order mark at its start. -/
def withoutMark : List Char → List Char
  | '\uFEFF' :: rest => rest
  | text => text

/-- Builds the tree of a text.  Each round takes at least one character, so the length of the text
bounds the rounds.  The text behind a script is read as a text of its own, so a byte order mark at
its start is left out. -/
def buildAll : Nat → List Char → Build Unit
  | 0, _ => return
  | rounds + 1, text => do
    let b ← get
    let (tokens, rest) := nextTokens b.region (Foreign.isInside b) text
    feedAll tokens
    if tokens.any Token.isFinish then return
    let region := (← get).region
    buildAll rounds (if b.region = .script ∧ region = .markup then withoutMark rest else rest)

/-- The characters of a text as they are read: without a byte order mark at the start, lines ended
by line feeds. -/
def readable (text : String) : List Char := Lexer.unifyLines false (withoutMark text.toList)

/-- Builds the tree of a text from a state. -/
def build (start : Builder) (text : String) : Parsed :=
  let text := readable text
  { draft := ((buildAll (text.length + 1) text).run start).2.draft, top := start.document }

/-- A parsed document. -/
def parseDocument (text : String) : Parsed :=
  let (document, draft) := ({} : Draft).create .document
  build { draft, document, isFragment := false } text

/-- A parsed fragment, as it would be read inside the body of a document: at its top is a fragment
with a root element that holds it. -/
def parseFragment (text : String) : Parsed :=
  let (document, draft) := ({} : Draft).create .fragment
  let start : Builder := { draft, document, isFragment := true, mode := .inBody }
  build ((openRoot []).run start).2 text

end CellAlign.Markup
