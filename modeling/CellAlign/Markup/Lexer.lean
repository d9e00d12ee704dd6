import CellAlign.Markup.References
import CellAlign.Markup.Token

/-!
# From text to tokens

`nextTokens` takes a token from the start of a text.  How the text is read depends on its region,
which is decided by the elements that the tokens before it opened; nothing else is remembered from
one token to the next.  A tag that the end of the text cuts off is no token.
-/

namespace CellAlign.Markup.Lexer

open Text (isSpace)

/-- A text in which every line ends with a line feed alone.  `after` says whether a carriage return
stood just before. -/
def unifyLines (after : Bool) : List Char → List Char
  | [] => []
  | c :: rest =>
    if c = '\r' then '\n' :: unifyLines true rest
    else if c = '\n' ∧ after then unifyLines false rest
    else c :: unifyLines false rest

/-- A character with the one of code zero replaced. -/
def shown (c : Char) : Char := if c.toNat = 0 then replacement else c

/-- A character of a name in lower case. -/
def nameChar (c : Char) : Char := (shown c).toLower

/-- The beginning of a text that a class of characters holds, and the rest. -/
def cut (p : Char → Bool) (text : List Char) : List Char × List Char :=
  (text.takeWhile p, text.dropWhile p)

/-- Whether two characters are the same but for their case. -/
def sameLetter (c d : Char) : Bool := c.toLower == d.toLower

/-- The rest of a text behind a word in any case. -/
def afterWord? : List Char → List Char → Option (List Char)
  | [], rest => some rest
  | _ :: _, [] => none
  | c :: word, d :: rest => if sameLetter c d then afterWord? word rest else none

/-- A run of text as a token. -/
def runToken (run : List Char) : Token :=
  if run.all isSpace then .space (String.ofList run) else .text (String.ofList run)

/-- The classes of characters that end up in different tokens. -/
def charClass (c : Char) : Nat := if c.toNat = 0 then 0 else if isSpace c then 1 else 2

/-- A text without any marks as tokens. -/
def literalTokens (text : List Char) : List Token :=
  (text.splitBy fun a b => charClass a == charClass b).flatMap fun run =>
    match run with
    | [] => []
    | c :: _ => if c.toNat = 0 then List.replicate run.length .zero else [runToken run]

/-! ## Tags -/

/-- Reads a quoted value of an attribute up to and with the closing quote.  There is none if the
text ends before. -/
def quotedValue (quote : Char) : Nat → List Char → Option (List Char × List Char)
  | 0, _ => none
  | _ + 1, [] => none
  | fuel + 1, c :: rest =>
    if c = quote then some ([], rest)
    else if c = '&' then
      match readReference true rest with
      | some (chars, rest) =>
        (quotedValue quote fuel rest).map fun (value, rest) => (chars ++ value, rest)
      | none => (quotedValue quote fuel rest).map fun (value, rest) => ('&' :: value, rest)
    else (quotedValue quote fuel rest).map fun (value, rest) => (shown c :: value, rest)

/-- Reads a value without quotes, which ends before white space or the end of the tag. -/
def bareValue : Nat → List Char → Option (List Char × List Char)
  | 0, _ => none
  | _ + 1, [] => none
  | fuel + 1, c :: rest =>
    if isSpace c || c == '>' then some ([], c :: rest)
    else if c = '&' then
      match readReference true rest with
      | some (chars, rest) =>
        (bareValue fuel rest).map fun (value, rest) => (chars ++ value, rest)
      | none => (bareValue fuel rest).map fun (value, rest) => ('&' :: value, rest)
    else (bareValue fuel rest).map fun (value, rest) => (shown c :: value, rest)

/-- Reads a value behind the equals sign. -/
def attributeValue (text : List Char) : Option (List Char × List Char) :=
  match text.dropWhile isSpace with
  | [] => none
  | c :: rest =>
    if c = '"' ∨ c = '\'' then quotedValue c rest.length.succ rest
    else if c = '>' then some ([], c :: rest)
    else bareValue rest.length.succ.succ (c :: rest)

/-- Adds an attribute, unless there is one of that name. -/
def addAttribute (attributes : List (String × String)) (name value : List Char) :
    List (String × String) :=
  let name := String.ofList name
  if attributes.any fun a => a.1 == name then attributes
  else attributes ++ [(name, String.ofList value)]

/-- Whether a character ends the name of an attribute. -/
def endsName (c : Char) : Bool := isSpace c || c == '/' || c == '>' || c == '='

/-- Reads attributes up to and with the end of the tag. -/
def readAttributes : Nat → List (String × String) → List Char →
    Option (List (String × String) × Bool × List Char)
  | 0, _, _ => none
  | fuel + 1, attributes, text =>
    match text.dropWhile isSpace with
    | [] => none
    | c :: rest =>
      if c = '>' then some (attributes, false, rest)
      else if c = '/' then
        match rest with
        | '>' :: rest => some (attributes, true, rest)
        | _ => readAttributes fuel attributes rest
      else
        let (more, rest) := cut (!endsName ·) rest
        let name := (c :: more).map nameChar
        match rest.dropWhile isSpace with
        | '=' :: rest =>
          match attributeValue rest with
          | some (value, rest) => readAttributes fuel (addAttribute attributes name value) rest
          | none => none
        | rest => readAttributes fuel (addAttribute attributes name []) rest

/-- Whether a character ends the name of a tag. -/
def endsTagName (c : Char) : Bool := isSpace c || c == '/' || c == '>'

/-- Reads a tag from its name on: the tag and the text behind it. -/
def readTag (text : List Char) : Option (Tag × List Char) :=
  let (name, rest) := cut (!endsTagName ·) text
  (readAttributes rest.length.succ [] rest).map fun (attributes, selfClosing, rest) =>
    ({ name := String.ofList (name.map nameChar), attributes, selfClosing }, rest)

/-- Reads a start tag behind its bracket. -/
def startTag (text : List Char) : Token × List Char :=
  match readTag text with
  | some (tag, rest) => (.startTag tag, rest)
  | none => (.finish, [])

/-- Reads an end tag from its name on. -/
def endTag (text : List Char) : Token × List Char :=
  match readTag text with
  | some (tag, rest) => (.endTag tag.name, rest)
  | none => (.finish, [])

/-! ## Comments -/

/-- Reads a comment behind its opening mark: up to `-->` or `--!>`, or to the end of the text,
where an unfinished closing mark is left out. -/
def commentBody : List Char → List Char × List Char
  | [] => ([], [])
  | ['-'] => ([], [])
  | ['-', '-'] => ([], [])
  | ['-', '-', '!'] => ([], [])
  | '-' :: '-' :: '>' :: rest => ([], rest)
  | '-' :: '-' :: '!' :: '>' :: rest => ([], rest)
  | c :: rest =>
    let (text, rest) := commentBody rest
    (shown c :: text, rest)

/-- Reads a comment behind its opening mark, which may be closed at once. -/
def comment (text : List Char) : Token × List Char :=
  match text with
  | '>' :: rest => (.comment "", rest)
  | '-' :: '>' :: rest => (.comment "", rest)
  | _ =>
    let (text, rest) := commentBody text
    (.comment (String.ofList text), rest)

/-- Reads what is taken for a comment though it is none: everything up to the next bracket. -/
def bogusComment (text : List Char) : Token × List Char :=
  let (text, rest) := cut (· != '>') text
  (.comment (String.ofList (text.map shown)), rest.drop 1)

/-! ## Document types -/

/-- A declaration at the end of its text. -/
def doctypeEnd (doctype : Doctype) (rest : List Char) : Token × List Char := (.doctype doctype, rest)

/-- Leaves out what stands before the end of a declaration. -/
def doctypeRest (doctype : Doctype) (text : List Char) : Token × List Char :=
  doctypeEnd doctype ((text.dropWhile (· != '>')).drop 1)

/-- Reads a quoted identifier: its text, whether it was closed, and the rest. -/
def quotedId (quote : Char) (text : List Char) : String × Bool × List Char :=
  let (id, rest) := cut (fun c => c != quote && c != '>') text
  let id := String.ofList (id.map shown)
  match rest with
  | [] => (id, false, [])
  | c :: rest => (id, c == quote, rest)

/-- Reads the end of a declaration behind its identifiers. -/
def doctypeTail (doctype : Doctype) (text : List Char) : Token × List Char :=
  match text.dropWhile isSpace with
  | [] => doctypeEnd { doctype with broken := true } []
  | '>' :: rest => doctypeEnd doctype rest
  | rest => doctypeRest doctype rest

/-- Reads a system identifier, if one is there.  It has to be there if `needed`. -/
def doctypeSystem (needed : Bool) (doctype : Doctype) (text : List Char) : Token × List Char :=
  match text.dropWhile isSpace with
  | [] => doctypeEnd { doctype with broken := true } []
  | c :: rest =>
    if c = '>' then doctypeEnd { doctype with broken := doctype.broken || needed } rest
    else if c = '"' ∨ c = '\'' then
      let (id, closed, rest) := quotedId c rest
      let doctype := { doctype with systemId := some id }
      if closed then doctypeTail doctype rest
      else doctypeEnd { doctype with broken := true } rest
    else doctypeRest { doctype with broken := true } (c :: rest)

/-- Reads a public identifier and what may follow it. -/
def doctypePublic (doctype : Doctype) (text : List Char) : Token × List Char :=
  match text.dropWhile isSpace with
  | [] => doctypeEnd { doctype with broken := true } []
  | c :: rest =>
    if c = '"' ∨ c = '\'' then
      let (id, closed, rest) := quotedId c rest
      let doctype := { doctype with publicId := some id }
      if closed then doctypeSystem false doctype rest
      else doctypeEnd { doctype with broken := true } rest
    else doctypeRest { doctype with broken := true } (c :: rest)

/-- Reads what follows the name of a declaration. -/
def afterDoctypeName (doctype : Doctype) (text : List Char) : Token × List Char :=
  match text.dropWhile isSpace with
  | [] => doctypeEnd { doctype with broken := true } []
  | '>' :: rest => doctypeEnd doctype rest
  | rest =>
    match afterWord? ['p', 'u', 'b', 'l', 'i', 'c'] rest with
    | some rest => doctypePublic doctype rest
    | none =>
      match afterWord? ['s', 'y', 's', 't', 'e', 'm'] rest with
      | some rest => doctypeSystem true doctype rest
      | none => doctypeRest { doctype with broken := true } rest

/-- Reads a declaration behind its keyword. -/
def doctype (text : List Char) : Token × List Char :=
  match text.dropWhile isSpace with
  | [] => doctypeEnd { broken := true } []
  | '>' :: rest => doctypeEnd { broken := true } rest
  | c :: rest =>
    let (more, rest) := cut (fun c => !isSpace c && c != '>') rest
    afterDoctypeName { name := some (String.ofList ((c :: more).map nameChar)) } rest

/-! ## Markup -/

/-- The text of a section that is taken literally, and the text behind its end. -/
def literalSection : List Char → List Char × List Char
  | [] => ([], [])
  | ']' :: ']' :: '>' :: rest => ([], rest)
  | c :: rest =>
    let (text, rest) := literalSection rest
    (c :: text, rest)

/-- A literal section behind its bracket.  Such sections exist only in foreign elements. -/
def literal? (foreign : Bool) (text : List Char) : Option (List Token × List Char) :=
  match text with
  | '!' :: '[' :: 'C' :: 'D' :: 'A' :: 'T' :: 'A' :: '[' :: rest =>
    if foreign then
      let (text, rest) := literalSection rest
      some (literalTokens text, rest)
    else none
  | _ => none

/-- Reads what follows `<!`. -/
def declaration (text : List Char) : Token × List Char :=
  match text with
  | '-' :: '-' :: rest => comment rest
  | _ =>
    match afterWord? ['d', 'o', 'c', 't', 'y', 'p', 'e'] text with
    | some rest => doctype rest
    | none => bogusComment text

/-- Reads what follows `<`. -/
def afterBracket (text : List Char) : Token × List Char :=
  match text with
  | [] => (.text "<", [])
  | c :: rest =>
    if c = '!' then declaration rest
    else if c = '?' then bogusComment text
    else if c = '/' then
      match rest with
      | [] => (.text "</", [])
      | d :: more =>
        if d.isAlpha then endTag rest
        else if d = '>' then (.nothing, more)
        else bogusComment rest
    else if c.isAlpha then startTag text
    else (.text "<", text)

/-- Whether a character of markup stands for itself. -/
def isPlain (c : Char) : Bool := c != '<' && c != '&' && c.toNat != 0

/-- Takes a token of markup. -/
def markup (text : List Char) : Token × List Char :=
  match text with
  | [] => (.finish, [])
  | c :: rest =>
    if c = '<' then afterBracket rest
    else if c = '&' then
      match readReference false rest with
      | some (chars, rest) => (runToken chars, rest)
      | none => (.text "&", rest)
    else if c.toNat = 0 then (.zero, rest)
    else if isSpace c then
      let (run, rest) := cut isSpace text
      (.space (String.ofList run), rest)
    else
      let (run, rest) := cut (fun c => isPlain c && !isSpace c) text
      (.text (String.ofList run), rest)

/-! ## Text of elements -/

/-- Whether a text starts with the end tag of an element, the bracket and the slash left out. -/
def endsElement (name : String) (text : List Char) : Bool :=
  match afterWord? name.toList text with
  | some (c :: _) => endsTagName c
  | _ => false

/-- The end tag of an element, if it comes next. -/
def closing? (name : String) (text : List Char) : Option (Token × List Char) :=
  match text with
  | '<' :: '/' :: rest => if endsElement name rest then some (endTag rest) else none
  | _ => none

/-- Takes a token of the text of an element with character references. -/
def escapable (name : String) (text : List Char) : Token × List Char :=
  match closing? name text with
  | some found => found
  | none =>
    match text with
    | [] => (.finish, [])
    | c :: rest =>
      if c = '&' then
        match readReference false rest with
        | some (chars, rest) => (runToken chars, rest)
        | none => (.text "&", rest)
      else
        let (more, rest) := cut (fun c => c != '<' && c != '&') rest
        (runToken ((c :: more).map shown), rest)

/-- Takes a token of the text of an element without character references. -/
def raw (name : String) (text : List Char) : Token × List Char :=
  match closing? name text with
  | some found => found
  | none =>
    match text with
    | [] => (.finish, [])
    | c :: rest =>
      let (more, rest) := cut (· != '<') rest
      (runToken ((c :: more).map shown), rest)

/-- Where a script stands: outside of a comment, inside one, or inside a script in one. -/
inductive ScriptLevel where
  | plain
  | escaped
  | doubled

/-- The letters of `script`. -/
def scriptLetters : List Char := ['s', 'c', 'r', 'i', 'p', 't']

/-- Whether a script tag comes next, bracket and slash left out. -/
def isScriptName (text : List Char) : Bool :=
  let (name, rest) := cut Char.isAlpha text
  name.map Char.toLower == scriptLetters &&
    match rest with
    | [] => false
    | c :: _ => endsTagName c

/-- The text of a script up to its end tag.  A comment in it may hold a script of its own, whose end
tag does not end the outer one.  `dashes` counts the dashes just before, up to two. -/
def scriptText : ScriptLevel → Nat → List Char → List Char × List Char
  | _, _, [] => ([], [])
  | level, dashes, c :: rest =>
    let push (level : ScriptLevel) (dashes : Nat) : List Char × List Char :=
      let (text, rest) := scriptText level dashes rest
      (shown c :: text, rest)
    match level with
    | .plain =>
      if c = '<' then
        match rest with
        | '/' :: more => if endsElement "script" more then ([], c :: rest) else push .plain 0
        | '!' :: '-' :: '-' :: more =>
          let (text, rest) := scriptText .escaped 2 more
          ('<' :: '!' :: '-' :: '-' :: text, rest)
        | _ => push .plain 0
      else push .plain 0
    | .escaped =>
      if c = '-' then push .escaped (min 2 (dashes + 1))
      else if c = '>' ∧ dashes = 2 then push .plain 0
      else if c = '<' then
        match rest with
        | '/' :: more => if endsElement "script" more then ([], c :: rest) else push .escaped 0
        | _ => if isScriptName rest then push .doubled 0 else push .escaped 0
      else push .escaped 0
    | .doubled =>
      if c = '-' then push .doubled (min 2 (dashes + 1))
      else if c = '>' ∧ dashes = 2 then push .plain 0
      else if c = '<' then
        match rest with
        | '/' :: more => if isScriptName more then push .escaped 0 else push .doubled 0
        | _ => push .doubled 0
      else push .doubled 0

/-- Takes a token of a script. -/
def script (text : List Char) : Token × List Char :=
  match closing? "script" text with
  | some found => found
  | none =>
    match text with
    | [] => (.finish, [])
    | _ =>
      let (text, rest) := scriptText .plain 0 text
      (runToken text, rest)

/-- Takes a token of plain text, which goes on to the end. -/
def plain (text : List Char) : Token × List Char :=
  match text with
  | [] => (.finish, [])
  | _ => (runToken (text.map shown), [])

end CellAlign.Markup.Lexer

namespace CellAlign.Markup

/-- Takes tokens from the start of a text: one, but for a literal section, which may hold any number
of runs of text, and a reference by number without its semicolon, whose fault is a token of nothing
before its character.  So a line feed written that way is not the first thing after a tag. -/
def nextTokens (region : Region) (foreign : Bool) (text : List Char) : List Token × List Char :=
  let one (found : Token × List Char) : List Token × List Char := ([found.1], found.2)
  let faulty (found : Token × List Char) : List Token × List Char :=
    if lacksSemicolon text then ([.nothing, found.1], found.2) else one found
  match region with
  | .markup =>
    match text with
    | '<' :: rest =>
      match Lexer.literal? foreign rest with
      | some found => found
      | none => one (Lexer.markup text)
    | _ => faulty (Lexer.markup text)
  | .escapable name => faulty (Lexer.escapable name text)
  | .raw name => one (Lexer.raw name text)
  | .script => one (Lexer.script text)
  | .plain => one (Lexer.plain text)

end CellAlign.Markup
