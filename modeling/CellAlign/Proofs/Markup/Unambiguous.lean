import CellAlign.Proofs.Markup.Delimiters
import CellAlign.Proofs.Markup.Serializing
import CellAlign.Proofs.Tree.Attributes

/-!
# Trees told apart by their HTML

In a plain tree there is no root below the top and no element that is void or of raw text, its
properties are such as attributes give, and its texts, never empty, stand apart from each other.
What is written of such a tree says where each node ends: the first characters of a node give its
shape away, and neither nothing at all nor an end tag is taken for the start of a node.  So plain
trees with the same HTML are the same.

* `Node.toList_html`: the characters of a plain tree;
* `Node.shapeOf?_chars`: the shape of a node from its first characters;
* `Node.eq_of_chars`, `Node.eq_of_charsList`: nodes and rows told apart in front of what follows;
* `Node.toHtml_eq_iff`: trees told apart by their HTML.
-/

namespace CellAlign

open Markup

/-! ## Plain trees -/

/-- A tag of small letters and digits, neither void nor of raw text. -/
structure Markup.PlainTag (tag : String) : Prop where
  nonempty : tag ≠ ""
  chars : ∀ c ∈ tag.toList, isTagChar c = true
  notVoid : isVoid tag = false
  notRaw : isRaw tag = false

/-- Properties as attributes give them, with no equals sign in a name: a name may be of letters,
digits and hyphens, for instance. -/
structure Properties.Plain (properties : Properties) : Prop where
  textual : properties.Textual
  names : ∀ key ∈ properties.other.keys, '=' ∉ key.toList

namespace Properties.Plain

variable {p q : Properties}

/-- No equals sign stands in the name of an attribute. -/
theorem attributes (h : p.Plain) {a : String × String} (ha : a ∈ p.attributes) :
    '=' ∉ a.1.toList := by
  have hkey := (sublist_keys_attributes p).subset (List.mem_map.mpr ⟨a, ha, rfl⟩)
  rcases List.mem_append.mp hkey with hknown | hother
  · have hall : ∀ name ∈ knownNames, '=' ∉ name.toList := by simp [knownNames]
    exact hall _ hknown
  · exact h.names _ hother

/-- Properties are told apart by their attributes. -/
theorem eq_of_attributes (hp : p.Plain) (hq : q.Plain) (h : p.attributes = q.attributes) :
    p = q := by
  rw [← ofAttributes_attributes hp.textual, h, ofAttributes_attributes hq.textual]

end Properties.Plain

namespace Node

/-- Whether a node is a text. -/
def isText : Node → Bool
  | .text _ => true
  | _ => false

mutual

/-- The tree is no root and has none in it, tags and properties are plain, texts are not empty and
do not stand beside each other, and comments do not hold their own end. -/
def Plain : Node → Prop
  | .root _ => False
  | .element tag properties children =>
    PlainTag tag ∧ (∃ p, properties = some p ∧ p.Plain) ∧ PlainRow children
  | .text value => value ≠ ""
  | .comment value => ¬commentEnd <:+: value.toList
  | .doctype => True

/-- The trees of a list are plain, and no two texts stand beside each other. -/
def PlainRow : List Node → Prop
  | [] => True
  | node :: nodes =>
    node.Plain ∧ (node.isText → ∀ next ∈ nodes.head?, next.isText = false) ∧ PlainRow nodes

end

/-! ## Characters of plain trees -/

mutual

/-- The characters of a plain tree. -/
def chars : Node → List Char
  | .root children => charsList children
  | .element tag properties children =>
    startChars (tag, (properties.map Properties.attributes).getD []) ++
      (charsList children ++ (endTag tag).toList)
  | .text value => value.toList.flatMap escapeTextChar
  | .comment value => ['<', '!', '-', '-'] ++ (value.toList ++ commentEnd)
  | .doctype => ['<', '!', 'D', 'O', 'C', 'T', 'Y', 'P', 'E', ' ', 'h', 't', 'm', 'l', '>']

/-- The characters of the plain trees of a list. -/
def charsList : List Node → List Char
  | [] => []
  | node :: nodes => node.chars ++ charsList nodes

end

mutual

/-- A plain tree is written in its characters where tags are written and texts are escaped. -/
theorem toList_html : (node : Node) → (context : Context) → node.Plain →
    context.inVoid = false → context.parent.any isRaw = false →
    (node.html context).toList = node.chars
  | .element tag properties children, context, h, hopen, hescaped => by
      obtain ⟨htag, -, hchildren⟩ := h
      have hbelow := toList_htmlList children { parent := some tag, inVoid := isVoid tag } hchildren
        htag.notVoid htag.notRaw
      rw [html_element, if_neg (by simp [hopen]), if_neg (by simp [htag.notVoid]), String.toList_append,
        String.toList_append, toList_startTag, hbelow, chars, List.append_assoc]
  | .text value, context, h, hopen, hescaped => by
      simp [html_text, chars, hescaped, escapeText]
  | .comment value, context, h, hopen, hescaped => by
      simp [html, chars, commentEnd]
  | .doctype, context, h, hopen, hescaped => by simp [html, chars]

/-- The plain trees of a list are written in their characters. -/
theorem toList_htmlList : (nodes : List Node) → (context : Context) → PlainRow nodes →
    context.inVoid = false → context.parent.any isRaw = false →
    (htmlList context nodes).toList = charsList nodes
  | [], context, h, hopen, hescaped => rfl
  | node :: nodes, context, h, hopen, hescaped => by
      obtain ⟨hnode, -, hnodes⟩ := h
      rw [htmlList, charsList, String.toList_append, toList_html node context hnode hopen hescaped,
        toList_htmlList nodes context hnodes hopen hescaped]

end

end Node

/-! ## Shapes of nodes -/

/-- The shapes of nodes, which are told apart by the first characters written of them. -/
inductive Markup.Shape where
  | text
  | element
  | comment
  | doctype

/-- The shape of the node that starts with some characters; with nothing at all, or with an end tag,
no node starts. -/
def Markup.shapeOf? : List Char → Option Shape
  | [] => none
  | c :: rest =>
    if c ≠ '<' then some .text
    else if rest.head? = some '/' then none
    else if rest.head? ≠ some '!' then some .element
    else if rest.tail.head? = some '-' then some .comment
    else some .doctype

namespace Node

/-- The shape of a node that is no root. -/
def shape? : Node → Option Shape
  | .root _ => none
  | .element _ _ _ => some .element
  | .text _ => some .text
  | .comment _ => some .comment
  | .doctype => some .doctype

/-- Texts have a shape of their own. -/
theorem isText_iff {node : Node} : node.isText = true ↔ node.shape? = some .text := by
  cases node <;> simp [isText, shape?]

/-- An escaped character starts a text. -/
theorem shapeOf?_escapeTextChar (c : Char) (rest : List Char) :
    shapeOf? (escapeTextChar c ++ rest) = some .text := by
  unfold escapeTextChar
  split
  · rfl
  split
  · rfl
  split
  · rfl
  split
  · rfl
  · next hless _ => simp [shapeOf?, hless]

/-- A plain node starts with the characters of its shape. -/
theorem shapeOf?_chars {node : Node} (h : node.Plain) (rest : List Char) :
    shapeOf? (node.chars ++ rest) = node.shape? := by
  cases node with
  | root children => exact h.elim
  | element tag properties children =>
      obtain ⟨htag, -, -⟩ := h
      cases hchars : tag.toList with
      | nil => exact absurd (String.toList_eq_nil_iff.mp hchars) htag.nonempty
      | cons c more =>
          have hc : isTagChar c = true := htag.chars c (hchars ▸ List.mem_cons_self)
          have hne {d : Char} (hd : isTagChar d ≠ true) : c ≠ d := fun heq => hd (heq ▸ hc)
          have hslash : c ≠ '/' := hne (by decide)
          have hmark : c ≠ '!' := hne (by decide)
          simp [chars, startChars, hchars, shapeOf?, hslash, hmark, shape?]
  | text value =>
      cases hvalue : value.toList with
      | nil => exact absurd (String.toList_eq_nil_iff.mp hvalue) h
      | cons c more =>
          rw [chars, hvalue, List.flatMap_cons, List.append_assoc, shapeOf?_escapeTextChar]
          rfl
  | comment value => rfl
  | doctype => rfl

/-- A plain node has a shape. -/
theorem shape?_ne_none {node : Node} (h : node.Plain) : node.shape? ≠ none := by
  cases node with
  | root children => exact h.elim
  | element | text | comment | doctype => exact nofun

/-- A plain row in front of what starts no node starts with its first node. -/
theorem shapeOf?_charsList {nodes : List Node} (h : PlainRow nodes) {rest : List Char}
    (hrest : shapeOf? rest = none) :
    shapeOf? (charsList nodes ++ rest) = nodes.head?.bind shape? := by
  cases nodes with
  | nil => exact hrest
  | cons node nodes =>
      rw [charsList, List.append_assoc, shapeOf?_chars h.1]
      rfl

/-- What follows a node is no part of it: no text follows a text. -/
def Apart (node : Node) (rest : List Char) : Prop :=
  node.shape? = some .text → shapeOf? rest ≠ some .text

/-- The first node of a plain row stands apart from the others. -/
theorem apart_of_plainRow {node : Node} {nodes : List Node} (h : PlainRow (node :: nodes))
    {rest : List Char} (hrest : shapeOf? rest = none) : node.Apart (charsList nodes ++ rest) := by
  intro hshape hfollows
  obtain ⟨-, hnext, hnodes⟩ := h
  rw [shapeOf?_charsList hnodes hrest] at hfollows
  obtain ⟨next, hmem, hnextShape⟩ := Option.bind_eq_some_iff.mp hfollows
  have hapart := hnext (isText_iff.mpr hshape) next hmem
  exact Bool.false_ne_true (hapart.symm.trans (isText_iff.mpr hnextShape))

mutual

/-- Plain nodes can be told apart in front of what they stand apart from. -/
theorem eq_of_chars : (a b : Node) → {s t : List Char} → a.Plain → b.Plain → a.Apart s →
    b.Apart t → a.shape? = b.shape? → a.chars ++ s = b.chars ++ t → a = b ∧ s = t
  | .element tag properties children, b, s, t, ha, hb, hs, ht, hshape, h => by
      cases b with
      | element tag' properties' children' =>
          obtain ⟨htag, ⟨p, rfl, hp⟩, hchildren⟩ := ha
          obtain ⟨htag', ⟨q, rfl, hq⟩, hchildren'⟩ := hb
          simp only [chars, List.append_assoc] at h
          obtain ⟨hstart, hrest⟩ := delimited_startTag ⟨htag.chars, fun _ => hp.attributes⟩
            ⟨htag'.chars, fun _ => hq.attributes⟩ trivial trivial h
          obtain ⟨rfl, hattributes⟩ := Prod.mk.inj hstart
          obtain rfl := hp.eq_of_attributes hq hattributes
          have hend (rest : List Char) : shapeOf? ((endTag tag).toList ++ rest) = none := by
            simp [endTag, shapeOf?]
          obtain ⟨rfl, hst⟩ :=
            eq_of_charsList children children' hchildren hchildren' (hend s) (hend t) hrest
          exact ⟨rfl, List.append_cancel_left hst⟩
      | root | text | comment | doctype => cases hshape
  | .text value, b, s, t, ha, hb, hs, ht, hshape, h => by
      cases b with
      | text value' =>
          have hfollows {value : String} {rest : List Char} (hrest : (Node.text value).Apart rest)
              (c : Char) (more : List Char) : rest ≠ escapeTextChar c ++ more :=
            fun heq => hrest rfl (heq ▸ shapeOf?_escapeTextChar c more)
          obtain ⟨rfl, rfl⟩ := delimited_escaped readChar?_escapeTextChar trivial trivial
            (hfollows hs) (hfollows ht) h
          exact ⟨rfl, rfl⟩
      | root | element | comment | doctype => cases hshape
  | .comment value, b, s, t, ha, hb, hs, ht, hshape, h => by
      cases b with
      | comment value' =>
          have hvalues : ['<', '!', '-', '-'] ++ (value.toList ++ commentEnd ++ s) =
              ['<', '!', '-', '-'] ++ (value'.toList ++ commentEnd ++ t) := h
          obtain ⟨rfl, rfl⟩ := delimited_comment.ofChars ha hb trivial trivial
            (List.append_cancel_left hvalues)
          exact ⟨rfl, rfl⟩
      | root | element | text | doctype => cases hshape
  | .doctype, b, s, t, ha, hb, hs, ht, hshape, h => by
      cases b with
      | doctype => exact ⟨rfl, List.append_cancel_left h⟩
      | root | element | text | comment => cases hshape

/-- Plain rows can be told apart in front of what starts no node. -/
theorem eq_of_charsList : (as bs : List Node) → {s t : List Char} → PlainRow as → PlainRow bs →
    shapeOf? s = none → shapeOf? t = none → charsList as ++ s = charsList bs ++ t →
    as = bs ∧ s = t
  | as, bs, s, t, has, hbs, hs, ht, h => by
      have hshape : as.head?.bind shape? = bs.head?.bind shape? := by
        rw [← shapeOf?_charsList has hs, h, shapeOf?_charsList hbs ht]
      match as, bs with
      | [], [] => exact ⟨rfl, h⟩
      | [], b :: bs => exact absurd hshape.symm (shape?_ne_none hbs.1)
      | a :: as, [] => exact absurd hshape (shape?_ne_none has.1)
      | a :: as, b :: bs =>
        rw [charsList, charsList, List.append_assoc, List.append_assoc] at h
        obtain ⟨rfl, hrest⟩ := eq_of_chars a b has.1 hbs.1 (apart_of_plainRow has hs)
          (apart_of_plainRow hbs ht) hshape h
        obtain ⟨rfl, rfl⟩ := eq_of_charsList as bs has.2.2 hbs.2.2 hs ht hrest
        exact ⟨rfl, rfl⟩

end

/-- Plain rows are told apart by the HTML of a root. -/
theorem toHtml_eq_iff {a b : List Node} (ha : PlainRow a) (hb : PlainRow b) :
    (Node.root a).toHtml = (Node.root b).toHtml ↔ Node.root a = Node.root b := by
  constructor
  · intro h
    have hchars := congrArg String.toList h
    rw [toHtml_eq_html, toHtml_eq_html, html, html, toList_htmlList a {} ha rfl rfl,
      toList_htmlList b {} hb rfl rfl] at hchars
    have hrows : charsList a ++ [] = charsList b ++ [] := congrArg (· ++ []) hchars
    obtain ⟨rfl, -⟩ := eq_of_charsList a b ha hb rfl rfl hrows
    rfl
  · intro h
    rw [h]

/-- Two rows that look alike: one has in its title and its text what the other has there escaped.
They are told apart. -/
theorem toHtml_escapes_ne :
    let row (title value : String) : List Node :=
      [.element "p" (some { className := .list ["x", "y"], other := [("title", .string title)] })
        [.text value, .element "p" (some {}) [], .text ">"], .comment "--", .doctype]
    let a := row "\"&" "<\u00A0"
    let b := row "&quot;&" "&lt;\u00A0"
    PlainRow a ∧ PlainRow b ∧ (Node.root a).toHtml ≠ (Node.root b).toHtml := by
  intro row a b
  have hrow (title value : String) (hvalue : value ≠ "") : PlainRow (row title value) := by
    have hchar : isTagChar 'p' = true := by decide
    have htag : PlainTag "p" := ⟨by decide, by simp [hchar], by decide, by decide⟩
    have hproperties : (Properties.ofAttributes [("class", "x y"), ("title", title)]).Plain := by
      refine ⟨Properties.textual_ofAttributes _, fun key hkey => ?_⟩
      have hkey : key = "title" := List.mem_singleton.mp hkey
      subst hkey
      decide
    have hempty : ({} : Properties).Plain := ⟨Properties.textual_empty, nofun⟩
    have hgreater : (Node.text ">").Plain := show ">" ≠ "" by decide
    have hcomment : (Node.comment "--").Plain := show ¬commentEnd <:+: "--".toList by decide
    have hchildren : PlainRow [.text value, .element "p" (some {}) [], .text ">"] :=
      ⟨hvalue, by simp [isText], ⟨htag, ⟨_, rfl, hempty⟩, trivial⟩, nofun, hgreater, nofun, trivial⟩
    have hfirst : (Node.element "p" (some (Properties.ofAttributes [("class", "x y"),
        ("title", title)])) [.text value, .element "p" (some {}) [], .text ">"]).Plain :=
      ⟨htag, ⟨_, rfl, hproperties⟩, hchildren⟩
    exact ⟨hfirst, nofun, hcomment, nofun, trivial, nofun, trivial⟩
  have ha : PlainRow a := hrow _ _ (by decide)
  have hb : PlainRow b := hrow _ _ (by decide)
  refine ⟨ha, hb, (toHtml_eq_iff ha hb).not.mpr ?_⟩
  simp [a, b, row]

end Node

end CellAlign
