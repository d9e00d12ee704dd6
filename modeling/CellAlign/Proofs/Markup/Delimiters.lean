import CellAlign.Markup.Render
import CellAlign.Proofs.Text.Delimited

/-!
# Escaped characters, start tags and comments, told apart

An escaped character is read back from what is written of it, in a text and in the value of an
attribute alike.  A text ends where no escaped character follows, the name of an attribute at the
equals sign, its value at the quotation mark, the attributes at the angle bracket, and a comment at
the first end of a comment.  So each of them can be told apart from others of its kind.

* `readChar?_escapeTextChar`, `readChar?_escapeValueChar`: escaped characters are read back;
* `delimited_escaped`: escaped texts;
* `delimited_startTag`: start tags with their attributes;
* `delimited_comment`: comments.
-/

namespace CellAlign.Markup

open Text (Delimited)

/-! ## Escaped characters -/

/-- Reads the rest of an escaped character, behind the ampersand. -/
def readReference? : List Char → Option (Char × List Char)
  | 'a' :: 'm' :: 'p' :: ';' :: rest => some ('&', rest)
  | 'n' :: 'b' :: 's' :: 'p' :: ';' :: rest => some ('\u00A0', rest)
  | 'l' :: 't' :: ';' :: rest => some ('<', rest)
  | 'g' :: 't' :: ';' :: rest => some ('>', rest)
  | 'q' :: 'u' :: 'o' :: 't' :: ';' :: rest => some ('"', rest)
  | _ => none

/-- Reads a character, escaped or not. -/
def readChar? : List Char → Option (Char × List Char)
  | [] => none
  | c :: rest => if c = '&' then readReference? rest else some (c, rest)

/-- A character of a text is read back. -/
theorem readChar?_escapeTextChar (c : Char) (rest : List Char) :
    readChar? (escapeTextChar c ++ rest) = some (c, rest) := by
  unfold escapeTextChar
  split
  · next h => subst h; rfl
  split
  · next h => subst h; rfl
  split
  · next h => subst h; rfl
  split
  · next h => subst h; rfl
  · next h _ _ _ => simp [readChar?, h]

/-- A character of the value of an attribute is read back. -/
theorem readChar?_escapeValueChar (c : Char) (rest : List Char) :
    readChar? (escapeValueChar c ++ rest) = some (c, rest) := by
  unfold escapeValueChar
  split
  · next h => subst h; rfl
  split
  · next h => subst h; rfl
  split
  · next h => subst h; rfl
  · next h _ _ => simp [readChar?, h]

/-- Escaped texts can be told apart in front of what is no escaped character. -/
theorem delimited_escaped {escape : Char → List Char}
    (h : ∀ c rest, readChar? (escape c ++ rest) = some (c, rest)) :
    Delimited (fun _ : String => True) (fun s => ∀ c t, s ≠ escape c ++ t)
      (fun value => value.toList.flatMap escape) := by
  have hchar : Delimited (fun _ => True) (fun _ => True) escape :=
    Text.delimited_of_read readChar? fun c rest _ => h c rest
  have htext := hchar.flatMap.ofChars
  exact htext.mono (fun _ _ _ _ => trivial) fun s hs c t _ => hs c t

/-- No quotation mark starts an escaped character. -/
theorem quote_ne_escapeValueChar (c : Char) (s t : List Char) :
    '"' :: s ≠ escapeValueChar c ++ t := by
  intro h
  have hread := readChar?_escapeValueChar c t
  rw [← h] at hread
  cases hread
  exact absurd (List.cons.inj h).1 (by decide)

/-! ## Start tags -/

/-- The characters of tags: small letters and digits. -/
def isTagChar (c : Char) : Bool := c.isLower || c.isDigit

/-- The characters of an attribute in a start tag. -/
def attributeChars (a : String × String) : List Char :=
  ([' '] ++ a.1.toList ++ ['=', '"']) ++ (a.2.toList.flatMap escapeValueChar ++ ['"'])

/-- The characters of a start tag. -/
def startChars (start : String × List (String × String)) : List Char :=
  ['<'] ++ (start.1.toList ++ start.2.flatMap attributeChars) ++ ['>']

/-- A start tag is written in its characters. -/
theorem toList_startTag (tag : String) (attributes : List (String × String)) :
    (startTag tag attributes).toList = startChars (tag, attributes) := by
  have hattributes : (attributesText attributes).toList = attributes.flatMap attributeChars := by
    induction attributes with
    | nil => rfl
    | cons a attributes ih =>
        simp [attributesText, attributeChars, escapeValue, ih]
  simp [startTag, startChars, hattributes]

/-- Attributes with no equals sign in their names can be told apart, whatever follows. -/
theorem delimited_attribute :
    Delimited (fun a : String × String => '=' ∉ a.1.toList) (fun _ => True) attributeChars := by
  have hname := (Text.delimited_run fun c => c ≠ '=').ofChars.between [' '] ['=', '"']
    fun s c t hc h => hc (List.cons.inj h).1.symm
  have hvalue := (delimited_escaped readChar?_escapeValueChar).between [] ['"']
    fun s c t => quote_ne_escapeValueChar c s t
  have hboth := hname.append hvalue fun _ _ _ _ => trivial
  exact hboth.mono (fun a ha => ⟨fun _ hc heq => ha (heq ▸ hc), trivial⟩) fun _ _ => trivial

/-- Start tags can be told apart, whatever follows. -/
theorem delimited_startTag :
    Delimited (fun start : String × List (String × String) =>
        (∀ c ∈ start.1.toList, isTagChar c = true) ∧ ∀ a ∈ start.2, '=' ∉ a.1.toList)
      (fun _ => True) startChars := by
  have htag := (Text.delimited_run fun c => isTagChar c = true).ofChars
  have hattributes : Delimited
      (fun as : List (String × String) => ∀ a ∈ as, '=' ∉ a.1.toList)
      (fun s => ∃ t, s = '>' :: t) (List.flatMap attributeChars) := by
    refine delimited_attribute.flatMap.mono (fun _ h => h) ?_
    rintro _ ⟨t, rfl⟩ a u - h
    exact absurd (List.cons.inj h).1 (by decide)
  -- Behind a tag there is a space or the end of the start tag, and neither goes on with the tag.
  have hnext (as : List (String × String)) (t : List Char) (c : Char) (u : List Char)
      (hc : isTagChar c = true) : as.flatMap attributeChars ++ '>' :: t ≠ c :: u := by
    intro h
    cases as with
    | nil =>
        obtain ⟨rfl, -⟩ := List.cons.inj h
        exact absurd hc (by decide)
    | cons a as =>
        obtain ⟨rfl, -⟩ := List.cons.inj h
        exact absurd hc (by decide)
  have hboth := htag.append hattributes fun as s _ hs c u hc => by
    obtain ⟨t, rfl⟩ := hs
    exact hnext as t c u hc
  exact hboth.between ['<'] ['>'] fun s => ⟨s, rfl⟩

/-! ## Comments -/

/-- The end of a comment. -/
def commentEnd : List Char := ['-', '-', '>']

/-- A text in which no comment ends does not start with the end of a comment, not even if one stands
behind it. -/
theorem commentEnd_ne {c : Char} {chars : List Char} (h : ¬commentEnd <:+: c :: chars)
    (s t : List Char) : commentEnd ++ s ≠ c :: chars ++ commentEnd ++ t := by
  intro heq
  match chars with
  | [] => simp [commentEnd] at heq
  | [d] => simp [commentEnd] at heq
  | d :: e :: more =>
      simp only [commentEnd, List.cons_append, List.nil_append, List.cons.injEq] at heq
      obtain ⟨rfl, rfl, rfl, -⟩ := heq
      exact h ⟨[], more, rfl⟩

/-- Texts in which no comment ends can be told apart with the end of a comment behind them. -/
theorem delimited_comment :
    Delimited (fun chars => ¬commentEnd <:+: chars) (fun _ => True)
      (fun chars => chars ++ commentEnd) := by
  intro a b s t ha hb _ _ heq
  induction a generalizing b with
  | nil =>
      cases b with
      | nil => exact ⟨rfl, List.append_cancel_left heq⟩
      | cons d b => exact absurd heq (commentEnd_ne hb s t)
  | cons c a ih =>
      cases b with
      | nil => exact absurd heq.symm (commentEnd_ne ha t s)
      | cons d b =>
          obtain ⟨rfl, hrest⟩ := List.cons.inj heq
          have hshorter {chars : List Char} (h : ¬commentEnd <:+: c :: chars) :
              ¬commentEnd <:+: chars := fun hinfix => h (List.infix_cons hinfix)
          obtain ⟨rfl, rfl⟩ := ih (hshorter ha) (hshorter hb) hrest
          exact ⟨rfl, rfl⟩

end CellAlign.Markup
