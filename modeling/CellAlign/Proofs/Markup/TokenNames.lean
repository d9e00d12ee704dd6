import CellAlign.Markup.Lexer
import CellAlign.Proofs.Markup.AttributeNames
import Mathlib.Tactic.SplitIfs

/-!
# Names of attributes in tokens

Of all tokens only a start tag carries attributes, and each of their names is read character by
character in lower case.  So whatever the region, the tokens taken from a text are named
(`named_nextTokens`).
-/

namespace CellAlign.Markup.Lexer

/-! ## Tags -/

/-- Characters of a name make a name in lower case. -/
theorem isLower_nameChars (chars : List Char) : IsLower (String.ofList (chars.map nameChar)) := by
  intro c hc
  rw [String.toList_ofList, List.mem_map] at hc
  obtain ⟨d, -, rfl⟩ := hc
  delta nameChar Char.isUpper Char.toLower
  split <;> grind

/-- Attributes in lower case with another one. -/
theorem isLower_addAttribute {attributes : List (String × String)} {name : List Char}
    (h : ∀ a ∈ attributes, IsLower a.1) (hname : IsLower (String.ofList name)) (value : List Char) :
    ∀ a ∈ addAttribute attributes name value, IsLower a.1 := by
  unfold addAttribute
  dsimp only
  split
  · exact h
  · intro a ha
    rcases List.mem_append.mp ha with hold | hnew
    · exact h a hold
    · obtain rfl := List.mem_singleton.mp hnew
      exact hname

/-- The attributes that are read are in lower case, if those were that were read before. -/
theorem isLower_readAttributes {fuel : Nat} {attributes : List (String × String)}
    {text : List Char} (h : ∀ a ∈ attributes, IsLower a.1)
    {found : List (String × String) × Bool × List Char}
    (hfound : readAttributes fuel attributes text = some found) : ∀ a ∈ found.1, IsLower a.1 := by
  induction fuel generalizing attributes text with
  | zero => cases hfound
  | succ fuel ih =>
      have hname : ∀ (c : Char) (more : List Char) (value : List Char),
          ∀ a ∈ addAttribute attributes ((c :: more).map nameChar) value, IsLower a.1 :=
        fun c more value => isLower_addAttribute h (isLower_nameChars (c :: more)) value
      rw [readAttributes] at hfound
      split at hfound
      · cases hfound
      · split at hfound
        · cases hfound
          exact h
        · split at hfound
          · split at hfound
            · cases hfound
              exact h
            · exact ih h hfound
          · dsimp only at hfound
            split at hfound
            · split at hfound
              · exact ih (hname _ _ _) hfound
              · cases hfound
            · exact ih (hname _ _ _) hfound

/-- The attributes of a tag are in lower case. -/
theorem named_readTag {text : List Char} {found : Tag × List Char}
    (h : readTag text = some found) : Named found.1 := by
  obtain ⟨read, hread, rfl⟩ := Option.map_eq_some_iff.mp h
  exact isLower_readAttributes (fun _ h => absurd h List.not_mem_nil) hread

/-- A start tag is read with its attributes in lower case. -/
theorem named_startTag (text : List Char) : Named (startTag text).1 := by
  unfold startTag
  split
  next tag rest hread => exact named_readTag hread
  next => trivial

/-! ## Other tokens -/

theorem named_runToken (run : List Char) : Named (runToken run) := by
  unfold runToken
  split <;> trivial

theorem named_endTag (text : List Char) : Named (endTag text).1 := by
  unfold endTag
  split <;> trivial

theorem named_comment (text : List Char) : Named (comment text).1 := by
  unfold comment
  split <;> trivial

theorem named_bogusComment (text : List Char) : Named (bogusComment text).1 := trivial

theorem named_doctypeEnd (declared : Doctype) (rest : List Char) :
    Named (doctypeEnd declared rest).1 := trivial

theorem named_doctypeRest (declared : Doctype) (text : List Char) :
    Named (doctypeRest declared text).1 := named_doctypeEnd _ _

theorem named_doctypeTail (declared : Doctype) (text : List Char) :
    Named (doctypeTail declared text).1 := by
  unfold doctypeTail
  split
  · exact named_doctypeEnd _ _
  · exact named_doctypeEnd _ _
  · exact named_doctypeRest _ _

theorem named_doctypeSystem (needed : Bool) (declared : Doctype) (text : List Char) :
    Named (doctypeSystem needed declared text).1 := by
  unfold doctypeSystem
  split
  · exact named_doctypeEnd _ _
  · split_ifs
    · exact named_doctypeEnd _ _
    · dsimp only
      split
      · exact named_doctypeTail _ _
      · exact named_doctypeEnd _ _
    · exact named_doctypeRest _ _

theorem named_doctypePublic (declared : Doctype) (text : List Char) :
    Named (doctypePublic declared text).1 := by
  unfold doctypePublic
  split
  · exact named_doctypeEnd _ _
  · split_ifs
    · dsimp only
      split
      · exact named_doctypeSystem _ _ _
      · exact named_doctypeEnd _ _
    · exact named_doctypeRest _ _

theorem named_afterDoctypeName (declared : Doctype) (text : List Char) :
    Named (afterDoctypeName declared text).1 := by
  unfold afterDoctypeName
  split
  · exact named_doctypeEnd _ _
  · exact named_doctypeEnd _ _
  · split
    · exact named_doctypePublic _ _
    · split
      · exact named_doctypeSystem _ _ _
      · exact named_doctypeRest _ _

theorem named_doctype (text : List Char) : Named (doctype text).1 := by
  unfold doctype
  split
  · exact named_doctypeEnd _ _
  · exact named_doctypeEnd _ _
  · exact named_afterDoctypeName _ _

theorem named_declaration (text : List Char) : Named (declaration text).1 := by
  unfold declaration
  split
  · exact named_comment _
  · split
    · exact named_doctype _
    · exact named_bogusComment _

/-! ## Regions -/

theorem named_afterBracket (text : List Char) : Named (afterBracket text).1 := by
  unfold afterBracket
  split
  · trivial
  · split_ifs
    · exact named_declaration _
    · exact named_bogusComment _
    · split
      · trivial
      · split_ifs
        · exact named_endTag _
        · trivial
        · exact named_bogusComment _
    · exact named_startTag _
    · trivial

theorem named_markup (text : List Char) : Named (markup text).1 := by
  unfold markup
  split
  · trivial
  · split_ifs
    · exact named_afterBracket _
    · split
      · exact named_runToken _
      · trivial
    · trivial
    · trivial
    · trivial

/-- The end tag of an element is read without attributes. -/
theorem named_of_closing? {name : String} {text : List Char} {found : Token × List Char}
    (h : closing? name text = some found) : Named found.1 := by
  unfold closing? at h
  split at h
  · split at h
    · cases h
      exact named_endTag _
    · cases h
  · cases h

theorem named_escapable (name : String) (text : List Char) : Named (escapable name text).1 := by
  unfold escapable
  split
  next found hclosing => exact named_of_closing? hclosing
  next =>
    split
    · trivial
    · split_ifs
      · split
        · exact named_runToken _
        · trivial
      · exact named_runToken _

theorem named_raw (name : String) (text : List Char) : Named (raw name text).1 := by
  unfold raw
  split
  next found hclosing => exact named_of_closing? hclosing
  next =>
    split
    · trivial
    · exact named_runToken _

theorem named_script (text : List Char) : Named (script text).1 := by
  unfold script
  split
  next found hclosing => exact named_of_closing? hclosing
  next =>
    split
    · trivial
    · exact named_runToken _

theorem named_plain (text : List Char) : Named (plain text).1 := by
  unfold plain
  split
  · trivial
  · exact named_runToken _

/-- A text without any marks is read without attributes. -/
theorem named_literalTokens (text : List Char) : Named (literalTokens text) := by
  intro token htoken
  obtain ⟨run, -, hrun⟩ := List.mem_flatMap.mp htoken
  cases run with
  | nil => cases hrun
  | cons c run =>
      dsimp only at hrun
      split at hrun
      · rw [List.eq_of_mem_replicate hrun]
        trivial
      · rw [List.mem_singleton.mp hrun]
        exact named_runToken (c :: run)

/-- A literal section is read without attributes. -/
theorem named_of_literal? {foreign : Bool} {text : List Char} {found : List Token × List Char}
    (h : literal? foreign text = some found) : Named found.1 := by
  unfold literal? at h
  split at h
  · split at h
    · cases h
      exact named_literalTokens _
    · cases h
  · cases h

end CellAlign.Markup.Lexer

namespace CellAlign.Markup

/-- The tokens taken from the start of a text have attributes in lower case. -/
theorem named_nextTokens (region : Region) (foreign : Bool) (text : List Char) :
    Named (nextTokens region foreign text).1 := by
  have hone : ∀ found : Token × List Char, Named found.1 → Named [found.1] :=
    fun found hfound => named_cons.mpr ⟨hfound, named_nil.mpr trivial⟩
  have hfaulty : ∀ found : Token × List Char, Named found.1 →
      Named (if lacksSemicolon text then ([Token.nothing, found.1], found.2)
        else ([found.1], found.2)).1 := by
    intro found hfound
    split
    · exact named_cons.mpr ⟨trivial, hone found hfound⟩
    · exact hone found hfound
  unfold nextTokens
  cases region with
  | markup =>
      dsimp only
      split
      · split
        next found hfound => exact Lexer.named_of_literal? hfound
        next => exact hone _ (Lexer.named_markup _)
      · exact hfaulty _ (Lexer.named_markup text)
  | escapable name => exact hfaulty _ (Lexer.named_escapable name text)
  | raw name => exact hone _ (Lexer.named_raw name text)
  | script => exact hone _ (Lexer.named_script text)
  | plain => exact hone _ (Lexer.named_plain text)

end CellAlign.Markup
