import CellAlign.Text.Blank
import Mathlib.Data.List.TakeWhile

/-!
# Texts without blanks at their ends

Trimming takes away what is blank at both ends of a text and nothing else.  A text that neither
begins nor ends with a blank is left as it is.

* `exists_eq_append_trim`: what trimming takes away;
* `trim_of_isTrimmed`: what it leaves as it is.
-/

namespace CellAlign.Text

variable {blank : Char → Bool}

/-- A text neither begins nor ends with a character of a set. -/
structure IsTrimmed (blank : Char → Bool) (text : List Char) : Prop where
  head : ∀ c ∈ text.head?, blank c = false
  last : ∀ c ∈ text.getLast?, blank c = false

/-- What is left behind the blanks at the start of a text does not begin with one. -/
theorem not_blank_of_mem_head?_dropWhile {text : List Char} :
    ∀ c ∈ (text.dropWhile blank).head?, blank c = false := by
  intro c hc
  have hhead := List.head?_dropWhile_not blank text
  rw [Option.mem_def.mp hc] at hhead
  simpa using hhead

/-- Trimming takes blanks away at both ends, until there are no more. -/
theorem exists_eq_append_trim (blank : Char → Bool) (text : List Char) :
    ∃ before behind, text = before ++ (trim blank text ++ behind) ∧
      (∀ c ∈ before, blank c = true) ∧ (∀ c ∈ behind, blank c = true) ∧
      IsTrimmed blank (trim blank text) := by
  have htake {text : List Char} : ∀ c ∈ text.takeWhile blank, blank c = true :=
    fun c hc => List.mem_takeWhile_imp hc
  let rest := text.dropWhile blank
  have hrest : rest = trim blank text ++ (rest.reverse.takeWhile blank).reverse := by
    rw [trim, ← List.reverse_append, List.takeWhile_append_dropWhile, List.reverse_reverse]
  refine ⟨text.takeWhile blank, (rest.reverse.takeWhile blank).reverse, ?_, htake, ?_, ?_, ?_⟩
  · rw [← hrest, List.takeWhile_append_dropWhile]
  · intro c hc
    exact htake c (List.mem_reverse.mp hc)
  · intro c hc
    have hmem : c ∈ rest.head? := by
      rw [hrest, List.head?_append, Option.mem_def.mp hc]
      rfl
    exact not_blank_of_mem_head?_dropWhile c hmem
  · intro c hc
    rw [trim, List.getLast?_reverse] at hc
    exact not_blank_of_mem_head?_dropWhile c hc

/-- A text without blanks at its ends stays as it is. -/
theorem trim_of_isTrimmed {text : List Char} (h : IsTrimmed blank text) :
    trim blank text = text := by
  have hkeep {text : List Char} (hhead : ∀ c ∈ text.head?, blank c = false) :
      text.dropWhile blank = text := by
    cases text with
    | nil => rfl
    | cons c text => rw [List.dropWhile_cons, hhead c rfl]; rfl
  have hlast : ∀ c ∈ text.reverse.head?, blank c = false := by
    intro c hc
    rw [List.head?_reverse] at hc
    exact h.last c hc
  rw [trim, hkeep h.head, hkeep hlast, List.reverse_reverse]

/-- What is trimmed from texts: blanks and byte order marks. -/
def isMargin (c : Char) : Bool := isBlank c || c == '\uFEFF'

/-- A trimmed text has no blanks at its ends. -/
theorem isTrimmed_trimBlank (text : String) : IsTrimmed isMargin (trimBlank text).toList := by
  obtain ⟨-, -, -, -, -, htrimmed⟩ := exists_eq_append_trim isMargin text.toList
  rw [trimBlank, String.toList_ofList]
  exact htrimmed

/-- Trimming leaves a text without blanks at its ends as it is. -/
theorem trimBlank_of_isTrimmed {text : String} (h : IsTrimmed isMargin text.toList) :
    trimBlank text = text := by
  have hchars : trim isMargin text.toList = text.toList := trim_of_isTrimmed h
  have hofList : String.ofList (trim isMargin text.toList) = text := by
    rw [hchars, String.ofList_toList]
  exact hofList

end CellAlign.Text
