import CellAlign.Proofs.Tree.Attributes

/-!
# The tokens of a class attribute

HTML cuts the value of a class attribute at its five space characters.  Here it is cut at all blanks
when it is read, and the words are joined by spaces when it is written.  So what is written has the
tokens of what was read, each of them cut once more at the blanks that are no spaces; if there are
any, other tokens come out.

* `Text.spaceWords_join_blankWords`: the tokens of what is written;
* `class_tokens_written_eq_iff`: when they are those of what was read.
-/

namespace CellAlign

namespace Text

/-- The tokens of a class attribute, as HTML cuts it. -/
def spaceWords (text : String) : List String := (words isSpace text.toList).map String.ofList

/-- The words of a text, joined by spaces, have no other tokens than themselves. -/
theorem spaceWords_join_blankWords (text : String) :
    spaceWords (join " " (blankWords text)) = blankWords text := by
  have hwords : ∀ word ∈ blankWords text, IsWord isSpace word.toList := by
    intro word hword
    obtain ⟨hne, hchars⟩ := isWord_of_mem_blankWords hword
    refine ⟨hne, fun c hc => ?_⟩
    apply Bool.eq_false_iff.mpr
    intro hspace
    have hblank := isBlank_of_isSpace hspace
    rw [hchars c hc] at hblank
    cases hblank
  have hjoin := words_join (s := ' ') (by decide) hwords
  rw [spaceWords, show " " = String.singleton ' ' from rfl, hjoin, List.map_map]
  have hsame : String.ofList ∘ String.toList = id := funext fun word => String.ofList_toList
  rw [hsame, List.map_id]

/-- The words of a text are those of its tokens. -/
theorem flatMap_spaceWords (text : String) :
    (spaceWords text).flatMap blankWords = blankWords text := by
  have hblank : ∀ c, isSpace c = true → isBlank c = true := fun c => isBlank_of_isSpace
  have hcut := flatMap_words hblank text.toList
  rw [spaceWords, blankWords, ← hcut, List.map_flatMap, List.flatMap_map]
  simp only [blankWords, String.toList_ofList]

/-- The words of a text are its tokens if and only if all blanks in it are spaces. -/
theorem blankWords_eq_spaceWords_iff (text : String) :
    blankWords text = spaceWords text ↔ ∀ c ∈ text.toList, isBlank c = true → isSpace c = true := by
  have hblank : ∀ c, isSpace c = true → isBlank c = true := fun c => isBlank_of_isSpace
  have hinjective : Function.Injective String.ofList := fun _ _ h => String.ofList_injective h
  rw [← words_eq_words_iff hblank, blankWords, spaceWords,
    (List.map_injective_iff.mpr hinjective).eq_iff]

end Text

open Text (spaceWords blankWords isBlank isSpace)

/-- The class that attributes give is written with the tokens of the value that came last, each cut
once more at the blanks that are no spaces; so it keeps its tokens if and only if there are none of
those in the value. -/
theorem class_tokens_written_eq_iff (given : List (String × String)) :
    let read := Entries.get? "class" given.reverse
    let written := Entries.get? "class" (Properties.ofAttributes given).attributes
    written.map spaceWords = read.map (fun value => (spaceWords value).flatMap blankWords) ∧
      (written.map spaceWords = read.map spaceWords ↔
        ∀ value ∈ read, ∀ c ∈ value.toList, isBlank c = true → isSpace c = true) := by
  intro read written
  have hwritten : written.map spaceWords = read.map blankWords := by
    have hget : written = read.map (Properties.writtenValue "class") := by
      rw [← Properties.text?_ofAttributes, ← Properties.get?_attributes]
      exact Properties.textual_ofAttributes given
    rw [hget, Option.map_map]
    congr 1
    funext value
    exact Text.spaceWords_join_blankWords value
  constructor
  · rw [hwritten]
    congr 1
    funext value
    exact (Text.flatMap_spaceWords value).symm
  · rw [hwritten]
    cases read with
    | none => simp
    | some value =>
        rw [Option.map_some, Option.map_some, Option.some_inj, Text.blankWords_eq_spaceWords_iff]
        simp

/-- A token with a space in it that does not break comes out as two. -/
theorem class_tokens_cut_at_hard_space :
    let given := [("class", "a\u00A0b")]
    Entries.get? "class" given.reverse = some "a\u00A0b" ∧
      Entries.get? "class" (Properties.ofAttributes given).attributes = some "a b" ∧
      spaceWords "a\u00A0b" = ["a\u00A0b"] ∧ spaceWords "a b" = ["a", "b"] ∧
      (Entries.get? "class" (Properties.ofAttributes given).attributes).map spaceWords ≠
        (Entries.get? "class" given.reverse).map spaceWords := by
  decide

end CellAlign
