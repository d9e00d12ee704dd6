import CellAlign.Text.Blank

/-!
# Words put together again

The words of a text are its maximal runs without separators.  A text is cut at any of its separators
into two texts whose words are its own, so that all about words follows from what is known of texts
without separators.  Words that are joined by a separator are the words of what they are joined to.

* `words_append_sep`: a text cut at a separator;
* `isWord_of_mem_words`, `exists_mem_words`: the words of a text are words, and hold all of its
  characters that are no separators;
* `flatMap_words`: words that are cut once more, at more separators;
* `words_join`, `blankWords_join`: the words of joined words.
-/

namespace CellAlign.Text

/-- A run of characters, at least one, without a separator. -/
def IsWord (sep : Char → Bool) (chars : List Char) : Prop :=
  chars ≠ [] ∧ ∀ c ∈ chars, sep c = false

variable {sep small large : Char → Bool}

/-! ## Cutting at a separator -/

/-- A word has no other word than itself. -/
theorem words_of_isWord {word : List Char} (hword : IsWord sep word) : words sep word = [word] := by
  obtain ⟨hne, hchars⟩ := hword
  induction word with
  | nil => exact absurd rfl hne
  | cons c word ih =>
      obtain ⟨hc, hword⟩ := List.forall_mem_cons.mp hchars
      cases word with
      | nil => simp [words, hc]
      | cons d word =>
          have hd : sep d = false := hword d List.mem_cons_self
          rw [words, ih (List.cons_ne_nil _ _) hword]
          simp [hc, hd]

/-- A text that does not start with a separator has a word. -/
theorem words_ne_nil {c : Char} (h : sep c = false) (rest : List Char) :
    words sep (c :: rest) ≠ [] := by
  unfold words
  rw [if_neg (by simp [h])]
  split
  · exact List.cons_ne_nil _ _
  split
  · exact List.cons_ne_nil _ _
  split <;> exact List.cons_ne_nil _ _

/-- The words on both sides of a separator are the words of the whole. -/
theorem words_append_sep {s : Char} (hs : sep s = true) (before behind : List Char) :
    words sep (before ++ s :: behind) = words sep before ++ words sep behind := by
  induction before with
  | nil => simp [words, hs]
  | cons c before ih =>
      by_cases hc : sep c = true
      · simpa [words, hc] using ih
      · cases before with
        | nil => simp [words, hc, hs]
        | cons d before =>
            by_cases hd : sep d = true
            · simpa [words, hc, hd] using ih
            · -- The first word on the left goes on with `c`, so there must be one.
              obtain ⟨word, more, hwords⟩ :=
                List.exists_cons_of_ne_nil (words_ne_nil (Bool.eq_false_iff.mpr hd) before)
              have hrest : words sep (d :: (before ++ s :: behind)) =
                  word :: (more ++ words sep behind) := by
                rw [← List.cons_append, ih, hwords, List.cons_append]
              rw [List.cons_append, List.cons_append, words, words, hrest, hwords]
              simp [hc, hd]

/-- What holds of words and of nothing, and of a text if it holds on both sides of a separator in
it, holds of every text. -/
theorem cut_induction (sep : Char → Bool) {motive : List Char → Prop} (nil : motive [])
    (word : ∀ text, IsWord sep text → motive text)
    (cut : ∀ before s behind, sep s = true → motive before → motive behind →
      motive (before ++ s :: behind)) (text : List Char) : motive text := by
  induction hlength : text.length using Nat.strongRecOn generalizing text with
  | ind length ih =>
      by_cases hsep : ∃ s ∈ text, sep s = true
      · obtain ⟨s, hmem, hs⟩ := hsep
        obtain ⟨before, behind, rfl⟩ := List.append_of_mem hmem
        rw [List.length_append, List.length_cons] at hlength
        apply cut before s behind hs
        · exact ih before.length (by omega) before rfl
        · exact ih behind.length (by omega) behind rfl
      · by_cases hnil : text = []
        · rw [hnil]
          exact nil
        · apply word text
          refine ⟨hnil, fun c hc => ?_⟩
          apply Bool.eq_false_iff.mpr
          intro hs
          exact hsep ⟨c, hc, hs⟩

/-! ## The words of a text -/

/-- The words of a text are words. -/
theorem isWord_of_mem_words {text word : List Char} (h : word ∈ words sep text) :
    IsWord sep word := by
  induction text using cut_induction sep with
  | nil => cases h
  | word text htext =>
      rw [words_of_isWord htext] at h
      exact List.mem_singleton.mp h ▸ htext
  | cut before s behind hs ihbefore ihbehind =>
      rw [words_append_sep hs] at h
      rcases List.mem_append.mp h with hbefore | hbehind
      · exact ihbefore hbefore
      · exact ihbehind hbehind

/-- A character that is no separator stands in a word. -/
theorem exists_mem_words {c : Char} {text : List Char} (hmem : c ∈ text) (h : sep c = false) :
    ∃ word ∈ words sep text, c ∈ word := by
  induction text using cut_induction sep with
  | nil => cases hmem
  | word text htext =>
      rw [words_of_isWord htext]
      exact ⟨text, List.mem_singleton.mpr rfl, hmem⟩
  | cut before s behind hs ihbefore ihbehind =>
      have hne : c ≠ s := by
        intro heq
        rw [heq, hs] at h
        cases h
      rw [words_append_sep hs]
      have hside : c ∈ before ∨ c ∈ behind := by simpa [hne] using hmem
      rcases hside with hbefore | hbehind
      · obtain ⟨word, hword, hc⟩ := ihbefore hbefore
        exact ⟨word, List.mem_append_left _ hword, hc⟩
      · obtain ⟨word, hword, hc⟩ := ihbehind hbehind
        exact ⟨word, List.mem_append_right _ hword, hc⟩

/-- Words that are cut once more, at more separators, are the words cut at those. -/
theorem flatMap_words (h : ∀ c, small c = true → large c = true) (text : List Char) :
    (words small text).flatMap (words large) = words large text := by
  induction text using cut_induction small with
  | nil => rfl
  | word text htext => rw [words_of_isWord htext, List.flatMap_singleton]
  | cut before s behind hs ihbefore ihbehind =>
      rw [words_append_sep hs, words_append_sep (h s hs), List.flatMap_append, ihbefore, ihbehind]

/-- More separators leave the words as they are if and only if none of them is in the text. -/
theorem words_eq_words_iff (h : ∀ c, small c = true → large c = true) {text : List Char} :
    words large text = words small text ↔ ∀ c ∈ text, large c = true → small c = true := by
  constructor
  · intro heq c hc hlarge
    apply Classical.byContradiction
    intro hsmall
    obtain ⟨word, hword, hmem⟩ := exists_mem_words hc (Bool.eq_false_iff.mpr hsmall)
    rw [← heq] at hword
    have hfree : large c = false := (isWord_of_mem_words hword).2 c hmem
    rw [hfree] at hlarge
    cases hlarge
  · intro hsame
    induction text using cut_induction small with
    | nil => rfl
    | word text htext =>
        have hlarge : IsWord large text := by
          refine ⟨htext.1, fun c hc => ?_⟩
          apply Bool.eq_false_iff.mpr
          intro hc'
          have hsmall := hsame c hc hc'
          rw [htext.2 c hc] at hsmall
          cases hsmall
        rw [words_of_isWord htext, words_of_isWord hlarge]
    | cut before s behind hs ihbefore ihbehind =>
        have hbefore := ihbefore fun c hc => hsame c (by simp [hc])
        have hbehind := ihbehind fun c hc => hsame c (by simp [hc])
        rw [words_append_sep hs, words_append_sep (h s hs), hbefore, hbehind]

/-! ## Joined words -/

/-- The words of words joined by a separator are the words that were joined. -/
theorem words_join {s : Char} (hs : sep s = true) {texts : List String}
    (h : ∀ text ∈ texts, IsWord sep text.toList) :
    words sep (join (String.singleton s) texts).toList = texts.map String.toList := by
  induction texts with
  | nil => rfl
  | cons text texts ih =>
      obtain ⟨htext, htexts⟩ := List.forall_mem_cons.mp h
      cases texts with
      | nil => exact words_of_isWord htext
      | cons next more =>
          have hjoin : (join (String.singleton s) (text :: next :: more)).toList =
              text.toList ++ s :: (join (String.singleton s) (next :: more)).toList := by
            simp [join]
          rw [hjoin, words_append_sep hs, words_of_isWord htext, ih htexts]
          rfl

/-- The words of a text cut at blanks are words without blanks. -/
theorem isWord_of_mem_blankWords {text word : String} (h : word ∈ blankWords text) :
    IsWord isBlank word.toList := by
  obtain ⟨chars, hchars, rfl⟩ := List.mem_map.mp h
  rw [String.toList_ofList]
  exact isWord_of_mem_words hchars

/-- Words without blanks are found again in what they are joined to by spaces. -/
theorem blankWords_join {texts : List String} (h : ∀ text ∈ texts, IsWord isBlank text.toList) :
    blankWords (join " " texts) = texts := by
  have hwords := words_join (s := ' ') (by decide) h
  rw [blankWords, show " " = String.singleton ' ' from rfl, hwords, List.map_map]
  have hsame : String.ofList ∘ String.toList = id := funext fun text => String.ofList_toList
  rw [hsame, List.map_id]

end CellAlign.Text
