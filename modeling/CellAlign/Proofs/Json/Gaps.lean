import CellAlign.Proofs.Json.Settled

/-!
# Gaps, and what stands between values

A reader leaves out the gap in front of what it reads.  So a text is read just if it is a gap and
behind that what is wanted: a colon, a literal name, or the end.

* `exists_of_skipGap`, `skipGap_eq_cons_iff`, `skipGap_eq_nil_iff`: gaps;
* `readColon_eq_ok_iff`, `readEnd_eq_ok_iff`: what stands between values;
* `eq_of_readName`, `readName_append`: literal names.
-/

namespace CellAlign.Json

open Numeral (EndsNumeral)

/-! ## Gaps -/

/-- A text is a gap and what comes behind it. -/
theorem exists_of_skipGap (text : List Char) : ∃ gap, text = gap ++ skipGap text ∧ IsGap gap := by
  refine ⟨text.takeWhile isGap, (List.takeWhile_append_dropWhile ..).symm, fun c hc => ?_⟩
  exact List.all_eq_true.mp List.all_takeWhile c hc

/-- What is left of a text without the gap at its start. -/
theorem skipGap_eq_cons_iff {text rest : List Char} {c : Char} :
    skipGap text = c :: rest ↔
      ∃ gap, text = gap ++ c :: rest ∧ IsGap gap ∧ isGap c = false := by
  constructor
  · intro h
    obtain ⟨gap, htext, hgap⟩ := exists_of_skipGap text
    have hc : isGap c = false := by
      have hhead := List.head?_dropWhile_not isGap text
      rw [show text.dropWhile isGap = c :: rest from h] at hhead
      simpa using hhead
    exact ⟨gap, h ▸ htext, hgap, hc⟩
  · rintro ⟨gap, rfl, hgap, hc⟩
    rw [skipGap_append hgap, skipGap_cons hc]

/-- Nothing is left of a gap. -/
theorem skipGap_eq_nil_iff {text : List Char} : skipGap text = [] ↔ IsGap text := by
  constructor
  · intro h
    obtain ⟨gap, htext, hgap⟩ := exists_of_skipGap text
    rw [h, List.append_nil] at htext
    exact htext ▸ hgap
  · intro h
    have hskip := skipGap_append h []
    rwa [List.append_nil] at hskip

/-- No numeral goes on with a character that could not stand in one. -/
theorem endsNumeral_cons {c : Char}
    (h : c.isDigit = false ∧ c ≠ '.' ∧ c ≠ 'e' ∧ c ≠ 'E') (rest : List Char) :
    EndsNumeral (c :: rest) := by
  intro d hd
  obtain rfl : c = d := Option.some.inj hd
  exact h

/-- Nor does one go on with a gap in front of such a character. -/
theorem endsNumeral_of_skipGap {text rest : List Char} {c : Char} (h : skipGap text = c :: rest)
    (hc : EndsNumeral [c]) : EndsNumeral text := by
  obtain ⟨gap, rfl, hgap, -⟩ := skipGap_eq_cons_iff.mp h
  exact endsNumeral_append hgap (endsNumeral_cons (hc c rfl) rest)

/-- No numeral goes on with a gap. -/
theorem endsNumeral_gap {gap : List Char} (h : IsGap gap) : EndsNumeral gap := by
  have hnil := endsNumeral_append h (show EndsNumeral [] from nofun)
  rwa [List.append_nil] at hnil

/-! ## Between values -/

/-- The colon behind a key is read, with the gap in front of it. -/
theorem readColon_eq_ok_iff {text rest : List Char} :
    readColon text = .ok rest ↔ ∃ gap, text = gap ++ ':' :: rest ∧ IsGap gap := by
  constructor
  · intro h
    unfold readColon at h
    split at h
    · cases h
    · next c more hskip =>
      split at h
      · next hc =>
        subst hc
        cases h
        obtain ⟨gap, htext, hgap, -⟩ := skipGap_eq_cons_iff.mp hskip
        exact ⟨gap, htext, hgap⟩
      · cases h
  · rintro ⟨gap, rfl, hgap⟩
    rw [readColon, skipGap_append hgap, skipGap_cons (by decide)]
    simp

/-- At the end of a text nothing but a gap is accepted. -/
theorem readEnd_eq_ok_iff {text : List Char} : readEnd text = .ok () ↔ IsGap text := by
  rw [← skipGap_eq_nil_iff, readEnd]
  cases skipGap text <;> simp [stopAtNext]

/-- What is read as a literal name is that name. -/
theorem eq_of_readName {name text rest : List Char} (h : readName name text = .ok rest) :
    text = name ++ rest := by
  induction name generalizing text with
  | nil => exact Except.ok.inj h
  | cons c name ih =>
      cases text with
      | nil => cases h
      | cons d text =>
          rw [readName] at h
          split at h
          · next hc => rw [hc, ih h, List.cons_append]
          · cases h

/-- A literal name is read behind its first letter. -/
theorem readName_append (name rest : List Char) : readName name (name ++ rest) = .ok rest := by
  induction name with
  | nil => rfl
  | cons c name ih => rw [List.cons_append, readName, if_pos rfl, ih]

end CellAlign.Json
