import CellAlign.Proofs.Json.Skipped
import Mathlib.Tactic.SplitIfs

/-!
# Reading and skipping agree

A value can be read, or it can be skipped.  To be read it has to be more than JSON: no more arrays
and objects may be open in it than there is room for, its numbers must not be too large, and
surrogates have to come in pairs.  But what is read is skipped as well, and up to the same place,
whatever follows.

* `Skip.skipNumeral_of_afterSign`, `Skip.skipScalar?_of_readScalar?`: what opens no frame;
* `Skip.Passes.goOn_of_walk`: the parts of a frame, one after the other;
* `skipValue_of_readValue`: values.
-/

namespace CellAlign.Json

open Numeral

namespace Skip

/-! ## Numerals -/

section Numerals

variable {negative : Bool} {significand : Nat} {exponent : Int} {text rest : List Char}
  {number : Number}

/-- What stands behind the digits of a number is left as it is. -/
theorem eq_of_finish (h : finish negative significand exponent text = .ok (number, rest)) :
    text = rest := by
  unfold finish at h
  split at h
  · cases h
    rfl
  · cases h

/-- So is what stands behind a whole number. -/
theorem eq_of_whole (h : whole negative significand text = .ok (number, rest)) : text = rest := by
  unfold whole at h
  split at h
  · exact eq_of_finish h
  split at h
  · cases h
    rfl
  · exact eq_of_finish h

/-- What has a value is a digit. -/
theorem isDigit_of_digit? {c : Char} {d : Nat} (h : digit? c = some d) : c.isDigit = true := by
  unfold digit? at h
  split at h
  · assumption
  · cases h

/-- A digit at the start of a text is skipped with the others. -/
theorem skipDigits_cons {c : Char} (h : c.isDigit = true) (text : List Char) :
    skipDigits (c :: text) = skipDigits text := by
  rw [skipDigits, List.dropWhile_cons_of_pos h]
  rfl

/-- Where no digit stands, none is skipped. -/
theorem skipDigits_of_digit?_eq_none {c : Char} (h : digit? c = none) (text : List Char) :
    skipDigits (c :: text) = c :: text := by
  have hc : ¬c.isDigit = true := by
    intro hc
    obtain ⟨d, hd⟩ := exists_digit? hc
    rw [h] at hd
    cases hd
  rw [skipDigits, List.dropWhile_cons_of_neg hc]

/-- The digits of an exponent are taken up to their end, or some of them are left. -/
theorem skipDigits_exponentDigits (n : Nat) (text : List Char) :
    skipDigits (exponentDigits n text).2 = skipDigits text ∧
      ∀ m, (exponentDigits n text).1 = some m → (exponentDigits n text).2 = skipDigits text := by
  fun_induction exponentDigits n text with
  | case1 n => exact ⟨rfl, fun _ _ => rfl⟩
  | case2 n c rest hd => exact ⟨rfl, fun _ _ => (skipDigits_of_digit?_eq_none hd rest).symm⟩
  | case3 n c rest d hd => exact ⟨(skipDigits_cons (isDigit_of_digit? hd) rest).symm, nofun⟩
  | case4 n c rest d hd _ ih =>
      rw [skipDigits_cons (isDigit_of_digit? hd)]
      exact ih

/-- Behind an exponent, too large or not, its digits are at their end. -/
theorem eq_of_withExponent {lower : Bool} {n : Nat}
    (h : withExponent negative significand exponent lower (exponentDigits n text) =
      .ok (number, rest)) : skipDigits text = rest := by
  obtain ⟨hleft, htaken⟩ := skipDigits_exponentDigits n text
  cases hdigits : exponentDigits n text with
  | mk found behind =>
      rw [hdigits] at h hleft htaken
      cases found with
      | some m => exact (htaken m rfl).symm.trans (eq_of_finish h)
      | none =>
          rw [withExponent] at h
          split at h
          · cases h
          · cases h
            exact hleft.symm

/-- An exponent is a digit and others, behind a sign if there is one. -/
theorem exists_of_afterLetter
    (h : afterLetter negative significand exponent text = .ok (number, rest)) :
    ∃ sign c more, text = sign ++ c :: more ∧ (sign = [] ∨ sign = ['+'] ∨ sign = ['-']) ∧
      c.isDigit = true ∧ skipDigits more = rest := by
  unfold afterLetter at h
  split at h
  next lower tail hsplit =>
  have hsign : ∃ sign, text = sign ++ tail ∧ (sign = [] ∨ sign = ['+'] ∨ sign = ['-']) := by
    split at hsplit
    · cases hsplit
      exact ⟨['+'], rfl, Or.inr (Or.inl rfl)⟩
    · cases hsplit
      exact ⟨['-'], rfl, Or.inr (Or.inr rfl)⟩
    · cases hsplit
      exact ⟨[], rfl, Or.inl rfl⟩
  obtain ⟨sign, rfl, hsign⟩ := hsign
  split at h
  · cases h
  · next c more =>
    split at h
    · cases h
    · next d hd => exact ⟨sign, c, more, rfl, hsign, isDigit_of_digit? hd, eq_of_withExponent h⟩

/-- An exponent that is read behind its letter is skipped. -/
theorem skipExponent_of_afterLetter
    (h : afterLetter negative significand exponent text = .ok (number, rest)) :
    skipExponent text = .ok rest := by
  obtain ⟨sign, c, more, rfl, hsign, hc, rfl⟩ := exists_of_afterLetter h
  have hplus : c ≠ '+' := ne_of_isDigit hc rfl
  have hminus : c ≠ '-' := ne_of_isDigit hc rfl
  rcases hsign with rfl | rfl | rfl <;> simp [skipExponent, hplus, hminus, hc]

/-- An exponent that is read is skipped, and so is none. -/
theorem skipExponentPart_of_exponentPart
    (h : exponentPart negative significand exponent text = .ok (number, rest)) :
    skipExponentPart text = .ok rest := by
  unfold exponentPart at h
  split at h
  · exact skipExponent_of_afterLetter h
  · exact skipExponent_of_afterLetter h
  · next hlower hupper =>
    rw [skipExponentPart]
    · exact congrArg Except.ok (eq_of_finish h)
    · exact hlower
    · exact hupper

/-- The digits of a fraction are taken up to their end. -/
theorem fractionDigits_eq (significand kept : Nat) (text : List Char) :
    (fractionDigits significand kept text).2.2 = skipDigits text := by
  fun_induction fractionDigits significand kept text with
  | case1 => rfl
  | case2 significand kept c rest hd => exact (skipDigits_of_digit?_eq_none hd rest).symm
  | case3 significand kept c rest d hd => exact (skipDigits_cons (isDigit_of_digit? hd) rest).symm
  | case4 significand kept c rest d hd _ ih =>
      rw [ih, skipDigits_cons (isDigit_of_digit? hd)]

/-- A fraction that is read is skipped, with the exponent behind it. -/
theorem skipFraction_of_afterPoint
    (h : afterPoint negative significand exponent text = .ok (number, rest)) :
    skipFraction ('.' :: text) = .ok rest := by
  unfold afterPoint at h
  split at h
  · cases h
  · next c more =>
    split at h
    · next hc =>
      have hdigits := fractionDigits_eq significand 0 (c :: more)
      rcases hcollect : fractionDigits significand 0 (c :: more) with ⟨collected, kept, behind⟩
      rw [hcollect] at h hdigits
      obtain rfl : behind = skipDigits more := hdigits.trans (skipDigits_cons hc more)
      have hpart := skipExponentPart_of_exponentPart h
      simp [skipFraction, hc, hpart]
    · cases h

/-- Where no point stands, only an exponent is skipped. -/
theorem skipFraction_eq_skipExponentPart (h : ∀ more, text ≠ '.' :: more) :
    skipFraction text = skipExponentPart text := by
  unfold skipFraction
  split
  · next more _ => exact absurd rfl (h _)
  · rfl

/-- What follows a whole part that no longer fits a word is skipped. -/
theorem skipFraction_of_afterLong
    (h : afterLong negative significand exponent text = .ok (number, rest)) :
    skipFraction (skipDigits text) = .ok rest := by
  fun_induction afterLong negative significand exponent text with
  | case1 exponent => exact congrArg Except.ok (eq_of_finish h)
  | case2 exponent c more hc ih =>
      rw [skipDigits_cons hc]
      exact ih h
  | case3 exponent more hc => exact skipFraction_of_afterPoint h
  | case4 exponent c more hc hpoint =>
      have hnone : skipDigits (c :: more) = c :: more := List.dropWhile_cons_of_neg hc
      rw [hnone, skipFraction_eq_skipExponentPart fun _ heq => hpoint (List.cons.inj heq).1]
      exact skipExponentPart_of_exponentPart h

/-- What follows a whole part is skipped. -/
theorem skipFraction_of_afterWhole (h : afterWhole negative significand text = .ok (number, rest)) :
    skipFraction text = .ok rest := by
  unfold afterWhole at h
  split at h
  · exact skipFraction_of_afterPoint h
  · exact skipExponent_of_afterLetter h
  · exact skipExponent_of_afterLetter h
  · next hpoint hlower hupper =>
    rw [skipFraction_eq_skipExponentPart hpoint, skipExponentPart]
    · exact congrArg Except.ok (eq_of_whole h)
    · exact hlower
    · exact hupper

/-- What follows the first digit of a whole part is skipped. -/
theorem skipFraction_of_wholeDigits
    (h : wholeDigits negative significand text = .ok (number, rest)) :
    skipFraction (skipDigits text) = .ok rest := by
  fun_induction wholeDigits negative significand text with
  | case1 significand => exact congrArg Except.ok (eq_of_whole h)
  | case2 significand c more hd =>
      rw [skipDigits_of_digit?_eq_none hd]
      exact skipFraction_of_afterWhole h
  | case3 significand c more d hd =>
      rw [skipDigits_cons (isDigit_of_digit? hd)]
      exact skipFraction_of_afterLong h
  | case4 significand c more d hd _ ih =>
      rw [skipDigits_cons (isDigit_of_digit? hd)]
      exact ih h

/-- A numeral that is read behind its sign is skipped, up to the same place. -/
theorem skipNumeral_of_afterSign (h : afterSign negative text = .ok (number, rest)) :
    skipNumeral text = .ok rest := by
  unfold afterSign at h
  split at h
  · cases h
  · next c more =>
    split at h
    · cases h
    · next hd =>
      obtain rfl : c = '0' := Decidable.not_not.mp fun hc => digit?_ne_zero hc hd rfl
      split at h
      · exact congrArg Except.ok (eq_of_whole h)
      · split at h
        · cases h
        · next hnone => 
          have hfraction := skipFraction_of_afterWhole h
          simp [skipNumeral, hnone, hfraction]
    · next d hzero hd =>
      have hc : c ≠ '0' := by
        rintro rfl
        exact hzero (Option.some.inj hd).symm
      have hfraction := skipFraction_of_wholeDigits h
      simp [skipNumeral, hc, isDigit_of_digit? hd, hfraction]

end Numerals

/-! ## What opens no frame -/

/-- A literal name that is read is skipped. -/
theorem readName_of_readLiteral {α : Type} {name text rest : List Char} {a b : α}
    (h : readLiteral name a text = .ok (b, rest)) : readName name text = .ok rest := by
  unfold readLiteral at h
  split at h
  · next hname =>
    cases h
    exact hname
  · cases h

/-- A string that is read is skipped. -/
theorem skipString_of_read {text rest : List Char} {string : String}
    (h : Text.read text = .ok (string, rest)) : skipString text = .ok rest := by
  obtain ⟨body, rfl, hbody⟩ := Text.read_eq_ok_iff.mp h
  exact skipString_eq_ok_iff.mpr ⟨body, rfl, hbody.isBody⟩

/-- A number, a string or a literal name that is read is skipped. -/
theorem skipScalar?_of_readScalar? {c : Char} {text rest : List Char} {value : Value}
    (h : readScalar? c text = some (.ok (value, rest))) :
    skipScalar? c text = some (.ok rest) := by
  have hliteral {name : List Char} {a : Value}
      (h : some (readLiteral name a text) = some (.ok (value, rest))) :
      some (readName name text) = some (.ok rest) :=
    congrArg some (readName_of_readLiteral (Option.some.inj h))
  have hnumber {negative : Bool} {numeral : List Char}
      (h : some (mapRead Value.number (afterSign negative numeral)) = some (.ok (value, rest))) :
      some (skipNumeral numeral) = some (.ok rest) := by
    obtain ⟨number, hread, -⟩ := mapRead_eq_ok_iff.mp (Option.some.inj h)
    exact congrArg some (skipNumeral_of_afterSign hread)
  unfold readScalar? at h
  unfold skipScalar?
  split_ifs at h ⊢
  · exact hliteral h
  · exact hliteral h
  · exact hliteral h
  · exact hnumber h
  · exact hnumber h
  · obtain ⟨string, hread, -⟩ := mapRead_eq_ok_iff.mp (Option.some.inj h)
    exact congrArg some (skipString_of_read hread)

/-- Something is skipped. -/
theorem length_le_of_skipScalar? {c : Char} {text rest : List Char}
    (h : skipScalar? c text = some (.ok rest)) : rest.length ≤ text.length := by
  obtain ⟨value, htext, depth, hvalue⟩ := exists_of_skipScalar? h
  obtain ⟨⟨before, d, tail, rfl, -⟩, -⟩ := settled_of_derives hvalue
  have hlength := congrArg List.length htext
  simp only [List.length_cons, List.length_append] at hlength
  omega

/-! ## Frames -/

section Frames

variable {α : Type} {frame : Frame} {part : List Char → Outcome α} {text rest : List Char}

/-- What is read as a part of a frame is skipped as one: it starts with something that does not
close the frame, and behind it skipping goes on after at most so many steps as there were
characters. -/
structure Passes (frame : Frame) (part : List Char → Outcome α) : Prop where
  starts {text rest : List Char} {a : α} (h : part text = .ok (a, rest)) :
    ∃ c more, skipGap text = c :: more ∧ c ≠ frame.closing
  enters {text rest : List Char} {a : α} (h : part text = .ok (a, rest)) (outer : List Frame) :
    ∃ steps, steps + rest.length < text.length ∧
      Enters frame outer text steps fun fuel => goOn true fuel (frame :: outer) rest

/-- What stands behind a gap and one more character is shorter. -/
theorem length_lt_of_skipGap {c : Char} (h : skipGap text = c :: rest) :
    rest.length < text.length := by
  obtain ⟨gap, rfl, -, -⟩ := skipGap_eq_cons_iff.mp h
  simp only [List.length_append, List.length_cons]
  omega

namespace Passes

variable {walk : Nat → List α → List Char → Outcome (List α)}
  {start : List α → List Char → Outcome (List α)} {state next : List α}

/-- Behind a part, skipping goes through the others and closes the frame. -/
theorem goOn_of_walk (h : Passes frame part) (hwalk : TakesParts frame.closing part walk)
    (hnone : ∀ state text result, walk 0 state text ≠ .ok result) {fuel : Nat}
    (hread : walk fuel state text = .ok (next, rest)) (outer : List Frame) :
    ∃ steps, steps + rest.length < text.length ∧
      ∀ fuel, goOn true (fuel + steps) (frame :: outer) text = goOn true fuel outer rest := by
  induction fuel generalizing state text with
  | zero => exact absurd hread (hnone _ _ _)
  | succ fuel ih =>
      rcases hwalk.mp hread with ⟨hclose, -⟩ | ⟨more, a, behind, hcomma, hpart, hothers⟩
      · refine ⟨0, by simpa using length_lt_of_skipGap hclose, fun fuel => ?_⟩
        rw [goOn, close_closing hclose, goOn, Nat.add_zero]
      · obtain ⟨steps, hsteps, henters⟩ := h.enters hpart outer
        obtain ⟨after, henter, hskip⟩ := henters.enter
        obtain ⟨steps', hsteps', hgoOn⟩ := ih hothers
        have hshorter := length_lt_of_skipGap hcomma
        refine ⟨steps' + steps + 1, by omega, fun fuel => ?_⟩
        have hfuel : fuel + (steps' + steps + 1) = (fuel + steps') + steps + 1 := by omega
        rw [goOn, close_comma hcomma, henter, hfuel]
        exact (hskip _).trans (hgoOn fuel)

/-- Behind its opening character, a frame is skipped. -/
theorem goOn_of_start (h : Passes frame part) (hwalk : TakesParts frame.closing part walk)
    (hnone : ∀ state text result, walk 0 state text ≠ .ok result)
    (hstart : StartsRow frame.closing part walk start)
    (hread : start state text = .ok (next, rest)) (outer : List Frame) :
    ∃ steps, steps + rest.length < text.length ∧
      ∀ fuel, goOn false (fuel + steps) (frame :: outer) text = goOn true fuel outer rest := by
  rcases hstart.mp hread with ⟨hclose, -⟩ | ⟨a, behind, hpart, hothers⟩
  · refine ⟨0, by simpa using length_lt_of_skipGap hclose, fun fuel => ?_⟩
    rw [goOn, close_closing hclose, goOn, Nat.add_zero]
  · obtain ⟨c, more, hgap, hc⟩ := h.starts hpart
    obtain ⟨steps, hsteps, henters⟩ := h.enters hpart outer
    obtain ⟨after, henter, hskip⟩ := (hgap ▸ henters.skipGap).enter
    obtain ⟨steps', hsteps', hgoOn⟩ := h.goOn_of_walk hwalk hnone hothers outer
    refine ⟨steps' + steps + 1, by omega, fun fuel => ?_⟩
    have hfuel : fuel + (steps' + steps + 1) = (fuel + steps') + steps + 1 := by omega
    rw [goOn, close_part hgap hc, henter, hfuel]
    exact (hskip _).trans (hgoOn fuel)

end Passes

end Frames

/-! ## Values -/

/-- Skipping goes through a value that is read, and on behind it. -/
def PassesValues (read : List Char → Outcome Value) : Prop :=
  ∀ {text rest value}, read text = .ok (value, rest) → ∀ frames, ∃ steps,
    steps + rest.length < text.length ∧
      ∀ fuel, skipValues (fuel + steps + 1) frames text = goOn true fuel frames rest

/-- Values are parts of a list. -/
theorem PassesValues.list {depth : Nat} (h : PassesValues (readValue depth)) :
    Passes .list (readValue depth) where
  starts hread := by
    obtain ⟨c, more, hgap, hc, -⟩ := readValue_eq_ok_iff_skipGap.mp hread
    exact ⟨c, more, hgap, hc⟩
  enters hread outer := by
    obtain ⟨steps, hsteps, hskip⟩ := h hread (.list :: outer)
    exact ⟨steps, hsteps, _, rfl, hskip⟩

/-- Keys with values are parts of an object. -/
theorem PassesValues.object {depth : Nat} (h : PassesValues (readValue depth)) :
    Passes .object (readEntry depth) where
  starts hread := by
    obtain ⟨tail, _, _, hgap, -⟩ := readEntry_eq_ok_iff.mp hread
    exact ⟨'"', tail, hgap, by decide⟩
  enters := by
    intro text rest entry hread outer
    obtain ⟨tail, behind, more, hgap, hkey, hcolon, hvalue⟩ := readEntry_eq_ok_iff.mp hread
    obtain ⟨steps, hsteps, hskip⟩ := h hvalue (.object :: outer)
    have hskipped : skipKey text = .ok more := by
      rw [skipKey, hgap]
      simp [skipString_of_read hkey, hcolon]
    have henter : enter .object outer text = .ok (.object :: outer, more) := by
      rw [enter, hskipped]
    refine ⟨steps, ?_, more, henter, hskip⟩
    have hlength := length_lt_of_skipGap hgap
    obtain ⟨body, rfl, -⟩ := Text.read_eq_ok_iff.mp hkey
    obtain ⟨gap, rfl, -⟩ := readColon_eq_ok_iff.mp hcolon
    simp only [List.length_append, List.length_cons] at hlength
    omega

/-- Skipping goes through any value that is read. -/
theorem passesValues_readValue (depth : Nat) : PassesValues (readValue depth) := by
  have hscalar {c : Char} {text tail rest : List Char} {value : Value}
      (hgap : skipGap text = c :: tail) (h : readScalar? c tail = some (.ok (value, rest)))
      (frames : List Frame) : ∃ steps, steps + rest.length < text.length ∧
        ∀ fuel, skipValues (fuel + steps + 1) frames text = goOn true fuel frames rest := by
    have hskip := skipScalar?_of_readScalar? h
    have hlength := length_lt_of_skipGap hgap
    have hle := length_le_of_skipScalar? hskip
    exact ⟨0, by omega, fun fuel => skipValues_scalar hgap hskip⟩
  -- A frame is opened in one step more than is taken inside of it.
  have hopen {frame : Frame} {text tail rest : List Char} {frames : List Frame}
      (hgap : skipGap text = frame.opening :: tail)
      (h : ∃ steps, steps + rest.length < tail.length ∧
        ∀ fuel, goOn false (fuel + steps) (frame :: frames) tail = goOn true fuel frames rest) :
      ∃ steps, steps + rest.length < text.length ∧
        ∀ fuel, skipValues (fuel + steps + 1) frames text = goOn true fuel frames rest := by
    obtain ⟨steps, hsteps, hgoOn⟩ := h
    have hlength := length_lt_of_skipGap hgap
    refine ⟨steps, by omega, fun fuel => ?_⟩
    rw [skipValues_opening hgap, hgoOn]
  induction depth using Nat.strongRecOn with
  | ind depth ih =>
      intro text rest value h frames
      obtain ⟨c, tail, hgap, h | ⟨inner, items, rfl, rfl, hwalk, -⟩ |
        ⟨inner, members, rfl, rfl, hwalk, -⟩⟩ := readValue_eq_ok_iff.mp h
      · exact hscalar hgap h frames
      · have hinner : PassesValues (readValue inner) := @ih inner (Nat.lt_succ_self inner)
        exact @hopen .list _ _ _ _ hgap <| hinner.list.goOn_of_start
          (takesParts_readElement inner) nofun (startsRow_readElement inner) hwalk frames
      · have hinner : PassesValues (readValue inner) := @ih inner (Nat.lt_succ_self inner)
        exact @hopen .object _ _ _ _ hgap <| hinner.object.goOn_of_start
          (takesParts_readField inner) nofun (startsRow_readField inner) hwalk frames

end Skip

/-- A value that is read is skipped, up to the same place. -/
theorem skipValue_of_readValue {depth : Nat} {text rest : List Char} {value : Value}
    (h : readValue depth text = .ok (value, rest)) : skipValue text = .ok rest := by
  obtain ⟨steps, hsteps, hskip⟩ := Skip.passesValues_readValue depth h []
  obtain ⟨fuel, hfuel⟩ : ∃ fuel, text.length.succ = fuel + steps + 1 :=
    ⟨text.length - steps, by omega⟩
  rw [skipValue, hfuel, hskip, Skip.goOn]
  rfl

end CellAlign.Json
