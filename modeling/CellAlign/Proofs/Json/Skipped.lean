import CellAlign.Proofs.Json.Skipping

/-!
# What can be skipped

Whatever the grammar derives is skipped, up to its end, as long as nothing follows that a numeral
could go on with.  The induction is on the derivation; what it carries says how many values are
skipped before skipping goes on behind the text, with the same frames open.

* `Skip.skipNumeral_append`: numerals;
* `Skip.Enters`, `Skip.Skipped`: skipping goes on behind a text;
* `skipValue_append`: a value behind a gap is skipped.
-/

namespace CellAlign.Json

open Numeral (EndsNumeral NoDigit skipDigits skipDigits_append noDigit_exponent noDigit_fraction
  ne_point_of_exponent)

namespace Skip

variable {text rest : List Char}

/-! ## Numerals -/

/-- An exponent is skipped. -/
theorem skipExponentPart_append {exponent : List Char} (h : IsExponent exponent)
    (hrest : EndsNumeral rest) : skipExponentPart (exponent ++ rest) = .ok rest := by
  cases h with
  | none =>
      rw [List.nil_append]
      unfold skipExponentPart
      split
      · exact absurd rfl (hrest 'e' rfl).2.2.1
      · exact absurd rfl (hrest 'E' rfl).2.2.2
      · rfl
  | @digits letter c sign more hletter hsign hc hmore =>
      have hdigits : skipExponent (sign ++ c :: (more ++ rest)) = .ok rest := by
        have hskip := skipDigits_append hmore hrest.noDigit
        have hplus : c ≠ '+' := by
          rintro rfl
          cases hc
        have hminus : c ≠ '-' := by
          rintro rfl
          cases hc
        rcases hsign with rfl | rfl | rfl
        · simp [skipExponent, hplus, hminus, hc, hskip]
        · simp [skipExponent, hc, hskip]
        · simp [skipExponent, hc, hskip]
      rcases hletter with rfl | rfl
      · simpa [skipExponentPart] using hdigits
      · simpa [skipExponentPart] using hdigits

/-- A fraction and an exponent are skipped. -/
theorem skipFraction_append {fraction exponent : List Char} (hfraction : IsFraction fraction)
    (hexponent : IsExponent exponent) (hrest : EndsNumeral rest) :
    skipFraction (fraction ++ (exponent ++ rest)) = .ok rest := by
  have hpart := skipExponentPart_append hexponent hrest
  cases hfraction with
  | none =>
      have hpoint := ne_point_of_exponent hexponent hrest
      rw [List.nil_append]
      unfold skipFraction
      split
      · next more heq => exact absurd rfl (hpoint '.' (by rw [heq]; rfl))
      · exact hpart
  | digits hc hmore =>
      have hskip := skipDigits_append hmore (noDigit_exponent hexponent hrest)
      simp [skipFraction, hc, hskip, hpart]

/-- A numeral is skipped. -/
theorem skipNumeral_append {numeral : List Char} (h : IsUnsigned numeral)
    (hrest : EndsNumeral rest) : skipNumeral (numeral ++ rest) = .ok rest := by
  obtain ⟨hwhole, hfraction, hexponent⟩ := h
  have hpart := skipFraction_append hfraction hexponent hrest
  have hends := noDigit_fraction hfraction hexponent hrest
  cases hwhole with
  | zero =>
      rw [List.append_assoc, List.append_assoc, List.singleton_append]
      rw [List.append_assoc] at hends
      unfold skipNumeral
      simp only [if_true]
      split
      · next heq =>
        rw [heq] at hpart
        exact hpart
      · next d more heq =>
        rw [heq] at hends
        rw [if_neg (by rw [hends d rfl]; decide)]
        exact hpart
  | @digits c more hc hzero hmore =>
      have hskip := skipDigits_append hmore hends
      rw [List.append_assoc] at hskip
      simp [skipNumeral, hzero, hc, hskip, hpart]

/-! ## Frames and what is in them -/

variable {frame : Frame} {frames outer : List Frame}

/-- A frame is closed by its character. -/
theorem close_closing {behind : Bool} {more : List Char}
    (hgap : skipGap text = frame.closing :: more) :
    close (frame :: outer) behind text = close outer true more := by
  rw [close.eq_def]
  simp only [hgap]
  cases frame <;> simp [Frame.closing]

/-- Behind a comma a frame is entered for another part. -/
theorem close_comma {more : List Char} (hgap : skipGap text = ',' :: more) :
    close (frame :: outer) true text = enter frame outer more := by
  rw [close.eq_def]
  simp [hgap]

/-- Behind its opening character a frame is entered for a first part. -/
theorem close_part {c : Char} {more : List Char} (hgap : skipGap text = c :: more)
    (hc : c ≠ frame.closing) :
    close (frame :: outer) false text = enter frame outer (c :: more) := by
  rw [close.eq_def]
  simp only [hgap]
  cases frame <;> simp_all [Frame.closing]

/-- A gap in front of a value is left out. -/
theorem skipValues_skipGap {fuel : Nat} :
    skipValues (fuel + 1) frames (skipGap text) = skipValues (fuel + 1) frames text := by
  rw [skipValues, skipValues, skipGap_skipGap]

/-- Skipping goes in steps from the place at which a frame is entered to one behind a text. -/
structure Enters (frame : Frame) (outer : List Frame) (text : List Char) (steps : Nat)
    (next : Nat → Except Stop (List Char)) : Prop where
  enter : ∃ after, enter frame outer text = .ok (frame :: outer, after) ∧
    ∀ fuel, skipValues (fuel + steps + 1) (frame :: outer) after = next fuel

/-- A gap in front of the part for which a frame is entered is left out. -/
theorem Enters.skipGap {steps : Nat} {next : Nat → Except Stop (List Char)}
    (h : Enters frame outer text steps next) : Enters frame outer (skipGap text) steps next := by
  obtain ⟨after, henter, hnext⟩ := h.enter
  cases frame with
  | list =>
      cases henter
      refine ⟨Json.skipGap text, rfl, fun fuel => ?_⟩
      rw [skipValues_skipGap, hnext]
  | object =>
      refine ⟨after, ?_, hnext⟩
      rw [← henter]
      simp only [Skip.enter, skipKey, skipGap_skipGap]

/-- What the grammar derives is skipped, and then skipping goes on behind it. -/
def Skipped : Symbol → List Char → Prop
  | .value, text => ∀ frames rest, EndsNumeral rest → ∃ steps < text.length, ∀ fuel,
      skipValues (fuel + steps + 1) frames (text ++ rest) = goOn true fuel frames rest
  | .element, text => ∀ frame outer rest, EndsNumeral rest → ∃ steps < text.length, ∀ fuel,
      skipValues (fuel + steps + 1) (frame :: outer) (text ++ rest) =
        goOn true fuel (frame :: outer) rest
  | .elements, text => ∀ outer rest, ∃ steps < text.length,
      Enters .list outer (text ++ ']' :: rest) steps fun fuel => goOn true fuel outer rest
  | .member, text => ∀ outer rest, EndsNumeral rest → ∃ steps < text.length,
      Enters .object outer (text ++ rest) steps fun fuel => goOn true fuel (.object :: outer) rest
  | .members, text => ∀ outer rest, ∃ steps < text.length,
      Enters .object outer (text ++ '\x7d' :: rest) steps fun fuel => goOn true fuel outer rest

/-- A gap before what closes a frame is left out. -/
theorem goOn_append {gap : List Char} (h : IsGap gap) (fuel : Nat) :
    goOn true fuel (frame :: outer) (gap ++ rest) = goOn true fuel (frame :: outer) rest := by
  have hclose : close (frame :: outer) true (gap ++ rest) = close (frame :: outer) true rest := by
    rw [close.eq_def, close.eq_def]
    simp only [skipGap_append h]
  rw [goOn, hclose, goOn]

/-- An opening character is no gap. -/
theorem isGap_opening (frame : Frame) : isGap frame.opening = false := by
  cases frame <;> rfl

/-- A closing character is no gap. -/
theorem isGap_closing (frame : Frame) : isGap frame.closing = false := by
  cases frame <;> rfl

/-- A frame is closed behind its last part. -/
theorem Enters.last {steps : Nat}
    (h : Enters frame outer text steps fun fuel =>
      goOn true fuel (frame :: outer) (frame.closing :: rest)) :
    Enters frame outer text steps fun fuel => goOn true fuel outer rest := by
  obtain ⟨after, henter, hnext⟩ := h.enter
  refine ⟨after, henter, fun fuel => ?_⟩
  rw [hnext, goOn, close_closing (skipGap_cons (isGap_closing frame) rest), goOn]

/-- Behind a part and a comma a frame is entered for the next part. -/
theorem Enters.more {steps steps' : Nat} {next : Nat → Except Stop (List Char)}
    (h : Enters frame outer text steps fun fuel => goOn true fuel (frame :: outer) (',' :: rest))
    (hrest : Enters frame outer rest steps' next) :
    Enters frame outer text (steps + steps' + 1) next := by
  obtain ⟨after, henter, hnext⟩ := h.enter
  obtain ⟨behind, hbehind, hlast⟩ := hrest.enter
  refine ⟨after, henter, fun fuel => ?_⟩
  have hfuel : fuel + (steps + steps' + 1) + 1 = (fuel + steps' + 1) + steps + 1 := by omega
  rw [hfuel, hnext, goOn, close_comma (skipGap_cons rfl rest), hbehind]
  exact hlast fuel

/-- A frame that is entered for its parts is skipped. -/
theorem skipValues_frame {steps : Nat} (hstarts : StartsPart text)
    (h : Enters frame outer (text ++ frame.closing :: rest) steps fun fuel =>
      goOn true fuel outer rest)
    (fuel : Nat) :
    skipValues (fuel + (steps + 1) + 1) outer
        (frame.opening :: (text ++ [frame.closing]) ++ rest) = goOn true fuel outer rest := by
  obtain ⟨c, tail, hgap, hlist, hobject⟩ := hstarts.append (frame.closing :: rest)
  have hclosing : c ≠ frame.closing := by
    cases frame
    · exact hlist
    · exact hobject
  have henters := h.skipGap
  rw [hgap] at henters
  obtain ⟨after, henter, hnext⟩ := henters.enter
  have htext : frame.opening :: (text ++ [frame.closing]) ++ rest =
      frame.opening :: (text ++ frame.closing :: rest) := by simp
  rw [htext, skipValues_opening (skipGap_cons (isGap_opening frame) _), goOn,
    close_part hgap hclosing, henter]
  exact hnext fuel

/-- A frame without parts is skipped. -/
theorem skipValues_empty {gap : List Char} (h : IsGap gap) (fuel : Nat) :
    skipValues (fuel + 1) outer (frame.opening :: (gap ++ [frame.closing]) ++ rest) =
      goOn true fuel outer rest := by
  have htext : frame.opening :: (gap ++ [frame.closing]) ++ rest =
      frame.opening :: (gap ++ frame.closing :: rest) := by simp
  have hgap : skipGap (gap ++ frame.closing :: rest) = frame.closing :: rest := by
    rw [skipGap_append h, skipGap_cons (isGap_closing frame)]
  rw [htext, skipValues_opening (skipGap_cons (isGap_opening frame) _), goOn,
    close_closing hgap, goOn]

/-- A key and its colon are skipped. -/
theorem skipKey_append {before key between : List Char} (hbefore : IsGap before)
    (hkey : IsBody key) (hbetween : IsGap between) :
    skipKey (before ++ '"' :: (key ++ '"' :: (between ++ ':' :: rest))) = .ok rest := by
  have hstring : skipString (key ++ '"' :: (between ++ ':' :: rest)) =
      .ok (between ++ ':' :: rest) := skipString_eq_ok_iff.mpr ⟨key, rfl, hkey⟩
  rw [skipKey, skipGap_append hbefore, skipGap_cons rfl]
  simp [hstring, readColon, skipGap_append hbetween, skipGap_cons (show isGap ':' = false from rfl)]

/-- A number, a string or a literal name is skipped, and then skipping goes on behind it. -/
theorem skipped_scalar {c : Char} {tail : List Char} (hgap : isGap c = false)
    (h : ∀ rest, EndsNumeral rest → skipScalar? c (tail ++ rest) = some (.ok rest)) :
    Skipped .value (c :: tail) := by
  intro frames rest hrest
  refine ⟨0, Nat.succ_pos _, fun fuel => ?_⟩
  exact skipValues_scalar (skipGap_cons hgap _) (h rest hrest)

/-- A numeral without its sign is skipped. -/
theorem skipScalar?_unsigned {c : Char} {tail : List Char} (h : IsUnsigned (c :: tail))
    (hrest : EndsNumeral rest) : skipScalar? c (tail ++ rest) = some (.ok rest) := by
  have hskip := skipNumeral_append h hrest
  obtain ⟨_, _, heq, hc⟩ := exists_digit_of_isUnsigned h
  obtain ⟨rfl, rfl⟩ := List.cons.inj heq
  rw [skipScalar?, if_neg (ne_of_isDigit hc rfl), if_neg (ne_of_isDigit hc rfl),
    if_neg (ne_of_isDigit hc rfl), if_neg (ne_of_isDigit hc rfl), if_pos hc, ← List.cons_append,
    hskip]

/-- What the grammar derives is skipped. -/
theorem skipped_of_derives {symbol : Symbol} {depth : Nat} (h : Derives symbol depth text) :
    Skipped symbol text := by
  induction h with
  | null => exact skipped_scalar rfl fun rest _ => congrArg some (readName_append _ rest)
  | true => exact skipped_scalar rfl fun rest _ => congrArg some (readName_append _ rest)
  | false => exact skipped_scalar rfl fun rest _ => congrArg some (readName_append _ rest)
  | numeral h =>
      cases h with
      | unsigned h =>
          obtain ⟨c, tail, rfl, hc⟩ := exists_digit_of_isUnsigned h
          have hne {d : Char} (hd : d.isDigit = false) : c ≠ d := ne_of_isDigit hc hd
          have hgap : isGap c = false := by
            simp [isGap, @hne ' ' rfl, @hne '\n' rfl, @hne '\t' rfl, @hne '\r' rfl]
          exact skipped_scalar hgap fun rest hrest => skipScalar?_unsigned h hrest
      | negative h =>
          exact skipped_scalar rfl fun rest hrest => congrArg some (skipNumeral_append h hrest)
  | @string _ body h =>
      refine skipped_scalar rfl fun rest _ => congrArg some ?_
      exact skipString_eq_ok_iff.mpr ⟨body, by simp, h⟩
  | emptyArray hgap =>
      exact fun frames rest _ => ⟨0, Nat.succ_pos _, @skipValues_empty _ .list _ _ hgap⟩
  | emptyObject hgap =>
      exact fun frames rest _ => ⟨0, Nat.succ_pos _, @skipValues_empty _ .object _ _ hgap⟩
  | @array _ text h ih =>
      intro frames rest _
      obtain ⟨steps, hsteps, henters⟩ := ih frames rest
      obtain ⟨_, hfound⟩ := settled_of_derives h
      refine ⟨steps + 1, by simp; omega, ?_⟩
      exact @skipValues_frame _ _ .list _ _ (hfound _ (Nat.le_refl _)).starts henters
  | @object _ text h ih =>
      intro frames rest _
      obtain ⟨steps, hsteps, henters⟩ := ih frames rest
      obtain ⟨_, hfound⟩ := settled_of_derives h
      refine ⟨steps + 1, by simp; omega, ?_⟩
      exact @skipValues_frame _ _ .object _ _ (hfound _ (Nat.le_refl _)).starts henters
  | @element _ before text after hbefore _ hafter ih =>
      intro frame outer rest hrest
      obtain ⟨steps, hsteps, hskip⟩ := ih (frame :: outer) (after ++ rest)
        (endsNumeral_append hafter hrest)
      refine ⟨steps, by simp; omega, fun fuel => ?_⟩
      rw [List.append_assoc, List.append_assoc, ← skipValues_skipGap, skipGap_append hbefore,
        skipValues_skipGap, hskip, goOn_append hafter]
  | lastElement _ ih =>
      intro outer rest
      obtain ⟨steps, hsteps, hskip⟩ := ih .list outer (']' :: rest)
        (endsNumeral_cons (by decide) _)
      exact ⟨steps, hsteps, .last ⟨_, rfl, hskip⟩⟩
  | @moreElements _ text others _ _ ih ihrest =>
      intro outer rest
      obtain ⟨steps, hsteps, hskip⟩ := ih .list outer (',' :: (others ++ ']' :: rest))
        (endsNumeral_cons (by decide) _)
      obtain ⟨steps', hsteps', henters⟩ := ihrest outer rest
      refine ⟨steps + steps' + 1, by simp; omega, ?_⟩
      rw [List.append_assoc, List.cons_append]
      exact .more ⟨_, rfl, hskip⟩ henters
  | @member _ before key between text hbefore hkey hbetween _ ih =>
      intro outer rest hrest
      obtain ⟨steps, hsteps, hskip⟩ := ih .object outer rest hrest
      refine ⟨steps, by simp; omega, text ++ rest, ?_, hskip⟩
      simp [Skip.enter, skipKey_append hbefore hkey hbetween]
  | lastMember _ ih =>
      intro outer rest
      obtain ⟨steps, hsteps, henters⟩ := ih outer ('\x7d' :: rest)
        (endsNumeral_cons (by decide) _)
      exact ⟨steps, hsteps, .last henters⟩
  | @moreMembers _ text others _ _ ih ihrest =>
      intro outer rest
      obtain ⟨steps, hsteps, henters⟩ := ih outer (',' :: (others ++ '\x7d' :: rest))
        (endsNumeral_cons (by decide) _)
      obtain ⟨steps', hsteps', hothers⟩ := ihrest outer rest
      refine ⟨steps + steps' + 1, by simp; omega, ?_⟩
      rw [List.append_assoc, List.cons_append]
      exact .more henters hothers

end Skip

/-- A value behind a gap is skipped. -/
theorem skipValue_append {gap value rest : List Char} (hgap : IsGap gap)
    (h : Skip.Derivable .value value) (hrest : EndsNumeral rest) :
    skipValue (gap ++ (value ++ rest)) = .ok rest := by
  obtain ⟨depth, h⟩ := h
  obtain ⟨steps, hsteps, hskip⟩ := Skip.skipped_of_derives h [] rest hrest
  have hfuel : ∃ fuel, (gap ++ (value ++ rest)).length.succ = fuel + steps + 1 :=
    ⟨(gap ++ (value ++ rest)).length - steps, by simp; omega⟩
  obtain ⟨fuel, hfuel⟩ := hfuel
  rw [skipValue, hfuel, ← Skip.skipValues_skipGap, skipGap_append hgap, Skip.skipValues_skipGap,
    hskip, Skip.goOn]
  rfl

end CellAlign.Json
