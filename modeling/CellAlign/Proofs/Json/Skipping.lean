import CellAlign.Json.Skip
import CellAlign.Proofs.Json.Gaps
import CellAlign.Proofs.Json.Writings

/-!
# What is skipped

Skipping a value checks the grammar and nothing else.  So what is skipped is what the grammar
derives, however deeply it nests and whatever its numbers and strings stand for.

The frames that are open stand on a list, and what closes them is a text of its own: the values or
members still to come in each of them and its closing bracket.  Skipping is then a value behind a
gap, and behind that what closes the frames.

* `Skip.skipString_eq_ok_iff`, `Skip.exists_of_skipNumeral`: strings and numerals;
* `Skip.Closes`: what closes the frames that are open;
* `exists_of_skipValue`: what is skipped is derived.
-/

namespace CellAlign.Json

open Numeral (skipDigits)

namespace Skip

variable {text rest : List Char}

/-! ## Strings and numerals -/

/-- A string is skipped up to its closing quote. -/
theorem skipString_eq_ok_iff :
    skipString text = .ok rest ↔ ∃ body, text = body ++ '"' :: rest ∧ IsBody body := by
  constructor
  · intro h
    fun_induction skipString text with
    | case2 tail =>
        cases h
        exact ⟨[], rfl, .nil⟩
    | case5 h₁ h₂ h₃ h₄ more n hn _ ih =>
        obtain ⟨body, rfl, hbody⟩ := ih h
        exact ⟨_, rfl, .hex hn hbody⟩
    | case7 e more he c hc _ ih =>
        obtain ⟨body, rfl, hbody⟩ := ih h
        exact ⟨_, rfl, .letter hc hbody⟩
    | case10 c more hquote hslash hplain ih =>
        obtain ⟨body, rfl, hbody⟩ := ih h
        exact ⟨_, rfl, .plain hquote hslash (by omega) hbody⟩
    | _ =>
        first
          | exact absurd h (Text.badHex_ne_ok _ _)
          | cases h
  · rintro ⟨body, rfl, h⟩
    induction h with
    | nil =>
        rw [skipString.eq_def]
        rfl
    | @plain c _ hquote hslash hplain _ ih =>
        have hcontrol : ¬c.toNat < 0x20 := by omega
        rw [List.cons_append, skipString.eq_def]
        simp [hquote, hslash, hcontrol, ih]
    | @letter e c _ he _ ih =>
        have hu : e ≠ 'u' := by
          rintro rfl
          cases he
        rw [List.cons_append, List.cons_append, skipString.eq_def]
        simp [hu, he, ih]
    | hex h _ ih =>
        simp only [List.cons_append]
        rw [skipString.eq_def]
        simp [h, ih]

/-- Digits are skipped. -/
theorem exists_of_skipDigits (text : List Char) :
    ∃ digits, text = digits ++ skipDigits text ∧ IsDigits digits := by
  refine ⟨text.takeWhile Char.isDigit, (List.takeWhile_append_dropWhile ..).symm, fun c hc => ?_⟩
  exact List.all_eq_true.mp List.all_takeWhile c hc

/-- Skips digits, of which there is at least one. -/
def skipSomeDigits (text : List Char) : Except Stop (List Char) :=
  match text with
  | [] => stopHere .invalidNumber []
  | c :: rest => if c.isDigit then .ok (skipDigits rest) else stopAtNext .invalidNumber text

/-- Behind the letter of an exponent its digits are skipped, with or without a sign. -/
theorem exists_skipSomeDigits_eq (text : List Char) :
    ∃ sign tail, text = sign ++ tail ∧ (sign = [] ∨ sign = ['+'] ∨ sign = ['-']) ∧
      skipExponent text = skipSomeDigits tail := by
  unfold skipExponent
  split
  · exact ⟨['+'], _, rfl, by simp, rfl⟩
  · exact ⟨['-'], _, rfl, by simp, rfl⟩
  · exact ⟨[], text, rfl, by simp, rfl⟩

/-- What is skipped as an exponent is one. -/
theorem exists_of_skipExponentPart (h : skipExponentPart text = .ok rest) :
    ∃ exponent, text = exponent ++ rest ∧ IsExponent exponent := by
  have hletter {letter : Char} {more : List Char} (hletter : letter = 'e' ∨ letter = 'E')
      (h : skipExponent more = .ok rest) :
      ∃ exponent, letter :: more = exponent ++ rest ∧ IsExponent exponent := by
    obtain ⟨sign, tail, rfl, hsign, hskip⟩ := exists_skipSomeDigits_eq more
    rw [hskip] at h
    unfold skipSomeDigits at h
    split at h
    · cases h
    · next c tail =>
      split at h
      · next hc =>
        cases h
        obtain ⟨digits, htail, hmore⟩ := exists_of_skipDigits tail
        refine ⟨letter :: (sign ++ c :: digits), ?_, .digits hletter hsign hc hmore⟩
        simp [← htail]
      · cases h
  unfold skipExponentPart at h
  split at h
  · exact hletter (Or.inl rfl) h
  · exact hletter (Or.inr rfl) h
  · cases h
    exact ⟨[], rfl, .none⟩

/-- What is skipped behind a whole part are a fraction and an exponent. -/
theorem exists_of_skipFraction (h : skipFraction text = .ok rest) :
    ∃ fraction exponent, text = fraction ++ (exponent ++ rest) ∧ IsFraction fraction ∧
      IsExponent exponent := by
  unfold skipFraction at h
  split at h
  · split at h
    · cases h
    · next c more =>
      split at h
      · next hc =>
        obtain ⟨digits, htail, hmore⟩ := exists_of_skipDigits more
        obtain ⟨exponent, hrest, hexponent⟩ := exists_of_skipExponentPart h
        refine ⟨'.' :: c :: digits, exponent, ?_, .digits hc hmore, hexponent⟩
        rw [List.cons_append, List.cons_append, ← hrest, ← htail]
      · cases h
  · obtain ⟨exponent, hrest, hexponent⟩ := exists_of_skipExponentPart h
    exact ⟨[], exponent, hrest, .none, hexponent⟩

/-- What is skipped as a numeral is one. -/
theorem exists_of_skipNumeral (h : skipNumeral text = .ok rest) :
    ∃ numeral, text = numeral ++ rest ∧ IsUnsigned numeral := by
  have hafter {whole more : List Char} (hwhole : IsWhole whole) (h : skipFraction more = .ok rest) :
      ∃ numeral, whole ++ more = numeral ++ rest ∧ IsUnsigned numeral := by
    obtain ⟨fraction, exponent, rfl, hfraction, hexponent⟩ := exists_of_skipFraction h
    exact ⟨_, by simp, .parts hwhole hfraction hexponent⟩
  unfold skipNumeral at h
  split at h
  · cases h
  · next c more =>
    split at h
    · next hzero =>
      subst hzero
      split at h
      · cases h
        exact ⟨['0'], rfl, .parts .zero .none .none⟩
      · split at h
        · cases h
        · exact hafter .zero h
    · next hzero =>
      split at h
      · next hc =>
        obtain ⟨digits, htail, hmore⟩ := exists_of_skipDigits more
        have hwhole : IsWhole (c :: digits) := .digits hc hzero hmore
        obtain ⟨numeral, htext, hnumeral⟩ := hafter hwhole h
        refine ⟨numeral, ?_, hnumeral⟩
        rw [← htext, List.cons_append, ← htail]
      · cases h

/-! ## Derived texts -/

/-- The grammar derives a text from a symbol, with whatever nests in it. -/
def Derivable (symbol : Symbol) (text : List Char) : Prop := ∃ depth, Derives symbol depth text

/-- There may be room for more than what nests in a text. -/
theorem derives_of_le {symbol : Symbol} {depth depth' : Nat} (h : Derives symbol depth text)
    (hle : depth ≤ depth') : Derives symbol depth' text := by
  have hinner {depth depth' : Nat} (hle : depth + 1 ≤ depth') :
      ∃ inner, depth' = inner + 1 ∧ depth ≤ inner := ⟨depth' - 1, by omega, by omega⟩
  induction h generalizing depth' with
  | null => exact .null
  | true => exact .true
  | false => exact .false
  | numeral h => exact .numeral h
  | string h => exact .string h
  | emptyArray hgap =>
      obtain ⟨inner, rfl, -⟩ := hinner hle
      exact .emptyArray hgap
  | array _ ih =>
      obtain ⟨inner, rfl, hroom⟩ := hinner hle
      exact .array (ih hroom)
  | emptyObject hgap =>
      obtain ⟨inner, rfl, -⟩ := hinner hle
      exact .emptyObject hgap
  | object _ ih =>
      obtain ⟨inner, rfl, hroom⟩ := hinner hle
      exact .object (ih hroom)
  | element hbefore _ hafter ih => exact .element hbefore (ih hle) hafter
  | lastElement _ ih => exact .lastElement (ih hle)
  | moreElements _ _ ih ihrest => exact .moreElements (ih hle) (ihrest hle)
  | member hbefore hkey hbetween _ ih => exact .member hbefore hkey hbetween (ih hle)
  | lastMember _ ih => exact .lastMember (ih hle)
  | moreMembers _ _ ih ihrest => exact .moreMembers (ih hle) (ihrest hle)

namespace Derivable

/-- A value may have gaps around it. -/
theorem element {before after : List Char} (hbefore : IsGap before) (h : Derivable .value text)
    (hafter : IsGap after) : Derivable .element (before ++ (text ++ after)) := by
  obtain ⟨depth, h⟩ := h
  exact ⟨depth, .element hbefore h hafter⟩

/-- A gap in front of an element belongs to it. -/
theorem gap_append {gap : List Char} (hgap : IsGap gap) (h : Derivable .element text) :
    Derivable .element (gap ++ text) := by
  obtain ⟨depth, h⟩ := h
  cases h with
  | @element _ before text after hbefore h hafter =>
      rw [← List.append_assoc]
      exact ⟨depth, .element (isGap_append hgap hbefore) h hafter⟩

/-- So does a gap behind it. -/
theorem append_gap {gap : List Char} (h : Derivable .element text) (hgap : IsGap gap) :
    Derivable .element (text ++ gap) := by
  obtain ⟨depth, h⟩ := h
  cases h with
  | @element _ before text after hbefore h hafter =>
      rw [List.append_assoc, List.append_assoc]
      exact ⟨depth, .element hbefore h (isGap_append hafter hgap)⟩

/-- A key with a value is a member. -/
theorem member {before key between : List Char} (hbefore : IsGap before) (hkey : IsBody key)
    (hbetween : IsGap between) (h : Derivable .element text) :
    Derivable .member (before ++ '"' :: (key ++ '"' :: (between ++ ':' :: text))) := by
  obtain ⟨depth, h⟩ := h
  exact ⟨depth, .member hbefore hkey hbetween h⟩

/-- A gap in front of a member belongs to it. -/
theorem gap_append_member {gap : List Char} (hgap : IsGap gap) (h : Derivable .member text) :
    Derivable .member (gap ++ text) := by
  obtain ⟨depth, h⟩ := h
  cases h with
  | @member _ before key between text hbefore hkey hbetween h =>
      rw [← List.append_assoc]
      exact ⟨depth, .member (isGap_append hgap hbefore) hkey hbetween h⟩

/-- So does a gap behind it. -/
theorem member_append_gap {gap : List Char} (h : Derivable .member text) (hgap : IsGap gap) :
    Derivable .member (text ++ gap) := by
  obtain ⟨depth, h⟩ := h
  cases h with
  | @member _ before key between text hbefore hkey hbetween h =>
      have hmember := member hbefore hkey hbetween (append_gap ⟨depth, h⟩ hgap)
      simpa using hmember

end Derivable

/-! ## Frames -/

namespace Frame

/-- The character that opens a frame. -/
def opening : Frame → Char
  | list => '['
  | object => '\x7b'

/-- The character that closes a frame. -/
def closing : Frame → Char
  | list => ']'
  | object => '\x7d'

/-- What a frame has parts of. -/
def part : Frame → Symbol
  | list => .element
  | object => .member

/-- One or more parts of a frame. -/
def parts : Frame → Symbol
  | list => .elements
  | object => .members

variable {frame : Frame} {gap : List Char}

/-- A gap around a part belongs to it. -/
theorem part_gap (h : Derivable frame.part text) (hgap : IsGap gap) :
    Derivable frame.part (gap ++ text) ∧ Derivable frame.part (text ++ gap) := by
  cases frame with
  | list => exact ⟨h.gap_append hgap, h.append_gap hgap⟩
  | object => exact ⟨h.gap_append_member hgap, h.member_append_gap hgap⟩

/-- One part is one or more. -/
theorem parts_one (h : Derivable frame.part text) : Derivable frame.parts text := by
  obtain ⟨depth, h⟩ := h
  cases frame with
  | list => exact ⟨depth, .lastElement h⟩
  | object => exact ⟨depth, .lastMember h⟩

/-- Behind a part there may be others. -/
theorem parts_cons (h : Derivable frame.part text) (hrest : Derivable frame.parts rest) :
    Derivable frame.parts (text ++ ',' :: rest) := by
  obtain ⟨depth, h⟩ := h
  obtain ⟨depth', hrest⟩ := hrest
  have hpart := derives_of_le h (Nat.le_max_left depth depth')
  have hparts := derives_of_le hrest (Nat.le_max_right depth depth')
  cases frame with
  | list => exact ⟨_, .moreElements hpart hparts⟩
  | object => exact ⟨_, .moreMembers hpart hparts⟩

/-- A frame without parts is a value. -/
theorem value_nil (hgap : IsGap gap) :
    Derivable .value (frame.opening :: (gap ++ [frame.closing])) := by
  cases frame with
  | list => exact ⟨1, .emptyArray hgap⟩
  | object => exact ⟨1, .emptyObject hgap⟩

/-- A frame with its parts is a value. -/
theorem value_parts (h : Derivable frame.parts text) :
    Derivable .value (frame.opening :: (text ++ [frame.closing])) := by
  obtain ⟨depth, h⟩ := h
  cases frame with
  | list => exact ⟨depth + 1, .array h⟩
  | object => exact ⟨depth + 1, .object h⟩

end Frame

/-- What closes the frames that are open once a value has been read. -/
inductive Closes : List Frame → List Char → Prop
  | nil : Closes [] []
  | close {gap text : List Char} {frame : Frame} {outer : List Frame} (hgap : IsGap gap)
      (h : Closes outer text) : Closes (frame :: outer) (gap ++ frame.closing :: text)
  | part {gap part text : List Char} {frame : Frame} {outer : List Frame} (hgap : IsGap gap)
      (hpart : Derivable frame.part part) (h : Closes (frame :: outer) text) :
      Closes (frame :: outer) (gap ++ ',' :: (part ++ text))

/-- Behind the first part of a frame come the others, its closing character and what closes the
frames around. -/
theorem Closes.parts {frames outer : List Frame} {frame : Frame} (h : Closes frames text)
    (hframes : frames = frame :: outer) {first : List Char} (hfirst : Derivable frame.part first) :
    ∃ more closing, text = more ++ frame.closing :: closing ∧
      Derivable frame.parts (first ++ more) ∧ Closes outer closing := by
  induction h generalizing first with
  | nil => cases hframes
  | @close gap text _ _ hgap h =>
      cases hframes
      exact ⟨gap, text, rfl, Frame.parts_one (Frame.part_gap hfirst hgap).2, h⟩
  | @part gap part text _ _ hgap hpart _ ih =>
      cases hframes
      obtain ⟨more, closing, rfl, hmore, hclosing⟩ := ih rfl hpart
      refine ⟨gap ++ ',' :: (part ++ more), closing, by simp, ?_, hclosing⟩
      rw [← List.append_assoc]
      exact Frame.parts_cons (Frame.part_gap hfirst hgap).2 hmore

/-! ## What is skipped is derived -/

/-- What is left between a state of the skipping and the text behind the value: nothing if no frame
is open, and else an element and what closes the frames. -/
inductive Remains : List Frame → List Char → List Char → Prop
  | nil {rest : List Char} : Remains [] rest rest
  | cons {frame : Frame} {outer : List Frame} {element closing rest : List Char}
      (helement : Derivable .element element) (h : Closes (frame :: outer) closing) :
      Remains (frame :: outer) (element ++ (closing ++ rest)) rest

/-- What is skipped as a key and its colon. -/
theorem exists_of_skipKey (h : skipKey text = .ok rest) :
    ∃ before key between, text = before ++ '"' :: (key ++ '"' :: (between ++ ':' :: rest)) ∧
      IsGap before ∧ IsBody key ∧ IsGap between := by
  obtain ⟨before, htext, hbefore⟩ := exists_of_skipGap text
  unfold skipKey at h
  split at h
  · cases h
  · next c more hgap =>
    split at h
    · next hquote =>
      subst hquote
      split at h
      · next behind hstring =>
        obtain ⟨key, rfl, hkey⟩ := skipString_eq_ok_iff.mp hstring
        obtain ⟨between, rfl, hbetween⟩ := readColon_eq_ok_iff.mp h
        exact ⟨before, key, between, by rw [htext, hgap], hbefore, hkey, hbetween⟩
      · cases h
    · cases h

variable {frame : Frame} {frames outer : List Frame} {after : List Char}

/-- Going on inside a frame takes in a part of it. -/
theorem exists_of_enter (h : enter frame outer text = .ok (frames, after))
    (hafter : Remains frames after rest) :
    ∃ part closing, text = part ++ (closing ++ rest) ∧ Derivable frame.part part ∧
      Closes (frame :: outer) closing := by
  cases frame with
  | list =>
      cases h
      cases hafter with
      | cons helement hclosing => exact ⟨_, _, rfl, helement, hclosing⟩
  | object =>
      unfold enter at h
      dsimp only at h
      split at h
      · next behind hkey =>
        cases h
        obtain ⟨before, key, between, rfl, hbefore, hbody, hbetween⟩ := exists_of_skipKey hkey
        cases hafter with
        | cons helement hclosing =>
            refine ⟨_, _, ?_, .member hbefore hbody hbetween helement, hclosing⟩
            simp
      · cases h

/-- A frame is closed, or entered for another part. -/
theorem close_cons_eq_ok_iff {c : Char} {more : List Char} (hgap : skipGap text = c :: more)
    {behind : Bool} {result : List Frame × List Char} :
    close (frame :: outer) behind text = .ok result ↔
      (c = ',' ∧ behind = true ∧ enter frame outer more = .ok result) ∨
        (c = frame.closing ∧ close outer true more = .ok result) ∨
        behind = false ∧ c ≠ frame.closing ∧ enter frame outer (c :: more) = .ok result := by
  have hcomma : ',' ≠ frame.closing := by
    cases frame <;> decide
  rw [close.eq_def]
  simp only [hgap]
  by_cases hsecond : c = ',' ∧ behind = true
  · obtain ⟨rfl, rfl⟩ := hsecond
    simp [hcomma]
  by_cases hclose : c = frame.closing
  · cases frame <;> simp_all [Frame.closing]
  · cases behind with
    | true => cases frame <;> simp_all [Frame.closing, stopAtNext]
    | false => cases frame <;> simp_all [Frame.closing]

/-- At the end of the text no frame is closed. -/
theorem exists_cons_of_close {behind : Bool} {result : List Frame × List Char}
    (h : close (frame :: outer) behind text = .ok result) : ∃ c more, skipGap text = c :: more := by
  cases hgap : skipGap text with
  | nil =>
      rw [close.eq_def] at h
      simp only [hgap] at h
      cases frame <;> cases h
  | cons c more => exact ⟨c, more, rfl⟩

/-- Behind a value the frames are closed, one after the other. -/
theorem exists_of_close (h : close frames true text = .ok (outer, after))
    (hafter : Remains outer after rest) :
    ∃ closing, text = closing ++ rest ∧ Closes frames closing := by
  induction frames generalizing text with
  | nil =>
      cases h
      cases hafter
      exact ⟨[], rfl, .nil⟩
  | cons frame frames ih =>
      obtain ⟨gap, htext, hgap⟩ := exists_of_skipGap text
      obtain ⟨c, more, hskip⟩ := exists_cons_of_close h
      rw [hskip] at htext
      rcases (close_cons_eq_ok_iff hskip).mp h with ⟨rfl, -, henter⟩ | ⟨rfl, hclose⟩ | ⟨hfalse, -⟩
      · obtain ⟨part, closing, rfl, hpart, hclosing⟩ := exists_of_enter henter hafter
        exact ⟨_, by simp [htext], .part hgap hpart hclosing⟩
      · obtain ⟨closing, rfl, hclosing⟩ := ih hclose
        exact ⟨_, by simp [htext], .close hgap hclosing⟩
      · cases hfalse

/-- Behind an opening character come the parts of the frame, its closing character, and what closes
the frames around. -/
theorem exists_of_open (h : close (frame :: frames) false text = .ok (outer, after))
    (hafter : Remains outer after rest) :
    ∃ inner closing, frame.opening :: text = inner ++ (closing ++ rest) ∧
      Derivable .value inner ∧ Closes frames closing := by
  obtain ⟨gap, htext, hgap⟩ := exists_of_skipGap text
  obtain ⟨c, more, hskip⟩ := exists_cons_of_close h
  rw [hskip] at htext
  rcases (close_cons_eq_ok_iff hskip).mp h with ⟨-, hfalse, -⟩ | ⟨rfl, hclose⟩ | ⟨-, -, henter⟩
  · cases hfalse
  · obtain ⟨closing, rfl, hclosing⟩ := exists_of_close hclose hafter
    exact ⟨frame.opening :: (gap ++ [frame.closing]), closing, by simp [htext],
      Frame.value_nil hgap, hclosing⟩
  · obtain ⟨part, closing, heq, hpart, hclosing⟩ := exists_of_enter henter hafter
    obtain ⟨others, outside, rfl, hparts, houtside⟩ :=
      hclosing.parts rfl (Frame.part_gap hpart hgap).1
    exact ⟨_, outside, by simp [htext, heq], Frame.value_parts hparts, houtside⟩

/-- What is skipped as a number, a string or a literal name is a value. -/
theorem exists_of_skipScalar? {c : Char} (h : skipScalar? c text = some (.ok rest)) :
    ∃ value, c :: text = value ++ rest ∧ Derivable .value value := by
  unfold skipScalar? at h
  split at h
  · next hc =>
    rw [hc, eq_of_readName (Option.some.inj h)]
    exact ⟨['n', 'u', 'l', 'l'], rfl, 0, .null⟩
  split at h
  · next hc =>
    rw [hc, eq_of_readName (Option.some.inj h)]
    exact ⟨['t', 'r', 'u', 'e'], rfl, 0, .true⟩
  split at h
  · next hc =>
    rw [hc, eq_of_readName (Option.some.inj h)]
    exact ⟨['f', 'a', 'l', 's', 'e'], rfl, 0, .false⟩
  split at h
  · next hc =>
    obtain ⟨numeral, rfl, hnumeral⟩ := exists_of_skipNumeral (Option.some.inj h)
    exact ⟨'-' :: numeral, by rw [hc, List.cons_append], 0, .numeral (.negative hnumeral)⟩
  split at h
  · next hc =>
    obtain ⟨numeral, htext, hnumeral⟩ := exists_of_skipNumeral (Option.some.inj h)
    exact ⟨numeral, htext, 0, .numeral (.unsigned hnumeral)⟩
  split at h
  · next hc =>
    obtain ⟨body, rfl, hbody⟩ := skipString_eq_ok_iff.mp (Option.some.inj h)
    exact ⟨'"' :: (body ++ ['"']), by simp [hc], 0, .string hbody⟩
  · cases h

/-- What skipping does where a frame may end, behind a value or behind an opening bracket. -/
def goOn (behind : Bool) (fuel : Nat) (frames : List Frame) (text : List Char) :
    Except Stop (List Char) :=
  match close frames behind text with
  | .ok ([], rest) => .ok rest
  | .ok (frames, rest) => skipValues fuel frames rest
  | .error stop => .error stop

/-- Either no frame is open any more, or the next value is skipped. -/
theorem goOn_eq_ok_iff {behind : Bool} {fuel : Nat} :
    goOn behind fuel frames text = .ok rest ↔
      ∃ outer after, close frames behind text = .ok (outer, after) ∧
        ((outer = [] ∧ after = rest) ∨ outer ≠ [] ∧ skipValues fuel outer after = .ok rest) := by
  unfold goOn
  cases hclose : close frames behind text with
  | error stop => simp
  | ok found =>
      obtain ⟨outer, after⟩ := found
      constructor
      · intro h
        refine ⟨outer, after, rfl, ?_⟩
        cases outer with
        | nil => exact Or.inl ⟨rfl, Except.ok.inj h⟩
        | cons frame outer => exact Or.inr ⟨List.cons_ne_nil _ _, h⟩
      · rintro ⟨_, _, heq, hnext⟩
        cases heq
        rcases hnext with ⟨rfl, rfl⟩ | ⟨hne, hskip⟩
        · rfl
        · cases outer with
          | nil => exact (hne rfl).elim
          | cons frame outer => exact hskip

/-- A number, a string or a literal name is skipped in one step. -/
theorem skipValues_scalar {fuel : Nat} {c : Char} {tail behind : List Char}
    (hskip : skipGap text = c :: tail) (h : skipScalar? c tail = some (.ok behind)) :
    skipValues (fuel + 1) frames text = goOn true fuel frames behind := by
  rw [skipValues, hskip]
  simp only [h]
  rfl

/-- An opening character opens its frame. -/
theorem skipValues_opening {fuel : Nat} {tail : List Char}
    (hskip : skipGap text = frame.opening :: tail) :
    skipValues (fuel + 1) frames text = goOn false fuel (frame :: frames) tail := by
  rw [skipValues, hskip]
  cases frame <;> rfl

/-- Values start in one of these ways. -/
theorem skipValues_eq_ok_iff {fuel : Nat} {c : Char} {tail : List Char}
    (hskip : skipGap text = c :: tail) :
    skipValues (fuel + 1) frames text = .ok rest ↔
      (∃ behind, skipScalar? c tail = some (.ok behind) ∧
          goOn true fuel frames behind = .ok rest) ∨
        ∃ frame : Frame, c = frame.opening ∧ goOn false fuel (frame :: frames) tail = .ok rest := by
  constructor
  · intro h
    cases hscalar : skipScalar? c tail with
    | some result =>
        cases result with
        | ok behind => exact Or.inl ⟨behind, rfl, skipValues_scalar hskip hscalar ▸ h⟩
        | error stop => simp [skipValues, hskip, hscalar] at h
    | none =>
        by_cases hlist : c = Frame.list.opening
        · subst hlist
          exact Or.inr ⟨.list, rfl, skipValues_opening hskip ▸ h⟩
        by_cases hobject : c = Frame.object.opening
        · subst hobject
          exact Or.inr ⟨.object, rfl, skipValues_opening hskip ▸ h⟩
        · simp_all [skipValues, Frame.opening, stopAtNext]
  · rintro (⟨behind, hscalar, h⟩ | ⟨frame, rfl, h⟩)
    · rw [skipValues_scalar hskip hscalar, h]
    · rw [skipValues_opening hskip, h]

/-- What is skipped is a value behind a gap, and behind it what closes the frames that are open. -/
theorem exists_of_skipValues {fuel : Nat} (h : skipValues fuel frames text = .ok rest) :
    ∃ gap value closing, text = gap ++ (value ++ (closing ++ rest)) ∧ IsGap gap ∧
      Derivable .value value ∧ Closes frames closing := by
  induction fuel generalizing frames text with
  | zero => cases h
  | succ fuel ih =>
      have hremains {behind : Bool} {frames : List Frame} {text : List Char}
          (h : goOn behind fuel frames text = .ok rest) :
          ∃ outer after, close frames behind text = .ok (outer, after) ∧
            Remains outer after rest := by
        obtain ⟨outer, after, hclose, hnext⟩ := goOn_eq_ok_iff.mp h
        refine ⟨outer, after, hclose, ?_⟩
        rcases hnext with ⟨rfl, rfl⟩ | ⟨hne, hskip⟩
        · exact .nil
        · obtain ⟨before, value, closing, rfl, hbefore, hvalue, hclosing⟩ := ih hskip
          cases outer with
          | nil => exact (hne rfl).elim
          | cons frame outer =>
              have helement : Derivable .element (before ++ (value ++ [])) :=
                hvalue.element hbefore nofun
              have hremains : Remains (frame :: outer) _ rest := .cons helement hclosing
              simpa using hremains
      obtain ⟨gap, htext, hgap⟩ := exists_of_skipGap text
      cases hskip : skipGap text with
      | nil =>
          rw [skipValues, hskip] at h
          cases h
      | cons c tail =>
          rw [hskip] at htext
          rcases (skipValues_eq_ok_iff hskip).mp h with
            ⟨behind, hscalar, hnext⟩ | ⟨frame, rfl, hnext⟩
          · obtain ⟨outer, after, hclose, hafter⟩ := hremains hnext
            obtain ⟨value, heq, hvalue⟩ := exists_of_skipScalar? hscalar
            obtain ⟨closing, rfl, hclosing⟩ := exists_of_close hclose hafter
            exact ⟨gap, value, closing, by rw [htext, heq], hgap, hvalue, hclosing⟩
          · obtain ⟨outer, after, hclose, hafter⟩ := hremains hnext
            obtain ⟨value, closing, heq, hvalue, hclosing⟩ := exists_of_open hclose hafter
            exact ⟨gap, value, closing, by rw [htext, ← heq], hgap, hvalue, hclosing⟩

end Skip

/-- What is skipped is a value behind a gap. -/
theorem exists_of_skipValue {text rest : List Char} (h : skipValue text = .ok rest) :
    ∃ gap value, text = gap ++ (value ++ rest) ∧ IsGap gap ∧ Skip.Derivable .value value := by
  obtain ⟨gap, value, closing, rfl, hgap, hvalue, hclosing⟩ := Skip.exists_of_skipValues h
  cases hclosing
  exact ⟨gap, value, rfl, hgap, hvalue⟩

end CellAlign.Json
