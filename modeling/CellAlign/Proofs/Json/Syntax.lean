import CellAlign.Proofs.Json.Walks

/-!
# Numerals and strings in the syntax of JSON

What a reader makes of a text could depend on what follows, for it does not know where the text is
to end.  For a numeral or a string in the syntax of JSON it does not, as long as nothing follows
with which a numeral could go on: the reader comes to the end of it, always with the same result, or
it always refuses it, be it that a number is too large or that half of a surrogate pair is missing.

* `IsNumeral`, `IsBody`: the syntax of numerals and of what stands between quotes;
* `Gives`, `Settles`: what a reader comes to, and that this is settled by the text;
* `Numeral.settles_afterSign`, `Text.settles_read`: numerals and strings.
-/

namespace CellAlign.Json

open Numeral (EndsNumeral)

/-! ## The syntax -/

/-- Nothing but digits. -/
def IsDigits (text : List Char) : Prop := ∀ c ∈ text, c.isDigit = true

/-- The whole part of a numeral: digits of which the first is a zero only if it is the last. -/
inductive IsWhole : List Char → Prop
  | zero : IsWhole ['0']
  | digits {c : Char} {more : List Char} (hc : c.isDigit = true) (hzero : c ≠ '0')
      (hmore : IsDigits more) : IsWhole (c :: more)

/-- The fraction of a numeral, if it has one. -/
inductive IsFraction : List Char → Prop
  | none : IsFraction []
  | digits {c : Char} {more : List Char} (hc : c.isDigit = true) (hmore : IsDigits more) :
      IsFraction ('.' :: c :: more)

/-- The exponent of a numeral, if it has one. -/
inductive IsExponent : List Char → Prop
  | none : IsExponent []
  | digits {letter c : Char} {sign more : List Char} (hletter : letter = 'e' ∨ letter = 'E')
      (hsign : sign = [] ∨ sign = ['+'] ∨ sign = ['-']) (hc : c.isDigit = true)
      (hmore : IsDigits more) : IsExponent (letter :: (sign ++ c :: more))

/-- A numeral without its sign. -/
inductive IsUnsigned : List Char → Prop
  | parts {whole fraction exponent : List Char} (hwhole : IsWhole whole)
      (hfraction : IsFraction fraction) (hexponent : IsExponent exponent) :
      IsUnsigned (whole ++ (fraction ++ exponent))

/-- A numeral. -/
inductive IsNumeral : List Char → Prop
  | unsigned {text : List Char} (h : IsUnsigned text) : IsNumeral text
  | negative {text : List Char} (h : IsUnsigned text) : IsNumeral ('-' :: text)

/-- What stands between the quotes of a string: characters, letter escapes and escapes by number. -/
inductive IsBody : List Char → Prop
  | nil : IsBody []
  | plain {c : Char} {rest : List Char} (hquote : c ≠ '"') (hslash : c ≠ '\\')
      (hplain : 0x20 ≤ c.toNat) (hrest : IsBody rest) : IsBody (c :: rest)
  | letter {e c : Char} {rest : List Char} (he : Text.letterEscape? e = some c)
      (hrest : IsBody rest) : IsBody ('\\' :: e :: rest)
  | hex {h₁ h₂ h₃ h₄ : Char} {n : Nat} {rest : List Char} (h : Text.hex? h₁ h₂ h₃ h₄ = some n)
      (hrest : IsBody rest) : IsBody ('\\' :: 'u' :: h₁ :: h₂ :: h₃ :: h₄ :: rest)

/-! ## What a reader comes to -/

section Gives

variable {α β : Type} {found : Option α} {outcome : Outcome α} {rest : List Char}

/-- A reader comes to a result and leaves a text, or it reports something if there is no result. -/
inductive Gives (rest : List Char) : Option α → Outcome α → Prop
  | ok (a : α) : Gives rest (some a) (.ok (a, rest))
  | error (stop : Stop) : Gives rest none (.error stop)

/-- What a reader comes to is what it answers. -/
theorem Gives.eq_ok_iff (h : Gives rest found outcome) {a : α} {more : List Char} :
    outcome = .ok (a, more) ↔ found = some a ∧ more = rest := by
  cases h with
  | ok b =>
      constructor
      · intro heq
        cases heq
        exact ⟨rfl, rfl⟩
      · rintro ⟨heq, rfl⟩
        rw [Option.some.inj heq]
  | error stop =>
      constructor
      · intro heq
        cases heq
      · rintro ⟨heq, -⟩
        cases heq

/-- What a reader answers is what it comes to. -/
theorem gives_of_eq_ok_iff
    (h : ∀ a more, outcome = .ok (a, more) ↔ found = some a ∧ more = rest) :
    Gives rest found outcome := by
  cases outcome with
  | ok answer =>
      obtain ⟨rfl, hrest⟩ := (h answer.1 answer.2).mp rfl
      rw [← hrest]
      exact .ok answer.1
  | error stop =>
      cases found with
      | none => exact .error stop
      | some a => cases (h a rest).mpr ⟨rfl, rfl⟩

/-- A mapped answer comes to a mapped result. -/
theorem Gives.map (h : Gives rest found outcome) (f : α → β) :
    Gives rest (found.map f) (mapRead f outcome) := by
  cases h with
  | ok a => exact .ok (f a)
  | error stop => exact .error stop

/-- A reader comes to a result behind a text, whatever follows that a numeral cannot go on with. -/
def Reads (read : List Char → Outcome α) (text : List Char) (found : Option α) : Prop :=
  ∀ rest, EndsNumeral rest → Gives rest found (read (text ++ rest))

/-- What a reader comes to behind a text is settled by the text. -/
def Settles (read : List Char → Outcome α) (text : List Char) : Prop :=
  ∃ found, Reads read text found

/-- A mapped answer is settled if the answer is. -/
theorem Settles.map {read : List Char → Outcome α} {text : List Char} (h : Settles read text)
    (f : α → β) : Settles (fun text => mapRead f (read text)) text := by
  obtain ⟨found, hfound⟩ := h
  exact ⟨found.map f, fun rest hrest => (hfound rest hrest).map f⟩

end Gives

/-! ## Numerals -/

namespace Numeral

variable {negative : Bool} {significand : Nat} {exponent : Int} {rest : List Char}

/-- A text that does not start with a digit. -/
def NoDigit (text : List Char) : Prop := ∀ c ∈ text.head?, c.isDigit = false

/-- What ends a numeral does not start with a digit. -/
theorem EndsNumeral.noDigit (h : EndsNumeral rest) : NoDigit rest := fun c hc => (h c hc).1

/-- What follows the digits is left. -/
theorem skipDigits_append {digits : List Char} (h : IsDigits digits) (hrest : NoDigit rest) :
    skipDigits (digits ++ rest) = rest := by
  rw [skipDigits, List.dropWhile_append_of_pos h]
  cases rest with
  | nil => rfl
  | cons c rest =>
      have hc : c.isDigit = false := hrest c rfl
      rw [List.dropWhile_cons, hc]
      rfl

/-- A digit has a value. -/
theorem exists_digit? {c : Char} (h : c.isDigit = true) : ∃ d, digit? c = some d := by
  rw [digit?, if_pos h]
  exact ⟨_, rfl⟩

/-- Whether a number is too large does not depend on what follows. -/
theorem settles_finish (negative : Bool) (significand : Nat) (exponent : Int) :
    Settles (finish negative significand exponent) [] := by
  cases hdecimal : Decimal.Binary.ofDecimal? significand exponent with
  | none =>
      refine ⟨none, fun rest _ => ?_⟩
      rw [List.nil_append, finish, hdecimal]
      exact .error _
  | some x =>
      refine ⟨some (.binary { x with negative }), fun rest _ => ?_⟩
      rw [List.nil_append, finish, hdecimal]
      exact .ok _

/-- The number of a whole part does not depend on what follows. -/
theorem settles_whole (negative : Bool) (significand : Nat) :
    Settles (whole negative significand) [] := by
  by_cases hzero : negative ∧ significand = 0
  · obtain ⟨found, hfound⟩ := settles_finish true 0 0
    refine ⟨found, fun rest hrest => ?_⟩
    rw [List.nil_append, whole, if_pos hzero]
    exact hfound rest hrest
  · cases hwhole : Whole.ofInt? (if negative then -(significand : Int) else significand) with
    | none =>
        obtain ⟨found, hfound⟩ := settles_finish negative significand 0
        refine ⟨found, fun rest hrest => ?_⟩
        rw [List.nil_append, whole, if_neg hzero, hwhole]
        exact hfound rest hrest
    | some i =>
        refine ⟨some (.whole i), fun rest _ => ?_⟩
        rw [List.nil_append, whole, if_neg hzero, hwhole]
        exact .ok _

/-- The digits of an exponent are added up to their end, or some of them are left. -/
theorem exponentDigits_append {digits : List Char} (h : IsDigits digits) (n : Nat) :
    (∃ m, ∀ rest, NoDigit rest → exponentDigits n (digits ++ rest) = (some m, rest)) ∨
      ∃ left, IsDigits left ∧
        ∀ rest, NoDigit rest → exponentDigits n (digits ++ rest) = (none, left ++ rest) := by
  induction digits generalizing n with
  | nil =>
      refine Or.inl ⟨n, fun rest hrest => ?_⟩
      cases rest with
      | nil => rfl
      | cons c rest => rw [List.nil_append, exponentDigits, digit?_eq_none (hrest c rfl)]
  | cons c digits ih =>
      have hdigits : IsDigits digits := fun d hd => h d (List.mem_cons_of_mem c hd)
      obtain ⟨d, hd⟩ := exists_digit? (h c List.mem_cons_self)
      by_cases hlimit : exponentLimit < 10 * n + d
      · refine Or.inr ⟨digits, hdigits, fun rest _ => ?_⟩
        rw [List.cons_append, exponentDigits, hd]
        exact if_pos hlimit
      · have hstep (rest : List Char) : exponentDigits n (c :: digits ++ rest) =
            exponentDigits (10 * n + d) (digits ++ rest) := by
          rw [List.cons_append, exponentDigits, hd]
          exact if_neg hlimit
        simp only [hstep]
        exact ih hdigits (10 * n + d)

/-- What a numeral comes to with the exponent that its digits give, or with one that is too large.
-/
def withExponent (negative : Bool) (significand : Nat) (exponent : Int) (lower : Bool) :
    Option Nat × List Char → Outcome Number
  | (some n, rest) =>
    finish negative significand (if lower then exponent - n else exponent + n) rest
  | (none, rest) =>
    if significand ≠ 0 ∧ !lower then stopHere .numberOutOfRange rest
    else .ok (.binary (.zero negative), skipDigits rest)

/-- What an exponent comes to behind its letter and its sign. -/
theorem exists_afterLetter_eq (negative : Bool) (significand : Nat) (exponent : Int)
    {sign : List Char} {c : Char} {d : Nat}
    (hsign : sign = [] ∨ sign = ['+'] ∨ sign = ['-']) (hd : digit? c = some d) :
    ∃ lower : Bool, ∀ tail, afterLetter negative significand exponent (sign ++ c :: tail) =
      withExponent negative significand exponent lower (exponentDigits d tail) := by
  rcases hsign with rfl | rfl | rfl
  · have hplus : c ≠ '+' := by
      rintro rfl
      cases hd
    have hminus : c ≠ '-' := by
      rintro rfl
      cases hd
    refine ⟨false, fun tail => ?_⟩
    rcases hdigits : exponentDigits d tail with ⟨_ | n, rest⟩ <;>
      simp [afterLetter, withExponent, hplus, hminus, hd, hdigits]
  · refine ⟨false, fun tail => ?_⟩
    simp only [List.cons_append, List.nil_append, afterLetter, hd]
    rfl
  · refine ⟨true, fun tail => ?_⟩
    simp only [List.cons_append, List.nil_append, afterLetter, hd]
    rfl

/-- What an exponent comes to behind its letter is settled. -/
theorem settles_afterLetter {sign more : List Char} {c : Char} (negative : Bool)
    (significand : Nat) (exponent : Int) (hsign : sign = [] ∨ sign = ['+'] ∨ sign = ['-'])
    (hc : c.isDigit = true) (hmore : IsDigits more) :
    Settles (afterLetter negative significand exponent) (sign ++ c :: more) := by
  obtain ⟨d, hd⟩ := exists_digit? hc
  obtain ⟨lower, hletter⟩ := exists_afterLetter_eq negative significand exponent hsign hd
  have htext (rest : List Char) : sign ++ c :: more ++ rest = sign ++ c :: (more ++ rest) := by simp
  rcases exponentDigits_append hmore d with ⟨n, hdigits⟩ | ⟨left, hleft, hdigits⟩
  · obtain ⟨found, hfound⟩ := settles_finish negative significand
      (if lower then exponent - n else exponent + n)
    refine ⟨found, fun rest hrest => ?_⟩
    rw [htext, hletter, hdigits rest hrest.noDigit]
    exact hfound rest hrest
  · by_cases hlarge : significand ≠ 0 ∧ !lower
    · refine ⟨none, fun rest hrest => ?_⟩
      rw [htext, hletter, hdigits rest hrest.noDigit]
      rw [withExponent, if_pos hlarge]
      exact .error _
    · refine ⟨some (.binary (.zero negative)), fun rest hrest => ?_⟩
      rw [htext, hletter, hdigits rest hrest.noDigit]
      rw [withExponent, if_neg hlarge, skipDigits_append hleft hrest.noDigit]
      exact .ok _

/-- What does not start with a letter of an exponent has none. -/
theorem exponentPart_of_ends (h : EndsNumeral rest) :
    exponentPart negative significand exponent rest =
      finish negative significand exponent rest := by
  unfold exponentPart
  split
  · exact absurd rfl (h 'e' rfl).2.2.1
  · exact absurd rfl (h 'E' rfl).2.2.2
  · rfl

/-- What an exponent comes to, if there is one, is settled. -/
theorem settles_exponentPart {text : List Char} (negative : Bool) (significand : Nat)
    (exponent : Int) (h : IsExponent text) :
    Settles (exponentPart negative significand exponent) text := by
  cases h with
  | none =>
      obtain ⟨found, hfound⟩ := settles_finish negative significand exponent
      refine ⟨found, fun rest hrest => ?_⟩
      rw [List.nil_append, exponentPart_of_ends hrest]
      exact hfound rest hrest
  | digits hletter hsign hc hmore =>
      obtain ⟨found, hfound⟩ :=
        settles_afterLetter negative significand exponent hsign hc hmore
      refine ⟨found, fun rest hrest => ?_⟩
      rcases hletter with rfl | rfl
      · exact hfound rest hrest
      · exact hfound rest hrest

/-- An exponent does not start with a digit, nor does what follows it. -/
theorem noDigit_exponent {text : List Char} (h : IsExponent text) (hrest : EndsNumeral rest) :
    NoDigit (text ++ rest) := by
  cases h with
  | none => exact hrest.noDigit
  | digits hletter =>
      rintro c hc
      rcases hletter with rfl | rfl
      · obtain rfl : 'e' = c := by simpa using hc
        rfl
      · obtain rfl : 'E' = c := by simpa using hc
        rfl

/-- The digits of a fraction are collected up to their end. -/
theorem exists_fractionDigits_eq {digits : List Char} (h : IsDigits digits)
    (significand kept : Nat) :
    ∃ significand' kept', ∀ rest, NoDigit rest →
      fractionDigits significand kept (digits ++ rest) = (significand', kept', rest) := by
  induction digits generalizing significand kept with
  | nil =>
      refine ⟨significand, kept, fun rest hrest => ?_⟩
      cases rest with
      | nil => rfl
      | cons c rest => rw [List.nil_append, fractionDigits, digit?_eq_none (hrest c rfl)]
  | cons c digits ih =>
      have hdigits : IsDigits digits := fun d hd => h d (List.mem_cons_of_mem c hd)
      obtain ⟨d, hd⟩ := exists_digit? (h c List.mem_cons_self)
      by_cases hlimit : wordLimit < 10 * significand + d
      · refine ⟨significand, kept, fun rest hrest => ?_⟩
        rw [List.cons_append, fractionDigits, hd]
        simp only [if_pos hlimit, skipDigits_append hdigits hrest]
      · have hstep (rest : List Char) : fractionDigits significand kept (c :: digits ++ rest) =
            fractionDigits (10 * significand + d) (kept + 1) (digits ++ rest) := by
          rw [List.cons_append, fractionDigits, hd]
          exact if_neg hlimit
        simp only [hstep]
        exact ih hdigits (10 * significand + d) (kept + 1)

/-- What the digits behind a point and an exponent come to is settled. -/
theorem settles_afterPoint {c : Char} {more text : List Char} (negative : Bool)
    (significand : Nat) (exponent : Int) (hc : c.isDigit = true) (hmore : IsDigits more)
    (htext : IsExponent text) :
    Settles (afterPoint negative significand exponent) (c :: more ++ text) := by
  have hdigits : IsDigits (c :: more) := List.forall_mem_cons.mpr ⟨hc, hmore⟩
  obtain ⟨collected, kept, hcollect⟩ := exists_fractionDigits_eq hdigits significand 0
  obtain ⟨found, hfound⟩ := settles_exponentPart negative collected (exponent - kept) htext
  refine ⟨found, fun rest hrest => ?_⟩
  have hends := noDigit_exponent htext hrest
  rw [List.append_assoc, List.cons_append, afterPoint, if_pos hc, ← List.cons_append]
  simp only [hcollect _ hends]
  exact hfound rest hrest

/-- An exponent does not start with a point, nor does what follows it. -/
theorem ne_point_of_exponent {text : List Char} (h : IsExponent text) (hrest : EndsNumeral rest) :
    ∀ c ∈ (text ++ rest).head?, c ≠ '.' := by
  cases h with
  | none => exact fun c hc => (hrest c hc).2.1
  | digits hletter =>
      rintro c hc
      rcases hletter with rfl | rfl
      · obtain rfl : 'e' = c := by simpa using hc
        decide
      · obtain rfl : 'E' = c := by simpa using hc
        decide

/-- A fraction does not start with a digit, nor does what follows it. -/
theorem noDigit_fraction {fraction text : List Char} (h : IsFraction fraction)
    (htext : IsExponent text) (hrest : EndsNumeral rest) : NoDigit (fraction ++ text ++ rest) := by
  cases h with
  | none => exact noDigit_exponent htext hrest
  | digits =>
      intro c hc
      obtain rfl : '.' = c := by simpa using hc
      rfl

/-- Behind the digits of a whole part that no longer fits a word, there may be an exponent. -/
theorem afterLong_of_noDigit {text : List Char} (h : NoDigit text)
    (hpoint : ∀ c ∈ text.head?, c ≠ '.') :
    afterLong negative significand exponent text =
      exponentPart negative significand exponent text := by
  cases text with
  | nil => rfl
  | cons c text =>
      have hc : ¬c.isDigit = true := by
        rw [h c rfl]
        decide
      rw [afterLong, if_neg hc, if_neg (hpoint c rfl)]

/-- What a whole part that no longer fits a word comes to is settled. -/
theorem settles_afterLong {digits fraction text : List Char} (negative : Bool) (significand : Nat)
    (exponent : Int) (h : IsDigits digits) (hfraction : IsFraction fraction)
    (htext : IsExponent text) :
    Settles (afterLong negative significand exponent) (digits ++ (fraction ++ text)) := by
  induction digits generalizing exponent with
  | nil =>
      cases hfraction with
      | none =>
          obtain ⟨found, hfound⟩ := settles_exponentPart negative significand exponent htext
          refine ⟨found, fun rest hrest => ?_⟩
          have hends := noDigit_exponent htext hrest
          rw [List.nil_append, List.nil_append,
            afterLong_of_noDigit hends (ne_point_of_exponent htext hrest)]
          exact hfound rest hrest
      | digits hc hmore =>
          obtain ⟨found, hfound⟩ :=
            settles_afterPoint negative significand exponent hc hmore htext
          refine ⟨found, fun rest hrest => ?_⟩
          exact hfound rest hrest
  | cons c digits ih =>
      have hc : c.isDigit = true := h c List.mem_cons_self
      obtain ⟨found, hfound⟩ := ih (exponent + 1) fun d hd => h d (List.mem_cons_of_mem c hd)
      refine ⟨found, fun rest hrest => ?_⟩
      rw [List.cons_append, List.cons_append, afterLong, if_pos hc]
      exact hfound rest hrest

/-- What follows a whole part is settled. -/
theorem settles_afterWhole {fraction text : List Char} (negative : Bool) (significand : Nat)
    (hfraction : IsFraction fraction) (htext : IsExponent text) :
    Settles (afterWhole negative significand) (fraction ++ text) := by
  cases hfraction with
  | none =>
      cases htext with
      | none =>
          obtain ⟨found, hfound⟩ := settles_whole negative significand
          refine ⟨found, fun rest hrest => ?_⟩
          rw [List.nil_append, List.nil_append, afterWhole_of_ends negative significand hrest]
          exact hfound rest hrest
      | digits hletter hsign hc hmore =>
          obtain ⟨found, hfound⟩ := settles_afterLetter negative significand 0 hsign hc hmore
          refine ⟨found, fun rest hrest => ?_⟩
          rcases hletter with rfl | rfl
          · exact hfound rest hrest
          · exact hfound rest hrest
  | digits hc hmore =>
      obtain ⟨found, hfound⟩ := settles_afterPoint negative significand 0 hc hmore htext
      exact ⟨found, fun rest hrest => hfound rest hrest⟩

/-- Behind the digits of a whole part there is what follows it. -/
theorem wholeDigits_of_noDigit {text : List Char} (h : NoDigit text) :
    wholeDigits negative significand text = afterWhole negative significand text := by
  cases text with
  | nil => rfl
  | cons c text => rw [wholeDigits, digit?_eq_none (h c rfl)]

/-- What the further digits of a whole part and all that follows come to is settled. -/
theorem settles_wholeDigits {digits fraction text : List Char} (negative : Bool) (significand : Nat)
    (h : IsDigits digits) (hfraction : IsFraction fraction) (htext : IsExponent text) :
    Settles (wholeDigits negative significand) (digits ++ (fraction ++ text)) := by
  induction digits generalizing significand with
  | nil =>
      obtain ⟨found, hfound⟩ := settles_afterWhole negative significand hfraction htext
      refine ⟨found, fun rest hrest => ?_⟩
      rw [List.nil_append, wholeDigits_of_noDigit (noDigit_fraction hfraction htext hrest)]
      exact hfound rest hrest
  | cons c digits ih =>
      have hdigits : IsDigits digits := fun d hd => h d (List.mem_cons_of_mem c hd)
      obtain ⟨d, hd⟩ := exists_digit? (h c List.mem_cons_self)
      by_cases hlimit : wordLimit < 10 * significand + d
      · obtain ⟨found, hfound⟩ := settles_afterLong negative significand 1 hdigits hfraction htext
        refine ⟨found, fun rest hrest => ?_⟩
        rw [List.cons_append, List.cons_append, wholeDigits, hd]
        simp only [if_pos hlimit]
        exact hfound rest hrest
      · obtain ⟨found, hfound⟩ := ih (10 * significand + d) hdigits
        refine ⟨found, fun rest hrest => ?_⟩
        rw [List.cons_append, List.cons_append, wholeDigits, hd]
        simp only [if_neg hlimit]
        exact hfound rest hrest

/-- Only the digit zero has the value zero. -/
theorem digit?_ne_zero {c : Char} {d : Nat} (h : c ≠ '0') (hd : digit? c = some d) : d ≠ 0 := by
  rintro rfl
  unfold digit? at hd
  split at hd
  · next hdigit =>
    have hlow : '0'.toNat ≤ c.toNat := by
      simp only [Char.isDigit, Bool.and_eq_true, decide_eq_true_eq] at hdigit
      exact hdigit.1
    have hvalue : c.toNat - '0'.toNat = 0 := Option.some.inj hd
    exact h (Char.toNat_inj.mp (by omega))
  · cases hd

/-- What a numeral comes to behind its sign is settled. -/
theorem settles_afterSign {text : List Char} (negative : Bool) (h : IsUnsigned text) :
    Settles (afterSign negative) text := by
  obtain ⟨hwhole, hfraction, hexponent⟩ := h
  cases hwhole with
  | zero =>
      obtain ⟨found, hfound⟩ := settles_afterWhole negative 0 hfraction hexponent
      refine ⟨found, fun rest hrest => ?_⟩
      have hends := noDigit_fraction hfraction hexponent hrest
      have hzero (text : List Char) (htext : NoDigit text) :
          afterSign negative ('0' :: text) = afterWhole negative 0 text := by
        cases text with
        | nil => rfl
        | cons c text =>
            have hdigit : digit? '0' = some 0 := rfl
            unfold afterSign
            simp only [hdigit, htext c rfl]
            rfl
      rw [List.append_assoc, List.singleton_append, hzero _ hends]
      exact hfound rest hrest
  | @digits c more hc hne hmore =>
      obtain ⟨d, hd⟩ := exists_digit? hc
      obtain ⟨d, rfl⟩ := Nat.exists_eq_succ_of_ne_zero (digit?_ne_zero hne hd)
      obtain ⟨found, hfound⟩ :=
        settles_wholeDigits negative (d + 1) hmore hfraction hexponent
      refine ⟨found, fun rest hrest => ?_⟩
      have hstep (text : List Char) :
          afterSign negative (c :: text) = wholeDigits negative (d + 1) text := by
        unfold afterSign
        simp only [hd]
      rw [List.append_assoc, List.cons_append, hstep, ← List.append_assoc]
      exact hfound rest hrest

end Numeral

/-! ## Strings -/

namespace Text

variable {h₁ h₂ h₃ h₄ : Char} {n : Nat}

/-- A character that stands for itself is read. -/
theorem readBody_plain {c : Char} (hquote : c ≠ '"') (hslash : c ≠ '\\') (hplain : 0x20 ≤ c.toNat)
    (rest : List Char) : readBody (c :: rest) = mapRead (c :: ·) (readBody rest) := by
  have hcontrol : ¬c.toNat < 0x20 := by omega
  rw [readBody.eq_def]
  simp [hquote, hslash, hcontrol]

/-- An escape by number is read as its character, unless that is half of a surrogate pair. -/
theorem readBody_hex (h : hex? h₁ h₂ h₃ h₄ = some n) (hlow : ¬(0xDC00 ≤ n ∧ n ≤ 0xDFFF))
    (hplane : n < 0xD800 ∨ 0xDBFF < n) (rest : List Char) :
    readBody ('\\' :: 'u' :: h₁ :: h₂ :: h₃ :: h₄ :: rest) =
      mapRead (Char.ofNat n :: ·) (readBody rest) := by
  rw [readBody.eq_def]
  simp [h, hplane]
  omega

/-- The second half of a surrogate pair may not come first. -/
theorem readBody_low (h : hex? h₁ h₂ h₃ h₄ = some n) (hlow : 0xDC00 ≤ n ∧ n ≤ 0xDFFF)
    (rest : List Char) :
    readBody ('\\' :: 'u' :: h₁ :: h₂ :: h₃ :: h₄ :: rest) = stopHere .loneSurrogate rest := by
  rw [readBody.eq_def]
  simp [h, hlow]

/-- The first half of a surrogate pair may not be followed by a character that stands for itself or
by the end of the string. -/
theorem readBody_high_plain (h : hex? h₁ h₂ h₃ h₄ = some n) (hhigh : 0xD800 ≤ n ∧ n ≤ 0xDBFF)
    {c : Char} (hc : c ≠ '\\') (rest : List Char) :
    ∃ stop, readBody ('\\' :: 'u' :: h₁ :: h₂ :: h₃ :: h₄ :: c :: rest) = .error stop := by
  have hlow : ¬(0xDC00 ≤ n ∧ n ≤ 0xDFFF) := by omega
  have hplane : ¬(n < 0xD800 ∨ 0xDBFF < n) := by omega
  rw [readBody.eq_def]
  simp [h, hc, if_neg hlow, if_neg hplane]
  exact ⟨_, rfl⟩

/-- Nor may it be followed by a letter escape. -/
theorem readBody_high_letter (h : hex? h₁ h₂ h₃ h₄ = some n) (hhigh : 0xD800 ≤ n ∧ n ≤ 0xDBFF)
    {e : Char} (he : e ≠ 'u') (rest : List Char) :
    ∃ stop, readBody ('\\' :: 'u' :: h₁ :: h₂ :: h₃ :: h₄ :: '\\' :: e :: rest) =
      .error stop := by
  have hlow : ¬(0xDC00 ≤ n ∧ n ≤ 0xDFFF) := by omega
  have hplane : ¬(n < 0xD800 ∨ 0xDBFF < n) := by omega
  rw [readBody.eq_def]
  simp [h, he, if_neg hlow, if_neg hplane]
  exact ⟨_, rfl⟩

/-- An escape by number behind the first half of a surrogate pair must be the second half. -/
theorem readBody_high_hex {l₁ l₂ l₃ l₄ : Char} {m : Nat} (h : hex? h₁ h₂ h₃ h₄ = some n)
    (hhigh : 0xD800 ≤ n ∧ n ≤ 0xDBFF) (hm : hex? l₁ l₂ l₃ l₄ = some m) (rest : List Char) :
    readBody ('\\' :: 'u' :: h₁ :: h₂ :: h₃ :: h₄ :: '\\' :: 'u' :: l₁ :: l₂ :: l₃ :: l₄ :: rest) =
      if m < 0xDC00 ∨ 0xDFFF < m then stopHere .loneSurrogate rest
      else mapRead (Char.ofNat (0x10000 + (n - 0xD800) * 0x400 + (m - 0xDC00)) :: ·)
        (readBody rest) := by
  have hlow : ¬(0xDC00 ≤ n ∧ n ≤ 0xDFFF) := by omega
  have hplane : ¬(n < 0xD800 ∨ 0xDBFF < n) := by omega
  rw [readBody.eq_def]
  simp [h, hm, if_neg hlow, if_neg hplane]

/-- What stands between quotes is read or refused, whatever follows the closing quote. -/
def SettlesBody (body : List Char) : Prop :=
  ∃ found, ∀ rest, Gives rest found (readBody (body ++ '"' :: rest))

/-- Behind the first half of a surrogate pair the second half is read at once, or all is refused. -/
theorem settlesBody_high (hn : hex? h₁ h₂ h₃ h₄ = some n) (hhigh : 0xD800 ≤ n ∧ n ≤ 0xDBFF)
    {body : List Char} (h : IsBody body)
    (hrest : ∀ rest : List Char, rest.length < body.length → IsBody rest → SettlesBody rest) :
    SettlesBody ('\\' :: 'u' :: h₁ :: h₂ :: h₃ :: h₄ :: body) := by
  have hrefused (hstop : ∀ rest, ∃ stop,
      readBody ('\\' :: 'u' :: h₁ :: h₂ :: h₃ :: h₄ :: (body ++ '"' :: rest)) = .error stop) :
      SettlesBody ('\\' :: 'u' :: h₁ :: h₂ :: h₃ :: h₄ :: body) := by
    refine ⟨none, fun rest => ?_⟩
    obtain ⟨stop, heq⟩ := hstop rest
    simp only [List.cons_append]
    rw [heq]
    exact .error stop
  cases h with
  | nil =>
      have hquote : '"' ≠ '\\' := by decide
      exact hrefused fun rest => readBody_high_plain hn hhigh hquote rest
  | @plain c body _ hslash =>
      exact hrefused fun rest => readBody_high_plain hn hhigh hslash (body ++ '"' :: rest)
  | @letter e c body he =>
      have hu : e ≠ 'u' := by
        rintro rfl
        cases he
      exact hrefused fun rest => readBody_high_letter hn hhigh hu (body ++ '"' :: rest)
  | @hex l₁ l₂ l₃ l₄ m body hm hbody =>
      by_cases hpair : m < 0xDC00 ∨ 0xDFFF < m
      · refine hrefused fun rest => ?_
        simp only [List.cons_append]
        rw [readBody_high_hex hn hhigh hm, if_pos hpair]
        exact ⟨_, rfl⟩
      · obtain ⟨found, hfound⟩ := hrest body (by simp only [List.length_cons]; omega) hbody
        refine ⟨found.map
          (Char.ofNat (0x10000 + (n - 0xD800) * 0x400 + (m - 0xDC00)) :: ·), fun rest => ?_⟩
        simp only [List.cons_append]
        rw [readBody_high_hex hn hhigh hm, if_neg hpair]
        exact (hfound rest).map _

/-- What stands between quotes is settled.  The induction is on its length, since the two halves of a
surrogate pair are taken in at once. -/
theorem settlesBody {body : List Char} (h : IsBody body) : SettlesBody body := by
  induction hlength : body.length using Nat.strongRecOn generalizing body with
  | ind length ih =>
      cases h with
      | nil =>
          refine ⟨some [], fun rest => ?_⟩
          rw [List.nil_append, readBody.eq_def]
          exact .ok []
      | @plain c body hquote hslash hplain hbody =>
          obtain ⟨found, hfound⟩ := ih body.length (by simp [← hlength]) hbody rfl
          refine ⟨found.map (c :: ·), fun rest => ?_⟩
          rw [List.cons_append, readBody_plain hquote hslash hplain]
          exact (hfound rest).map _
      | @letter e c body he hbody =>
          have hu : e ≠ 'u' := by
            rintro rfl
            cases he
          obtain ⟨found, hfound⟩ := ih body.length
            (by simp only [← hlength, List.length_cons]; omega) hbody rfl
          refine ⟨found.map (c :: ·), fun rest => ?_⟩
          rw [List.cons_append, List.cons_append, readBody_letterEscape hu he]
          exact (hfound rest).map _
      | @hex h₁ h₂ h₃ h₄ n body hn hbody =>
          have hshorter : body.length < length := by
            simp only [← hlength, List.length_cons]
            omega
          by_cases hlow : 0xDC00 ≤ n ∧ n ≤ 0xDFFF
          · refine ⟨none, fun rest => ?_⟩
            simp only [List.cons_append]
            rw [readBody_low hn hlow]
            exact .error _
          by_cases hplane : n < 0xD800 ∨ 0xDBFF < n
          · obtain ⟨found, hfound⟩ := ih body.length hshorter hbody rfl
            refine ⟨found.map (Char.ofNat n :: ·), fun rest => ?_⟩
            simp only [List.cons_append]
            rw [readBody_hex hn hlow hplane]
            exact (hfound rest).map _
          · have hhigh : 0xD800 ≤ n ∧ n ≤ 0xDBFF := by omega
            refine settlesBody_high hn hhigh hbody fun rest hlt hrest => ?_
            exact ih rest.length (by omega) hrest rfl

/-- What a string comes to behind its opening quote is settled. -/
theorem settles_read {body : List Char} (h : IsBody body) : Settles read (body ++ ['"']) := by
  obtain ⟨found, hfound⟩ := settlesBody h
  refine ⟨found.map String.ofList, fun rest _ => ?_⟩
  rw [List.append_assoc, List.singleton_append]
  exact (hfound rest).map String.ofList

end Text

end CellAlign.Json
