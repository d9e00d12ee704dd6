import CellAlign.Proofs.Json.Agreement
import CellAlign.Proofs.Json.Rows
import Mathlib.Data.List.Forall2

/-!
# What texts stand for

The text of a value stands for the value that is read of it, wherever it stands.  So the text of an
object is a row of members whose values stand for those of the object.  There is no other way to cut
it into members with JSON behind their keys: what follows a key is skipped up to one place only.

* `eq_of_gap_append`: behind a gap there is one value in JSON at most;
* `Row.eq_of_append`: a row is cut into members in one way;
* `Denotes`, `understands_readValue`: texts and the values that they stand for;
* `Denotes.exists_row`: the text of an object;
* `Fixes`: what the values of a key fix, if there is at most one.
-/

namespace CellAlign.Json

open Numeral (EndsNumeral)
open Skip (Derivable)

/-! ## Texts in JSON -/

/-- A value does not start with a gap. -/
theorem exists_of_derivable {text : List Char} (h : Derivable .value text) :
    ∃ c tail, text = c :: tail ∧ isGap c = false := by
  have hunsigned {text : List Char} (h : IsUnsigned text) :
      ∃ c tail, text = c :: tail ∧ isGap c = false := by
    obtain ⟨c, tail, rfl, hc⟩ := exists_digit_of_isUnsigned h
    exact ⟨c, tail, rfl, isGap_of_isDigit hc⟩
  obtain ⟨depth, h⟩ := h
  cases h with
  | numeral h =>
      cases h with
      | unsigned h => exact hunsigned h
      | negative h => exact ⟨'-', _, rfl, rfl⟩
  | null | true | false | string | emptyArray | array | emptyObject | object =>
      exact ⟨_, _, rfl, rfl⟩

/-- Behind a gap there is one value at most, if no numeral goes on behind it. -/
theorem eq_of_gap_append {gap gap' text text' rest rest' : List Char} (hgap : IsGap gap)
    (hgap' : IsGap gap') (htext : Derivable .value text) (htext' : Derivable .value text')
    (hrest : EndsNumeral rest) (hrest' : EndsNumeral rest')
    (heq : gap ++ (text ++ rest) = gap' ++ (text' ++ rest')) : text = text' ∧ rest = rest' := by
  have hskip := skipValue_append hgap htext hrest
  rw [heq, skipValue_append hgap' htext' hrest'] at hskip
  obtain rfl : rest' = rest := Except.ok.inj hskip
  rw [← List.append_assoc, ← List.append_assoc] at heq
  have hsame := congrArg skipGap (List.append_cancel_right heq)
  obtain ⟨c, tail, rfl, hc⟩ := exists_of_derivable htext
  obtain ⟨c', tail', rfl, hc'⟩ := exists_of_derivable htext'
  rw [skipGap_append hgap, skipGap_append hgap', skipGap_cons hc, skipGap_cons hc'] at hsame
  exact ⟨hsame, rfl⟩

/-- A member is read up to its value. -/
theorem IsMember.exists_read {part : List Char} {member : String × List Char}
    (h : IsMember part member) (rest : List Char) :
    ∃ tail behind gap, part ++ rest = '"' :: tail ∧ Text.read tail = .ok (member.1, behind) ∧
      readColon behind = .ok (gap ++ (member.2 ++ rest)) ∧ IsGap gap := by
  cases h with
  | @intro body before between value key hkey hbefore hbetween =>
      refine ⟨_, _, between, rfl, Text.read_eq_ok_iff.mpr ⟨body, ?_, hkey⟩,
        readColon_eq_ok_iff.mpr ⟨before, rfl, hbefore⟩, hbetween⟩
      simp

/-- A member with JSON behind its key is read in one way. -/
theorem IsMember.eq_of_append {part part' rest rest' : List Char}
    {member member' : String × List Char} (h : IsMember part member) (h' : IsMember part' member')
    (hvalue : Derivable .value member.2) (hvalue' : Derivable .value member'.2)
    (hrest : EndsNumeral rest) (hrest' : EndsNumeral rest') (heq : part ++ rest = part' ++ rest') :
    member = member' ∧ rest = rest' := by
  obtain ⟨tail, behind, gap, hpart, hkey, hcolon, hgap⟩ := h.exists_read rest
  obtain ⟨tail', behind', gap', hpart', hkey', hcolon', hgap'⟩ := h'.exists_read rest'
  rw [hpart, hpart'] at heq
  obtain rfl : tail = tail' := (List.cons.inj heq).2
  obtain ⟨hname, rfl⟩ := Prod.mk.inj (Except.ok.inj (hkey.symm.trans hkey'))
  have hvalues := Except.ok.inj (hcolon.symm.trans hcolon')
  obtain ⟨hsame, rfl⟩ := eq_of_gap_append hgap hgap' hvalue hvalue' hrest hrest' hvalues
  exact ⟨Prod.ext hname hsame, rfl⟩

/-- A row of members does not start with a closing brace, unless it has no members. -/
theorem skipGap_ne_close {separator before between part more rest : List Char}
    {member : String × List Char} (hseparator : separator = [] ∨ separator = [','])
    (hbefore : IsGap before) (hbetween : IsGap between) (h : IsMember part member) :
    skipGap (before ++ (separator ++ (between ++ (part ++ more)))) ≠ '\x7d' :: rest := by
  obtain ⟨tail, -, -, hpart, -⟩ := h.exists_read more
  intro hclose
  rw [skipGap_append hbefore, hpart] at hclose
  rcases hseparator with rfl | rfl
  · rw [List.nil_append, skipGap_append hbetween] at hclose
    cases hclose
  · cases hclose

/-- Two rows of members with the same separator go on in the same way behind it. -/
theorem eq_of_separated {separator before before' between between' : List Char}
    {part part' rest rest' : List Char} {member member' : String × List Char}
    (hseparator : separator = [] ∨ separator = [','])
    (hbefore : IsGap before) (hbefore' : IsGap before') (hbetween : IsGap between)
    (hbetween' : IsGap between') (h : IsMember part member) (h' : IsMember part' member')
    (heq : before ++ (separator ++ (between ++ (part ++ rest))) =
      before' ++ (separator ++ (between' ++ (part' ++ rest')))) :
    part ++ rest = part' ++ rest' := by
  obtain ⟨tail, -, -, hpart, -⟩ := h.exists_read rest
  obtain ⟨tail', -, -, hpart', -⟩ := h'.exists_read rest'
  have hskip := congrArg skipGap heq
  rw [skipGap_append hbefore, skipGap_append hbefore', hpart, hpart'] at hskip
  have hquote {text : List Char} : skipGap ('"' :: text) = '"' :: text := skipGap_cons rfl text
  rw [hpart, hpart']
  rcases hseparator with rfl | rfl
  · rwa [List.nil_append, List.nil_append, skipGap_append hbetween, skipGap_append hbetween',
      hquote, hquote] at hskip
  · have hbehind : skipGap (between ++ '"' :: tail) = skipGap (between' ++ '"' :: tail') :=
      congrArg skipGap (List.cons.inj hskip).2
    rwa [skipGap_append hbetween, skipGap_append hbetween', hquote, hquote] at hbehind

/-- A row in front of a closing brace is cut into members with JSON behind their keys in one way. -/
theorem Row.eq_of_append {separator row row' rest rest' : List Char}
    {members members' : List (String × List Char)}
    (h : Row IsMember separator row members) (h' : Row IsMember separator row' members')
    (hseparator : separator = [] ∨ separator = [','])
    (hvalues : ∀ m ∈ members, Derivable .value m.2)
    (hvalues' : ∀ m ∈ members', Derivable .value m.2)
    (heq : row ++ '\x7d' :: rest = row' ++ '\x7d' :: rest') : members = members' := by
  have hclosed {gap more : List Char} (hgap : IsGap gap) :
      skipGap (gap ++ '\x7d' :: more) = '\x7d' :: more :=
    skipGap_eq_cons_iff.mpr ⟨gap, rfl, hgap, rfl⟩
  induction h generalizing row' members' with
  | nil hgap =>
      cases h' with
      | nil => rfl
      | cons hbefore hbetween hmember _ =>
          simp only [List.append_assoc] at heq
          exact absurd (heq ▸ hclosed hgap) (skipGap_ne_close hseparator hbefore hbetween hmember)
  | cons hbefore hbetween hmember hrow ih =>
      simp only [List.append_assoc] at heq
      cases h' with
      | nil hgap =>
          exact absurd (heq ▸ hclosed hgap) (skipGap_ne_close hseparator hbefore hbetween hmember)
      | cons hbefore' hbetween' hmember' hrow' =>
          obtain ⟨hvalue, hothers⟩ := List.forall_mem_cons.mp hvalues
          obtain ⟨hvalue', hothers'⟩ := List.forall_mem_cons.mp hvalues'
          simp only [List.append_assoc] at heq
          have hparts := eq_of_separated hseparator hbefore hbefore' hbetween hbetween' hmember
            hmember' heq
          have hends := hrow.endsNumeral (endsNumeral_close (Or.inr rfl)) rest
          have hends' := hrow'.endsNumeral (endsNumeral_close (Or.inr rfl)) rest'
          obtain ⟨rfl, hbehind⟩ :=
            hmember.eq_of_append hmember' hvalue hvalue' hends hends' hparts
          rw [ih hrow' (Or.inr rfl) hothers hothers' hbehind]

/-! ## Values and their texts -/

/-- A text stands for a value: it is JSON and is read as the value, wherever it stands. -/
structure Denotes (depth : Nat) (text : List Char) (value : Value) : Prop where
  derivable : Derivable .value text
  reads : Reads (readValue depth) text (some value)

/-- Values are read from the texts that stand for them. -/
theorem understands_readValue (depth : Nat) : Understands (readValue depth) (Denotes depth) where
  exists_of_read := by
    intro text rest value h hrest
    obtain ⟨gap, inner, rfl, hgap, nesting, hinner⟩ :=
      exists_of_skipValue (skipValue_of_readValue h)
    rw [readValue_append hgap] at h
    refine ⟨gap, inner, rfl, hgap, ⟨nesting, hinner⟩, fun behind hbehind => ?_⟩
    -- What is read is settled where there is room for what nests in the text.
    obtain ⟨-, found, hfound⟩ := settled_of_derives hinner
    have hgives := hfound (max depth nesting) (Nat.le_max_right depth nesting)
    have hlow {rest : List Char} := @readValue_eq_ok_iff_of_le depth (max depth nesting)
      (Nat.le_max_left depth nesting) (inner ++ rest) rest value
    obtain ⟨hread, hdepth⟩ := hlow.mp h
    obtain ⟨rfl, -⟩ := (hgives rest hrest).eq_ok_iff.mp hread
    have hothers := (hgives behind hbehind).eq_ok_iff.mpr ⟨rfl, rfl⟩
    rw [hlow.mpr ⟨hothers, hdepth⟩]
    exact .ok value
  read_append := by
    intro gap text rest value hgap h hrest
    rw [readValue_append hgap]
    exact (h.reads rest hrest).eq_ok_iff.mpr ⟨rfl, rfl⟩

/-- A text with its key stands for a member. -/
def StandsFor (depth : Nat) (text : String × List Char) (member : String × Value) : Prop :=
  text.1 = member.1 ∧ Denotes depth text.2 member.2

/-- Texts that stand for members have JSON behind their keys. -/
theorem derivable_of_standsFor {depth : Nat} {texts : List (String × List Char)}
    {members : List (String × Value)} (h : List.Forall₂ (StandsFor depth) texts members) :
    ∀ t ∈ texts, Derivable .value t.2 := by
  induction h with
  | nil => exact List.forall_mem_nil _
  | cons hfirst _ ih => exact List.forall_mem_cons.mpr ⟨hfirst.2.derivable, ih⟩

/-- Members are taken in as what their texts stand for. -/
theorem takesMembers_readField (depth : Nat) :
    TakesMembers (readField depth) fun fields text next =>
      ∃ value, Denotes depth text.2 value ∧ (text.1, value) :: fields = next := by
  intro fields key
  refine ((understands_readValue depth).mapRead fun value => (key, value) :: fields).member ?_
  intro text
  rw [readField]
  cases readColon text <;> rfl

/-- What was taken in one after the other stands, in the other order, before what was there. -/
theorem exists_members_of_steps {depth : Nat} {texts : List (String × List Char)}
    {fields next : List (String × Value)}
    (h : Steps (fun fields text next => ∃ value, Denotes depth text.2 value ∧
      (text.1, value) :: fields = next) fields texts next) :
    ∃ members, List.Forall₂ (StandsFor depth) texts members ∧ next = members.reverse ++ fields := by
  induction texts generalizing fields with
  | nil =>
      cases h
      exact ⟨[], .nil, rfl⟩
  | cons text texts ih =>
      obtain ⟨_, ⟨value, hvalue, rfl⟩, hsteps⟩ := steps_cons_iff.mp h
      obtain ⟨members, hmembers, rfl⟩ := ih hsteps
      exact ⟨(text.1, value) :: members, .cons ⟨rfl, hvalue⟩ hmembers, by simp⟩

namespace Denotes

variable {depth : Nat} {text : List Char} {value : Value}

/-- A text that stands for a value is read as it. -/
theorem readValue_eq (h : Denotes depth text value) : readValue depth text = .ok (value, []) := by
  have hread := (h.reads [] nofun).eq_ok_iff.mpr ⟨rfl, rfl⟩
  rwa [List.append_nil] at hread

/-- The text of an object is a row of members between braces, and their values stand for those of
the object. -/
theorem exists_row {members : List (String × Value)} (h : Denotes depth text (.object members)) :
    ∃ inner row texts, text = '\x7b' :: (row ++ ['\x7d']) ∧ Row IsMember [] row texts ∧
      depth = inner + 1 ∧ List.Forall₂ (StandsFor inner) texts members := by
  obtain ⟨c, tail, hgap, hscalar | ⟨_, _, -, -, -, heq⟩ | ⟨inner, fields, rfl, rfl, hwalk, heq⟩⟩ :=
    readValue_eq_ok_iff.mp h.readValue_eq
  · have hdepth := depth_of_readScalar? hscalar
    rw [Value.depth] at hdepth
    omega
  · cases heq
  · obtain ⟨_, _, rfl, hc⟩ := exists_of_derivable h.derivable
    rw [skipGap_cons hc] at hgap
    obtain ⟨row, texts, rfl, hrow, hsteps⟩ :=
      (takesMembers_readField inner).walkObject_eq_ok_iff.mp hwalk
    obtain ⟨found, hfound, rfl⟩ := exists_members_of_steps hsteps
    obtain rfl : found = members := by simpa using heq
    exact ⟨inner, row, texts, hgap, hrow, rfl, hfound⟩

/-- What stands in brackets is an array. -/
theorem exists_array {tail : List Char} (h : Denotes depth ('[' :: tail) value) :
    ∃ items, value = .array items := by
  obtain ⟨c, more, hgap, hvalue⟩ := readValue_eq_ok_iff.mp h.readValue_eq
  cases hgap
  obtain hscalar | ⟨_, items, -, -, -, rfl⟩ | ⟨_, _, heq, -⟩ := hvalue
  · cases hscalar
  · exact ⟨_, rfl⟩
  · cases heq

/-- What stands in braces is an object. -/
theorem exists_object {tail : List Char} (h : Denotes depth ('\x7b' :: tail) value) :
    ∃ members, value = .object members := by
  obtain ⟨c, more, hgap, hvalue⟩ := readValue_eq_ok_iff.mp h.readValue_eq
  cases hgap
  obtain hscalar | ⟨_, _, heq, -⟩ | ⟨_, members, -, -, -, rfl⟩ := hvalue
  · cases hscalar
  · cases heq
  · exact ⟨_, rfl⟩

end Denotes

/-! ## What the values of a key fix -/

/-- A value that is a string means that string. -/
def IsText (value : Value) (string : String) : Prop := value = .string string

/-- What values fix: the default if there is none, and what it means if there is one. -/
inductive Fixes (means : Value → α → Prop) (default : α) : List Value → α → Prop
  | default : Fixes means default [] default
  | value {value : Value} {a : α} (h : means value a) : Fixes means default [value] a

section

variable {α : Type} {means : Value → α → Prop} {default a : α} {values : List Value}

/-- Something is fixed if there is at most one value, and it means something. -/
theorem exists_fixes_iff :
    (∃ a, Fixes means default values a) ↔
      values.length ≤ 1 ∧ ∀ value ∈ values, ∃ a, means value a := by
  constructor
  · rintro ⟨a, h⟩
    cases h with
    | default => simp
    | value h => simpa using ⟨a, h⟩
  · rintro ⟨hlength, h⟩
    match values with
    | [] => exact ⟨default, .default⟩
    | [value] =>
        obtain ⟨a, ha⟩ := h value List.mem_cons_self
        exact ⟨a, .value ha⟩
    | _ :: _ :: _ => simp at hlength

/-- The order of values does not matter, nor does what they are if they mean the same. -/
theorem fixes_congr {values' between : List Value} (hperm : values.Perm between)
    (h : List.Forall₂ (fun value value' => ∀ a, means value a ↔ means value' a) between values') :
    Fixes means default values a ↔ Fixes means default values' a := by
  constructor
  · intro hfixes
    cases hfixes with
    | default =>
        obtain rfl := hperm.nil_eq
        cases h
        exact .default
    | value hmeans =>
        obtain rfl := hperm.singleton_eq
        cases h with
        | cons hsame hnil =>
            cases hnil
            exact .value ((hsame a).mp hmeans)
  · intro hfixes
    cases hfixes with
    | default =>
        cases h
        obtain rfl := hperm.eq_nil
        exact .default
    | value hmeans =>
        cases h with
        | cons hsame hnil =>
            cases hnil
            obtain rfl := hperm.eq_singleton
            exact .value ((hsame a).mpr hmeans)

/-- The same values fix the same, in any order. -/
theorem fixes_perm {values' : List Value} (h : values.Perm values') :
    Fixes means default values a ↔ Fixes means default values' a :=
  fixes_congr h (List.forall₂_same.mpr fun _ _ _ => Iff.rfl)

end

end CellAlign.Json
