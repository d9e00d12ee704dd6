import CellAlign.Proofs.Json.Skipped
import Mathlib.Logic.Function.Basic

/-!
# Rows of members and items

A walk through an object takes in its members one after the other, and with each it comes from one
state to the next.  Which states it can come to is settled by the members that stand in the text:
those are a row with commas between, each a key with the text of its value.  So what such a walk
answers can be told without it, from the members and from what one of them does to a state.

* `Row`, `IsMember`: rows of parts with commas between, and the members of an object;
* `Steps`: a state after the parts of a row were taken in one after the other;
* `TakesMembers.walkObject_eq_ok_iff`: the states that a walk through an object comes to;
* `Row.derivable`: rows that are JSON.
-/

namespace CellAlign.Json

open Numeral (EndsNumeral)
open Skip (Derivable)

variable {σ α : Type}

/-! ## Rows -/

/-- Parts with gaps and commas between them, and a gap behind the last.  A separator may be wanted
in front of the first as well. -/
inductive Row (part : List Char → α → Prop) : List Char → List Char → List α → Prop
  | nil {separator gap : List Char} (hgap : IsGap gap) : Row part separator gap []
  | cons {separator before between text rest : List Char} {a : α} {others : List α}
      (hbefore : IsGap before) (hbetween : IsGap between) (h : part text a)
      (hrest : Row part [','] rest others) :
      Row part separator (before ++ (separator ++ (between ++ (text ++ rest)))) (a :: others)

/-- A member of an object: its key, and the text of its value. -/
inductive IsMember : List Char → String × List Char → Prop
  | intro {body before between value : List Char} {key : String}
      (hkey : Text.Writes body key.toList) (hbefore : IsGap before) (hbetween : IsGap between) :
      IsMember ('"' :: (body ++ '"' :: (before ++ ':' :: (between ++ value)))) (key, value)

/-- A state after parts were taken in one after the other. -/
inductive Steps (takes : σ → α → σ → Prop) : σ → List α → σ → Prop
  | nil {state : σ} : Steps takes state [] state
  | cons {state between next : σ} {a : α} {others : List α} (h : takes state a between)
      (hrest : Steps takes between others next) : Steps takes state (a :: others) next

variable {part : List Char → α → Prop} {takes : σ → α → σ → Prop} {state next : σ}
  {row rest : List Char} {parts : List α}

/-- Without parts the state stays as it is. -/
@[simp] theorem steps_nil_iff : Steps takes state [] next ↔ state = next := by
  constructor
  · intro h
    cases h
    rfl
  · rintro rfl
    exact .nil

/-- Parts are taken in one after the other. -/
@[simp] theorem steps_cons_iff {a : α} :
    Steps takes state (a :: parts) next ↔
      ∃ between, takes state a between ∧ Steps takes between parts next := by
  constructor
  · rintro ⟨⟩
    exact ⟨_, by assumption, by assumption⟩
  · rintro ⟨between, h, hrest⟩
    exact .cons h hrest

/-- No numeral goes on with what stands behind a part. -/
theorem Row.endsNumeral (h : Row part [','] row parts) {close : Char}
    (hclose : EndsNumeral [close]) (rest : List Char) : EndsNumeral (row ++ close :: rest) := by
  cases h with
  | nil hgap => exact endsNumeral_append hgap (endsNumeral_cons (hclose close rfl) rest)
  | cons hbefore =>
      rw [List.append_assoc, List.singleton_append]
      exact endsNumeral_append hbefore (endsNumeral_cons (by decide) _)

/-- Steps that keep two things apart are steps of the one and of the other. -/
theorem steps_and_iff {τ υ : Type} {f : σ → τ} {g : σ → υ} {first : τ → α → τ → Prop}
    {second : υ → α → υ → Prop} (hpair : Function.Bijective fun s => (f s, g s)) :
    Steps (fun s a n => first (f s) a (f n) ∧ second (g s) a (g n)) state parts next ↔
      Steps first (f state) parts (f next) ∧ Steps second (g state) parts (g next) := by
  induction parts generalizing state with
  | nil =>
      simp only [steps_nil_iff, ← Prod.mk.injEq]
      exact hpair.injective.eq_iff.symm
  | cons a parts ih =>
      simp only [steps_cons_iff, ih]
      constructor
      · rintro ⟨between, ⟨hfirst, hsecond⟩, hfirsts, hseconds⟩
        exact ⟨⟨_, hfirst, hfirsts⟩, _, hsecond, hseconds⟩
      · rintro ⟨⟨x, hfirst, hfirsts⟩, y, hsecond, hseconds⟩
        obtain ⟨between, heq⟩ := hpair.surjective (x, y)
        obtain ⟨rfl, rfl⟩ := Prod.mk.inj heq
        exact ⟨between, ⟨hfirst, hsecond⟩, hfirsts, hseconds⟩

/-- Steps that ask something of each part ask it of all parts. -/
theorem steps_and_forall_iff {wanted : α → Prop} :
    Steps (fun s a n => takes s a n ∧ wanted a) state parts next ↔
      Steps takes state parts next ∧ ∀ a ∈ parts, wanted a := by
  induction parts generalizing state with
  | nil => simp
  | cons a parts ih =>
      simp only [steps_cons_iff, List.forall_mem_cons, ih]
      constructor
      · rintro ⟨between, ⟨h, hwanted⟩, hrest, hothers⟩
        exact ⟨⟨between, h, hrest⟩, hwanted, hothers⟩
      · rintro ⟨⟨between, h, hrest⟩, hwanted, hothers⟩
        exact ⟨between, ⟨h, hwanted⟩, hrest, hothers⟩

/-! ## Readers -/

/-- A reader of values reads just those that mean something, with a gap in front of them, if no
numeral goes on behind them. -/
structure Understands (read : List Char → Outcome α) (means : List Char → α → Prop) : Prop where
  exists_of_read {text rest : List Char} {a : α} (h : read text = .ok (a, rest))
    (hrest : EndsNumeral rest) :
    ∃ gap value, text = gap ++ (value ++ rest) ∧ IsGap gap ∧ means value a
  read_append {gap value rest : List Char} {a : α} (hgap : IsGap gap) (h : means value a)
    (hrest : EndsNumeral rest) : read (gap ++ (value ++ rest)) = .ok (a, rest)

/-- A reader of members reads just the values that mean something, behind a colon and with gaps
around that. -/
structure UnderstandsMember (read : List Char → Outcome α) (means : List Char → α → Prop) :
    Prop where
  exists_of_read {text rest : List Char} {a : α} (h : read text = .ok (a, rest))
    (hrest : EndsNumeral rest) :
    ∃ before between value, text = before ++ ':' :: (between ++ (value ++ rest)) ∧
      IsGap before ∧ IsGap between ∧ means value a
  read_append {before between value rest : List Char} {a : α} (hbefore : IsGap before)
    (hbetween : IsGap between) (h : means value a) (hrest : EndsNumeral rest) :
    read (before ++ ':' :: (between ++ (value ++ rest))) = .ok (a, rest)

section

variable {β : Type} {read : List Char → Outcome α} {means : List Char → α → Prop}

/-- What is read can be stored. -/
theorem Understands.mapRead (h : Understands read means) (store : α → β) :
    Understands (fun text => Json.mapRead store (read text))
      fun value b => ∃ a, means value a ∧ store a = b where
  exists_of_read := by
    intro text rest b hread hrest
    obtain ⟨a, hfound, rfl⟩ := mapRead_eq_ok_iff.mp hread
    obtain ⟨gap, value, rfl, hgap, hmeans⟩ := h.exists_of_read hfound hrest
    exact ⟨gap, value, rfl, hgap, a, hmeans, rfl⟩
  read_append := by
    rintro gap value rest b hgap ⟨a, hmeans, rfl⟩ hrest
    exact mapRead_eq_ok_iff.mpr ⟨a, h.read_append hgap hmeans hrest, rfl⟩

/-- A colon is read and then a value. -/
theorem Understands.member (h : Understands read means) {member : List Char → Outcome α}
    (hmember : ∀ text, member text =
      match readColon text with
      | .error stop => .error stop
      | .ok text => read text) :
    UnderstandsMember member means where
  exists_of_read := by
    intro text rest a hread hrest
    rw [hmember] at hread
    split at hread
    · cases hread
    · next hcolon =>
      obtain ⟨before, rfl, hbefore⟩ := readColon_eq_ok_iff.mp hcolon
      obtain ⟨between, value, rfl, hbetween, hmeans⟩ := h.exists_of_read hread hrest
      exact ⟨before, between, value, rfl, hbefore, hbetween, hmeans⟩
  read_append := by
    intro before between value rest a hbefore hbetween hmeans hrest
    rw [hmember, readColon_eq_ok_iff.mpr ⟨before, rfl, hbefore⟩]
    exact h.read_append hbetween hmeans hrest

/-- What values mean can be said in another way. -/
theorem Understands.of_iff (h : Understands read means) {means' : List Char → α → Prop}
    (hmeans : ∀ value a, means value a ↔ means' value a) : Understands read means' := by
  obtain rfl : means = means' := funext fun value => funext fun a => propext (hmeans value a)
  exact h

/-- What members mean can be said in another way. -/
theorem UnderstandsMember.of_iff (h : UnderstandsMember read means)
    {means' : List Char → α → Prop} (hmeans : ∀ value a, means value a ↔ means' value a) :
    UnderstandsMember read means' := by
  obtain rfl : means = means' := funext fun value => funext fun a => propext (hmeans value a)
  exact h

/-- A value can be skipped if it is JSON. -/
theorem understands_skipValue (a : α) :
    Understands
      (fun text =>
        match skipValue text with
        | .ok rest => .ok (a, rest)
        | .error stop => .error stop)
      fun value b => Derivable .value value ∧ a = b where
  exists_of_read := by
    intro text rest b hread _
    split at hread
    · next hskip =>
      cases hread
      obtain ⟨gap, value, rfl, hgap, hvalue⟩ := exists_of_skipValue hskip
      exact ⟨gap, value, rfl, hgap, hvalue, rfl⟩
    · cases hread
  read_append := by
    rintro gap value rest b hgap ⟨hvalue, rfl⟩ hrest
    simp only [skipValue_append hgap hvalue hrest]

end

/-! ## Walks through objects -/

/-- No numeral goes on with what a walk finds behind a member. -/
theorem endsNumeral_of_walkMembers {member : σ → String → List Char → Outcome σ} {fuel : Nat}
    {text : List Char} (h : walkMembers member fuel state text = .ok (next, rest)) :
    EndsNumeral text := by
  cases fuel with
  | zero => cases h
  | succ fuel =>
      rcases walkMembers_eq_ok_iff.mp h with ⟨hclose, -⟩ | ⟨more, -, -, -, hcomma, -⟩
      · exact endsNumeral_of_skipGap hclose (endsNumeral_close (Or.inr rfl))
      · exact endsNumeral_of_skipGap hcomma (endsNumeral_cons (by decide) [])

/-- A reader of members takes in just the values with which it comes from a state to the next. -/
def TakesMembers (member : σ → String → List Char → Outcome σ)
    (takes : σ → String × List Char → σ → Prop) : Prop :=
  ∀ state key, UnderstandsMember (member state key) fun value => takes state (key, value)

namespace TakesMembers

variable {member : σ → String → List Char → Outcome σ}
  {takes : σ → String × List Char → σ → Prop} {state next : σ} {row text rest : List Char}
  {members : List (String × List Char)}

/-- What is read as a member is one, and it is taken in. -/
theorem exists_of_readMember (h : TakesMembers member takes)
    (hread : readMember member state text = .ok (next, rest)) (hrest : EndsNumeral rest) :
    ∃ part found, '"' :: text = part ++ rest ∧ IsMember part found ∧ takes state found next := by
  obtain ⟨key, behind, hkey, hmember⟩ := readMember_eq_ok_iff.mp hread
  obtain ⟨body, rfl, hbody⟩ := Text.read_eq_ok_iff.mp hkey
  obtain ⟨before, between, value, rfl, hbefore, hbetween, htakes⟩ :=
    (h _ _).exists_of_read hmember hrest
  exact ⟨_, _, by simp, .intro hbody hbefore hbetween, htakes⟩

/-- A member that is taken in is read. -/
theorem readMember_append (h : TakesMembers member takes) {part : List Char}
    {found : String × List Char} (hpart : IsMember part found) (htakes : takes state found next)
    (hrest : EndsNumeral rest) :
    ∃ tail, part ++ rest = '"' :: tail ∧ readMember member state tail = .ok (next, rest) := by
  obtain ⟨hkey, hbefore, hbetween⟩ := hpart
  have hmember := (h _ _).read_append hbefore hbetween htakes hrest
  refine ⟨_, rfl, readMember_eq_ok_iff.mpr ⟨_, _, Text.read_eq_ok_iff.mpr ⟨_, ?_, hkey⟩, hmember⟩⟩
  simp

/-- Behind a member a walk takes in a row of others. -/
theorem exists_of_walkMembers (h : TakesMembers member takes) {fuel : Nat}
    (hwalk : walkMembers member fuel state text = .ok (next, rest)) :
    ∃ row members, text = row ++ '\x7d' :: rest ∧ Row IsMember [','] row members ∧
      Steps takes state members next := by
  induction fuel generalizing state text with
  | zero => cases hwalk
  | succ fuel ih =>
      rcases walkMembers_eq_ok_iff.mp hwalk with ⟨hclose, rfl⟩ | hmore
      · obtain ⟨gap, rfl, hgap, -⟩ := skipGap_eq_cons_iff.mp hclose
        exact ⟨gap, [], rfl, .nil hgap, .nil⟩
      · obtain ⟨more, tail, between, behind, hcomma, hquote, hread, hbehind⟩ := hmore
        obtain ⟨gap, rfl, hgap, -⟩ := skipGap_eq_cons_iff.mp hcomma
        obtain ⟨gap', rfl, hgap', -⟩ := skipGap_eq_cons_iff.mp hquote
        obtain ⟨part, found, hpart, hmember, htakes⟩ :=
          h.exists_of_readMember hread (endsNumeral_of_walkMembers hbehind)
        obtain ⟨row, members, rfl, hrow, hsteps⟩ := ih hbehind
        exact ⟨_, _, by simp [hpart], .cons hgap hgap' hmember hrow, .cons htakes hsteps⟩

/-- Behind a member a row of others is taken in. -/
theorem walkMembers_append (h : TakesMembers member takes) (hrow : Row IsMember [','] row members)
    (hsteps : Steps takes state members next) {fuel : Nat} (hfuel : row.length < fuel) :
    walkMembers member fuel state (row ++ '\x7d' :: rest) = .ok (next, rest) := by
  induction members generalizing row state fuel with
  | nil =>
      obtain ⟨fuel, rfl⟩ : ∃ inner, fuel = inner + 1 := ⟨fuel - 1, by omega⟩
      cases hrow with
      | nil hgap =>
          cases hsteps
          refine walkMembers_eq_ok_iff.mpr (Or.inl ⟨?_, rfl⟩)
          exact skipGap_eq_cons_iff.mpr ⟨row, rfl, hgap, rfl⟩
  | cons found members ih =>
      obtain ⟨fuel, rfl⟩ : ∃ inner, fuel = inner + 1 := ⟨fuel - 1, by omega⟩
      obtain ⟨between, htakes, hsteps⟩ := steps_cons_iff.mp hsteps
      cases hrow with
      | @cons _ before gap part others _ _ hbefore hgap hmember hothers =>
          have hends := hothers.endsNumeral (endsNumeral_close (Or.inr rfl)) rest
          obtain ⟨tail, htail, hread⟩ := h.readMember_append hmember htakes hends
          have hlength : others.length < fuel := by
            simp at hfuel
            omega
          refine walkMembers_eq_ok_iff.mpr (Or.inr ⟨gap ++ '"' :: tail, tail, between,
            others ++ '\x7d' :: rest, ?_, ?_, hread, ih hothers hsteps hlength⟩)
          · exact skipGap_eq_cons_iff.mpr ⟨before, by simp [← htail], hbefore, rfl⟩
          · exact skipGap_eq_cons_iff.mpr ⟨gap, rfl, hgap, rfl⟩

/-- A walk through an object takes in a row of members. -/
theorem walkObject_eq_ok_iff (h : TakesMembers member takes) :
    walkObject member state text = .ok (next, rest) ↔
      ∃ row members, text = row ++ '\x7d' :: rest ∧ Row IsMember [] row members ∧
        Steps takes state members next := by
  rw [Json.walkObject_eq_ok_iff]
  constructor
  · rintro (⟨hclose, rfl⟩ | ⟨tail, between, behind, hquote, hread, hwalk⟩)
    · obtain ⟨gap, rfl, hgap, -⟩ := skipGap_eq_cons_iff.mp hclose
      exact ⟨gap, [], rfl, .nil hgap, .nil⟩
    · obtain ⟨gap, rfl, hgap, -⟩ := skipGap_eq_cons_iff.mp hquote
      obtain ⟨part, found, hpart, hmember, htakes⟩ :=
        h.exists_of_readMember hread (endsNumeral_of_walkMembers hwalk)
      obtain ⟨row, members, rfl, hrow, hsteps⟩ := h.exists_of_walkMembers hwalk
      refine ⟨gap ++ ([] ++ ([] ++ (part ++ row))), _, by simp [hpart], ?_, .cons htakes hsteps⟩
      exact .cons hgap nofun hmember hrow
  · rintro ⟨row, members, rfl, hrow, hsteps⟩
    cases hrow with
    | nil hgap =>
        cases hsteps
        exact Or.inl ⟨skipGap_eq_cons_iff.mpr ⟨row, rfl, hgap, rfl⟩, rfl⟩
    | @cons _ before gap part others _ _ hbefore hgap hmember hothers =>
        obtain ⟨between, htakes, hsteps⟩ := steps_cons_iff.mp hsteps
        have hends := hothers.endsNumeral (endsNumeral_close (Or.inr rfl)) rest
        obtain ⟨tail, htail, hread⟩ := h.readMember_append hmember htakes hends
        have hlength : others.length < (others ++ '\x7d' :: rest).length.succ := by
          rw [List.length_append]
          omega
        refine Or.inr ⟨tail, between, _, ?_, hread, h.walkMembers_append hothers hsteps hlength⟩
        exact skipGap_eq_cons_iff.mpr
          ⟨before ++ gap, by simp [← htail], isGap_append hbefore hgap, rfl⟩

end TakesMembers

/-! ## Rows that are JSON -/

/-- Behind a part of a frame, a row of others makes with it one or more parts. -/
theorem Row.derivable_parts {frame : Skip.Frame} {text : List Char}
    (h : Row part [','] row parts)
    (hpart : ∀ text a, part text a → a ∈ parts → Derivable frame.part text)
    (htext : Derivable frame.part text) : Derivable frame.parts (text ++ row) := by
  induction parts generalizing text row with
  | nil =>
      cases h with
      | nil hgap => exact Skip.Frame.parts_one (Skip.Frame.part_gap htext hgap).2
  | cons a parts ih =>
      cases h with
      | cons hbefore hbetween h hrow =>
          have hfirst := hpart _ _ h List.mem_cons_self
          have hothers := ih hrow
            (fun text b hb hmem => hpart text b hb (List.mem_cons_of_mem _ hmem))
            (Skip.Frame.part_gap hfirst hbetween).1
          have hparts := Skip.Frame.parts_cons (Skip.Frame.part_gap htext hbefore).2 hothers
          simpa using hparts

/-- A frame that holds a row of its parts is a value. -/
theorem Row.derivable (h : Row part [] row parts) (frame : Skip.Frame)
    (hpart : ∀ text a, part text a → a ∈ parts → Derivable frame.part text) :
    Derivable .value (frame.opening :: (row ++ [frame.closing])) := by
  cases h with
  | nil hgap => exact Skip.Frame.value_nil hgap
  | cons hbefore hbetween h hrow =>
      have hfirst := hpart _ _ h List.mem_cons_self
      have hothers := hrow.derivable_parts
        (fun text b hb hmem => hpart text b hb (List.mem_cons_of_mem _ hmem))
        (Skip.Frame.part_gap hfirst (isGap_append hbefore hbetween)).1
      simpa using Skip.Frame.value_parts hothers

/-- A member with JSON behind its key is one in JSON. -/
theorem IsMember.derivable {part : List Char} {member : String × List Char}
    (h : IsMember part member) (hvalue : Derivable .value member.2) : Derivable .member part := by
  cases h with
  | @intro body before between value key hkey hbefore hbetween =>
      have hempty : IsGap [] := nofun
      have hmember := Derivable.member hempty hkey.isBody hbefore
        (hvalue.element hbetween hempty)
      simpa using hmember

end CellAlign.Json
