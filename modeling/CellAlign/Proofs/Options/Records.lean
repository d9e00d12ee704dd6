import CellAlign.Options.Reader
import CellAlign.Proofs.Json.Rows
import Mathlib.Data.List.Forall2

/-!
# Records

A record is read from an object, whose members may stand in any order and be missing, or from an
array, whose items are the fields in the order of their names.  Either way the text gives values for
some of the names.  A member with another name must be JSON, and means nothing.

* `Record`, `Holds`: the members that a text gives, and what they say of one name;
* `understands_readRecord`, `recorded_iff`: what a record is read as;
* `readWhole_eq_ok_iff_of_understands`: a text in which there is nothing but what is read.
-/

namespace CellAlign

open Json
open Json.Numeral (EndsNumeral)
open Json.Skip (Derivable)

variable {σ α : Type}

/-! ## Records and their members -/

/-- The members of a record with certain names: those of an object, or the items of an array, which
belong to the names in their order. -/
inductive Record (names : List String) : List Char → List (String × List Char) → Prop
  | object {row : List Char} {members : List (String × List Char)}
      (hrow : Row IsMember [] row members)
      (hothers : ∀ member ∈ members, member.1 ∉ names → Derivable .value member.2) :
      Record names ('\x7b' :: (row ++ ['\x7d'])) members
  | array {row : List Char} {values : List (List Char)} (hrow : Row Eq [] row values)
      (hlength : values.length ≤ names.length) :
      Record names ('[' :: (row ++ [']'])) (names.zip values)

/-- What members say of a name: nothing if none of them has it, and else what the value of the only
one that has it means. -/
def Holds (members : List (String × List Char)) (name : String)
    (means : List Char → α → Prop) : Option α → Prop
  | none => ∀ member ∈ members, member.1 ≠ name
  | some a => ∃ value, members.filter (·.1 = name) = [(name, value)] ∧ means value a

/-- What a value means can be put in another way. -/
theorem Holds.map {β : Type} {members : List (String × List Char)} {name : String}
    {means : List Char → α → Prop} {means' : List Char → β → Prop} {found : Option α} {f : α → β}
    (h : Holds members name means found) (hmeans : ∀ value a, means value a → means' value (f a)) :
    Holds members name means' (found.map f) := by
  cases found with
  | none => exact h
  | some a =>
      obtain ⟨value, hfilter, ha⟩ := h
      exact ⟨value, hfilter, hmeans value a ha⟩

/-- A record is JSON if the values of its own names are. -/
theorem Record.derivable {names : List String} {text : List Char}
    {members : List (String × List Char)} (h : Record names text members)
    (hknown : ∀ m ∈ members, m.1 ∈ names → Derivable .value m.2) : Derivable .value text := by
  cases h with
  | object hrow hothers =>
      refine hrow.derivable .object fun part member hpart hmember => hpart.derivable ?_
      by_cases hname : member.1 ∈ names
      · exact hknown member hmember hname
      · exact hothers member hmember hname
  | @array row values hrow hlength =>
      have hempty : IsGap [] := nofun
      refine hrow.derivable .list fun part value heq hvalue => ?_
      subst heq
      rw [← List.map_snd_zip hlength] at hvalue
      obtain ⟨member, hmember, rfl⟩ := List.mem_map.mp hvalue
      have hvalue := hknown member hmember (List.of_mem_zip hmember).1
      have helement := hvalue.element hempty hempty
      rwa [List.nil_append, List.append_nil] at helement

/-- A member that says something has JSON behind its key. -/
theorem Holds.derivable {members : List (String × List Char)} {name : String}
    {means : List Char → α → Prop} {found : Option α} (h : Holds members name means found)
    (hmeans : ∀ value a, means value a → Derivable .value value) {member : String × List Char}
    (hmember : member ∈ members) (hname : member.1 = name) : Derivable .value member.2 := by
  cases found with
  | none => exact absurd hname (h member hmember)
  | some a =>
      obtain ⟨value, hfilter, hvalue⟩ := h
      have hmem : member ∈ members.filter (·.1 = name) := List.mem_filter.mpr ⟨hmember, by simpa⟩
      rw [hfilter, List.mem_singleton] at hmem
      subst hmem
      exact hmeans value a hvalue

/-- A member is taken in for a name if it has the name, and no member had it before. -/
def Assigns (name : String) (means : List Char → α → Prop) (seen : Option α)
    (member : String × List Char) (next : Option α) : Prop :=
  if member.1 = name then seen = none ∧ ∃ a, means member.2 a ∧ some a = next else seen = next

section

variable {name : String} {means : List Char → α → Prop} {members : List (String × List Char)}
  {found : Option α}

/-- Once a name is taken, no member may have it. -/
theorem steps_assigns_some_iff {a : α} :
    Steps (Assigns name means) (some a) members found ↔
      (∀ member ∈ members, member.1 ≠ name) ∧ found = some a := by
  induction members with
  | nil => simp [eq_comm]
  | cons member members ih =>
      by_cases hname : member.1 = name
      · simp [Assigns, hname]
      · simp [Assigns, hname, ih]

/-- Members are taken in for a name just if they say something of it. -/
theorem steps_assigns_iff :
    Steps (Assigns name means) none members found ↔ Holds members name means found := by
  induction members with
  | nil => cases found <;> simp [Holds]
  | cons member members ih =>
      obtain ⟨key, value⟩ := member
      by_cases hname : key = name
      · subst hname
        cases found with
        | none => simp [Assigns, Holds, steps_assigns_some_iff]
        | some a =>
            have hfilter :
                members.filter (·.1 = key) = [] ↔ ∀ member ∈ members, member.1 ≠ key := by
              simp [List.filter_eq_nil_iff]
            simp only [steps_cons_iff, Assigns, if_true, Holds, List.filter_cons, decide_true,
              List.cons.injEq, Prod.mk.injEq, true_and, hfilter]
            constructor
            · rintro ⟨_, ⟨b, hmeans, rfl⟩, hsteps⟩
              obtain ⟨hothers, hfound⟩ := steps_assigns_some_iff.mp hsteps
              cases hfound
              exact ⟨value, ⟨rfl, hothers⟩, hmeans⟩
            · rintro ⟨_, ⟨rfl, hothers⟩, hmeans⟩
              exact ⟨some a, ⟨a, hmeans, rfl⟩, steps_assigns_some_iff.mpr ⟨hothers, rfl⟩⟩
      · cases found with
        | none => simp_all [Assigns, Holds]
        | some a => simp_all [Assigns, Holds]

end

/-! ## Readers of fields -/

/-- A reader of a field takes in just the values with which it comes from a state to the next, and
none of them could close an array. -/
structure TakesValues (field : σ → List Char → Outcome σ) (takes : σ → List Char → σ → Prop) :
    Prop where
  understands (state : σ) : Understands (field state) (takes state)
  starts {state next : σ} {value : List Char} (h : takes state value next) :
    ∃ c tail, value = c :: tail ∧ isGap c = false ∧ c ≠ ']'

/-- A state after the first fields were filled with values. -/
inductive Fills : List (σ → List Char → σ → Prop) → σ → List (List Char) → σ → Prop
  | nil {fields : List (σ → List Char → σ → Prop)} {state : σ} : Fills fields state [] state
  | cons {takes : σ → List Char → σ → Prop} {fields : List (σ → List Char → σ → Prop)}
      {state between next : σ} {value : List Char} {values : List (List Char)}
      (h : takes state value between) (hrest : Fills fields between values next) :
      Fills (takes :: fields) state (value :: values) next

/-- Without items the state stays as it is. -/
@[simp] theorem fills_nil_iff {fields : List (σ → List Char → σ → Prop)} {state next : σ} :
    Fills fields state [] next ↔ state = next := by
  constructor
  · intro h
    cases h
    rfl
  · rintro rfl
    exact .nil

/-- An item fills a field, and the others fill the fields behind it. -/
@[simp] theorem fills_cons_iff {fields : List (σ → List Char → σ → Prop)} {state next : σ}
    {takes : σ → List Char → σ → Prop} {value : List Char} {values : List (List Char)} :
    Fills (takes :: fields) state (value :: values) next ↔
      ∃ between, takes state value between ∧ Fills fields between values next := by
  constructor
  · rintro ⟨⟩
    exact ⟨_, by assumption, by assumption⟩
  · rintro ⟨between, h, hrest⟩
    exact .cons h hrest

/-- There are no more items than fields. -/
theorem Fills.length_le {fields : List (σ → List Char → σ → Prop)} {state next : σ}
    {values : List (List Char)} (h : Fills fields state values next) :
    values.length ≤ fields.length := by
  induction h with
  | nil => exact Nat.zero_le _
  | cons _ _ ih => exact Nat.succ_le_succ ih

variable {fields : List (σ → List Char → Outcome σ)} {takes : List (σ → List Char → σ → Prop)}
  {state next : σ} {text rest : List Char}

/-- Without fields only the closing bracket is read. -/
theorem readFields_nil_eq_ok_iff {first : Bool} :
    readRecord.readFields [] first state text = .ok (next, rest) ↔
      skipGap text = ']' :: rest ∧ state = next := by
  rw [readRecord.readFields]
  cases hskip : skipGap text with
  | nil => simp [stopHere]
  | cons c more =>
      by_cases hc : c = ']'
      · simp [hc, and_comm]
      · by_cases hcomma : c = ','
        · subst hcomma
          simp only [hc, if_false, if_true]
          split <;> simp [stopAtNext]
        · simp [hc, hcomma, stopAtNext]

/-- Fields are read up to the closing bracket, or the first of them is filled; a comma stands in
front of its item if there was one before. -/
theorem readFields_cons_eq_ok_iff {field : σ → List Char → Outcome σ} {first : Bool} :
    readRecord.readFields (field :: fields) first state text = .ok (next, rest) ↔
      (skipGap text = ']' :: rest ∧ state = next) ∨
      ∃ more c tail between behind, (if first then text = more else skipGap text = ',' :: more) ∧
        skipGap more = c :: tail ∧ c ≠ ']' ∧ field state (c :: tail) = .ok (between, behind) ∧
        readRecord.readFields fields false between behind = .ok (next, rest) := by
  rw [readRecord.readFields]
  cases hskip : skipGap text with
  | nil => cases first <;> simp [stopHere, hskip]
  | cons c more =>
      by_cases hc : c = ']'
      · cases first <;> simp [hc, hskip, and_comm]
      cases first with
      | true =>
          cases hitem : field state (c :: more) with
          | error stop => simp [hc, hskip, hitem]
          | ok found => simp [hc, hskip, hitem, Prod.ext_iff, and_assoc]
      | false =>
          by_cases hcomma : c = ','
          swap
          · simp [hc, hcomma, stopAtNext]
          subst hcomma
          cases hmore : skipGap more with
          | nil => simp [stopHere, hmore]
          | cons d tail =>
              by_cases hd : d = ']'
              · simp [hd, hmore, stopAtNext]
              · cases hitem : field state (d :: tail) with
                | error stop => simp [hd, hmore, hitem]
                | ok found => simp [hd, hmore, hitem, Prod.ext_iff, and_assoc]

/-- No numeral goes on with what follows an item. -/
theorem endsNumeral_of_readFields
    (h : readRecord.readFields fields false state text = .ok (next, rest)) : EndsNumeral text := by
  have hclosed {text : List Char} (hclose : skipGap text = ']' :: rest) : EndsNumeral text :=
    endsNumeral_of_skipGap hclose (endsNumeral_close (Or.inl rfl))
  cases fields with
  | nil => exact hclosed (readFields_nil_eq_ok_iff.mp h).1
  | cons field fields =>
      rcases readFields_cons_eq_ok_iff.mp h with ⟨hclose, -⟩ | ⟨_, _, _, _, _, hcomma, -⟩
      · exact hclosed hclose
      · exact endsNumeral_of_skipGap hcomma (endsNumeral_cons (by decide) [])

/-- Fields are filled by the items that are read, up to and with the closing bracket. -/
theorem exists_of_readFields (h : List.Forall₂ TakesValues fields takes) {first : Bool}
    (hread : readRecord.readFields fields first state text = .ok (next, rest)) :
    ∃ row values, text = row ++ ']' :: rest ∧
      Row Eq (if first then [] else [',']) row values ∧ Fills takes state values next := by
  have hclosed {first : Bool} {state : σ} {text : List Char} (hclose : skipGap text = ']' :: rest)
      (heq : state = next) (takes : List (σ → List Char → σ → Prop)) :
      ∃ row values, text = row ++ ']' :: rest ∧
        Row Eq (if first then [] else [',']) row values ∧ Fills takes state values next := by
    obtain ⟨gap, rfl, hgap, -⟩ := skipGap_eq_cons_iff.mp hclose
    exact ⟨gap, [], rfl, .nil hgap, heq ▸ .nil⟩
  induction h generalizing first state text with
  | nil =>
      obtain ⟨hclose, heq⟩ := readFields_nil_eq_ok_iff.mp hread
      exact hclosed hclose heq []
  | cons hfield _ ih =>
      rcases readFields_cons_eq_ok_iff.mp hread with ⟨hclose, heq⟩ | hmore
      · exact hclosed hclose heq _
      obtain ⟨more, c, tail, between, behind, hfirst, hskip, -, hitem, hbehind⟩ := hmore
      obtain ⟨before, value, hvalue, hbefore, htakes⟩ :=
        (hfield.understands state).exists_of_read hitem (endsNumeral_of_readFields hbehind)
      obtain ⟨row, values, rfl, hrow, hfills⟩ := ih hbehind
      obtain ⟨gap, hmore, hgap⟩ := exists_of_skipGap more
      rw [hskip, hvalue] at hmore
      have hbetween := isGap_append hgap hbefore
      cases first with
      | true =>
          obtain rfl : text = more := hfirst
          refine ⟨[] ++ ([] ++ (gap ++ before ++ (value ++ row))), _, by simp [hmore], ?_,
            .cons htakes hfills⟩
          exact .cons nofun hbetween rfl hrow
      | false =>
          obtain ⟨comma, rfl, hcomma, -⟩ := skipGap_eq_cons_iff.mp hfirst
          refine ⟨comma ++ ([','] ++ (gap ++ before ++ (value ++ row))), _, by simp [hmore], ?_,
            .cons htakes hfills⟩
          exact .cons hcomma hbetween rfl hrow

/-- Items that fill fields are read, up to and with the closing bracket. -/
theorem readFields_append (h : List.Forall₂ TakesValues fields takes) {first : Bool}
    {row : List Char} {values : List (List Char)}
    (hrow : Row Eq (if first then [] else [',']) row values)
    (hfills : Fills takes state values next) :
    readRecord.readFields fields first state (row ++ ']' :: rest) = .ok (next, rest) := by
  have hclosed {gap : List Char} (hgap : IsGap gap) :
      skipGap (gap ++ ']' :: rest) = ']' :: rest :=
    skipGap_eq_cons_iff.mpr ⟨gap, rfl, hgap, rfl⟩
  induction h generalizing first state row values with
  | nil =>
      cases hfills
      cases hrow with
      | nil hgap => exact readFields_nil_eq_ok_iff.mpr ⟨hclosed hgap, rfl⟩
  | cons hfield _ ih =>
      refine readFields_cons_eq_ok_iff.mpr ?_
      cases hfills with
      | nil =>
          cases hrow with
          | nil hgap => exact Or.inl ⟨hclosed hgap, rfl⟩
      | @cons _ _ _ middle _ value values htakes hfills =>
          cases hrow with
          | @cons _ before between _ others _ _ hbefore hbetween heq hrow =>
              subst heq
              have hempty : IsGap [] := nofun
              have hends := hrow.endsNumeral (endsNumeral_close (Or.inl rfl)) rest
              have hread := (hfield.understands state).read_append hempty htakes hends
              have hothers := @ih middle false _ _ hrow hfills
              obtain ⟨c, tail, rfl, hc, hclose⟩ := hfield.starts htakes
              have hskip {gap : List Char} (hgap : IsGap gap) :
                  skipGap (gap ++ (c :: tail ++ (others ++ ']' :: rest))) =
                    c :: (tail ++ (others ++ ']' :: rest)) :=
                skipGap_eq_cons_iff.mpr ⟨gap, rfl, hgap, hc⟩
              cases first with
              | true =>
                  have hitem := hskip (isGap_append hbefore hbetween)
                  exact Or.inr ⟨_, _, _, _, _, rfl, by simpa using hitem, hclose, hread, hothers⟩
              | false =>
                  refine Or.inr ⟨_, _, _, _, _, ?_, hskip hbetween, hclose, hread, hothers⟩
                  exact skipGap_eq_cons_iff.mpr ⟨before, by simp, hbefore, rfl⟩

/-! ## Readers of records -/

/-- The texts that are read as records, with the state that is come to. -/
inductive Recorded (takesMember : σ → String × List Char → σ → Prop)
    (takes : List (σ → List Char → σ → Prop)) (start : σ) : List Char → σ → Prop
  | object {row : List Char} {members : List (String × List Char)} {next : σ}
      (hrow : Row IsMember [] row members) (hsteps : Steps takesMember start members next) :
      Recorded takesMember takes start ('\x7b' :: (row ++ ['\x7d'])) next
  | array {row : List Char} {values : List (List Char)} {next : σ} (hrow : Row Eq [] row values)
      (hfills : Fills takes start values next) :
      Recorded takesMember takes start ('[' :: (row ++ [']'])) next

/-- A record is read from an object or an array. -/
theorem understands_readRecord {member : σ → String → List Char → Outcome σ}
    {takesMember : σ → String × List Char → σ → Prop} (hmember : TakesMembers member takesMember)
    (hfields : List.Forall₂ TakesValues fields takes) (depth : Nat) (expected : String)
    (start : σ) :
    Understands (readRecord (depth + 1) expected start member fields)
      (Recorded takesMember takes start) where
  exists_of_read := by
    intro text rest next hread _
    unfold readRecord at hread
    split at hread
    · exact (readUnwanted_ne_ok _ _ _ hread).elim
    · next c more hskip =>
      obtain ⟨gap, rfl, hgap, -⟩ := skipGap_eq_cons_iff.mp hskip
      split at hread
      · next hc =>
        subst hc
        obtain ⟨row, members, rfl, hrow, hsteps⟩ := hmember.walkObject_eq_ok_iff.mp hread
        exact ⟨gap, _, by simp, hgap, .object hrow hsteps⟩
      split at hread
      · next hc =>
        subst hc
        obtain ⟨row, values, rfl, hrow, hfills⟩ := exists_of_readFields hfields hread
        exact ⟨gap, _, by simp, hgap, .array hrow hfills⟩
      · exact (readUnwanted_ne_ok _ _ _ hread).elim
  read_append := by
    intro gap value rest next hgap h hrest
    cases h with
    | @object row members _ hrow hsteps =>
        have hwalk : walkObject member start (row ++ '\x7d' :: rest) = .ok (next, rest) :=
          hmember.walkObject_eq_ok_iff.mpr ⟨row, members, rfl, hrow, hsteps⟩
        simp [readRecord, skipGap_append hgap, skipGap_cons (show isGap '\x7b' = false from rfl),
          hwalk]
    | array hrow hfills =>
        have hread := @readFields_append _ _ _ _ _ rest hfields true _ _ hrow hfills
        simp [readRecord, skipGap_append hgap, skipGap_cons (show isGap '[' = false from rfl),
          hread]

/-- What is read as a record is settled by its members if what a walk through an object comes to is,
and what the items of an array come to. -/
theorem recorded_iff {names : List String} {takesMember : σ → String × List Char → σ → Prop}
    {start : σ} {means : List (String × List Char) → σ → Prop} {value : List Char}
    (hobject : ∀ members, Steps takesMember start members next ↔
      (∀ member ∈ members, member.1 ∉ names → Derivable .value member.2) ∧ means members next)
    (harray : ∀ values, Fills takes start values next ↔
      values.length ≤ names.length ∧ means (names.zip values) next) :
    Recorded takesMember takes start value next ↔
      ∃ members, Record names value members ∧ means members next := by
  constructor
  · intro h
    cases h with
    | object hrow hsteps =>
        obtain ⟨hothers, hmeans⟩ := (hobject _).mp hsteps
        exact ⟨_, .object hrow hothers, hmeans⟩
    | array hrow hfills =>
        obtain ⟨hlength, hmeans⟩ := (harray _).mp hfills
        exact ⟨_, .array hrow hlength, hmeans⟩
  · rintro ⟨members, hrecord, hmeans⟩
    cases hrecord with
    | object hrow hothers => exact .object hrow ((hobject _).mpr ⟨hothers, hmeans⟩)
    | array hrow hlength => exact .array hrow ((harray _).mpr ⟨hlength, hmeans⟩)

/-! ## Readers of members -/

/-- A known member is taken in if it was not there before. -/
theorem understandsMember_knownMember {read : List Char → Outcome α}
    {means : List Char → α → Prop} (h : Understands read means) (key : String) (seen : Option α)
    (store : α → σ) :
    UnderstandsMember (knownMember key seen read store)
      fun value next => seen = none ∧ ∃ a, means value a ∧ store a = next := by
  cases seen with
  | none =>
      refine ((h.mapRead store).member ?_).of_iff fun value next => by simp
      intro text
      rfl
  | some a => exact ⟨nofun, fun _ _ hfalse => by simp at hfalse⟩

/-- Any other member is skipped if its value is JSON. -/
theorem understandsMember_skipMember (state : σ) :
    UnderstandsMember (skipMember state) fun value next => Derivable .value value ∧ state = next :=
  (understands_skipValue state).member fun _ => rfl

/-! ## Readers of texts -/

/-- A text is read if what it holds is, and then nothing but a gap is left. -/
theorem readWhole_eq_ok_iff {read : Nat → List Char → Outcome α} {text : String} {a : α} :
    readWhole read text = .ok a ↔
      ∃ rest, read nestingLimit text.toList = .ok (a, rest) ∧ readEnd rest = .ok () := by
  unfold readWhole
  cases read nestingLimit text.toList with
  | error stop => simp
  | ok found =>
      obtain ⟨b, rest⟩ := found
      cases hend : readEnd rest <;> simp [Prod.ext_iff, hend]

/-- So a text is read if there is nothing in it but what is understood, and gaps around. -/
theorem readWhole_eq_ok_iff_of_understands {read : Nat → List Char → Outcome α}
    {means : List Char → α → Prop} (h : Understands (read nestingLimit) means) {text : String}
    {a : α} : readWhole read text = .ok a ↔
      ∃ before value after, text.toList = before ++ (value ++ after) ∧ IsGap before ∧
        IsGap after ∧ means value a := by
  rw [readWhole_eq_ok_iff]
  constructor
  · rintro ⟨after, hread, hend⟩
    have hafter := readEnd_eq_ok_iff.mp hend
    obtain ⟨before, value, htext, hbefore, hvalue⟩ :=
      h.exists_of_read hread (endsNumeral_gap hafter)
    exact ⟨before, value, after, htext, hbefore, hafter, hvalue⟩
  · rintro ⟨before, value, after, htext, hbefore, hafter, hvalue⟩
    have hread := h.read_append hbefore hvalue (endsNumeral_gap hafter)
    rw [← htext] at hread
    exact ⟨after, hread, readEnd_eq_ok_iff.mpr hafter⟩

end CellAlign
