import CellAlign.Source
import CellAlign.Proofs.Json.Denoting
import CellAlign.Proofs.Options.Stated

/-!
# Options and the members they come from

Options are read from an object one member after the other, and nothing is made a value first.  Yet
where the text can be read as a value, the options depend on its members alone, and on few of them:
the method on the values of its key, and each token on the values that the object of the tokens has
for its key.  Whatever else stands in the objects, and in which order, makes no difference.

What a text states is known from the texts of its members.  These stand for the members of the
object, so what they state is said here again of the values.

* `Options.FixedBy`: the options that members fix;
* `exists_record_iff`, `exists_holds_iff`: what is stated in an object, said of its values;
* `Options.ofJson_eq_ok_iff_fixedBy`: what members fix is what is read;
* `Options.exists_fixedBy_iff`: which members fix any;
* `Options.SameMembers`: members that differ only in their order and in what has other keys.
-/

namespace CellAlign

open Json
open Json.Numeral (EndsNumeral)
open Json.Skip (Derivable)

/-! ## What members fix -/

/-- The tokens that the members of an object fix: each the string of its key, or its default. -/
structure ClassNames.FixedBy (tokens : List (String × Value)) (classes : ClassNames) : Prop where
  center : Fixes IsText ({} : ClassNames).center (valuesOf "center" tokens) classes.center
  left : Fixes IsText ({} : ClassNames).left (valuesOf "left" tokens) classes.left
  right : Fixes IsText ({} : ClassNames).right (valuesOf "right" tokens) classes.right

/-- Tokens are given by an object whose members fix them. -/
def ClassNames.GivenBy (value : Value) (classes : ClassNames) : Prop :=
  ∃ tokens, value = .object tokens ∧ FixedBy tokens classes

/-- A method is given by its name. -/
def Method.GivenBy (value : Value) (method : Method) : Prop :=
  ∃ name, value = .string name ∧ Method.ofName name = .ok method

/-- The options that the members of an object fix. -/
structure Options.FixedBy (members : List (String × Value)) (options : Options) : Prop where
  classes : Fixes ClassNames.GivenBy ({} : Options).classes (valuesOf "classes" members)
    options.classes
  method : Fixes Method.GivenBy ({} : Options).method (valuesOf "method" members) options.method

/-! ## Texts and values -/

section

variable {α : Type} {depth : Nat} {text : List Char} {texts : List (String × List Char)}
  {key : String} {members : List (String × Value)}

/-- The values of a key stand in the members with its name. -/
theorem forall₂_valuesOf (h : List.Forall₂ (StandsFor depth) texts members) (key : String) :
    List.Forall₂ (fun text value => Denotes depth text.2 value) (texts.filter (·.1 = key))
      (valuesOf key members) := by
  induction h with
  | nil => exact .nil
  | @cons text member texts members hfirst _ ih =>
      obtain ⟨name, value⟩ := member
      obtain ⟨rfl, hvalue⟩ := hfirst
      by_cases hname : text.1 = key
      · rw [List.filter_cons_of_pos (by simpa using hname), ← hname, valuesOf_cons_self, hname]
        exact .cons hvalue ih
      · rwa [List.filter_cons_of_neg (by simpa using hname), valuesOf_cons_of_ne hname]

/-- What members say of a name, or the default if they say nothing, is what its values fix. -/
theorem exists_holds_iff (h : List.Forall₂ (StandsFor depth) texts members)
    {means : List Char → α → Prop} {means' : Value → α → Prop} {default a : α}
    (hmeans : ∀ text value, Denotes depth text value → (key, value) ∈ members →
      ∀ a, means text a ↔ means' value a) :
    (∃ found, Holds texts key means found ∧ found.getD default = a) ↔
      Fixes means' default (valuesOf key members) a := by
  have hvalues := forall₂_valuesOf h key
  have hsame : ∀ value ∈ valuesOf key members, ∀ text, Denotes depth text value →
      (means text a ↔ means' value a) :=
    fun value hvalue text htext => hmeans text value htext (mem_valuesOf.mp hvalue) a
  generalize valuesOf key members = values at hvalues hsame
  constructor
  · rintro ⟨found, hholds, rfl⟩
    cases found with
    | none =>
        have hnone : texts.filter (·.1 = key) = [] := by
          simpa [List.filter_eq_nil_iff, Holds] using hholds
        rw [hnone] at hvalues
        cases hvalues
        exact .default
    | some a =>
        obtain ⟨text, hfilter, hmeaning⟩ := hholds
        rw [hfilter] at hvalues
        cases hvalues with
        | cons hvalue hnil =>
            cases hnil
            exact .value ((hsame _ List.mem_cons_self _ hvalue).mp hmeaning)
  · intro hfixes
    cases hfixes with
    | default =>
        have hnone := List.filter_eq_nil_iff.mp (List.forall₂_nil_right_iff.mp hvalues)
        exact ⟨none, by simpa [Holds] using hnone, rfl⟩
    | value hmeaning =>
        obtain ⟨⟨name, text⟩, others, hvalue, hnil, hfilter⟩ :=
          List.forall₂_cons_right_iff.mp hvalues
        obtain rfl := List.forall₂_nil_right_iff.mp hnil
        have hname : name = key := by
          have hmem : (name, text) ∈ texts.filter (·.1 = key) := hfilter ▸ List.mem_cons_self
          simpa using (List.mem_filter.mp hmem).2
        subst hname
        exact ⟨some a, ⟨text, hfilter, (hsame _ List.mem_cons_self _ hvalue).mpr hmeaning⟩, rfl⟩

/-- A text that stands for an object is one record, and what is said of its members is said of what
stands for those of the object. -/
theorem exists_record_iff (h : Denotes depth text (.object members)) :
    ∃ inner texts, List.Forall₂ (StandsFor inner) texts members ∧
      ∀ (names : List String) (asked : List (String × List Char) → Prop),
        (∀ texts, asked texts → ∀ t ∈ texts, t.1 ∈ names → Derivable .value t.2) →
        ((∃ texts, Record names text texts ∧ asked texts) ↔ asked texts) := by
  obtain ⟨inner, row, texts, rfl, hrow, rfl, hstands⟩ := h.exists_row
  have hderivable := derivable_of_standsFor hstands
  refine ⟨inner, texts, hstands, fun names asked hasked => ⟨?_, fun htexts => ?_⟩⟩
  · rintro ⟨texts', hrecord, htexts⟩
    generalize heq : '\x7b' :: (row ++ ['\x7d']) = text at hrecord
    cases hrecord with
    | array => cases heq
    | object hrow' hothers =>
        have hderivable' : ∀ t ∈ texts', Derivable .value t.2 := by
          intro t ht
          by_cases hname : t.1 ∈ names
          · exact hasked texts' htexts t ht hname
          · exact hothers t ht hname
        obtain rfl := hrow.eq_of_append hrow' (Or.inl rfl) hderivable hderivable'
          (List.cons.inj heq).2
        exact htexts
  · exact ⟨texts, .object hrow fun t ht _ => hderivable t ht, htexts⟩

end

/-! ## What texts of values mean -/

section

variable {depth : Nat} {text : List Char} {value : Value}

/-- A text is a string if what it stands for is. -/
theorem isString_iff (h : Denotes depth text value) {string : String} :
    IsString text string ↔ IsText value string := by
  have hempty : IsGap [] := nofun
  constructor
  · intro hstring
    have hread : readString "" text = .ok (string, []) :=
      readString_eq_ok_iff_isString.mpr ⟨[], text, by simp, hempty, hstring⟩
    have hvalue : readValue depth text = .ok (.string string, []) :=
      (readString_eq_ok_iff "").mp hread
    exact (Prod.mk.inj (Except.ok.inj (h.readValue_eq.symm.trans hvalue))).1
  · rintro rfl
    obtain ⟨gap, inner, htext, hgap, hstring⟩ :=
      readString_eq_ok_iff_isString.mp ((readString_eq_ok_iff "").mpr h.readValue_eq)
    have hends : EndsNumeral [] := nofun
    obtain ⟨rfl, -⟩ := eq_of_gap_append hempty hgap h.derivable hstring.derivable hends hends
      (by simpa using htext)
    exact hstring

/-- A text is a method if what it stands for gives one, and is no object. -/
theorem isMethod_iff (h : Denotes depth text value) (hplain : ∀ fields, value ≠ .object fields)
    (method : Method) : Options.IsMethod text method ↔ Method.GivenBy value method := by
  have hgiven : Method.GivenBy value method ↔ IsText value method.name := by
    constructor
    · rintro ⟨name, rfl, hname⟩
      unfold Method.ofName at hname
      split at hname
      · next found hfound =>
        cases hname
        rw [Method.ofName?_eq_some_iff.mp hfound]
        rfl
      · cases hname
    · rintro rfl
      refine ⟨method.name, rfl, ?_⟩
      rw [Method.ofName, Method.ofName?_eq_some_iff.mpr rfl]
  rw [hgiven, ← isString_iff h, Options.IsMethod]
  constructor
  · intro hnames
    generalize hname : method.name = name at hnames
    cases hnames with
    | string found hstring => exact hstring
    | object =>
        obtain ⟨fields, rfl⟩ := h.exists_object
        exact absurd rfl (hplain fields)
  · exact NamesMethod.string method

end

namespace ClassNames

variable {depth : Nat} {text : List Char} {value : Value} {tokens : List (String × Value)}
  {texts : List (String × List Char)} {classes : ClassNames}

/-- The tokens that members state are those that what they stand for fixes. -/
theorem exists_draft_iff (h : List.Forall₂ (StandsFor depth) texts tokens) :
    (∃ draft : Draft, draft.Holds texts ∧ draft.finish = classes) ↔ FixedBy tokens classes := by
  have hiff (key default a : String) :
      (∃ found, Holds texts key IsString found ∧ found.getD default = a) ↔
        Fixes IsText default (valuesOf key tokens) a :=
    exists_holds_iff h fun _ _ htext _ _ => isString_iff htext
  obtain ⟨center, left, right⟩ := classes
  constructor
  · rintro ⟨⟨c, l, r⟩, hholds, hfinish⟩
    obtain ⟨hcenter, hleft, hright⟩ := Draft.holds_iff.mp hholds
    cases hfinish
    exact ⟨(hiff _ _ _).mp ⟨c, hcenter, rfl⟩, (hiff _ _ _).mp ⟨l, hleft, rfl⟩,
      (hiff _ _ _).mp ⟨r, hright, rfl⟩⟩
  · rintro ⟨hcenter, hleft, hright⟩
    obtain ⟨c, hc, rfl⟩ := (hiff _ _ _).mpr hcenter
    obtain ⟨l, hl, rfl⟩ := (hiff _ _ _).mpr hleft
    obtain ⟨r, hr, rfl⟩ := (hiff _ _ _).mpr hright
    exact ⟨⟨c, l, r⟩, Draft.holds_iff.mpr ⟨hc, hl, hr⟩, rfl⟩

/-- A text states the tokens that what it stands for gives, if that is no array. -/
theorem isStated_iff (h : Denotes depth text value) (hplain : ∀ items, value ≠ .array items)
    (classes : ClassNames) : IsStated text classes ↔ GivenBy value classes := by
  have hobject (tokens : List (String × Value)) (h : Denotes depth text (.object tokens)) :
      IsStated text classes ↔ FixedBy tokens classes := by
    obtain ⟨inner, texts, hstands, hrecord⟩ := exists_record_iff h
    rw [← exists_draft_iff hstands]
    exact exists_congr fun draft =>
      and_congr_left' (hrecord names draft.Holds fun _ hholds => Draft.Holds.derivable hholds)
  constructor
  · intro hstated
    have hparts := hstated
    obtain ⟨draft, ⟨texts, hrecord, -⟩, -⟩ := hparts
    cases hrecord with
    | object =>
        obtain ⟨tokens, rfl⟩ := h.exists_object
        exact ⟨tokens, rfl, (hobject tokens h).mp hstated⟩
    | array =>
        obtain ⟨items, rfl⟩ := h.exists_array
        exact absurd rfl (hplain items)
  · rintro ⟨tokens, rfl, hfixed⟩
    exact (hobject tokens h).mpr hfixed

end ClassNames

namespace Options

variable {depth : Nat} {members : List (String × Value)} {texts : List (String × List Char)}
  {options : Options}

/-- What is asked of a member if its value is to be all that matters: the method does not come as
an object, nor the tokens as an array. -/
structure Plain (member : String × Value) : Prop where
  method (h : member.1 = "method") : ∀ fields, member.2 ≠ .object fields
  classes (h : member.1 = "classes") : ∀ items, member.2 ≠ .array items

/-- The options that members state are those that what they stand for fixes. -/
theorem exists_draft_iff (h : List.Forall₂ (StandsFor depth) texts members)
    (hplain : ∀ m ∈ members, Plain m) :
    (∃ draft : Draft, draft.Holds texts ∧ draft.finish = options) ↔ FixedBy members options := by
  have hclass (a : ClassNames) :
      (∃ found, CellAlign.Holds texts "classes" ClassNames.IsStated found ∧ found.getD {} = a) ↔
        Fixes ClassNames.GivenBy {} (valuesOf "classes" members) a :=
    exists_holds_iff h fun _ _ htext hmem =>
      ClassNames.isStated_iff htext ((hplain _ hmem).classes rfl)
  have hname (a : Method) :
      (∃ found, CellAlign.Holds texts "method" IsMethod found ∧ found.getD .byStyle = a) ↔
        Fixes Method.GivenBy .byStyle (valuesOf "method" members) a :=
    exists_holds_iff h fun _ _ htext hmem => isMethod_iff htext ((hplain _ hmem).method rfl)
  obtain ⟨classes, method⟩ := options
  constructor
  · rintro ⟨⟨c, m⟩, ⟨hclasses, hmethod⟩, hfinish⟩
    cases hfinish
    exact ⟨(hclass _).mp ⟨c, hclasses, rfl⟩, (hname _).mp ⟨m, hmethod, rfl⟩⟩
  · rintro ⟨hclasses, hmethod⟩
    obtain ⟨c, hc, rfl⟩ := (hclass _).mpr hclasses
    obtain ⟨m, hm, rfl⟩ := (hname _).mpr hmethod
    exact ⟨⟨c, m⟩, ⟨hc, hm⟩, rfl⟩

/-- Options are what the members of their object fix. -/
theorem ofJson_eq_ok_iff_fixedBy {text : String}
    (hread : readWhole readValue text = .ok (.object members))
    (hplain : ∀ m ∈ members, Plain m) : ofJson text = .ok options ↔ FixedBy members options := by
  obtain ⟨before, inner, after, htext, hbefore, hafter, hinner⟩ :=
    (readWhole_eq_ok_iff_of_understands (understands_readValue nestingLimit)).mp hread
  obtain ⟨room, texts, hstands, hrecord⟩ := exists_record_iff hinner
  have hiff (draft : Draft) :
      (∃ texts, Record names inner texts ∧ draft.Holds texts) ↔ draft.Holds texts :=
    hrecord names draft.Holds fun _ hholds => Draft.Holds.derivable hholds
  rw [ofJson_eq_ok_iff, ← exists_draft_iff hstands hplain]
  constructor
  · rintro ⟨stated, ⟨before', value, after', htext', hbefore', hafter', hstated⟩, hvalue⟩
    obtain ⟨draft, hdraft, hfinish⟩ := exists_statesChoices_iff.mpr ⟨stated, hstated, hvalue⟩
    obtain ⟨texts', hrecord', hholds⟩ := hdraft
    -- Between gaps there is one value only, so the record is what stands for the object.
    obtain ⟨rfl, -⟩ := eq_of_gap_append hbefore hbefore' hinner.derivable
      (hrecord'.derivable (Draft.Holds.derivable hholds)) (endsNumeral_gap hafter)
      (endsNumeral_gap hafter') (htext.symm.trans htext')
    exact ⟨draft, (hiff draft).mp ⟨texts', hrecord', hholds⟩, hfinish⟩
  · rintro ⟨draft, hholds, hfinish⟩
    obtain ⟨stated, hstated, hvalue⟩ :=
      exists_statesChoices_iff.mp ⟨draft, (hiff draft).mpr hholds, hfinish⟩
    exact ⟨stated, ⟨before, inner, after, htext, hbefore, hafter, hstated⟩, hvalue⟩

end Options

/-! ## Which members fix options -/

/-- The members of the tokens are in order if each key comes once at most, with a string. -/
def ClassNames.WellFormed (tokens : List (String × Value)) : Prop :=
  ∀ key ∈ names, (valuesOf key tokens).length ≤ 1 ∧
    ∀ value, (key, value) ∈ tokens → ∃ string, value = .string string

/-- Members in order fix tokens. -/
theorem ClassNames.exists_fixedBy_iff {tokens : List (String × Value)} :
    (∃ classes, FixedBy tokens classes) ↔ WellFormed tokens := by
  have hiff (key default : String) : (∃ a, Fixes IsText default (valuesOf key tokens) a) ↔
      (valuesOf key tokens).length ≤ 1 ∧
        ∀ value, (key, value) ∈ tokens → ∃ string, value = .string string := by
    simp only [exists_fixes_iff, mem_valuesOf, IsText]
  simp only [WellFormed, names, List.forall_mem_cons, List.not_mem_nil, false_implies,
    implies_true, and_true]
  rw [← hiff "center" "center", ← hiff "left" "left", ← hiff "right" "right"]
  constructor
  · rintro ⟨classes, hcenter, hleft, hright⟩
    exact ⟨⟨_, hcenter⟩, ⟨_, hleft⟩, _, hright⟩
  · rintro ⟨⟨center, hcenter⟩, ⟨left, hleft⟩, right, hright⟩
    exact ⟨⟨center, left, right⟩, hcenter, hleft, hright⟩

/-- The members of options are in order if neither key is repeated, the method comes by its name,
and the tokens as an object with members in order. -/
structure Options.WellFormed (members : List (String × Value)) : Prop where
  once (key : String) (hkey : key ∈ names) : (valuesOf key members).length ≤ 1
  method (value : Value) (h : ("method", value) ∈ members) :
    ∃ name method, value = .string name ∧ Method.ofName name = .ok method
  classes (value : Value) (h : ("classes", value) ∈ members) :
    ∃ tokens, value = .object tokens ∧ ClassNames.WellFormed tokens

/-- Members in order fix options. -/
theorem Options.exists_fixedBy_iff {members : List (String × Value)} :
    (∃ options, FixedBy members options) ↔ WellFormed members := by
  constructor
  · rintro ⟨options, hclasses, hmethod⟩
    obtain ⟨hclassesOnce, hclasses⟩ := exists_fixes_iff.mp ⟨_, hclasses⟩
    obtain ⟨hmethodOnce, hmethod⟩ := exists_fixes_iff.mp ⟨_, hmethod⟩
    refine ⟨by simp [names, hclassesOnce, hmethodOnce], fun value hvalue => ?_,
      fun value hvalue => ?_⟩
    · obtain ⟨method, name, rfl, hname⟩ := hmethod value (mem_valuesOf.mpr hvalue)
      exact ⟨name, method, rfl, hname⟩
    · obtain ⟨classes, tokens, rfl, hfixed⟩ := hclasses value (mem_valuesOf.mpr hvalue)
      exact ⟨tokens, rfl, ClassNames.exists_fixedBy_iff.mp ⟨classes, hfixed⟩⟩
  · rintro ⟨honce, hmethod, hclasses⟩
    have hclass : ∃ classes, Fixes ClassNames.GivenBy ({} : Options).classes
        (valuesOf "classes" members) classes := by
      refine exists_fixes_iff.mpr ⟨honce "classes" (by decide), fun value hvalue => ?_⟩
      obtain ⟨tokens, rfl, htokens⟩ := hclasses value (mem_valuesOf.mp hvalue)
      obtain ⟨classes, hfixed⟩ := ClassNames.exists_fixedBy_iff.mpr htokens
      exact ⟨classes, tokens, rfl, hfixed⟩
    have hname : ∃ method, Fixes Method.GivenBy ({} : Options).method
        (valuesOf "method" members) method := by
      refine exists_fixes_iff.mpr ⟨honce "method" (by decide), fun value hvalue => ?_⟩
      obtain ⟨name, method, rfl, hname⟩ := hmethod value (mem_valuesOf.mp hvalue)
      exact ⟨method, name, rfl, hname⟩
    obtain ⟨classes, hclasses⟩ := hclass
    obtain ⟨method, hmethod⟩ := hname
    exact ⟨⟨classes, method⟩, hclasses, hmethod⟩

/-! ## Members that make no difference -/

/-- Two objects have the same values for the key of each token, in any order. -/
def ClassNames.SameMembers (tokens tokens' : List (String × Value)) : Prop :=
  ∀ key ∈ names, (valuesOf key tokens).Perm (valuesOf key tokens')

/-- Two values for the tokens that are equal, or objects with the same values for each key. -/
inductive ClassNames.SameValue : Value → Value → Prop
  | refl (value : Value) : SameValue value value
  | object {tokens tokens' : List (String × Value)} (h : SameMembers tokens tokens') :
      SameValue (.object tokens) (.object tokens')

/-- Two objects that have the same values for the method and for the tokens, in any order, where the
values for the tokens may in turn differ in what is no token, and in their order. -/
structure Options.SameMembers (members members' : List (String × Value)) : Prop where
  method : (valuesOf "method" members).Perm (valuesOf "method" members')
  classes : ∃ between, (valuesOf "classes" members).Perm between ∧
    List.Forall₂ ClassNames.SameValue between (valuesOf "classes" members')

/-- Where the values for the tokens are the same, one is an array if the other is. -/
theorem ClassNames.array_mem_of_sameValue {values values' : List Value}
    (h : List.Forall₂ SameValue values values') {items : List Value}
    (hitems : .array items ∈ values') : .array items ∈ values := by
  induction h with
  | nil => cases hitems
  | cons hvalue _ ih =>
      rcases List.mem_cons.mp hitems with rfl | hitems
      · cases hvalue
        exact List.mem_cons_self
      · exact List.mem_cons_of_mem _ (ih hitems)

/-- The same values for the keys of the tokens fix the same tokens. -/
theorem ClassNames.SameMembers.fixedBy_iff {tokens tokens' : List (String × Value)}
    (h : SameMembers tokens tokens') {classes : ClassNames} :
    FixedBy tokens classes ↔ FixedBy tokens' classes := by
  have hcenter := h "center" (by decide)
  have hleft := h "left" (by decide)
  have hright := h "right" (by decide)
  constructor
  · rintro ⟨c, l, r⟩
    exact ⟨(fixes_perm hcenter).mp c, (fixes_perm hleft).mp l, (fixes_perm hright).mp r⟩
  · rintro ⟨c, l, r⟩
    exact ⟨(fixes_perm hcenter).mpr c, (fixes_perm hleft).mpr l, (fixes_perm hright).mpr r⟩

/-- The same values give the same tokens. -/
theorem ClassNames.SameValue.givenBy_iff {value value' : Value} (h : SameValue value value')
    {classes : ClassNames} : GivenBy value classes ↔ GivenBy value' classes := by
  cases h with
  | refl => exact Iff.rfl
  | object h => simp [GivenBy, h.fixedBy_iff]

/-- The same members fix the same options. -/
theorem Options.SameMembers.fixedBy_iff {members members' : List (String × Value)}
    (h : SameMembers members members') {options : Options} :
    FixedBy members options ↔ FixedBy members' options := by
  obtain ⟨between, hperm, hsame⟩ := h.classes
  have hmeans : List.Forall₂ (fun value value' => ∀ classes,
      ClassNames.GivenBy value classes ↔ ClassNames.GivenBy value' classes) between
      (valuesOf "classes" members') := hsame.imp fun _ _ hvalue _ => hvalue.givenBy_iff
  constructor
  · rintro ⟨c, m⟩
    exact ⟨(fixes_congr hperm hmeans).mp c, (fixes_perm h.method).mp m⟩
  · rintro ⟨c, m⟩
    exact ⟨(fixes_congr hperm hmeans).mpr c, (fixes_perm h.method).mpr m⟩

/-- If the text of an object can be read as a value, and in it the method does not come as an object
nor the tokens as an array, then options are read from it just if its members are in order; they are
what the members fix; and they are the same for all objects with the same members, whatever else
these hold. -/
theorem Options.ofJson_of_known_members {text : String} {members : List (String × Value)}
    (hread : readWhole readValue text = .ok (.object members))
    (hmethod : ∀ fields, ("method", .object fields) ∉ members)
    (hclasses : ∀ items, ("classes", .array items) ∉ members) :
    ((∃ options, ofJson text = .ok options) ↔ WellFormed members) ∧
      (∀ options, ofJson text = .ok options ↔ FixedBy members options) ∧
      ∀ text' members', readWhole readValue text' = .ok (.object members') →
        SameMembers members members' →
        ∀ options, ofJson text = .ok options ↔ ofJson text' = .ok options := by
  have hplain {members : List (String × Value)}
      (hmethod : ∀ fields, ("method", .object fields) ∉ members)
      (hclasses : ∀ items, ("classes", .array items) ∉ members) : ∀ m ∈ members, Plain m := by
    rintro ⟨key, value⟩ hm
    refine ⟨?_, ?_⟩
    · rintro rfl fields rfl
      exact hmethod fields hm
    · rintro rfl items rfl
      exact hclasses items hm
  have hfixed (options : Options) : ofJson text = .ok options ↔ FixedBy members options :=
    ofJson_eq_ok_iff_fixedBy hread (hplain hmethod hclasses)
  refine ⟨?_, hfixed, fun text' members' hread' hsame options => ?_⟩
  · simp only [hfixed, exists_fixedBy_iff]
  · have hmethod' : ∀ fields, ("method", .object fields) ∉ members' := by
      intro fields hm
      exact hmethod fields (mem_valuesOf.mp (hsame.method.mem_iff.mpr (mem_valuesOf.mpr hm)))
    have hclasses' : ∀ items, ("classes", .array items) ∉ members' := by
      intro items hm
      obtain ⟨between, hperm, hvalues⟩ := hsame.classes
      have hmem := ClassNames.array_mem_of_sameValue hvalues (mem_valuesOf.mpr hm)
      exact hclasses items (mem_valuesOf.mp (hperm.mem_iff.mpr hmem))
    rw [hfixed, hsame.fixedBy_iff, ofJson_eq_ok_iff_fixedBy hread' (hplain hmethod' hclasses')]

/-- Where only the token for `left` is given, the others have their defaults, and members with other
keys make no difference; but the method must not come twice. -/
theorem Options.ofJson_of_known_members_left :
    let options : Options := { classes := { left := "l" }, method := .byClass }
    ofJson
      "\x7b\"x\":[],\"method\":\"class\",\"x\":[],\"classes\":\x7b\"x\":[],\"left\":\"l\"\x7d\x7d" =
        .ok options ∧
    ofJson "\x7b\"classes\":\x7b\"left\":\"l\"\x7d,\"method\":\"class\"\x7d" = .ok options ∧
    ¬∃ options, ofJson "\x7b\"method\":\"class\",\"method\":\"class\"\x7d" = .ok options := by
  intro options
  let tokens : List (String × Value) := [("x", .array []), ("left", .string "l")]
  let members : List (String × Value) :=
    [("x", .array []), ("method", .string "class"), ("x", .array []), ("classes", .object tokens)]
  let members' : List (String × Value) :=
    [("classes", .object [("left", .string "l")]), ("method", .string "class")]
  let members'' : List (String × Value) :=
    [("method", .string "class"), ("method", .string "class")]
  have hvalue : readValue nestingLimit (String.toList
      "\x7b\"x\":[],\"method\":\"class\",\"x\":[],\"classes\":\x7b\"x\":[],\"left\":\"l\"\x7d\x7d")
      = .ok (.object members, []) := by
    simp only [String.reduceToList]
    rfl
  have hvalue' : readValue nestingLimit
      "\x7b\"classes\":\x7b\"left\":\"l\"\x7d,\"method\":\"class\"\x7d".toList =
      .ok (.object members', []) := by
    simp only [String.reduceToList]
    rfl
  have hvalue'' : readValue nestingLimit
      "\x7b\"method\":\"class\",\"method\":\"class\"\x7d".toList =
      .ok (.object members'', []) := by
    simp only [String.reduceToList]
    rfl
  have hread {text : String} {members : List (String × Value)}
      (h : readValue nestingLimit text.toList = .ok (.object members, [])) :
      readWhole readValue text = .ok (.object members) := readWhole_eq_ok_iff.mpr ⟨[], h, rfl⟩
  have hkeys : ∀ key ∈ ClassNames.names, (valuesOf key tokens).Perm
      (valuesOf key [("left", .string "l")]) := by
    simp [ClassNames.names, valuesOf, tokens]
  have hsame : SameMembers members members' := by
    refine ⟨by simp [valuesOf, members, members'], [.object tokens],
      by simp [valuesOf, members], ?_⟩
    simpa [valuesOf, members'] using ClassNames.SameValue.object hkeys
  have hgiven : ClassNames.GivenBy (.object [("left", .string "l")]) options.classes :=
    ⟨_, rfl, .default, .value rfl, .default⟩
  have hfixed : FixedBy members' options := ⟨.value hgiven, .value ⟨"class", rfl, rfl⟩⟩
  obtain ⟨-, hoptions, hothers⟩ := ofJson_of_known_members (hread hvalue)
    (by simp [members]) (by simp [members])
  obtain ⟨hnone, -⟩ := ofJson_of_known_members (hread hvalue'')
    (by simp [members'']) (by simp [members''])
  have hfound := (hoptions options).mpr (hsame.fixedBy_iff.mpr hfixed)
  refine ⟨hfound, (hothers _ members' (hread hvalue') hsame options).mp hfound, fun h => ?_⟩
  have honce := (hnone.mp h).once "method" (by decide)
  simp [valuesOf, members''] at honce

end CellAlign
