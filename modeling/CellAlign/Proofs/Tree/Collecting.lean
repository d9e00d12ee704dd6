import CellAlign.Proofs.Align.Cleared
import CellAlign.Proofs.Tree.AttributeOrder
import CellAlign.Proofs.Tree.Grammar
import CellAlign.Proofs.Tree.Outermost

/-!
# Members collected into properties

An object of properties may have any members, and keys may come more than once.  Known keys and all
others follow opposite rules: a known key that comes again is refused, and of any other the last
value counts, in the place where the key came first.  Null is no value of a known key, and any other
key keeps it.  No value may have an object in it, even if a later one takes its place.

* `PropertyValue.exists_plain_iff`: the values that have no object in them;
* `Properties.Draft.entries_eq_ok_iff_collected`: the entries that members are collected into;
* `Properties.exists_ofMembers_iff`, `Properties.ofMembers_eq_ok_iff_collected`: the members that
  are accepted, and the properties they are collected into;
* `Properties.ofJson_eq_ok_iff`: the texts of properties;
* `Properties.ofJson_of_object`: all of this for the text of an object.
-/

namespace CellAlign

open Json (Value Cause Follows valuesOf mem_valuesOf readValue readEnd nestingLimit)
open Json.Value (Within)

/-! ## Values without objects -/

namespace PropertyValue

mutual

/-- A value is plain if and only if no object stands in it. -/
theorem exists_plain_iff : (value : Value) →
    ((∃ v, Plain value v) ↔ ∀ fields, ¬Within (.object fields) value)
  | .null | .bool _ | .number _ | .string _ => by
      constructor
      · intro _ fields h
        cases h
      · intro _
        exact ⟨_, by constructor⟩
  | .array items => by
      have hitems := exists_forall₂_plain_iff items
      constructor
      · intro h fields hwithin
        obtain ⟨_, hlist⟩ := h
        cases hlist with
        | list hvalues =>
            cases hwithin with
            | inItem hitem hwithin => exact hitems.mp ⟨_, hvalues⟩ _ hitem fields hwithin
      · intro h
        obtain ⟨values, hvalues⟩ :=
          hitems.mpr fun item hitem fields hwithin => h fields (.inItem hitem hwithin)
        exact ⟨.list values, .list hvalues⟩
  | .object members => by
      constructor
      · intro h
        obtain ⟨_, hplain⟩ := h
        cases hplain
      · intro h
        exact absurd (.here _) (h members)

/-- Items are plain if and only if no object stands in any of them. -/
theorem exists_forall₂_plain_iff : (items : List Value) →
    ((∃ values, List.Forall₂ Plain items values) ↔
      ∀ item ∈ items, ∀ fields, ¬Within (.object fields) item)
  | [] => by
      constructor
      · intro _ item hitem
        cases hitem
      · intro _
        exact ⟨[], .nil⟩
  | item :: items => by
      have hitem := exists_plain_iff item
      have hitems := exists_forall₂_plain_iff items
      rw [List.forall_mem_cons, ← hitem, ← hitems]
      constructor
      · intro h
        obtain ⟨_, hvalues⟩ := h
        cases hvalues with
        | cons hfirst hrest => exact ⟨⟨_, hfirst⟩, _, hrest⟩
      · intro h
        obtain ⟨⟨v, hfirst⟩, values, hrest⟩ := h
        exact ⟨v :: values, .cons hfirst hrest⟩

end

/-- A known property is decoded from what is plain. -/
theorem exists_decodeKnown_iff {value : Value} :
    (∃ found, decodeKnown value = .ok found) ↔ ∃ v, Plain value v := by
  simp only [decodeKnown_eq_ok_iff]
  constructor
  · intro h
    obtain ⟨_, ⟨rfl, -⟩ | ⟨-, v, hv, -⟩⟩ := h
    · exact ⟨.null, .null⟩
    · exact ⟨v, hv⟩
  · intro h
    obtain ⟨v, hv⟩ := h
    by_cases hnull : value = .null
    · exact ⟨none, .inl ⟨hnull, rfl⟩⟩
    · exact ⟨some v, .inr ⟨hnull, v, hv, rfl⟩⟩

end PropertyValue

/-! ## Fields -/

/-- Members give a field if they have one value for its key at most, and that can be decoded. -/
theorem exists_field_iff {α : Type} {decode : Value → Except Cause α} {key : String}
    {members : List (String × Value)} :
    (∃ found, Field decode key members found) ↔
      (valuesOf key members).length ≤ 1 ∧
        ∀ value, (key, value) ∈ members → ∃ a, decode value = .ok a := by
  constructor
  · intro h
    obtain ⟨_, hfield⟩ := h
    cases hfield with
    | absent hnone =>
        refine ⟨by simp [hnone], fun value hmem => ?_⟩
        have hvalue := mem_valuesOf.mpr hmem
        rw [hnone] at hvalue
        cases hvalue
    | present hone hdecode =>
        refine ⟨by simp [hone], fun value hmem => ?_⟩
        have hvalue := mem_valuesOf.mpr hmem
        rw [hone] at hvalue
        exact ⟨_, List.mem_singleton.mp hvalue ▸ hdecode⟩
  · intro h
    obtain ⟨hone, hall⟩ := h
    by_cases hmem : ∃ value, (key, value) ∈ members
    · obtain ⟨value, hmem⟩ := hmem
      obtain ⟨a, hdecode⟩ := hall value hmem
      exact ⟨some a, (field_iff hone).mpr (.inr ⟨value, a, hmem, hdecode, rfl⟩)⟩
    · exact ⟨none, (field_iff hone).mpr (.inl ⟨rfl, not_exists.mp hmem⟩)⟩

namespace Properties

variable {members : List (String × Value)} {properties : Properties}

/-! ## Entries -/

/-- The entries that members are collected into: each key once, where it came first, and with the
value that came last. -/
structure CollectedEntries (members : List (String × Value)) (other : Entries PropertyValue) :
    Prop where
  keys : other.keys = (members.map Prod.fst).eraseDups
  values : ∀ entry ∈ other, ∃ value,
    (valuesOf entry.1 members).getLast? = some value ∧ PropertyValue.Plain value entry.2

/-- Members are collected into no more than one row of entries. -/
theorem CollectedEntries.eq_filterMap {other : Entries PropertyValue}
    (h : CollectedEntries members other) :
    other = (members.map Prod.fst).eraseDups.filterMap fun key =>
      ((valuesOf key members).getLast?.bind PropertyValue.ofValue?).map fun v => (key, v) := by
  have hentry : ∀ entry ∈ other,
      ((valuesOf entry.1 members).getLast?.bind PropertyValue.ofValue?).map
        (fun v => (entry.1, v)) = some entry := by
    intro entry hmem
    obtain ⟨value, hlast, hplain⟩ := h.values entry hmem
    rw [hlast, Option.bind_some, (PropertyValue.ofValue?_eq_some_iff _ _).mpr hplain]
    rfl
  rw [← h.keys, Entries.keys, List.filterMap_map]
  calc
    other = other.filterMap some := List.filterMap_some.symm
    _ = other.filterMap _ := List.filterMap_congr fun entry hmem => (hentry entry hmem).symm

/-- The last member is put among the entries of those before. -/
theorem Draft.entries_concat_eq_ok_iff {seen found : Entries PropertyValue} {key : String}
    {value : Value} : entries seen (members ++ [(key, value)]) = .ok found ↔
      ∃ between v, entries seen members = .ok between ∧ PropertyValue.Plain value v ∧
        found = between.put key v := by
  induction members generalizing seen with
  | nil =>
      simp only [List.nil_append, entries, ← PropertyValue.decode_eq_ok_iff]
      cases PropertyValue.decode value <;> simp [eq_comm]
  | cons m members ih =>
      rw [List.cons_append, entries, entries]
      cases PropertyValue.decode m.2 with
      | ok v => exact ih
      | error cause => simp

/-- What members are collected into, each of them plain. -/
theorem Draft.collected_of_entries {found : Entries PropertyValue}
    (h : entries [] members = .ok found) :
    (∀ m ∈ members, ∃ v, PropertyValue.Plain m.2 v) ∧ CollectedEntries members found := by
  induction members using List.reverseRecOn generalizing found with
  | nil =>
      obtain rfl : [] = found := Except.ok.inj h
      exact ⟨nofun, rfl, nofun⟩
  | append_singleton members last ih =>
      obtain ⟨key, value⟩ := last
      obtain ⟨between, v, hbetween, hplain, rfl⟩ := Draft.entries_concat_eq_ok_iff.mp h
      obtain ⟨hbefore, hcollected⟩ := ih hbetween
      have hlast (name : String) : (valuesOf name (members ++ [(key, value)])).getLast? =
          if key = name then some value else (valuesOf name members).getLast? := by
        rw [valuesOf, List.filterMap_append]
        by_cases hname : key = name
        · simp [hname]
        · simp [hname, valuesOf]
      have hnone : (Entries.keys ([] : Entries PropertyValue)).Nodup := .nil
      have hdistinct : between.keys.Nodup := (Draft.entries_keys hnone hbetween).1
      refine ⟨fun m hm => ?_, ?_, fun entry hentry => ?_⟩
      · rcases List.mem_append.mp hm with hbehind | hm
        · exact hbefore m hbehind
        · exact List.mem_singleton.mp hm ▸ ⟨v, hplain⟩
      · rw [Entries.keys_put, hcollected.keys, List.map_append, List.eraseDups_append]
        by_cases hmem : key ∈ members.map Prod.fst
        · simp_all [List.removeAll]
        · simp_all [List.removeAll, List.eraseDups_cons]
      · have hget := (Entries.mem_iff_get?_eq_some (Entries.nodup_keys_put hdistinct key v)).mp
          hentry
        rw [Entries.get?_put] at hget
        rw [hlast]
        split at hget
        · next hname =>
          obtain rfl : v = entry.2 := Option.some.inj hget
          exact ⟨value, if_pos hname, hplain⟩
        · next hname =>
          rw [if_neg hname]
          exact hcollected.values entry (Entries.mem_of_get?_eq_some hget)

/-- Plain members are collected. -/
theorem Draft.exists_entries (seen : Entries PropertyValue)
    (h : ∀ m ∈ members, ∃ v, PropertyValue.Plain m.2 v) :
    ∃ found, entries seen members = .ok found := by
  induction members generalizing seen with
  | nil => exact ⟨seen, rfl⟩
  | cons m members ih =>
      obtain ⟨⟨v, hv⟩, hrest⟩ := List.forall_mem_cons.mp h
      obtain ⟨found, hfound⟩ := ih (seen.put m.1 v) hrest
      refine ⟨found, ?_⟩
      rw [entries, PropertyValue.decode_eq_ok_iff.mpr hv]
      exact hfound

/-- Members are collected into entries if and only if all of them are plain. -/
theorem Draft.entries_eq_ok_iff_collected {found : Entries PropertyValue} :
    entries [] members = .ok found ↔
      (∀ m ∈ members, ∃ v, PropertyValue.Plain m.2 v) ∧ CollectedEntries members found := by
  constructor
  · exact Draft.collected_of_entries
  · intro h
    obtain ⟨hplain, hcollected⟩ := h
    obtain ⟨other, hother⟩ := Draft.exists_entries [] hplain
    obtain ⟨-, hother'⟩ := Draft.collected_of_entries hother
    rw [hcollected.eq_filterMap, ← hother'.eq_filterMap]
    exact hother

/-! ## Properties -/

/-- An object of properties is refused: for a known key that comes twice, for a class that is
neither null nor a string nor an array of strings, or for any other value that has an object in
it. -/
inductive Refused (members : List (String × Value)) : Prop
  | repeated {key : String} (hkey : key ∈ ["align", "className", "style"])
      (htwice : 1 < (valuesOf key members).length)
  | className {value : Value} (h : ("className", value) ∈ members)
      (hvalue : ∀ className, ¬ClassName.Shown value className)
  | object {key : String} {value : Value} {fields : List (String × Value)}
      (h : (key, value) ∈ members) (hkey : key ≠ "className")
      (hobject : Within (.object fields) value)

/-- The properties that the members of an object are collected into: the known ones hold their
value, or none for null and for absence; each other key is there once, where it came first, and with
the value that came last. -/
structure Collected (members : List (String × Value)) (properties : Properties) : Prop where
  align : Known "align" members properties.align
  className : KnownClass members properties.className
  style : Known "style" members properties.style
  keys : properties.other.keys =
    ((members.map Prod.fst).filter fun key => key ∉ ["align", "className", "style"]).eraseDups
  values : ∀ entry ∈ properties.other, ∃ value,
    (valuesOf entry.1 members).getLast? = some value ∧ PropertyValue.Plain value entry.2

/-- The members with unknown keys are collected into entries as all members are. -/
theorem collectedEntries_filter_iff {other : Entries PropertyValue} :
    CollectedEntries (members.filter fun m => m.1 ∉ knownKeys) other ↔
      other.keys = ((members.map Prod.fst).filter fun key => key ∉ knownKeys).eraseDups ∧
        ∀ entry ∈ other, ∃ value,
          (valuesOf entry.1 members).getLast? = some value ∧ PropertyValue.Plain value entry.2 := by
  have hkeys : (members.filter fun m => m.1 ∉ knownKeys).map Prod.fst =
      (members.map Prod.fst).filter fun key => key ∉ knownKeys := by
    rw [List.filter_map]
    rfl
  have hvalues (hother : other.keys =
      ((members.map Prod.fst).filter fun key => key ∉ knownKeys).eraseDups) :
      ∀ entry ∈ other, valuesOf entry.1 (members.filter fun m => m.1 ∉ knownKeys) =
        valuesOf entry.1 members := by
    intro entry hentry
    have hmem : entry.1 ∈ other.keys := List.mem_map_of_mem hentry
    rw [hother, List.mem_eraseDups, List.mem_filter] at hmem
    exact Json.valuesOf_filter (· ∉ knownKeys) (by simpa using hmem.2) members
  constructor
  · intro h
    have hother := hkeys ▸ h.keys
    refine ⟨hother, fun entry hentry => ?_⟩
    rw [← hvalues hother entry hentry]
    exact h.values entry hentry
  · intro h
    obtain ⟨hother, hlast⟩ := h
    refine ⟨hkeys ▸ hother, fun entry hentry => ?_⟩
    rw [hvalues hother entry hentry]
    exact hlast entry hentry

/-- A known key comes at most once in members that are not refused. -/
theorem length_valuesOf_known_le_one (h : ¬Refused members) {key : String}
    (hkey : key ∈ ["align", "className", "style"]) : (valuesOf key members).length ≤ 1 := by
  by_contra hlength
  exact h (.repeated hkey (by omega))

/-- Members are accepted if and only if they are not refused. -/
theorem exists_ofMembers_iff :
    (∃ properties, ofMembers members = .ok properties) ↔ ¬Refused members := by
  have hknown (key : String) : (∃ found, Field PropertyValue.decodeKnown key members found) ↔
      (valuesOf key members).length ≤ 1 ∧
        ∀ value, (key, value) ∈ members → ∃ v, PropertyValue.Plain value v := by
    simp only [exists_field_iff, PropertyValue.exists_decodeKnown_iff]
  have hclass : (∃ found, Field ClassName.decode "className" members found) ↔
      (valuesOf "className" members).length ≤ 1 ∧
        ∀ value, ("className", value) ∈ members → ∃ c, ClassName.Shown value c := by
    simp only [exists_field_iff, ClassName.decode_eq_ok_iff]
  constructor
  · intro h hrefused
    obtain ⟨properties, hproperties⟩ := h
    obtain ⟨_, _, _, other, halign, hclassName, hstyle, hentries, -⟩ :=
      ofMembers_eq_ok_iff.mp hproperties
    obtain ⟨halignOne, halignPlain⟩ := (hknown "align").mp ⟨_, halign⟩
    obtain ⟨hclassOne, hclassShown⟩ := hclass.mp ⟨_, hclassName⟩
    obtain ⟨hstyleOne, hstylePlain⟩ := (hknown "style").mp ⟨_, hstyle⟩
    obtain ⟨hplain, -⟩ := Draft.entries_eq_ok_iff_collected.mp hentries
    cases hrefused with
    | repeated hkey htwice =>
        simp only [List.mem_cons, List.not_mem_nil, or_false] at hkey
        rcases hkey with rfl | rfl | rfl
        · omega
        · omega
        · omega
    | className hmem hvalue =>
        obtain ⟨c, hc⟩ := hclassShown _ hmem
        exact hvalue c hc
    | @object key value fields hmem hkey hobject =>
        have hvalue : ∃ v, PropertyValue.Plain value v := by
          by_cases hunknown : key ∈ knownKeys
          · simp only [knownKeys, List.mem_cons, List.not_mem_nil, or_false] at hunknown
            rcases hunknown with rfl | rfl | rfl
            · exact halignPlain value hmem
            · exact absurd rfl hkey
            · exact hstylePlain value hmem
          · exact hplain (key, value) (List.mem_filter.mpr ⟨hmem, by simpa using hunknown⟩)
        exact (PropertyValue.exists_plain_iff value).mp hvalue fields hobject
  · intro h
    have hone {key : String} (hkey : key ∈ ["align", "className", "style"]) :=
      length_valuesOf_known_le_one h hkey
    have hplain {key : String} {value : Value} (hmem : (key, value) ∈ members)
        (hkey : key ≠ "className") : ∃ v, PropertyValue.Plain value v :=
      (PropertyValue.exists_plain_iff value).mpr fun fields hobject =>
        h (.object hmem hkey hobject)
    have hshown : ∀ value, ("className", value) ∈ members → ∃ c, ClassName.Shown value c := by
      intro value hmem
      by_contra hnone
      exact h (.className hmem (not_exists.mp hnone))
    obtain ⟨align, halign⟩ :=
      (hknown "align").mpr ⟨hone (by decide), fun value hmem => hplain hmem (by decide)⟩
    obtain ⟨className, hclassName⟩ := hclass.mpr ⟨hone (by decide), hshown⟩
    obtain ⟨style, hstyle⟩ :=
      (hknown "style").mpr ⟨hone (by decide), fun value hmem => hplain hmem (by decide)⟩
    obtain ⟨other, hother⟩ : ∃ other,
        Draft.entries [] (members.filter fun m => m.1 ∉ knownKeys) = .ok other := by
      refine Draft.exists_entries [] fun m hm => ?_
      obtain ⟨hmem, hunknown⟩ := List.mem_filter.mp hm
      refine hplain hmem fun heq => ?_
      simp [heq, knownKeys] at hunknown
    exact ⟨_, ofMembers_eq_ok_iff.mpr ⟨align, className, style, other, halign, hclassName, hstyle,
      hother, rfl⟩⟩

/-- Members that are accepted are collected. -/
theorem collected_of_ofMembers (h : ofMembers members = .ok properties) :
    Collected members properties := by
  obtain ⟨align, className, style, other, halign, hclass, hstyle, hentries, rfl⟩ :=
    ofMembers_eq_ok_iff.mp h
  obtain ⟨-, hcollected⟩ := Draft.entries_eq_ok_iff_collected.mp hentries
  obtain ⟨hkeys, hvalues⟩ := collectedEntries_filter_iff.mp hcollected
  have hone {α : Type} {decode : Value → Except Cause α} {key : String} {found : Option α}
      (hfield : Field decode key members found) : (valuesOf key members).length ≤ 1 :=
    (exists_field_iff.mp ⟨found, hfield⟩).1
  exact ⟨(field_known_iff (hone halign)).mp ⟨align, halign, rfl⟩,
    (field_class_iff (hone hclass)).mp ⟨className, hclass, rfl⟩,
    (field_known_iff (hone hstyle)).mp ⟨style, hstyle, rfl⟩, hkeys, hvalues⟩

/-- Members that are not refused are accepted as what they are collected into. -/
theorem ofMembers_eq_ok_iff_collected :
    ofMembers members = .ok properties ↔ ¬Refused members ∧ Collected members properties := by
  constructor
  · intro h
    exact ⟨exists_ofMembers_iff.mp ⟨properties, h⟩, collected_of_ofMembers h⟩
  · intro h
    obtain ⟨hnot, hcollected⟩ := h
    obtain ⟨found, hfound⟩ := exists_ofMembers_iff.mpr hnot
    obtain ⟨_, _, _, other, halign, hclass, hstyle, hentries, -⟩ := ofMembers_eq_ok_iff.mp hfound
    obtain ⟨hplain, -⟩ := Draft.entries_eq_ok_iff_collected.mp hentries
    have hone {key : String} (hkey : key ∈ ["align", "className", "style"]) :=
      length_valuesOf_known_le_one hnot hkey
    obtain ⟨align', className', style', other'⟩ := properties
    obtain ⟨foundAlign, halign', rfl⟩ := (field_known_iff (hone (by decide))).mpr hcollected.align
    obtain ⟨foundClass, hclass', rfl⟩ :=
      (field_class_iff (hone (by decide))).mpr hcollected.className
    obtain ⟨foundStyle, hstyle', rfl⟩ := (field_known_iff (hone (by decide))).mpr hcollected.style
    have hentries' := Draft.entries_eq_ok_iff_collected.mpr
      ⟨hplain, collectedEntries_filter_iff.mpr ⟨hcollected.keys, hcollected.values⟩⟩
    exact ofMembers_eq_ok_iff.mpr
      ⟨foundAlign, foundClass, foundStyle, other', halign', hclass', hstyle', hentries', rfl⟩

/-! ## Texts -/

namespace Draft

/-- Members are taken in one part after the other. -/
theorem takeAll_append_eq_ok_iff {draft next : Draft} {before behind : List (String × Value)} :
    draft.takeAll (before ++ behind) = .ok next ↔
      ∃ between, draft.takeAll before = .ok between ∧ between.takeAll behind = .ok next := by
  induction before generalizing draft with
  | nil => simp [takeAll]
  | cons m before ih =>
      rw [List.cons_append, takeAll, takeAll]
      cases draft.checkKey m.1 with
      | error cause => simp
      | ok =>
          cases draft.take m.1 m.2 with
          | error cause => simp
          | ok taken => exact ih

/-- One member is taken in if its key is checked and its value is taken. -/
theorem takeAll_singleton_eq_ok_iff {draft next : Draft} {key : String} {value : Value} :
    draft.takeAll [(key, value)] = .ok next ↔
      draft.checkKey key = .ok () ∧ draft.take key value = .ok next := by
  rw [takeAll]
  cases draft.checkKey key with
  | error cause => simp
  | ok => cases draft.take key value <;> simp [takeAll]

/-- A draft holds the members of an object that were read, last first. -/
def Holds (draft : Draft) (members : List (String × Value)) : Prop :=
  ({} : Draft).takeAll members.reverse = .ok draft

/-- An empty draft holds no members. -/
theorem holds_empty : ({} : Draft).Holds [] := rfl

/-- A draft holds one more member if that is taken in. -/
theorem holds_cons_iff {next : Draft} {key : String} {value : Value} :
    next.Holds ((key, value) :: members) ↔
      ∃ draft : Draft, draft.Holds members ∧ draft.checkKey key = .ok () ∧
        draft.take key value = .ok next := by
  rw [Holds, List.reverse_cons, takeAll_append_eq_ok_iff]
  simp only [takeAll_singleton_eq_ok_iff, Holds]

end Draft

/-- A member of the outermost object is read if its key is checked and its value is read and
taken. -/
theorem readMember_eq_ok_iff {draft next : Draft} {key : String} {text rest : List Char} :
    readMember draft key text = .ok (next, rest) ↔
      draft.checkKey key = .ok () ∧ ∃ behind value, Json.readColon text = .ok behind ∧
        readValue (nestingLimit - 1) behind = .ok (value, rest) ∧
        draft.take key value = .ok next := by
  constructor
  · intro h
    unfold readMember at h
    split at h
    · cases h
    · next hcheck =>
      split at h
      · cases h
      · next behind hcolon =>
        split at h
        · cases h
        · next value more hvalue =>
          split at h
          · cases h
          · next taken htake =>
            cases h
            exact ⟨hcheck, behind, value, hcolon, hvalue, htake⟩
  · intro h
    obtain ⟨hcheck, behind, value, hcolon, hvalue, htake⟩ := h
    rw [readMember, hcheck]
    simp only [hcolon, hvalue, htake]

/-- What a properties object takes in is taken in by any object. -/
theorem follows_readField :
    Follows (fun _ => True) Draft.Holds (Json.readMember readMember)
      (Json.readMember (Json.readField (nestingLimit - 1))) := by
  apply Follows.ofMember
  · intro _ _ _ _ _ _ _
    trivial
  · intro draft next key text rest hread _ members hholds
    obtain ⟨hcheck, behind, value, hcolon, hvalue, htake⟩ := readMember_eq_ok_iff.mp hread
    have hnext := Draft.holds_cons_iff.mpr ⟨draft, hholds, hcheck, htake⟩
    exact ⟨_, Json.readField_eq_ok_iff.mpr ⟨behind, value, hcolon, hvalue, rfl⟩, hnext⟩

/-- What an object takes in is taken in by a properties object, as long as a draft can hold it. -/
theorem readField_follows :
    Follows (fun members => ∃ draft : Draft, draft.Holds members)
      (fun members draft => draft.Holds members)
      (Json.readMember (Json.readField (nestingLimit - 1))) (Json.readMember readMember) := by
  apply Follows.ofMember
  · intro members next key text rest hread hgood
    obtain ⟨behind, value, -, -, rfl⟩ := Json.readField_eq_ok_iff.mp hread
    obtain ⟨_, hnext⟩ := hgood
    obtain ⟨draft, hholds, -, -⟩ := Draft.holds_cons_iff.mp hnext
    exact ⟨draft, hholds⟩
  · intro members next key text rest hread hgood draft hholds
    obtain ⟨behind, value, hcolon, hvalue, rfl⟩ := Json.readField_eq_ok_iff.mp hread
    obtain ⟨taken, htaken⟩ := hgood
    obtain ⟨same, hsame, hcheck, htake⟩ := Draft.holds_cons_iff.mp htaken
    obtain rfl : draft = same := Except.ok.inj (hholds.symm.trans hsame)
    exact ⟨taken, readMember_eq_ok_iff.mpr ⟨hcheck, behind, value, hcolon, hvalue, htake⟩, htaken⟩

/-- A text is that of properties if it is an object with nothing but gaps around it, and the members
are accepted. -/
theorem ofJson_eq_ok_iff {text : String} :
    ofJson text = .ok properties ↔
      ∃ members rest, readValue nestingLimit text.toList = .ok (.object members, rest) ∧
        readEnd rest = .ok () ∧ ofMembers members = .ok properties := by
  constructor
  · intro h
    unfold ofJson at h
    split at h
    · cases h
    · next found rest hread =>
      obtain ⟨hend, rfl⟩ := atEnd_eq_ok_iff.mp h
      unfold read at hread
      split at hread
      · next tail hgap =>
        split at hread
        · cases hread
        · next draft behind hwalk =>
          split at hread
          · cases hread
          · next hfinish =>
            cases hread
            obtain ⟨members, hwalk', hholds⟩ :=
              follows_readField.walkObject.follow hwalk trivial Draft.holds_empty
            have hobject : readValue nestingLimit text.toList =
                .ok (.object members.reverse, rest) :=
              Json.readValue_eq_ok_iff.mpr ⟨_, tail, hgap, .inr (.inr
                ⟨nestingLimit - 1, members, rfl, rfl, hwalk', rfl⟩)⟩
            have hmembers : ofMembers members.reverse = .ok found := by
              rw [ofMembers, hholds]
              exact hfinish
            exact ⟨members.reverse, rest, hobject, hend, hmembers⟩
      · exact absurd hread (Json.readUnwanted_ne_ok _ _ _)
  · intro h
    obtain ⟨_, rest, hread, hend, hmembers⟩ := h
    obtain ⟨c, tail, hgap, hscalar | ⟨inner, items, rfl, hinner, hwalk, hvalue⟩ |
      ⟨inner, members, rfl, hinner, hwalk, hvalue⟩⟩ := Json.readValue_eq_ok_iff.mp hread
    · have hdepth := Json.depth_of_readScalar? hscalar
      simp [Value.depth] at hdepth
    · cases hvalue
    · obtain rfl : nestingLimit - 1 = inner := by omega
      obtain rfl := Value.object.inj hvalue
      unfold ofMembers at hmembers
      split at hmembers
      · next draft hdraft =>
        obtain ⟨draft', hwalk', hholds⟩ :=
          readField_follows.walkObject.follow hwalk ⟨draft, hdraft⟩ Draft.holds_empty
        obtain rfl : draft = draft' := Except.ok.inj (hdraft.symm.trans hholds)
        have hfound : read text.toList = .ok (properties, rest) := by
          rw [read, hgap]
          simp only [hwalk', hmembers]
        rw [ofJson, hfound]
        exact atEnd_eq_ok_iff.mpr ⟨hend, rfl⟩
      · cases hmembers

/-- The text of an object, with any members, is refused if and only if the members are; where it is
accepted, it is that of the properties that the members are collected into.  As the properties of an
element, the object is accepted alike. -/
theorem ofJson_of_object {text : String} {rest : List Char}
    (hread : readValue nestingLimit text.toList = .ok (.object members, rest))
    (hend : readEnd rest = .ok ()) :
    ((∃ fault, ofJson text = .error fault) ↔ Refused members) ∧
      (∀ properties, ofJson text = .ok properties ↔
        ¬Refused members ∧ Collected members properties) ∧
      ∀ properties, decode (.object members) = .ok (some properties) ↔
        ofJson text = .ok properties := by
  have hok (properties : Properties) :
      ofJson text = .ok properties ↔ ofMembers members = .ok properties := by
    rw [ofJson_eq_ok_iff]
    constructor
    · intro h
      obtain ⟨found, behind, hfound, -, hmembers⟩ := h
      rw [hread] at hfound
      cases hfound
      exact hmembers
    · intro h
      exact ⟨members, rest, hread, hend, h⟩
  refine ⟨?_, fun properties => ?_, fun properties => ?_⟩
  · rw [← not_iff_not, ← exists_ofMembers_iff]
    simp only [← hok]
    cases ofJson text <;> simp
  · rw [hok, ofMembers_eq_ok_iff_collected]
  · rw [hok, decode]
    cases ofMembers members <;> simp [Except.map]

/-- An object with a null alignment and a key that comes twice is collected; if the first value of
the key is an object, it is refused, although the second takes its place. -/
theorem ofJson_of_object_repeated :
    let members : List (String × Value) :=
      [("id", .bool true), ("align", .null), ("x", .array [.null]), ("id", .string "b")]
    let p : Properties := { other := [("id", .string "b"), ("x", .list [.null])] }
    readValue nestingLimit
        "\x7b\"id\":true,\"align\":null,\"x\":[null],\"id\":\"b\"\x7d".toList =
          .ok (.object members, []) ∧
      ofJson "\x7b\"id\":true,\"align\":null,\"x\":[null],\"id\":\"b\"\x7d" = .ok p ∧
      Collected members p ∧
      ∃ fault, ofJson "\x7b\"id\":\x7b\x7d,\"id\":\"b\"\x7d" = .error fault := by
  intro members p
  have hread : readValue nestingLimit
      "\x7b\"id\":true,\"align\":null,\"x\":[null],\"id\":\"b\"\x7d".toList =
        .ok (.object members, []) := by
    simp only [String.reduceToList]
    rfl
  have hshadowed : readValue nestingLimit "\x7b\"id\":\x7b\x7d,\"id\":\"b\"\x7d".toList =
      .ok (.object [("id", .object []), ("id", .string "b")], []) := by
    simp only [String.reduceToList]
    rfl
  have hfound :
      ofJson "\x7b\"id\":true,\"align\":null,\"x\":[null],\"id\":\"b\"\x7d" = .ok p := by
    simp only [ofJson, String.reduceToList]
    rfl
  obtain ⟨-, hcollected, -⟩ := ofJson_of_object hread rfl
  obtain ⟨hrefused, -, -⟩ := ofJson_of_object hshadowed rfl
  have hobject : Refused [("id", .object []), ("id", .string "b")] :=
    .object List.mem_cons_self (by decide) (.here (.object []))
  exact ⟨hread, hfound, ((hcollected p).mp hfound).2, hrefused.mpr hobject⟩

end Properties

end CellAlign
