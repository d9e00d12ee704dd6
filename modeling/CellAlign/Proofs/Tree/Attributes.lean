import CellAlign.Proofs.Text.Words
import CellAlign.Proofs.Tree.Canonical
import Mathlib.Data.List.Induction
import Mathlib.Data.List.Nodup

/-!
# Attributes in and out

Properties that were set attribute by attribute hold strings and words, and each name is that of one
property only.  Such properties render as attributes that give them again, and what is written for a
name is the value that was set last.

* `Entries.perm_of_get?_eq`: entries with distinct keys are told apart by looking keys up;
* `Properties.textual_ofAttributes`: the properties given by attributes;
* `Properties.ofAttributes_attributes`: such properties are given by the attributes they render as;
* `Properties.get?_attributes`, `Properties.text?_ofAttributes`: what is written for a name;
* `Properties.perm_attributes_iff`: when all attributes are written.
-/

namespace CellAlign

/-! ## Looking up keys -/

namespace Entries

variable {α : Type}

/-- The key of the first entry is the first key. -/
@[simp]
theorem keys_cons (entry : String × α) (entries : Entries α) :
    keys (entry :: entries) = entry.1 :: keys entries := rfl

/-- A key is looked up in the first entries before the others. -/
theorem get?_append (key : String) (before behind : Entries α) :
    get? key (before ++ behind) = (get? key before).or (get? key behind) := by
  induction before with
  | nil => rfl
  | cons entry before ih =>
      obtain ⟨k, v⟩ := entry
      by_cases hk : k = key
      · simp [get?, hk]
      · simp [get?, hk, ih]

/-- The keys are those that have a value. -/
theorem get?_eq_none_iff {key : String} {entries : Entries α} :
    get? key entries = none ↔ key ∉ keys entries := by
  induction entries with
  | nil => simp [get?, keys]
  | cons entry entries ih =>
      obtain ⟨k, v⟩ := entry
      by_cases hk : k = key
      · simp [get?, hk]
      · simpa [get?, hk, Ne.symm hk] using ih

/-- The value of a key is that of one of its entries. -/
theorem mem_of_get?_eq_some {key : String} {value : α} {entries : Entries α}
    (h : get? key entries = some value) : (key, value) ∈ entries := by
  induction entries with
  | nil => cases h
  | cons entry entries ih =>
      obtain ⟨k, v⟩ := entry
      rw [get?] at h
      split at h
      · next hk =>
        obtain rfl := Option.some.inj h
        exact hk ▸ List.mem_cons_self
      · exact List.mem_cons_of_mem _ (ih h)

/-- Where keys are distinct, the entries are what looking up their keys gives. -/
theorem mem_iff_get?_eq_some {key : String} {value : α} {entries : Entries α}
    (h : entries.keys.Nodup) : (key, value) ∈ entries ↔ get? key entries = some value := by
  refine ⟨fun hmem => ?_, mem_of_get?_eq_some⟩
  induction entries with
  | nil => cases hmem
  | cons entry entries ih =>
      obtain ⟨k, v⟩ := entry
      obtain ⟨hnew, hdistinct⟩ := List.nodup_cons.mp h
      rcases List.mem_cons.mp hmem with heq | hmem
      · cases heq
        simp [get?]
      · have hk : k ≠ key := fun heq => hnew (heq ▸ List.mem_map.mpr ⟨_, hmem, rfl⟩)
        rw [get?, if_neg hk]
        exact ih hdistinct hmem

/-- Entries with distinct keys that give every key the same value are the same but for their
order. -/
theorem perm_of_get?_eq {a b : Entries α} (ha : a.keys.Nodup) (hb : b.keys.Nodup)
    (h : ∀ key, get? key a = get? key b) : a.Perm b := by
  refine (List.perm_ext_iff_of_nodup (List.Nodup.of_map _ ha) (List.Nodup.of_map _ hb)).mpr
    fun entry => ?_
  rw [mem_iff_get?_eq_some ha, mem_iff_get?_eq_some hb, h]

/-- Looking up a key whose values are changed. -/
theorem get?_map {β : Type} (f : String → α → β) (key : String) (entries : Entries α) :
    get? key (entries.map fun entry => (entry.1, f entry.1 entry.2)) =
      (get? key entries).map (f key) := by
  induction entries with
  | nil => rfl
  | cons entry entries ih =>
      obtain ⟨k, v⟩ := entry
      by_cases hk : k = key
      · simp [get?, hk]
      · simpa [get?, hk] using ih

/-- Looking up a key where there is at most one entry. -/
theorem get?_toList (key name : String) (found : Option α) :
    get? name (found.map fun value => (key, value)).toList =
      if key = name then found else none := by
  cases found with
  | none => simp [get?]
  | some value => simp [get?]

/-- Where keys are distinct, they have the same values from the other end. -/
theorem get?_reverse {entries : Entries α} (h : entries.keys.Nodup) (key : String) :
    get? key entries.reverse = get? key entries := by
  have hreverse : keys entries.reverse = (keys entries).reverse := List.map_reverse
  have hdistinct : (keys entries.reverse).Nodup := hreverse ▸ List.nodup_reverse.mpr h
  refine Option.ext fun value => ?_
  rw [← mem_iff_get?_eq_some hdistinct, ← mem_iff_get?_eq_some h, List.mem_reverse]

end Entries

/-! ## Properties that attributes give -/

/-- A class as an attribute gives it: none, or a list of words. -/
def ClassName.Worded : ClassName → Prop
  | absent => True
  | single _ => False
  | list tokens => ∀ token ∈ tokens, Text.IsWord Text.isBlank token.toList

/-- A value that is a string. -/
def PropertyValue.IsString (value : PropertyValue) : Prop := ∃ text, value = .string text

namespace Properties

/-- The names of the attributes whose properties are known. -/
def knownNames : List String := ["align", "class", "style"]

/-- Properties as attributes give them: strings and words, each under a name of its own. -/
structure Textual (properties : Properties) : Prop where
  align : ∀ value ∈ properties.align, value.IsString
  className : properties.className.Worded
  style : ∀ value ∈ properties.style, value.IsString
  other : ∀ entry ∈ properties.other, entry.2.IsString
  distinct : properties.other.keys.Nodup
  unknown : ∀ key ∈ properties.other.keys, key ∉ knownNames

/-- No properties are given by no attributes. -/
theorem textual_empty : ({} : Properties).Textual := ⟨nofun, trivial, nofun, nofun, .nil, nofun⟩

/-- An attribute leaves properties that attributes give. -/
theorem Textual.setAttribute {properties : Properties} (h : properties.Textual)
    (name value : String) : (properties.setAttribute name value).Textual := by
  have hstring : (PropertyValue.string value).IsString := ⟨value, rfl⟩
  have hsome : ∀ v ∈ some (PropertyValue.string value), v.IsString :=
    fun v hv => Option.some.inj hv ▸ hstring
  unfold Properties.setAttribute
  split
  · exact ⟨hsome, h.className, h.style, h.other, h.distinct, h.unknown⟩
  split
  · have hwords : (ClassName.ofAttribute value).Worded := fun _ => Text.isWord_of_mem_blankWords
    exact ⟨h.align, hwords, h.style, h.other, h.distinct, h.unknown⟩
  split
  · exact ⟨h.align, h.className, hsome, h.other, h.distinct, h.unknown⟩
  · next halign hclass hstyle =>
    have hdistinct := Entries.nodup_keys_put h.distinct name (.string value)
    refine ⟨h.align, h.className, h.style, fun entry hentry => ?_, hdistinct, fun key hkey => ?_⟩
    · have hget := (Entries.mem_iff_get?_eq_some hdistinct).mp hentry
      rw [Entries.get?_put] at hget
      split at hget
      · exact hsome _ hget
      · exact h.other entry (Entries.mem_of_get?_eq_some hget)
    · rcases Entries.mem_keys_put.mp hkey with hold | rfl
      · exact h.unknown key hold
      · simp [knownNames, halign, hclass, hstyle]

/-- An attribute behind others is set last. -/
theorem ofAttributes_concat (attributes : List (String × String)) (last : String × String) :
    ofAttributes (attributes ++ [last]) = (ofAttributes attributes).setAttribute last.1 last.2 := by
  rw [ofAttributes, List.foldl_append]
  rfl

/-- The properties given by attributes. -/
theorem textual_ofAttributes (attributes : List (String × String)) :
    (ofAttributes attributes).Textual := by
  induction attributes using List.reverseRecOn with
  | nil => exact textual_empty
  | append_singleton attributes last ih =>
      rw [ofAttributes_concat]
      exact ih.setAttribute last.1 last.2

/-! ## Attributes read again -/

/-- Properties in which attributes are set one after the other. -/
def setAll (properties : Properties) (attributes : List (String × String)) : Properties :=
  attributes.foldl (fun properties a => properties.setAttribute a.1 a.2) properties

/-- Attributes are set one row after the other. -/
theorem setAll_append (properties : Properties) (before behind : List (String × String)) :
    properties.setAll (before ++ behind) = (properties.setAll before).setAll behind :=
  List.foldl_append

/-- A string is written as an attribute. -/
theorem attribute?_of_isString {value : PropertyValue} (h : value.IsString) (name : String) :
    attribute? name value = some (name, value.text) := by
  obtain ⟨text, rfl⟩ := h
  rfl

/-- Entries that are strings are all written. -/
theorem filterMap_attribute? {entries : Entries PropertyValue}
    (h : ∀ entry ∈ entries, entry.2.IsString) :
    (entries.filterMap fun entry => attribute? entry.1 entry.2) =
      entries.map fun entry => (entry.1, entry.2.text) := by
  rw [← List.filterMap_eq_map]
  exact List.filterMap_congr fun entry hentry => attribute?_of_isString (h entry hentry) entry.1

/-- Setting the attributes of entries that are strings with new names. -/
theorem setAll_other {entries : Entries PropertyValue} (start : Properties)
    (hstring : ∀ entry ∈ entries, entry.2.IsString)
    (hunknown : ∀ key ∈ entries.keys, key ∉ knownNames)
    (hdistinct : (start.other ++ entries).keys.Nodup) :
    start.setAll (entries.map fun entry => (entry.1, entry.2.text)) =
      { start with other := start.other ++ entries } := by
  induction entries generalizing start with
  | nil => simp [setAll]
  | cons entry entries ih =>
      obtain ⟨key, value⟩ := entry
      obtain ⟨⟨text, rfl⟩, hstrings⟩ := List.forall_mem_cons.mp hstring
      obtain ⟨hkey, hkeys⟩ := List.forall_mem_cons.mp hunknown
      have hnew : key ∉ start.other.keys := by
        rw [Entries.keys, List.map_append] at hdistinct
        exact fun hmem => (List.nodup_append.mp hdistinct).2.2 key hmem key List.mem_cons_self rfl
      have hset : start.setAttribute key text =
          { start with other := start.other ++ [(key, .string text)] } := by
        simp only [knownNames, List.mem_cons, not_or] at hkey
        simp [Properties.setAttribute, hkey, Entries.put_of_not_mem hnew]
      have hrest : (start.setAttribute key text).setAll
          (entries.map fun entry => (entry.1, entry.2.text)) =
            { start with other := start.other ++ [(key, .string text)] ++ entries } := by
        rw [hset]
        exact ih _ hstrings hkeys (by simpa using hdistinct)
      rw [List.append_assoc] at hrest
      exact hrest

/-- Properties that attributes give are given by the attributes that they render as. -/
theorem ofAttributes_attributes {properties : Properties} (h : properties.Textual) :
    ofAttributes properties.attributes = properties := by
  obtain ⟨align, className, style, other⟩ := properties
  have halign : setAll {} (align.bind (attribute? "align")).toList = { align } := by
    cases align with
    | none => rfl
    | some value =>
        obtain ⟨text, rfl⟩ := h.align value rfl
        rfl
  have hclass : setAll { align } (classAttribute? className).toList = { align, className } := by
    cases className with
    | absent => rfl
    | single token => exact h.className.elim
    | list tokens =>
        have hwords : ClassName.ofAttribute (Text.join " " tokens) = .list tokens :=
          congrArg ClassName.list (Text.blankWords_join h.className)
        exact congrArg (fun className => ({ align, className } : Properties)) hwords
  have hstyle : setAll { align, className } (style.bind (attribute? "style")).toList =
      { align, className, style } := by
    cases style with
    | none => rfl
    | some value =>
        obtain ⟨text, rfl⟩ := h.style value rfl
        rfl
  have hset : ofAttributes = setAll {} := rfl
  rw [hset, attributes, setAll_append, setAll_append, setAll_append, halign, hclass, hstyle,
    filterMap_attribute? h.other]
  exact setAll_other _ h.other h.unknown h.distinct

/-! ## What is written for a name -/

/-- The text that is written for a name. -/
def text? (properties : Properties) (name : String) : Option String :=
  if name = "align" then properties.align.bind attributeValue?
  else if name = "class" then (classAttribute? properties.className).map Prod.snd
  else if name = "style" then properties.style.bind attributeValue?
  else (Entries.get? name properties.other).bind attributeValue?

/-- The value of an attribute as it is written: the words of a class are joined by spaces. -/
def writtenValue (name value : String) : String :=
  if name = "class" then Text.join " " (Text.blankWords value) else value

/-- Setting an attribute changes what is written for its name only. -/
theorem text?_setAttribute (properties : Properties) (key value name : String) :
    (properties.setAttribute key value).text? name =
      if key = name then some (writtenValue key value) else properties.text? name := by
  by_cases hname : key = name
  · subst hname
    unfold Properties.setAttribute
    split
    · simp [text?, attributeValue?, PropertyValue.text, writtenValue, *]
    split
    · simp [text?, writtenValue, classAttribute?, ClassName.ofAttribute, ClassName.isAbsent,
        ClassName.tokens, *]
    split
    · simp [text?, attributeValue?, PropertyValue.text, writtenValue, *]
    · simp [text?, attributeValue?, PropertyValue.text, writtenValue, Entries.get?_put, *]
  · have hother : name ≠ key := Ne.symm hname
    rw [if_neg hname]
    unfold Properties.setAttribute
    split
    · next hkey => simp [text?, hkey ▸ hother]
    split
    · next hkey => simp [text?, hkey ▸ hother]
    split
    · next hkey => simp [text?, hkey ▸ hother]
    · simp [text?, Entries.get?_put, hname]

/-- What is written for a name is its last value. -/
theorem text?_ofAttributes (attributes : List (String × String)) (name : String) :
    (ofAttributes attributes).text? name =
      (Entries.get? name attributes.reverse).map (writtenValue name) := by
  induction attributes using List.reverseRecOn with
  | nil => simp [ofAttributes, text?, classAttribute?, ClassName.isAbsent, Entries.get?]
  | append_singleton attributes last ih =>
      obtain ⟨key, value⟩ := last
      rw [ofAttributes_concat, text?_setAttribute, ih, List.reverse_append]
      by_cases hkey : key = name
      · simp [Entries.get?, hkey]
      · simp [Entries.get?, hkey]

/-- A known property is written under its name. -/
theorem bind_attribute? (name : String) (found : Option PropertyValue) :
    found.bind (attribute? name) = (found.bind attributeValue?).map fun text => (name, text) := by
  cases found <;> rfl

/-- The class is written under its name. -/
theorem classAttribute?_eq (className : ClassName) :
    classAttribute? className =
      ((classAttribute? className).map Prod.snd).map fun text => ("class", text) := by
  unfold classAttribute?
  split <;> rfl

/-- The attributes of properties give each name the text that is written for it. -/
theorem get?_attributes {properties : Properties} (h : properties.Textual) (name : String) :
    Entries.get? name properties.attributes = properties.text? name := by
  have hother : Entries.get? name (properties.other.map fun entry => (entry.1, entry.2.text)) =
      (Entries.get? name properties.other).bind attributeValue? := by
    rw [Entries.get?_map (fun _ => PropertyValue.text)]
    cases hget : Entries.get? name properties.other with
    | none => rfl
    | some value =>
        obtain ⟨text, rfl⟩ := h.other _ (Entries.mem_of_get?_eq_some hget)
        rfl
  have hknown : name ∈ knownNames → Entries.get? name properties.other = none :=
    fun hmem => Entries.get?_eq_none_iff.mpr fun hkey => h.unknown name hkey hmem
  rw [attributes, filterMap_attribute? h.other, Entries.get?_append, Entries.get?_append,
    Entries.get?_append, bind_attribute?, bind_attribute?, classAttribute?_eq, Entries.get?_toList,
    Entries.get?_toList, Entries.get?_toList, hother, text?]
  by_cases halign : name = "align"
  · subst halign
    simp [hknown (by decide)]
  by_cases hclass : name = "class"
  · subst hclass
    simp [hknown (by decide)]
  by_cases hstyle : name = "style"
  · subst hstyle
    simp [hknown (by decide)]
  · simp [halign, hclass, hstyle, Ne.symm halign, Ne.symm hclass, Ne.symm hstyle]

/-- The attributes of the known properties. -/
def knownAttributes (properties : Properties) : List (String × String) :=
  (properties.align.bind (attribute? "align")).toList ++
    (classAttribute? properties.className).toList ++
    (properties.style.bind (attribute? "style")).toList

/-- The attributes of the open-ended properties. -/
def otherAttributes (properties : Properties) : List (String × String) :=
  properties.other.filterMap fun entry => attribute? entry.1 entry.2

/-- The attributes of the known properties have their names, each once at most. -/
theorem sublist_keys_knownAttributes (properties : Properties) :
    (Entries.keys properties.knownAttributes).Sublist knownNames := by
  have hone (key : String) (found : Option String) :
      ((found.map fun text => (key, text)).toList.map Prod.fst).Sublist [key] := by
    cases found <;> simp
  rw [knownAttributes, bind_attribute?, bind_attribute?, classAttribute?_eq, Entries.keys,
    List.map_append, List.map_append]
  exact ((hone "align" _).append (hone "class" _)).append (hone "style" _)

/-- The attributes of the open-ended properties have their names. -/
theorem sublist_keys_otherAttributes (properties : Properties) :
    (Entries.keys properties.otherAttributes).Sublist properties.other.keys := by
  rw [otherAttributes]
  induction properties.other with
  | nil => exact .slnil
  | cons entry entries ih =>
      obtain ⟨key, value⟩ := entry
      cases hvalue : attributeValue? value with
      | none => simpa [attribute?, hvalue] using ih.cons key
      | some text => simpa [attribute?, hvalue] using ih.cons_cons key

/-- The attributes of the known properties come first, and those of the open-ended ones behind
them. -/
theorem keys_attributes (properties : Properties) : Entries.keys properties.attributes =
    Entries.keys properties.knownAttributes ++ Entries.keys properties.otherAttributes :=
  List.map_append

/-- Attributes have the names of the known properties and those of the open-ended ones. -/
theorem sublist_keys_attributes (properties : Properties) :
    (Entries.keys properties.attributes).Sublist (knownNames ++ properties.other.keys) := by
  rw [keys_attributes]
  exact properties.sublist_keys_knownAttributes.append properties.sublist_keys_otherAttributes

/-- No name is written twice. -/
theorem nodup_keys_attributes {properties : Properties} (h : properties.Textual) :
    (Entries.keys properties.attributes).Nodup := by
  have hnames : (knownNames ++ properties.other.keys).Nodup := by
    refine List.nodup_append.mpr ⟨by decide, h.distinct, fun known hknown key hkey heq => ?_⟩
    exact h.unknown key hkey (heq ▸ hknown)
  exact (sublist_keys_attributes properties).nodup hnames

/-- An attribute is written for each of some attributes, with its value, if and only if their names
are distinct. -/
theorem perm_attributes_iff (attributes : List (String × String)) :
    (ofAttributes attributes).attributes.Perm
        (attributes.map fun a => (a.1, writtenValue a.1 a.2)) ↔
      (attributes.map Prod.fst).Nodup := by
  have hwritten := nodup_keys_attributes (textual_ofAttributes attributes)
  have hkeys : Entries.keys (attributes.map fun a => (a.1, writtenValue a.1 a.2)) =
      attributes.map Prod.fst := by
    simp [Entries.keys]
  constructor
  · intro hperm
    rw [← hkeys]
    exact (hperm.map Prod.fst).nodup_iff.mp hwritten
  · intro hdistinct
    refine Entries.perm_of_get?_eq hwritten (hkeys ▸ hdistinct) fun name => ?_
    rw [get?_attributes (textual_ofAttributes attributes), text?_ofAttributes,
      Entries.get?_reverse hdistinct, Entries.get?_map]

end Properties

end CellAlign
