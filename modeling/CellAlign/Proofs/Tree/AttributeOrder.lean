import CellAlign.Proofs.Align.Realigning
import CellAlign.Proofs.Tree.Attributes

/-!
# The order of attributes

Properties that attributes give render in a fixed order: alignment, class and style come first, and
then every other name once, in the order in which the names were first met.  Each comes with the
value that its name was given last, the class with the words of that value.  Read again, what was
rendered gives the same properties, and so does what is rendered of a cell that was realigned, if
the tokens of the options are words.

* `Properties.attributes_eq`: what properties render as, name by name;
* `Properties.keys_other_ofAttributes`: the other names in order;
* `Properties.Textual.realign`: realigned properties are still such as attributes give;
* `attributes_in_and_out`: all of this for a list of attributes and for a tree.
-/

namespace CellAlign

namespace Entries

variable {α : Type}

/-- Entries with distinct keys are what looking up their keys gives. -/
theorem filterMap_get?_keys {entries : Entries α} (h : entries.keys.Nodup) :
    (entries.keys.filterMap fun key => (get? key entries).map fun value => (key, value)) =
      entries := by
  have hentry : ∀ entry ∈ entries,
      ((get? entry.1 entries).map fun value => (entry.1, value)) = some entry := by
    intro entry hmem
    rw [(mem_iff_get?_eq_some h).mp hmem]
    rfl
  rw [keys, List.filterMap_map]
  calc
    entries.filterMap ((fun key => (get? key entries).map fun value => (key, value)) ∘ Prod.fst)
        = entries.filterMap some := List.filterMap_congr hentry
    _ = entries := List.filterMap_some

end Entries

namespace Properties

variable {properties : Properties}

/-- What properties render as, name by name: the known names first, then the others in order. -/
theorem attributes_eq (h : properties.Textual) :
    properties.attributes =
      (knownNames ++ properties.other.keys).filterMap fun name =>
        (properties.text? name).map fun text => (name, text) := by
  have hother :
      (properties.other.filterMap fun entry => attribute? entry.1 entry.2) =
        properties.other.keys.filterMap fun name =>
          (properties.text? name).map fun text => (name, text) := by
    have hname : ∀ name ∈ properties.other.keys,
        (properties.text? name).map (fun text => (name, text)) =
          ((Entries.get? name properties.other).map fun value => (name, value)).bind
            fun entry => attribute? entry.1 entry.2 := by
      intro name hmem
      have hunknown := h.unknown name hmem
      simp only [knownNames, List.mem_cons, List.not_mem_nil, or_false, not_or] at hunknown
      obtain ⟨halign, hclass, hstyle⟩ := hunknown
      rw [text?, if_neg halign, if_neg hclass, if_neg hstyle]
      cases Entries.get? name properties.other <;> rfl
    rw [List.filterMap_congr hname, ← List.filterMap_filterMap,
      Entries.filterMap_get?_keys h.distinct]
  have hcons {f : String → Option (String × String)} (name : String) (names : List String) :
      (name :: names).filterMap f = (f name).toList ++ names.filterMap f := by
    rw [List.filterMap_cons]
    cases f name <;> rfl
  rw [attributes, hother, bind_attribute?, bind_attribute?, classAttribute?_eq,
    List.filterMap_append]
  simp only [knownNames, hcons, List.filterMap_nil, List.append_nil, List.append_assoc]
  rfl

/-- Setting an attribute with the name of a known property leaves the others alone; any other name
is put among them. -/
theorem other_setAttribute (properties : Properties) (name value : String) :
    (properties.setAttribute name value).other =
      if name ∈ knownNames then properties.other
      else properties.other.put name (.string value) := by
  unfold setAttribute
  split
  · simp [knownNames, *]
  split
  · simp [knownNames, *]
  split
  · simp [knownNames, *]
  · simp [knownNames, *]

/-- The names of the other properties are those of the attributes that are not known, each where it
was first met. -/
theorem keys_other_ofAttributes (attributes : List (String × String)) :
    (ofAttributes attributes).other.keys =
      ((attributes.map Prod.fst).filter fun name => name ∉ knownNames).eraseDups := by
  induction attributes using List.reverseRecOn with
  | nil => rfl
  | append_singleton attributes last ih =>
      obtain ⟨name, value⟩ := last
      rw [ofAttributes_concat, other_setAttribute, List.map_append, List.filter_append,
        List.eraseDups_append]
      by_cases hknown : name ∈ knownNames
      · simp [hknown, ih]
      · rw [if_neg hknown, Entries.keys_put, ih]
        by_cases hmem : name ∈ attributes.map Prod.fst
        · simp_all [List.removeAll]
        · simp_all [List.removeAll, List.eraseDups_cons]

/-- What attributes render as once they have been read: each name with the value it was given last,
the known names first, the others where they were first met. -/
theorem attributes_ofAttributes (attributes : List (String × String)) :
    (ofAttributes attributes).attributes =
      (knownNames ++
        ((attributes.map Prod.fst).filter fun name => name ∉ knownNames).eraseDups).filterMap
          fun name => (Entries.get? name attributes.reverse).map
            fun value => (name, writtenValue name value) := by
  rw [attributes_eq (textual_ofAttributes attributes), keys_other_ofAttributes]
  refine List.filterMap_congr fun name _ => ?_
  rw [text?_ofAttributes, Option.map_map]
  rfl

end Properties

/-! ## Realigned properties -/

/-- A class as an attribute gives it stays one when a word is pushed. -/
theorem ClassName.Worded.push {className : ClassName} (h : className.Worded) {token : String}
    (htoken : Text.IsWord Text.isBlank token.toList) : (className.push token).Worded := by
  cases className with
  | single => exact h.elim
  | absent =>
      intro t ht
      obtain rfl := List.mem_singleton.mp ht
      exact htoken
  | list tokens =>
      intro t ht
      rcases List.mem_append.mp ht with hold | hnew
      · exact h t hold
      · obtain rfl := List.mem_singleton.mp hnew
        exact htoken

namespace Properties

variable {options : Options}

/-- A cell that is realigned has properties such as attributes give still, if the tokens of the
options are words. -/
theorem Textual.restate {properties : Properties} (h : properties.Textual)
    (htokens : ∀ pair ∈ options.classes.pairs, Text.IsWord Text.isBlank pair.2.toList)
    (alignment : String) : (properties.restate options alignment).Textual := by
  unfold Properties.restate
  split
  · next token htoken =>
    have hpair : (alignment, token) ∈ options.classes.pairs := by
      unfold token? at htoken
      split at htoken
      · exact ClassNames.get?_eq_some_iff.mp htoken
      · cases htoken
    exact ⟨nofun, h.className.push (htokens _ hpair), h.style, h.other, h.distinct, h.unknown⟩
  · have hstyle : ∀ value ∈ some (PropertyValue.string (mergeStyle properties.style alignment)),
        value.IsString := fun value hvalue => ⟨_, (Option.some.inj hvalue).symm⟩
    exact ⟨nofun, h.className, hstyle, h.other, h.distinct, h.unknown⟩

end Properties

/-- Attributes are read and rendered again: alignment, class and style first, then every other name
once in the order of first occurrence, each with the value that came last.  What was rendered is
read as the same properties, and so is what is rendered of them once the element that has them was
realigned, if the tokens of the options are words. -/
theorem attributes_in_and_out (given : List (String × String)) :
    ((Properties.ofAttributes given).attributes =
      (["align", "class", "style"] ++ ((given.map Prod.fst).filter
        fun name => name ∉ ["align", "class", "style"]).eraseDups).filterMap
          fun name => (Entries.get? name given.reverse).map fun value =>
            (name, if name = "class" then Text.join " " (Text.blankWords value) else value)) ∧
      Properties.ofAttributes (Properties.ofAttributes given).attributes =
        Properties.ofAttributes given ∧
      ∀ {options : Options},
        (∀ pair ∈ options.classes.pairs, Text.IsWord Text.isBlank pair.2.toList) →
        ∀ {tree : Node} {path : List Nat} {tag : String} {children : List Node},
        tree.at? path = some (.element tag (some (Properties.ofAttributes given)) children) →
        ∃ p children', (run options tree).tree.at? path = some (.element tag (some p) children') ∧
          Properties.ofAttributes p.attributes = p := by
  have htextual := Properties.textual_ofAttributes given
  refine ⟨Properties.attributes_ofAttributes given, Properties.ofAttributes_attributes htextual, ?_⟩
  intro options htokens tree path tag children hat
  have hrealigned : ∀ p ∈ Properties.realign options tag (some (Properties.ofAttributes given)),
      p.Textual := by
    refine Node.keeps_realign (fun p alignment hp => hp.restate htokens alignment) ?_
    intro p hp
    exact Option.some.inj hp ▸ htextual
  obtain ⟨p, hp⟩ : ∃ p,
      Properties.realign options tag (some (Properties.ofAttributes given)) = some p := by
    unfold Properties.realign
    split
    · exact ⟨_, rfl⟩
    · exact ⟨_, rfl⟩
  refine ⟨p, Node.realignList options children, ?_,
    Properties.ofAttributes_attributes (hrealigned p hp)⟩
  rw [run_tree, Node.at?_realign, hat, Option.map_some, Node.realign, hp]

/-- A cell with its attributes given more than once, and a class with blanks of several kinds. -/
theorem attributes_in_and_out_cell :
    let given : List (String × String) :=
      [("id", "a"), ("class", "x"), ("align", "left"), ("title", "t"), ("id", "b"),
        ("class", " wide\tred\n")]
    let options : Options := { method := .byClass }
    let node : Node := .element "td" (some (Properties.ofAttributes given)) []
    (∀ pair ∈ options.classes.pairs, Text.IsWord Text.isBlank pair.2.toList) ∧
      node.at? [] = some node ∧
      (Properties.ofAttributes given).attributes =
        [("align", "left"), ("class", "wide red"), ("id", "b"), ("title", "t")] ∧
      ∃ p children', (run options node).tree.at? [] = some (.element "td" (some p) children') ∧
        Properties.ofAttributes p.attributes = p := by
  intro given options node
  obtain ⟨hattributes, -, hrealigned⟩ := attributes_in_and_out given
  have htokens : ∀ pair ∈ options.classes.pairs, Text.IsWord Text.isBlank pair.2.toList := by
    have hall : ∀ pair ∈ options.classes.pairs,
        pair.2.toList ≠ [] ∧ pair.2.toList.all (fun c => !Text.isBlank c) = true := by decide
    intro pair hpair
    obtain ⟨hne, hblank⟩ := hall pair hpair
    refine ⟨hne, fun c hc => ?_⟩
    simpa using List.all_eq_true.mp hblank c hc
  have hat : node.at? [] = some node := rfl
  refine ⟨htokens, hat, ?_, hrealigned htokens hat⟩
  rw [hattributes]
  decide +kernel

end CellAlign
