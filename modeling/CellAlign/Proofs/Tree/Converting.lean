import CellAlign.Proofs.Markup.RuleNames
import CellAlign.Proofs.Tree.Decoded
import CellAlign.Source

/-!
# What is converted is canonical

The value of an attribute is a string, so attributes never give a property that is null.  The known
properties have attributes of their own names, except for the class: an attribute `className` would
be kept among the entries, but no attribute of parsed markup has this name.

* `Properties.canonical_ofAttributes`: the properties given by attributes;
* `every_play`: the nodes that a walk with named attributes plays back to;
* `Node.every_of_ofDocument`, `Node.every_of_ofFragment`: trees of markup;
* `Node.every_of_ofText`: trees of any text.
-/

namespace CellAlign

namespace Properties

/-- No properties are canonical ones. -/
theorem canonical_empty : ({} : Properties).Canonical := ⟨nofun, nofun, .nil, nofun⟩

/-- An attribute that is not named like the property of the class can be taken in. -/
theorem Canonical.setAttribute {properties : Properties} (h : properties.Canonical) {name : String}
    (hname : name ≠ "className") (value : String) :
    (properties.setAttribute name value).Canonical := by
  unfold Properties.setAttribute
  split
  · exact ⟨nofun, h.style, h.distinct, h.unknown⟩
  · split
    · exact ⟨h.align, h.style, h.distinct, h.unknown⟩
    · split
      · exact ⟨h.align, nofun, h.distinct, h.unknown⟩
      · next halign _ hstyle =>
        refine ⟨h.align, h.style, Entries.nodup_keys_put h.distinct _ _, fun key hkey => ?_⟩
        rcases Entries.mem_keys_put.mp hkey with hold | rfl
        · exact h.unknown key hold
        · simp [knownKeys, halign, hname, hstyle]

/-- Attributes that are not named like the property of the class give canonical properties. -/
theorem canonical_ofAttributes {attributes : List (String × String)}
    (h : ∀ a ∈ attributes, a.1 ≠ "className") : (ofAttributes attributes).Canonical := by
  unfold ofAttributes
  generalize hstart : ({} : Properties) = start
  have hcanonical : start.Canonical := hstart ▸ canonical_empty
  clear hstart
  induction attributes generalizing start with
  | nil => exact hcanonical
  | cons a attributes ih =>
      obtain ⟨ha, hrest⟩ := List.forall_mem_cons.mp h
      exact ih hrest _ (hcanonical.setAttribute ha a.2)

end Properties

namespace Markup

/-- The properties of an element of parsed markup are canonical. -/
theorem canonical_propertiesOf {attributes : List Attribute} (h : Named attributes) :
    (propertiesOf attributes).Canonical := by
  refine Properties.canonical_ofAttributes fun pair hpair => ?_
  obtain ⟨a, ha, rfl⟩ := List.mem_map.mp hpair
  exact fun heq => not_isAttributeName_className (heq ▸ h a ha)

/-! ## Conversions -/

instance : HasNames Edge where
  Named
    | .opening item => Named item
    | .closing _ => True

namespace Conversion

/-- The properties of the elements that are open are canonical, and so are those of the nodes that
are finished. -/
structure Sound (conversion : Conversion) : Prop where
  opened : ∀ e ∈ conversion.opened, e.2.Canonical
  levels : ∀ level ∈ conversion.levels, Node.EveryList Properties.Canonical level

/-- Nothing is open at first. -/
theorem sound_empty : ({} : Conversion).Sound := by
  refine ⟨nofun, fun level hlevel => ?_⟩
  obtain rfl := List.mem_singleton.mp hlevel
  trivial

namespace Sound

variable {conversion : Conversion}

/-- A finished node is added. -/
theorem add (h : conversion.Sound) {node : Node} (hnode : node.Every Properties.Canonical) :
    (conversion.add node).Sound := by
  obtain ⟨opened, levels⟩ := conversion
  cases levels with
  | nil => exact h
  | cons level levels =>
      obtain ⟨hlevel, hlevels⟩ := List.forall_mem_cons.mp h.levels
      exact ⟨h.opened, List.forall_mem_cons.mpr ⟨⟨hnode, hlevel⟩, hlevels⟩⟩

/-- An edge is played back. -/
theorem step (h : conversion.Sound) {edge : Edge} (hedge : Named edge) :
    (conversion.step edge).Sound := by
  obtain ⟨opened, levels⟩ := conversion
  cases edge with
  | opening item =>
      cases item with
      | element name attributes =>
          have hproperties := canonical_propertiesOf hedge
          exact ⟨List.forall_mem_cons.mpr ⟨hproperties, h.opened⟩,
            List.forall_mem_cons.mpr ⟨trivial, h.levels⟩⟩
      | doctype | comment | text => exact h.add trivial
      | document | fragment | instruction => exact h
  | closing item =>
      cases item with
      | element name attributes =>
          match opened, levels with
          | (tag, properties) :: opened, level :: levels =>
            obtain ⟨hproperties, hopened⟩ := List.forall_mem_cons.mp h.opened
            obtain ⟨hlevel, hlevels⟩ := List.forall_mem_cons.mp h.levels
            have hchildren : Node.EveryList Properties.Canonical level.reverse :=
              Node.everyList_iff.mpr fun node hnode =>
                Node.everyList_iff.mp hlevel node (List.mem_reverse.mp hnode)
            have hrest : ({ opened, levels } : Conversion).Sound := ⟨hopened, hlevels⟩
            refine hrest.add ⟨?_, hchildren⟩
            rintro _ ⟨⟩
            exact hproperties
          | [], levels =>
            exact ⟨nofun, fun level hlevel => h.levels level (List.mem_of_mem_drop hlevel)⟩
          | _ :: opened, [] =>
            exact ⟨fun e he => h.opened e (List.mem_of_mem_drop he), nofun⟩
      | _ => exact h

/-- The edges of a walk are played back one after the other. -/
theorem foldl_step (h : conversion.Sound) {walk : List Edge} (hwalk : Named walk) :
    (walk.foldl Conversion.step conversion).Sound := by
  induction walk generalizing conversion with
  | nil => exact h
  | cons edge walk ih =>
      obtain ⟨hedge, hrest⟩ := named_cons.mp hwalk
      exact ih (h.step hedge) hrest

/-- The nodes on the innermost level. -/
theorem finish (h : conversion.Sound) : Node.EveryList Properties.Canonical conversion.finish := by
  obtain ⟨opened, levels⟩ := conversion
  cases levels with
  | nil => trivial
  | cons level levels =>
      have hlevel := Node.everyList_iff.mp (h.levels level List.mem_cons_self)
      exact Node.everyList_iff.mpr fun node hnode => hlevel node (List.mem_reverse.mp hnode)

end Sound

end Conversion

/-- The nodes that a walk with named attributes plays back to have canonical properties. -/
theorem every_play {walk : List Edge} (h : Named walk) :
    Node.EveryList Properties.Canonical (Conversion.play walk) :=
  (Conversion.sound_empty.foldl_step h).finish

/-- A walk through a draft opens the items of the draft. -/
theorem Draft.named_walk {draft : Draft} (h : Named draft) (top : ItemId) :
    Named (draft.walk top) := by
  intro edge hedge
  obtain ⟨stop, -, hstop⟩ := List.mem_filterMap.mp hedge
  cases stop with
  | entering id =>
      obtain ⟨entry, hentry, rfl⟩ := Option.map_eq_some_iff.mp hstop
      exact h id entry hentry
  | leaving id =>
      obtain ⟨entry, -, rfl⟩ := Option.map_eq_some_iff.mp hstop
      trivial

/-- The nodes below an item of a draft with named attributes have canonical properties. -/
theorem Draft.every_nodesBelow {draft : Draft} (h : Named draft) (top : ItemId) :
    Node.EveryList Properties.Canonical (draft.nodesBelow top) :=
  every_play (Draft.named_walk h top)

end Markup

namespace Node

open Markup

-- The trees are named by equations: in a goal about `ofDocument text` itself the text would be
-- parsed whenever the goal is looked at.
variable {text : String} {tree : Node}

/-- The tree of a document has canonical properties. -/
theorem every_of_ofDocument (h : ofDocument text = tree) : tree.Every Properties.Canonical := by
  subst h
  have hnamed := named_parseDocument text
  unfold ofDocument
  generalize parseDocument text = parsed at hnamed ⊢
  exact Draft.every_nodesBelow hnamed parsed.top

/-- The tree of a fragment has canonical properties. -/
theorem every_of_ofFragment (h : ofFragment text = tree) : tree.Every Properties.Canonical := by
  subst h
  have hnamed := named_parseFragment text
  unfold ofFragment
  generalize parseFragment text = parsed at hnamed ⊢
  have hbelow : ∀ root : Option ItemId,
      EveryList Properties.Canonical ((root.map parsed.draft.nodesBelow).getD []) := by
    rintro (_ | root)
    · trivial
    · exact Draft.every_nodesBelow hnamed root
  exact hbelow parsed.rootElement?

/-- The tree of a text has canonical properties. -/
theorem every_of_ofText {format : Format} (h : ofText format text = .ok tree) :
    tree.Every Properties.Canonical := by
  unfold ofText at h
  split at h
  · split at h
    · next hnode =>
      cases h
      exact every_of_ofJson hnode
    · cases h
  · exact every_of_ofDocument (Except.ok.inj h)
  · exact every_of_ofFragment (Except.ok.inj h)

end Node

end CellAlign
