import CellAlign.Markup.Parsed

/-!
# Playing back a walk through parsed markup

A walk through trees opens and closes each item once, and what it closes is what it opened last.
`Leads` says this for any part of a walk: it leads from the items open before it to those open
behind it.

* `play_edgesList`: the walk through a row of trees plays back to what the trees become;
* `Conversion.Follows`: what a conversion has open, told by the items that are open;
* `follows_foldl_step`: a conversion follows a walk from any place in it to any later one;
* `steady_edgesList`: on a walk through trees there is always one level more than there are open
  elements, and each element that closes is the one that was opened last.
-/

namespace CellAlign.Markup

open CellAlign.Markup.Tree

/-! ## The nodes that a walk plays back to -/

mutual

/-- The walk through a tree adds to the innermost level what the tree becomes. -/
theorem foldl_edges : (tree : Tree) → (opened : List (String × Properties)) →
    (level : List Node) → (levels : List (List Node)) →
    tree.edges.foldl Conversion.step { opened, levels := level :: levels } =
      { opened, levels := (tree.convert.reverse ++ level) :: levels }
  | .node (.element name attributes) children, opened, level, levels => by
      rw [edges, List.cons_append, List.foldl_cons, List.foldl_append]
      simp only [Conversion.step]
      rw [foldl_edgesList children _ [] (level :: levels)]
      simp [Conversion.step, Conversion.add, convert]
  | .node .document children, opened, level, levels
  | .node .fragment children, opened, level, levels
  | .node (.instruction _ _) children, opened, level, levels => by
      rw [edges, List.cons_append, List.foldl_cons, List.foldl_append]
      simp only [Conversion.step, Item.leaf?]
      rw [foldl_edgesList children opened level levels]
      simp [Conversion.step, convert, Item.leaf?]
  | .node (.doctype _ _ _) children, opened, level, levels
  | .node (.comment _) children, opened, level, levels
  | .node (.text _) children, opened, level, levels => by
      rw [edges, List.cons_append, List.foldl_cons, List.foldl_append]
      simp only [Conversion.step, Item.leaf?, Conversion.add]
      rw [foldl_edgesList children opened (_ :: level) levels]
      simp [Conversion.step, convert, Item.leaf?]

/-- The walk through a row of trees adds to the innermost level what the trees become. -/
theorem foldl_edgesList : (trees : List Tree) → (opened : List (String × Properties)) →
    (level : List Node) → (levels : List (List Node)) →
    (edgesList trees).foldl Conversion.step { opened, levels := level :: levels } =
      { opened, levels := ((convertList trees).reverse ++ level) :: levels }
  | [], opened, level, levels => by simp [edgesList, convertList]
  | tree :: trees, opened, level, levels => by
      rw [edgesList, List.foldl_append, foldl_edges tree opened level levels,
        foldl_edgesList trees opened _ levels]
      simp [convertList]

end

/-- The walk through a row of trees plays back to what the trees become. -/
theorem play_edgesList (trees : List Tree) :
    Conversion.play (edgesList trees) = convertList trees := by
  rw [Conversion.play, foldl_edgesList trees [] [] []]
  simp [Conversion.finish]

/-! ## The items that are open on a walk -/

/-- A part of a walk leads from the items open before it to those open behind it, innermost
first. -/
inductive Leads : List Item → List Edge → List Item → Prop
  | here (around : List Item) : Leads around [] around
  | opening {around final : List Item} {walk : List Edge} (item : Item)
      (rest : Leads (item :: around) walk final) : Leads around (.opening item :: walk) final
  | closing {around final : List Item} {walk : List Edge} (item : Item)
      (rest : Leads around walk final) : Leads (item :: around) (.closing item :: walk) final

/-- One part of a walk behind another. -/
theorem Leads.append
    {a b c : List Item} {before after : List Edge}
    (hbefore : Leads a before b) (hafter : Leads b after c) :
    Leads a (before ++ after) c := by
  induction hbefore with
  | here => exact hafter
  | opening item _ ih => exact .opening item (ih hafter)
  | closing item _ ih => exact .closing item (ih hafter)

/-- At every place in a walk some items are open. -/
theorem Leads.split
    {a c : List Item} {before after : List Edge} (h : Leads a (before ++ after) c) :
    ∃ b, Leads a before b ∧ Leads b after c := by
  induction before generalizing a with
  | nil => exact ⟨a, .here a, h⟩
  | cons edge before ih =>
      cases h with
      | opening item rest =>
          obtain ⟨b, hbefore, hafter⟩ := ih rest
          exact ⟨b, .opening item hbefore, hafter⟩
      | closing item rest =>
          obtain ⟨b, hbefore, hafter⟩ := ih rest
          exact ⟨b, .closing item hbefore, hafter⟩

mutual

/-- The walk through a tree leaves open what was open. -/
theorem leads_edges : (tree : Tree) → (around : List Item) → Leads around tree.edges around
  | .node item children, around => by
      have hinner := leads_edgesList children (item :: around)
      exact .opening item (hinner.append (.closing item (.here around)))

/-- The walk through a row of trees leaves open what was open. -/
theorem leads_edgesList :
    (trees : List Tree) → (around : List Item) → Leads around (edgesList trees) around
  | [], around => .here around
  | tree :: trees, around => (leads_edges tree around).append (leads_edgesList trees around)

end

/-! ## What a conversion has open -/

/-- What a conversion keeps of an item while it is open. -/
def Item.kept? : Item → Option (String × Properties)
  | element name attributes => some (name.localName, propertiesOf attributes)
  | _ => none

/-- A conversion at a place of a walk: its open elements are those among the open items, and it has
one level more. -/
structure Conversion.Follows (conversion : Conversion) (around : List Item) : Prop where
  opened : conversion.opened = around.filterMap Item.kept?
  levels : conversion.levels.length = conversion.opened.length + 1

/-- A finished node leaves a conversion at its place. -/
theorem Conversion.Follows.add
    {conversion : Conversion} {around : List Item} (h : conversion.Follows around) (node : Node) :
    (conversion.add node).Follows around := by
  obtain ⟨opened, levels⟩ := conversion
  cases levels with
  | nil => exact h
  | cons level levels => exact ⟨h.opened, by simpa [Conversion.add] using h.levels⟩

/-- Opening an item. -/
theorem Conversion.Follows.opening
    {conversion : Conversion} {around : List Item} (h : conversion.Follows around) (item : Item) :
    (conversion.step (.opening item)).Follows (item :: around) := by
  have hopened := h.opened
  have hlevels := h.levels
  cases item with
  | element name attributes =>
      exact ⟨by simp [Conversion.step, Item.kept?, hopened], by simp [Conversion.step, hlevels]⟩
  | document | fragment | instruction _ _ =>
      refine ⟨?_, hlevels⟩
      rw [List.filterMap_cons_none rfl]
      exact hopened
  | doctype _ _ _ | comment _ | text _ =>
      have hadd := h.add
      refine ⟨?_, (hadd _).levels⟩
      rw [List.filterMap_cons_none rfl]
      exact (hadd _).opened

/-- Closing the item that was opened last. -/
theorem Conversion.Follows.closing
    {conversion : Conversion} {item : Item} {around : List Item}
    (h : conversion.Follows (item :: around)) :
    (conversion.step (.closing item)).Follows around := by
  obtain ⟨opened, levels⟩ := conversion
  obtain ⟨hopened, hlevels⟩ := h
  cases item with
  | element name attributes =>
      -- There is an open element, so there are two levels: the fallbacks are out of reach.
      simp only [List.filterMap_cons, Item.kept?] at hopened
      subst hopened
      match levels, hlevels with
      | level :: outer :: levels, hlevels =>
          refine ⟨by simp [Conversion.step, Conversion.add], ?_⟩
          simpa [Conversion.step, Conversion.add] using hlevels
      | [_], hlevels => simp at hlevels
      | [], hlevels => simp at hlevels
  | document | fragment | instruction _ _ | doctype _ _ _ | comment _ | text _ =>
      rw [List.filterMap_cons_none rfl] at hopened
      exact ⟨hopened, hlevels⟩

/-- A conversion follows a walk. -/
theorem follows_foldl_step
    {around final : List Item} {walk : List Edge} (hwalk : Leads around walk final)
    {conversion : Conversion} (h : conversion.Follows around) :
    (walk.foldl Conversion.step conversion).Follows final := by
  induction hwalk generalizing conversion with
  | here => exact h
  | opening item _ ih => exact ih (h.opening item)
  | closing item _ ih => exact ih h.closing

/-- A walk on which a conversion always has one level more than open elements, and on which each
element that closes is the one that was opened last. -/
def Steady (walk : List Edge) : Prop :=
  ∀ before after, walk = before ++ after →
    let conversion := before.foldl Conversion.step {}
    conversion.levels.length = conversion.opened.length + 1 ∧
      ∀ name attributes rest, after = .closing (.element name attributes) :: rest →
        conversion.opened.head? = some (name.localName, propertiesOf attributes)

/-- The walk through a row of trees is steady. -/
theorem steady_edgesList (trees : List Tree) : Steady (edgesList trees) := by
  intro before after hsplit
  have hwalk := leads_edgesList trees []
  rw [hsplit] at hwalk
  obtain ⟨around, hbefore, hafter⟩ := hwalk.split
  have hstart : ({} : Conversion).Follows [] := ⟨rfl, rfl⟩
  have hfollows := follows_foldl_step hbefore hstart
  refine ⟨hfollows.levels, ?_⟩
  intro name attributes rest hclose
  subst hclose
  cases hafter with
  | closing => simp [hfollows.opened, Item.kept?]

end CellAlign.Markup
