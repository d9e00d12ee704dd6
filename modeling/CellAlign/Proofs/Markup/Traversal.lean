import CellAlign.Markup.Construction
import CellAlign.Markup.Render
import CellAlign.Proofs.Markup.Outline
import CellAlign.Proofs.Markup.Playback
import Mathlib.Data.List.Chain

/-!
# The walk through a draft

A walk through a draft goes down to the first child and on to the next neighbour by the links of the
outline, but it goes up to the parent that a last child names.

* `stops_eq_iff`: the walk below an item enters and leaves each item of the outline once and in its
  order exactly if every last child names its parent;
* `walk_eq_edgesList`: it is then the walk through the tree of the draft;
* `stops_eq_iff_namesParents`: the conversion of what is below any item is then the conversion by
  recursion, with none of its fallbacks taken.

Moving children all at once lets those between the first and the last go on naming the old parent;
when the last one is taken away, the walk goes astray, and there is markup for which this happens
(`nodesBelow_astray`).
-/

namespace CellAlign.Markup

namespace Outline

mutual

/-- The stops of a walk through an outline. -/
def stops : Outline → List Draft.Stop
  | node top inner => .entering top :: (stopsList inner ++ [.leaving top])

/-- The stops of the walks through a row of outlines, one after the other. -/
def stopsList : List Outline → List Draft.Stop
  | [] => []
  | outline :: row => outline.stops ++ stopsList row

end

/-- A walk through an outline starts by entering its top. -/
theorem head?_stops (outline : Outline) : outline.stops.head? = some (.entering outline.top) := by
  cases outline
  rw [stops]
  rfl

/-- A walk through an outline ends by leaving its top. -/
theorem getLast?_stops (outline : Outline) :
    outline.stops.getLast? = some (.leaving outline.top) := by
  cases outline
  rw [stops, ← List.cons_append, List.getLast?_concat]
  rfl

/-- The walk through a row starts by entering the first item, if there is one. -/
theorem head?_stopsList (row : List Outline) :
    (stopsList row).head? = row.head?.map fun outline => .entering outline.top := by
  cases row with
  | nil => rfl
  | cons outline row =>
      rw [stopsList, List.head?_append, head?_stops]
      rfl

mutual

/-- A walk has two stops at each item. -/
theorem length_stops : (outline : Outline) → outline.stops.length = 2 * outline.ids.length
  | node top inner => by
      have h := length_stopsList inner
      simp only [stops, ids, List.length_cons, List.length_append, List.length_nil]
      omega

/-- The walk through a row has two stops at each item. -/
theorem length_stopsList : (row : List Outline) →
    (stopsList row).length = 2 * (idsList row).length
  | [] => rfl
  | outline :: row => by
      have hfirst := length_stops outline
      have hrest := length_stopsList row
      simp only [stopsList, idsList, List.length_append]
      omega

end

mutual

/-- A walk has no stop at an item that is not there. -/
theorem isAt_stops (other : ItemId) : (outline : Outline) → other ∉ outline.ids →
    ∀ stop ∈ outline.stops, stop.isAt other = false
  | node top inner, hother, stop, hstop => by
      rw [ids, List.mem_cons, not_or] at hother
      have htop : top ≠ other := fun heq => hother.1 heq.symm
      rw [stops, List.mem_cons, List.mem_append, List.mem_singleton] at hstop
      rcases hstop with rfl | hstop | rfl
      · simpa [Draft.Stop.isAt] using htop
      · exact isAt_stopsList other inner hother.2 stop hstop
      · simpa [Draft.Stop.isAt] using htop

/-- The walk through a row has no stop at an item that is not there. -/
theorem isAt_stopsList (other : ItemId) : (row : List Outline) → other ∉ idsList row →
    ∀ stop ∈ stopsList row, stop.isAt other = false
  | [], _, stop, hstop => by simp [stopsList] at hstop
  | outline :: row, hother, stop, hstop => by
      rw [idsList, List.mem_append, not_or] at hother
      rw [stopsList, List.mem_append] at hstop
      rcases hstop with hstop | hstop
      · exact isAt_stops other outline hother.1 stop hstop
      · exact isAt_stopsList other row hother.2 stop hstop

end

end Outline

namespace Draft

open Outline (ids idsList parts partsList treeList stopsList)

variable {draft : Draft} {top : ItemId}

/-- Of some outlines, every last child names its parent. -/
def NamesParents (draft : Draft) (outlines : List Outline) : Prop :=
  ∀ part ∈ outlines, ∀ last ∈ part.inner.getLast?, draft.parent? last.top = some part.top

/-- The last child of the first of some outlines names its parent, and so it is with the others. -/
theorem namesParents_cons (outline : Outline) (outlines : List Outline) :
    draft.NamesParents (outline :: outlines) ↔
      (∀ last ∈ outline.inner.getLast?, draft.parent? last.top = some outline.top) ∧
        draft.NamesParents outlines :=
  List.forall_mem_cons

/-- Outlines behind others. -/
theorem namesParents_append (before after : List Outline) :
    draft.NamesParents (before ++ after) ↔
      draft.NamesParents before ∧ draft.NamesParents after :=
  List.forall_mem_append

/-! ## The stops of a walk -/

/-- The next stop of a walk that ends when `top` is left. -/
def Goes (draft : Draft) (top : ItemId) (stop next : Stop) : Prop :=
  stop.next? draft top = some next

/-- From a stop a walk goes on as the links say. -/
theorem isChain_stopsFrom (draft : Draft) (top : ItemId) (limit : Nat) (stop : Stop) :
    (draft.stopsFrom top limit stop).IsChain (draft.Goes top) ∧
      (draft.stopsFrom top limit stop).head? = if limit = 0 then none else some stop := by
  induction limit generalizing stop with
  | zero => exact ⟨.nil, rfl⟩
  | succ limit ih =>
      rw [stopsFrom]
      cases hnext : stop.next? draft top with
      | none => exact ⟨.singleton stop, rfl⟩
      | some next =>
          refine ⟨(ih next).1.cons ?_, rfl⟩
          intro other hother
          rw [(ih next).2] at hother
          have heq : next = other := by
            split at hother
            · cases hother
            · exact Option.some.inj hother
          exact heq ▸ hnext

/-- A walk has the stops of a chain that ends where the walk does. -/
theorem stopsFrom_of_isChain
    {limit : Nat} {stop final : Stop} {rest : List Stop}
    (hchain : (stop :: rest).IsChain (draft.Goes top))
    (hfinal : (stop :: rest).getLast? = some final) (hend : final.next? draft top = none)
    (hlimit : rest.length < limit) :
    draft.stopsFrom top limit stop = stop :: rest := by
  induction rest generalizing stop limit with
  | nil =>
      obtain ⟨limit, rfl⟩ := Nat.exists_eq_succ_of_ne_zero (Nat.ne_of_gt hlimit)
      obtain rfl : stop = final := by simpa using hfinal
      rw [stopsFrom, hend]
  | cons next rest ih =>
      obtain ⟨limit, rfl⟩ := Nat.exists_eq_succ_of_ne_zero (Nat.ne_zero_of_lt hlimit)
      rw [List.isChain_cons_cons] at hchain
      rw [List.getLast?_cons_cons] at hfinal
      have hnext : stop.next? draft top = some next := hchain.1
      rw [stopsFrom, hnext]
      exact congrArg (stop :: ·) (ih hchain.2 hfinal (by simpa using hlimit))

mutual

/-- The stops at an outline are a chain exactly if every last child in it names its parent. -/
theorem isChain_stops : (outline : Outline) → draft.Holds outline → top ∉ idsList outline.inner →
    (outline.stops.IsChain (draft.Goes top) ↔ draft.NamesParents outline.parts)
  | .node item inner, h, htop => by
      rw [Holds] at h
      have hfirst : ∀ next ∈ (stopsList inner ++ [Stop.leaving item]).head?,
          draft.Goes top (.entering item) next := by
        intro next hnext
        rw [List.head?_append, Outline.head?_stopsList] at hnext
        rw [Goes, Stop.next?, first?, h.2.1, Outline.ends]
        cases inner with
        | nil => simpa using hnext
        | cons child inner =>
            obtain ⟨last, hlast⟩ : ∃ last, (child :: inner).getLast? = some last :=
              ⟨_, List.getLast?_eq_some_getLast (by simp)⟩
            simpa [hlast] using hnext
      rw [Outline.stops, List.isChain_cons, and_iff_right hfirst,
        isChain_stopsList inner item h.2.2 htop, parts, namesParents_cons]
      rfl

/-- The stops at the children of an item, up to its end, are a chain exactly if the last of them
names the item, and those further down name their parents. -/
theorem isChain_stopsList : (row : List Outline) → (parent : ItemId) → draft.HoldsRow row →
    top ∉ idsList row →
    ((stopsList row ++ [Stop.leaving parent]).IsChain (draft.Goes top) ↔
      (∀ last ∈ row.getLast?, draft.parent? last.top = some parent) ∧
        draft.NamesParents (partsList row))
  | [], parent, _, _ => by simp [stopsList, NamesParents, partsList]
  | outline :: row, parent, h, htop => by
      rw [HoldsRow] at h
      rw [idsList, List.mem_append, not_or] at htop
      have hne : outline.top ≠ top := by
        cases outline
        rw [ids, List.mem_cons, not_or] at htop
        exact fun heq => htop.1.1 heq.symm
      have hinner : top ∉ idsList outline.inner := by
        cases outline
        rw [ids, List.mem_cons, not_or] at htop
        exact htop.1.2
      -- From the end of one child the walk goes on to the next one by the link between them; only
      -- from the end of the last one does it go where that child says.
      have hlink : (∀ stop ∈ outline.stops.getLast?,
          ∀ next ∈ (stopsList row ++ [Stop.leaving parent]).head?, draft.Goes top stop next) ↔
            (row = [] → draft.parent? outline.top = some parent) := by
        rw [Outline.getLast?_stops, List.head?_append, Outline.head?_stopsList]
        cases row with
        | nil => simp [Goes, Stop.next?, if_neg hne, h.2.1]
        | cons next row => simp [Goes, Stop.next?, if_neg hne, h.2.1]
      rw [stopsList, List.append_assoc, List.isChain_append, isChain_stops outline h.1 hinner,
        isChain_stopsList row parent h.2.2 htop.2, hlink, partsList,
        namesParents_append]
      cases row with
      | nil => simp [NamesParents, partsList, and_comm]
      | cons next row =>
          have hmore : next :: row = [] → draft.parent? outline.top = some parent := nofun
          rw [List.getLast?_cons_cons, and_iff_left hmore]
          exact and_left_comm

end

/-- The walk below the top of an outline makes the stops of the outline exactly if every last child
names its parent. -/
theorem stops_eq_iff
    {outline : Outline} (h : draft.Holds outline) (hids : outline.ids.Nodup) :
    draft.stops outline.top = outline.stops ↔ draft.NamesParents outline.parts := by
  have htop : outline.top ∉ idsList outline.inner := by
    cases outline
    rw [ids, List.nodup_cons] at hids
    exact hids.1
  rw [← isChain_stops outline h htop]
  constructor
  · intro heq
    rw [← heq]
    exact (isChain_stopsFrom draft outline.top _ _).1
  · intro hchain
    have hlength := Outline.length_stops outline
    have hsize := length_ids_le h hids
    have hfinal := Outline.getLast?_stops outline
    cases outline with
    | node top inner =>
        rw [Outline.stops] at hchain hlength hfinal ⊢
        refine stopsFrom_of_isChain hchain hfinal (by simp [Stop.next?, Outline.top]) ?_
        rw [List.length_cons] at hlength
        omega

/-! ## The edges of a walk -/

mutual

/-- The edges at the stops of an outline are those of its tree. -/
theorem filterMap_stops : (outline : Outline) → draft.Holds outline →
    outline.stops.filterMap (Stop.edge? draft) = (outline.tree draft).edges
  | .node item inner, h => by
      rw [Holds] at h
      obtain ⟨entry, hentry⟩ := Option.isSome_iff_exists.mp h.1
      rw [Outline.stops, Outline.tree, Tree.edges, List.filterMap_cons, List.filterMap_append,
        filterMap_stopsList inner h.2.2]
      simp [Stop.edge?, hentry]

/-- The edges at the stops of a row are those of its trees. -/
theorem filterMap_stopsList : (row : List Outline) → draft.HoldsRow row →
    (stopsList row).filterMap (Stop.edge? draft) = Tree.edgesList (treeList draft row)
  | [], _ => rfl
  | outline :: row, h => by
      rw [HoldsRow] at h
      rw [stopsList, treeList, Tree.edgesList, List.filterMap_append,
        filterMap_stops outline h.1, filterMap_stopsList row h.2.2]

end

/-- If every last child names its parent, the walk is that through the tree of the draft. -/
theorem walk_eq_edgesList
    {outline : Outline} (h : draft.Holds outline) (hids : outline.ids.Nodup)
    (hnames : draft.NamesParents outline.parts) :
    draft.walk outline.top = Tree.edgesList (draft.tree outline.top).children := by
  have hstops := (stops_eq_iff h hids).mpr hnames
  rw [walk, hstops, tree_of_holds h hids]
  cases outline with
  | node top inner =>
      rw [Holds] at h
      rw [ids, List.nodup_cons] at hids
      have hinner : ∀ stop ∈ stopsList inner, (!stop.isAt top) = true := by
        intro stop hstop
        rw [Outline.isAt_stopsList top inner hids.1 stop hstop]
        rfl
      have hfilter : (Outline.node top inner).stops.filter (fun stop => !stop.isAt top) =
          stopsList inner := by
        rw [Outline.stops, List.filter_cons_of_neg (by simp [Stop.isAt]), List.filter_append,
          List.filter_eq_self.mpr hinner, List.filter_cons_of_neg (by simp [Stop.isAt]),
          List.filter_nil, List.append_nil]
      rw [Outline.top, hfilter, filterMap_stopsList inner h.2.2]
      rfl

/-- Below any item of an outline that a draft holds, the walk enters and leaves the items once and
in their order exactly if every last child there names its parent.  If so, it is the walk through
the tree, which becomes what it becomes by recursion, and no fallback is taken on it. -/
theorem stops_eq_iff_namesParents
    (draft : Draft) (outline : Outline) (hholds : draft.Holds outline)
    (hids : outline.ids.Nodup) :
    ∀ part ∈ outline.parts,
      (draft.stops part.top = part.stops ↔ draft.NamesParents part.parts) ∧
        (draft.NamesParents part.parts →
          draft.walk part.top = Tree.edgesList (draft.tree part.top).children ∧
            draft.nodesBelow part.top = Tree.convertList (draft.tree part.top).children ∧
            Steady (draft.walk part.top)) := by
  intro part hpart
  have hheld := hholds.part outline part hpart
  have hnodup := (outline.ids_sublist part hpart).nodup hids
  refine ⟨stops_eq_iff hheld hnodup, ?_⟩
  intro hnames
  have hwalk := walk_eq_edgesList hheld hnodup hnames
  refine ⟨hwalk, ?_, ?_⟩
  · rw [nodesBelow, hwalk, play_edgesList]
  · rw [hwalk]
    exact steady_edgesList _

/-! ## Children that are moved all at once -/

/-- A paragraph with three comments that were moved all at once into a link in the paragraph. -/
def adopted : Draft :=
  let draft : Draft := { entries := #[
    { item := .document }, { item := .element (.html "p") [] }, { item := .comment "x" },
    { item := .comment "y" }, { item := .comment "z" }, { item := .element (.html "a") [] }] }
  let draft := (((draft.append 0 1).append 1 2).append 1 3).append 1 4
  (draft.moveChildren 1 5).append 1 5

/-- The comment in the middle goes on naming the paragraph, but the last one names the link, and so
the walk is the right one. -/
theorem stops_adopted :
    let outline : Outline := .node 0 [.node 1 [.node 5 [.node 2 [], .node 3 [], .node 4 []]]]
    adopted.Holds outline ∧ outline.ids.Nodup ∧ adopted.parent? 3 = some 1 ∧
      adopted.stops 0 = outline.stops ∧
      adopted.nodesBelow 0 = Tree.convertList (adopted.tree 0).children := by
  intro outline
  have hholds : adopted.Holds outline := by
    simp only [outline, Holds, HoldsRow]
    decide
  have hids : outline.ids.Nodup := by decide
  have hnames : adopted.NamesParents outline.parts := by
    unfold NamesParents
    decide
  have h := stops_eq_iff_namesParents adopted outline hholds hids outline (by simp [outline, parts])
  exact ⟨hholds, hids, by decide, h.1.mpr hnames, (h.2 hnames).2.1⟩

/-- A link is still open in this fragment where the next one starts.  To close it, all children of
the form inside it are moved at once into a new link, and the second paragraph is then taken out of
that link again.  So the first paragraph, now the last child there, still names the form, and the
walk leaves the form after it: the new link is never left, and the second paragraph is never
entered. -/
theorem nodesBelow_astray :
    let parsed := parseFragment "<a><form>y<p><p><a>"
    let outline : Outline :=
      .node 0 [.node 1 [.node 2 [], .node 3 [
        .node 7 [.node 4 [], .node 5 []], .node 6 [.node 8 [], .node 9 []]]]]
    parsed.draft.Holds outline ∧ outline.ids.Nodup ∧ parsed.rootElement? = some 1 ∧
      parsed.draft.parent? 5 = some 3 ∧
      (Node.root (Tree.convertList (parsed.draft.tree 1).children)).toHtml =
        "<a></a><form><a>y<p></p></a><p><a></a><a></a></p></form>" ∧
      (Node.root (parsed.draft.nodesBelow 1)).toHtml = "<a>y<p></p></a>" ∧
      parsed.draft.nodesBelow 1 ≠ Tree.convertList (parsed.draft.tree 1).children := by
  intro parsed outline
  have hholds : parsed.draft.Holds outline := by
    simp only [outline, Holds, HoldsRow]
    decide +kernel
  have htree : (Node.root (Tree.convertList (parsed.draft.tree 1).children)).toHtml =
      "<a></a><form><a>y<p></p></a><p><a></a><a></a></p></form>" := by decide +kernel
  have hwalk : (Node.root (parsed.draft.nodesBelow 1)).toHtml = "<a>y<p></p></a>" := by
    decide +kernel
  refine ⟨hholds, by decide, by decide +kernel, by decide +kernel, htree, hwalk, fun heq => ?_⟩
  rw [heq, htree] at hwalk
  exact absurd hwalk (by decide)

end Draft

end CellAlign.Markup
