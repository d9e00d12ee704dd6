import CellAlign.Markup.Formatting
import CellAlign.Proofs.Markup.AttributeNames

/-!
# What the construction keeps

A state of the construction carries attributes in its draft, on its list of formatting elements and
in the tokens it has put aside.  A step keeps the names of attributes if it leads from a state with
named attributes to one with named attributes and answers nothing else, `Keeps`.  Steps made of such
steps are such steps, `Keeps.bind`; so there is a lemma for each step that the rules are made of, and
the adoption of formatting elements is put together from them.
-/

namespace CellAlign.Markup

instance : HasNames Format where
  Named
    | .element _ tag => Named tag
    | .mark => True

instance : HasNames Build.Bookmark := ⟨fun _ => True⟩

instance : HasNames Builder :=
  ⟨fun b => Named b.draft ∧ Named b.formats ∧ Named b.tableText⟩

@[grind =]
theorem named_builder {b : Builder} :
    Named b ↔ Named b.draft ∧ Named b.formats ∧ Named b.tableText := Iff.rfl

@[grind =]
theorem named_format {id : ItemId} {tag : Tag} : Named (Format.element id tag) ↔ Named tag := Iff.rfl

@[grind ←]
theorem named_mark : Named Format.mark := trivial

@[grind =]
theorem named_pair {α β : Type} [HasNames α] [HasNames β] {a : α} {b : β} :
    Named (a, b) ↔ Named a ∧ Named b := Iff.rfl

@[grind ←]
theorem named_unit (u : Unit) : Named u := trivial

@[grind ←]
theorem named_bool (answer : Bool) : Named answer := trivial

@[grind ←]
theorem named_itemId (id : ItemId) : Named id := trivial

@[grind ←]
theorem named_bookmark (bookmark : Build.Bookmark) : Named bookmark := trivial

@[grind ←]
theorem named_openElement (e : OpenElement) : Named e := trivial

/-- A tag that no attributes are given for. -/
@[grind ←]
theorem named_bareTag (name : String) : Named ({ name } : Tag) := by
  intro a ha
  cases ha

/-- A step that leads from named attributes to named attributes. -/
def Keeps {α : Type} [HasNames α] (step : Build α) : Prop :=
  ∀ b : Builder, Named b → Named (step b).1 ∧ Named (step b).2

namespace Keeps

variable {α β : Type} [HasNames α] [HasNames β]

@[grind ←]
protected theorem pure {answer : α} (h : Named answer) : Keeps (pure answer) := by
  intro b hb
  exact ⟨h, hb⟩

@[grind ←]
protected theorem bind {step : Build α} {next : α → Build β} (h : Keeps step)
    (hnext : ∀ answer, Named answer → Keeps (next answer)) : Keeps (step >>= next) := by
  intro b hb
  obtain ⟨hanswer, hb'⟩ := h b hb
  exact hnext _ hanswer _ hb'

@[grind ←]
protected theorem get : Keeps get := by
  intro b hb
  exact ⟨hb, hb⟩

@[grind ←]
protected theorem set {b : Builder} (h : Named b) : Keeps (set b) := by
  intro _ _
  exact ⟨trivial, h⟩

@[grind ←]
protected theorem modify {change : Builder → Builder} (h : ∀ b, Named b → Named (change b)) :
    Keeps (modify change) := by
  intro b hb
  exact ⟨trivial, h b hb⟩

@[grind ←]
protected theorem modifyGet {change : Builder → α × Builder}
    (h : ∀ b, Named b → Named (change b).1 ∧ Named (change b).2) : Keeps (modifyGet change) :=
  fun b hb => h b hb

/-- A choice between two steps, whatever it depends on. -/
protected theorem ite {c : Prop} [Decidable c] {step other : Build α} (h : Keeps step)
    (hother : Keeps other) : Keeps (if c then step else other) := by
  split
  · exact h
  · exact hother

end Keeps

namespace Build

/-! ## The steps that rules are made of -/

@[grind ←]
theorem keeps_setMode (mode : Mode) : Keeps (setMode mode) := by
  grind [setMode]

@[grind ←]
theorem keeps_onOpened (change : OpenElements → OpenElements) : Keeps (onOpened change) := by
  grind [onOpened]

@[grind ←]
theorem keeps_close : Keeps close := by
  grind [close]

@[grind ←]
theorem keeps_forbidFrameset : Keeps forbidFrameset := by
  grind [forbidFrameset]

@[grind ←]
theorem named_putItem {draft : Draft} (h : Named draft) (place : Place) (id : ItemId) :
    Named (putItem draft place id) := by
  cases place <;> grind [putItem]

@[grind ←]
theorem named_putText {draft : Draft} (h : Named draft) (place : Place) (text : String) :
    Named (putText draft place text) := by
  cases place <;> grind [putText]

@[grind ←]
theorem keeps_addText (text : String) : Keeps (addText text) := by
  grind [addText]

@[grind ←]
theorem keeps_addComment (text : String) : Keeps (addComment text) := by
  grind [addComment]

@[grind ←]
theorem keeps_addCommentTo (parent : ItemId) (text : String) : Keeps (addCommentTo parent text) := by
  grind [addCommentTo]

@[grind ←]
theorem keeps_addElement (name : Name) {attributes : List Attribute} (h : Named attributes) :
    Keeps (addElement name attributes) := by
  grind [addElement]

@[grind ←]
theorem keeps_push (e : OpenElement) : Keeps (push e) := by
  grind [push]

@[grind ←]
theorem keeps_openTag {tag : Tag} (h : Named tag) : Keeps (openTag tag) := by
  grind [openTag]

@[grind ←]
theorem keeps_openFor {tag : Tag} (h : Named tag) : Keeps (openFor tag) := by
  grind [openFor]

@[grind ←]
theorem keeps_addFor {tag : Tag} (h : Named tag) : Keeps (addFor tag) := by
  grind [addFor]

@[grind ←]
theorem keeps_openRoot {attributes : List Attribute} (h : Named attributes) :
    Keeps (openRoot attributes) := by
  grind [openRoot]

@[grind ←]
theorem keeps_enterText (region : Region) : Keeps (enterText region) := by
  grind [enterText]

@[grind ←]
theorem keeps_openText {tag : Tag} (h : Named tag) (region : Region) :
    Keeps (openText tag region) := by
  grind [openText]

@[grind ←]
theorem keeps_closeNamed (name : String) : Keeps (closeNamed name) := by
  grind [closeNamed]

@[grind ←]
theorem keeps_closeImplied : Keeps closeImplied := by
  grind [closeImplied]

@[grind ←]
theorem keeps_closeImpliedBut (name : String) : Keeps (closeImpliedBut name) := by
  grind [closeImpliedBut]

@[grind ←]
theorem keeps_closeParagraph : Keeps closeParagraph := by
  grind [closeParagraph]

@[grind ←]
theorem keeps_closeParagraphInButton : Keeps closeParagraphInButton := by
  grind [closeParagraphInButton]

@[grind ←]
theorem keeps_pushMark : Keeps pushMark := by
  grind [pushMark]

/-- The formatting elements before a mark are some of all. -/
@[grind ←]
theorem named_dropToMark {formats : List Format} (h : Named formats) : Named (dropToMark formats) := by
  fun_induction dropToMark formats with
  | case1 => exact h
  | case2 rest => exact (named_cons.mp h).2
  | case3 rest id tag ih => exact ih (named_cons.mp h).2

@[grind ←]
theorem keeps_clearToMark : Keeps clearToMark := by
  grind [clearToMark]

@[grind ←]
theorem keeps_resetMode : Keeps resetMode := by
  grind [resetMode]

/-! ## Formatting elements -/

section Formats

variable {formats : List Format}

theorem named_recent (h : Named formats) : Named (recent formats) := by
  fun_induction recent formats with
  | case1 => exact named_nil.mpr trivial
  | case2 rest => exact named_nil.mpr trivial
  | case3 id tag rest ih =>
      obtain ⟨htag, hrest⟩ := named_cons.mp h
      exact named_cons.mpr ⟨⟨trivial, htag⟩, ih hrest⟩

/-- The tag of an element that is found among the latest ones. -/
@[grind →]
theorem named_of_find?_recent (h : Named formats) {accepts : ItemId × Tag → Bool} {id : ItemId}
    {tag : Tag} (hfind : (recent formats).find? accepts = some (id, tag)) : Named tag :=
  (named_recent h (id, tag) (List.mem_of_find?_eq_some hfind)).2

@[grind →]
theorem named_of_formatTag? (h : Named formats) {id : ItemId} {tag : Tag}
    (htag : formatTag? formats id = some tag) : Named tag := by
  obtain ⟨f, hf, hsome⟩ := List.exists_of_findSome?_eq_some htag
  cases f with
  | mark => cases hsome
  | element other found =>
      have hfound : found = tag := by grind
      exact hfound ▸ h _ hf

@[grind ←]
theorem named_dropFormat (h : Named formats) (id : ItemId) : Named (dropFormat formats id) :=
  fun f hf => h f (List.mem_filter.mp hf).1

@[grind ←]
theorem named_replaceFormat (h : Named formats) (id : ItemId) {new : Format} (hnew : Named new) :
    Named (replaceFormat formats id new) := by
  intro f hf
  obtain ⟨old, hold, rfl⟩ := List.mem_map.mp hf
  have hold' : Named old := h old hold
  grind

@[grind ←]
theorem named_insertLater (h : Named formats) (id : ItemId) {new : Format} (hnew : Named new) :
    Named (insertLater formats id new) := by
  intro f hf
  obtain ⟨old, hold, hf⟩ := List.mem_flatMap.mp hf
  have hold' : Named old := h old hold
  grind

/-- Lists of named formatting elements, one behind the other. -/
@[grind ←]
theorem named_append {later : List Format} (hlater : Named later) (h : Named formats) :
    Named (later ++ formats) := by
  intro f hf
  rcases List.mem_append.mp hf with hf | hf
  · exact hlater f hf
  · exact h f hf

@[grind ←]
theorem named_takeWhile (h : Named formats) (accepts : Format → Bool) :
    Named (formats.takeWhile accepts) :=
  fun f hf => h f (List.takeWhile_subset _ hf)

@[grind ←]
theorem named_dropWhile (h : Named formats) (accepts : Format → Bool) :
    Named (formats.dropWhile accepts) :=
  fun f hf => h f (List.dropWhile_subset _ hf)

end Formats

@[grind ←]
theorem keeps_reopenEach {closed : List Format} (h : Named closed) : Keeps (reopenEach closed) := by
  fun_induction reopenEach closed <;> grind

@[grind ←]
theorem keeps_reopenFormats : Keeps reopenFormats := by
  grind [reopenFormats]

@[grind ←]
theorem keeps_openFormat {tag : Tag} (h : Named tag) : Keeps (openFormat tag) := by
  unfold openFormat
  refine Keeps.bind Keeps.get fun b hb => ?_
  dsimp only
  split
  · split <;> grind
  · grind

@[grind ←]
theorem keeps_closeGeneric (name : String) : Keeps (closeGeneric name) := by
  grind [closeGeneric]

@[grind ←]
theorem keeps_rewrap (count : Nat) (gathered : ItemId) (isBlock : Bool) (bookmark : Bookmark)
    (between : OpenElements) : Keeps (rewrap count gathered isBlock bookmark between) := by
  induction between generalizing count gathered isBlock bookmark with
  | nil => grind [rewrap]
  | cons e rest ih =>
      unfold rewrap
      refine Keeps.bind Keeps.get fun b hb => ?_
      split
      next => grind
      next tag htag =>
        have htag' : Named tag := named_of_formatTag? (named_builder.mp hb).2.1 htag
        split
        · grind
        · have hcreated : Named (b.draft.createElement (.html tag.name) (plainAttributes tag)).2 :=
            Draft.named_createElement hb.1 _ (named_plainAttributes htag')
          have hformats (id : ItemId) :
              Named (replaceFormat b.formats e.id (.element id tag)) := by grind
          refine Keeps.bind (Keeps.set ?_) fun _ _ => ?_
          · exact ⟨Draft.named_append hcreated _ _, hformats _, hb.2.2⟩
          · grind

@[grind ←]
theorem keeps_takeOut (format block : OpenElement) {tag : Tag} (h : Named tag)
    (inner between outer : OpenElements) :
    Keeps (takeOut format block tag inner between outer) := by
  unfold takeOut
  refine Keeps.bind (keeps_rewrap 0 block.id true .replacing between) fun _ _ => ?_
  refine Keeps.bind Keeps.get fun b hb => ?_
  grind

@[grind ←]
theorem keeps_adoptOnce (name : String) : Keeps (adoptOnce name) := by
  unfold adoptOnce
  refine Keeps.bind Keeps.get fun b hb => ?_
  split
  next => grind
  next id tag hfind =>
    have htag : Named tag := named_of_find?_recent (named_builder.mp hb).2.1 hfind
    split
    next => grind
    next format outer =>
      split
      · grind
      · dsimp only
        split <;> grind

@[grind ←]
theorem keeps_adoptTimes (name : String) (rounds : Nat) : Keeps (adoptTimes name rounds) := by
  induction rounds with
  | zero => grind [adoptTimes]
  | succ rounds ih => grind [adoptTimes]

@[grind ←]
theorem keeps_adopt (name : String) : Keeps (adopt name) := by
  grind [adopt]

@[grind ←]
theorem keeps_closeLink : Keeps closeLink := by
  grind [closeLink]

end Build

end CellAlign.Markup
