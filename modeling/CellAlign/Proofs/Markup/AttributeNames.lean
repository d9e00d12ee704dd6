import CellAlign.Markup.Foreign

/-!
# Names of attributes

Attributes are read in lower case, and only foreign elements have some whose names are put right
with capitals.  So an attribute of parsed markup has a name without capitals or one of a few known
names, `IsAttributeName`.  `Named` says so of everything that carries attributes while markup is
read: tags are in lower case still, elements of a draft have the names of attributes.

* `named_plainAttributes`, `named_foreignAttributes`: the attributes made from a tag;
* `Draft.named_modify`, `Draft.named_create`: a draft has named attributes as long as the items put
  into it have, and moving items changes none of them.
-/

namespace CellAlign.Markup

/-- A name without capital letters. -/
def IsLower (name : String) : Prop := ∀ c ∈ name.toList, c.isUpper = false

/-- The names that attributes have: those in lower case, and in foreign elements some with
capitals. -/
def IsAttributeName (name : String) : Prop :=
  IsLower name ∨ name ∈ Foreign.svgAttributes ∨ name = "definitionURL"

/-- The property of the class is no name of an attribute. -/
theorem not_isAttributeName_className : ¬ IsAttributeName "className" := by
  rintro (hlower | hmem | heq)
  · have hcapital : ('N' : Char) ∈ "className".toList := by decide
    exact absurd (hlower 'N' hcapital) (by decide)
  · exact absurd hmem (by decide)
  · exact absurd heq (by decide)

/-- What carries attributes, or what a step answers and carries none. -/
class HasNames (α : Type) where
  /-- The attributes have names that attributes have. -/
  Named : α → Prop

export HasNames (Named)

instance : HasNames Unit := ⟨fun _ => True⟩

instance : HasNames Bool := ⟨fun _ => True⟩

instance : HasNames ItemId := ⟨fun _ => True⟩

instance : HasNames OpenElement := ⟨fun _ => True⟩

instance {α : Type} [HasNames α] : HasNames (Option α) := ⟨fun found => ∀ a ∈ found, Named a⟩

instance {α : Type} [HasNames α] : HasNames (List α) := ⟨fun row => ∀ a ∈ row, Named a⟩

instance {α β : Type} [HasNames α] [HasNames β] : HasNames (α × β) :=
  ⟨fun pair => Named pair.1 ∧ Named pair.2⟩

instance : HasNames Attribute := ⟨fun a => IsAttributeName a.name.localName⟩

instance : HasNames Tag := ⟨fun tag => ∀ a ∈ tag.attributes, IsLower a.1⟩

instance : HasNames Token where
  Named
    | .startTag tag => Named tag
    | _ => True

instance : HasNames Item where
  Named
    | .element _ attributes => Named attributes
    | _ => True

instance : HasNames Entry := ⟨fun entry => Named entry.item⟩

instance : HasNames Draft := ⟨fun draft => ∀ id, Named (draft.entry? id)⟩

section Rows

variable {α : Type} [HasNames α]

@[simp, grind =]
theorem named_none : Named (none : Option α) ↔ True := by
  simp [Named]

@[simp, grind =]
theorem named_some {a : α} : Named (some a) ↔ Named a := by
  simp [Named]

@[simp, grind =]
theorem named_nil : Named ([] : List α) ↔ True := by
  simp [Named]

@[simp, grind =]
theorem named_cons {a : α} {row : List α} : Named (a :: row) ↔ Named a ∧ Named row := by
  simp [Named]

end Rows

/-! ## The attributes of a tag -/

/-- A name in lower case is one that attributes have. -/
theorem isAttributeName_of_isLower {name : String} (h : IsLower name) : IsAttributeName name :=
  Or.inl h

/-- The attributes of a tag of HTML. -/
@[grind ←]
theorem named_plainAttributes {tag : Tag} (h : Named tag) : Named (Build.plainAttributes tag) := by
  intro a ha
  obtain ⟨pair, hpair, rfl⟩ := List.mem_map.mp ha
  exact isAttributeName_of_isLower (h pair hpair)

/-- A name that is put right is one of those known, or it stays. -/
theorem restored_eq_or_mem (names : List String) (name : String) :
    Foreign.restored names name = name ∨ Foreign.restored names name ∈ names := by
  unfold Foreign.restored
  cases hfind : names.find? fun n => n.toLower == name with
  | none => exact Or.inl rfl
  | some found => exact Or.inr (List.mem_of_find?_eq_some hfind)

/-- The name of an attribute in any namespace of elements. -/
theorem isAttributeName_attributeName (space : Namespace) {name : String} (h : IsLower name) :
    IsAttributeName (Foreign.attributeName space name) := by
  cases space with
  | svg =>
      rcases restored_eq_or_mem Foreign.svgAttributes name with heq | hmem
      · rw [Foreign.attributeName, heq]
        exact Or.inl h
      · exact Or.inr (Or.inl hmem)
  | mathml =>
      rcases restored_eq_or_mem ["definitionURL"] name with heq | hmem
      · rw [Foreign.attributeName, heq]
        exact Or.inl h
      · exact Or.inr (Or.inr (List.mem_singleton.mp hmem))
  | none | html | xlink | xml | xmlns => exact Or.inl h

/-- The attributes with namespaces of their own have names in lower case. -/
theorem isLower_of_mem_qualified {entry : String × Name} (h : entry ∈ Foreign.qualified) :
    IsLower entry.2.localName := by
  have hall : ∀ entry ∈ Foreign.qualified, ∀ c ∈ entry.2.localName.toList, c.isUpper = false := by
    simp [Foreign.qualified]
  exact hall entry h

/-- The attributes of a tag in any namespace of elements. -/
@[grind ←]
theorem named_foreignAttributes (space : Namespace) {tag : Tag} (h : Named tag) :
    Named (Foreign.attributes space tag) := by
  intro a ha
  obtain ⟨⟨name, value⟩, hpair, rfl⟩ := List.mem_map.mp ha
  cases hfind : Foreign.qualified.find? fun entry => entry.1 == name with
  | none =>
      simp only [hfind]
      exact isAttributeName_attributeName space (h _ hpair)
  | some entry =>
      simp only [hfind]
      exact Or.inl (isLower_of_mem_qualified (List.mem_of_find?_eq_some hfind))

/-- An attribute put in its place among others. -/
theorem named_insertAttribute {new : Attribute} {sorted : List Attribute} (hnew : Named new)
    (h : Named sorted) : Named (insertAttribute new sorted) := by
  induction sorted with
  | nil => simpa [insertAttribute] using hnew
  | cons a rest ih =>
      obtain ⟨ha, hrest⟩ := named_cons.mp h
      unfold insertAttribute
      split
      · exact h
      · split
        · exact named_cons.mpr ⟨hnew, h⟩
        · exact named_cons.mpr ⟨ha, ih hrest⟩

/-- Attributes put in their places one after the other. -/
theorem named_foldl_insertAttribute {new sorted : List Attribute} (hnew : Named new)
    (h : Named sorted) : Named (new.foldl (fun sorted a => insertAttribute a sorted) sorted) := by
  induction new generalizing sorted with
  | nil => exact h
  | cons a rest ih =>
      obtain ⟨ha, hrest⟩ := named_cons.mp hnew
      exact ih hrest (named_insertAttribute ha h)

/-! ## Drafts -/

@[grind =]
theorem named_entry {entry : Entry} : Named entry ↔ Named entry.item := Iff.rfl

@[grind ←]
theorem named_text (text : String) : Named (Item.text text) := trivial

@[grind ←]
theorem named_comment (text : String) : Named (Item.comment text) := trivial

@[grind ←]
theorem named_doctype (name publicId systemId : String) :
    Named (Item.doctype name publicId systemId) := trivial

namespace Draft

variable {draft : Draft}

/-- A draft in which an entry is changed. -/
@[grind ←]
theorem named_modify (h : Named draft) (id : ItemId) {change : Entry → Entry}
    (hchange : ∀ entry, Named entry → Named (change entry)) : Named (draft.modify id change) := by
  intro other entry hentry
  rw [ entry?, modify, Array.getElem?_modify] at hentry
  split at hentry
  · obtain ⟨old, hold, rfl⟩ := Option.map_eq_some_iff.mp hentry
    exact hchange old (h other old hold)
  · exact h other entry hentry

/-- A draft in which an entry is changed if there is one. -/
@[grind ←]
theorem named_modify? (h : Named draft) (id : Option ItemId) {change : Entry → Entry}
    (hchange : ∀ entry, Named entry → Named (change entry)) : Named (draft.modify? id change) := by
  cases id with
  | none => exact h
  | some id => exact named_modify h id hchange

/-- A draft with a new item. -/
@[grind ←]
theorem named_create (h : Named draft) {item : Item} (hitem : Named item) :
    Named (draft.create item).2 := by
  intro id entry hentry
  rw [ entry?, create, Array.getElem?_push] at hentry
  split at hentry
  · cases hentry
    exact hitem
  · exact h id entry hentry

@[grind ←]
theorem named_detach (h : Named draft) (id : ItemId) : Named (draft.detach id) := by
  unfold detach
  grind

@[grind ←]
theorem named_append (h : Named draft) (parent id : ItemId) : Named (draft.append parent id) := by
  unfold append
  grind

/-- A text is no element, whatever is added to it. -/
@[grind ←]
theorem named_extendText? (h : Named draft) (id : ItemId) (text : String) :
    Named (draft.extendText? id text) := by
  unfold extendText?
  split
  · refine named_some.mpr (named_modify h id fun entry hentry => ?_)
    split
    · exact trivial
    · exact hentry
  · exact named_none.mpr trivial

@[grind ←]
theorem named_appendText (h : Named draft) (parent : ItemId) (text : String) :
    Named (draft.appendText parent text) := by
  unfold appendText
  split
  next extended hextended =>
    obtain ⟨last, -, hlast⟩ := Option.bind_eq_some_iff.mp hextended
    exact named_extendText? h last text extended hlast
  next =>
    exact named_append (named_create h (named_text text)) parent _

@[grind ←]
theorem named_insertAt (h : Named draft) (sibling id : ItemId) :
    Named (draft.insertAt sibling id) := by
  unfold insertAt
  grind

@[grind ←]
theorem named_insertBefore (h : Named draft) (sibling id : ItemId) :
    Named (draft.insertBefore sibling id) := by
  unfold insertBefore
  grind

@[grind ←]
theorem named_insertTextBefore (h : Named draft) (sibling : ItemId) (text : String) :
    Named (draft.insertTextBefore sibling text) := by
  unfold insertTextBefore
  split
  · exact h
  · split
    next extended hextended =>
      obtain ⟨before, -, hbefore⟩ := Option.bind_eq_some_iff.mp hextended
      exact named_extendText? h before text extended hbefore
    next =>
      exact named_insertAt (named_create h (named_text text)) sibling _

@[grind ←]
theorem named_moveChildren (h : Named draft) (source target : ItemId) :
    Named (draft.moveChildren source target) := by
  unfold moveChildren
  split
  · exact h
  · dsimp only
    split
    · refine named_modify (named_modify (named_modify (named_modify h _ ?_) _ ?_) _ ?_) _ ?_
      all_goals exact fun _ hentry => hentry
    · refine named_modify (named_modify (named_modify (named_modify (named_modify (named_modify h
        _ ?_) _ ?_) _ ?_) _ ?_) _ ?_) _ ?_
      all_goals exact fun _ hentry => hentry

/-- An element has the attributes that it was created with. -/
@[grind ←]
theorem named_createElement (h : Named draft) (name : Name) {attributes : List Attribute}
    (hattributes : Named attributes) : Named (draft.createElement name attributes).2 := by
  have hsorted : Named (sortAttributes attributes) :=
    named_foldl_insertAttribute hattributes (named_nil.mpr trivial)
  have hcreated : Named (draft.create (.element name (sortAttributes attributes))).2 :=
    named_create h hsorted
  have hfragment : Named Item.fragment := trivial
  rw [createElement]
  cases name.isHtml "template" with
  | true => exact named_append (named_create hcreated hfragment) _ _
  | false => exact hcreated

/-- An element keeps the attributes that it has, and is given named ones besides. -/
@[grind ←]
theorem named_addAttributes (h : Named draft) (id : ItemId) {new : List Attribute}
    (hnew : Named new) : Named (draft.addAttributes id new) := by
  refine named_modify h id fun entry hentry => ?_
  split
  next name attributes hitem =>
    have hattributes : Named attributes := by
      rw [named_entry, hitem] at hentry
      exact hentry
    exact named_foldl_insertAttribute hnew hattributes
  next => exact hentry

end Draft

end CellAlign.Markup
