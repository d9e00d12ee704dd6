import CellAlign.Proofs.Json.Settled
import Mathlib.Tactic.Choose

/-!
# Arrays and objects from their parts

The text of an array or an object is that of its parts with commas between them, and what is read of
it is made of what is read of the parts.  If one of them is refused, so is the whole.

* `ReadsRow.of_forall`: a row of parts with commas between them;
* `ReadsPart.array`, `ReadsPart.object`: arrays and objects;
* `Member`: a member as it is written, and the name that its key stands for.
-/

namespace CellAlign.Json

open Numeral (EndsNumeral)

variable {α ι : Type}

/-! ## Rows -/

/-- A row comes to what its first part and the others come to. -/
theorem mapM_cons_eq (found : ι → Option α) (x : ι) (more : List ι) :
    (x :: more).mapM found =
      (found x).bind fun a => (more.mapM found).map fun parts => a :: parts := by
  rw [List.mapM_cons]
  cases found x with
  | none => rfl
  | some a => cases more.mapM found <;> rfl

/-- The parts of a row are taken in if each of them is read. -/
theorem ReadsRow.of_forall {close : Char} {part : List Char → Outcome α}
    {walk : Nat → List α → List Char → Outcome (List α)} (hwalk : TakesParts close part walk)
    (hends : EndsNumeral [close]) (hgap : isGap close = false) (hcomma : close ≠ ',')
    {text : ι → List Char} {found : ι → Option α} {row : List ι} (hne : row ≠ [])
    (h : ∀ x ∈ row, ReadsPart part (text x) (found x)) :
    ReadsRow close part walk ([','].intercalate (row.map text)) (row.mapM found) := by
  induction row with
  | nil => exact absurd rfl hne
  | cons x more ih =>
      obtain ⟨hx, hmore⟩ := List.forall_mem_cons.mp h
      cases more with
      | nil =>
          have hfound : [x].mapM found = (found x).map ([·]) := by
            rw [mapM_cons_eq]
            cases found x <;> rfl
          rw [hfound]
          simpa [List.intercalate] using ReadsRow.one hwalk hends hgap hcomma hx
      | cons y more =>
          rw [mapM_cons_eq]
          have hrow := ReadsRow.cons hwalk hcomma hx (ih (by simp) hmore)
          simpa [List.intercalate] using hrow

/-- A row comes to nothing if one of its parts does. -/
theorem mapM_eq_none {found : ι → Option α} {row : List ι} {x : ι} (hmem : x ∈ row)
    (h : found x = none) : row.mapM found = none := by
  induction row with
  | nil => cases hmem
  | cons y more ih =>
      rcases List.mem_cons.mp hmem with rfl | hmem
      · rw [mapM_cons_eq, h, Option.bind_none]
      · rw [mapM_cons_eq, ih hmem]
        cases found y <;> rfl

/-- A row comes to what its parts come to. -/
theorem mapM_eq_some_map {found : ι → Option α} {value : ι → α} {row : List ι}
    (h : ∀ x ∈ row, found x = some (value x)) : row.mapM found = some (row.map value) := by
  induction row with
  | nil => rfl
  | cons x more ih =>
      obtain ⟨hx, hmore⟩ := List.forall_mem_cons.mp h
      rw [mapM_cons_eq, hx, ih hmore]
      rfl

/-- Two rows of the same parts, in different orders, come to nothing if a part does, and otherwise
to what the parts come to. -/
theorem mapM_rel {β : Type} [Nonempty α] [Nonempty β] {R : ι → α → β → Prop} {row moved : List ι}
    {found : ι → Option α} {found' : ι → Option β} (hperm : row.Perm moved)
    (h : ∀ x ∈ row, Option.Rel (R x) (found x) (found' x)) :
    (row.mapM found = none ∧ moved.mapM found' = none) ∨
      ∃ value value', (∀ x ∈ row, R x (value x) (value' x)) ∧
        row.mapM found = some (row.map value) ∧ moved.mapM found' = some (moved.map value') := by
  by_cases hnone : ∃ x ∈ row, found x = none
  · obtain ⟨x, hx, hfound⟩ := hnone
    have hfound' : found' x = none := by
      have hrel := h x hx
      rw [hfound] at hrel
      generalize found' x = other at hrel
      cases hrel
      rfl
    exact Or.inl ⟨mapM_eq_none hx hfound, mapM_eq_none (hperm.mem_iff.mp hx) hfound'⟩
  · have hsome : ∀ x ∈ row, ∃ a b, found x = some a ∧ found' x = some b ∧ R x a b := by
      intro x hx
      cases hfound : found x with
      | none => exact absurd ⟨x, hx, hfound⟩ hnone
      | some a =>
          have hrel := h x hx
          rw [hfound] at hrel
          generalize found' x = other at hrel
          cases hrel with
          | some hab => exact ⟨a, _, rfl, rfl, hab⟩
    choose! value value' hvalue using hsome
    refine Or.inr ⟨value, value', fun x hx => (hvalue x hx).2.2,
      mapM_eq_some_map fun x hx => (hvalue x hx).1, mapM_eq_some_map fun x hx => ?_⟩
    exact (hvalue x (hperm.mem_iff.mpr hx)).2.1

/-! ## Arrays and objects -/

/-- An array is read where there is room for one more than what is in it. -/
theorem ReadsPart.array {room : Nat} {text : ι → List Char} {found : ι → Option Value}
    {row : List ι} (hne : row ≠ []) (h : ∀ x ∈ row, ReadsPart (readValue room) (text x) (found x)) :
    ReadsPart (readValue (room + 1)) ('[' :: ([','].intercalate (row.map text) ++ [']']))
      ((row.mapM found).map .array) := by
  have hrow := ReadsRow.of_forall (takesParts_readElement room) (endsNumeral_close (Or.inl rfl)) rfl
    (by decide) hne h
  exact hrow.array.part (startsPart_cons rfl (by decide) (by decide) _)

/-- An object is read where there is room for one more than what is in it. -/
theorem ReadsPart.object {room : Nat} {text : ι → List Char} {found : ι → Option (String × Value)}
    {row : List ι} (hne : row ≠ []) (h : ∀ x ∈ row, ReadsPart (readEntry room) (text x) (found x)) :
    ReadsPart (readValue (room + 1)) ('\x7b' :: ([','].intercalate (row.map text) ++ ['\x7d']))
      ((row.mapM found).map .object) := by
  have hrow := ReadsRow.of_forall (takesParts_readField room) (endsNumeral_close (Or.inr rfl)) rfl
    (by decide) hne h
  exact hrow.object.part (startsPart_cons rfl (by decide) (by decide) _)

/-! ## Members -/

/-- A member of an object as it is written: a gap, what stands between the quotes of its key,
another gap, and behind the colon its value with gaps around it. -/
structure Member where
  before : List Char
  key : List Char
  between : List Char
  value : List Char
deriving DecidableEq

namespace Member

variable {m : Member}

/-- The text of a member. -/
def text (m : Member) : List Char :=
  m.before ++ '"' :: (m.key ++ '"' :: (m.between ++ ':' :: m.value))

/-- The gaps of a member are gaps, and its key is in the syntax of strings. -/
structure Formed (m : Member) : Prop where
  before : IsGap m.before
  key : IsBody m.key
  between : IsGap m.between

/-- The name that the key of a member stands for; there is none if half of a surrogate pair is
missing in it. -/
def name? (m : Member) : Option String :=
  match Text.read (m.key ++ ['"']) with
  | .ok (name, _) => some name
  | .error _ => none

/-- The key of a member is read as its name. -/
theorem reads_key (h : IsBody m.key) : Reads Text.read (m.key ++ ['"']) m.name? := by
  obtain ⟨found, hfound⟩ := Text.settles_read h
  have hread := hfound [] nofun
  rw [List.append_nil] at hread
  have hname : m.name? = found := by
    unfold name?
    generalize Text.read (m.key ++ ['"']) = outcome at hread
    cases hread with
    | ok name => rfl
    | error stop => rfl
  rw [hname]
  exact hfound

/-- What a member comes to: its name and what its value comes to. -/
def entry (m : Member) (found : Option Value) : Option (String × Value) :=
  m.name?.bind fun name => found.map fun value => (name, value)

/-- What a member comes to depends on its key and its value alone. -/
theorem entry_eq_of_key {n : Member} (h : m.key = n.key) : m.entry = n.entry := by
  unfold entry name?
  rw [h]

/-- A member is read as its name and what is read of its value. -/
theorem readsPart (h : m.Formed) {room : Nat} {found : Option Value}
    (hvalue : ReadsPart (readValue room) m.value found) :
    ReadsPart (readEntry room) m.text (m.entry found) :=
  hvalue.member h.before (reads_key h.key) h.between

end Member

end CellAlign.Json
