import CellAlign.Proofs.Json.Parts

/-!
# Walks, step by step

A walk through a list or an object ends at its closing bracket or takes in one more item or member;
that is all it can do.  So two walks over the same text can be compared by what their readers do
with one item or member.

* `walkItems_eq_ok_iff`, `walkList_eq_ok_iff`, `walkMembers_eq_ok_iff`, `walkObject_eq_ok_iff`: the
  steps of the walks that come to their end;
* `readValue_eq_ok_iff`, `readString_eq_ok_iff`: what is read as a value, and as a string;
* `Follows.walkList`, `Follows.walkObject`: where one reader follows another, its walk follows the
  other's walk;
* `readValue_eq_ok_iff_of_le`: the bound on nesting keeps those values out that nest deeper.
-/

namespace CellAlign.Json

/-! ## Steps -/

section Steps

variable {σ : Type} {item : σ → List Char → Outcome σ}
  {member : σ → String → List Char → Outcome σ} {state next : σ} {text rest : List Char}

/-- A walk behind an item ends at the closing bracket or takes in one more item. -/
theorem walkItems_eq_ok_iff {fuel : Nat} :
    walkItems item (fuel + 1) state text = .ok (next, rest) ↔
      (skipGap text = ']' :: rest ∧ state = next) ∨
      ∃ more c tail between behind, skipGap text = ',' :: more ∧ skipGap more = c :: tail ∧
        c ≠ ']' ∧ item state (c :: tail) = .ok (between, behind) ∧
        walkItems item fuel between behind = .ok (next, rest) := by
  rw [walkItems]
  cases hgap : skipGap text with
  | nil => simp [stopHere]
  | cons d more =>
      by_cases hclose : d = ']'
      · subst hclose
        simp [and_comm]
      by_cases hcomma : d = ','
      · subst hcomma
        cases hmore : skipGap more with
        | nil => simp [stopHere, hmore]
        | cons c tail =>
            by_cases hc : c = ']'
            · simp [stopAtNext, hc, hmore]
            · cases hitem : item state (c :: tail) with
              | error stop => simp [hc, hmore, hitem, and_assoc]
              | ok found => simp [hc, hmore, hitem, and_assoc, Prod.ext_iff]
      · simp [stopAtNext, hclose, hcomma]

/-- A walk through a list ends at once or takes in a first item. -/
theorem walkList_eq_ok_iff :
    walkList item state text = .ok (next, rest) ↔
      (skipGap text = ']' :: rest ∧ state = next) ∨
      ∃ c tail between behind, skipGap text = c :: tail ∧ c ≠ ']' ∧
        item state (c :: tail) = .ok (between, behind) ∧
        walkItems item behind.length.succ between behind = .ok (next, rest) := by
  rw [walkList]
  cases hgap : skipGap text with
  | nil => simp [stopHere]
  | cons c tail =>
      by_cases hc : c = ']'
      · subst hc
        simp [and_comm]
      · cases hitem : item state (c :: tail) with
        | error stop => simp [hc, hitem, and_assoc]
        | ok found => simp [hc, hitem, and_assoc, Prod.ext_iff]

/-- A walk behind a member ends at the closing brace or takes in one more member. -/
theorem walkMembers_eq_ok_iff {fuel : Nat} :
    walkMembers member (fuel + 1) state text = .ok (next, rest) ↔
      (skipGap text = '\x7d' :: rest ∧ state = next) ∨
      ∃ more tail between behind, skipGap text = ',' :: more ∧ skipGap more = '"' :: tail ∧
        readMember member state tail = .ok (between, behind) ∧
        walkMembers member fuel between behind = .ok (next, rest) := by
  rw [walkMembers]
  cases hgap : skipGap text with
  | nil => simp [stopHere]
  | cons d more =>
      by_cases hclose : d = '\x7d'
      · subst hclose
        simp [and_comm]
      by_cases hcomma : d = ','
      · subst hcomma
        cases hmore : skipGap more with
        | nil => simp [stopHere, hmore]
        | cons c tail =>
            by_cases hc : c = '"'
            · subst hc
              cases hread : readMember member state tail with
              | error stop => simp [hmore, hread]
              | ok found => simp [hmore, hread, and_assoc, Prod.ext_iff]
            · by_cases hbrace : c = '\x7d' <;> simp [stopAtNext, hc, hmore, hbrace]
      · simp [stopAtNext, hclose, hcomma]

/-- A walk through an object ends at once or takes in a first member. -/
theorem walkObject_eq_ok_iff :
    walkObject member state text = .ok (next, rest) ↔
      (skipGap text = '\x7d' :: rest ∧ state = next) ∨
      ∃ tail between behind, skipGap text = '"' :: tail ∧
        readMember member state tail = .ok (between, behind) ∧
        walkMembers member behind.length.succ between behind = .ok (next, rest) := by
  rw [walkObject]
  cases hgap : skipGap text with
  | nil => simp [stopHere]
  | cons c tail =>
      by_cases hclose : c = '\x7d'
      · subst hclose
        simp [and_comm]
      by_cases hc : c = '"'
      · subst hc
        cases hread : readMember member state tail with
        | error stop => simp [hread]
        | ok found => simp [hread, and_assoc, Prod.ext_iff]
      · simp [stopAtNext, hclose, hc]

/-- A member is read if its key is and the reader of members takes it in. -/
theorem readMember_eq_ok_iff :
    readMember member state text = .ok (next, rest) ↔
      ∃ key behind, Text.read text = .ok (key, behind) ∧
        member state key behind = .ok (next, rest) := by
  rw [readMember]
  cases hkey : Text.read text with
  | error stop => simp
  | ok found => simp [Prod.ext_iff, and_assoc]

end Steps

/-- What a mapped answer comes from. -/
theorem mapRead_eq_ok_iff {α β : Type} {f : α → β} {outcome : Outcome α} {b : β}
    {rest : List Char} :
    mapRead f outcome = .ok (b, rest) ↔ ∃ a, outcome = .ok (a, rest) ∧ f a = b := by
  cases outcome with
  | error stop => simp [mapRead]
  | ok found =>
      obtain ⟨a, more⟩ := found
      constructor
      · intro h
        cases h
        exact ⟨a, rfl, rfl⟩
      · rintro ⟨_, h, rfl⟩
        cases h
        rfl

/-- Reads an item of an array and puts it before those read already. -/
def readElement (depth : Nat) (items : List Value) (text : List Char) : Outcome (List Value) :=
  mapRead (· :: items) (readValue depth text)

/-- A value is a number, a string or a literal name, or what a walk through a list or an object
gives, if one more array or object may be open. -/
theorem readValue_eq_ok_iff {depth : Nat} {text rest : List Char} {value : Value} :
    readValue depth text = .ok (value, rest) ↔
      ∃ c tail, skipGap text = c :: tail ∧
        (readScalar? c tail = some (.ok (value, rest)) ∨
        (∃ inner items, c = '[' ∧ depth = inner + 1 ∧
          walkList (readElement inner) [] tail = .ok (items, rest) ∧
          .array items.reverse = value) ∨
        ∃ inner members, c = '\x7b' ∧ depth = inner + 1 ∧
          walkObject (readField inner) [] tail = .ok (members, rest) ∧
          .object members.reverse = value) := by
  rw [readValue.eq_def]
  cases hgap : skipGap text with
  | nil => simp [stopHere]
  | cons c tail =>
      cases hscalar : readScalar? c tail with
      | some outcome =>
          have hlist : c ≠ '[' := by
            rintro rfl
            cases hscalar
          have hobject : c ≠ '\x7b' := by
            rintro rfl
            cases hscalar
          simp [hscalar, hlist, hobject, and_assoc]
      | none =>
          by_cases hlist : c = '['
          · subst hlist
            cases depth with
            | zero => simp [stopAtNext, hscalar, and_assoc]
            | succ inner =>
                simp [hscalar, and_assoc]
                exact mapRead_eq_ok_iff
          by_cases hobject : c = '\x7b'
          · subst hobject
            cases depth with
            | zero => simp [stopAtNext, hscalar, and_assoc]
            | succ inner =>
                simp [hscalar, and_assoc]
                exact mapRead_eq_ok_iff
          · simp [stopAtNext, hlist, hobject, hscalar, and_assoc]

/-- What is read as a literal name is what the name stands for. -/
theorem eq_of_readLiteral {α : Type} {name text rest : List Char} {value found : α}
    (h : readLiteral name value text = .ok (found, rest)) : found = value := by
  unfold readLiteral at h
  split at h
  · cases h
    rfl
  · cases h

/-- A value of which only its kind matters is not accepted. -/
theorem readUnwanted_ne_ok {α : Type} (expected : String) (text : List Char) (a : α) :
    readUnwanted expected text ≠ .ok a := by
  intro h
  unfold readUnwanted at h
  split at h
  · cases h
  · split at h
    · cases h
    · cases h
    · split at h
      · cases h
      · split at h <;> cases h

/-- Only what starts with a quote is a string. -/
theorem eq_quote_of_readScalar? {c : Char} {tail rest : List Char} {s : String}
    (h : readScalar? c tail = some (.ok (.string s, rest))) : c = '"' := by
  have hliteral {name : List Char} {found : Value}
      (h : some (readLiteral name found tail) = some (.ok (.string s, rest)))
      (hfound : found ≠ .string s) : False :=
    hfound (eq_of_readLiteral (Option.some.inj h)).symm
  have hnumber {outcome : Outcome Number}
      (h : some (mapRead Value.number outcome) = some (.ok (.string s, rest))) : False := by
    obtain ⟨n, -, heq⟩ := mapRead_eq_ok_iff.mp (Option.some.inj h)
    cases heq
  unfold readScalar? at h
  iterate 3
    split at h
    · exact (hliteral h nofun).elim
  iterate 2
    split at h
    · exact (hnumber h).elim
  split at h
  · assumption
  · cases h

/-- A string that is wanted is read like any value. -/
theorem readString_eq_ok_iff (expected : String) {s : String} {depth : Nat}
    {text rest : List Char} :
    readString expected text = .ok (s, rest) ↔ readValue depth text = .ok (.string s, rest) := by
  constructor
  · intro h
    unfold readString at h
    split at h
    · next tail hgap =>
      have hscalar : readScalar? '"' tail = some (mapRead .string (Text.read tail)) := rfl
      rw [h] at hscalar
      exact readValue_eq_ok_iff.mpr ⟨'"', tail, hgap, Or.inl hscalar⟩
    · exact absurd h (readUnwanted_ne_ok expected _ _)
  · intro h
    obtain ⟨c, tail, hgap, hscalar | ⟨_, _, _, _, _, heq⟩ | ⟨_, _, _, _, _, heq⟩⟩ :=
      readValue_eq_ok_iff.mp h
    · obtain rfl := eq_quote_of_readScalar? hscalar
      obtain ⟨_, hread, heq⟩ := mapRead_eq_ok_iff.mp (Option.some.inj hscalar)
      cases heq
      rw [readString, hgap]
      exact hread
    · cases heq
    · cases heq

/-! ## What walks keep -/

section Keeps

variable {σ : Type} {item : σ → List Char → Outcome σ}
  {member : σ → String → List Char → Outcome σ} (good : σ → Prop) {state next : σ}
  {text rest : List Char}

/-- What each item keeps is kept behind the items of a list. -/
theorem walkItems_keeps
    (hitem : ∀ {state next text rest}, good state → item state text = .ok (next, rest) → good next)
    {fuel : Nat} (h : good state) (hwalk : walkItems item fuel state text = .ok (next, rest)) :
    good next := by
  induction fuel generalizing state text with
  | zero => cases hwalk
  | succ fuel ih =>
      obtain ⟨-, rfl⟩ | ⟨_, _, _, between, behind, -, -, -, hread, hwalk⟩ :=
        walkItems_eq_ok_iff.mp hwalk
      · exact h
      · exact ih (hitem h hread) hwalk

/-- What each item keeps is kept by a walk through a list. -/
theorem walkList_keeps
    (hitem : ∀ {state next text rest}, good state → item state text = .ok (next, rest) → good next)
    (h : good state) (hwalk : walkList item state text = .ok (next, rest)) : good next := by
  obtain ⟨-, rfl⟩ | ⟨_, _, between, behind, -, -, hread, hwalk⟩ := walkList_eq_ok_iff.mp hwalk
  · exact h
  · exact walkItems_keeps good hitem (hitem h hread) hwalk

variable (hmember : ∀ {state next key text rest},
  good state → member state key text = .ok (next, rest) → good next)

include hmember

/-- What each member keeps is kept behind a key and its member. -/
theorem readMember_keeps (h : good state)
    (hread : readMember member state text = .ok (next, rest)) : good next := by
  obtain ⟨key, behind, -, hread⟩ := readMember_eq_ok_iff.mp hread
  exact hmember h hread

/-- What each member keeps is kept behind the members of an object. -/
theorem walkMembers_keeps {fuel : Nat} (h : good state)
    (hwalk : walkMembers member fuel state text = .ok (next, rest)) : good next := by
  induction fuel generalizing state text with
  | zero => cases hwalk
  | succ fuel ih =>
      obtain ⟨-, rfl⟩ | ⟨_, _, between, behind, -, -, hread, hwalk⟩ :=
        walkMembers_eq_ok_iff.mp hwalk
      · exact h
      · exact ih (readMember_keeps good hmember h hread) hwalk

/-- What each member keeps is kept by a walk through an object. -/
theorem walkObject_keeps (h : good state)
    (hwalk : walkObject member state text = .ok (next, rest)) : good next := by
  obtain ⟨-, rfl⟩ | ⟨_, between, behind, -, hread, hwalk⟩ := walkObject_eq_ok_iff.mp hwalk
  · exact h
  · exact walkMembers_keeps good hmember (readMember_keeps good hmember h hread) hwalk

end Keeps

/-! ## Walks that follow each other -/

/-- A reader follows another: whatever the first takes in towards a good state, the second takes in
as well, from a related state to a related state.  What comes before a good state is good. -/
structure Follows {σ τ : Type} (good : σ → Prop) (related : σ → τ → Prop)
    (first : σ → List Char → Outcome σ) (second : τ → List Char → Outcome τ) : Prop where
  good_of_good {state next : σ} {text rest : List Char}
    (h : first state text = .ok (next, rest)) (hnext : good next) : good state
  follow {state next : σ} {text rest : List Char} (h : first state text = .ok (next, rest))
    (hnext : good next) {other : τ} (hrelated : related state other) :
    ∃ next', second other text = .ok (next', rest) ∧ related next next'

namespace Follows

variable {σ τ : Type} {good : σ → Prop} {related : σ → τ → Prop}
  {first : σ → List Char → Outcome σ} {second : τ → List Char → Outcome τ}
  {member : σ → String → List Char → Outcome σ} {member' : τ → String → List Char → Outcome τ}

/-- Behind an item, by induction on how far the walk may go. -/
theorem walkItems (h : Follows good related first second) (fuel : Nat) :
    Follows good related (walkItems first fuel) (walkItems second fuel) := by
  induction fuel with
  | zero => exact ⟨fun hwalk => (by cases hwalk), fun hwalk => (by cases hwalk)⟩
  | succ fuel ih =>
      constructor
      · intro state next text rest hwalk hnext
        obtain ⟨-, rfl⟩ | ⟨more, c, tail, between, behind, -, -, -, hitem, hwalk⟩ :=
          walkItems_eq_ok_iff.mp hwalk
        · exact hnext
        · exact h.good_of_good hitem (ih.good_of_good hwalk hnext)
      · intro state next text rest hwalk hnext other hrelated
        obtain ⟨hgap, rfl⟩ | ⟨more, c, tail, between, behind, hgap, hmore, hc, hitem, hwalk⟩ :=
          walkItems_eq_ok_iff.mp hwalk
        · exact ⟨other, walkItems_eq_ok_iff.mpr (Or.inl ⟨hgap, rfl⟩), hrelated⟩
        · have hbetween := ih.good_of_good hwalk hnext
          obtain ⟨between', hitem', hrelated'⟩ := h.follow hitem hbetween hrelated
          obtain ⟨next', hwalk', hlast⟩ := ih.follow hwalk hnext hrelated'
          refine ⟨next', walkItems_eq_ok_iff.mpr (Or.inr ?_), hlast⟩
          exact ⟨more, c, tail, between', behind, hgap, hmore, hc, hitem', hwalk'⟩

/-- A walk through a list follows another if its reader of items follows the other's. -/
theorem walkList (h : Follows good related first second) :
    Follows good related (walkList first) (walkList second) := by
  constructor
  · intro state next text rest hwalk hnext
    obtain ⟨-, rfl⟩ | ⟨c, tail, between, behind, -, -, hitem, hwalk⟩ := walkList_eq_ok_iff.mp hwalk
    · exact hnext
    · exact h.good_of_good hitem ((h.walkItems _).good_of_good hwalk hnext)
  · intro state next text rest hwalk hnext other hrelated
    obtain ⟨hgap, rfl⟩ | ⟨c, tail, between, behind, hgap, hc, hitem, hwalk⟩ :=
      walkList_eq_ok_iff.mp hwalk
    · exact ⟨other, walkList_eq_ok_iff.mpr (Or.inl ⟨hgap, rfl⟩), hrelated⟩
    · have hbetween := (h.walkItems _).good_of_good hwalk hnext
      obtain ⟨between', hitem', hrelated'⟩ := h.follow hitem hbetween hrelated
      obtain ⟨next', hwalk', hlast⟩ := (h.walkItems _).follow hwalk hnext hrelated'
      refine ⟨next', walkList_eq_ok_iff.mpr (Or.inr ?_), hlast⟩
      exact ⟨c, tail, between', behind, hgap, hc, hitem', hwalk'⟩

/-- Keys are read alike, so it is enough that the readers of members follow each other. -/
theorem ofMember
    (hgood : ∀ {state next key text rest}, member state key text = .ok (next, rest) → good next →
      good state)
    (hfollow : ∀ {state next key text rest}, member state key text = .ok (next, rest) →
      good next → ∀ {other}, related state other →
      ∃ next', member' other key text = .ok (next', rest) ∧ related next next') :
    Follows good related (readMember member) (readMember member') := by
  constructor
  · intro state next text rest hread hnext
    obtain ⟨key, behind, -, hmember⟩ := readMember_eq_ok_iff.mp hread
    exact hgood hmember hnext
  · intro state next text rest hread hnext other hrelated
    obtain ⟨key, behind, hkey, hmember⟩ := readMember_eq_ok_iff.mp hread
    obtain ⟨next', hmember', hlast⟩ := hfollow hmember hnext hrelated
    exact ⟨next', readMember_eq_ok_iff.mpr ⟨key, behind, hkey, hmember'⟩, hlast⟩

/-- Behind a member, by induction on how far the walk may go. -/
theorem walkMembers (h : Follows good related (readMember member) (readMember member'))
    (fuel : Nat) : Follows good related (walkMembers member fuel) (walkMembers member' fuel) := by
  induction fuel with
  | zero => exact ⟨fun hwalk => (by cases hwalk), fun hwalk => (by cases hwalk)⟩
  | succ fuel ih =>
      constructor
      · intro state next text rest hwalk hnext
        obtain ⟨-, rfl⟩ | ⟨more, tail, between, behind, -, -, hread, hwalk⟩ :=
          walkMembers_eq_ok_iff.mp hwalk
        · exact hnext
        · exact h.good_of_good hread (ih.good_of_good hwalk hnext)
      · intro state next text rest hwalk hnext other hrelated
        obtain ⟨hgap, rfl⟩ | ⟨more, tail, between, behind, hgap, hmore, hread, hwalk⟩ :=
          walkMembers_eq_ok_iff.mp hwalk
        · exact ⟨other, walkMembers_eq_ok_iff.mpr (Or.inl ⟨hgap, rfl⟩), hrelated⟩
        · have hbetween := ih.good_of_good hwalk hnext
          obtain ⟨between', hread', hrelated'⟩ := h.follow hread hbetween hrelated
          obtain ⟨next', hwalk', hlast⟩ := ih.follow hwalk hnext hrelated'
          refine ⟨next', walkMembers_eq_ok_iff.mpr (Or.inr ?_), hlast⟩
          exact ⟨more, tail, between', behind, hgap, hmore, hread', hwalk'⟩

/-- A walk through an object follows another if its reader of members follows the other's. -/
theorem walkObject (h : Follows good related (readMember member) (readMember member')) :
    Follows good related (walkObject member) (walkObject member') := by
  constructor
  · intro state next text rest hwalk hnext
    obtain ⟨-, rfl⟩ | ⟨tail, between, behind, -, hread, hwalk⟩ := walkObject_eq_ok_iff.mp hwalk
    · exact hnext
    · exact h.good_of_good hread ((h.walkMembers _).good_of_good hwalk hnext)
  · intro state next text rest hwalk hnext other hrelated
    obtain ⟨hgap, rfl⟩ | ⟨tail, between, behind, hgap, hread, hwalk⟩ :=
      walkObject_eq_ok_iff.mp hwalk
    · exact ⟨other, walkObject_eq_ok_iff.mpr (Or.inl ⟨hgap, rfl⟩), hrelated⟩
    · have hbetween := (h.walkMembers _).good_of_good hwalk hnext
      obtain ⟨between', hread', hrelated'⟩ := h.follow hread hbetween hrelated
      obtain ⟨next', hwalk', hlast⟩ := (h.walkMembers _).follow hwalk hnext hrelated'
      refine ⟨next', walkObject_eq_ok_iff.mpr (Or.inr ?_), hlast⟩
      exact ⟨tail, between', behind, hgap, hread', hwalk'⟩

end Follows

/-! ## The bound on nesting -/

/-- A field is read if its colon and its value are. -/
theorem readField_eq_ok_iff {depth : Nat} {members next : List (String × Value)} {key : String}
    {text rest : List Char} :
    readField depth members key text = .ok (next, rest) ↔
      ∃ behind value, readColon text = .ok behind ∧ readValue depth behind = .ok (value, rest) ∧
        (key, value) :: members = next := by
  rw [readField]
  cases hcolon : readColon text with
  | error stop => simp
  | ok behind => simp [mapRead_eq_ok_iff]

/-- A value that is read is read as well where more arrays and objects may be open. -/
theorem readValue_of_le {depth depth' : Nat} (hle : depth ≤ depth') {text rest : List Char}
    {value : Value} (h : readValue depth text = .ok (value, rest)) :
    readValue depth' text = .ok (value, rest) := by
  induction depth generalizing depth' text rest value with
  | zero =>
      obtain ⟨c, tail, hgap, hscalar | ⟨inner, items, rfl, hinner, -⟩ |
        ⟨inner, members, rfl, hinner, -⟩⟩ := readValue_eq_ok_iff.mp h
      · exact readValue_eq_ok_iff.mpr ⟨c, tail, hgap, Or.inl hscalar⟩
      · omega
      · omega
  | succ depth ih =>
      obtain ⟨depth', rfl⟩ : ∃ d, depth' = d + 1 := ⟨depth' - 1, by omega⟩
      have hle' : depth ≤ depth' := by omega
      obtain ⟨c, tail, hgap, hscalar | ⟨inner, items, rfl, hinner, hwalk, hvalue⟩ |
        ⟨inner, members, rfl, hinner, hwalk, hvalue⟩⟩ := readValue_eq_ok_iff.mp h
      · exact readValue_eq_ok_iff.mpr ⟨c, tail, hgap, Or.inl hscalar⟩
      · obtain rfl : depth = inner := by omega
        have hfollows : Follows (fun _ => True) Eq (readElement depth) (readElement depth') := by
          refine ⟨fun _ _ => trivial, ?_⟩
          rintro state next text rest hread - _ rfl
          obtain ⟨v, hv, rfl⟩ := mapRead_eq_ok_iff.mp hread
          exact ⟨_, mapRead_eq_ok_iff.mpr ⟨v, ih hle' hv, rfl⟩, rfl⟩
        obtain ⟨_, hwalk', rfl⟩ := hfollows.walkList.follow hwalk trivial rfl
        exact readValue_eq_ok_iff.mpr
          ⟨'[', tail, hgap, Or.inr (Or.inl ⟨depth', items, rfl, rfl, hwalk', hvalue⟩)⟩
      · obtain rfl : depth = inner := by omega
        have hfollows : Follows (fun _ => True) Eq (readMember (readField depth))
            (readMember (readField depth')) := by
          refine Follows.ofMember (fun _ _ => trivial) ?_
          rintro state next key text rest hread - _ rfl
          obtain ⟨behind, v, hcolon, hv, rfl⟩ := readField_eq_ok_iff.mp hread
          exact ⟨_, readField_eq_ok_iff.mpr ⟨behind, v, hcolon, ih hle' hv, rfl⟩, rfl⟩
        obtain ⟨_, hwalk', rfl⟩ := hfollows.walkObject.follow hwalk trivial rfl
        exact readValue_eq_ok_iff.mpr
          ⟨'\x7b', tail, hgap, Or.inr (Or.inr ⟨depth', members, rfl, rfl, hwalk', hvalue⟩)⟩

/-- No array or object is open in a number, a string or a literal name. -/
theorem depth_of_readScalar? {c : Char} {tail rest : List Char} {value : Value}
    (h : readScalar? c tail = some (.ok (value, rest))) : value.depth = 0 := by
  have hliteral {name : List Char} {found : Value} (hfound : found.depth = 0)
      (h : some (readLiteral name found tail) = some (.ok (value, rest))) : value.depth = 0 := by
    rw [eq_of_readLiteral (Option.some.inj h), hfound]
  have hnumber {outcome : Outcome Number}
      (h : some (mapRead Value.number outcome) = some (.ok (value, rest))) : value.depth = 0 := by
    obtain ⟨n, -, rfl⟩ := mapRead_eq_ok_iff.mp (Option.some.inj h)
    rfl
  unfold readScalar? at h
  iterate 3
    split at h
    · exact hliteral rfl h
  iterate 2
    split at h
    · exact hnumber h
  split at h
  · obtain ⟨s, -, rfl⟩ := mapRead_eq_ok_iff.mp (Option.some.inj h)
    rfl
  · cases h

/-- No more arrays and objects are open in a value that is read than may be. -/
theorem depth_le_of_readValue {depth : Nat} {text rest : List Char} {value : Value}
    (h : readValue depth text = .ok (value, rest)) : value.depth ≤ depth := by
  induction depth generalizing text rest value with
  | zero =>
      obtain ⟨c, tail, hgap, hscalar | ⟨inner, items, rfl, hinner, -⟩ |
        ⟨inner, members, rfl, hinner, -⟩⟩ := readValue_eq_ok_iff.mp h
      · exact Nat.le_of_eq (depth_of_readScalar? hscalar)
      · omega
      · omega
  | succ depth ih =>
      obtain ⟨c, tail, hgap, hscalar | ⟨inner, items, rfl, hinner, hwalk, rfl⟩ |
        ⟨inner, members, rfl, hinner, hwalk, rfl⟩⟩ := readValue_eq_ok_iff.mp h
      · rw [depth_of_readScalar? hscalar]
        omega
      · obtain rfl : depth = inner := by omega
        have hkeeps {state next : List Value} {text rest : List Char}
            (hstate : ∀ item ∈ state, item.depth ≤ depth)
            (hread : readElement depth state text = .ok (next, rest)) :
            ∀ item ∈ next, item.depth ≤ depth := by
          obtain ⟨v, hv, rfl⟩ := mapRead_eq_ok_iff.mp hread
          exact List.forall_mem_cons.mpr ⟨ih hv, hstate⟩
        have hitems : ∀ item ∈ items, item.depth ≤ depth :=
          walkList_keeps (fun items => ∀ item ∈ items, item.depth ≤ depth) hkeeps nofun hwalk
        have hdepth := Value.depthItems_le_iff.mpr fun item hitem =>
          hitems item (List.mem_reverse.mp hitem)
        rw [Value.depth]
        omega
      · obtain rfl : depth = inner := by omega
        have hkeeps {state next : List (String × Value)} {key : String} {text rest : List Char}
            (hstate : ∀ m ∈ state, m.2.depth ≤ depth)
            (hread : readField depth state key text = .ok (next, rest)) :
            ∀ m ∈ next, m.2.depth ≤ depth := by
          obtain ⟨behind, v, -, hv, rfl⟩ := readField_eq_ok_iff.mp hread
          exact List.forall_mem_cons.mpr ⟨ih hv, hstate⟩
        have hmembers : ∀ m ∈ members, m.2.depth ≤ depth :=
          walkObject_keeps (fun members => ∀ m ∈ members, m.2.depth ≤ depth) hkeeps nofun hwalk
        have hdepth := Value.depthMembers_le_iff.mpr fun m hm =>
          hmembers m (List.mem_reverse.mp hm)
        rw [Value.depth]
        omega

/-- A value that is read is read as well where no more arrays and objects may be open than are open in
it. -/
theorem readValue_of_depth_le {depth room : Nat} {text rest : List Char} {value : Value}
    (h : readValue room text = .ok (value, rest)) (hdepth : value.depth ≤ depth) :
    readValue depth text = .ok (value, rest) := by
  induction depth generalizing room text rest value with
  | zero =>
      obtain ⟨c, tail, hgap, hscalar | ⟨inner, items, -, -, -, rfl⟩ |
        ⟨inner, members, -, -, -, rfl⟩⟩ := readValue_eq_ok_iff.mp h
      · exact readValue_eq_ok_iff.mpr ⟨c, tail, hgap, Or.inl hscalar⟩
      · simp [Value.depth] at hdepth
      · simp [Value.depth] at hdepth
  | succ depth ih =>
      obtain ⟨c, tail, hgap, hscalar | ⟨inner, items, rfl, rfl, hwalk, rfl⟩ |
        ⟨inner, members, rfl, rfl, hwalk, rfl⟩⟩ := readValue_eq_ok_iff.mp h
      · exact readValue_eq_ok_iff.mpr ⟨c, tail, hgap, Or.inl hscalar⟩
      · have hfollows : Follows (fun items : List Value => ∀ item ∈ items, item.depth ≤ depth) Eq
            (readElement inner) (readElement depth) := by
          constructor
          · intro state next text rest hread hnext
            obtain ⟨v, -, rfl⟩ := mapRead_eq_ok_iff.mp hread
            exact (List.forall_mem_cons.mp hnext).2
          · intro state next text rest hread hnext other heq
            obtain ⟨v, hv, rfl⟩ := mapRead_eq_ok_iff.mp hread
            have hread' := ih hv (hnext v List.mem_cons_self)
            exact ⟨_, mapRead_eq_ok_iff.mpr ⟨v, hread', rfl⟩, heq ▸ rfl⟩
        have hitems : ∀ item ∈ items, item.depth ≤ depth := by
          rw [Value.depth] at hdepth
          have hle : Value.depthItems items.reverse ≤ depth := by omega
          have hall := Value.depthItems_le_iff.mp hle
          exact fun item hitem => hall item (List.mem_reverse.mpr hitem)
        obtain ⟨_, hwalk', rfl⟩ := hfollows.walkList.follow hwalk hitems rfl
        exact readValue_eq_ok_iff.mpr
          ⟨'[', tail, hgap, Or.inr (Or.inl ⟨depth, items, rfl, rfl, hwalk', rfl⟩)⟩
      · have hfollows : Follows (fun members : List (String × Value) =>
            ∀ m ∈ members, m.2.depth ≤ depth) Eq (readMember (readField inner))
            (readMember (readField depth)) := by
          apply Follows.ofMember
          · intro state next key text rest hread hnext
            obtain ⟨behind, v, -, -, rfl⟩ := readField_eq_ok_iff.mp hread
            exact (List.forall_mem_cons.mp hnext).2
          · intro state next key text rest hread hnext other heq
            obtain ⟨behind, v, hcolon, hv, rfl⟩ := readField_eq_ok_iff.mp hread
            have hread' := ih hv (hnext _ List.mem_cons_self)
            exact ⟨_, readField_eq_ok_iff.mpr ⟨behind, v, hcolon, hread', rfl⟩, heq ▸ rfl⟩
        have hmembers : ∀ m ∈ members, m.2.depth ≤ depth := by
          rw [Value.depth] at hdepth
          have hle : Value.depthMembers members.reverse ≤ depth := by omega
          have hall := Value.depthMembers_le_iff.mp hle
          exact fun m hm => hall m (List.mem_reverse.mpr hm)
        obtain ⟨_, hwalk', rfl⟩ := hfollows.walkObject.follow hwalk hmembers rfl
        exact readValue_eq_ok_iff.mpr
          ⟨'\x7b', tail, hgap, Or.inr (Or.inr ⟨depth, members, rfl, rfl, hwalk', rfl⟩)⟩

/-- The bound on nesting keeps those values out that nest deeper, and no others. -/
theorem readValue_eq_ok_iff_of_le {depth room : Nat} (hle : depth ≤ room) {text rest : List Char}
    {value : Value} : readValue depth text = .ok (value, rest) ↔
      readValue room text = .ok (value, rest) ∧ value.depth ≤ depth := by
  constructor
  · intro h
    exact ⟨readValue_of_le hle h, depth_le_of_readValue h⟩
  · intro h
    exact readValue_of_depth_le h.1 h.2

end CellAlign.Json
