import CellAlign.Proofs.Json.Syntax

/-!
# Values in the syntax of JSON

A text that is one value in the syntax of JSON is read or refused whatever stands around it: by the
same reader at the start of a text, in a list or behind a key, and as deep as it may be, as long as
there is room for the arrays and objects that are open at once in it.

* `Derives`: the grammar of values, with a bound on how deeply they nest;
* `ReadsPart`, `ReadsRow`: what is read of a part of an array or an object, and of all parts of it;
* `ReadsRow.array`, `ReadsRow.object`: arrays and objects from their rows;
* `settled_of_derives`: what is read of a text that the grammar derives is settled.
-/

namespace CellAlign.Json

open Numeral (EndsNumeral)

/-! ## The grammar -/

/-- A gap. -/
def IsGap (text : List Char) : Prop := ∀ c ∈ text, isGap c = true

/-- What the grammar derives: a value, a value with gaps around it, one or more of those, a key with
such a value, and one or more of those. -/
inductive Symbol where
  | value
  | element
  | elements
  | member
  | members

/-- The texts that the grammar derives from a symbol with at most so many arrays and objects open at
once. -/
inductive Derives : Symbol → Nat → List Char → Prop
  | null {depth : Nat} : Derives .value depth ['n', 'u', 'l', 'l']
  | true {depth : Nat} : Derives .value depth ['t', 'r', 'u', 'e']
  | false {depth : Nat} : Derives .value depth ['f', 'a', 'l', 's', 'e']
  | numeral {depth : Nat} {text : List Char} (h : IsNumeral text) : Derives .value depth text
  | string {depth : Nat} {body : List Char} (h : IsBody body) :
      Derives .value depth ('"' :: (body ++ ['"']))
  | emptyArray {depth : Nat} {gap : List Char} (hgap : IsGap gap) :
      Derives .value (depth + 1) ('[' :: (gap ++ [']']))
  | array {depth : Nat} {text : List Char} (h : Derives .elements depth text) :
      Derives .value (depth + 1) ('[' :: (text ++ [']']))
  | emptyObject {depth : Nat} {gap : List Char} (hgap : IsGap gap) :
      Derives .value (depth + 1) ('\x7b' :: (gap ++ ['\x7d']))
  | object {depth : Nat} {text : List Char} (h : Derives .members depth text) :
      Derives .value (depth + 1) ('\x7b' :: (text ++ ['\x7d']))
  | element {depth : Nat} {before text after : List Char} (hbefore : IsGap before)
      (h : Derives .value depth text) (hafter : IsGap after) :
      Derives .element depth (before ++ (text ++ after))
  | lastElement {depth : Nat} {text : List Char} (h : Derives .element depth text) :
      Derives .elements depth text
  | moreElements {depth : Nat} {text rest : List Char} (h : Derives .element depth text)
      (hrest : Derives .elements depth rest) : Derives .elements depth (text ++ ',' :: rest)
  | member {depth : Nat} {before key between text : List Char} (hbefore : IsGap before)
      (hkey : IsBody key) (hbetween : IsGap between) (h : Derives .element depth text) :
      Derives .member depth (before ++ '"' :: (key ++ '"' :: (between ++ ':' :: text)))
  | lastMember {depth : Nat} {text : List Char} (h : Derives .member depth text) :
      Derives .members depth text
  | moreMembers {depth : Nat} {text rest : List Char} (h : Derives .member depth text)
      (hrest : Derives .members depth rest) : Derives .members depth (text ++ ',' :: rest)

/-! ## Gaps and starts -/

/-- Two gaps are one. -/
theorem isGap_append {gap gap' : List Char} (h : IsGap gap) (h' : IsGap gap') :
    IsGap (gap ++ gap') := by
  intro c hc
  rcases List.mem_append.mp hc with hc | hc
  · exact h c hc
  · exact h' c hc

/-- A gap is left out. -/
theorem skipGap_append {gap : List Char} (h : IsGap gap) (rest : List Char) :
    skipGap (gap ++ rest) = skipGap rest := by
  rw [skipGap, List.dropWhile_append_of_pos h]
  rfl

/-- A gap ends a numeral, and so does what follows it. -/
theorem endsNumeral_append {gap rest : List Char} (h : IsGap gap) (hrest : EndsNumeral rest) :
    EndsNumeral (gap ++ rest) := by
  cases gap with
  | nil => exact hrest
  | cons c gap =>
      intro d hd
      obtain rfl : c = d := by simpa using hd
      have hgap := h c List.mem_cons_self
      simp only [isGap, Bool.or_eq_true, beq_iff_eq] at hgap
      obtain ((rfl | rfl) | rfl) | rfl := hgap <;> decide

/-- Readers of values leave a gap out. -/
theorem readValue_append {gap : List Char} (h : IsGap gap) (depth : Nat) (rest : List Char) :
    readValue depth (gap ++ rest) = readValue depth rest := by
  unfold readValue
  rw [skipGap_append h]

/-- A part of an array or an object starts, behind a gap, with a character that closes neither. -/
def StartsPart (text : List Char) : Prop :=
  ∃ before c tail, text = before ++ c :: tail ∧ IsGap before ∧ isGap c = false ∧ c ≠ ']' ∧
    c ≠ '\x7d'

/-- What follows a part does not change how it starts. -/
theorem StartsPart.append {text : List Char} (h : StartsPart text) (rest : List Char) :
    ∃ c tail, skipGap (text ++ rest) = c :: tail ∧ c ≠ ']' ∧ c ≠ '\x7d' := by
  obtain ⟨before, c, tail, rfl, hbefore, hc, hlist, hobject⟩ := h
  refine ⟨c, tail ++ rest, ?_, hlist, hobject⟩
  rw [List.append_assoc, skipGap_append hbefore, List.cons_append, skipGap_cons hc]

/-! ## Parts and rows of parts -/

section Rows

variable {α β : Type} {part : List Char → Outcome α} {text rest : List Char} {found : Option α}

/-- A reader of parts comes to a result behind a text, up to a gap at its end. -/
structure ReadsPart (part : List Char → Outcome α) (text : List Char) (found : Option α) :
    Prop where
  starts : StartsPart text
  gives : ∃ inner after, text = inner ++ after ∧ IsGap after ∧
    ∀ rest, EndsNumeral rest → Gives (after ++ rest) found (part (text ++ rest))

/-- A walk behind a part ends at the closing character or takes in one more part. -/
def TakesParts (close : Char) (part : List Char → Outcome α)
    (walk : Nat → List α → List Char → Outcome (List α)) : Prop :=
  ∀ {fuel state text next rest}, walk (fuel + 1) state text = .ok (next, rest) ↔
    (skipGap text = close :: rest ∧ state = next) ∨
    ∃ more a behind, skipGap text = ',' :: more ∧ part more = .ok (a, behind) ∧
      walk fuel (a :: state) behind = .ok (next, rest)

/-- A part is read and taken in, and then the walk goes on. -/
def TakesRow (part : List Char → Outcome α) (walk : Nat → List α → List Char → Outcome (List α))
    (fuel : List Char → Nat) (state : List α) (text : List Char) (next : List α)
    (rest : List Char) : Prop :=
  ∃ a behind, part text = .ok (a, behind) ∧
    walk (fuel behind) (a :: state) behind = .ok (next, rest)

/-- A walk ends at once or takes in a row of parts. -/
def StartsRow (close : Char) (part : List Char → Outcome α)
    (walk : Nat → List α → List Char → Outcome (List α))
    (start : List α → List Char → Outcome (List α)) : Prop :=
  ∀ {state text next rest}, start state text = .ok (next, rest) ↔
    (skipGap text = close :: rest ∧ state = next) ∨
    TakesRow part walk (fun behind => behind.length.succ) state text next rest

/-- The parts of a row are taken in up to the closing character, or one of them is refused. -/
structure ReadsRow (close : Char) (part : List Char → Outcome α)
    (walk : Nat → List α → List Char → Outcome (List α)) (text : List Char)
    (found : Option (List α)) : Prop where
  starts : StartsPart text
  takes (fuel : List Char → Nat) (state : List α) {rest : List Char}
    (hfuel : ∀ behind, behind.length ≤ (text ++ close :: rest).length →
      behind.length < fuel behind) {next : List α} {more : List Char} :
    TakesRow part walk fuel state (text ++ close :: rest) next more ↔
      ∃ parts, found = some parts ∧ next = parts.reverse ++ state ∧ more = rest

/-- What follows the start of a part does not matter to how it starts. -/
theorem StartsPart.append_right (h : StartsPart text) (rest : List Char) :
    StartsPart (text ++ rest) := by
  obtain ⟨before, c, tail, rfl, hstart⟩ := h
  exact ⟨before, c, tail ++ rest, by simp, hstart⟩

variable {close : Char} {walk : Nat → List α → List Char → Outcome (List α)}
  {found' : Option (List α)}

/-- A row of one part is taken in if the part is read. -/
theorem ReadsRow.one (hwalk : TakesParts close part walk) (hends : EndsNumeral [close])
    (hgap : isGap close = false) (hcomma : close ≠ ',') (h : ReadsPart part text found) :
    ReadsRow close part walk text (found.map ([·])) := by
  refine ⟨h.starts, ?_⟩
  intro fuel state rest hfuel next more
  obtain ⟨inner, after, htext, hafter, hgives⟩ := h.gives
  have hread := hgives (close :: rest) (fun c hc => hends c (by simpa using hc))
  have hbehind : (after ++ close :: rest).length < fuel (after ++ close :: rest) := by
    refine hfuel _ ?_
    rw [htext]
    simp
  obtain ⟨steps, hsteps⟩ := Nat.exists_eq_succ_of_ne_zero (Nat.ne_zero_of_lt hbehind)
  have hclose : skipGap (after ++ close :: rest) = close :: rest := by
    rw [skipGap_append hafter, skipGap_cons hgap]
  constructor
  · rintro ⟨a, behind, hpart, hnext⟩
    obtain ⟨rfl, rfl⟩ := hread.eq_ok_iff.mp hpart
    rw [hsteps] at hnext
    obtain ⟨hend, rfl⟩ | ⟨_, _, _, hmore, -⟩ := hwalk.mp hnext
    · rw [hclose] at hend
      exact ⟨[a], rfl, rfl, (List.cons.inj hend).2.symm⟩
    · rw [hclose] at hmore
      exact absurd (List.cons.inj hmore).1 hcomma
  · rintro ⟨parts, hparts, rfl, rfl⟩
    obtain ⟨a, rfl, rfl⟩ := Option.map_eq_some_iff.mp hparts
    refine ⟨a, _, hread.eq_ok_iff.mpr ⟨rfl, rfl⟩, ?_⟩
    rw [hsteps]
    exact hwalk.mpr (Or.inl ⟨hclose, rfl⟩)

/-- A row of more parts is taken in if the first is read and the others are taken in. -/
theorem ReadsRow.cons {row : List Char} {others : Option (List α)}
    (hwalk : TakesParts close part walk) (hcomma : close ≠ ',') (h : ReadsPart part text found)
    (hrow : ReadsRow close part walk row others) :
    ReadsRow close part walk (text ++ ',' :: row)
      (found.bind fun a => others.map fun parts => a :: parts) := by
  refine ⟨h.starts.append_right _, ?_⟩
  intro fuel state rest hfuel next more
  obtain ⟨inner, after, htext, hafter, hgives⟩ := h.gives
  have hends : EndsNumeral (',' :: (row ++ close :: rest)) := by
    intro c hc
    obtain rfl : ',' = c := by simpa using hc
    decide
  have hread := hgives _ hends
  have hassoc : text ++ ',' :: row ++ close :: rest = text ++ ',' :: (row ++ close :: rest) := by
    simp
  rw [hassoc] at hfuel ⊢
  have hbehind : (after ++ ',' :: (row ++ close :: rest)).length <
      fuel (after ++ ',' :: (row ++ close :: rest)) := by
    refine hfuel _ ?_
    rw [htext]
    simp
  obtain ⟨steps, hsteps⟩ := Nat.exists_eq_succ_of_ne_zero (Nat.ne_zero_of_lt hbehind)
  have hskip : skipGap (after ++ ',' :: (row ++ close :: rest)) =
      ',' :: (row ++ close :: rest) := by
    rw [skipGap_append hafter, skipGap_cons (by decide)]
  have hsteps' : ∀ behind : List Char, behind.length ≤ (row ++ close :: rest).length →
      behind.length < steps := by
    intro behind hle
    rw [hsteps] at hbehind
    simp only [List.length_append, List.length_cons] at hbehind hle
    omega
  constructor
  · rintro ⟨a, behind, hpart, hnext⟩
    obtain ⟨rfl, rfl⟩ := hread.eq_ok_iff.mp hpart
    rw [hsteps] at hnext
    obtain ⟨hend, -⟩ | ⟨_, b, behind, hmore, hpart, hnext⟩ := hwalk.mp hnext
    · rw [hskip] at hend
      exact absurd (List.cons.inj hend).1.symm hcomma
    · rw [hskip] at hmore
      obtain rfl := (List.cons.inj hmore).2
      obtain ⟨parts, rfl, rfl, rfl⟩ :=
        (hrow.takes (fun _ => steps) _ hsteps').mp ⟨b, behind, hpart, hnext⟩
      exact ⟨a :: parts, rfl, by simp, rfl⟩
  · rintro ⟨parts, hparts, rfl, rfl⟩
    obtain ⟨a, rfl, hothers⟩ := Option.bind_eq_some_iff.mp hparts
    obtain ⟨parts, rfl, rfl⟩ := Option.map_eq_some_iff.mp hothers
    obtain ⟨b, behind, hpart, hnext⟩ :=
      (hrow.takes (fun _ => steps) (a :: state) hsteps').mpr ⟨parts, rfl, rfl, rfl⟩
    refine ⟨a, _, hread.eq_ok_iff.mpr ⟨rfl, rfl⟩, ?_⟩
    rw [hsteps]
    refine hwalk.mpr (Or.inr ⟨_, b, behind, hskip, hpart, ?_⟩)
    simpa using hnext

/-- From its start, a walk comes to the parts of a row, last first. -/
theorem ReadsRow.gives {start : List α → List Char → Outcome (List α)}
    (hstart : StartsRow close part walk start) (hclose : close = ']' ∨ close = '\x7d')
    (h : ReadsRow close part walk text found') (rest : List Char) :
    Gives rest (found'.map List.reverse) (start [] (text ++ close :: rest)) := by
  refine gives_of_eq_ok_iff fun next more => ?_
  obtain ⟨c, tail, hopen, hlist, hobject⟩ := h.starts.append (close :: rest)
  have hrow : TakesRow part walk (fun behind => behind.length.succ) [] (text ++ close :: rest)
      next more ↔ ∃ parts, found' = some parts ∧ next = parts.reverse ++ [] ∧ more = rest :=
    h.takes _ [] fun behind _ => Nat.lt_succ_self behind.length
  rw [hstart]
  constructor
  · rintro (⟨hend, -⟩ | htakes)
    · rw [hopen] at hend
      obtain rfl := (List.cons.inj hend).1
      rcases hclose with rfl | rfl
      · exact absurd rfl hlist
      · exact absurd rfl hobject
    · obtain ⟨parts, rfl, rfl, rfl⟩ := hrow.mp htakes
      exact ⟨by simp, rfl⟩
  · rintro ⟨hnext, rfl⟩
    obtain ⟨parts, rfl, rfl⟩ := Option.map_eq_some_iff.mp hnext
    exact Or.inr (hrow.mpr ⟨parts, rfl, by simp, rfl⟩)

/-- From its start, a walk ends where there are no parts. -/
theorem gives_nil {start : List α → List Char → Outcome (List α)}
    (hstart : StartsRow close part walk start) (hclose : isGap close = false) {gap : List Char}
    (h : IsGap gap) (rest : List Char) :
    Gives rest (some []) (start [] (gap ++ close :: rest)) := by
  have hend : start [] (gap ++ close :: rest) = .ok ([], rest) := by
    refine hstart.mpr (Or.inl ⟨?_, rfl⟩)
    rw [skipGap_append h, skipGap_cons hclose]
  rw [hend]
  exact .ok []

end Rows

/-! ## Arrays -/

/-- A value is read behind the gap before it. -/
theorem readValue_eq_ok_iff_skipGap {depth : Nat} {text rest : List Char} {value : Value} :
    readValue depth text = .ok (value, rest) ↔
      ∃ c more, skipGap text = c :: more ∧ c ≠ ']' ∧
        readValue depth (c :: more) = .ok (value, rest) := by
  constructor
  · exact skipGap_of_readValue
  · rintro ⟨c, more, hgap, -, h⟩
    have hskip : readValue depth (skipGap text) = readValue depth text := by
      unfold readValue
      rw [skipGap_skipGap]
    rw [← hskip, hgap]
    exact h

/-- The walk behind an item takes in values. -/
theorem takesParts_readElement (depth : Nat) :
    TakesParts ']' (readValue depth) (walkItems (readElement depth)) := by
  intro fuel state text next rest
  rw [walkItems_eq_ok_iff]
  refine or_congr_right ?_
  constructor
  · rintro ⟨more, c, tail, between, behind, hcomma, hmore, hc, hitem, hwalk⟩
    obtain ⟨a, ha, rfl⟩ := mapRead_eq_ok_iff.mp hitem
    exact ⟨more, a, behind, hcomma, readValue_eq_ok_iff_skipGap.mpr ⟨c, tail, hmore, hc, ha⟩, hwalk⟩
  · rintro ⟨more, a, behind, hcomma, ha, hwalk⟩
    obtain ⟨c, tail, hmore, hc, ha⟩ := readValue_eq_ok_iff_skipGap.mp ha
    exact ⟨more, c, tail, _, behind, hcomma, hmore, hc, mapRead_eq_ok_iff.mpr ⟨a, ha, rfl⟩, hwalk⟩

/-- A walk through a list takes in a row of values. -/
theorem startsRow_readElement (depth : Nat) :
    StartsRow ']' (readValue depth) (walkItems (readElement depth))
      (walkList (readElement depth)) := by
  intro state text next rest
  rw [walkList_eq_ok_iff]
  refine or_congr_right ?_
  constructor
  · rintro ⟨c, tail, between, behind, hgap, hc, hitem, hwalk⟩
    obtain ⟨a, ha, rfl⟩ := mapRead_eq_ok_iff.mp hitem
    exact ⟨a, behind, readValue_eq_ok_iff_skipGap.mpr ⟨c, tail, hgap, hc, ha⟩, hwalk⟩
  · rintro ⟨a, behind, ha, hwalk⟩
    obtain ⟨c, tail, hgap, hc, ha⟩ := readValue_eq_ok_iff_skipGap.mp ha
    exact ⟨c, tail, _, behind, hgap, hc, mapRead_eq_ok_iff.mpr ⟨a, ha, rfl⟩, hwalk⟩

/-- What the walk through a list comes to makes an array. -/
theorem Reads.of_walkList {depth : Nat} {text : List Char} {found : Option (List Value)}
    (h : ∀ rest, Gives rest (found.map List.reverse)
      (walkList (readElement depth) [] (text ++ ']' :: rest))) :
    Reads (readValue (depth + 1)) ('[' :: (text ++ [']'])) (found.map .array) := by
  intro rest _
  have hmap := (h rest).map fun items => Value.array items.reverse
  have hfound : (found.map List.reverse).map (fun items => Value.array items.reverse) =
      found.map .array := by
    cases found <;> simp
  have htext : '[' :: (text ++ [']']) ++ rest = '[' :: (text ++ ']' :: rest) := by simp
  rw [htext, readValue_array, ← hfound]
  exact hmap

/-- What a row of values comes to makes an array. -/
theorem ReadsRow.array {depth : Nat} {text : List Char} {found : Option (List Value)}
    (h : ReadsRow ']' (readValue depth) (walkItems (readElement depth)) text found) :
    Reads (readValue (depth + 1)) ('[' :: (text ++ [']'])) (found.map .array) :=
  Reads.of_walkList fun rest => h.gives (startsRow_readElement depth) (Or.inl rfl) rest

/-! ## Objects -/

/-- Reads a key, its colon and its value. -/
def readEntry (depth : Nat) (text : List Char) : Outcome (String × Value) :=
  match skipGap text with
  | '"' :: tail =>
    match Text.read tail with
    | .error stop => .error stop
    | .ok (key, behind) =>
      match readColon behind with
      | .error stop => .error stop
      | .ok more => mapRead (fun value => (key, value)) (readValue depth more)
  | _ => stopHere .keyNotString text

/-- An entry is read if its key, its colon and its value are. -/
theorem readEntry_eq_ok_iff {depth : Nat} {text rest : List Char} {entry : String × Value} :
    readEntry depth text = .ok (entry, rest) ↔
      ∃ tail behind more, skipGap text = '"' :: tail ∧ Text.read tail = .ok (entry.1, behind) ∧
        readColon behind = .ok more ∧ readValue depth more = .ok (entry.2, rest) := by
  constructor
  · intro h
    unfold readEntry at h
    split at h
    · next tail hgap =>
      split at h
      · cases h
      · next key behind hkey =>
        split at h
        · cases h
        · next more hcolon =>
          obtain ⟨value, hvalue, rfl⟩ := mapRead_eq_ok_iff.mp h
          exact ⟨tail, behind, more, hgap, hkey, hcolon, hvalue⟩
    · cases h
  · rintro ⟨tail, behind, more, hgap, hkey, hcolon, hvalue⟩
    simp only [readEntry, hgap, hkey, hcolon, hvalue]
    rfl

/-- The readers of members read entries. -/
theorem readMember_readField_eq_ok_iff {depth : Nat} {text rest : List Char}
    {state next : List (String × Value)} :
    (∃ tail, skipGap text = '"' :: tail ∧
        readMember (readField depth) state tail = .ok (next, rest)) ↔
      ∃ entry, readEntry depth text = .ok (entry, rest) ∧ next = entry :: state := by
  simp only [readMember_eq_ok_iff, readField_eq_ok_iff, readEntry_eq_ok_iff]
  constructor
  · rintro ⟨tail, hgap, key, behind, hkey, more, value, hcolon, hvalue, rfl⟩
    exact ⟨(key, value), ⟨tail, behind, more, hgap, hkey, hcolon, hvalue⟩, rfl⟩
  · rintro ⟨⟨key, value⟩, ⟨tail, behind, more, hgap, hkey, hcolon, hvalue⟩, rfl⟩
    exact ⟨tail, hgap, key, behind, hkey, more, value, hcolon, hvalue, rfl⟩

/-- The walk behind a member takes in entries. -/
theorem takesParts_readField (depth : Nat) :
    TakesParts '\x7d' (readEntry depth) (walkMembers (readField depth)) := by
  intro fuel state text next rest
  rw [walkMembers_eq_ok_iff]
  refine or_congr_right ?_
  constructor
  · rintro ⟨more, tail, between, behind, hcomma, hquote, hread, hwalk⟩
    obtain ⟨entry, hentry, rfl⟩ := readMember_readField_eq_ok_iff.mp ⟨tail, hquote, hread⟩
    exact ⟨more, entry, behind, hcomma, hentry, hwalk⟩
  · rintro ⟨more, entry, behind, hcomma, hentry, hwalk⟩
    obtain ⟨tail, hquote, hread⟩ := readMember_readField_eq_ok_iff.mpr ⟨entry, hentry, rfl⟩
    exact ⟨more, tail, _, behind, hcomma, hquote, hread, hwalk⟩

/-- A walk through an object takes in a row of entries. -/
theorem startsRow_readField (depth : Nat) :
    StartsRow '\x7d' (readEntry depth) (walkMembers (readField depth))
      (walkObject (readField depth)) := by
  intro state text next rest
  rw [walkObject_eq_ok_iff]
  refine or_congr_right ?_
  constructor
  · rintro ⟨tail, between, behind, hquote, hread, hwalk⟩
    obtain ⟨entry, hentry, rfl⟩ := readMember_readField_eq_ok_iff.mp ⟨tail, hquote, hread⟩
    exact ⟨entry, behind, hentry, hwalk⟩
  · rintro ⟨entry, behind, hentry, hwalk⟩
    obtain ⟨tail, hquote, hread⟩ := readMember_readField_eq_ok_iff.mpr ⟨entry, hentry, rfl⟩
    exact ⟨tail, _, behind, hquote, hread, hwalk⟩

/-- What the walk through an object comes to makes an object. -/
theorem Reads.of_walkObject {depth : Nat} {text : List Char}
    {found : Option (List (String × Value))}
    (h : ∀ rest, Gives rest (found.map List.reverse)
      (walkObject (readField depth) [] (text ++ '\x7d' :: rest))) :
    Reads (readValue (depth + 1)) ('\x7b' :: (text ++ ['\x7d'])) (found.map .object) := by
  intro rest _
  have hmap := (h rest).map fun members => Value.object members.reverse
  have hfound : (found.map List.reverse).map (fun members => Value.object members.reverse) =
      found.map .object := by
    cases found <;> simp
  have htext : '\x7b' :: (text ++ ['\x7d']) ++ rest = '\x7b' :: (text ++ '\x7d' :: rest) := by simp
  rw [htext, readValue_object, ← hfound]
  exact hmap

/-- What a row of entries comes to makes an object. -/
theorem ReadsRow.object {depth : Nat} {text : List Char} {found : Option (List (String × Value))}
    (h : ReadsRow '\x7d' (readEntry depth) (walkMembers (readField depth)) text found) :
    Reads (readValue (depth + 1)) ('\x7b' :: (text ++ ['\x7d'])) (found.map .object) :=
  Reads.of_walkObject fun rest => h.gives (startsRow_readField depth) (Or.inr rfl) rest

/-! ## Parts -/

/-- A value is a part of an array. -/
theorem Reads.part {depth : Nat} {text : List Char} {found : Option Value}
    (h : Reads (readValue depth) text found) (hstarts : StartsPart text) :
    ReadsPart (readValue depth) text found :=
  ⟨hstarts, text, [], (List.append_nil text).symm, nofun, fun rest hrest => h rest hrest⟩

/-- Gaps around a part of an array belong to it. -/
theorem ReadsPart.spaced {depth : Nat} {before text after : List Char} {found : Option Value}
    (hbefore : IsGap before) (h : ReadsPart (readValue depth) text found) (hafter : IsGap after) :
    ReadsPart (readValue depth) (before ++ (text ++ after)) found := by
  obtain ⟨gap, c, tail, hstart, hgap, hc⟩ := h.starts
  obtain ⟨inner, behind, htext, hbehind, hgives⟩ := h.gives
  refine ⟨⟨before ++ gap, c, tail ++ after, by simp [hstart], isGap_append hbefore hgap, hc⟩,
    before ++ inner, behind ++ after, by simp [htext], isGap_append hbehind hafter, ?_⟩
  intro rest hrest
  have hread := hgives (after ++ rest) (endsNumeral_append hafter hrest)
  rw [List.append_assoc, List.append_assoc, readValue_append hbefore, List.append_assoc]
  exact hread

/-- A key with a value is a part of an object. -/
theorem ReadsPart.member {depth : Nat} {before key between text : List Char}
    {name : Option String} {found : Option Value} (hbefore : IsGap before)
    (hkey : Reads Text.read (key ++ ['"']) name) (hbetween : IsGap between)
    (h : ReadsPart (readValue depth) text found) :
    ReadsPart (readEntry depth) (before ++ '"' :: (key ++ '"' :: (between ++ ':' :: text)))
      (name.bind fun name => found.map fun value => (name, value)) := by
  obtain ⟨inner, after, htext, hafter, hgives⟩ := h.gives
  refine ⟨⟨before, '"', _, rfl, hbefore, rfl, by decide, by decide⟩,
    before ++ '"' :: (key ++ '"' :: (between ++ ':' :: inner)), after, by simp [htext], hafter, ?_⟩
  intro rest hrest
  refine gives_of_eq_ok_iff fun entry more => ?_
  rw [readEntry_eq_ok_iff]
  have hgap : skipGap (before ++ '"' :: (key ++ '"' :: (between ++ ':' :: text)) ++ rest) =
      '"' :: (key ++ ['"'] ++ (between ++ ':' :: (text ++ rest))) := by
    rw [List.append_assoc, skipGap_append hbefore, List.cons_append, skipGap_cons (by decide)]
    simp
  have hcolon : readColon (between ++ ':' :: (text ++ rest)) = .ok (text ++ rest) := by
    rw [readColon, skipGap_append hbetween, skipGap_cons (by decide)]
    rfl
  have hname := hkey (between ++ ':' :: (text ++ rest)) (endsNumeral_append hbetween (by
    intro c hc
    obtain rfl : ':' = c := by simpa using hc
    decide))
  have hvalue := hgives rest hrest
  constructor
  · rintro ⟨tail, behind, next, htail, hread, hnext, hfound⟩
    rw [hgap] at htail
    obtain rfl := (List.cons.inj htail).2
    obtain ⟨rfl, rfl⟩ := hname.eq_ok_iff.mp hread
    obtain rfl := Except.ok.inj (hcolon.symm.trans hnext)
    obtain ⟨rfl, rfl⟩ := hvalue.eq_ok_iff.mp hfound
    exact ⟨rfl, rfl⟩
  · rintro ⟨hentry, rfl⟩
    obtain ⟨key, rfl, hfound⟩ := Option.bind_eq_some_iff.mp hentry
    obtain ⟨value, rfl, rfl⟩ := Option.map_eq_some_iff.mp hfound
    exact ⟨_, _, _, hgap, hname.eq_ok_iff.mpr ⟨rfl, rfl⟩, hcolon, hvalue.eq_ok_iff.mpr ⟨rfl, rfl⟩⟩

/-! ## Numbers, strings and literal names -/

/-- A part may start with a character that is neither a gap nor closes anything. -/
theorem startsPart_cons {c : Char} (hgap : isGap c = false) (hlist : c ≠ ']') (hobject : c ≠ '\x7d')
    (tail : List Char) : StartsPart (c :: tail) :=
  ⟨[], c, tail, rfl, nofun, hgap, hlist, hobject⟩

/-- What is read as a number, a string or a literal name is read at any depth. -/
theorem exists_reads_of_scalar {c : Char} {text : List Char} {read : List Char → Outcome Value}
    (hgap : isGap c = false) (hread : ∀ rest, readScalar? c rest = some (read rest))
    (h : Settles read text) : ∃ found, ∀ depth, Reads (readValue depth) (c :: text) found := by
  obtain ⟨found, hfound⟩ := h
  refine ⟨found, fun depth rest hrest => ?_⟩
  rw [List.cons_append, readValue_scalar hgap (hread (text ++ rest))]
  exact hfound rest hrest

/-- A literal name is read to its end. -/
theorem settles_readLiteral {α : Type} (name : List Char) (value : α) :
    Settles (readLiteral name value) name := by
  have hname (rest : List Char) : readName name (name ++ rest) = .ok rest := by
    induction name with
    | nil => rfl
    | cons c name ih => rw [List.cons_append, readName, if_pos rfl, ih]
  refine ⟨some value, fun rest _ => ?_⟩
  rw [readLiteral, hname]
  exact .ok value

/-- A digit differs from all that is no digit. -/
theorem ne_of_isDigit {c d : Char} (hc : c.isDigit = true) (hd : d.isDigit = false) : c ≠ d := by
  rintro rfl
  rw [hc] at hd
  cases hd

/-- A digit is no gap. -/
theorem isGap_of_isDigit {c : Char} (h : c.isDigit = true) : isGap c = false := by
  simp [isGap, ne_of_isDigit h (d := ' ') rfl, ne_of_isDigit h (d := '\n') rfl,
    ne_of_isDigit h (d := '\t') rfl, ne_of_isDigit h (d := '\r') rfl]

/-- What starts with a digit is a part of an array or an object. -/
theorem startsPart_digit {c : Char} (h : c.isDigit = true) (tail : List Char) :
    StartsPart (c :: tail) :=
  startsPart_cons (isGap_of_isDigit h) (ne_of_isDigit h rfl) (ne_of_isDigit h rfl) tail

/-- A numeral without its sign starts with a digit. -/
theorem exists_digit_of_isUnsigned {text : List Char} (h : IsUnsigned text) :
    ∃ c more, text = c :: more ∧ c.isDigit = true := by
  obtain ⟨hwhole, -, -⟩ := h
  cases hwhole with
  | zero => exact ⟨'0', _, rfl, rfl⟩
  | digits hc => exact ⟨_, _, rfl, hc⟩

/-- A numeral is a part of an array or an object. -/
theorem startsPart_numeral {text : List Char} (h : IsNumeral text) : StartsPart text := by
  cases h with
  | unsigned h =>
      obtain ⟨c, more, rfl, hc⟩ := exists_digit_of_isUnsigned h
      exact startsPart_digit hc more
  | negative h => exact startsPart_cons rfl (by decide) (by decide) _

/-- A numeral is read or refused at any depth. -/
theorem exists_reads_numeral {text : List Char} (h : IsNumeral text) :
    ∃ found, ∀ depth, Reads (readValue depth) text found := by
  cases h with
  | unsigned h =>
      obtain ⟨found, hfound⟩ := (Numeral.settles_afterSign false h).map Value.number
      obtain ⟨c, more, rfl, hc⟩ := exists_digit_of_isUnsigned h
      refine ⟨found, fun depth rest hrest => ?_⟩
      rw [List.cons_append, readValue_digit hc]
      exact hfound rest hrest
  | negative h =>
      exact exists_reads_of_scalar rfl (fun _ => rfl)
        ((Numeral.settles_afterSign true h).map Value.number)

/-! ## Values -/

/-- What is read of a text that the grammar derives from a symbol is settled, as long as there is
room for what nests in it. -/
def Settled : Symbol → Nat → List Char → Prop
  | .value, depth, text =>
    StartsPart text ∧ ∃ found, ∀ room, depth ≤ room → Reads (readValue room) text found
  | .element, depth, text =>
    ∃ found, ∀ room, depth ≤ room → ReadsPart (readValue room) text found
  | .elements, depth, text =>
    ∃ found, ∀ room, depth ≤ room →
      ReadsRow ']' (readValue room) (walkItems (readElement room)) text found
  | .member, depth, text =>
    ∃ found, ∀ room, depth ≤ room → ReadsPart (readEntry room) text found
  | .members, depth, text =>
    ∃ found, ∀ room, depth ≤ room →
      ReadsRow '\x7d' (readEntry room) (walkMembers (readField room)) text found

/-- A closing character ends a numeral. -/
theorem endsNumeral_close {close : Char} (h : close = ']' ∨ close = '\x7d') :
    EndsNumeral [close] := by
  intro c hc
  obtain rfl : close = c := by simpa using hc
  rcases h with rfl | rfl <;> decide

/-- What is read of a text in the syntax of JSON is settled. -/
theorem settled_of_derives {symbol : Symbol} {depth : Nat} {text : List Char}
    (h : Derives symbol depth text) : Settled symbol depth text := by
  -- Arrays and objects need room for one more than what is in them.
  have hinner {depth room : Nat} (hroom : depth + 1 ≤ room) :
      ∃ inner, room = inner + 1 ∧ depth ≤ inner := ⟨room - 1, by omega, by omega⟩
  induction h with
  | null =>
      obtain ⟨found, hfound⟩ := exists_reads_of_scalar (c := 'n') rfl (fun _ => rfl)
        (settles_readLiteral ['u', 'l', 'l'] Value.null)
      exact ⟨startsPart_cons rfl (by decide) (by decide) _, found, fun room _ => hfound room⟩
  | true =>
      obtain ⟨found, hfound⟩ := exists_reads_of_scalar (c := 't') rfl (fun _ => rfl)
        (settles_readLiteral ['r', 'u', 'e'] (Value.bool Bool.true))
      exact ⟨startsPart_cons rfl (by decide) (by decide) _, found, fun room _ => hfound room⟩
  | false =>
      obtain ⟨found, hfound⟩ := exists_reads_of_scalar (c := 'f') rfl (fun _ => rfl)
        (settles_readLiteral ['a', 'l', 's', 'e'] (Value.bool Bool.false))
      exact ⟨startsPart_cons rfl (by decide) (by decide) _, found, fun room _ => hfound room⟩
  | numeral h =>
      obtain ⟨found, hfound⟩ := exists_reads_numeral h
      exact ⟨startsPart_numeral h, found, fun room _ => hfound room⟩
  | string h =>
      obtain ⟨found, hfound⟩ := exists_reads_of_scalar (c := '"') rfl (fun _ => rfl)
        ((Text.settles_read h).map Value.string)
      exact ⟨startsPart_cons rfl (by decide) (by decide) _, found, fun room _ => hfound room⟩
  | emptyArray hgap =>
      refine ⟨startsPart_cons rfl (by decide) (by decide) _, some (.array []), ?_⟩
      intro room hroom
      obtain ⟨inner, rfl, -⟩ := hinner hroom
      exact @Reads.of_walkList inner _ (some []) fun rest =>
        gives_nil (startsRow_readElement inner) rfl hgap rest
  | array _ ih =>
      obtain ⟨found, hfound⟩ := ih
      refine ⟨startsPart_cons rfl (by decide) (by decide) _, found.map .array, ?_⟩
      intro room hroom
      obtain ⟨inner, rfl, hle⟩ := hinner hroom
      exact (hfound inner hle).array
  | emptyObject hgap =>
      refine ⟨startsPart_cons rfl (by decide) (by decide) _, some (.object []), ?_⟩
      intro room hroom
      obtain ⟨inner, rfl, -⟩ := hinner hroom
      exact @Reads.of_walkObject inner _ (some []) fun rest =>
        gives_nil (startsRow_readField inner) rfl hgap rest
  | object _ ih =>
      obtain ⟨found, hfound⟩ := ih
      refine ⟨startsPart_cons rfl (by decide) (by decide) _, found.map .object, ?_⟩
      intro room hroom
      obtain ⟨inner, rfl, hle⟩ := hinner hroom
      exact (hfound inner hle).object
  | element hbefore _ hafter ih =>
      obtain ⟨hstarts, found, hfound⟩ := ih
      exact ⟨found, fun room hroom => .spaced hbefore ((hfound room hroom).part hstarts) hafter⟩
  | lastElement _ ih =>
      obtain ⟨found, hfound⟩ := ih
      refine ⟨found.map ([·]), fun room hroom => ?_⟩
      exact .one (takesParts_readElement room) (endsNumeral_close (Or.inl rfl)) rfl (by decide)
        (hfound room hroom)
  | moreElements _ _ ih ihrest =>
      obtain ⟨found, hfound⟩ := ih
      obtain ⟨others, hothers⟩ := ihrest
      refine ⟨found.bind fun a => others.map fun parts => a :: parts, fun room hroom => ?_⟩
      exact .cons (takesParts_readElement room) (by decide) (hfound room hroom)
        (hothers room hroom)
  | member hbefore hkey hbetween _ ih =>
      obtain ⟨name, hname⟩ := Text.settles_read hkey
      obtain ⟨found, hfound⟩ := ih
      refine ⟨name.bind fun name => found.map fun value => (name, value), fun room hroom => ?_⟩
      exact .member hbefore hname hbetween (hfound room hroom)
  | lastMember _ ih =>
      obtain ⟨found, hfound⟩ := ih
      refine ⟨found.map ([·]), fun room hroom => ?_⟩
      exact .one (takesParts_readField room) (endsNumeral_close (Or.inr rfl)) rfl (by decide)
        (hfound room hroom)
  | moreMembers _ _ ih ihrest =>
      obtain ⟨found, hfound⟩ := ih
      obtain ⟨others, hothers⟩ := ihrest
      refine ⟨found.bind fun a => others.map fun parts => a :: parts, fun room hroom => ?_⟩
      exact .cons (takesParts_readField room) (by decide) (hfound room hroom) (hothers room hroom)

end CellAlign.Json
