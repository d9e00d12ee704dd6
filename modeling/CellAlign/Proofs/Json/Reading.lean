import CellAlign.Json.Reader
import CellAlign.Json.Writer
import CellAlign.Proofs.Json.Numeral
import CellAlign.Proofs.Json.Text

/-!
# Values, written and read

A value is written in front of any text, and it is read back up to that text, as long as it holds no
binary number and is not nested too deep.

* `walkItems_prettyItems`, `walkMembers_prettyMembers`: the walks through a written array and a
  written object, whatever reads their items and members;
* `readValue_pretty`: a written value is read back up to what follows it.
-/

namespace CellAlign.Json

open Numeral (EndsNumeral)

namespace Value

mutual

/-- How many arrays and objects are open at once in a value. -/
def depth : Value → Nat
  | .array items => 1 + depthItems items
  | .object members => 1 + depthMembers members
  | _ => 0

/-- How many arrays and objects are open at once in the items of an array. -/
def depthItems : List Value → Nat
  | [] => 0
  | item :: items => max item.depth (depthItems items)

/-- How many arrays and objects are open at once in the members of an object. -/
def depthMembers : List (String × Value) → Nat
  | [] => 0
  | (_, value) :: members => max value.depth (depthMembers members)

end

mutual

/-- All numbers in a value are whole numbers. -/
def Exact : Value → Prop
  | .number (.binary _) => False
  | .array items => ExactItems items
  | .object members => ExactMembers members
  | _ => True

/-- All numbers in the items of an array are whole numbers. -/
def ExactItems : List Value → Prop
  | [] => True
  | item :: items => item.Exact ∧ ExactItems items

/-- All numbers in the members of an object are whole numbers. -/
def ExactMembers : List (String × Value) → Prop
  | [] => True
  | (_, value) :: members => value.Exact ∧ ExactMembers members

end

/-! ## How much is written -/

/-- A new line is more than what it stands in front of. -/
theorem lt_length_newline (level : Nat) (rest : List Char) :
    rest.length < (newline level rest).length := by
  simp only [newline, List.length_cons, List.length_append]
  omega

/-- A new line does not depend on what it stands in front of. -/
theorem newline_append (level : Nat) (rest behind : List Char) :
    newline level (rest ++ behind) = newline level rest ++ behind := by
  rw [newline, newline, List.cons_append, List.append_assoc]

mutual

/-- A value is written in front of a text. -/
theorem le_length_pretty : (value : Value) → (level : Nat) → (rest : List Char) →
    rest.length ≤ (value.pretty level rest).length
  | .null, level, rest | .bool true, level, rest | .bool false, level, rest
  | .array [], level, rest | .object [], level, rest => by
      simp only [pretty, List.length_cons]
      omega
  | .number n, level, rest | .string s, level, rest => by
      simp only [pretty, List.length_append]
      omega
  | .array (item :: items), level, rest => by
      have hclose := lt_length_newline level (']' :: rest)
      have hitems := le_length_prettyItems items (level + 1) (newline level (']' :: rest))
      have hitem := le_length_pretty item (level + 1)
        (prettyItems (level + 1) (newline level (']' :: rest)) items)
      have hopen := lt_length_newline (level + 1) (item.pretty (level + 1)
        (prettyItems (level + 1) (newline level (']' :: rest)) items))
      simp only [pretty, List.length_cons] at *
      omega
  | .object ((key, value) :: members), level, rest => by
      have hclose := lt_length_newline level ('\x7d' :: rest)
      have hmembers := le_length_prettyMembers members (level + 1) (newline level ('\x7d' :: rest))
      have hvalue := le_length_pretty value (level + 1)
        (prettyMembers (level + 1) (newline level ('\x7d' :: rest)) members)
      have hopen := lt_length_newline (level + 1) (Text.encode key.toList ++ ':' :: ' ' ::
        value.pretty (level + 1)
          (prettyMembers (level + 1) (newline level ('\x7d' :: rest)) members))
      simp only [pretty, List.length_cons, List.length_append] at *
      omega

/-- Each item takes more than nothing. -/
theorem le_length_prettyItems : (items : List Value) → (level : Nat) → (rest : List Char) →
    rest.length + items.length ≤ (prettyItems level rest items).length
  | [], level, rest => by simp [prettyItems]
  | item :: items, level, rest => by
      have hitems := le_length_prettyItems items level rest
      have hitem := le_length_pretty item level (prettyItems level rest items)
      have hopen := lt_length_newline level (item.pretty level (prettyItems level rest items))
      simp only [prettyItems, List.length_cons]
      omega

/-- Each member takes more than nothing. -/
theorem le_length_prettyMembers : (members : List (String × Value)) → (level : Nat) →
    (rest : List Char) →
    rest.length + members.length ≤ (prettyMembers level rest members).length
  | [], level, rest => by simp [prettyMembers]
  | (key, value) :: members, level, rest => by
      have hmembers := le_length_prettyMembers members level rest
      have hvalue := le_length_pretty value level (prettyMembers level rest members)
      have hopen := lt_length_newline level (Text.encode key.toList ++ ':' :: ' ' ::
        value.pretty level (prettyMembers level rest members))
      simp only [prettyMembers, List.length_cons, List.length_append] at *
      omega

end

mutual

/-- What is written in front of a text does not depend on the text. -/
theorem pretty_append : (value : Value) → (level : Nat) → (rest behind : List Char) →
    value.pretty level (rest ++ behind) = value.pretty level rest ++ behind
  | .null, _, _, _ | .bool true, _, _, _ | .bool false, _, _, _ | .array [], _, _, _
  | .object [], _, _, _ => by simp only [pretty, List.cons_append]
  | .number n, level, rest, behind | .string s, level, rest, behind => by
      simp only [pretty, List.append_assoc]
  | .array (item :: items), level, rest, behind => by
      rw [pretty, ← List.cons_append, newline_append, prettyItems_append, pretty_append,
        newline_append, pretty, List.cons_append]
  | .object ((key, value) :: members), level, rest, behind => by
      have hclose := newline_append level ('\x7d' :: rest) behind
      rw [pretty, ← List.cons_append, hclose, prettyMembers_append, pretty_append,
        ← List.cons_append, ← List.cons_append, ← List.append_assoc, newline_append, pretty,
        List.cons_append]

/-- Items that are written in front of a text do not depend on it. -/
theorem prettyItems_append : (items : List Value) → (level : Nat) → (rest behind : List Char) →
    prettyItems level (rest ++ behind) items = prettyItems level rest items ++ behind
  | [], _, _, _ => rfl
  | item :: items, level, rest, behind => by
      rw [prettyItems, prettyItems_append, pretty_append, newline_append, prettyItems,
        List.cons_append]

/-- Members that are written in front of a text do not depend on it. -/
theorem prettyMembers_append : (members : List (String × Value)) → (level : Nat) →
    (rest behind : List Char) →
    prettyMembers level (rest ++ behind) members = prettyMembers level rest members ++ behind
  | [], _, _, _ => rfl
  | (key, value) :: members, level, rest, behind => by
      rw [prettyMembers, prettyMembers_append, pretty_append, ← List.cons_append,
        ← List.cons_append, ← List.append_assoc, newline_append, prettyMembers, List.cons_append]

end

/-- A numeral can end with a line. -/
theorem endsNumeral_newline (level : Nat) (rest : List Char) :
    EndsNumeral (newline level rest) := by
  intro c hc
  obtain rfl : c = '\n' := by simpa [newline] using hc.symm
  decide

/-- A numeral can end before further items. -/
theorem endsNumeral_prettyItems
    {rest : List Char} (h : EndsNumeral rest) (level : Nat) (items : List Value) :
    EndsNumeral (prettyItems level rest items) := by
  cases items with
  | nil => exact h
  | cons item items =>
      intro c hc
      obtain rfl : c = ',' := by simpa [prettyItems] using hc.symm
      decide

/-- A numeral can end before further members. -/
theorem endsNumeral_prettyMembers
    {rest : List Char} (h : EndsNumeral rest) (level : Nat) (members : List (String × Value)) :
    EndsNumeral (prettyMembers level rest members) := by
  cases members with
  | nil => exact h
  | cons member members =>
      intro c hc
      obtain rfl : c = ',' := by simpa [prettyMembers] using hc.symm
      decide

end Value

/-! ## Gaps -/

/-- No gap starts with a character that cannot be in one. -/
theorem skipGap_cons {c : Char} (h : isGap c = false) (rest : List Char) :
    skipGap (c :: rest) = c :: rest := by
  rw [skipGap, List.dropWhile_cons, h]
  rfl

/-- A new line is a gap. -/
theorem skipGap_newline (level : Nat) (rest : List Char) :
    skipGap (Value.newline level rest) = skipGap rest := by
  have hblanks : ∀ n, skipGap (List.replicate n ' ' ++ rest) = skipGap rest := by
    intro n
    induction n with
    | zero => rfl
    | succ n ih => exact ih
  exact hblanks (2 * level)

/-- Behind a gap there is none. -/
theorem skipGap_skipGap (text : List Char) : skipGap (skipGap text) = skipGap text := by
  induction text with
  | nil => rfl
  | cons c text ih =>
      cases h : isGap c with
      | true =>
          have hskip : skipGap (c :: text) = skipGap text := by
            rw [skipGap, List.dropWhile_cons, h]
            rfl
          rw [hskip, ih]
      | false => rw [skipGap_cons h, skipGap_cons h]

/-! ## Walks -/

section Walks

variable {σ : Type}

/-- A reader of items reads the written form of a value, in front of anything that ends a numeral,
and takes the value in. -/
def TakesItem (item : σ → List Char → Outcome σ) (take : σ → Value → σ) (value : Value) : Prop :=
  ∀ state level rest, EndsNumeral rest →
    ∃ c more, skipGap (value.pretty level rest) = c :: more ∧ c ≠ ']' ∧
      item state (c :: more) = .ok (take state value, rest)

/-- A reader of members reads what is written behind a key, in front of anything that ends a
numeral, and takes the member in. -/
def TakesMember (member : σ → String → List Char → Outcome σ) (take : σ → String → Value → σ)
    (key : String) (value : Value) : Prop :=
  ∀ state level rest, EndsNumeral rest →
    member state key (':' :: ' ' :: value.pretty level rest) = .ok (take state key value, rest)

/-- Behind an item, a walk takes in the further ones up to the closing bracket. -/
theorem walkItems_prettyItems
    {item : σ → List Char → Outcome σ} {take : σ → Value → σ} {items : List Value}
    (hitem : ∀ value ∈ items, TakesItem item take value) {fuel : Nat}
    (hfuel : items.length < fuel) (state : σ) (level inner : Nat) (rest : List Char) :
    walkItems item fuel state
        (Value.prettyItems inner (Value.newline level (']' :: rest)) items) =
      .ok (items.foldl take state, rest) := by
  induction items generalizing fuel state with
  | nil =>
      obtain ⟨fuel, rfl⟩ := Nat.exists_eq_succ_of_ne_zero (Nat.ne_of_gt hfuel)
      rw [Value.prettyItems, walkItems, skipGap_newline, skipGap_cons (by decide)]
      rfl
  | cons value items ih =>
      obtain ⟨fuel, rfl⟩ := Nat.exists_eq_succ_of_ne_zero (Nat.ne_zero_of_lt hfuel)
      have hends := Value.endsNumeral_prettyItems
        (Value.endsNumeral_newline level (']' :: rest)) inner items
      obtain ⟨c, more, hskip, hc, hread⟩ :=
        hitem value List.mem_cons_self state inner _ hends
      rw [Value.prettyItems, walkItems, skipGap_cons (by decide)]
      simp only [skipGap_newline, hskip, if_neg hc, hread]
      exact ih (fun v hv => hitem v (List.mem_cons_of_mem _ hv)) (by simpa using hfuel)
        (take state value)

/-- A walk takes in the items of a written array. -/
theorem walkList_pretty
    {item : σ → List Char → Outcome σ} {take : σ → Value → σ} {value : Value} {items : List Value}
    (hitem : ∀ v ∈ value :: items, TakesItem item take v) (state : σ) (level inner : Nat)
    (rest : List Char) :
    walkList item state (Value.newline inner
        (value.pretty inner (Value.prettyItems inner (Value.newline level (']' :: rest)) items))) =
      .ok ((value :: items).foldl take state, rest) := by
  have hends := Value.endsNumeral_prettyItems
    (Value.endsNumeral_newline level (']' :: rest)) inner items
  obtain ⟨c, more, hskip, hc, hread⟩ := hitem value List.mem_cons_self state inner _ hends
  have hlength := Value.le_length_prettyItems items inner (Value.newline level (']' :: rest))
  rw [walkList]
  simp only [skipGap_newline, hskip, if_neg hc, hread]
  exact walkItems_prettyItems (fun v hv => hitem v (List.mem_cons_of_mem _ hv)) (by omega)
    (take state value) level inner rest

/-- A written member starts with a quote, and what is behind the quote is read and taken in. -/
theorem skipGap_member
    {member : σ → String → List Char → Outcome σ} {take : σ → String → Value → σ} {key : String}
    {value : Value} (hmember : TakesMember member take key value) (state : σ) (level : Nat)
    {rest : List Char} (hends : EndsNumeral rest) :
    ∃ body, skipGap (Value.newline level
          (Text.encode key.toList ++ ':' :: ' ' :: value.pretty level rest)) = '"' :: body ∧
      readMember member state body = .ok (take state key value, rest) := by
  obtain ⟨body, hbody, hread⟩ := Text.read_encode key (':' :: ' ' :: value.pretty level rest)
  refine ⟨body, ?_, ?_⟩
  · rw [skipGap_newline, hbody, skipGap_cons (by decide)]
  · rw [readMember, hread]
    exact hmember state level rest hends

/-- Behind a member, a walk takes in the further ones up to the closing brace. -/
theorem walkMembers_prettyMembers
    {member : σ → String → List Char → Outcome σ} {take : σ → String → Value → σ}
    {members : List (String × Value)}
    (hmember : ∀ m ∈ members, TakesMember member take m.1 m.2) {fuel : Nat}
    (hfuel : members.length < fuel) (state : σ) (level inner : Nat) (rest : List Char) :
    walkMembers member fuel state
        (Value.prettyMembers inner (Value.newline level ('\x7d' :: rest)) members) =
      .ok (members.foldl (fun state m => take state m.1 m.2) state, rest) := by
  induction members generalizing fuel state with
  | nil =>
      obtain ⟨fuel, rfl⟩ := Nat.exists_eq_succ_of_ne_zero (Nat.ne_of_gt hfuel)
      rw [Value.prettyMembers, walkMembers, skipGap_newline, skipGap_cons (by decide)]
      rfl
  | cons m members ih =>
      obtain ⟨key, value⟩ := m
      obtain ⟨fuel, rfl⟩ := Nat.exists_eq_succ_of_ne_zero (Nat.ne_zero_of_lt hfuel)
      have hends := Value.endsNumeral_prettyMembers
        (Value.endsNumeral_newline level ('\x7d' :: rest)) inner members
      obtain ⟨body, hskip, hread⟩ :=
        skipGap_member (hmember (key, value) List.mem_cons_self) state inner hends
      rw [Value.prettyMembers, walkMembers, skipGap_cons (by decide)]
      simp only [hskip, hread]
      exact ih (fun m hm => hmember m (List.mem_cons_of_mem _ hm)) (by simpa using hfuel)
        (take state key value)

/-- A walk takes in the members of a written object.  The first of them may be read by a reader that
would not take it in again. -/
theorem walkObject_pretty
    {member : σ → String → List Char → Outcome σ} {take : σ → String → Value → σ} {key : String}
    {value : Value} {members : List (String × Value)} {state next : σ} {inner : Nat}
    (hfirst : ∀ tail, EndsNumeral tail →
      member state key (':' :: ' ' :: value.pretty inner tail) = .ok (next, tail))
    (hmember : ∀ m ∈ members, TakesMember member take m.1 m.2) (level : Nat) (rest : List Char) :
    walkObject member state (Value.newline inner (Text.encode key.toList ++ ':' :: ' ' ::
        value.pretty inner
          (Value.prettyMembers inner (Value.newline level ('\x7d' :: rest)) members))) =
      .ok (members.foldl (fun state m => take state m.1 m.2) next, rest) := by
  have hends := Value.endsNumeral_prettyMembers
    (Value.endsNumeral_newline level ('\x7d' :: rest)) inner members
  have hlength := Value.le_length_prettyMembers members inner (Value.newline level ('\x7d' :: rest))
  obtain ⟨body, hbody, hread⟩ := Text.read_encode key (':' :: ' ' :: value.pretty inner
    (Value.prettyMembers inner (Value.newline level ('\x7d' :: rest)) members))
  rw [walkObject, skipGap_newline, hbody, skipGap_cons (by decide)]
  simp only [readMember, hread, hfirst _ hends]
  exact walkMembers_prettyMembers hmember (by omega) next level inner rest

end Walks

/-! ## Values -/

/-- Reading a number, a string or a literal name. -/
theorem readValue_scalar {depth : Nat} {c : Char} {text : List Char} {outcome : Outcome Value}
    (hgap : isGap c = false) (h : readScalar? c text = some outcome) :
    readValue depth (c :: text) = outcome := by
  unfold readValue
  rw [skipGap_cons hgap]
  simp only [h]

/-- Reading an array. -/
theorem readValue_array (depth : Nat) (text : List Char) :
    readValue (depth + 1) ('[' :: text) =
      mapRead (fun items => .array items.reverse)
        (walkList (fun items text => mapRead (· :: items) (readValue depth text)) [] text) := by
  rw [readValue.eq_def, skipGap_cons (by decide)]
  rfl

/-- Reads the value of a member. -/
def readField (depth : Nat) (members : List (String × Value)) (key : String) (text : List Char) :
    Outcome (List (String × Value)) :=
  match readColon text with
  | .ok text => mapRead (fun value => (key, value) :: members) (readValue depth text)
  | .error stop => .error stop

/-- Reading an object. -/
theorem readValue_object (depth : Nat) (text : List Char) :
    readValue (depth + 1) ('\x7b' :: text) =
      mapRead (fun members => .object members.reverse) (walkObject (readField depth) [] text) := by
  rw [readValue.eq_def, skipGap_cons (by decide)]
  rfl

/-- What is read as a value starts, behind a gap, with a character other than a closing bracket. -/
theorem skipGap_of_readValue
    {depth : Nat} {text rest : List Char} {value : Value}
    (h : readValue depth text = .ok (value, rest)) :
    ∃ c more, skipGap text = c :: more ∧ c ≠ ']' ∧
      readValue depth (c :: more) = .ok (value, rest) := by
  have hskip : readValue depth (skipGap text) = readValue depth text := by
    unfold readValue
    rw [skipGap_skipGap]
  cases hgap : skipGap text with
  | nil =>
      unfold readValue at h
      rw [hgap] at h
      cases h
  | cons c more =>
      refine ⟨c, more, rfl, ?_, by rw [← hgap, hskip, h]⟩
      rintro rfl
      unfold readValue at h
      rw [hgap] at h
      cases h

/-- The colon behind a key is read. -/
theorem readColon_colon (text : List Char) : readColon (':' :: text) = .ok text := by
  rw [readColon, skipGap_cons (by decide)]
  rfl

/-- A gap before a value is left out. -/
theorem readValue_blank (depth : Nat) (text : List Char) :
    readValue depth (' ' :: text) = readValue depth text := by
  unfold readValue
  rfl

/-- What starts with a digit is a number. -/
theorem readValue_digit {c : Char} (h : c.isDigit = true) (depth : Nat) (text : List Char) :
    readValue depth (c :: text) = mapRead .number (Numeral.afterSign false (c :: text)) := by
  have hne : ∀ d : Char, d.isDigit = false → c ≠ d := by
    rintro d hd rfl
    rw [h] at hd
    cases hd
  have hgap : isGap c = false := by
    simp [isGap, hne ' ' rfl, hne '\n' rfl, hne '\t' rfl, hne '\r' rfl]
  refine readValue_scalar hgap ?_
  rw [readScalar?, if_neg (hne 'n' rfl), if_neg (hne 't' rfl), if_neg (hne 'f' rfl),
    if_neg (hne '-' rfl), if_pos h]

/-- A whole number is read back. -/
theorem readValue_whole (depth : Nat) (i : Whole) {rest : List Char} (h : EndsNumeral rest) :
    readValue depth ((Number.whole i).text.toList ++ rest) = .ok (.number (.whole i), rest) := by
  rw [Number.text]
  obtain ⟨n, htext, hread⟩ | ⟨n, htext, hread⟩ := Numeral.afterSign_wholeText i h
  · obtain ⟨c, digits, hdigits⟩ : ∃ c digits, Decimal.digitsOf n = c :: digits :=
      List.exists_cons_of_ne_nil Nat.toDigits_ne_nil
    have hdigit : c.isDigit = true := by
      refine Nat.isDigit_of_mem_toDigits (b := 10) (n := n) (by omega) (by omega) ?_
      change c ∈ Decimal.digitsOf n
      rw [hdigits]
      exact List.mem_cons_self
    rw [htext, hdigits, List.cons_append, readValue_digit hdigit, ← List.cons_append, ← hdigits,
      hread]
    rfl
  · rw [htext, List.cons_append]
    refine readValue_scalar (by decide) ?_
    change some (mapRead Value.number (Numeral.afterSign true (Decimal.digitsOf n ++ rest))) = _
    rw [hread]
    rfl

mutual

/-- A written value is read back up to what follows it, if it is not nested too deep. -/
theorem readValue_pretty : (value : Value) → (depth level : Nat) → (rest : List Char) →
    value.Exact → value.depth ≤ depth → EndsNumeral rest →
    readValue depth (value.pretty level rest) = .ok (value, rest)
  | .null, depth, level, rest, _, _, _
  | .bool true, depth, level, rest, _, _, _
  | .bool false, depth, level, rest, _, _, _ => by
      rw [Value.pretty]
      exact readValue_scalar (by decide) rfl
  | .number (.binary _), depth, level, rest, hexact, _, _ => by
      rw [Value.Exact] at hexact
      exact hexact.elim
  | .number (.whole i), depth, level, rest, _, _, hends => by
      rw [Value.pretty]
      exact readValue_whole depth i hends
  | .string s, depth, level, rest, _, _, _ => by
      obtain ⟨body, hbody, hread⟩ := Text.read_encode s rest
      rw [Value.pretty, hbody]
      refine readValue_scalar (by decide) ?_
      change some (mapRead Value.string (Text.read body)) = _
      rw [hread]
      rfl
  | .array [], depth + 1, level, rest, _, _, _ => by
      rw [Value.pretty, readValue_array, walkList, skipGap_cons (by decide)]
      rfl
  | .array (item :: items), depth + 1, level, rest, hexact, hdepth, _ => by
      rw [Value.Exact] at hexact
      rw [Value.depth] at hdepth
      have hitems := takesItem_of_exact (item :: items) depth hexact (by omega)
      rw [Value.pretty, readValue_array,
        walkList_pretty hitems [] level (level + 1) rest]
      simp [mapRead]
  | .object [], depth + 1, level, rest, _, _, _ => by
      rw [Value.pretty, readValue_object, walkObject, skipGap_cons (by decide)]
      rfl
  | .object ((key, value) :: members), depth + 1, level, rest, hexact, hdepth, _ => by
      rw [Value.Exact] at hexact
      rw [Value.depth] at hdepth
      have hmembers := takesMember_of_exact ((key, value) :: members) depth hexact (by omega)
      have hfirst := hmembers (key, value) List.mem_cons_self
      have hwalk := walkObject_pretty (fun tail hends => hfirst [] (level + 1) tail hends)
        (fun m hm => hmembers m (List.mem_cons_of_mem _ hm)) level rest
      rw [Value.pretty, readValue_object, hwalk]
      simp [mapRead]
  | .array items, 0, level, rest, _, hdepth, _
  | .object members, 0, level, rest, _, hdepth, _ => by
      rw [Value.depth] at hdepth
      omega

/-- The items of an array are read and put before those read already. -/
theorem takesItem_of_exact : (items : List Value) → (depth : Nat) → Value.ExactItems items →
    Value.depthItems items ≤ depth → ∀ item ∈ items,
    TakesItem (fun items text => mapRead (· :: items) (readValue depth text))
      (fun items item => item :: items) item
  | [], _, _, _, item, hitem => by cases hitem
  | first :: items, depth, hexact, hdepth, item, hitem => by
      rw [Value.ExactItems] at hexact
      rw [Value.depthItems] at hdepth
      rcases List.mem_cons.mp hitem with heq | hitem
      · rw [heq]
        intro state level rest hends
        have hread := readValue_pretty first depth level rest hexact.1 (by omega) hends
        obtain ⟨c, more, hskip, hc, hread⟩ := skipGap_of_readValue hread
        refine ⟨c, more, hskip, hc, ?_⟩
        simp only [hread, mapRead]
      · exact takesItem_of_exact items depth hexact.2 (by omega) item hitem

/-- The members of an object are read and put before those read already. -/
theorem takesMember_of_exact : (members : List (String × Value)) → (depth : Nat) →
    Value.ExactMembers members → Value.depthMembers members ≤ depth → ∀ m ∈ members,
    TakesMember (readField depth) (fun members key value => (key, value) :: members) m.1 m.2
  | [], _, _, _, m, hm => by cases hm
  | (key, value) :: members, depth, hexact, hdepth, m, hm => by
      rw [Value.ExactMembers] at hexact
      rw [Value.depthMembers] at hdepth
      rcases List.mem_cons.mp hm with heq | hm
      · rw [heq]
        intro state level rest hends
        have hread := readValue_pretty value depth level rest hexact.1 (by omega) hends
        rw [readField, readColon_colon]
        simp only [readValue_blank, hread, mapRead]
      · exact takesMember_of_exact members depth hexact.2 (by omega) m hm

end

end CellAlign.Json
