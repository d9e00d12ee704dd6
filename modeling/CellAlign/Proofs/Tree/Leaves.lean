import CellAlign.Proofs.Align.Realigning

/-!
# Leaves

The text of a list has its items with commas between them, and nothing in it shows where a list
inside begins or ends.  So the text of a value is that of its leaves from left to right; a list
without items has one leaf, which is as empty as null.  A word without commas is the text of a value
only if it has no other leaf, and then the value is that leaf, inside lists that have no other item.

* `Leaf`, `PropertyValue.leaves`: the leaves of a value;
* `PropertyValue.text_eq_join_leaves`: the text of a value, from its leaves;
* `PropertyValue.Wraps`: a string inside lists of one item;
* `PropertyValue.text_joins_leaves`: the values whose text is an alignment that has a token.
-/

namespace CellAlign

namespace Text

variable {sep : String}

/-- Texts that are joined in two parts are joined by the separator between the parts. -/
theorem join_append {before behind : List String} (hbefore : before ≠ []) (hbehind : behind ≠ []) :
    join sep (before ++ behind) = join sep before ++ sep ++ join sep behind := by
  induction before with
  | nil => exact absurd rfl hbefore
  | cons text before ih =>
      cases before with
      | nil =>
          obtain ⟨next, more, rfl⟩ := List.exists_cons_of_ne_nil hbehind
          rfl
      | cons next before =>
          have hrest := ih (List.cons_ne_nil next before)
          rw [List.cons_append, List.cons_append, join, ← List.cons_append, hrest, join]
          simp only [String.append_assoc]

/-- What two or more texts are joined to has the separator in it. -/
theorem eq_singleton_of_join_eq {c : Char} {texts : List String} {joined : String}
    (h : join (String.singleton c) texts = joined) (hne : texts ≠ []) (hc : c ∉ joined.toList) :
    texts = [joined] := by
  match texts with
  | [] => exact absurd rfl hne
  | [text] => exact congrArg ([·]) h
  | text :: next :: more =>
      refine absurd ?_ hc
      rw [← h, join]
      simp

end Text

/-! ## Leaves -/

/-- What stands in a value where it goes no deeper: nothing, a boolean, a number or a string. -/
inductive Leaf where
  | empty
  | bool (value : Bool)
  | number (value : Json.Number)
  | string (value : String)

/-- The text of a leaf. -/
def Leaf.text : Leaf → String
  | empty => ""
  | bool true => "true"
  | bool false => "false"
  | number value => PropertyValue.numberText value
  | string value => value

namespace PropertyValue

mutual

/-- The leaves of a value from left to right.  Null is one empty leaf, and so is a list without
items. -/
def leaves : PropertyValue → List Leaf
  | .null => [.empty]
  | .bool value => [.bool value]
  | .number value => [.number value]
  | .string value => [.string value]
  | .list [] => [.empty]
  | .list (item :: items) => item.leaves ++ leavesOfItems items

/-- The leaves of the items of a list from left to right. -/
def leavesOfItems : List PropertyValue → List Leaf
  | [] => []
  | item :: items => item.leaves ++ leavesOfItems items

end

/-- There is a leaf in every value. -/
theorem leaves_ne_nil : (value : PropertyValue) → value.leaves ≠ []
  | .null | .bool _ | .number _ | .string _ | .list [] => by simp [leaves]
  | .list (item :: items) => by simp [leaves, leaves_ne_nil item]

/-- There are no leaves only where there are no items. -/
theorem leavesOfItems_eq_nil_iff {items : List PropertyValue} :
    leavesOfItems items = [] ↔ items = [] := by
  cases items with
  | nil => simp [leavesOfItems]
  | cons item items => simp [leavesOfItems, leaves_ne_nil item]

mutual

/-- The text of a value joins those of its leaves. -/
theorem text_eq_join_leaves : (value : PropertyValue) →
    value.text = Text.join "," (value.leaves.map Leaf.text)
  | .null | .bool true | .bool false | .number _ | .string _ | .list [] => rfl
  | .list (item :: items) => by
      rw [text, leaves, ← leavesOfItems, join_texts]

/-- The texts of items, joined, are those of their leaves, joined. -/
theorem join_texts : (items : List PropertyValue) →
    Text.join "," (texts items) = Text.join "," ((leavesOfItems items).map Leaf.text)
  | [] => rfl
  | [item] => by
      rw [texts, texts, Text.join, leavesOfItems, leavesOfItems, List.append_nil,
        text_eq_join_leaves item]
  | item :: next :: items => by
      have hitem : item.leaves.map Leaf.text ≠ [] := by simp [leaves_ne_nil item]
      have hitems : (leavesOfItems (next :: items)).map Leaf.text ≠ [] := by
        simp [leavesOfItems_eq_nil_iff]
      rw [leavesOfItems, List.map_append, Text.join_append hitem hitems, ← join_texts,
        ← text_eq_join_leaves item]
      rfl

end

/-! ## Strings inside lists of one item -/

/-- A string, or a list of one item that is or holds such a string. -/
inductive Wraps (name : String) : PropertyValue → Prop
  | string : Wraps name (.string name)
  | list {item : PropertyValue} (h : Wraps name item) : Wraps name (.list [item])

/-- A string has no other leaves beside it just inside lists of one item. -/
theorem wraps_iff_leaves_eq {name : String} : (value : PropertyValue) →
    (Wraps name value ↔ value.leaves = [.string name])
  | .null | .bool _ | .number _ | .list [] => by
      constructor
      · intro h
        cases h
      · intro h
        simp [leaves] at h
  | .string other => by
      constructor
      · intro h
        cases h
        rfl
      · intro h
        obtain rfl : other = name := by simpa [leaves] using h
        exact .string
  | .list [item] => by
      have hitem : (PropertyValue.list [item]).leaves = item.leaves := by
        rw [leaves, leavesOfItems, List.append_nil]
      rw [hitem, ← wraps_iff_leaves_eq item]
      constructor
      · intro h
        cases h with
        | list h => exact h
      · exact .list
  | .list (item :: next :: items) => by
      constructor
      · intro h
        cases h
      · intro h
        -- Each of the two items has a leaf of its own.
        have hitem := List.length_pos_iff.mpr (leaves_ne_nil item)
        have hnext := List.length_pos_iff.mpr (leaves_ne_nil next)
        have hlength := congrArg List.length h
        simp only [leaves, leavesOfItems, List.length_append, List.length_singleton] at hlength
        omega

/-! ## Texts without letters -/

/-- A digit is no letter. -/
theorem isAlpha_of_isDigit {c : Char} (h : c.isDigit = true) : c.isAlpha = false := by
  have hdigit : c.val ≤ '9'.val := of_decide_eq_true ((Bool.and_eq_true _ _).mp h).2
  have hupper : c.isUpper = false := decide_eq_false (by grind)
  have hlower : c.isLower = false :=
    Bool.and_eq_false_iff.mpr (Or.inl (decide_eq_false (by grind)))
  exact Bool.or_eq_false_iff.mpr ⟨hupper, hlower⟩

/-- No letter stands among the digits of a number. -/
theorem isAlpha_of_mem_digitsOf {c : Char} {n : Nat} (h : c ∈ Decimal.digitsOf n) :
    c.isAlpha = false :=
  isAlpha_of_isDigit (Nat.isDigit_of_mem_toDigits (by decide) (by decide) h)

/-- No letter comes in with positional notation. -/
theorem isAlpha_of_mem_plain {c : Char} {layout : Decimal.Layout} {digits : List Char}
    {exponent : Int} (hdigits : ∀ c ∈ digits, c.isAlpha = false)
    (h : c ∈ layout.plain digits exponent) : c.isAlpha = false := by
  have hzeros {n : Nat} (hc : c ∈ List.replicate n '0') : c.isAlpha = false := by
    rw [List.eq_of_mem_replicate hc]
    rfl
  unfold Decimal.Layout.plain at h
  split at h
  · simp only [List.mem_append] at h
    rcases h with (h | h) | h
    · exact hdigits c h
    · exact hzeros h
    · split at h
      · rcases List.mem_pair.mp h with rfl | rfl <;> rfl
      · cases h
  · dsimp only at h
    split at h
    · rcases List.mem_append.mp h with h | h
      · exact hdigits c (List.mem_of_mem_take h)
      · rcases List.mem_cons.mp h with rfl | h
        · rfl
        · exact hdigits c (List.mem_of_mem_drop h)
    · simp only [List.cons_append, List.mem_cons, List.mem_append] at h
      rcases h with rfl | rfl | h | h
      · rfl
      · rfl
      · exact hzeros h
      · exact hdigits c h

/-- No letter stands in the text of a number. -/
theorem isAlpha_of_mem_numberText {c : Char} {n : Json.Number} (h : c ∈ (numberText n).toList) :
    c.isAlpha = false := by
  have hsign {negative : Bool} (hc : c ∈ if negative then ['-'] else []) : c.isAlpha = false := by
    cases negative with
    | true =>
        rw [List.mem_singleton.mp hc]
        rfl
    | false => cases hc
  cases n with
  | whole i =>
      rw [numberText] at h
      cases hi : i.val with
      | ofNat n =>
          rw [hi, Decimal.wholeText, String.toList_ofList] at h
          exact isAlpha_of_mem_digitsOf h
      | negSucc n =>
          rw [hi, Decimal.wholeText, String.toList_ofList] at h
          rcases List.mem_cons.mp h with rfl | h
          · rfl
          · exact isAlpha_of_mem_digitsOf h
  | binary x =>
      rw [numberText, Decimal.Layout.render] at h
      split at h
      · rw [String.toList_ofList] at h
        rcases List.mem_append.mp h with h | h
        · exact hsign h
        · exact isAlpha_of_mem_plain (by simp) h
      · simp only [layout, if_true, String.toList_ofList] at h
        rcases List.mem_append.mp h with h | h
        · exact hsign h
        · exact isAlpha_of_mem_plain (fun _ hc => isAlpha_of_mem_digitsOf hc) h

end PropertyValue

/-- The alignments that have a token are words. -/
theorem exists_isAlpha_of_mem {alignment : String} (h : alignment ∈ ["left", "center", "right"]) :
    ',' ∉ alignment.toList ∧ ∃ c ∈ alignment.toList, c.isAlpha = true := by
  simp only [List.mem_cons, List.not_mem_nil, or_false] at h
  rcases h with rfl | rfl | rfl
  · exact ⟨by decide, 'l', by decide, rfl⟩
  · exact ⟨by decide, 'c', by decide, rfl⟩
  · exact ⟨by decide, 'r', by decide, rfl⟩

/-- No leaf but a string has an alignment with a token as its text. -/
theorem Leaf.text_eq_iff {leaf : Leaf} {alignment : String}
    (h : alignment ∈ ["left", "center", "right"]) :
    leaf.text = alignment ↔ leaf = .string alignment := by
  constructor
  · rintro rfl
    cases leaf with
    | string value => rfl
    | empty => exact absurd h (by decide)
    | bool value => cases value <;> exact absurd h (by decide)
    | number value =>
        obtain ⟨-, c, hc, hletter⟩ := exists_isAlpha_of_mem h
        rw [PropertyValue.isAlpha_of_mem_numberText hc] at hletter
        cases hletter
  · rintro rfl
    rfl

namespace PropertyValue

/-- The values whose text is an alignment with a token are the strings and what wraps them. -/
theorem text_eq_iff_wraps {value : PropertyValue} {alignment : String}
    (h : alignment ∈ ["left", "center", "right"]) :
    value.text = alignment ↔ Wraps alignment value := by
  have hne : value.leaves.map Leaf.text ≠ [] := by simp [leaves_ne_nil value]
  rw [text_eq_join_leaves, wraps_iff_leaves_eq]
  constructor
  · intro htext
    obtain ⟨hcomma, -⟩ := exists_isAlpha_of_mem h
    have hleaf := Text.eq_singleton_of_join_eq (c := ',') htext hne hcomma
    obtain ⟨leaf, hleaves, hname⟩ := List.map_eq_singleton_iff.mp hleaf
    rw [hleaves, (Leaf.text_eq_iff h).mp hname]
  · intro hleaves
    rw [hleaves]
    rfl

/-- The text of a value joins those of its leaves by commas.  So a token is found for it just if it
is a string that is an alignment with a token, or wraps such a string in lists of one item, and then
it is the token of that alignment. -/
theorem text_joins_leaves (names : ClassNames) (value : PropertyValue) :
    value.text = Text.join "," (value.leaves.map Leaf.text) ∧
      ((names.get? value.text).isSome ↔
        ∃ alignment ∈ ["left", "center", "right"], Wraps alignment value) ∧
      ∀ token, names.get? value.text = some token ↔
        ∃ alignment, Wraps alignment value ∧ (alignment, token) ∈ names.pairs := by
  have hnamed {alignment token : String} (h : (alignment, token) ∈ names.pairs) :
      alignment ∈ ["left", "center", "right"] := by
    have hmem : alignment ∈ names.pairs.map Prod.fst := List.mem_map_of_mem h
    exact hmem
  refine ⟨text_eq_join_leaves value, ?_, fun token => ?_⟩
  · rw [← Option.ne_none_iff_isSome, ne_eq, ClassNames.get?_eq_none_iff, not_not]
    constructor
    · intro h
      exact ⟨value.text, h, (text_eq_iff_wraps h).mp rfl⟩
    · rintro ⟨alignment, h, hwraps⟩
      rw [(text_eq_iff_wraps h).mpr hwraps]
      exact h
  · rw [ClassNames.get?_eq_some_iff]
    constructor
    · intro h
      exact ⟨value.text, (text_eq_iff_wraps (hnamed h)).mp rfl, h⟩
    · rintro ⟨alignment, hwraps, h⟩
      rw [(text_eq_iff_wraps (hnamed h)).mpr hwraps]
      exact h

/-- A list without items beside an alignment keeps its comma, and then there is no token. -/
example : (PropertyValue.list [.list [.string "left"], .list []]).text = "left," := rfl

end PropertyValue

end CellAlign
