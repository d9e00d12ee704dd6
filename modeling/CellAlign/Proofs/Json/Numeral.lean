import CellAlign.Json.Numeral

/-!
# Whole numbers, written and read

* `afterSign_digitsOf`: digits that fit a word are read up to what follows them;
* `afterSign_wholeText`: a whole number is read back from its text, whatever follows that could not
  belong to it.
-/

namespace CellAlign.Json.Numeral

/-- A text that cannot go on with a numeral before it. -/
def EndsNumeral (text : List Char) : Prop :=
  ∀ c ∈ text.head?, c.isDigit = false ∧ c ≠ '.' ∧ c ≠ 'e' ∧ c ≠ 'E'

/-- The value of a decimal digit. -/
theorem digit?_digitChar {d : Nat} (h : d < 10) : digit? d.digitChar = some d := by
  have hdigit : d.digitChar.isDigit = true := by
    simpa [Nat.isDigit_digitChar] using h
  have hvalue : d.digitChar.toNat - '0'.toNat = d := Nat.toNat_digitChar_sub_48_of_lt_ten h
  rw [digit?, if_pos hdigit, hvalue]

/-- A character that is no digit has no value. -/
theorem digit?_eq_none {c : Char} (h : c.isDigit = false) : digit? c = none := by
  simp [digit?, h]

/-- The digits of a number with more than one are those of its tenth and a last one. -/
theorem digitsOf_of_ten_le {n : Nat} (h : 10 ≤ n) (rest : List Char) :
    Decimal.digitsOf n ++ rest =
      Decimal.digitsOf (n / 10) ++ (n % 10).digitChar :: rest := by
  rw [Decimal.digitsOf, Decimal.digitsOf, Nat.toDigits_of_base_le (by omega) h]
  simp

/-- The digits of a number other than zero are read up to what follows them. -/
theorem afterSign_digits (negative : Bool) (n : Nat) (hpos : 0 < n) (hlimit : n ≤ wordLimit)
    (rest : List Char) :
    afterSign negative (Decimal.digitsOf n ++ rest) = wholeDigits negative n rest := by
  induction n using Nat.strongRecOn generalizing rest with
  | ind n ih =>
      by_cases hsmall : n < 10
      · obtain ⟨k, rfl⟩ := Nat.exists_eq_succ_of_ne_zero (Nat.ne_of_gt hpos)
        rw [Decimal.digitsOf, Nat.toDigits_of_lt_base hsmall, List.singleton_append]
        unfold afterSign
        simp only [digit?_digitChar hsmall]
      · have hlast : n % 10 < 10 := Nat.mod_lt n (by omega)
        have hsum : 10 * (n / 10) + n % 10 = n := Nat.div_add_mod n 10
        rw [digitsOf_of_ten_le (by omega), ih (n / 10) (by omega) (by omega) (by omega),
          wholeDigits, digit?_digitChar hlast]
        simp only [hsum]
        rw [if_neg (by omega)]

/-- What ends a numeral is left. -/
theorem afterWhole_of_ends (negative : Bool) (n : Nat) {rest : List Char}
    (h : EndsNumeral rest) : afterWhole negative n rest = whole negative n rest := by
  unfold afterWhole
  split
  · exact absurd rfl (h '.' rfl).2.1
  · exact absurd rfl (h 'e' rfl).2.2.1
  · exact absurd rfl (h 'E' rfl).2.2.2
  · rfl

/-- Digits that fit a word are read up to what follows them. -/
theorem afterSign_digitsOf (negative : Bool) (n : Nat) (hlimit : n ≤ wordLimit)
    {rest : List Char} (h : EndsNumeral rest) :
    afterSign negative (Decimal.digitsOf n ++ rest) = whole negative n rest := by
  rcases Nat.eq_zero_or_pos n with rfl | hpos
  · -- No digit may follow a zero.
    change afterSign negative ('0' :: rest) = whole negative 0 rest
    cases rest with
    | nil => rfl
    | cons c rest =>
        have hzero : digit? '0' = some 0 := rfl
        unfold afterSign
        simp only [hzero, (h c rfl).1]
        exact afterWhole_of_ends negative 0 h
  · rw [afterSign_digits negative n hpos hlimit]
    cases rest with
    | nil => rfl
    | cons c rest =>
        rw [wholeDigits, digit?_eq_none (h c rfl).1]
        exact afterWhole_of_ends negative n h

/-- A whole number that fits is its own. -/
theorem ofInt?_val (i : Whole) : Whole.ofInt? i.val = some i := by
  rw [Whole.ofInt?, dif_pos i.property]
  rfl

/-- The number that digits and a sign stand for, unless that is a zero with a sign. -/
theorem whole_of_val {negative : Bool} {n : Nat} (i : Whole)
    (hval : (if negative then -(n : Int) else n) = i.val) (hzero : ¬(negative ∧ n = 0))
    (rest : List Char) : whole negative n rest = .ok (.whole i, rest) := by
  rw [whole, if_neg hzero, hval, ofInt?_val]

/-- A whole number is read back from its sign and digits. -/
theorem afterSign_wholeText (i : Whole) {rest : List Char} (h : EndsNumeral rest) :
    (∃ n, (Decimal.wholeText i.val).toList = Decimal.digitsOf n ∧
        afterSign false (Decimal.digitsOf n ++ rest) = .ok (.whole i, rest)) ∨
      ∃ n, (Decimal.wholeText i.val).toList = '-' :: Decimal.digitsOf n ∧
        afterSign true (Decimal.digitsOf n ++ rest) = .ok (.whole i, rest) := by
  obtain ⟨hlow, hhigh⟩ := i.property
  cases hval : i.val with
  | ofNat n =>
      have hn : (n : Int) = i.val := hval.symm
      have hlimit : n ≤ wordLimit := by
        rw [wordLimit]
        omega
      refine Or.inl ⟨n, by rw [Decimal.wholeText, String.toList_ofList], ?_⟩
      rw [afterSign_digitsOf false n hlimit h]
      exact whole_of_val i (by simpa using hn) (by simp) rest
  | negSucc n =>
      have hn : -((n + 1 : Nat) : Int) = i.val := hval.symm
      have hlimit : n + 1 ≤ wordLimit := by
        rw [wordLimit]
        omega
      refine Or.inr ⟨n + 1, by rw [Decimal.wholeText, String.toList_ofList], ?_⟩
      rw [afterSign_digitsOf true (n + 1) hlimit h]
      exact whole_of_val i (by simpa using hn) (by simp) rest

end CellAlign.Json.Numeral
