import CellAlign.Json.Text

/-!
# Strings, written and read

* `readBody_encodeChar`: a written character is read back, whatever it is;
* `read_encode`: a written string is read back up to what follows it.
-/

namespace CellAlign.Json.Text

/-- The number of a control character is read back from its escape. -/
theorem hex?_control {n : Nat} (h : n < 0x20) :
    hex? '0' '0' (n / 16).digitChar (n % 16).digitChar = some n := by
  have hall : ∀ n < 0x20, hex? '0' '0' (n / 16).digitChar (n % 16).digitChar = some n := by decide
  exact hall n h

/-- A letter escape is read as its character. -/
theorem readBody_letterEscape {e c : Char} (he : e ≠ 'u') (hc : letterEscape? e = some c)
    (rest : List Char) : readBody ('\\' :: e :: rest) = mapRead (c :: ·) (readBody rest) := by
  rw [readBody.eq_def]
  simp [he, hc]

/-- A written character is read back. -/
theorem readBody_encodeChar (c : Char) (rest : List Char) :
    readBody (encodeChar c ++ rest) = mapRead (c :: ·) (readBody rest) := by
  unfold encodeChar
  -- The quote, the backslash and five control characters have letters.
  iterate 7
    split
    case isTrue h =>
      subst h
      exact readBody_letterEscape (by decide) rfl rest
  split
  case isTrue hcontrol =>
    have hback : Char.ofNat c.toNat = c := Char.ofNat_toNat c
    have hlow : ¬(0xDC00 ≤ c.toNat ∧ c.toNat ≤ 0xDFFF) := by omega
    have hplane : c.toNat < 0xD800 ∨ 0xDBFF < c.toNat := by omega
    simp only [List.cons_append, List.nil_append]
    rw [readBody.eq_def]
    simp [hex?_control hcontrol, if_neg hlow, if_pos hplane, hback]
  case isFalse hquote hslash _ _ _ _ _ hplain =>
    rw [List.singleton_append, readBody.eq_def]
    simp [hquote, hslash, hplain]

/-- A written string is read back up to what follows it. -/
theorem readBody_encode (text rest : List Char) :
    readBody (text.flatMap encodeChar ++ '"' :: rest) = .ok (text, rest) := by
  induction text with
  | nil =>
      rw [List.flatMap_nil, List.nil_append, readBody.eq_def]
      rfl
  | cons c text ih =>
      rw [List.flatMap_cons, List.append_assoc, readBody_encodeChar, ih]
      rfl

/-- A written string is its quote and what is read back behind that. -/
theorem read_encode (text : String) (rest : List Char) :
    ∃ body, encode text.toList ++ rest = '"' :: body ∧ read body = .ok (text, rest) := by
  refine ⟨text.toList.flatMap encodeChar ++ '"' :: rest, by simp [encode], ?_⟩
  rw [read, readBody_encode, mapRead, String.ofList_toList]

end CellAlign.Json.Text
