import CellAlign.Proofs.Json.Syntax

/-!
# What strings stand for

The characters of a string can be written in several ways.  A string is read up to its closing
quote, and comes to the characters that what stands before it is for; and nothing else is read as a
string.

* `Text.Stands`, `Text.Writes`: the ways to write a character, and a row of them;
* `Text.takesOne_of_readBody`: the character that is read first;
* `Text.read_eq_ok_iff`: what is read as a string.
-/

namespace CellAlign.Json.Text

/-- How a character of a string can be written: by itself, by a letter, by its number, or by the two
halves of a surrogate pair. -/
inductive Stands : List Char → Char → Prop
  | plain {c : Char} (hquote : c ≠ '"') (hslash : c ≠ '\\') (hplain : 0x20 ≤ c.toNat) : Stands [c] c
  | letter {e c : Char} (he : letterEscape? e = some c) : Stands ['\\', e] c
  | hex {h₁ h₂ h₃ h₄ : Char} {n : Nat} (h : hex? h₁ h₂ h₃ h₄ = some n)
      (hplane : n < 0xD800 ∨ 0xDFFF < n) :
      Stands ['\\', 'u', h₁, h₂, h₃, h₄] (Char.ofNat n)
  | pair {h₁ h₂ h₃ h₄ l₁ l₂ l₃ l₄ : Char} {n m : Nat} (hn : hex? h₁ h₂ h₃ h₄ = some n)
      (hhigh : 0xD800 ≤ n ∧ n ≤ 0xDBFF) (hm : hex? l₁ l₂ l₃ l₄ = some m)
      (hlow : 0xDC00 ≤ m ∧ m ≤ 0xDFFF) :
      Stands ['\\', 'u', h₁, h₂, h₃, h₄, '\\', 'u', l₁, l₂, l₃, l₄]
        (Char.ofNat (0x10000 + (n - 0xD800) * 0x400 + (m - 0xDC00)))

/-- What stands between quotes, and the characters it stands for. -/
inductive Writes : List Char → List Char → Prop
  | nil : Writes [] []
  | cons {piece body characters : List Char} {c : Char} (hpiece : Stands piece c)
      (h : Writes body characters) : Writes (piece ++ body) (c :: characters)

/-- Something stands for each character. -/
theorem Stands.length_pos {piece : List Char} {c : Char} (h : Stands piece c) :
    0 < piece.length := by
  cases h <;> exact Nat.succ_pos _

/-- A written character is read. -/
theorem Stands.readBody_eq {piece : List Char} {c : Char} (h : Stands piece c) (rest : List Char) :
    readBody (piece ++ rest) = mapRead (c :: ·) (readBody rest) := by
  cases h with
  | plain hquote hslash hplain => exact readBody_plain hquote hslash hplain rest
  | letter he =>
      refine readBody_letterEscape ?_ he rest
      rintro rfl
      cases he
  | hex h hplane => exact readBody_hex h (by omega) (by omega) rest
  | pair hn hhigh hm hlow =>
      have hread := readBody_high_hex hn hhigh hm rest
      rwa [if_neg (by omega)] at hread

/-- An escape without four hexadecimal digits is reported. -/
theorem badHex_ne_ok {α : Type} (text : List Char) (result : α) : badHex text ≠ .ok result := by
  unfold badHex
  split <;> nofun

/-- Reading takes one character from the start of a text, and the others from behind it. -/
def TakesOne (text characters rest : List Char) : Prop :=
  ∃ piece c more others, text = piece ++ more ∧ Stands piece c ∧
    readBody more = .ok (others, rest) ∧ characters = c :: others

section

variable {text characters rest : List Char}

/-- A character is taken from what stands for it. -/
theorem Stands.takesOne {piece more : List Char} {c : Char} (hpiece : Stands piece c)
    (h : mapRead (c :: ·) (readBody more) = .ok (characters, rest)) :
    TakesOne (piece ++ more) characters rest := by
  obtain ⟨others, hread, rfl⟩ := mapRead_eq_ok_iff.mp h
  exact ⟨piece, c, more, others, rfl, hpiece, hread, rfl⟩

/-- Behind the first half of a surrogate pair stands its other half. -/
theorem takesOne_of_high {h₁ h₂ h₃ h₄ : Char} {n : Nat} (hn : hex? h₁ h₂ h₃ h₄ = some n)
    (hhigh : 0xD800 ≤ n ∧ n ≤ 0xDBFF)
    (h : readBody ('\\' :: 'u' :: h₁ :: h₂ :: h₃ :: h₄ :: text) = .ok (characters, rest)) :
    TakesOne ('\\' :: 'u' :: h₁ :: h₂ :: h₃ :: h₄ :: text) characters rest := by
  have hlow : ¬(0xDC00 ≤ n ∧ n ≤ 0xDFFF) := by omega
  have hplane : ¬(n < 0xD800 ∨ 0xDBFF < n) := by omega
  rw [readBody.eq_def] at h
  simp only [hn, hlow, hplane, Char.reduceEq, if_true, if_false] at h
  split at h
  · cases h
  split at h
  · cases h
  next hslash =>
  obtain rfl := Decidable.not_not.mp hslash
  split at h
  · cases h
  split at h
  · cases h
  next hletter =>
  obtain rfl := Decidable.not_not.mp hletter
  split at h
  · split at h
    · exact absurd h (badHex_ne_ok _ _)
    next m hm =>
    split at h
    · cases h
    next hpair => exact Stands.takesOne (.pair hn hhigh hm (by omega)) h
  · exact absurd h (badHex_ne_ok _ _)

/-- Behind a backslash an escape is taken. -/
theorem takesOne_of_escape (h : readBody ('\\' :: text) = .ok (characters, rest)) :
    TakesOne ('\\' :: text) characters rest := by
  have hread := h
  rw [readBody.eq_def] at h
  simp only [Char.reduceEq, if_true, if_false] at h
  split at h
  · cases h
  next e more =>
  split at h
  · next hletter =>
    subst hletter
    split at h
    · next h₁ h₂ h₃ h₄ more =>
      split at h
      · exact absurd h (badHex_ne_ok _ _)
      next n hn =>
      split at h
      · cases h
      next hlow =>
      by_cases hplane : n < 0xD800 ∨ 0xDBFF < n
      · rw [if_pos hplane] at h
        exact Stands.takesOne (.hex hn (by omega)) h
      · exact takesOne_of_high hn (by omega) hread
    · exact absurd h (badHex_ne_ok _ _)
  · split at h
    · next c hc => exact Stands.takesOne (.letter hc) h
    · cases h

/-- A string ends at its closing quote, and else a character is taken. -/
theorem takesOne_of_readBody (h : readBody text = .ok (characters, rest)) :
    (text = '"' :: rest ∧ characters = []) ∨ TakesOne text characters rest := by
  cases text with
  | nil =>
      rw [readBody.eq_def] at h
      cases h
  | cons c text =>
      by_cases hquote : c = '"'
      · subst hquote
        rw [readBody.eq_def] at h
        cases h
        exact Or.inl ⟨rfl, rfl⟩
      by_cases hslash : c = '\\'
      · subst hslash
        exact Or.inr (takesOne_of_escape h)
      · rw [readBody.eq_def] at h
        simp only [hquote, hslash, if_false] at h
        split at h
        · cases h
        · next hplain =>
          exact Or.inr (Stands.takesOne (.plain hquote hslash (by omega)) h)

/-- A string is read up to its closing quote, as the characters that what stands before that is
for. -/
theorem readBody_eq_ok_iff :
    readBody text = .ok (characters, rest) ↔
      ∃ body, text = body ++ '"' :: rest ∧ Writes body characters := by
  constructor
  · intro h
    induction hlength : text.length using Nat.strongRecOn generalizing text characters with
    | _ length ih =>
        rcases takesOne_of_readBody h with
          ⟨rfl, rfl⟩ | ⟨piece, c, more, others, rfl, hpiece, hread, rfl⟩
        · exact ⟨[], rfl, .nil⟩
        · have hshorter : more.length < length := by
            rw [← hlength, List.length_append]
            have hpos := hpiece.length_pos
            omega
          obtain ⟨body, rfl, hbody⟩ := ih more.length hshorter hread rfl
          exact ⟨piece ++ body, (List.append_assoc ..).symm, .cons hpiece hbody⟩
  · rintro ⟨body, rfl, h⟩
    induction h with
    | nil =>
        rw [readBody.eq_def]
        rfl
    | cons hpiece _ ih => rw [List.append_assoc, hpiece.readBody_eq, ih, mapRead]

end

/-- A string is read up to its closing quote, as what stands before it is for. -/
theorem read_eq_ok_iff {text rest : List Char} {string : String} :
    read text = .ok (string, rest) ↔
      ∃ body, text = body ++ '"' :: rest ∧ Writes body string.toList := by
  rw [read, mapRead_eq_ok_iff]
  constructor
  · rintro ⟨characters, h, rfl⟩
    rw [String.toList_ofList]
    exact readBody_eq_ok_iff.mp h
  · intro h
    exact ⟨string.toList, readBody_eq_ok_iff.mpr h, String.ofList_toList⟩

/-- Characters that need no escape can be written by themselves. -/
theorem Writes.plain {characters : List Char}
    (h : ∀ c ∈ characters, c ≠ '"' ∧ c ≠ '\\' ∧ 0x20 ≤ c.toNat) : Writes characters characters := by
  induction characters with
  | nil => exact .nil
  | cons c characters ih =>
      obtain ⟨⟨hquote, hslash, hplain⟩, hrest⟩ := List.forall_mem_cons.mp h
      exact .cons (.plain hquote hslash hplain) (ih hrest)

/-- What a written character looks like is in the syntax of strings. -/
theorem Stands.isBody {piece body : List Char} {c : Char} (h : Stands piece c)
    (hbody : IsBody body) : IsBody (piece ++ body) := by
  cases h with
  | plain hquote hslash hplain => exact .plain hquote hslash hplain hbody
  | letter he => exact .letter he hbody
  | hex h hplane => exact .hex h hbody
  | pair hn hhigh hm hlow => exact .hex hn (.hex hm hbody)

/-- What stands for characters is in the syntax of strings. -/
theorem Writes.isBody {body characters : List Char} (h : Writes body characters) : IsBody body := by
  induction h with
  | nil => exact .nil
  | cons hpiece _ ih => exact hpiece.isBody ih

end CellAlign.Json.Text
