import CellAlign.Proofs.Decimal.Canonical
import CellAlign.Proofs.Json.Parts
import CellAlign.Proofs.Json.Walks

/-!
# Numbers that are read

However a numeral is written, with digits that are dropped or an exponent beyond the format, the
binary number that is made of it is in canonical form.  So are all binary numbers in a value that is
read.

* `Numeral.canonical_of_afterSign`: numerals;
* `exists_readValue_of_mem_parts`: the parts of a value that is read are read;
* `canonical_of_readValue`: the numbers of a value.
-/

namespace CellAlign.Json

open Decimal (Binary)

variable {negative : Bool} {significand : Nat} {exponent : Int} {text rest : List Char}
  {x : Binary}

/-! ## Numerals -/

namespace Numeral

/-- The number of a significand and an exponent is in canonical form. -/
theorem canonical_of_finish
    (h : finish negative significand exponent text = .ok (.binary x, rest)) : x.Canonical := by
  unfold finish at h
  split at h
  · next found hfound =>
    cases h
    exact (Binary.canonical_of_ofDecimal? hfound).withSign negative
  · cases h

/-- So is that of a whole part alone, if it is a binary number. -/
theorem canonical_of_whole (h : whole negative significand text = .ok (.binary x, rest)) :
    x.Canonical := by
  unfold whole at h
  split at h
  · exact canonical_of_finish h
  · split at h
    · cases h
    · exact canonical_of_finish h

/-- An exponent leaves a number in canonical form, or a zero. -/
theorem canonical_of_afterLetter
    (h : afterLetter negative significand exponent text = .ok (.binary x, rest)) :
    x.Canonical := by
  unfold afterLetter at h
  split at h
  next lower behind _ =>
  split at h
  · cases h
  split at h
  · cases h
  split at h
  · exact canonical_of_finish h
  · split at h
    · cases h
    · cases h
      exact Binary.canonical_zero negative

/-- With an exponent or without, the number is in canonical form. -/
theorem canonical_of_exponentPart
    (h : exponentPart negative significand exponent text = .ok (.binary x, rest)) :
    x.Canonical := by
  unfold exponentPart at h
  split at h
  · exact canonical_of_afterLetter h
  · exact canonical_of_afterLetter h
  · exact canonical_of_finish h

/-- A fraction leaves a number in canonical form. -/
theorem canonical_of_afterPoint
    (h : afterPoint negative significand exponent text = .ok (.binary x, rest)) :
    x.Canonical := by
  unfold afterPoint at h
  split at h
  · cases h
  split at h
  · exact canonical_of_exponentPart h
  · cases h

/-- So do the digits of a whole part that are dropped. -/
theorem canonical_of_afterLong
    (h : afterLong negative significand exponent text = .ok (.binary x, rest)) :
    x.Canonical := by
  induction text generalizing exponent with
  | nil => exact canonical_of_finish h
  | cons c text ih =>
      rw [afterLong] at h
      split at h
      · exact ih h
      split at h
      · exact canonical_of_afterPoint h
      · exact canonical_of_exponentPart h

/-- Behind a whole part that fits, the number is in canonical form. -/
theorem canonical_of_afterWhole
    (h : afterWhole negative significand text = .ok (.binary x, rest)) : x.Canonical := by
  unfold afterWhole at h
  split at h
  · exact canonical_of_afterPoint h
  · exact canonical_of_afterLetter h
  · exact canonical_of_afterLetter h
  · exact canonical_of_whole h

/-- The digits of a whole part leave a number in canonical form. -/
theorem canonical_of_wholeDigits
    (h : wholeDigits negative significand text = .ok (.binary x, rest)) : x.Canonical := by
  induction text generalizing significand with
  | nil => exact canonical_of_whole h
  | cons c text ih =>
      rw [wholeDigits] at h
      split at h
      · exact canonical_of_afterWhole h
      split at h
      · exact canonical_of_afterLong h
      · exact ih h

/-- A binary number that is read is in canonical form. -/
theorem canonical_of_afterSign (h : afterSign negative text = .ok (.binary x, rest)) :
    x.Canonical := by
  unfold afterSign at h
  split at h
  · cases h
  split at h
  · cases h
  · split at h
    · exact canonical_of_whole h
    split at h
    · cases h
    · exact canonical_of_afterWhole h
  · exact canonical_of_wholeDigits h

end Numeral

/-! ## Values -/

/-- A binary number that is read as a value is in canonical form. -/
theorem canonical_of_readScalar? {c : Char} {tail : List Char}
    (h : readScalar? c tail = some (.ok (.number (.binary x), rest))) : x.Canonical := by
  have hliteral {name : List Char} {found : Value}
      (h : some (readLiteral name found tail) = some (.ok (.number (.binary x), rest)))
      (hfound : found ≠ .number (.binary x)) : x.Canonical :=
    absurd (eq_of_readLiteral (Option.some.inj h)).symm hfound
  have hnumber {negative : Bool} {text : List Char}
      (h : some (mapRead Value.number (Numeral.afterSign negative text)) =
        some (.ok (.number (.binary x), rest))) : x.Canonical := by
    obtain ⟨n, hread, heq⟩ := mapRead_eq_ok_iff.mp (Option.some.inj h)
    cases heq
    exact Numeral.canonical_of_afterSign hread
  unfold readScalar? at h
  iterate 3
    split at h
    · exact hliteral h nofun
  iterate 2
    split at h
    · exact hnumber h
  split at h
  · obtain ⟨s, -, heq⟩ := mapRead_eq_ok_iff.mp (Option.some.inj h)
    cases heq
  · cases h

/-- The parts of a value that is read are read themselves. -/
theorem exists_readValue_of_mem_parts {depth : Nat} {value part : Value}
    (h : readValue depth text = .ok (value, rest)) (hpart : part ∈ value.parts) :
    ∃ depth text rest, readValue depth text = .ok (part, rest) := by
  let isRead (value : Value) : Prop := ∃ depth text rest, readValue depth text = .ok (value, rest)
  obtain ⟨c, tail, hgap, hscalar | ⟨inner, items, -, -, hwalk, rfl⟩ |
    ⟨inner, members, -, -, hwalk, rfl⟩⟩ := readValue_eq_ok_iff.mp h
  · have hdepth := Value.depth_lt_of_mem_parts hpart
    rw [depth_of_readScalar? hscalar] at hdepth
    omega
  · have hkeeps {state next : List Value} {text rest : List Char}
        (hstate : ∀ item ∈ state, isRead item)
        (hread : readElement inner state text = .ok (next, rest)) : ∀ item ∈ next, isRead item := by
      obtain ⟨v, hv, rfl⟩ := mapRead_eq_ok_iff.mp hread
      exact List.forall_mem_cons.mpr ⟨⟨inner, text, rest, hv⟩, hstate⟩
    have hitems : ∀ item ∈ items, isRead item :=
      walkList_keeps (fun items => ∀ item ∈ items, isRead item) hkeeps (List.forall_mem_nil _) hwalk
    exact hitems part (List.mem_reverse.mp hpart)
  · have hkeeps {state next : List (String × Value)} {key : String} {text rest : List Char}
        (hstate : ∀ m ∈ state, isRead m.2)
        (hread : readField inner state key text = .ok (next, rest)) : ∀ m ∈ next, isRead m.2 := by
      obtain ⟨behind, v, -, hv, rfl⟩ := readField_eq_ok_iff.mp hread
      exact List.forall_mem_cons.mpr ⟨⟨inner, behind, rest, hv⟩, hstate⟩
    have hmembers : ∀ m ∈ members, isRead m.2 :=
      walkObject_keeps (fun members => ∀ m ∈ members, isRead m.2) hkeeps (List.forall_mem_nil _)
        hwalk
    obtain ⟨m, hm, rfl⟩ := List.mem_map.mp hpart
    exact hmembers m (List.mem_reverse.mp hm)

/-- A number occurs in a value if it is the value or occurs in one of its parts. -/
inductive Number.OccursIn (n : Number) : Value → Prop
  | self : n.OccursIn (.number n)
  | part {value part : Value} (hpart : part ∈ value.parts) (h : n.OccursIn part) : n.OccursIn value

/-- All binary numbers in a value that is read are in canonical form. -/
theorem canonical_of_readValue {depth : Nat} {value : Value}
    (h : readValue depth text = .ok (value, rest)) (hx : (Number.binary x).OccursIn value) :
    x.Canonical := by
  induction hx generalizing depth text rest with
  | self =>
      obtain ⟨c, tail, -, hscalar | ⟨_, _, -, -, -, heq⟩ | ⟨_, _, -, -, -, heq⟩⟩ :=
        readValue_eq_ok_iff.mp h
      · exact canonical_of_readScalar? hscalar
      · cases heq
      · cases heq
  | part hpart _ ih =>
      obtain ⟨depth, text, rest, hread⟩ := exists_readValue_of_mem_parts h hpart
      exact ih hread

end CellAlign.Json
