import CellAlign.Text.Utf8

/-!
# Texts read back from their bytes

A text that is written as UTF-8 is read back as it was: no byte of it is taken for broken, so that
no replacement character comes in.
-/

namespace CellAlign.Text.Utf8

/-- The character at the start of what is left of some bytes. -/
theorem utf8DecodeChar?_append (before : ByteArray) (c : Char) (chars : List Char) :
    (before ++ (c :: chars).utf8Encode).utf8DecodeChar? before.size = some c := by
  rw [ByteArray.utf8DecodeChar?_eq_utf8DecodeChar?_extract, ByteArray.size_append,
    ByteArray.extract_append_eq_right rfl rfl, List.utf8DecodeChar?_utf8Encode_cons]

/-- The bytes of one character. -/
theorem size_utf8Encode_singleton (c : Char) : [c].utf8Encode.size = c.utf8Size := by
  rw [List.utf8Encode_singleton, List.size_toByteArray, String.length_utf8EncodeChar]

/-- Reading goes through the characters of a text one by one. -/
theorem decodeFrom_append_utf8Encode (text : String) (before : ByteArray) (chars : List Char) :
    decodeFrom text (before ++ chars.utf8Encode) before.size = text ++ String.ofList chars := by
  induction chars generalizing text before with
  | nil =>
      rw [decodeFrom]
      simp
  | cons c chars ih =>
      have hsplit : before ++ (c :: chars).utf8Encode =
          (before ++ [c].utf8Encode) ++ chars.utf8Encode := by
        rw [List.utf8Encode_cons, ByteArray.append_assoc]
      have hsize : before.size + c.utf8Size = (before ++ [c].utf8Encode).size := by
        rw [ByteArray.size_append, size_utf8Encode_singleton]
      have hinside : before.size < (before ++ (c :: chars).utf8Encode).size := by
        have := c.utf8Size_pos
        rw [hsplit, ByteArray.size_append, ← hsize]
        omega
      rw [decodeFrom, if_pos hinside, utf8DecodeChar?_append]
      simp only
      rw [hsplit, hsize, ih]
      simp [← String.toList_inj]

/-- A text is read back from its bytes. -/
theorem decode_toUTF8 (text : String) : decode text.toUTF8 = text := by
  have h := decodeFrom_append_utf8Encode "" .empty text.toList
  simpa [decode] using h

end CellAlign.Text.Utf8
