/-
# Text as bytes

The bytes of a text, and `Text.decode?` as their inverse: what is decoded is the one text that has
these bytes (`decode?_eq_some`), and a character put in front of some bytes is decoded in front of
what they decode to (`decode?_char_append`).
-/
import Calculator.Text.Lines

namespace Calculator.Text

/-- The bytes of a text. -/
def bytes (s : String) : List UInt8 := s.toUTF8.data.toList

@[simp] theorem bytes_append (s t : String) : bytes (s ++ t) = bytes s ++ bytes t := by
  simp [bytes]

theorem bytes_ofList (cs : List Char) :
    bytes (String.ofList cs) = cs.flatMap String.utf8EncodeChar := by
  simp [bytes, List.utf8Encode]

/-- A character of seven bits is one byte. -/
theorem encode_of_utf8Size {c : Char} (h : c.utf8Size = 1) :
    String.utf8EncodeChar c = [c.val.toUInt8] :=
  String.utf8EncodeChar_eq_singleton h

theorem toByteArray_bytes (s : String) : (bytes s).toByteArray = s.toByteArray := by
  apply ByteArray.ext
  rw [List.data_toByteArray]
  rfl

/-- Bytes that are no text are not decoded. -/
theorem decode?_eq_none {bs : List UInt8} (h : ¬bs.toByteArray.IsValidUTF8) :
    decode? bs = none := by
  unfold decode? String.fromUTF8?
  rw [dif_neg h]
  rfl

/-- A text is decoded from its bytes. -/
theorem decode?_bytes (s : String) : decode? (bytes s) = some s.toList := by
  have hvalid : (bytes s).toByteArray.IsValidUTF8 := toByteArray_bytes s ▸ s.isValidUTF8
  have hsame : String.fromUTF8 (bytes s).toByteArray hvalid = s :=
    String.toByteArray_inj.mp (toByteArray_bytes s)
  unfold decode? String.fromUTF8?
  rw [dif_pos hvalid, hsame]
  rfl

/-- What is decoded is the text that has these bytes. -/
theorem decode?_eq_some {bs : List UInt8} {cs : List Char} (h : decode? bs = some cs) :
    bytes (String.ofList cs) = bs := by
  by_cases hvalid : bs.toByteArray.IsValidUTF8
  · unfold decode? String.fromUTF8? at h
    rw [dif_pos hvalid] at h
    obtain rfl := Option.some.inj h
    rw [String.ofList_toList, ← List.toByteArray_inj, toByteArray_bytes]
    rfl
  · rw [decode?_eq_none hvalid] at h
    cases h

theorem decode?_char_append (c : Char) (bs : List UInt8) :
    decode? (String.utf8EncodeChar c ++ bs) = (decode? bs).map (c :: ·) := by
  have happend : (String.utf8EncodeChar c ++ bs).toByteArray
      = [c].utf8Encode ++ bs.toByteArray := by
    rw [List.toByteArray_append, List.utf8Encode_singleton]
  by_cases hvalid : bs.toByteArray.IsValidUTF8
  · obtain ⟨cs, hcs⟩ := hvalid
    have hbytes : bs = bytes (String.ofList cs) := by
      rw [← List.toByteArray_inj, toByteArray_bytes, hcs, String.toByteArray_ofList]
    have hcons : String.utf8EncodeChar c ++ bs = bytes (String.ofList (c :: cs)) := by
      rw [hbytes, bytes_ofList, bytes_ofList, List.flatMap_cons]
    rw [hcons, decode?_bytes, hbytes, decode?_bytes, String.toList_ofList, String.toList_ofList]
    rfl
  · have hall : ¬(String.utf8EncodeChar c ++ bs).toByteArray.IsValidUTF8 := by
      rw [happend, ByteArray.isValidUTF8_utf8Encode_singleton_append_iff]
      exact hvalid
    rw [decode?_eq_none hvalid, decode?_eq_none hall]
    rfl

end Calculator.Text
