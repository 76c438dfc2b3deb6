import Mathlib

/-!
# Cutting UTF-8

When the bytes of a text are cut, the parts need not be texts.

* `isValidUTF8_append_iff`: bytes in front of a text are valid exactly if the
  whole is.
* `isValidUTF8_extract_iff`: the first part of a text is valid exactly if the
  cut is in front of a byte that starts a character.
* `isValidUTF8_extract_iff_exists`: the first part of any bytes is valid
  exactly if whole characters fill it.
-/

namespace DagScheduler.Lib

variable {b b' : ByteArray} {n : Nat}

/-- Bytes in front of a text. -/
theorem isValidUTF8_append_iff (hb' : b'.IsValidUTF8) :
    (b ++ b').IsValidUTF8 ↔ b.IsValidUTF8 := by
  refine ⟨fun h => ?_, fun h => h.append hb'⟩
  let s : String := .ofByteArray (b ++ b') h
  have hsize : s.utf8ByteSize = b.size + b'.size := ByteArray.size_append
  have hcut : (⟨b.size⟩ : String.Pos.Raw).IsValid s := by
    rw [String.Pos.Raw.isValid_iff_isValidUTF8_extract_utf8ByteSize]
    refine ⟨?_, ?_⟩
    · rw [String.Pos.Raw.le_iff, String.byteIdx_rawEndPos, hsize]
      exact Nat.le_add_right _ _
    · rw [hsize]
      have hright : (b ++ b').extract b.size (b.size + b'.size) = b' :=
        ByteArray.extract_append_eq_right rfl rfl
      exact hright.symm ▸ hb'
  have hleft : (b ++ b').extract 0 b.size = b := ByteArray.extract_append_eq_left rfl
  rw [← hleft]
  exact hcut.isValidUTF8_extract_zero

/-- The first part of a text. -/
theorem isValidUTF8_extract_iff (hb : b.IsValidUTF8) (hn : n < b.size) :
    (b.extract 0 n).IsValidUTF8 ↔ b[n].IsUTF8FirstByte := by
  let s : String := .ofByteArray b hb
  have hlt : (⟨n⟩ : String.Pos.Raw) < s.rawEndPos := by
    rw [String.Pos.Raw.lt_iff]
    exact hn
  have hvalid : (b.extract 0 n).IsValidUTF8 ↔ (⟨n⟩ : String.Pos.Raw).IsValid s := by
    rw [String.Pos.Raw.isValid_iff_isValidUTF8_extract_zero]
    exact ⟨fun h => ⟨String.Pos.Raw.le_of_lt hlt, h⟩, fun h => h.2⟩
  rw [hvalid, String.Pos.Raw.isValid_iff_isUTF8FirstByte]
  constructor
  · intro h
    rcases h with hend | ⟨_, hfirst⟩
    · rw [hend, String.Pos.Raw.lt_iff] at hlt
      exact absurd hlt (Nat.lt_irrefl _)
    · exact hfirst
  · exact fun h => .inr ⟨hlt, h⟩

/-- The first part of any bytes. -/
theorem isValidUTF8_extract_iff_exists :
    (b.extract 0 n).IsValidUTF8 ↔ ∃ (text : List Char) (rest : ByteArray),
      b = text.utf8Encode ++ rest ∧ text.utf8Encode.size = min b.size n := by
  constructor
  · intro h
    obtain ⟨text, htext⟩ := h
    refine ⟨text, b.extract n b.size, ?_, ?_⟩
    · rw [← htext, ByteArray.extract_append_extract, Nat.zero_min,
        ByteArray.extract_zero_max_size]
    · rw [← htext, ByteArray.size_extract]
      omega
  · intro h
    obtain ⟨text, rest, rfl, hsize⟩ := h
    rw [ByteArray.size_append] at hsize
    by_cases hn : n = text.utf8Encode.size
    · rw [ByteArray.extract_append_eq_left hn]
      exact ByteArray.isValidUTF8_utf8Encode
    · -- The limit is past the end.
      have hrest : rest = ByteArray.empty := ByteArray.size_eq_zero_iff.mp (by omega)
      have hall : max n text.utf8Encode.size = n := by omega
      rw [hrest, ByteArray.append_empty, ← hall, ByteArray.extract_zero_max_size]
      exact ByteArray.isValidUTF8_utf8Encode

end DagScheduler.Lib
