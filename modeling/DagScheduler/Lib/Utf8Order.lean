import Mathlib

/-!
# The order of texts and the order of their bytes

Lean compares strings character by character.  A key-value store compares keys
byte by byte.  On texts the two agree: `compare_utf8` says that two strings
compare as their UTF-8 encodings do.

The encoding of a character is at most four bytes.  Its first byte grows with
the length, and among characters of one length the bytes are the digits of the
code point, the highest one first.  So of two characters the smaller one has the
smaller encoding, whatever follows it (`compare_encode_append`).
-/

namespace DagScheduler.Lib

/-- The UTF-8 encoding of a text. -/
def utf8 (text : List Char) : List UInt8 := text.flatMap String.utf8EncodeChar

@[simp] theorem utf8_nil : utf8 [] = [] := rfl

@[simp] theorem utf8_cons (c : Char) (text : List Char) :
    utf8 (c :: text) = String.utf8EncodeChar c ++ utf8 text := List.flatMap_cons

theorem utf8_toList (s : String) : utf8 s.toList = s.toUTF8.data.toList := by
  have h : s.toList.utf8Encode = s.toUTF8 := String.utf8Encode_toList
  rw [← h, List.utf8Encode, List.data_toByteArray, utf8]

/-! ## One character -/

/-- The first bytes decide, or else what follows them. -/
theorem compare_cons_lt {a b : Nat} (ha : a < 256) (hb : b < 256) (hab : a ≤ b)
    {x y : List UInt8} (hrest : a = b → compare x y = .lt) :
    compare (UInt8.ofNat a :: x) (UInt8.ofNat b :: y) = .lt := by
  rw [List.compare_cons_cons]
  rcases Nat.lt_or_eq_of_le hab with hlt | heq
  · have hbyte : UInt8.ofNat a < UInt8.ofNat b := by
      rw [UInt8.lt_iff_toNat_lt, UInt8.toNat_ofNat_of_lt' ha, UInt8.toNat_ofNat_of_lt' hb]
      exact hlt
    rw [Std.compare_eq_lt.mpr hbyte]
    rfl
  · rw [heq, Std.compare_self]
    exact hrest heq

/-- The smaller character has the smaller encoding, whatever follows it. -/
theorem compare_encode_append {c d : Char} (h : c < d) (x y : List UInt8) :
    compare (String.utf8EncodeChar c ++ x) (String.utf8EncodeChar d ++ y) = .lt := by
  have hlt : c.val.toNat < d.val.toNat := h
  have hd : d.val.toNat < 0x110000 := by
    have := d.valid
    unfold UInt32.isValidChar Nat.isValidChar at this
    omega
  rw [String.utf8EncodeChar, String.utf8EncodeChar]
  generalize c.val.toNat = v at hlt
  generalize d.val.toNat = w at hlt hd
  -- Encodings of different lengths differ in the first byte, and the others in
  -- the highest digit in which the code points differ.
  split_ifs <;> try omega
  all_goals
    simp only [List.cons_append, List.nil_append]
    refine compare_cons_lt (by omega) (by omega) (by omega) fun _ => ?_
    first
    | omega
    | refine compare_cons_lt (by omega) (by omega) (by omega) fun _ => ?_
      first
      | omega
      | refine compare_cons_lt (by omega) (by omega) (by omega) fun _ => ?_
        first
        | omega
        | exact compare_cons_lt (by omega) (by omega) (by omega) fun _ => by omega

/-! ## Texts -/

theorem compare_append_self (z x y : List UInt8) :
    compare (z ++ x) (z ++ y) = compare x y := by
  induction z with
  | nil => rfl
  | cons a z ih =>
    rw [List.cons_append, List.cons_append, List.compare_cons_cons, Std.compare_self]
    exact ih

theorem compare_utf8_of_lt {text text' : List Char} (h : text < text') :
    compare (utf8 text) (utf8 text') = .lt := by
  induction h with
  | nil =>
    rename_i c text'
    rw [utf8_cons, utf8_nil]
    cases henc : String.utf8EncodeChar c with
    | nil => exact absurd henc String.utf8EncodeChar_ne_nil
    | cons a rest => rfl
  | rel hlt =>
    rw [utf8_cons, utf8_cons]
    exact compare_encode_append hlt _ _
  | cons _ ih =>
    rw [utf8_cons, utf8_cons, compare_append_self]
    exact ih

/-- Two strings compare as their encodings do. -/
theorem compare_utf8 (s t : String) :
    compare s.toUTF8.data.toList t.toUTF8.data.toList = compare s t := by
  have hstring : ∀ {a b : String}, a < b → compare a b = .lt :=
    fun hab => compareOfLessAndEq_eq_lt.mpr hab
  rw [← utf8_toList, ← utf8_toList]
  rcases lt_trichotomy s t with hlt | heq | hgt
  · rw [compare_utf8_of_lt (String.lt_iff_toList_lt.mp hlt), hstring hlt]
  · rw [heq, Std.compare_self, Std.compare_self]
  · rw [Std.OrientedOrd.eq_swap, compare_utf8_of_lt (String.lt_iff_toList_lt.mp hgt),
      Std.OrientedOrd.eq_swap (a := s), hstring hgt]

end DagScheduler.Lib
