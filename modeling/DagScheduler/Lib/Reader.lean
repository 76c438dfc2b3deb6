import DagScheduler.Lib.Bytes

/-!
# Reading a sequence of fields

A reader takes values from the front of a byte string, in the manner of a Go
`bytes.Reader`.  `readFull` is `io.ReadFull`, which wants all its bytes, and
`read` is the method `Read`, which may deliver less than it was asked for and
reports the end of the input only when there is nothing at all.  A reader stops
with an error, which its caller may swallow, or with a panic, which it may not.

A `FieldCodec` is a reader together with the encoding that it undoes.  It may be
lenient at the end of the input: if it leaves nothing unread, the value need
not be the one that was encoded.  If another field has to follow, this does no
harm, since that one then fails.  A `Strict` field has no such freedom.

* `readAll_ok_iff`: a sequence that ends with a strict field is accepted
  exactly on the encodings of its values, whatever follows.
* `readAll_panic_iff`: it panics exactly where one of its fields does, after
  whole encodings of the fields before.
-/

namespace DagScheduler.Lib

/-- Why a reader stops. -/
inductive ReadFault where
  | eof
  | unexpectedEOF
  | panic
deriving DecidableEq, Repr

/-- A reader of an `α`.  The state is what is unread. -/
abbrev Reader := StateT Bytes (Except ReadFault)

namespace Reader

/-- `io.ReadFull` of `n` bytes. -/
def readFull (n : Nat) : Reader Bytes := fun data =>
  if n ≤ data.length then .ok (data.take n, data.drop n)
  else .error (if data = [] then .eof else .unexpectedEOF)

/-- `Read` into `n` zero bytes. -/
def read (n : Nat) : Reader Bytes := fun data =>
  if data = [] then .error .eof
  else .ok (data.take n ++ List.replicate (n - data.length) 0, data.drop n)

/-- The length of a new slice.  A negative one is a panic. -/
def makeSlice (n : Int32) : Reader Nat :=
  if n < 0 then throw .panic else return n.toNatClampNeg

/-- `binary.Read` of an `int32`. -/
def readInt32 : Reader Int32 := toInt32 <$> readFull 4

/-- `binary.Read` of an `int64`. -/
def readInt64 : Reader Int64 := toInt64 <$> readFull 8

/-- Run a reader whose error is swallowed by the caller, who reads no further
then. -/
def attempt {α : Type} (p : Reader α) : Reader (Option α) := fun data =>
  match p data with
  | .ok (a, rest) => .ok (some a, rest)
  | .error .panic => .error .panic
  | .error _ => .ok (none, data)

variable {α β : Type} {p : Reader α} {f : α → Reader β} {data rest : Bytes}

theorem bind_of_ok {a : α} (h : p data = .ok (a, rest)) : (p >>= f) data = f a rest := by
  show (p data >>= fun x => f x.1 x.2) = _
  rw [h]
  rfl

theorem bind_of_error {e : ReadFault} (h : p data = .error e) :
    (p >>= f) data = .error e := by
  show (p data >>= fun x => f x.1 x.2) = _
  rw [h]
  rfl

theorem bind_eq_ok_iff {b : β} {rest' : Bytes} :
    (p >>= f) data = .ok (b, rest') ↔
      ∃ a rest, p data = .ok (a, rest) ∧ f a rest = .ok (b, rest') := by
  cases h : p data with
  | error e => simp [bind_of_error h]
  | ok out =>
    obtain ⟨a, rest⟩ := out
    rw [bind_of_ok h]
    simp

theorem bind_eq_error_iff {e : ReadFault} :
    (p >>= f) data = .error e ↔
      p data = .error e ∨ ∃ a rest, p data = .ok (a, rest) ∧ f a rest = .error e := by
  cases h : p data with
  | error e' => simp [bind_of_error h]
  | ok out =>
    obtain ⟨a, rest⟩ := out
    rw [bind_of_ok h]
    simp

theorem attempt_of_ok {a : α} (h : p data = .ok (a, rest)) :
    attempt p data = .ok (some a, rest) := by
  simp [attempt, h]

theorem attempt_of_error {e : ReadFault} (h : p data = .error e) (he : e ≠ .panic) :
    attempt p data = .ok (none, data) := by
  cases e with
  | panic => exact absurd rfl he
  | eof | unexpectedEOF => simp [attempt, h]

theorem attempt_of_panic (h : p data = .error .panic) :
    attempt p data = .error .panic := by
  simp [attempt, h]

/-! ## The single reads -/

theorem readFull_nil {n : Nat} (hn : n ≠ 0) : readFull n [] = .error .eof := by
  rw [readFull, if_neg (by simp [hn]), if_pos rfl]

theorem readFull_append {bs : Bytes} {n : Nat} (h : bs.length = n) (rest : Bytes) :
    readFull n (bs ++ rest) = .ok (bs, rest) := by
  rw [readFull, if_pos (by simp [h]), List.take_left' h, List.drop_left' h]

theorem readFull_eq_ok {bs : Bytes} {n : Nat} (h : readFull n data = .ok (bs, rest)) :
    data = bs ++ rest ∧ bs.length = n := by
  unfold readFull at h
  split at h
  · rename_i hle
    cases h
    exact ⟨(List.take_append_drop n data).symm, List.length_take_of_le hle⟩
  · cases h

theorem readFull_ne_panic (n : Nat) (data : Bytes) : readFull n data ≠ .error .panic := by
  unfold readFull
  split
  · simp
  · split <;> simp

theorem read_append {bs : Bytes} (h : bs ++ rest ≠ []) :
    read bs.length (bs ++ rest) = .ok (bs, rest) := by
  rw [read, if_neg h, List.take_left, List.drop_left, List.length_append,
    Nat.sub_eq_zero_of_le (Nat.le_add_right _ _), List.replicate_zero, List.append_nil]

/-- What `read` delivers has the length that was asked for.  It is the front of
the input, unless nothing is left. -/
theorem read_eq_ok {bs : Bytes} {n : Nat} (h : read n data = .ok (bs, rest)) :
    bs.length = n ∧ (rest = [] ∨ data = bs ++ rest) := by
  unfold read at h
  split at h
  · cases h
  · cases h
    refine ⟨by simp; omega, ?_⟩
    by_cases hle : data.length ≤ n
    · exact .inl (List.drop_eq_nil_of_le hle)
    · right
      rw [Nat.sub_eq_zero_of_le (by omega), List.replicate_zero, List.append_nil,
        List.take_append_drop]

theorem read_ne_panic (n : Nat) (data : Bytes) : read n data ≠ .error .panic := by
  unfold read
  split <;> simp

theorem makeSlice_of_nonneg {n : Int32} (h : ¬ n < 0) (data : Bytes) :
    makeSlice n data = .ok (n.toNatClampNeg, data) := by
  rw [makeSlice, if_neg h]
  rfl

theorem makeSlice_of_neg {n : Int32} (h : n < 0) (data : Bytes) :
    makeSlice n data = .error .panic := by
  rw [makeSlice, if_pos h]
  rfl

/-- The length of a slice is that of an `int32`. -/
theorem makeSlice_lt {n : Int32} {m : Nat} (h : makeSlice n data = .ok (m, rest)) :
    m < 2 ^ 31 := by
  by_cases hneg : n < 0
  · rw [makeSlice_of_neg hneg] at h
    cases h
  · rw [makeSlice_of_nonneg hneg] at h
    cases h
    exact n.toNatClampNeg_lt

theorem readInt32_eq (data : Bytes) :
    readInt32 data = (readFull 4 >>= fun bs => pure (toInt32 bs)) data := by
  rw [readInt32, map_eq_pure_bind]

theorem readInt32_append (x : Int32) (rest : Bytes) :
    readInt32 (ofInt32 x ++ rest) = .ok (x, rest) := by
  rw [readInt32_eq, bind_of_ok (readFull_append (length_ofInt32 x) rest), toInt32_ofInt32]
  rfl

theorem readInt32_eq_ok {x : Int32} (h : readInt32 data = .ok (x, rest)) :
    data = ofInt32 x ++ rest := by
  rw [readInt32_eq, bind_eq_ok_iff] at h
  obtain ⟨bs, rest', hread, hret⟩ := h
  obtain ⟨rfl, hlen⟩ := readFull_eq_ok hread
  cases hret
  rw [ofInt32_toInt32 hlen]

theorem readInt32_ne_panic (data : Bytes) : readInt32 data ≠ .error .panic := by
  rw [readInt32_eq, Ne, bind_eq_error_iff, not_or]
  refine ⟨readFull_ne_panic 4 data, ?_⟩
  rintro ⟨_, _, _, hret⟩
  cases hret

end Reader

/-! ## Fields -/

/-- A reader with the encoding that it undoes.  `Fits` says which values have
an encoding, and `Bad` on which inputs the reader panics. -/
structure FieldCodec where
  read : Reader Bytes
  encode : Bytes → Bytes
  Fits : Bytes → Prop
  Bad : Bytes → Prop
  read_nil : read [] = .error .eof
  read_encode : ∀ value rest, Fits value → rest ≠ [] →
    read (encode value ++ rest) = .ok (value, rest)
  of_read : ∀ data value rest, read data = .ok (value, rest) → rest ≠ [] →
    data = encode value ++ rest ∧ Fits value
  panic_iff : ∀ data, read data = .error .panic ↔ Bad data

/-- The field is no more lenient at the end of the input than before it. -/
structure FieldCodec.Strict (f : FieldCodec) : Prop where
  read_encode : ∀ value, f.Fits value → f.read (f.encode value) = .ok (value, [])
  of_read : ∀ data value, f.read data = .ok (value, []) →
    data = f.encode value ∧ f.Fits value

/-- Read one field after the other. -/
def readAll : List FieldCodec → Reader (List Bytes)
  | [] => return []
  | f :: fs => do
    let value ← f.read
    return value :: (← readAll fs)

/-- The encodings, one after the other. -/
def encodeAll : List FieldCodec → List Bytes → Bytes
  | [], _ => []
  | _ :: _, [] => []
  | f :: fs, value :: values => f.encode value ++ encodeAll fs values

/-- The values fit their fields. -/
def FitAll : List FieldCodec → List Bytes → Prop := List.Forall₂ FieldCodec.Fits

/-- After whole encodings of the fields before it, one of the fields finds an
input on which it panics. -/
def BadAt : List FieldCodec → Bytes → Prop
  | [], _ => False
  | f :: fs, data => f.Bad data ∨
      ∃ value rest, f.Fits value ∧ rest ≠ [] ∧ data = f.encode value ++ rest ∧ BadAt fs rest

variable {f last : FieldCodec} {fs : List FieldCodec} {data rest : Bytes}
  {values : List Bytes}

theorem FieldCodec.Strict.read_iff (h : last.Strict) {value : Bytes} :
    last.read data = .ok (value, rest) ↔
      last.Fits value ∧ data = last.encode value ++ rest := by
  by_cases hrest : rest = []
  · subst hrest
    rw [List.append_nil]
    constructor
    · intro hread
      exact (h.of_read data value hread).symm
    · rintro ⟨hfits, rfl⟩
      exact h.read_encode value hfits
  · constructor
    · intro hread
      exact (last.of_read data value rest hread hrest).symm
    · rintro ⟨hfits, rfl⟩
      exact last.read_encode value rest hfits hrest

theorem readAll_cons_ok_iff {value : Bytes} :
    readAll (f :: fs) data = .ok (value :: values, rest) ↔
      ∃ rest', f.read data = .ok (value, rest') ∧ readAll fs rest' = .ok (values, rest) := by
  rw [readAll, Reader.bind_eq_ok_iff]
  constructor
  · rintro ⟨value', rest', hread, h⟩
    rw [Reader.bind_eq_ok_iff] at h
    obtain ⟨values', rest'', hall, hret⟩ := h
    cases hret
    exact ⟨rest', hread, hall⟩
  · rintro ⟨rest', hread, hall⟩
    refine ⟨value, rest', hread, ?_⟩
    rw [Reader.bind_of_ok hall]
    rfl

theorem readAll_cons_ne_nil : readAll (f :: fs) data ≠ .ok ([], rest) := by
  rw [readAll, Ne, Reader.bind_eq_ok_iff]
  rintro ⟨value, rest', _, h⟩
  rw [Reader.bind_eq_ok_iff] at h
  obtain ⟨_, _, _, hret⟩ := h
  cases hret

theorem readAll_cons_nil_iff {Q : Prop} :
    readAll (f :: fs) data = .ok ([], rest) ↔ FitAll (f :: fs) [] ∧ Q := by
  refine ⟨fun h => absurd h readAll_cons_ne_nil, ?_⟩
  rintro ⟨hfits, _⟩
  cases hfits

theorem readAll_nil_input : readAll (f :: fs) [] = .error .eof := by
  rw [readAll]
  exact Reader.bind_of_error f.read_nil

theorem readAll_append_nil_input (h : readAll (fs ++ [last]) [] = .ok (values, rest)) :
    False := by
  cases fs with
  | nil =>
    rw [List.nil_append, readAll_nil_input] at h
    cases h
  | cons f fs =>
    rw [List.cons_append, readAll_nil_input] at h
    cases h

/-- A sequence that ends with a strict field is accepted exactly on the
encodings of its values. -/
theorem readAll_ok_iff (hlast : last.Strict) :
    readAll (fs ++ [last]) data = .ok (values, rest) ↔
      FitAll (fs ++ [last]) values ∧ data = encodeAll (fs ++ [last]) values ++ rest := by
  induction fs generalizing data values with
  | nil =>
    cases values with
    | nil => exact readAll_cons_nil_iff
    | cons value values =>
      rw [List.nil_append, readAll_cons_ok_iff]
      constructor
      · rintro ⟨rest', hread, hret⟩
        cases hret
        obtain ⟨hfits, hdata⟩ := hlast.read_iff.mp hread
        exact ⟨.cons hfits .nil, by rw [hdata, encodeAll, encodeAll, List.append_nil]⟩
      · rintro ⟨hfits, hdata⟩
        cases hfits with
        | cons hfits hnil =>
          cases hnil
          rw [encodeAll, encodeAll, List.append_nil] at hdata
          exact ⟨rest, hlast.read_iff.mpr ⟨hfits, hdata⟩, rfl⟩
  | cons f fs ih =>
    cases values with
    | nil => exact readAll_cons_nil_iff
    | cons value values =>
      rw [List.cons_append, readAll_cons_ok_iff]
      constructor
      · rintro ⟨rest', hread, hall⟩
        -- Another field follows, so the first one has left something.
        have hrest : rest' ≠ [] := by
          rintro rfl
          exact (readAll_append_nil_input hall).elim
        obtain ⟨hdata, hfits⟩ := f.of_read data value rest' hread hrest
        obtain ⟨hfitsAll, hdata'⟩ := ih.mp hall
        exact ⟨.cons hfits hfitsAll, by rw [hdata, hdata', encodeAll, List.append_assoc]⟩
      · rintro ⟨hfits, hdata⟩
        cases hfits with
        | cons hfits hfitsAll =>
          rw [encodeAll, List.append_assoc] at hdata
          have hall := ih.mpr ⟨hfitsAll, rfl⟩
          refine ⟨_, ?_, hall⟩
          rw [hdata]
          apply f.read_encode value _ hfits
          intro hnil
          rw [hnil] at hall
          exact (readAll_append_nil_input hall).elim

theorem not_badAt_nil : ¬ BadAt fs [] := by
  cases fs with
  | nil => exact id
  | cons f fs =>
    rintro (hbad | ⟨value, rest, _, hrest, hnil, _⟩)
    · rw [← f.panic_iff, f.read_nil] at hbad
      cases hbad
    · exact hrest (List.append_eq_nil_iff.mp hnil.symm).2

/-- A sequence panics exactly where one of its fields does. -/
theorem readAll_panic_iff : readAll fs data = .error .panic ↔ BadAt fs data := by
  induction fs generalizing data with
  | nil =>
    refine ⟨fun h => ?_, False.elim⟩
    cases h
  | cons f fs ih =>
    rw [readAll, Reader.bind_eq_error_iff, f.panic_iff, BadAt]
    refine or_congr_right (exists_congr fun value => exists_congr fun rest => ?_)
    have htail : (readAll fs >>= fun values => pure (value :: values)) rest = .error .panic ↔
        BadAt fs rest := by
      rw [← ih, Reader.bind_eq_error_iff]
      refine ⟨fun h => h.resolve_right ?_, .inl⟩
      rintro ⟨_, _, _, hret⟩
      cases hret
    rw [htail]
    constructor
    · rintro ⟨hread, hbad⟩
      have hrest : rest ≠ [] := by
        rintro rfl
        exact absurd hbad not_badAt_nil
      obtain ⟨hdata, hfits⟩ := f.of_read data value rest hread hrest
      exact ⟨hfits, hrest, hdata, hbad⟩
    · rintro ⟨hfits, hrest, rfl, hbad⟩
      exact ⟨f.read_encode value rest hfits hrest, hbad⟩

end DagScheduler.Lib
