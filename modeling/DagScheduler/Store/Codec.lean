import DagScheduler.Model.Serialization
import DagScheduler.Store.Coherent

/-!
# Reading and writing a task record

The mandatory part of a task record is a sequence of nine fields, five strings
and four words, and the last one is a word.  A string read may come up short at
the end of the input, but then the next field fails, so the general lemmas on
sequences of fields apply: the mandatory part is accepted exactly on the
encodings (`readTaskRecord_append`, `readTaskRecord_eq_ok`).

Nothing follows the downstream IDs, and their errors are swallowed, so they are
read back only if the section is whole.  `readDownstreamIDs_encode` says what
becomes of a whole section: it is read back, except that an empty last ID is
lost, since `Read` reports the end of the input even if no byte is asked for.
-/

namespace DagScheduler

open Lib Reader

/-! ## Strings -/

theorem not_neg_ofNat {n : Nat} (h : n < 2 ^ 31) : ¬ Int32.ofNat n < 0 :=
  Int32.not_lt.mpr (Int32.zero_le_ofNat_of_lt h)

section Strings

variable {s data rest : Bytes}

theorem writeString_ne_nil (s : Bytes) : writeString s ≠ [] := by
  intro h
  have hlen := congrArg List.length h
  rw [writeString, List.length_append, length_ofInt32] at hlen
  simp at hlen

/-- A string is read back, unless it is empty and at the end of the input. -/
theorem readString_append (hs : s.length < 2 ^ 31) (h : s ++ rest ≠ []) :
    readString (writeString s ++ rest) = .ok (s, rest) := by
  rw [readString, writeString, List.append_assoc, bind_of_ok (readInt32_append _ _),
    bind_of_ok (makeSlice_of_nonneg (not_neg_ofNat hs) _),
    Int32.toNatClampNeg_ofNat_of_lt hs, read_append h]

/-- An empty string at the end of the input. -/
theorem readString_empty : readString (writeString []) = .error .eof := by
  decide

theorem readString_eq_ok (h : readString data = .ok (s, rest)) :
    s.length < 2 ^ 31 ∧ (rest = [] ∨ data = writeString s ++ rest) := by
  rw [readString, Reader.bind_eq_ok_iff] at h
  obtain ⟨l, rest₁, hl, h⟩ := h
  rw [Reader.bind_eq_ok_iff] at h
  obtain ⟨n, rest₂, hn, hread⟩ := h
  have hdata := readInt32_eq_ok hl
  by_cases hneg : l < 0
  · rw [makeSlice_of_neg hneg] at hn
    cases hn
  · rw [makeSlice_of_nonneg hneg] at hn
    cases hn
    obtain ⟨hlen, hwhole⟩ := read_eq_ok hread
    refine ⟨hlen ▸ l.toNatClampNeg_lt, hwhole.imp_right fun heq => ?_⟩
    rw [hdata, heq, writeString, hlen, Int32.ofNat_toNatClampNeg l (Int32.not_lt.mp hneg),
      List.append_assoc]

theorem readString_panic_iff :
    readString data = .error .panic ↔ ∃ l rest, data = ofInt32 l ++ rest ∧ l < 0 := by
  constructor
  · intro h
    rw [readString, Reader.bind_eq_error_iff] at h
    obtain h | ⟨l, rest, hl, h⟩ := h
    · exact absurd h (readInt32_ne_panic data)
    · refine ⟨l, rest, readInt32_eq_ok hl, ?_⟩
      by_contra hneg
      rw [bind_of_ok (makeSlice_of_nonneg hneg rest)] at h
      exact read_ne_panic _ _ h
  · rintro ⟨l, rest, rfl, hneg⟩
    rw [readString, bind_of_ok (readInt32_append l rest),
      bind_of_error (makeSlice_of_neg hneg rest)]

end Strings

/-! ## The mandatory fields -/

/-- A string field. -/
def text : FieldCodec where
  read := readString
  encode := writeString
  Fits s := s.length < 2 ^ 31
  Bad data := ∃ l rest, data = ofInt32 l ++ rest ∧ l < 0
  read_nil := rfl
  read_encode _ _ hs hrest := readString_append hs (by simp [hrest])
  of_read data s rest h hrest := by
    obtain ⟨hs, hwhole⟩ := readString_eq_ok h
    exact ⟨hwhole.resolve_left hrest, hs⟩
  panic_iff _ := readString_panic_iff

/-- A field of `n` bytes. -/
def word (n : Nat) [NeZero n] : FieldCodec where
  read := readFull n
  encode := id
  Fits w := w.length = n
  Bad _ := False
  read_nil := readFull_nil (NeZero.ne n)
  read_encode _ rest hw _ := readFull_append hw rest
  of_read _ _ _ h _ := readFull_eq_ok h
  panic_iff data := by
    simp [readFull_ne_panic]

theorem strict_word (n : Nat) [NeZero n] : (word n).Strict where
  read_encode w hw := by
    have h := readFull_append hw []
    rwa [List.append_nil] at h
  of_read data w h := by
    obtain ⟨hdata, hw⟩ := readFull_eq_ok h
    exact ⟨hdata.trans (List.append_nil w), hw⟩

/-- The mandatory fields of a task record. -/
def mandatoryFields : List FieldCodec :=
  [text, text, word 4, text, word 4, word 8, text, text] ++ [word 4]

/-- The values of the mandatory fields. -/
def RawTaskRecord.values (r : RawTaskRecord) : List Bytes :=
  [r.taskID, r.workflowID, ofInt32 r.state, r.executionID, ofInt32 r.attemptCount,
    ofInt64 r.lastUpdated, r.output, r.error, ofInt32 r.inDegree]

/-- The record with these values. -/
def RawTaskRecord.ofValues : List Bytes → List Bytes → RawTaskRecord
  | [taskID, workflowID, state, executionID, attemptCount, lastUpdated, output, error,
      inDegree], ids =>
    { taskID := taskID
      workflowID := workflowID
      state := toInt32 state
      executionID := executionID
      attemptCount := toInt32 attemptCount
      lastUpdated := toInt64 lastUpdated
      output := output
      error := error
      inDegree := toInt32 inDegree
      downstreamTaskIDs := ids }
  | _, ids => ⟨[], [], 0, [], 0, 0, [], [], 0, ids⟩

theorem encodeAll_values (r : RawTaskRecord) :
    encodeAll mandatoryFields r.values = marshalMandatory r := by
  simp [mandatoryFields, RawTaskRecord.values, encodeAll, marshalMandatory, text, word]

/-- The reads of `unmarshalTaskRecord` are those of the sequence. -/
theorem readTaskRecord_eq :
    readTaskRecord = (do
      let values ← readAll mandatoryFields
      let ids ← readDownstream
      return RawTaskRecord.ofValues values ids) := by
  simp only [readTaskRecord, mandatoryFields, List.cons_append, List.nil_append, readAll,
    readInt32, readInt64, bind_assoc, pure_bind, bind_map_left, RawTaskRecord.ofValues, text, word]

theorem values_ofValues {values : List Bytes} (h : FitAll mandatoryFields values)
    (ids : List Bytes) : (RawTaskRecord.ofValues values ids).values = values := by
  simp only [FitAll, mandatoryFields, List.cons_append, List.nil_append,
    List.forall₂_cons_left_iff, List.forall₂_nil_left_iff] at h
  obtain ⟨_, _, _, ⟨_, _, _, ⟨_, _, h₃, ⟨_, _, _, ⟨_, _, h₅, ⟨_, _, h₆, ⟨_, _, _,
    ⟨_, _, _, ⟨_, _, h₉, rfl, rfl⟩, rfl⟩, rfl⟩, rfl⟩, rfl⟩, rfl⟩, rfl⟩, rfl⟩, rfl⟩ := h
  rw [RawTaskRecord.ofValues, RawTaskRecord.values, ofInt32_toInt32 h₃, ofInt32_toInt32 h₅,
    ofInt64_toInt64 h₆, ofInt32_toInt32 h₉]

/-- The mandatory part of the record that is made of the values. -/
theorem marshalMandatory_ofValues {values : List Bytes} (h : FitAll mandatoryFields values)
    (ids : List Bytes) :
    marshalMandatory (.ofValues values ids) = encodeAll mandatoryFields values := by
  rw [← encodeAll_values, values_ofValues h]

theorem downstream_ofValues (values ids : List Bytes) :
    (RawTaskRecord.ofValues values ids).downstreamTaskIDs = ids := by
  unfold RawTaskRecord.ofValues
  split <;> rfl

theorem ofValues_values (r : RawTaskRecord) (ids : List Bytes) :
    RawTaskRecord.ofValues r.values ids = { r with downstreamTaskIDs := ids } := by
  simp [RawTaskRecord.values, RawTaskRecord.ofValues]

section Record

variable {data rest rest' : Bytes} {values : List Bytes} {r : RawTaskRecord}

/-- After the mandatory part only the downstream section is left. -/
theorem readTaskRecord_append (h : FitAll mandatoryFields values) (rest : Bytes) :
    readTaskRecord (encodeAll mandatoryFields values ++ rest)
      = (readDownstream >>= fun ids => pure (RawTaskRecord.ofValues values ids)) rest := by
  have hread : readAll mandatoryFields (encodeAll mandatoryFields values ++ rest)
      = .ok (values, rest) := (readAll_ok_iff (strict_word 4)).mpr ⟨h, rfl⟩
  rw [readTaskRecord_eq, bind_of_ok hread]

theorem readTaskRecord_eq_ok (h : readTaskRecord data = .ok (r, rest')) :
    ∃ values rest ids, FitAll mandatoryFields values ∧
      data = encodeAll mandatoryFields values ++ rest ∧
      readDownstream rest = .ok (ids, rest') ∧ r = .ofValues values ids := by
  rw [readTaskRecord_eq, Reader.bind_eq_ok_iff] at h
  obtain ⟨values, rest, hread, h⟩ := h
  rw [Reader.bind_eq_ok_iff] at h
  obtain ⟨ids, _, hids, hret⟩ := h
  cases hret
  obtain ⟨hfits, hdata⟩ := (readAll_ok_iff (strict_word 4)).mp hread
  exact ⟨values, rest, ids, hfits, hdata, hids, rfl⟩

theorem readTaskRecord_panic (h : readTaskRecord data = .error .panic) :
    BadAt mandatoryFields data ∨ ∃ values rest, FitAll mandatoryFields values ∧
      data = encodeAll mandatoryFields values ++ rest ∧
      readDownstream rest = .error .panic := by
  rw [readTaskRecord_eq, Reader.bind_eq_error_iff] at h
  obtain h | ⟨values, rest, hread, h⟩ := h
  · exact .inl (readAll_panic_iff.mp h)
  · obtain ⟨hfits, hdata⟩ := (readAll_ok_iff (strict_word 4)).mp hread
    rw [Reader.bind_eq_error_iff] at h
    refine .inr ⟨values, rest, hfits, hdata, h.resolve_right ?_⟩
    rintro ⟨_, _, _, hret⟩
    cases hret

theorem readTaskRecord_of_badAt (h : BadAt mandatoryFields data) :
    readTaskRecord data = .error .panic := by
  rw [readTaskRecord_eq]
  exact bind_of_error (readAll_panic_iff.mpr h)

end Record

/-! ## The downstream section -/

/-- The count and the lengths have room in an `int32`. -/
structure WholeIDs (ids : List Bytes) : Prop where
  count : ids.length < 2 ^ 31
  lengths : ∀ id ∈ ids, id.length < 2 ^ 31

section Downstream

variable {data rest : Bytes} {ids : List Bytes} {n : Nat}

theorem readDownstreamIDs_some {id : Bytes} (h : readString data = .ok (id, rest)) :
    readDownstreamIDs (n + 1) data
      = (readDownstreamIDs n >>= fun ids => pure (id :: ids)) rest := by
  rw [readDownstreamIDs, bind_of_ok (attempt_of_ok h)]

theorem readDownstreamIDs_none {e : ReadFault} (h : readString data = .error e)
    (he : e ≠ .panic) : readDownstreamIDs (n + 1) data = .ok ([], data) := by
  rw [readDownstreamIDs, bind_of_ok (attempt_of_error h he)]
  rfl

/-- What becomes of the encodings of IDs. -/
theorem readDownstreamIDs_encode (h : ∀ id ∈ ids, id.length < 2 ^ 31) :
    ∃ rest, readDownstreamIDs ids.length (ids.map writeString).flatten
      = .ok (if ids.getLast? = some [] then ids.dropLast else ids, rest) := by
  induction ids with
  | nil => exact ⟨[], rfl⟩
  | cons id ids ih =>
    obtain ⟨rest, htail⟩ := ih fun u hu => h u (List.mem_cons_of_mem id hu)
    rw [List.map_cons, List.flatten_cons, List.length_cons]
    by_cases hend : id ++ (ids.map writeString).flatten = []
    · -- An empty ID, and nothing after it.
      obtain ⟨rfl, hnone⟩ := List.append_eq_nil_iff.mp hend
      cases ids with
      | nil => exact ⟨_, readDownstreamIDs_none readString_empty (by simp)⟩
      | cons u ids => exact absurd (List.append_eq_nil_iff.mp hnone).1 (writeString_ne_nil u)
    · rw [readDownstreamIDs_some (readString_append (h id (by simp)) hend), bind_of_ok htail]
      refine ⟨rest, congrArg (fun l => Except.ok (l, rest)) ?_⟩
      cases ids with
      | nil =>
        have hid : id ≠ [] := by simpa using hend
        simp [hid]
      | cons u ids =>
        rw [List.getLast?_cons_cons, List.dropLast_cons_cons]
        split <;> rfl

theorem readDownstreamIDs_length (h : readDownstreamIDs n data = .ok (ids, rest)) :
    ids.length ≤ n ∧ ∀ id ∈ ids, id.length < 2 ^ 31 := by
  induction n generalizing data ids with
  | zero =>
    cases h
    simp
  | succ n ih =>
    cases hread : readString data with
    | error e =>
      by_cases he : e = .panic
      · subst he
        rw [readDownstreamIDs, bind_of_error (attempt_of_panic hread)] at h
        cases h
      · rw [readDownstreamIDs_none hread he] at h
        cases h
        simp
    | ok out =>
      obtain ⟨id, rest₁⟩ := out
      rw [readDownstreamIDs_some hread, Reader.bind_eq_ok_iff] at h
      obtain ⟨ids', rest₂, htail, hret⟩ := h
      cases hret
      obtain ⟨hlen, hall⟩ := ih htail
      refine ⟨by simpa using hlen, fun u hu => ?_⟩
      rcases List.mem_cons.mp hu with rfl | hu
      · exact (readString_eq_ok hread).1
      · exact hall u hu

/-- A record that ends before the count. -/
theorem readDownstream_nil : readDownstream [] = .ok ([], []) := rfl

theorem readDownstream_count {count : Int32} (hcount : ¬ count < 0) (rest : Bytes) :
    readDownstream (ofInt32 count ++ rest)
      = readDownstreamIDs count.toNatClampNeg rest := by
  rw [readDownstream, bind_of_ok (attempt_of_ok (readInt32_append count rest))]
  exact bind_of_ok (makeSlice_of_nonneg hcount rest)

/-- What becomes of a whole section. -/
theorem readDownstream_encode (h : WholeIDs ids) :
    ∃ rest, readDownstream (marshalDownstream ids)
      = .ok (if ids.getLast? = some [] then ids.dropLast else ids, rest) := by
  obtain ⟨rest, hread⟩ := readDownstreamIDs_encode h.lengths
  refine ⟨rest, ?_⟩
  rw [marshalDownstream, readDownstream_count (not_neg_ofNat h.count),
    Int32.toNatClampNeg_ofNat_of_lt h.count, hread]

theorem readDownstream_negative {count : Int32} (hcount : count < 0) (rest : Bytes) :
    readDownstream (ofInt32 count ++ rest) = .error .panic := by
  rw [readDownstream, bind_of_ok (attempt_of_ok (readInt32_append count rest))]
  exact bind_of_error (makeSlice_of_neg hcount rest)

/-- The loop swallows every error. -/
theorem readDownstreamIDs_cases (n : Nat) (data : Bytes) :
    readDownstreamIDs n data = .error .panic ∨
      ∃ ids rest, readDownstreamIDs n data = .ok (ids, rest) := by
  induction n generalizing data with
  | zero => exact .inr ⟨[], data, rfl⟩
  | succ n ih =>
    cases hread : readString data with
    | error e =>
      by_cases he : e = .panic
      · subst he
        left
        rw [readDownstreamIDs, bind_of_error (attempt_of_panic hread)]
      · exact .inr ⟨[], data, readDownstreamIDs_none hread he⟩
    | ok out =>
      obtain ⟨id, rest⟩ := out
      rw [readDownstreamIDs_some hread]
      rcases ih rest with hpanic | ⟨ids, rest', htail⟩
      · exact .inl (bind_of_error hpanic)
      · exact .inr ⟨id :: ids, rest', bind_of_ok htail⟩

/-- So does the section as a whole. -/
theorem readDownstream_cases (data : Bytes) :
    readDownstream data = .error .panic ∨
      ∃ ids rest, readDownstream data = .ok (ids, rest) := by
  cases hread : readInt32 data with
  | error e =>
    have he : e ≠ .panic := by
      rintro rfl
      exact readInt32_ne_panic data hread
    refine .inr ⟨[], data, ?_⟩
    rw [readDownstream, bind_of_ok (attempt_of_error hread he)]
    rfl
  | ok out =>
    obtain ⟨count, rest⟩ := out
    rw [readInt32_eq_ok hread]
    by_cases hcount : count < 0
    · exact .inl (readDownstream_negative hcount rest)
    · rw [readDownstream_count hcount]
      exact readDownstreamIDs_cases _ rest

/-- Only whole sections without an empty last ID are read back. -/
theorem wholeIDs_of_readDownstream
    (h : readDownstream (marshalDownstream ids) = .ok (ids, rest)) :
    WholeIDs ids ∧ ids.getLast? ≠ some [] := by
  have hcount : ¬ Int32.ofNat ids.length < 0 := by
    intro hneg
    rw [marshalDownstream, readDownstream_negative hneg] at h
    cases h
  have hwhole : WholeIDs ids := by
    rw [marshalDownstream, readDownstream_count hcount] at h
    obtain ⟨hlen, hall⟩ := readDownstreamIDs_length h
    exact ⟨lt_of_le_of_lt hlen (Int32.toNatClampNeg_lt _), hall⟩
  refine ⟨hwhole, fun hlast => ?_⟩
  obtain ⟨rest', hread⟩ := readDownstream_encode hwhole
  rw [h, if_pos hlast] at hread
  have hlen : ids.length = ids.dropLast.length :=
    congrArg (fun out => out.1.length) (Except.ok.inj hread)
  have hpos : 0 < ids.length := by
    cases ids with
    | nil => cases hlast
    | cons id ids => simp
  rw [List.length_dropLast] at hlen
  omega

end Downstream

end DagScheduler
