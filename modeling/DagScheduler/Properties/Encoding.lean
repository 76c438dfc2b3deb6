import DagScheduler.Store.Codec

/-!
# The task record codec

Every record that the store can hold is read back (`unmarshal_marshal`), also
from the old format, which ends before the downstream count.  This is what
allows the model of the store to keep records in place of bytes:
`Store.Linked.readBack` is the round trip for the records of a store.

The other direction fails.  `unmarshalTaskRecord` allocates what a length asks
for, so a negative one is a panic, and it swallows every error after the
in-degree, on purpose, for the sake of old records.  A record that is cut or
damaged there is accepted, with a shorter downstream list or a changed last ID.
`Undamaged` describes the inputs on which neither happens.
-/

namespace DagScheduler

open Lib Reader

/-! ## Round trips -/

/-- The strings and the downstream list are shorter than 2^31, and no
downstream ID is empty. -/
structure RawTaskRecord.Storable (r : RawTaskRecord) : Prop where
  strings : ∀ s ∈ [r.taskID, r.workflowID, r.executionID, r.output, r.error],
    s.length < 2 ^ 31
  count : r.downstreamTaskIDs.length < 2 ^ 31
  lengths : ∀ id ∈ r.downstreamTaskIDs, id.length < 2 ^ 31
  nonempty : ∀ id ∈ r.downstreamTaskIDs, id ≠ []

variable {r : RawTaskRecord}

theorem RawTaskRecord.Storable.fitAll (h : r.Storable) : FitAll mandatoryFields r.values := by
  have hstring : ∀ s ∈ [r.taskID, r.workflowID, r.executionID, r.output, r.error],
      text.Fits s := h.strings
  simp only [List.forall_mem_cons, List.not_mem_nil, false_imp_iff, implies_true,
    and_true] at hstring
  obtain ⟨htask, hworkflow, hexec, houtput, herror⟩ := hstring
  have hword : ∀ x : Int32, (word 4).Fits (ofInt32 x) := length_ofInt32
  exact .cons htask (.cons hworkflow (.cons (hword _) (.cons hexec (.cons (hword _)
    (.cons (length_ofInt64 _) (.cons houtput (.cons herror (.cons (hword _) .nil))))))))

/-- The mandatory part of a record and what follows it. -/
theorem unmarshal_mandatory (h : FitAll mandatoryFields r.values) {rest rest' : Bytes}
    {ids : List Bytes} (hids : readDownstream rest = .ok (ids, rest')) :
    unmarshalTaskRecord (marshalMandatory r ++ rest)
      = .ok { r with downstreamTaskIDs := ids } := by
  rw [unmarshalTaskRecord, ← encodeAll_values, readTaskRecord_append h, bind_of_ok hids,
    ofValues_values]
  rfl

/-- A storable record is read back. -/
theorem unmarshal_marshal (h : r.Storable) :
    unmarshalTaskRecord (marshalTaskRecord r) = .ok r := by
  obtain ⟨rest, hids⟩ := readDownstream_encode ⟨h.count, h.lengths⟩
  have hlast : r.downstreamTaskIDs.getLast? ≠ some [] := fun hlast =>
    h.nonempty [] (List.mem_of_getLast? hlast) rfl
  rw [if_neg hlast] at hids
  exact unmarshal_mandatory h.fitAll hids

/-- For every storable record the encoding is read back, and the encoding in the
old format is read as the record without its downstream tasks. -/
theorem codec_roundTrip {r : RawTaskRecord} (h : r.Storable) :
    unmarshalTaskRecord (marshalTaskRecord r) = .ok r ∧
      unmarshalTaskRecord (marshalMandatory r)
        = .ok { r with downstreamTaskIDs := [] } := by
  refine ⟨unmarshal_marshal h, ?_⟩
  have hold := unmarshal_mandatory h.fitAll readDownstream_nil
  rwa [List.append_nil] at hold

/-- A record with empty strings, bytes that are no text and negative numbers. -/
def oddRecord : RawTaskRecord where
  taskID := [0x61]
  workflowID := []
  state := -7
  executionID := [0xff, 0x00]
  attemptCount := -1
  lastUpdated := -1
  output := []
  error := []
  inDegree := 0
  downstreamTaskIDs := [[0x62], [0x63, 0x64]]

theorem codec_roundTrip_oddRecord :
    unmarshalTaskRecord (marshalTaskRecord oddRecord) = .ok oddRecord ∧
      unmarshalTaskRecord (marshalMandatory oddRecord)
        = .ok { oddRecord with downstreamTaskIDs := [] } :=
  codec_roundTrip ⟨by decide, by decide, by decide, by decide⟩

/-! ## The records of the store -/

theorem stringBytes_injective : Function.Injective stringBytes := by
  intro s s' h
  exact String.toByteArray_inj.mp (ByteArray.ext (Array.toList_inj.mp h))

theorem length_stringBytes (s : String) : (stringBytes s).length = s.utf8ByteSize := rfl

theorem TaskState.number_injective : Function.Injective TaskState.number := by
  intro a b h
  revert h
  cases a <;> cases b <;> decide

/-- The downstream IDs of a stored record are keys of the bucket. -/
theorem Store.Linked.validKey_downstream {s : Store} (hl : s.Linked) {t u : String}
    {r : TaskStateRecord} (hr : s.taskState[t]? = some r) (hu : u ∈ r.downstreamTaskIDs) :
    validKey u = true := by
  have hdep := (hl.mem_downstream hr).mp hu
  cases hru : s.taskState[u]? with
  | none =>
    rw [depsOf_absent hru] at hdep
    cases hdep
  | some ru => exact (hl.keyed u ru hru).2

/-- A record of the store is read back as it was written. -/
theorem Store.Linked.readBack {s : Store} (hl : s.Linked) {t : String}
    {r : TaskStateRecord} (hr : s.taskState[t]? = some r)
    (hstrings : ∀ str ∈ [r.taskID, r.workflowID, r.executionID, r.output, r.error],
      str.utf8ByteSize < 2 ^ 31)
    (hcount : r.downstreamTaskIDs.length < 2 ^ 31) :
    unmarshalTaskRecord (marshalTaskRecord r.raw) = .ok r.raw := by
  have hkey : ∀ u ∈ r.downstreamTaskIDs, u ≠ "" ∧ u.utf8ByteSize ≤ maxKeySize :=
    fun u hu => validKey_iff.mp (hl.validKey_downstream hr hu)
  refine unmarshal_marshal ⟨?_, ?_, ?_, ?_⟩
  · intro bytes hbytes
    obtain ⟨str, hstr, rfl⟩ : ∃ str ∈ [r.taskID, r.workflowID, r.executionID, r.output,
        r.error], stringBytes str = bytes := List.mem_map.mp hbytes
    exact hstrings str hstr
  · exact (List.length_map _).trans_lt hcount
  · intro bytes hbytes
    obtain ⟨u, hu, rfl⟩ := List.mem_map.mp hbytes
    have hsize := (hkey u hu).2
    rw [length_stringBytes]
    unfold maxKeySize at hsize
    omega
  · intro bytes hbytes hnil
    obtain ⟨u, hu, rfl⟩ := List.mem_map.mp hbytes
    exact (hkey u hu).1 (stringBytes_injective hnil)

/-! ## Damaged records -/

/-- The decoder does not panic, and accepts the input only as the encoding of
its result, in the current or in the old format. -/
structure AcceptsOnlyEncoding (data : Bytes) : Prop where
  noPanic : unmarshalTaskRecord data ≠ .error .panic
  encoded : ∀ r, unmarshalTaskRecord data = .ok r →
    data = marshalTaskRecord r ∨ data = marshalMandatory r

/-- No length in the mandatory part is negative, and if that part is whole, it
is followed by nothing, or by a count and exactly that many whole strings, the
last of them not empty. -/
structure Undamaged (data : Bytes) : Prop where
  lengths : ¬ BadAt mandatoryFields data
  trailer : ∀ values rest, FitAll mandatoryFields values →
    data = encodeAll mandatoryFields values ++ rest →
    rest = [] ∨ ∃ ids, WholeIDs ids ∧ ids.getLast? ≠ some [] ∧ rest = marshalDownstream ids

variable {data : Bytes}

theorem unmarshal_eq_ok_iff :
    unmarshalTaskRecord data = .ok r ↔ ∃ rest, readTaskRecord data = .ok (r, rest) := by
  rw [unmarshalTaskRecord]
  cases readTaskRecord data with
  | error e => simp [Except.map]
  | ok out =>
    obtain ⟨r', rest⟩ := out
    simp [Except.map]

theorem unmarshal_panic_iff :
    unmarshalTaskRecord data = .error .panic ↔ readTaskRecord data = .error .panic := by
  rw [unmarshalTaskRecord]
  cases readTaskRecord data <;> simp [Except.map]

theorem Undamaged.noPanic (h : Undamaged data) :
    unmarshalTaskRecord data ≠ .error .panic := by
  rw [Ne, unmarshal_panic_iff]
  intro hpanic
  rcases readTaskRecord_panic hpanic with hbad | ⟨values, rest, hfits, hdata, hpanic⟩
  · exact h.lengths hbad
  · rcases h.trailer values rest hfits hdata with rfl | ⟨ids, hwhole, _, rfl⟩
    · cases hpanic
    · obtain ⟨rest', hread⟩ := readDownstream_encode hwhole
      rw [hread] at hpanic
      cases hpanic

theorem Undamaged.encoded (h : Undamaged data) (hr : unmarshalTaskRecord data = .ok r) :
    data = marshalTaskRecord r ∨ data = marshalMandatory r := by
  obtain ⟨rest', hread⟩ := unmarshal_eq_ok_iff.mp hr
  obtain ⟨values, rest, ids, hfits, hdata, hids, rfl⟩ := readTaskRecord_eq_ok hread
  have hmandatory := marshalMandatory_ofValues hfits ids
  rcases h.trailer values rest hfits hdata with rfl | ⟨ids', hwhole, hlast, rfl⟩
  · right
    rw [hdata, List.append_nil, hmandatory]
  · left
    obtain ⟨_, hread'⟩ := readDownstream_encode hwhole
    rw [hids, if_neg hlast] at hread'
    cases hread'
    rw [hdata, marshalTaskRecord, hmandatory, downstream_ofValues]

/-- For every input: it is accepted only as an encoding, and without a panic,
if and only if it is undamaged. -/
theorem acceptsOnlyEncoding_iff (data : Bytes) :
    AcceptsOnlyEncoding data ↔ Undamaged data := by
  refine ⟨fun h => ⟨fun hbad => ?_, fun values rest hfits hdata => ?_⟩,
    fun h => ⟨h.noPanic, fun r hr => h.encoded hr⟩⟩
  · exact h.noPanic (unmarshal_panic_iff.mpr (readTaskRecord_of_badAt hbad))
  · have hread := readTaskRecord_append hfits rest
    rw [← hdata] at hread
    rcases readDownstream_cases rest with hpanic | ⟨ids, rest', hids⟩
    · rw [bind_of_error hpanic] at hread
      exact absurd (unmarshal_panic_iff.mpr hread) h.noPanic
    · rw [bind_of_ok hids] at hread
      have hmandatory := marshalMandatory_ofValues hfits ids
      rcases h.encoded _ (unmarshal_eq_ok_iff.mpr ⟨rest', hread⟩) with henc | henc
      · right
        rw [hdata, marshalTaskRecord, hmandatory, downstream_ofValues] at henc
        have hrest := List.append_cancel_left henc
        subst hrest
        obtain ⟨hwhole, hlast⟩ := wholeIDs_of_readDownstream hids
        exact ⟨ids, hwhole, hlast, rfl⟩
      · left
        rw [hdata, hmandatory] at henc
        exact List.append_right_eq_self.mp henc

/-- The encoding of a record without its last `n` bytes. -/
def cutRecord (n : Nat) : Bytes :=
  (marshalTaskRecord oddRecord).take ((marshalTaskRecord oddRecord).length - n)

/-- Without its last byte the record is accepted with another last ID, and
without its last two bytes with a shorter list.  A negative length is a
panic. -/
theorem not_acceptsOnlyEncoding_cutRecord :
    ¬ AcceptsOnlyEncoding (cutRecord 1) ∧ ¬ AcceptsOnlyEncoding (cutRecord 2) ∧
      ¬ AcceptsOnlyEncoding (ofInt32 (-1)) := by
  refine ⟨fun h => ?_, fun h => ?_, fun h => h.noPanic (by decide)⟩
  · have hpadded : unmarshalTaskRecord (cutRecord 1)
        = .ok { oddRecord with downstreamTaskIDs := [[0x62], [0x63, 0x00]] } := by decide
    exact absurd (h.encoded _ hpadded) (by decide)
  · have hshort : unmarshalTaskRecord (cutRecord 2)
        = .ok { oddRecord with downstreamTaskIDs := [[0x62]] } := by decide
    exact absurd (h.encoded _ hshort) (by decide)

end DagScheduler
