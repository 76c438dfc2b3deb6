import DagScheduler.Lib.Refine
import DagScheduler.Lib.Rekey
import DagScheduler.Lib.Utf8Order
import DagScheduler.Model.Disk
import DagScheduler.Model.Service
import DagScheduler.Properties.Unchecked

/-!
# The transactions on bytes and on records

`Store.encode` is the file that holds the records of a store.  Every transaction
on the file does to it what the transaction of the same name does to the store
(`StoreOp.implements`), as long as the store is `Readable`: the strings of a
record are short enough for the format, and no downstream ID is empty.

The limits here are simple ones that keep a record below bbolt's limit of
`2 ^ 31 - 2` bytes: `2 ^ 27` bytes for one string, and `2 ^ 30` for a downstream
list.  A gRPC message has at most 4 MiB unless the server asks for more, so no
string that reaches the coordinator comes near them.
-/

namespace DagScheduler

open Lib

/-! ## Strings and numbers -/

theorem keepsOrder_stringBytes : KeepsOrder stringBytes := compare_utf8

theorem text?_stringBytes (s : String) : text? (stringBytes s) = some s := by
  have h : (⟨(stringBytes s).toArray⟩ : ByteArray) = s.toUTF8 := rfl
  rw [text?, h, String.fromUTF8?, dif_pos]
  rfl

theorem stringBytes_eq_nil_iff {s : String} : stringBytes s = [] ↔ s = "" :=
  stringBytes_injective.eq_iff' rfl

theorem TaskState.ofNumber?_number (state : TaskState) :
    TaskState.ofNumber? state.number = some state := by cases state <;> decide

theorem WorkflowState.ofNumber?_number (state : WorkflowState) :
    WorkflowState.ofNumber? state.number = some state := by cases state <;> decide

theorem terminal_number (state : TaskState) :
    Disk.terminal state.number = state.terminal := by cases state <;> decide

/-! ## Records that the format can carry -/

/-- The longest string of a record. -/
def maxText : Nat := 2 ^ 27

/-- The bytes of a list of IDs. -/
def idBytes (ids : List String) : Nat := (ids.map fun id => 4 + id.utf8ByteSize).sum

/-- A record that is short enough for one value. -/
structure TaskStateRecord.Short (r : TaskStateRecord) : Prop where
  taskID : r.taskID.utf8ByteSize ≤ maxText
  workflowID : r.workflowID.utf8ByteSize ≤ maxText
  executionID : r.executionID.utf8ByteSize ≤ maxText
  output : r.output.utf8ByteSize ≤ maxText
  error : r.error.utf8ByteSize ≤ maxText
  downstream : idBytes r.downstreamTaskIDs ≤ 2 ^ 30

/-- A record that is short enough and can be read back. -/
structure TaskStateRecord.Readable (r : TaskStateRecord) : Prop extends r.Short where
  nonempty : ∀ id ∈ r.downstreamTaskIDs, id ≠ ""

theorem idBytes_cons (id : String) (ids : List String) :
    idBytes (id :: ids) = 4 + id.utf8ByteSize + idBytes ids := List.sum_cons

theorem length_le_idBytes (ids : List String) : ids.length ≤ idBytes ids := by
  induction ids with
  | nil => exact Nat.le_refl _
  | cons id ids ih =>
    rw [idBytes_cons, List.length_cons]
    omega

theorem le_idBytes {ids : List String} {id : String} (h : id ∈ ids) :
    id.utf8ByteSize ≤ idBytes ids := by
  have hle := List.single_le_sum (fun _ _ => Nat.zero_le _) _
    (List.mem_map_of_mem (f := fun id : String => 4 + id.utf8ByteSize) h)
  exact (Nat.le_add_left _ _).trans hle

theorem length_writeString (b : Bytes) : (writeString b).length = 4 + b.length := by
  rw [writeString, List.length_append, length_ofInt32]

theorem length_marshalDownstream (ids : List String) :
    (marshalDownstream (ids.map stringBytes)).length = 4 + idBytes ids := by
  rw [marshalDownstream, List.length_append, length_ofInt32, List.length_flatten, List.map_map,
    List.map_map, idBytes]
  congr 2
  apply List.map_congr_left
  intro id _
  exact length_writeString _

theorem TaskStateRecord.Short.strings {r : TaskStateRecord} (h : r.Short) :
    ∀ str ∈ [r.taskID, r.workflowID, r.executionID, r.output, r.error],
      str.utf8ByteSize ≤ maxText := by
  simp only [List.forall_mem_cons, List.not_mem_nil, false_imp_iff, implies_true, and_true]
  exact ⟨h.taskID, h.workflowID, h.executionID, h.output, h.error⟩

theorem TaskStateRecord.Short.length_le {r : TaskStateRecord} (h : r.Short) :
    (marshalTaskRecord r.raw).length ≤ Disk.maxValueSize := by
  obtain ⟨h₁, h₂, h₃, h₄, h₅, hdown⟩ := h
  unfold maxText at h₁ h₂ h₃ h₄ h₅
  simp only [marshalTaskRecord, marshalMandatory, List.length_append, length_writeString,
    length_ofInt32, length_ofInt64, TaskStateRecord.raw, length_marshalDownstream,
    length_stringBytes, Disk.maxValueSize]
  omega

theorem TaskStateRecord.Readable.unmarshal {r : TaskStateRecord} (h : r.Readable) :
    unmarshalTaskRecord (marshalTaskRecord r.raw) = .ok r.raw := by
  have hdown := h.downstream
  refine unmarshal_marshal ⟨?_, ?_, ?_, ?_⟩
  · intro bytes hbytes
    obtain ⟨str, hstr, rfl⟩ : ∃ str ∈ [r.taskID, r.workflowID, r.executionID, r.output,
        r.error], stringBytes str = bytes := List.mem_map.mp hbytes
    have hle := h.strings str hstr
    rw [length_stringBytes]
    unfold maxText at hle
    omega
  · have hle := length_le_idBytes r.downstreamTaskIDs
    have hlen : r.raw.downstreamTaskIDs.length = r.downstreamTaskIDs.length := List.length_map _
    omega
  · intro bytes hbytes
    obtain ⟨id, hid, rfl⟩ := List.mem_map.mp hbytes
    have hle := le_idBytes hid
    rw [length_stringBytes]
    omega
  · intro bytes hbytes hnil
    obtain ⟨id, hid, rfl⟩ := List.mem_map.mp hbytes
    exact h.nonempty id hid (stringBytes_eq_nil_iff.mp hnil)

theorem mapM_text? (ids : List String) : (ids.map stringBytes).mapM text? = some ids := by
  induction ids with
  | nil => rfl
  | cons id ids ih =>
    rw [List.map_cons, List.mapM_cons, text?_stringBytes, ih]
    rfl

theorem TaskStateRecord.record?_raw (r : TaskStateRecord) : r.raw.record? = some r := by
  simp only [RawTaskRecord.record?, TaskStateRecord.raw, text?_stringBytes, mapM_text?,
    TaskState.ofNumber?_number]
  rfl

theorem WorkflowStateRecord.record?_raw (r : WorkflowStateRecord) :
    r.raw.record? = some r := by
  simp only [RawWorkflowStateRecord.record?, WorkflowStateRecord.raw, text?_stringBytes,
    WorkflowState.ofNumber?_number]
  rfl

/-! ## The file of a store -/

/-- The file that holds the records. -/
def Store.encode (codec : SpecCodec) (s : Store) : Disk where
  workflows := Table.encode stringBytes codec.marshal s.workflows
  workflowState := Table.encode stringBytes (fun r => marshalWorkflowState r.raw)
    s.workflowState
  taskState := Table.encode stringBytes (fun r => marshalTaskRecord r.raw) s.taskState

/-- The protobuf package can write the specification, and read it back. -/
structure SpecCodec.Carries (codec : SpecCodec) (wf : WorkflowSpec) : Prop where
  readBack : codec.unmarshal (codec.marshal wf) = some wf
  length_le : (codec.marshal wf).length ≤ Disk.maxValueSize

/-- Every record of the store can be read back. -/
structure Store.Readable (codec : SpecCodec) (s : Store) : Prop where
  workflows : ∀ (id : String) (wf : WorkflowSpec), s.workflows[id]? = some wf →
    codec.unmarshal (codec.marshal wf) = some wf
  states : ∀ (id : String) (r : WorkflowStateRecord), s.workflowState[id]? = some r →
    r.workflowID.utf8ByteSize ≤ maxText
  tasks : ∀ (t : String) (r : TaskStateRecord), s.taskState[t]? = some r → r.Readable

variable {codec : SpecCodec} {s : Store}

theorem Store.encode_workflows (id : String) :
    (s.encode codec).workflows[stringBytes id]? = s.workflows[id]?.map codec.marshal := by
  rw [Store.encode, Table.get_encode keepsOrder_stringBytes]

theorem Store.encode_workflowState (id : String) :
    (s.encode codec).workflowState[stringBytes id]?
      = s.workflowState[id]?.map fun r => marshalWorkflowState r.raw := by
  rw [Store.encode, Table.get_encode keepsOrder_stringBytes]

theorem Store.encode_taskState (t : String) :
    (s.encode codec).taskState[stringBytes t]?
      = s.taskState[t]?.map fun r => marshalTaskRecord r.raw := by
  rw [Store.encode, Table.get_encode keepsOrder_stringBytes]

/-- The transaction on the file does what the transaction on the store does. -/
abbrev OnDisk (codec : SpecCodec) (J : Store → Prop) {α β : Type} (g : α → β) (tx : Tx α)
    (tx' : DiskTx β) (s : Store) : Prop :=
  Implements (Store.encode codec) DiskError.store J g tx tx' s

/-! ## `Put` -/

theorem onDisk_checkKey {J : Store → Prop} {key : String} {value : Bytes}
    (hvalue : Store.validKey key = true → value.length ≤ Disk.maxValueSize) (hs : J s) :
    OnDisk codec (fun s' => J s' ∧ Store.validKey key = true) id (Store.checkKey key)
      (Disk.checkPut (stringBytes key) value) s := by
  rw [Store.checkKey, Disk.checkPut, length_stringBytes]
  by_cases hempty : key = ""
  · rw [if_pos hempty, if_pos (stringBytes_eq_nil_iff.mpr hempty)]
    exact implements_throw rfl
  · rw [if_neg hempty, if_neg (mt stringBytes_eq_nil_iff.mp hempty)]
    by_cases hlong : Store.maxKeySize < key.utf8ByteSize
    · rw [if_pos hlong, if_pos hlong]
      exact implements_throw rfl
    · have hkey := Store.validKey_iff.mpr ⟨hempty, Nat.not_lt.mp hlong⟩
      rw [if_neg hlong, if_neg hlong, if_neg (Nat.not_lt.mpr (hvalue hkey))]
      exact implements_pure rfl ⟨hs, hkey⟩

theorem Store.encode_setTask (t : String) (r : TaskStateRecord) :
    { s.encode codec with
      taskState := (s.encode codec).taskState.insert (stringBytes t) (marshalTaskRecord r.raw) }
      = (s.setTask t r).encode codec := by
  rw [Store.encode, Store.encode]
  simp only [Store.setTask, Table.encode_insert keepsOrder_stringBytes]

theorem Store.encode_setWorkflowState (id : String) (r : WorkflowStateRecord) :
    { s.encode codec with
      workflowState := (s.encode codec).workflowState.insert (stringBytes id)
        (marshalWorkflowState r.raw) } = (s.setWorkflowState id r).encode codec := by
  rw [Store.encode, Store.encode]
  simp only [Store.setWorkflowState, Table.encode_insert keepsOrder_stringBytes]

/-- `Put` of a record that is short enough. -/
theorem onDisk_putTask {J : Store → Prop} {t : String} {r : TaskStateRecord} (hr : r.Short)
    (hput : Store.validKey t = true → J (s.setTask t r)) :
    OnDisk codec J id (Store.putTask t r) (Disk.putTask (stringBytes t) r.raw) s := by
  rw [Store.putTask, Disk.putTask]
  refine (onDisk_checkKey (J := (· = s)) (fun _ => hr.length_le) rfl).bind ?_
  rintro _ s' ⟨rfl, hkey⟩
  exact implements_modify (Store.encode_setTask t r) (hput hkey)

theorem length_marshalWorkflowState (r : WorkflowStateRecord) :
    (marshalWorkflowState r.raw).length = 24 + r.workflowID.utf8ByteSize := by
  simp only [marshalWorkflowState, List.length_append, length_writeString, length_ofInt32,
    length_ofInt64, WorkflowStateRecord.raw, length_stringBytes]
  omega

theorem onDisk_putWorkflowState {J : Store → Prop} {i : String} {r : WorkflowStateRecord}
    (hr : Store.validKey i = true → r.workflowID.utf8ByteSize ≤ maxText)
    (hput : Store.validKey i = true → J (s.setWorkflowState i r)) :
    OnDisk codec J id (Store.putWorkflowState i r)
      (Disk.putWorkflowState (stringBytes i) r.raw) s := by
  have hlength : Store.validKey i = true →
      (marshalWorkflowState r.raw).length ≤ Disk.maxValueSize := by
    intro hkey
    have hle := hr hkey
    rw [length_marshalWorkflowState]
    unfold maxText at hle
    unfold Disk.maxValueSize
    omega
  rw [Store.putWorkflowState, Disk.putWorkflowState]
  refine (onDisk_checkKey (J := (· = s)) hlength rfl).bind ?_
  rintro _ s' ⟨rfl, hkey⟩
  exact implements_modify (Store.encode_setWorkflowState i r) (hput hkey)

/-! ## Reading a record -/

theorem decoded_ok_bind {α β : Type} {result : Except ReadFault α} {a : α}
    (h : result = .ok a) (k : α → DiskTx β) :
    (liftM (Disk.decoded result) >>= k : DiskTx β) = k a := by
  rw [h]
  rfl

theorem unmarshal_state {r : WorkflowStateRecord} (hr : r.workflowID.utf8ByteSize ≤ maxText) :
    unmarshalWorkflowState (marshalWorkflowState r.raw) = .ok r.raw := by
  apply restores_readWorkflowState.decode_encode_iff.mpr
  rw [WorkflowStateRecord.raw, length_stringBytes]
  unfold maxText at hr
  omega

/-! ## Transactions that rewrite one record -/

theorem Store.Readable.setTask (h : s.Readable codec) {r : TaskStateRecord}
    (hr : r.Readable) (t : String) : (s.setTask t r).Readable codec := by
  refine ⟨h.workflows, h.states, fun u r' hget => ?_⟩
  rw [Store.get_setTask] at hget
  split at hget
  · cases hget
    exact hr
  · exact h.tasks u r' hget

theorem Store.Readable.setWorkflowState (h : s.Readable codec) {r : WorkflowStateRecord}
    (hr : r.workflowID.utf8ByteSize ≤ maxText) (id : String) :
    (s.setWorkflowState id r).Readable codec := by
  refine ⟨h.workflows, fun i r' hget => ?_, h.tasks⟩
  rw [Store.get_setWorkflowState] at hget
  split at hget
  · cases hget
    exact hr
  · exact h.states i r' hget

theorem onDisk_modifyTask (h : s.Readable codec) (t : String)
    {f : TaskStateRecord → TaskStateRecord} {f' : RawTaskRecord → RawTaskRecord}
    (hf : ∀ r, (f r).raw = f' r.raw) (hread : ∀ r, r.Readable → (f r).Readable) :
    OnDisk codec (Store.Readable codec) id (Store.modifyTask t f)
      (Disk.modifyTask (stringBytes t) f') s := by
  rw [Store.modifyTask, Disk.modifyTask]
  apply implements_get_bind
  rw [Store.encode_taskState]
  cases hr : s.taskState[t]? with
  | none => exact implements_throw rfl
  | some r =>
    have hr' := h.tasks t r hr
    simp only [Option.map_some]
    rw [decoded_ok_bind hr'.unmarshal, ← hf]
    exact onDisk_putTask (hread r hr').toShort fun _ => h.setTask (hread r hr') t

theorem Store.decrement_raw (now : Int64) (r : TaskStateRecord) :
    (Store.decrement now r).raw = Disk.decrement now r.raw := by
  simp only [Store.decrement, Disk.decrement, TaskStateRecord.raw, RawTaskRecord.mk.injEq,
    true_and, and_true]
  exact ⟨apply_ite _ _ _ _, rfl⟩

theorem Store.decrement_readable (now : Int64) {r : TaskStateRecord} (h : r.Readable) :
    (Store.decrement now r).Readable :=
  ⟨⟨h.taskID, h.workflowID, h.executionID, h.output, h.error, h.downstream⟩, h.nonempty⟩

/-! ## `CompleteTask` -/

theorem TaskState.number_eq_iff {a b : TaskState} : a.number = b.number ↔ a = b :=
  TaskState.number_injective.eq_iff

theorem onDisk_unlockDownstream (now : Int64) (ready : List String) (u : String)
    (h : s.Readable codec) :
    OnDisk codec (Store.Readable codec) (List.map stringBytes)
      (Store.unlockDownstream now ready u)
      (Disk.unlockDownstream now (ready.map stringBytes) (stringBytes u)) s := by
  rw [Store.unlockDownstream, Disk.unlockDownstream]
  apply implements_get_bind
  rw [Store.encode_taskState]
  cases hr : s.taskState[u]? with
  | none => exact implements_pure rfl h
  | some ds =>
    have hds := h.tasks u ds hr
    have hstate : ds.raw.state = ds.state.number := rfl
    simp only [Option.map_some, hds.unmarshal, hstate, Ne, TaskState.number_eq_iff]
    by_cases hp : ds.state = .pending
    · rw [if_neg (not_not.mpr hp), if_neg (not_not.mpr hp), ← Store.decrement_raw]
      have hnew := Store.decrement_readable now hds
      refine (onDisk_putTask hnew.toShort fun _ => h.setTask hnew u).bind fun _ s' hs' => ?_
      refine implements_pure ?_ hs'
      have hin : (Store.decrement now ds).raw.inDegree = (Store.decrement now ds).inDegree := rfl
      rw [hin]
      split
      · exact List.map_append
      · rfl
    · rw [if_pos hp, if_pos hp]
      exact implements_pure rfl h

theorem onDisk_completeTask (h : s.Readable codec) (now : Int64) (t e : String)
    {output : String} (hout : output.utf8ByteSize ≤ maxText) :
    OnDisk codec (Store.Readable codec) (List.map stringBytes)
      (Store.completeTask now t e output)
      (Disk.completeTask now (stringBytes t) (stringBytes e) (stringBytes output)) s := by
  rw [Store.completeTask, Disk.completeTask]
  apply implements_get_bind
  rw [Store.encode_taskState]
  cases hr : s.taskState[t]? with
  | none => exact implements_throw rfl
  | some r =>
    have hread := h.tasks t r hr
    have hexec : r.raw.executionID = stringBytes r.executionID := rfl
    have hstate : r.raw.state = r.state.number := rfl
    simp only [Option.map_some]
    rw [decoded_ok_bind hread.unmarshal, hexec, hstate]
    simp only [Ne, stringBytes_injective.eq_iff, TaskState.number_eq_iff]
    by_cases he : r.executionID = e
    · rw [if_neg (not_not.mpr he), if_neg (not_not.mpr he)]
      by_cases hc : r.state = .complete
      · rw [if_pos hc, if_pos hc]
        exact implements_pure rfl h
      · rw [if_neg hc, if_neg hc]
        have hnew : ({ r with state := .complete, output := output, lastUpdated := now } :
            TaskStateRecord).Readable :=
          ⟨{ hread.toShort with output := hout }, hread.nonempty⟩
        have hput : OnDisk codec (·.Readable codec) id _ _ s :=
          onDisk_putTask hnew.toShort fun _ => h.setTask hnew t
        refine hput.bind fun _ s' hs' => ?_
        exact implements_foldlM (fun ready u _ s'' hs'' =>
          onDisk_unlockDownstream now ready u hs'') hs'
    · rw [if_pos he, if_pos he]
      exact implements_throw rfl

/-! ## `CancelWorkflowTasks` -/

theorem Store.encode_toList :
    (s.encode codec).taskState.toList
      = s.taskState.toList.map fun e => (stringBytes e.1, marshalTaskRecord e.2.raw) := by
  rw [Store.encode, Table.toList_encode keepsOrder_stringBytes]

theorem onDisk_cancelTask (now : Int64) (id : String) (cancelled : List String)
    {entry : String × TaskStateRecord} (hentry : entry.2.Readable) (h : s.Readable codec) :
    OnDisk codec (Store.Readable codec) (List.map stringBytes)
      (Store.cancelTask now id cancelled entry)
      (Disk.cancelTask now (stringBytes id) (cancelled.map stringBytes)
        (stringBytes entry.1, marshalTaskRecord entry.2.raw)) s := by
  have howner : entry.2.raw.workflowID = stringBytes entry.2.workflowID := rfl
  have hstate : entry.2.raw.state = entry.2.state.number := rfl
  rw [Store.cancelTask, Disk.cancelTask, decoded_ok_bind hentry.unmarshal, howner, hstate,
    terminal_number]
  simp only [Ne, stringBytes_injective.eq_iff]
  by_cases hpass : ¬ entry.2.workflowID = id ∨ entry.2.state.terminal = true
  · rw [if_pos hpass, if_pos hpass]
    exact implements_pure rfl h
  · rw [if_neg hpass, if_neg hpass]
    have hnew : ({ entry.2 with state := .skipped, lastUpdated := now } :
        TaskStateRecord).Readable := ⟨{ hentry.toShort with }, hentry.nonempty⟩
    have hput : OnDisk codec (·.Readable codec) (fun u : Unit => u) _ _ s :=
      onDisk_putTask hnew.toShort fun _ => h.setTask hnew entry.1
    exact hput.bind fun _ s' hs' => implements_pure List.map_append hs'

theorem onDisk_cancelWorkflowTasks (h : s.Readable codec) (now : Int64) (id : String) :
    OnDisk codec (Store.Readable codec) (List.map stringBytes)
      (Store.cancelWorkflowTasks now id)
      (Disk.cancelWorkflowTasks now (stringBytes id)) s := by
  rw [Store.cancelWorkflowTasks, Disk.cancelWorkflowTasks]
  apply implements_get_bind
  rw [Store.encode_toList]
  refine implements_foldlM (fun cancelled entry hin s' hs' => ?_) h
  exact onDisk_cancelTask now id cancelled
    (h.tasks entry.1 entry.2 ((Table.mem_toList_iff _ entry).mp hin)) hs'

/-! ## Workflow states and specifications -/

theorem validKey_le {key : String} (h : Store.validKey key = true) :
    key.utf8ByteSize ≤ maxText := by
  have hle := (Store.validKey_iff.mp h).2
  unfold Store.maxKeySize at hle
  unfold maxText
  omega

theorem onDisk_initWorkflowState (h : s.Readable codec) (now : Int64) (i : String) :
    OnDisk codec (Store.Readable codec) id (Store.initWorkflowState now i)
      (Disk.initWorkflowState now (stringBytes i)) s :=
  onDisk_putWorkflowState
    (r := { workflowID := i, state := .running, submittedAtMs := now })
    validKey_le fun hkey => h.setWorkflowState (validKey_le hkey) i

theorem Store.nextWorkflowState_raw (now : Int64) (i : String)
    (found : Option WorkflowStateRecord) (state : WorkflowState) :
    (Store.nextWorkflowState now i found state).raw = Disk.nextWorkflowState now state
      (found.getD { workflowID := i, state := .running, submittedAtMs := now }).raw := by
  rw [Store.nextWorkflowState, Disk.nextWorkflowState]
  split <;> rfl

theorem Store.nextWorkflowState_size {now : Int64} {i : String}
    {found : Option WorkflowStateRecord} {state : WorkflowState}
    (hkey : Store.validKey i = true)
    (hfound : ∀ r, found = some r → r.workflowID.utf8ByteSize ≤ maxText) :
    (Store.nextWorkflowState now i found state).workflowID.utf8ByteSize ≤ maxText := by
  have hid : (Store.nextWorkflowState now i found state).workflowID
      = (found.getD { workflowID := i, state := .running }).workflowID := by
    rw [Store.nextWorkflowState]
    cases found <;> split <;> rfl
  rw [hid]
  cases found with
  | none => exact validKey_le hkey
  | some r => exact hfound r rfl

theorem onDisk_updateWorkflowState (h : s.Readable codec) (now : Int64) (i : String)
    (state : WorkflowState) :
    OnDisk codec (Store.Readable codec) id (Store.updateWorkflowState now i state)
      (Disk.updateWorkflowState now (stringBytes i) state) s := by
  have hput : OnDisk codec (Store.Readable codec) id
      (Store.putWorkflowState i (Store.nextWorkflowState now i s.workflowState[i]? state))
      (Disk.putWorkflowState (stringBytes i)
        (Store.nextWorkflowState now i s.workflowState[i]? state).raw) s :=
    onDisk_putWorkflowState (fun hkey => Store.nextWorkflowState_size hkey (h.states i))
      fun hkey => h.setWorkflowState (Store.nextWorkflowState_size hkey (h.states i)) i
  rw [Store.nextWorkflowState_raw] at hput
  rw [Store.updateWorkflowState, Disk.updateWorkflowState]
  apply implements_get_bind
  rw [Store.encode_workflowState]
  cases hr : s.workflowState[i]? with
  | none =>
    rw [hr] at hput
    exact hput
  | some r =>
    rw [hr] at hput
    simp only [Option.map_some]
    rw [decoded_ok_bind (unmarshal_state (h.states i r hr))]
    exact hput

theorem Store.encode_storeWorkflow (wf : WorkflowSpec) :
    { s.encode codec with
      workflows := (s.encode codec).workflows.insert (stringBytes wf.workflowId)
        (codec.marshal wf) }
      = { s with workflows := s.workflows.insert wf.workflowId wf }.encode codec := by
  rw [Store.encode, Store.encode]
  simp only [Table.encode_insert keepsOrder_stringBytes]

theorem onDisk_storeWorkflow (h : s.Readable codec) (marshals : WorkflowSpec → Bool)
    {wf : WorkflowSpec} (hwf : codec.Carries wf) :
    OnDisk codec (Store.Readable codec) id (Store.storeWorkflow marshals wf)
      (Disk.storeWorkflow codec marshals wf) s := by
  rw [Store.storeWorkflow, Disk.storeWorkflow]
  split
  · refine (onDisk_checkKey (J := (· = s)) (fun _ => hwf.length_le) rfl).bind ?_
    rintro _ s' ⟨rfl, _⟩
    refine implements_modify (Store.encode_storeWorkflow wf) ⟨?_, h.states, h.tasks⟩
    intro id other hother
    rw [Table.get_insert] at hother
    split at hother
    · cases hother
      exact hwf.readBack
    · exact h.workflows id other hother
  · exact implements_throw rfl

/-! ## `InitializeTasksForWorkflow` -/

/-- What `InitializeTasksForWorkflow` is given for one task is short enough, and
its downstream tasks are among the new ones. -/
structure FitsTask (tasks : List TaskSpec) (downstream : Table String (List String))
    (task : TaskSpec) : Prop where
  taskId : task.taskId.utf8ByteSize ≤ maxText
  short : idBytes (downstream.getD task.taskId []) ≤ 2 ^ 30
  closed : ∀ u ∈ downstream.getD task.taskId [], ∃ task' ∈ tasks, task'.taskId = u

section Initialize

variable {now : Int64} {i : String} {tasks : List TaskSpec} {inDegrees : Table String Int32}
  {downstream : Table String (List String)} (hi : i.utf8ByteSize ≤ maxText)
  (htasks : ∀ task ∈ tasks, FitsTask tasks downstream task)
include hi htasks

theorem initialRecord_short {task : TaskSpec} (htask : task ∈ tasks) :
    (Store.initialRecord now i inDegrees downstream task).Short :=
  ⟨(htasks task htask).taskId, hi, Nat.zero_le _, Nat.zero_le _, Nat.zero_le _,
    (htasks task htask).short⟩

theorem run_initializeTasks_onDisk (s : Store) :
    OnDisk codec (fun _ => True) id
      (Store.initializeTasksForWorkflow now i tasks inDegrees downstream)
      (Disk.initializeTasksForWorkflow now i tasks inDegrees downstream) s := by
  refine implements_forM (fun task htask s' _ => ?_) trivial
  exact onDisk_putTask (initialRecord_short hi htasks htask) fun _ => trivial

/-- The new records are readable, once all their keys are accepted. -/
theorem initialRecord_readable (hkeys : ∀ task ∈ tasks, Store.validKey task.taskId = true)
    {task : TaskSpec} (htask : task ∈ tasks) :
    (Store.initialRecord now i inDegrees downstream task).Readable := by
  refine ⟨initialRecord_short hi htasks htask, fun u hu => ?_⟩
  obtain ⟨task', htask', rfl⟩ := (htasks task htask).closed u hu
  exact (Store.validKey_iff.mp (hkeys task' htask')).1

theorem Store.Readable.initializeTasks (h : s.Readable codec)
    (hkeys : ∀ task ∈ tasks, Store.validKey task.taskId = true) :
    Store.Readable codec { s with
      taskState := tasks.foldl (fun m task => m.insert task.taskId
        (Store.initialRecord now i inDegrees downstream task)) s.taskState } := by
  have hall : ∀ task ∈ tasks,
      (Store.initialRecord now i inDegrees downstream task).Readable :=
    fun task htask => initialRecord_readable hi htasks hkeys htask
  clear htasks hkeys hi
  induction tasks generalizing s with
  | nil => exact h
  | cons task tasks ih =>
    exact ih (h.setTask (hall task List.mem_cons_self) task.taskId)
      fun other hother => hall other (List.mem_cons_of_mem task hother)

theorem onDisk_initializeTasks (h : s.Readable codec) :
    OnDisk codec (Store.Readable codec) id
      (Store.initializeTasksForWorkflow now i tasks inDegrees downstream)
      (Disk.initializeTasksForWorkflow now i tasks inDegrees downstream) s := by
  refine ⟨(run_initializeTasks_onDisk hi htasks s).run, fun a s' hrun => ?_⟩
  have hcommit := Store.commit_of_ok hrun
  by_cases hkeys : ∀ task ∈ tasks, Store.validKey task.taskId = true
  · rw [Store.commit_initializeTasks hkeys] at hcommit
    cases hcommit
    exact h.initializeTasks hi htasks hkeys
  · have hbad : ∃ task ∈ tasks, Store.validKey task.taskId = false := by
      simpa using hkeys
    obtain ⟨e, he⟩ := Store.commit_initializeTasks_refused hbad now i inDegrees downstream s
    rw [he] at hcommit
    cases hcommit

end Initialize

/-! ## All transactions -/

/-- The arguments of a transaction are short enough for the format. -/
def StoreOp.Fits (codec : SpecCodec) {α : Type} : StoreOp α → Prop
  | .storeWorkflow workflow => codec.Carries workflow
  | .initializeTasksForWorkflow workflowID tasks _ downstream =>
      workflowID.utf8ByteSize ≤ maxText ∧ ∀ task ∈ tasks, FitsTask tasks downstream task
  | .assignTask _ executionID => executionID.utf8ByteSize ≤ maxText
  | .completeTask _ _ output => output.utf8ByteSize ≤ maxText
  | .failTask _ errMsg _ => errMsg.utf8ByteSize ≤ maxText
  | .requeueTask _ newExecutionID => newExecutionID.utf8ByteSize ≤ maxText
  | .initWorkflowState _ | .updateWorkflowState _ _ | .updateTaskState _ _
  | .cancelWorkflowTasks _ => True

theorem filterMap_text? (ids : List String) : (ids.map stringBytes).filterMap text? = ids := by
  rw [List.filterMap_map]
  simp [text?_stringBytes]

/-- IDs come out of the file as bytes, and are the strings they were. -/
theorem onDisk_texts {J : Store → Prop} {tx : Tx (List String)} {tx' : DiskTx (List Bytes)}
    (h : OnDisk codec J (List.map stringBytes) tx tx' s) :
    OnDisk codec J id tx ((·.filterMap text?) <$> tx') s := by
  have hid : (·.filterMap text?) ∘ List.map stringBytes = id := funext filterMap_text?
  rw [← hid]
  exact h.map _

/-- Every transaction on the file does what the transaction on the store does. -/
theorem StoreOp.implements (h : s.Readable codec) {α : Type} {op : StoreOp α}
    (hop : op.Fits codec) (marshals : WorkflowSpec → Bool) (now : Int64) :
    OnDisk codec (Store.Readable codec) id (op.tx marshals now)
      (op.diskTx codec marshals now) s := by
  cases op with
  | storeWorkflow workflow => exact onDisk_storeWorkflow h marshals hop
  | initWorkflowState id => exact onDisk_initWorkflowState h now id
  | updateWorkflowState id state => exact onDisk_updateWorkflowState h now id state
  | initializeTasksForWorkflow id tasks inDegrees downstream =>
    exact onDisk_initializeTasks hop.1 hop.2 h
  | updateTaskState t state =>
    exact onDisk_modifyTask h t (fun _ => rfl)
      fun r hr => ⟨{ hr.toShort with }, hr.nonempty⟩
  | assignTask t e =>
    exact onDisk_modifyTask h t (fun _ => rfl)
      fun r hr => ⟨{ hr.toShort with executionID := hop }, hr.nonempty⟩
  | completeTask t e output => exact onDisk_texts (onDisk_completeTask h now t e hop)
  | failTask t errMsg attemptCount =>
    exact onDisk_modifyTask h t (fun _ => rfl)
      fun r hr => ⟨{ hr.toShort with error := hop }, hr.nonempty⟩
  | requeueTask t e =>
    exact onDisk_modifyTask h t (fun _ => rfl)
      fun r hr => ⟨{ hr.toShort with executionID := hop }, hr.nonempty⟩
  | cancelWorkflowTasks id => exact onDisk_texts (onDisk_cancelWorkflowTasks h now id)

/-- The transaction as a whole: the answer, the file after it, and what can be
read from it. -/
theorem StoreOp.commit_encode (h : s.Readable codec) {α : Type} {op : StoreOp α}
    (hop : op.Fits codec) (marshals : WorkflowSpec → Bool) (now : Int64) :
    (s.encode codec).commit (op.diskTx codec marshals now)
        = ((s.commit (op.tx marshals now)).1.mapError .store,
            (s.commit (op.tx marshals now)).2.encode codec) ∧
      (s.commit (op.tx marshals now)).2.Readable codec := by
  have himpl := op.implements h hop marshals now
  rw [Disk.commit, himpl.run, Store.commit]
  cases hrun : (op.tx marshals now).run s with
  | error e => exact ⟨rfl, h⟩
  | ok out => exact ⟨rfl, himpl.keeps out.1 out.2 hrun⟩

/-! ## Reading the file back -/

/-- Entries that can all be decoded come back as they were. -/
theorem Disk.decodeBucket_encode {V : Type} {g : V → Bytes} {value : Bytes → Option V}
    {t : Table String V} (hread : ∀ (k : String) (v : V), t[k]? = some v → value (g v) = some v) :
    Disk.decodeBucket value (Table.encode stringBytes g t) = t := by
  rw [Disk.decodeBucket, Table.toList_encode keepsOrder_stringBytes, List.filterMap_map]
  have hall : t.toList.filterMap ((fun e => do return (← text? e.1, ← value e.2)) ∘
      fun e => (stringBytes e.1, g e.2)) = t.toList := by
    rw [List.filterMap_congr (g := some), List.filterMap_some]
    intro e he
    have hv := hread e.1 e.2 ((Table.mem_toList_iff t e).mp he)
    simp only [Function.comp, text?_stringBytes, hv]
    rfl
  rw [hall]
  apply Std.ExtTreeMap.ext_getElem?
  intro k
  rw [Table.get_foldl_insert (fun e : String × V => e.1) (fun e => e.2) _ _
    (Table.nodup_toList t), Table.find_toList]
  cases t[k]? <;> simp

theorem Store.Readable.decode_encode (h : s.Readable codec) :
    (s.encode codec).decode codec = s := by
  rw [Disk.decode, Store.encode]
  apply Store.ext
  · exact Disk.decodeBucket_encode h.workflows
  · dsimp only
    refine Disk.decodeBucket_encode fun id r hr => ?_
    rw [unmarshal_state (h.states id r hr)]
    exact r.record?_raw
  · dsimp only
    refine Disk.decodeBucket_encode fun t r hr => ?_
    rw [(h.tasks t r hr).unmarshal]
    exact r.record?_raw

/-- The raw form of a status. -/
def TaskStatus.raw (status : TaskStatus) : RawTaskStatus where
  taskId := stringBytes status.taskId
  state := status.state.number
  attemptCount := status.attemptCount
  output := stringBytes status.output
  error := stringBytes status.error

/-- Every view of the file answers what the view of the records answers, and the file
knows no workers. -/
structure Disk.ReadsAs (codec : SpecCodec) (d : Disk) (s : Store) : Prop where
  getWorkflow : ∀ id, Disk.getWorkflow codec (stringBytes id) d
    = (s.getWorkflow id).mapError .store
  getWorkflowState : ∀ id, Disk.getWorkflowState (stringBytes id) d
    = ((s.getWorkflowState id).map (·.raw)).mapError .store
  getAllWorkflowStates : Disk.getAllWorkflowStates d
    = .ok (s.getAllWorkflowStates.map (·.raw))
  getTask : ∀ t, Disk.getTask (stringBytes t) d
    = ((s.getTask t).map (·.raw)).mapError .store
  getTasksInState : ∀ state, Disk.getTasksInState state d
    = .ok ((s.getTasksInState state).map stringBytes)
  getTasksForWorkflow : ∀ id, Disk.getTasksForWorkflow (stringBytes id) d
    = .ok ((s.getTasksForWorkflow id).map stringBytes)
  getTaskStatusesForWorkflow : ∀ id, Disk.getTaskStatusesForWorkflow (stringBytes id) d
    = .ok ((s.getTaskStatusesForWorkflow id).map (·.raw))
  isWorkflowComplete : ∀ id, Disk.isWorkflowComplete (stringBytes id) d
    = .ok (s.isWorkflowComplete id)
  getAllWorkers : Disk.getAllWorkers d = .ok []

theorem mapM_ok {A B : Type} {f : A → Except DiskError B} {g : A → B} {l : List A}
    (h : ∀ a ∈ l, f a = .ok (g a)) : l.mapM f = .ok (l.map g) := by
  induction l with
  | nil => rfl
  | cons a l ih =>
    rw [List.mapM_cons, h a List.mem_cons_self,
      ih fun b hb => h b (List.mem_cons_of_mem a hb)]
    rfl

theorem Store.Readable.allTasks (h : s.Readable codec) :
    Disk.allTasks (s.encode codec) = .ok (s.taskState.toList.map (·.2.raw)) := by
  rw [Disk.allTasks, Store.encode_toList, List.mapM_map]
  refine mapM_ok fun e he => ?_
  have hread := (h.tasks e.1 e.2 ((Table.mem_toList_iff _ e).mp he)).unmarshal
  simp only [Function.comp, hread]
  rfl

/-- A filter and a projection of the raw records, by way of the records. -/
theorem Store.Readable.selectTasks (h : s.Readable codec) {B C : Type}
    {p : RawTaskRecord → Bool} (q : TaskStateRecord → Bool) {f : RawTaskRecord → B}
    (g : TaskStateRecord → C) (k : C → B) (hp : ∀ r : TaskStateRecord, p r.raw = q r)
    (hf : ∀ r : TaskStateRecord, f r.raw = k (g r)) :
    (do return ((← Disk.allTasks (s.encode codec)).filter p).map f : Except DiskError (List B))
      = .ok (((s.taskState.toList.filter fun e => q e.2).map fun e => g e.2).map k) := by
  rw [h.allTasks]
  have hlist : ((s.taskState.toList.map (·.2.raw)).filter p).map f
      = ((s.taskState.toList.filter fun e => q e.2).map fun e => g e.2).map k := by
    rw [List.filter_map, List.map_map, List.map_map]
    have hfun : p ∘ (fun e : String × TaskStateRecord => e.2.raw) = fun e => q e.2 :=
      funext fun e => hp e.2
    rw [hfun]
    exact List.map_congr_left fun e _ => hf e.2
  exact congrArg Except.ok hlist

theorem Store.Readable.readsAs (h : s.Readable codec) :
    (s.encode codec).ReadsAs codec s where
  getWorkflow id := by
    rw [Disk.getWorkflow, Store.encode_workflows, Store.getWorkflow]
    cases hr : s.workflows[id]? with
    | none => rfl
    | some wf =>
      simp only [Option.map_some, h.workflows id wf hr]
      rfl
  getWorkflowState id := by
    rw [Disk.getWorkflowState, Store.encode_workflowState, Store.getWorkflowState]
    cases hr : s.workflowState[id]? with
    | none => rfl
    | some r =>
      simp only [Option.map_some, unmarshal_state (h.states id r hr)]
      rfl
  getAllWorkflowStates := by
    have hlist : (s.encode codec).workflowState.toList
        = s.workflowState.toList.map fun e => (stringBytes e.1, marshalWorkflowState e.2.raw) := by
      rw [Store.encode, Table.toList_encode keepsOrder_stringBytes]
    rw [Disk.getAllWorkflowStates, hlist, List.mapM_map, Store.getAllWorkflowStates,
      List.map_map]
    refine mapM_ok fun e he => ?_
    have hread := unmarshal_state (h.states e.1 e.2 ((Table.mem_toList_iff _ e).mp he))
    simp only [Function.comp, hread]
    rfl
  getTask t := by
    rw [Disk.getTask, Store.encode_taskState, Store.getTask]
    cases hr : s.taskState[t]? with
    | none => rfl
    | some r =>
      simp only [Option.map_some, (h.tasks t r hr).unmarshal]
      rfl
  getTasksInState state :=
    h.selectTasks (·.state = state) (·.taskID) stringBytes
      (fun _ => decide_eq_decide.mpr TaskState.number_eq_iff) fun _ => rfl
  getTasksForWorkflow id :=
    h.selectTasks (·.workflowID = id) (·.taskID) stringBytes
      (fun _ => decide_eq_decide.mpr stringBytes_injective.eq_iff) fun _ => rfl
  getTaskStatusesForWorkflow id := by
    rw [Disk.getTaskStatusesForWorkflow, Store.getTaskStatusesForWorkflow]
    exact h.selectTasks (p := fun r => decide (r.workflowID = stringBytes id))
      (fun r => decide (r.workflowID = id))
      (fun r => (⟨r.taskID, r.state, r.attemptCount, r.output, r.error⟩ : TaskStatus))
      TaskStatus.raw (fun _ => decide_eq_decide.mpr stringBytes_injective.eq_iff) fun _ => rfl
  isWorkflowComplete id := by
    have hall : (s.taskState.toList.map (·.2.raw)).all (fun record =>
        record.workflowID ≠ stringBytes id ∨ Disk.terminal record.state)
          = s.isWorkflowComplete id := by
      rw [List.all_map, Store.isWorkflowComplete]
      refine List.all_congr rfl fun e => ?_
      have howner : e.2.raw.workflowID = stringBytes e.2.workflowID := rfl
      have hstate : e.2.raw.state = e.2.state.number := rfl
      simp only [Function.comp, howner, hstate, terminal_number, Ne,
        stringBytes_injective.eq_iff]
    rw [Disk.isWorkflowComplete, h.allTasks]
    exact congrArg Except.ok hall
  getAllWorkers := rfl

end DagScheduler
