import DagScheduler.Coordinator.Rules
import DagScheduler.Model.Run
import DagScheduler.Properties.Encoding

/-!
# The codecs that ignore read errors

`unmarshalWorkflowState` and `unmarshalWorkerRecord` look at no error.  A read
that finds nothing leaves a zero in its variable, and this is what makes an
empty string at the end of the input come back, which the decoder of the task
records loses.  So the two restore whatever their format can carry: all strings
and lists whose lengths have room in an `int32`, and nothing else
(`restores_readWorkflowState`, `restores_readWorkerRecord`).

For the records of the store the bound is no restriction.  A workflow state is
kept under its ID, and a key of the bucket has at most 32768 bytes, so in every
state that operations, crashes and restarts reach each workflow state is read
back (`CrashRun.statesReadBack`).
-/

namespace DagScheduler

open Lib Reader

/-! ## The fields -/

theorem restores_readStringUnchecked :
    Restores readStringUnchecked writeString (·.length < 2 ^ 31) where
  read_encode s rest hs := by
    rw [writeString, List.append_assoc, readStringUnchecked,
      (restores_readInt32.unchecked 0 trivial).bind_encode trivial,
      bind_of_ok (makeSlice_of_nonneg (not_neg_ofNat hs) _),
      Int32.toNatClampNeg_ofNat_of_lt hs]
    by_cases hend : s ++ rest = []
    · -- The read finds nothing, and the empty slice is what was written.
      obtain ⟨rfl, rfl⟩ := List.append_eq_nil_iff.mp hend
      rfl
    · exact unchecked_of_ok (read_append hend)
  fits data s rest hread := by
    rw [readStringUnchecked, Reader.bind_eq_ok_iff] at hread
    obtain ⟨l, rest₁, _, hread⟩ := hread
    rw [Reader.bind_eq_ok_iff] at hread
    obtain ⟨n, rest₂, hslice, hread⟩ := hread
    have hlen : s.length = n := by
      rcases unchecked_eq_ok hread with hread | rfl
      · exact (read_eq_ok hread).1
      · exact List.length_replicate
    exact hlen ▸ makeSlice_lt hslice

theorem restores_readTaskIDs : Restores readTaskIDs writeTaskIDs WholeIDs := by
  have hlist := restores_readStringUnchecked.counted (restores_readInt32.unchecked 0 trivial)
  refine ⟨fun ids rest h => hlist.read_encode ids rest ⟨h.count, h.lengths⟩, ?_⟩
  intro data ids rest hread
  obtain ⟨hcount, hlengths⟩ := hlist.fits data ids rest hread
  exact ⟨hcount, hlengths⟩

/-! ## The records -/

theorem restores_readWorkflowState :
    Restores readWorkflowState marshalWorkflowState (·.workflowID.length < 2 ^ 31) where
  read_encode r rest hr := by
    have hword := restores_readInt32.unchecked 0 trivial
    have hlong := restores_readInt64.unchecked 0 trivial
    rw [marshalWorkflowState, readWorkflowState]
    simp only [List.append_assoc]
    rw [restores_readStringUnchecked.bind_encode hr, hword.bind_encode trivial,
      hlong.bind_encode trivial, hlong.bind_encode trivial]
    rfl
  fits data r rest hread := by
    rw [readWorkflowState, Reader.bind_eq_ok_iff] at hread
    obtain ⟨workflowID, rest₁, hid, hread⟩ := hread
    have hfits := restores_readStringUnchecked.fits _ _ _ hid
    simp only [Reader.bind_eq_ok_iff] at hread
    obtain ⟨_, _, _, _, _, _, _, _, _, hret⟩ := hread
    cases hret
    exact hfits

/-- The lengths have room in an `int32`. -/
structure RawWorkerRecord.Encodable (r : RawWorkerRecord) : Prop where
  workerID : r.workerID.length < 2 ^ 31
  running : WholeIDs r.runningTaskIDs
  queued : WholeIDs r.queuedTaskIDs

theorem restores_readWorkerRecord :
    Restores readWorkerRecord marshalWorkerRecord RawWorkerRecord.Encodable where
  read_encode r rest hr := by
    have hlong := restores_readInt64.unchecked 0 trivial
    rw [marshalWorkerRecord, readWorkerRecord]
    simp only [List.append_assoc]
    rw [restores_readStringUnchecked.bind_encode hr.workerID, hlong.bind_encode trivial,
      restores_readTaskIDs.bind_encode hr.running, restores_readTaskIDs.bind_encode hr.queued,
      hlong.bind_encode trivial]
    rfl
  fits data r rest hread := by
    rw [readWorkerRecord] at hread
    simp only [Reader.bind_eq_ok_iff] at hread
    obtain ⟨workerID, _, hid, _, _, _, running, _, hrunning, queued, _, hqueued, _, _, _, hret⟩ :=
      hread
    cases hret
    exact ⟨restores_readStringUnchecked.fits _ _ _ hid, restores_readTaskIDs.fits _ _ _ hrunning,
      restores_readTaskIDs.fits _ _ _ hqueued⟩

/-- A worker record is read back exactly if its strings and lists are shorter
than 2^31, and a workflow state exactly if its ID is. -/
theorem unchecked_roundTrip_iff (worker : RawWorkerRecord)
    (workflow : RawWorkflowStateRecord) :
    (unmarshalWorkerRecord (marshalWorkerRecord worker) = .ok worker ↔ worker.Encodable) ∧
      (unmarshalWorkflowState (marshalWorkflowState workflow) = .ok workflow ↔
        workflow.workflowID.length < 2 ^ 31) :=
  ⟨restores_readWorkerRecord.decode_encode_iff, restores_readWorkflowState.decode_encode_iff⟩

/-- Empty strings in every place, also at the end of the two lists. -/
example : unmarshalWorkerRecord (marshalWorkerRecord ⟨[], -1, [[], [0x61], []], [[]], 0⟩)
    = .ok ⟨[], -1, [[], [0x61], []], [[]], 0⟩ := by decide

/-- An ID whose length does not fit is written with a negative length. -/
theorem unmarshalWorkflowState_panic {r : RawWorkflowStateRecord}
    (h : Int32.ofNat r.workflowID.length < 0) :
    unmarshalWorkflowState (marshalWorkflowState r) = .error .panic := by
  have hstring : ∀ rest,
      readStringUnchecked (writeString r.workflowID ++ rest) = .error .panic := by
    intro rest
    rw [writeString, List.append_assoc, readStringUnchecked,
      (restores_readInt32.unchecked 0 trivial).bind_encode trivial,
      bind_of_error (makeSlice_of_neg h _)]
  rw [unmarshalWorkflowState, marshalWorkflowState, readWorkflowState]
  simp only [List.append_assoc]
  rw [bind_of_error (hstring _)]
  rfl

/-- A workflow state with an ID of `n` bytes. -/
def stateNamed (n : Nat) : RawWorkflowStateRecord where
  workflowID := List.replicate n 0x61
  state := 0
  submittedAtMs := 0
  completedAtMs := 0

/-- The ID is a byte too long. -/
theorem unmarshalWorkflowState_overlong :
    unmarshalWorkflowState (marshalWorkflowState (stateNamed (2 ^ 31))) = .error .panic := by
  apply unmarshalWorkflowState_panic
  rw [stateNamed, List.length_replicate]
  decide

/-! ## The workflow states of the store -/

namespace Store

/-- Task records and workflow states are stored under their own IDs, which
`Put` accepts. -/
structure SelfKeyed (s : Store) : Prop where
  tasks : s.Keyed
  states : ∀ (id : String) (r : WorkflowStateRecord), s.workflowState[id]? = some r →
    r.workflowID = id ∧ validKey id = true

variable {s s' : Store}

theorem SelfKeyed.setWorkflowState (h : s.SelfKeyed) {id : String}
    (hid : validKey id = true) {r : WorkflowStateRecord} (hr : r.workflowID = id) :
    (s.setWorkflowState id r).SelfKeyed := by
  refine ⟨h.tasks, fun i r' hget => ?_⟩
  rw [get_setWorkflowState] at hget
  split at hget
  · rename_i heq
    cases hget
    exact ⟨hr.trans heq, heq ▸ hid⟩
  · exact h.states i r' hget

/-- The records of new tasks are put under the IDs of the tasks. -/
theorem Keyed.initializeTasks (hk : s.Keyed) {tasks : List TaskSpec}
    (hkeys : ∀ task ∈ tasks, validKey task.taskId = true) (now : Int64) (id : String)
    (inDegrees : Table String Int32) (downstream : Table String (List String)) :
    Keyed { s with taskState := tasks.foldl (fun m task => m.insert task.taskId
      (initialRecord now id inDegrees downstream task)) s.taskState } := by
  induction tasks generalizing s with
  | nil => exact hk
  | cons task tasks ih =>
    have hput : (s.setTask task.taskId
        (initialRecord now id inDegrees downstream task)).Keyed := by
      intro t r hget
      rw [get_setTask] at hget
      split at hget
      · rename_i heq
        cases hget
        exact ⟨heq, heq ▸ hkeys task List.mem_cons_self⟩
      · exact hk t r hget
    exact ih hput fun other hother => hkeys other (List.mem_cons_of_mem task hother)

/-- No transaction stores a record under another key. -/
theorem SelfKeyed.commit (h : s.SelfKeyed) {α : Type} (op : StoreOp α)
    (marshals : WorkflowSpec → Bool) (now : Int64) :
    (s.commit (op.tx marshals now)).2.SelfKeyed := by
  by_cases hop : op.rewrites = true
  · obtain ⟨hshape, hstates⟩ := op.sameShape_of_rewrites hop h.tasks marshals now
    exact ⟨hshape.keyed h.tasks, fun id r hr => h.states id r (hstates ▸ hr)⟩
  · cases op with
    | storeWorkflow wf =>
      by_cases hok : marshals wf = true ∧ validKey wf.workflowId = true
      · rw [StoreOp.tx, commit_storeWorkflow hok.1 hok.2]
        exact ⟨h.tasks, h.states⟩
      · obtain ⟨e, he⟩ := commit_storeWorkflow_refused hok s
        rw [StoreOp.tx, he]
        exact h
    | initWorkflowState id =>
      cases hid : validKey id with
      | true =>
        rw [StoreOp.tx, commit_initWorkflowState hid]
        exact h.setWorkflowState hid rfl
      | false =>
        obtain ⟨e, he⟩ := commit_initWorkflowState_refused hid now s
        rw [StoreOp.tx, he]
        exact h
    | updateWorkflowState id st =>
      cases hid : validKey id with
      | true =>
        rw [StoreOp.tx, commit_updateWorkflowState hid]
        exact h.setWorkflowState hid (nextWorkflowState_workflowID _ _ _ _ fun r hr =>
          (h.states id r hr).1)
      | false =>
        obtain ⟨e, he⟩ := commit_updateWorkflowState_refused hid now st s
        rw [StoreOp.tx, he]
        exact h
    | initializeTasksForWorkflow id tasks inDegrees downstream =>
      by_cases hkeys : ∀ task ∈ tasks, validKey task.taskId = true
      · rw [StoreOp.tx, commit_initializeTasks hkeys]
        exact ⟨h.tasks.initializeTasks hkeys _ _ _ _, h.states⟩
      · have hbad : ∃ task ∈ tasks, validKey task.taskId = false := by
          simpa using hkeys
        obtain ⟨e, he⟩ := commit_initializeTasks_refused hbad now id inDegrees downstream s
        rw [StoreOp.tx, he]
        exact h
    | _ => exact absurd rfl hop

end Store

variable {env : Env} {w : World}

/-- No action does, whatever it is part of. -/
theorem Store.SelfKeyed.handle (h : w.store.SelfKeyed) {α : Type} (a : Action α) :
    (Action.handle env a w).2.store.SelfKeyed := by
  cases a with
  | update op => exact h.commit op env.marshals (env.now w.ticks)
  | view f => exact h
  | locked f => exact h
  | newUUID => exact h
  | getReadyTask workerID =>
    have hcases : ReadyCases env w workerID (Action.handle env (.getReadyTask workerID) w) :=
      World.getReadyTask_cases h.tasks workerID
    generalize Action.handle env (.getReadyTask workerID) w = res at hcases
    cases hcases with
    | empty | unknown | absent => exact h
    | assigned _ _ hr =>
      refine ⟨Store.SameShape.keyed ?_ h.tasks, h.states⟩
      exact Store.sameShape_setTask hr rfl

/-- In every state that operations, crashes and restarts reach, the records are
stored under their own IDs. -/
theorem CrashRun.selfKeyed {calls : List Call} {up : Bool} (hrun : CrashRun env calls up w) :
    w.store.SelfKeyed := by
  have hpreserves : ∀ c : Call, c.prog.Preserves (Action.handle env)
      fun w => w.store.SelfKeyed :=
    fun c => Prog.preserves_of_forall (fun _ a _ h => h.handle a) c.prog
  induction hrun with
  | start => exact ⟨fun t r hr => by simp at hr, fun id r hr => by simp at hr⟩
  | call c _ ih => exact (hpreserves c).run ih
  | cut c n _ ih => exact (hpreserves c).runFor ih n
  | cutAgain n _ ih => exact (hpreserves .restart).runFor ih n
  | recover _ ih => exact (hpreserves .restart).run ih

/-- In every state that operations, crashes and restarts reach, each workflow
state is read back as it was written. -/
theorem CrashRun.statesReadBack {calls : List Call} {up : Bool}
    (hrun : CrashRun env calls up w) {id : String} {r : WorkflowStateRecord}
    (hr : w.store.workflowState[id]? = some r) :
    unmarshalWorkflowState (marshalWorkflowState r.raw) = .ok r.raw := by
  obtain ⟨hid, hkey⟩ := hrun.selfKeyed.states id r hr
  apply restores_readWorkflowState.decode_encode_iff.mpr
  have hsize := (Store.validKey_iff.mp hkey).2
  rw [WorkflowStateRecord.raw, length_stringBytes, hid]
  unfold Store.maxKeySize at hsize
  omega

end DagScheduler
