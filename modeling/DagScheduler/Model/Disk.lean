import DagScheduler.Model.Run
import DagScheduler.Model.Serialization

/-!
# The state store on bytes

`internal/store` as it works on the file: a bucket of bbolt maps bytes to bytes,
and every transaction decodes what it reads and encodes what it writes.
`Model.Store` is the same code on records.  The functions here have the names of
the source and of `Model.Store`, in the namespace `Disk`.

A Go string is a byte string, so IDs that come out of a record are bytes here.
`stringBytes` turns the strings of a call into bytes.  The protobuf package is a
`SpecCodec`, a pair of functions.

A decoder that panics ends the transaction as an error does, and the panic goes
on to the caller.  `Put` refuses an empty key, a key of more than 32768 bytes and
a value of more than `2 ^ 31 - 2` bytes.  `ForEach` lists a bucket by the bytes
of the keys.

The coordinator runs on the file through `Action.handleDisk`.  Its transactions
are those of this module.  A section or a `db.View` that looks at the store sees
`Disk.decode`, the records that the bytes stand for.
-/

namespace DagScheduler

open Lib Reader

/-- The file: the buckets with their keys and values. -/
@[ext]
structure Disk where
  workflows : Table Bytes Bytes := ∅
  workflowState : Table Bytes Bytes := ∅
  taskState : Table Bytes Bytes := ∅
  workers : Table Bytes Bytes := ∅

/-- What a transaction on the file returns as its error, or panics with. -/
inductive DiskError where
  | store (e : StoreError)
  | valueTooLarge
  | read (fault : ReadFault)
  | unmarshal
deriving DecidableEq, Repr

/-- The protobuf encoding of a specification. -/
structure SpecCodec where
  marshal : WorkflowSpec → Bytes
  unmarshal : Bytes → Option WorkflowSpec

/-- `scheduler.TaskStatus`, field by field as Go has it. -/
structure RawTaskStatus where
  taskId : Bytes
  state : Int32
  attemptCount : Int32
  output : Bytes
  error : Bytes
deriving DecidableEq, Repr

/-- A read-write transaction on the file. -/
abbrev DiskTx := StateT Disk (Except DiskError)

/-- A read-only transaction on the file. -/
abbrev DiskView (α : Type) := Disk → Except DiskError α

namespace Disk

/-- Run a transaction.  An error rolls it back. -/
def commit {α : Type} (tx : DiskTx α) (d : Disk) : Except DiskError α × Disk :=
  match tx.run d with
  | .ok (a, d') => (.ok a, d')
  | .error e => (.error e, d)

/-- bbolt's `MaxValueSize`. -/
def maxValueSize : Nat := 2 ^ 31 - 2

/-- The checks at the head of bbolt's `Put`. -/
def checkPut (key value : Bytes) : DiskTx Unit :=
  if key = [] then throw (.store .keyRequired)
  else if Store.maxKeySize < key.length then throw (.store .keyTooLarge)
  else if maxValueSize < value.length then throw .valueTooLarge
  else pure ()

/-- `Put` into the bucket `task_state`. -/
def putTask (key : Bytes) (record : RawTaskRecord) : DiskTx Unit := do
  checkPut key (marshalTaskRecord record)
  modify fun d => { d with taskState := d.taskState.insert key (marshalTaskRecord record) }

/-- `Put` into the bucket `workflow_state`. -/
def putWorkflowState (key : Bytes) (record : RawWorkflowStateRecord) : DiskTx Unit := do
  checkPut key (marshalWorkflowState record)
  modify fun d =>
    { d with workflowState := d.workflowState.insert key (marshalWorkflowState record) }

/-- A decoded record, or the error that ends the transaction. -/
def decoded {α : Type} (result : Except ReadFault α) : Except DiskError α :=
  result.mapError .read

/-! ## Workflow specifications and workflow states -/

/-- `StoreWorkflow`. -/
def storeWorkflow (codec : SpecCodec) (marshals : WorkflowSpec → Bool)
    (workflow : WorkflowSpec) : DiskTx Unit := do
  if marshals workflow then
    let data := codec.marshal workflow
    checkPut (stringBytes workflow.workflowId) data
    modify fun d =>
      { d with workflows := d.workflows.insert (stringBytes workflow.workflowId) data }
  else
    throw (.store .marshal)

/-- `GetWorkflow`. -/
def getWorkflow (codec : SpecCodec) (workflowID : Bytes) : DiskView WorkflowSpec := fun d =>
  match d.workflows[workflowID]? with
  | none => .error (.store .workflowNotFound)
  | some data =>
    match codec.unmarshal data with
    | none => .error .unmarshal
    | some workflow => .ok workflow

/-- `InitWorkflowState`. -/
def initWorkflowState (now : Int64) (workflowID : Bytes) : DiskTx Unit :=
  putWorkflowState workflowID
    { workflowID := workflowID, state := WorkflowState.running.number, submittedAtMs := now,
      completedAtMs := 0 }

/-- The record that `UpdateWorkflowState` starts from when there is none. -/
def freshWorkflowState (now : Int64) (workflowID : Bytes) : RawWorkflowStateRecord :=
  { workflowID := workflowID, state := 0, submittedAtMs := now, completedAtMs := 0 }

/-- The record that `UpdateWorkflowState` writes. -/
def nextWorkflowState (now : Int64) (state : WorkflowState) (rec' : RawWorkflowStateRecord) :
    RawWorkflowStateRecord :=
  if state = .complete ∨ state = .failed ∨ state = .cancelled then
    { rec' with state := state.number, completedAtMs := now }
  else
    { rec' with state := state.number }

/-- `UpdateWorkflowState`. -/
def updateWorkflowState (now : Int64) (workflowID : Bytes) (state : WorkflowState) :
    DiskTx Unit := do
  match (← get).workflowState[workflowID]? with
  | some data => do
    let rec' ← liftM (decoded (unmarshalWorkflowState data))
    putWorkflowState workflowID (nextWorkflowState now state rec')
  | none =>
    putWorkflowState workflowID
      (nextWorkflowState now state (freshWorkflowState now workflowID))

/-- `GetWorkflowState`. -/
def getWorkflowState (workflowID : Bytes) : DiskView RawWorkflowStateRecord := fun d =>
  match d.workflowState[workflowID]? with
  | none => .error (.store .workflowNotFound)
  | some data => decoded (unmarshalWorkflowState data)

/-- `GetAllWorkflowStates`. -/
def getAllWorkflowStates : DiskView (List RawWorkflowStateRecord) := fun d =>
  d.workflowState.toList.mapM fun (_, data) => decoded (unmarshalWorkflowState data)

/-! ## Task states -/

/-- `InitializeTasksForWorkflow`. -/
def initializeTasksForWorkflow (now : Int64) (workflowID : String) (tasks : List TaskSpec)
    (inDegrees : Table String Int32) (downstream : Table String (List String)) :
    DiskTx Unit :=
  tasks.forM fun task =>
    putTask (stringBytes task.taskId)
      { taskID := stringBytes task.taskId
        workflowID := stringBytes workflowID
        state := TaskState.pending.number
        executionID := []
        attemptCount := 0
        lastUpdated := now
        output := []
        error := []
        inDegree := inDegrees.getD task.taskId 0
        downstreamTaskIDs := (downstream.getD task.taskId []).map stringBytes }

/-- `GetTask`. -/
def getTask (taskID : Bytes) : DiskView RawTaskRecord := fun d =>
  match d.taskState[taskID]? with
  | none => .error (.store .taskNotFound)
  | some data => decoded (unmarshalTaskRecord data)

/-- Read the record of `taskID`, change it and put it back. -/
def modifyTask (taskID : Bytes) (f : RawTaskRecord → RawTaskRecord) : DiskTx Unit := do
  match (← get).taskState[taskID]? with
  | none => throw (.store .taskNotFound)
  | some data => do
    let record ← liftM (decoded (unmarshalTaskRecord data))
    putTask taskID (f record)

/-- `UpdateTaskState`. -/
def updateTaskState (now : Int64) (taskID : Bytes) (newState : TaskState) : DiskTx Unit :=
  modifyTask taskID fun record =>
    { record with state := newState.number, lastUpdated := now }

/-- `AssignTask`. -/
def assignTask (now : Int64) (taskID executionID : Bytes) : DiskTx Unit :=
  modifyTask taskID fun record =>
    { record with
      state := TaskState.running.number, executionID := executionID, lastUpdated := now }

/-- `FailTask`. -/
def failTask (now : Int64) (taskID errMsg : Bytes) (attemptCount : Int32) : DiskTx Unit :=
  modifyTask taskID fun record =>
    { record with
      state := TaskState.failed.number, error := errMsg, attemptCount := attemptCount,
      lastUpdated := now }

/-- `RequeueTask`. -/
def requeueTask (now : Int64) (taskID newExecutionID : Bytes) : DiskTx Unit :=
  modifyTask taskID fun record =>
    { record with
      state := TaskState.queued.number, executionID := newExecutionID, lastUpdated := now }

/-- The decrement that `CompleteTask` makes to a waiting downstream task. -/
def decrement (now : Int64) (ds : RawTaskRecord) : RawTaskRecord :=
  let inDegree := ds.inDegree - 1
  let inDegree := if inDegree < 0 then 0 else inDegree
  { ds with
    inDegree := inDegree
    state := if inDegree = 0 then TaskState.queued.number else ds.state
    lastUpdated := now }

/-- One round of the downstream loop of `CompleteTask`.  A record that cannot be
read is passed over. -/
def unlockDownstream (now : Int64) (downstreamReady : List Bytes) (downstreamID : Bytes) :
    DiskTx (List Bytes) := do
  match (← get).taskState[downstreamID]? with
  | none => return downstreamReady
  | some data =>
    match unmarshalTaskRecord data with
    | .error .panic => throw (.read .panic)
    | .error _ => return downstreamReady
    | .ok ds =>
      if ds.state ≠ TaskState.pending.number then
        return downstreamReady
      else
        putTask downstreamID (decrement now ds)
        return if (decrement now ds).inDegree = 0
          then downstreamReady ++ [downstreamID] else downstreamReady

/-- `CompleteTask`. -/
def completeTask (now : Int64) (taskID executionID output : Bytes) : DiskTx (List Bytes) := do
  match (← get).taskState[taskID]? with
  | none => throw (.store .taskNotFound)
  | some data => do
    let task ← liftM (decoded (unmarshalTaskRecord data))
    if task.executionID ≠ executionID then
      throw (.store .staleExecution)
    else if task.state = TaskState.complete.number then
      return []
    else
      putTask taskID
        { task with
          state := TaskState.complete.number, output := output, lastUpdated := now }
      task.downstreamTaskIDs.foldlM (unlockDownstream now) []

/-- The switches on the terminal states. -/
def terminal (state : Int32) : Bool :=
  state = TaskState.complete.number ∨ state = TaskState.failed.number ∨
    state = TaskState.skipped.number

/-- One round of the scan of `CancelWorkflowTasks`. -/
def cancelTask (now : Int64) (workflowID : Bytes) (cancelled : List Bytes)
    (entry : Bytes × Bytes) : DiskTx (List Bytes) := do
  let record ← liftM (decoded (unmarshalTaskRecord entry.2))
  if record.workflowID ≠ workflowID ∨ terminal record.state then
    return cancelled
  else
    putTask entry.1
      { record with state := TaskState.skipped.number, lastUpdated := now }
    return cancelled ++ [record.taskID]

/-- `CancelWorkflowTasks`, over the bucket as it was before the first `Put`. -/
def cancelWorkflowTasks (now : Int64) (workflowID : Bytes) : DiskTx (List Bytes) := do
  (← get).taskState.toList.foldlM (cancelTask now workflowID) []

/-- `ForEach` over the bucket `task_state`, up to the first record that cannot be
read. -/
def allTasks : DiskView (List RawTaskRecord) := fun d =>
  d.taskState.toList.mapM fun (_, data) => decoded (unmarshalTaskRecord data)

/-- `GetTasksInState`. -/
def getTasksInState (state : TaskState) : DiskView (List Bytes) := fun d => do
  return ((← allTasks d).filter (·.state = state.number)).map (·.taskID)

/-- `GetTasksForWorkflow`. -/
def getTasksForWorkflow (workflowID : Bytes) : DiskView (List Bytes) := fun d => do
  return ((← allTasks d).filter (·.workflowID = workflowID)).map (·.taskID)

/-- `GetTaskStatusesForWorkflow`. -/
def getTaskStatusesForWorkflow (workflowID : Bytes) : DiskView (List RawTaskStatus) :=
  fun d => do
  return ((← allTasks d).filter (·.workflowID = workflowID)).map fun r =>
    { taskId := r.taskID, state := r.state, attemptCount := r.attemptCount,
      output := r.output, error := r.error }

/-- `IsWorkflowComplete`. -/
def isWorkflowComplete (workflowID : Bytes) : DiskView Bool := fun d => do
  return (← allTasks d).all fun record =>
    record.workflowID ≠ workflowID ∨ terminal record.state

/-! ## Workers -/

/-- `GetAllWorkers`.  `StoreWorker` is the only function that puts something into
the bucket, and nothing calls it. -/
def getAllWorkers : DiskView (List RawWorkerRecord) := fun d =>
  d.workers.toList.mapM fun (_, data) => decoded (unmarshalWorkerRecord data)

end Disk

/-! ## The records behind the bytes -/

/-- The text of a Go string. -/
def text? (bytes : Bytes) : Option String := String.fromUTF8? ⟨bytes.toArray⟩

/-- The state with a number. -/
def TaskState.ofNumber? (n : Int32) : Option TaskState :=
  [.pending, .queued, .running, .complete, .failed, .skipped, .unknown].find?
    fun state : TaskState => state.number = n

/-- The workflow state with a number. -/
def WorkflowState.ofNumber? (n : Int32) : Option WorkflowState :=
  [.running, .complete, .failed, .cancelled].find? fun state : WorkflowState =>
    state.number = n

/-- The record of the model behind a raw record. -/
def RawTaskRecord.record? (r : RawTaskRecord) : Option TaskStateRecord := do
  return {
    taskID := ← text? r.taskID
    workflowID := ← text? r.workflowID
    state := ← TaskState.ofNumber? r.state
    executionID := ← text? r.executionID
    attemptCount := r.attemptCount
    lastUpdated := r.lastUpdated
    output := ← text? r.output
    error := ← text? r.error
    inDegree := r.inDegree
    downstreamTaskIDs := ← r.downstreamTaskIDs.mapM text? }

/-- The workflow state of the model behind a raw record. -/
def RawWorkflowStateRecord.record? (r : RawWorkflowStateRecord) :
    Option WorkflowStateRecord := do
  return {
    workflowID := ← text? r.workflowID
    state := ← WorkflowState.ofNumber? r.state
    submittedAtMs := r.submittedAtMs
    completedAtMs := r.completedAtMs }

namespace Disk

/-- The entries of a bucket, decoded. -/
def decodeBucket {V : Type} (value : Bytes → Option V) (bucket : Table Bytes Bytes) :
    Table String V :=
  (bucket.toList.filterMap fun e => do return (← text? e.1, ← value e.2)).foldl
    (fun t e => t.insert e.1 e.2) ∅

/-- The records of the file. -/
def decode (codec : SpecCodec) (d : Disk) : Store where
  workflows := decodeBucket codec.unmarshal d.workflows
  workflowState := decodeBucket
    (fun data => (unmarshalWorkflowState data).toOption.bind (·.record?)) d.workflowState
  taskState := decodeBucket
    (fun data => (unmarshalTaskRecord data).toOption.bind (·.record?)) d.taskState

end Disk

/-! ## The coordinator on the file -/

/-- The transaction behind a name, on the file. -/
def StoreOp.diskTx (codec : SpecCodec) (marshals : WorkflowSpec → Bool) (now : Int64)
    {α : Type} : StoreOp α → DiskTx α
  | .storeWorkflow workflow => Disk.storeWorkflow codec marshals workflow
  | .initWorkflowState workflowID => Disk.initWorkflowState now (stringBytes workflowID)
  | .updateWorkflowState workflowID state =>
      Disk.updateWorkflowState now (stringBytes workflowID) state
  | .initializeTasksForWorkflow workflowID tasks inDegrees downstream =>
      Disk.initializeTasksForWorkflow now workflowID tasks inDegrees downstream
  | .updateTaskState taskID newState =>
      Disk.updateTaskState now (stringBytes taskID) newState
  | .assignTask taskID executionID =>
      Disk.assignTask now (stringBytes taskID) (stringBytes executionID)
  | .completeTask taskID executionID output =>
      (·.filterMap text?) <$> Disk.completeTask now (stringBytes taskID)
        (stringBytes executionID) (stringBytes output)
  | .failTask taskID errMsg attemptCount =>
      Disk.failTask now (stringBytes taskID) (stringBytes errMsg) attemptCount
  | .requeueTask taskID newExecutionID =>
      Disk.requeueTask now (stringBytes taskID) (stringBytes newExecutionID)
  | .cancelWorkflowTasks workflowID =>
      (·.filterMap text?) <$> Disk.cancelWorkflowTasks now (stringBytes workflowID)

/-- The coordinator sees that there is an error, and passes it on.  Which error
it is matters for the text alone. -/
def DiskError.forCaller : DiskError → StoreError
  | .store e => e
  | _ => .marshal

/-- The file, the memory, and how often the clock and the UUID generator have
been read. -/
structure DiskWorld where
  disk : Disk := {}
  coord : Coordinator := {}
  ticks : Nat := 0
  uuids : Nat := 0

namespace DiskWorld

variable (env : Env) (codec : SpecCodec)

/-- Run a named transaction at the current reading of the clock. -/
def update {α : Type} (op : StoreOp α) (v : DiskWorld) :
    Except StoreError α × DiskWorld :=
  let result := v.disk.commit (op.diskTx codec env.marshals (env.now v.ticks))
  (result.1.mapError DiskError.forCaller,
    { v with disk := result.2, ticks := v.ticks + 1 })

/-- `GetReadyTask`. -/
def getReadyTask (workerID : String) (v : DiskWorld) : Option TaskAssignment × DiskWorld :=
  match v.coord.readyQueue with
  | [] => (none, v)
  | taskID :: rest =>
    let v := { v with coord := { v.coord with readyQueue := rest } }
    match v.coord.taskSpecCache[taskID]? with
    | none => (none, v)
    | some taskSpec =>
      let executionID := env.uuid v.uuids
      let v := { v with uuids := v.uuids + 1 }
      match v.update env codec (.assignTask taskID executionID) with
      | (.error _, v) => (none, v)
      | (.ok _, v) =>
        (some
          { taskId := taskID
            executionId := executionID
            command := taskSpec.command
            env := taskSpec.env
            timeoutSeconds := taskSpec.timeoutSeconds },
         { v with
           coord :=
            { v.coord with
              runningTasks := v.coord.runningTasks.insert taskID workerID
              assignedTasks := v.coord.assignedTasks.insert taskID executionID } })

end DiskWorld

/-- The handler of the coordinator's actions on the file. -/
def Action.handleDisk (env : Env) (codec : SpecCodec) : Handler Action DiskWorld
  | _, .update op, v => v.update env codec op
  | _, .view f, v => (f (v.disk.decode codec), v)
  | _, .locked f, v =>
      let out := f (v.disk.decode codec) v.coord
      (out.1, { v with coord := out.2 })
  | _, .newUUID, v => (env.uuid v.uuids, { v with uuids := v.uuids + 1 })
  | _, .getReadyTask workerID, v => v.getReadyTask env codec workerID

/-- A run on the file, with crashes.  Nothing but the file survives a crash. -/
inductive DiskRun (env : Env) (codec : SpecCodec) : List Call → Bool → DiskWorld → Prop where
  | start : DiskRun env codec [] true {}
  | call {calls : List Call} {v : DiskWorld} (c : Call) :
      DiskRun env codec calls true v →
      DiskRun env codec (calls ++ [c]) true (c.prog.run (Action.handleDisk env codec) v).2
  | cut {calls : List Call} {v : DiskWorld} (c : Call) (n : Nat) :
      DiskRun env codec calls true v →
      DiskRun env codec (calls ++ [c]) false
        (c.prog.runFor (Action.handleDisk env codec) n v)
  | cutAgain {calls : List Call} {v : DiskWorld} (n : Nat) :
      DiskRun env codec calls false v →
      DiskRun env codec (calls ++ [.restart]) false
        (Call.restart.prog.runFor (Action.handleDisk env codec) n v)
  | recover {calls : List Call} {v : DiskWorld} :
      DiskRun env codec calls false v →
      DiskRun env codec (calls ++ [.restart]) true
        (Call.restart.prog.run (Action.handleDisk env codec) v).2

end DagScheduler
