import DagScheduler.Model.Dag

/-!
# The state store

`internal/store`: the buckets of the BoltDB file and the transactions on
them.  A bucket holds decoded records, so the codec of
`serialization.go` is not visible here.

A `db.Update` transaction is a `Tx`, a state monad over `Store` with errors
below the state.  A transaction that fails therefore has no store to leave
behind, which is the rollback of bbolt: `commit` keeps the old store.  A
`db.View` transaction is a function of the store.

`Put` refuses an empty key and a key of more than 32768 bytes.  `now` is the
reading of `time.Now().UnixMilli()` inside the transaction; the source reads
the clock again for every record, and the readings of one transaction are
one value here.  `ForEach` lists a bucket by key, as `Table.toList` does.

The four transactions that rewrite one record without looking at its state,
`updateTaskState`, `assignTask`, `failTask` and `requeueTask`, are
`modifyTask` at their own record update.
-/

namespace DagScheduler

open Lib

/-- The buckets that the coordinator uses. -/
@[ext]
structure Store where
  workflows : Table String WorkflowSpec := ∅
  workflowState : Table String WorkflowStateRecord := ∅
  taskState : Table String TaskStateRecord := ∅

/-- The errors of the store package and of bbolt's `Put`. -/
inductive StoreError where
  | staleExecution
  | taskNotFound
  | workflowNotFound
  | keyRequired
  | keyTooLarge
  | marshal
deriving DecidableEq, Repr

/-- The error texts of `store.go` and of bbolt.  The text of a marshalling
error belongs to the protobuf package. -/
def StoreError.message : StoreError → String
  | .staleExecution => "stale execution_id"
  | .taskNotFound => "task not found"
  | .workflowNotFound => "workflow not found"
  | .keyRequired => "key required"
  | .keyTooLarge => "key too large"
  | .marshal => ""

/-- A read-write transaction. -/
abbrev Tx := StateT Store (Except StoreError)

namespace Store

/-- Run a transaction.  An error rolls it back. -/
def commit {α : Type} (tx : Tx α) (s : Store) : Except StoreError α × Store :=
  match tx.run s with
  | .ok (a, s') => (.ok a, s')
  | .error e => (.error e, s)

/-- bbolt's `MaxKeySize`. -/
def maxKeySize : Nat := 32768

/-- The keys that `Put` accepts. -/
def validKey (key : String) : Bool :=
  key ≠ "" ∧ key.utf8ByteSize ≤ maxKeySize

/-- The check at the head of bbolt's `Put`. -/
def checkKey (key : String) : Tx Unit :=
  if key = "" then throw .keyRequired
  else if maxKeySize < key.utf8ByteSize then throw .keyTooLarge
  else pure ()

/-- `Put` into the bucket `task_state`. -/
def putTask (key : String) (record : TaskStateRecord) : Tx Unit := do
  checkKey key
  modify fun s => { s with taskState := s.taskState.insert key record }

/-- `Put` into the bucket `workflow_state`. -/
def putWorkflowState (key : String) (record : WorkflowStateRecord) : Tx Unit := do
  checkKey key
  modify fun s => { s with workflowState := s.workflowState.insert key record }

/-! ## Workflow specifications and workflow states -/

/-- `StoreWorkflow`.  `marshals` says whether `proto.Marshal` accepts the
specification. -/
def storeWorkflow (marshals : WorkflowSpec → Bool) (workflow : WorkflowSpec) :
    Tx Unit := do
  if marshals workflow then
    checkKey workflow.workflowId
    modify fun s =>
      { s with workflows := s.workflows.insert workflow.workflowId workflow }
  else
    throw .marshal

/-- `GetWorkflow`. -/
def getWorkflow (s : Store) (workflowID : String) :
    Except StoreError WorkflowSpec :=
  match s.workflows[workflowID]? with
  | none => .error .workflowNotFound
  | some workflow => .ok workflow

/-- `InitWorkflowState`. -/
def initWorkflowState (now : Int64) (workflowID : String) : Tx Unit :=
  putWorkflowState workflowID
    { workflowID := workflowID, state := .running, submittedAtMs := now }

/-- The record that `UpdateWorkflowState` writes over `found`.  The new
state is terminal exactly when it is not `WORKFLOW_RUNNING`. -/
def nextWorkflowState (now : Int64) (workflowID : String)
    (found : Option WorkflowStateRecord) (state : WorkflowState) :
    WorkflowStateRecord :=
  let rec' := found.getD
    { workflowID := workflowID, state := .running, submittedAtMs := now }
  if state = .complete ∨ state = .failed ∨ state = .cancelled then
    { rec' with state := state, completedAtMs := now }
  else
    { rec' with state := state }

/-- `UpdateWorkflowState`. -/
def updateWorkflowState (now : Int64) (workflowID : String)
    (state : WorkflowState) : Tx Unit := do
  let found := (← get).workflowState[workflowID]?
  putWorkflowState workflowID (nextWorkflowState now workflowID found state)

/-- `GetAllWorkflowStates`. -/
def getAllWorkflowStates (s : Store) : List WorkflowStateRecord :=
  s.workflowState.toList.map (·.2)

/-! ## Task states -/

/-- The record that `InitializeTasksForWorkflow` creates for `task`. -/
def initialRecord (now : Int64) (workflowID : String)
    (inDegrees : Table String Int32) (downstream : Table String (List String))
    (task : TaskSpec) : TaskStateRecord :=
  { taskID := task.taskId
    workflowID := workflowID
    state := .pending
    attemptCount := 0
    lastUpdated := now
    inDegree := inDegrees.getD task.taskId 0
    downstreamTaskIDs := downstream.getD task.taskId [] }

/-- `InitializeTasksForWorkflow`. -/
def initializeTasksForWorkflow (now : Int64) (workflowID : String)
    (tasks : List TaskSpec) (inDegrees : Table String Int32)
    (downstream : Table String (List String)) : Tx Unit :=
  tasks.forM fun task =>
    putTask task.taskId (initialRecord now workflowID inDegrees downstream task)

/-- `GetTask`. -/
def getTask (s : Store) (taskID : String) : Except StoreError TaskStateRecord :=
  match s.taskState[taskID]? with
  | none => .error .taskNotFound
  | some record => .ok record

/-- Read the record of `taskID`, change it and put it back. -/
def modifyTask (taskID : String) (f : TaskStateRecord → TaskStateRecord) :
    Tx Unit := do
  match (← get).taskState[taskID]? with
  | none => throw .taskNotFound
  | some record => putTask taskID (f record)

/-- `UpdateTaskState`. -/
def updateTaskState (now : Int64) (taskID : String) (newState : TaskState) :
    Tx Unit :=
  modifyTask taskID fun record =>
    { record with state := newState, lastUpdated := now }

/-- `AssignTask`. -/
def assignTask (now : Int64) (taskID executionID : String) : Tx Unit :=
  modifyTask taskID fun record =>
    { record with
      state := .running, executionID := executionID, lastUpdated := now }

/-- `FailTask`. -/
def failTask (now : Int64) (taskID errMsg : String) (attemptCount : Int32) :
    Tx Unit :=
  modifyTask taskID fun record =>
    { record with
      state := .failed, error := errMsg, attemptCount := attemptCount,
      lastUpdated := now }

/-- `RequeueTask`. -/
def requeueTask (now : Int64) (taskID newExecutionID : String) : Tx Unit :=
  modifyTask taskID fun record =>
    { record with
      state := .queued, executionID := newExecutionID, lastUpdated := now }

/-- The decrement that `CompleteTask` makes to a waiting downstream task:
the counter is clamped at 0, and a counter of 0 queues the task. -/
def decrement (now : Int64) (ds : TaskStateRecord) : TaskStateRecord :=
  let inDegree := ds.inDegree - 1
  let inDegree := if inDegree < 0 then 0 else inDegree
  { ds with
    inDegree := inDegree
    state := if inDegree = 0 then .queued else ds.state
    lastUpdated := now }

/-- One round of the downstream loop of `CompleteTask`.  A task that does
not exist or is not waiting is passed over. -/
def unlockDownstream (now : Int64) (downstreamReady : List String)
    (downstreamID : String) : Tx (List String) := do
  match (← get).taskState[downstreamID]? with
  | none => return downstreamReady
  | some ds =>
    if ds.state ≠ .pending then
      return downstreamReady
    else
      putTask downstreamID (decrement now ds)
      return if (decrement now ds).inDegree = 0
        then downstreamReady ++ [downstreamID] else downstreamReady

/-- `CompleteTask`.  The answer lists the downstream tasks that became
ready. -/
def completeTask (now : Int64) (taskID executionID output : String) :
    Tx (List String) := do
  match (← get).taskState[taskID]? with
  | none => throw .taskNotFound
  | some task =>
    if task.executionID ≠ executionID then
      throw .staleExecution
    else if task.state = .complete then
      return []
    else
      putTask taskID
        { task with state := .complete, output := output, lastUpdated := now }
      task.downstreamTaskIDs.foldlM (unlockDownstream now) []

/-- `GetTasksInState`. -/
def getTasksInState (s : Store) (state : TaskState) : List String :=
  (s.taskState.toList.filter (·.2.state = state)).map (·.2.taskID)

/-- `GetTaskStatusesForWorkflow`. -/
def getTaskStatusesForWorkflow (s : Store) (workflowID : String) :
    List TaskStatus :=
  (s.taskState.toList.filter (·.2.workflowID = workflowID)).map fun (_, r) =>
    { taskId := r.taskID, state := r.state, attemptCount := r.attemptCount,
      output := r.output, error := r.error }

/-- One round of the scan of `CancelWorkflowTasks`. -/
def cancelTask (now : Int64) (workflowID : String) (cancelled : List String)
    (entry : String × TaskStateRecord) : Tx (List String) := do
  if entry.2.workflowID ≠ workflowID ∨ entry.2.state.terminal then
    return cancelled
  else
    putTask entry.1 { entry.2 with state := .skipped, lastUpdated := now }
    return cancelled ++ [entry.2.taskID]

/-- `CancelWorkflowTasks`.  The source puts records into the bucket that
`ForEach` is going over, and bbolt leaves open what the scan meets then.  Here
it is over the bucket as it was before the first `Put`. -/
def cancelWorkflowTasks (now : Int64) (workflowID : String) :
    Tx (List String) := do
  (← get).taskState.toList.foldlM (cancelTask now workflowID) []

/-- `IsWorkflowComplete`: every task of the workflow is terminal. -/
def isWorkflowComplete (s : Store) (workflowID : String) : Bool :=
  s.taskState.toList.all fun (_, r) =>
    r.workflowID ≠ workflowID ∨ r.state.terminal

end Store

/-- The `db.Update` transactions of the store, by name. -/
inductive StoreOp : Type → Type where
  | storeWorkflow (workflow : WorkflowSpec) : StoreOp Unit
  | initWorkflowState (workflowID : String) : StoreOp Unit
  | updateWorkflowState (workflowID : String) (state : WorkflowState) :
      StoreOp Unit
  | initializeTasksForWorkflow (workflowID : String) (tasks : List TaskSpec)
      (inDegrees : Table String Int32)
      (downstream : Table String (List String)) : StoreOp Unit
  | updateTaskState (taskID : String) (newState : TaskState) : StoreOp Unit
  | assignTask (taskID executionID : String) : StoreOp Unit
  | completeTask (taskID executionID output : String) : StoreOp (List String)
  | failTask (taskID errMsg : String) (attemptCount : Int32) : StoreOp Unit
  | requeueTask (taskID newExecutionID : String) : StoreOp Unit
  | cancelWorkflowTasks (workflowID : String) : StoreOp (List String)

/-- The transaction behind a name. -/
def StoreOp.tx (marshals : WorkflowSpec → Bool) (now : Int64) {α : Type} :
    StoreOp α → Tx α
  | .storeWorkflow workflow => Store.storeWorkflow marshals workflow
  | .initWorkflowState workflowID => Store.initWorkflowState now workflowID
  | .updateWorkflowState workflowID state =>
      Store.updateWorkflowState now workflowID state
  | .initializeTasksForWorkflow workflowID tasks inDegrees downstream =>
      Store.initializeTasksForWorkflow now workflowID tasks inDegrees downstream
  | .updateTaskState taskID newState => Store.updateTaskState now taskID newState
  | .assignTask taskID executionID => Store.assignTask now taskID executionID
  | .completeTask taskID executionID output =>
      Store.completeTask now taskID executionID output
  | .failTask taskID errMsg attemptCount =>
      Store.failTask now taskID errMsg attemptCount
  | .requeueTask taskID newExecutionID =>
      Store.requeueTask now taskID newExecutionID
  | .cancelWorkflowTasks workflowID => Store.cancelWorkflowTasks now workflowID

end DagScheduler
