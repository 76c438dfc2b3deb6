import DagScheduler.Model.Serialization
import DagScheduler.Model.Stream

/-!
# The process around the coordinator

What clients and operators see of the scheduler: the remaining views of the
store, `GetWorkflowStatus` of the gRPC service in `cmd/coordinator/main.go`, the
pages of `dashboard.go`, the watchdog, and the counters of `SnapshotMetrics`.

None of the handlers holds a lock between its reads.  A status consists of a
workflow state and of task statuses that were read in two `db.View`
transactions, and a list of workflows takes one view for each of them, so they
are programs like the operations of the coordinator.

`sort.Slice` is not stable.  `SliceSort` is any function that orders a slice as
the comparison asks, and the pages take one.  The JSON encoder and the HTML are
left out.  An output that is cut at 512 bytes may end inside of a character, so
the outputs on a page are byte strings.

A `Job` is what the process has to do for workers and clients, as a program of
its own: a message, a request of the gRPC service, or a round of the monitor.
-/

namespace DagScheduler

open Lib Program

/-! ## Views of the store -/

/-- `GetWorkflowState`. -/
def Store.getWorkflowState (s : Store) (workflowID : String) :
    Except StoreError WorkflowStateRecord :=
  match s.workflowState[workflowID]? with
  | none => .error .workflowNotFound
  | some r => .ok r

/-- `GetTasksForWorkflow`. -/
def Store.getTasksForWorkflow (s : Store) (workflowID : String) : List String :=
  (s.taskState.toList.filter (·.2.workflowID = workflowID)).map (·.2.taskID)

/-! ## The gRPC service -/

/-- `scheduler.WorkflowStatus`. -/
structure WorkflowStatus where
  workflowId : String
  state : WorkflowState
  taskStatuses : List TaskStatus
  submittedAtUnixMs : Int64
  completedAtUnixMs : Int64
deriving DecidableEq, Repr

/-- The answer of `GetWorkflowStatus` from the two things it reads. -/
def WorkflowStatus.of (workflowID : String) (wfState : WorkflowStateRecord)
    (taskStatuses : List TaskStatus) : WorkflowStatus where
  workflowId := workflowID
  state := wfState.state
  taskStatuses := taskStatuses
  submittedAtUnixMs := wfState.submittedAtMs
  completedAtUnixMs := wfState.completedAtMs

/-- `GetWorkflowStatus`. -/
def getWorkflowStatus (workflowID : String) : Program (Except StoreError WorkflowStatus) := do
  match ← view (·.getWorkflowState workflowID) with
  | .error e => return .error e
  | .ok wfState =>
    let taskStatuses ← view (·.getTaskStatusesForWorkflow workflowID)
    return .ok (.of workflowID wfState taskStatuses)

/-! ## The dashboard -/

/-- `String()` of a task state. -/
def TaskState.name : TaskState → String
  | .pending => "TASK_PENDING"
  | .queued => "TASK_QUEUED"
  | .running => "TASK_RUNNING"
  | .complete => "TASK_COMPLETE"
  | .failed => "TASK_FAILED"
  | .skipped => "TASK_SKIPPED"
  | .unknown => "TASK_UNKNOWN"

/-- `String()` of a workflow state. -/
def WorkflowState.name : WorkflowState → String
  | .running => "WORKFLOW_RUNNING"
  | .complete => "WORKFLOW_COMPLETE"
  | .failed => "WORKFLOW_FAILED"
  | .cancelled => "WORKFLOW_CANCELLED"

/-- `String()` of a failure policy. -/
def FailurePolicy.name : FailurePolicy → String
  | .failFast => "FAIL_FAST"
  | .skipDownstream => "SKIP_DOWNSTREAM"
  | .continueIndependent => "CONTINUE_INDEPENDENT"
  | .unrecognized value _ => toString value

/-- `workflowSummary`. -/
structure WorkflowSummary where
  id : String
  state : String
  submittedAtMs : Int64
  completedAtMs : Int64
  durationMs : Int64
  taskCount : Nat
  doneCount : Nat
  failedCount : Nat
  failurePolicy : String
deriving DecidableEq, Repr

/-- `taskDetail`. -/
structure TaskDetail where
  id : String
  state : String := ""
  command : String := ""
  dependencies : List String := []
  attemptCount : Int32 := 0
  maxRetries : Int32 := 0
  error : String := ""
  output : Bytes := []
deriving DecidableEq, Repr

/-- `workflowDetail`. -/
structure WorkflowDetail where
  summary : WorkflowSummary
  tasks : List TaskDetail
deriving DecidableEq, Repr

/-- What `http.Error` sends. -/
structure HttpError where
  text : String
  code : Nat
deriving DecidableEq, Repr

/-- The function that `sort.Slice` computes for `less`. -/
structure SliceSort {α : Type} (less : α → α → Bool) where
  sort : List α → List α
  perm : ∀ l, (sort l).Perm l
  sorted : ∀ l, (sort l).Pairwise fun a b => less b a = false

/-- `countTaskDoneAndFailed`. -/
def countTaskDoneAndFailed (tasks : List TaskStatus) : Nat × Nat :=
  tasks.foldl (fun (done, failed) t =>
    match t.state with
    | .complete | .skipped => (done + 1, failed)
    | .failed => (done, failed + 1)
    | _ => (done, failed)) (0, 0)

/-- `computeDuration`. -/
def computeDuration (wf : WorkflowStateRecord) (nowMs : Int64) : Int64 :=
  if wf.completedAtMs > 0 then wf.completedAtMs - wf.submittedAtMs
  else if wf.submittedAtMs > 0 then nowMs - wf.submittedAtMs
  else 0

/-- `trimOutput`. -/
def trimOutput (s : Bytes) (max : Nat) : Bytes :=
  if s.length ≤ max then s else s.take max ++ stringBytes "…"

/-- The summary of one workflow. -/
def WorkflowSummary.of (wf : WorkflowStateRecord) (tasks : List TaskStatus) (now : Int64)
    (failurePolicy : String) : WorkflowSummary where
  id := wf.workflowID
  state := wf.state.name
  submittedAtMs := wf.submittedAtMs
  completedAtMs := wf.completedAtMs
  durationMs := computeDuration wf now
  taskCount := tasks.length
  doneCount := (countTaskDoneAndFailed tasks).1
  failedCount := (countTaskDoneAndFailed tasks).2
  failurePolicy := failurePolicy

/-- The loop of `handleAPIWorkflowList`.  The policy is not in the record. -/
def summarizeAll (now : Int64) : List WorkflowStateRecord → Program (List WorkflowSummary)
  | [] => return []
  | wf :: rest => do
    let tasks ← view (·.getTaskStatusesForWorkflow wf.workflowID)
    let summaries ← summarizeAll now rest
    return .of wf tasks now "" :: summaries

/-- The comparison of `handleAPIWorkflowList`: the newest workflow comes first. -/
def submittedLater (a b : WorkflowSummary) : Bool := a.submittedAtMs > b.submittedAtMs

/-- `handleAPIWorkflowList`. -/
def handleAPIWorkflowList (sort : SliceSort submittedLater) (now : Int64) :
    Program (List WorkflowSummary) := do
  let states ← view (·.getAllWorkflowStates)
  return sort.sort (← summarizeAll now states)

/-- The row of a task of the specification. -/
def TaskDetail.ofSpec (statusByID : Table String TaskStatus) (t : TaskSpec) : TaskDetail :=
  let td : TaskDetail :=
    { id := t.taskId, command := t.command, dependencies := t.dependencies,
      maxRetries := t.maxRetries }
  match statusByID[t.taskId]? with
  | none => td
  | some st =>
    { td with
      state := st.state.name, attemptCount := st.attemptCount, error := st.error,
      output := trimOutput (stringBytes st.output) 512 }

/-- The row of a task when there is no specification. -/
def TaskDetail.ofStatus (ts : TaskStatus) : TaskDetail :=
  { id := ts.taskId, state := ts.state.name, attemptCount := ts.attemptCount,
    error := ts.error, output := trimOutput (stringBytes ts.output) 512 }

/-- The page of one workflow from the three things that the handler reads. -/
def WorkflowDetail.of (wfState : WorkflowStateRecord) (taskStatuses : List TaskStatus)
    (spec : Option WorkflowSpec) (now : Int64) : WorkflowDetail :=
  let statusByID := taskStatuses.foldl (fun m ts => m.insert ts.taskId ts) ∅
  match spec with
  | some spec =>
    { summary := .of wfState taskStatuses now spec.failurePolicy.name
      tasks := spec.tasks.map (TaskDetail.ofSpec statusByID) }
  | none =>
    { summary := .of wfState taskStatuses now ""
      tasks := taskStatuses.map TaskDetail.ofStatus }

/-- `handleAPIWorkflowDetail`, for the path after `/api/workflows/`. -/
def handleAPIWorkflowDetail (now : Int64) (id : String) :
    Program (Except HttpError WorkflowDetail) := do
  if id = "" then
    return .error ⟨"missing workflow id", 400⟩
  else
    match ← view (·.getWorkflowState id) with
    | .error e => return .error ⟨e.message, 404⟩
    | .ok wfState =>
      let taskStatuses ← view (·.getTaskStatusesForWorkflow id)
      let spec ← view (·.getWorkflow id)
      return .ok (.of wfState taskStatuses spec.toOption now)

/-! ## The watchdog -/

/-- `watchdogHungThreshold`, in milliseconds. -/
def watchdogHungThreshold : Int64 := 600000

/-- The warning that the watchdog logs for one workflow. -/
structure HungWorkflow where
  workflowID : String
  ageSeconds : Int64
  thresholdSeconds : Int64
deriving DecidableEq, Repr

/-- One round of the loop of `checkHungWorkflows` at the time `nowMs`. -/
def WorkflowStateRecord.hung (nowMs : Int64) (wf : WorkflowStateRecord) : Option HungWorkflow :=
  if wf.state ≠ .running then none
  else
    let ageMs := nowMs - wf.submittedAtMs
    if ageMs > watchdogHungThreshold then
      some ⟨wf.workflowID, ageMs / 1000, watchdogHungThreshold / 1000⟩
    else none

/-- The warnings of `checkHungWorkflows` at the time `nowMs`. -/
def Store.hungWorkflows (s : Store) (nowMs : Int64) : List HungWorkflow :=
  s.getAllWorkflowStates.filterMap (·.hung nowMs)

/-- `checkHungWorkflows`, with the warnings as its answer. -/
def checkHungWorkflows (nowMs : Int64) : Program (List HungWorkflow) :=
  view (·.hungWorkflows nowMs)

/-! ## Counters -/

/-- The part of `MetricsSnapshot` that counts tasks and workers. -/
structure MetricsSnapshot where
  readyQueueSize : Nat
  runningTaskCount : Nat
  assignedTaskCount : Nat
  workerCount : Nat
deriving DecidableEq, Repr

/-- `SnapshotMetrics`.  The monitor has a mutex of its own. -/
def snapshotMetrics : Program MetricsSnapshot := do
  let (ready, running, assigned) ← lockedRead fun c =>
    (c.readyQueue.length, c.runningTasks.size, c.assignedTasks.size)
  let workers ← lockedRead fun c => c.heartbeat.lastHeartbeat.size
  return ⟨ready, running, assigned, workers⟩

/-! ## Jobs -/

/-- What the process has to do. -/
inductive Job where
  | message (workerID : String) (payload : WorkerPayload)
  | submit (orders : DagOrders) (workflow : WorkflowSpec)
  | cancel (workflowID : String)
  | status (workflowID : String)
  | scan (order : RangeOrder String) (orders : String → RangeOrder String)
      (deadThreshold nowMs : Int64)

/-- The program of a job, with the message that goes back to a worker.  What a
client gets as its answer is left out. -/
def Job.prog : Job → Program (Option CoordinatorMessage)
  | .message workerID payload => handleMessage workerID payload
  | .submit orders workflow => do
    let _ ← submitWorkflow orders workflow
    return none
  | .cancel workflowID => do
    let _ ← cancelWorkflow workflowID
    return none
  | .status workflowID => do
    let _ ← getWorkflowStatus workflowID
    return none
  | .scan order orders deadThreshold nowMs => do
    DagScheduler.scan order orders deadThreshold nowMs
    return none

end DagScheduler
