import DagScheduler.Lib.Program
import DagScheduler.Model.Store

/-!
# The coordinator

`internal/coordinator/coordinator.go` and `recovery.go`, and
`SkipDownstreamTasks` of the store, which is made of several transactions.

A `World` is the BoltDB file together with the memory of the process that
serves it.  An operation is a program over `Action`: every `db.Update` and
every `db.View` is one action, and so is every section that the mutex
protects.  Three points of the source decide what is one action.

* `GetReadyTask` holds the mutex from its first to its last line, with one
  `db.Update` inside.  It is one action.
* `LoadStateFromDB` holds the mutex throughout and only reads the store.  It
  is one `locked` action that sees the store.
* `SubmitWorkflow` holds the mutex while it writes one transaction per root
  task.  Each of these transactions is an action of its own, since a crash
  may fall between them.

The clock and the UUID generator are part of the `Env`: the `n`-th reading
of the clock is `now n`, and the `n`-th UUID is `uuid n`.  The world counts
the readings.  `proto.Marshal` is `marshals`, and a specification that it
accepts is below the 2 GiB limit of a protobuf message, so none of its
dependency lists has `2 ^ 31` entries.

Loggers and metrics are left out, and so is the watchdog, which only logs.
-/

namespace DagScheduler

open Lib

/-- What an operation reads from outside of the process. -/
structure Env where
  now : Nat → Int64
  uuid : Nat → String
  uuid_injective : Function.Injective uuid
  marshals : WorkflowSpec → Bool
  marshals_bounded : ∀ wf, marshals wf = true →
    ∀ task ∈ wf.tasks, task.dependencies.length < 2 ^ 31

/-- The maps of `HeartbeatMonitor`. -/
structure HeartbeatMonitor where
  lastHeartbeat : Table String Int64 := ∅
  runningTasks : Table String (List String) := ∅

/-- `HeartbeatMonitor.RemoveWorker`. -/
def HeartbeatMonitor.removeWorker (h : HeartbeatMonitor) (workerID : String) :
    HeartbeatMonitor :=
  { lastHeartbeat := h.lastHeartbeat.erase workerID
    runningTasks := h.runningTasks.erase workerID }

/-- The memory of `Coordinator`.  `{}` is what `NewCoordinator` builds. -/
structure Coordinator where
  readyQueue : List String := []
  runningTasks : Table String String := ∅
  assignedTasks : Table String String := ∅
  taskSpecCache : Table String TaskSpec := ∅
  taskWorkflowMap : Table String String := ∅
  workflowFailurePolicy : Table String FailurePolicy := ∅
  heartbeat : HeartbeatMonitor := {}

/-- The store, the memory, and how often the clock and the UUID generator
have been read. -/
structure World where
  store : Store := {}
  coord : Coordinator := {}
  ticks : Nat := 0
  uuids : Nat := 0

/-- The errors that an operation returns. -/
inductive CallError where
  | invalidDAG (e : DagError)
  | store (e : StoreError)
deriving DecidableEq, Repr

/-- The error text that the caller sees. -/
def CallError.message : CallError → String
  | .invalidDAG e => "invalid DAG: " ++ e.message
  | .store e => e.message

/-- The atomic steps of an operation. -/
inductive Action : Type → Type 1 where
  | update {α : Type} (op : StoreOp α) : Action (Except StoreError α)
  | view {α : Type} (f : Store → α) : Action α
  | locked {α : Type} (f : Store → Coordinator → α × Coordinator) : Action α
  | newUUID : Action String
  | getReadyTask (workerID : String) : Action (Option TaskAssignment)

/-- A program of the coordinator. -/
abbrev Program := Prog Action

/-! ## The sections under the mutex -/

namespace Coordinator

/-- Delete a task from the two maps of running tasks. -/
def forget (c : Coordinator) (taskID : String) : Coordinator :=
  { c with
    runningTasks := c.runningTasks.erase taskID
    assignedTasks := c.assignedTasks.erase taskID }

/-- Append to the ready queue. -/
def enqueue (c : Coordinator) (taskIDs : List String) : Coordinator :=
  { c with readyQueue := c.readyQueue ++ taskIDs }

/-- Keep the tasks of the ready queue that are not in `taskIDs`. -/
def dropFromQueue (c : Coordinator) (taskIDs : List String) : Coordinator :=
  { c with readyQueue := c.readyQueue.filter (· ∉ taskIDs) }

/-- Remember the specification, the workflow and the policy of every task
of an accepted workflow. -/
def cacheWorkflow (dag : DAG) (workflow : WorkflowSpec) (c : Coordinator) :
    Coordinator :=
  { c with
    taskSpecCache :=
      dag.tasks.toList.foldl (fun m e => m.insert e.1 e.2) c.taskSpecCache
    taskWorkflowMap :=
      dag.tasks.toList.foldl (fun m e => m.insert e.1 workflow.workflowId)
        c.taskWorkflowMap
    workflowFailurePolicy :=
      c.workflowFailurePolicy.insert workflow.workflowId workflow.failurePolicy }

/-- The first section of `HandleDeadWorker`: collect the tasks of the worker
and delete them from the maps. -/
def claimTasks (order : RangeOrder String) (workerID : String)
    (c : Coordinator) : List String × Coordinator :=
  let tasksToRequeue := (order.visit c.runningTasks.keys).filter
    (fun taskID => c.runningTasks[taskID]? = some workerID)
  (tasksToRequeue, tasksToRequeue.foldl forget c)

/-- One round of the loop of `LoadStateFromDB`. -/
def loadWorkflow (s : Store) (c : Coordinator) (wfState : WorkflowStateRecord) :
    Coordinator :=
  if wfState.state ≠ .running then c
  else
    match s.getWorkflow wfState.workflowID with
    | .error _ => c
    | .ok wfSpec =>
      { c with
        workflowFailurePolicy :=
          c.workflowFailurePolicy.insert wfSpec.workflowId wfSpec.failurePolicy
        taskSpecCache :=
          wfSpec.tasks.foldl (fun m task => m.insert task.taskId task)
            c.taskSpecCache
        taskWorkflowMap :=
          wfSpec.tasks.foldl (fun m task => m.insert task.taskId wfSpec.workflowId)
            c.taskWorkflowMap }

/-- The body of `LoadStateFromDB`. -/
def load (s : Store) (c : Coordinator) : Coordinator :=
  (s.getAllWorkflowStates.foldl (loadWorkflow s) c).enqueue
    (s.getTasksInState .queued)

/-- The number of failures after which `FailTask` gives up. -/
def retryLimit (c : Coordinator) (taskID : String) : Int32 :=
  match c.taskSpecCache[taskID]? with
  | some spec => if spec.maxRetries > 0 then spec.maxRetries else 3
  | none => 3

end Coordinator

/-! ## The meaning of the actions -/

namespace World

/-- Run a named transaction at the current reading of the clock. -/
def update (env : Env) {α : Type} (op : StoreOp α) (w : World) :
    Except StoreError α × World :=
  let result := w.store.commit (op.tx env.marshals (env.now w.ticks))
  (result.1, { w with store := result.2, ticks := w.ticks + 1 })

/-- `GetReadyTask`. -/
def getReadyTask (env : Env) (workerID : String) (w : World) :
    Option TaskAssignment × World :=
  match w.coord.readyQueue with
  | [] => (none, w)
  | taskID :: rest =>
    let w := { w with coord := { w.coord with readyQueue := rest } }
    match w.coord.taskSpecCache[taskID]? with
    | none => (none, w)
    | some taskSpec =>
      let executionID := env.uuid w.uuids
      let w := { w with uuids := w.uuids + 1 }
      match w.update env (.assignTask taskID executionID) with
      | (.error _, w) => (none, w)
      | (.ok _, w) =>
        (some
          { taskId := taskID
            executionId := executionID
            command := taskSpec.command
            env := taskSpec.env
            timeoutSeconds := taskSpec.timeoutSeconds },
         { w with
           coord :=
            { w.coord with
              runningTasks := w.coord.runningTasks.insert taskID workerID
              assignedTasks :=
                w.coord.assignedTasks.insert taskID executionID } })

end World

/-- The handler of the coordinator's actions. -/
def Action.handle (env : Env) : Handler Action World
  | _, .update op, w => w.update env op
  | _, .view f, w => (f w.store, w)
  | _, .locked f, w =>
      ((f w.store w.coord).1, { w with coord := (f w.store w.coord).2 })
  | _, .newUUID, w => (env.uuid w.uuids, { w with uuids := w.uuids + 1 })
  | _, .getReadyTask workerID, w => w.getReadyTask env workerID

namespace Program

/-- One `db.Update`. -/
def update {α : Type} (op : StoreOp α) : Program (Except StoreError α) :=
  .act (.update op)

/-- One `db.View`. -/
def view {α : Type} (f : Store → α) : Program α := .act (.view f)

/-- One section under the mutex that answers something. -/
def locked {α : Type} (f : Coordinator → α × Coordinator) : Program α :=
  .act (.locked fun _ c => f c)

/-- One section under the mutex that only writes. -/
def lockedWrite (f : Coordinator → Coordinator) : Program Unit :=
  locked fun c => ((), f c)

/-- One section under the mutex that only reads. -/
def lockedRead {α : Type} (f : Coordinator → α) : Program α :=
  locked fun c => (f c, c)

/-- `uuid.New().String()`. -/
def newUUID : Program String := .act .newUUID

/-- A `db.Update` whose error is returned to the caller at once. -/
def tryUpdate {α : Type} (op : StoreOp α)
    (k : α → Program (Except CallError Unit)) :
    Program (Except CallError Unit) := do
  match ← update op with
  | .error e => return .error (.store e)
  | .ok a => k a

/-! ## The store operation that is not one transaction -/

end Program

/-- The number of downstream entries in the bucket, which bounds the rounds
of the traversal below. -/
def Store.edgeCount (s : Store) : Nat :=
  (s.taskState.toList.map (·.2.downstreamTaskIDs.length)).sum

open Program

/-- What `SkipDownstreamTasks` gives back instead of a list: the error of its
first read, or nothing at all, because its loop has used up the rounds that the
model has for it. -/
inductive SkipError where
  | store (e : StoreError)
  | diverged
deriving DecidableEq, Repr

/-- The loop of `SkipDownstreamTasks`.  `fuel` bounds the rounds, and a loop
that needs more has an outcome of its own. -/
def skipLoop :
    Nat → (queue visited skipped : List String) → Program (Except SkipError (List String))
  | _, [], _, skipped => return .ok skipped
  | 0, _ :: _, _, _ => return .error .diverged
  | fuel + 1, taskID :: queue, visited, skipped =>
    if taskID ∈ visited then
      skipLoop fuel queue visited skipped
    else do
      match ← view (·.getTask taskID) with
      | .error _ => skipLoop fuel queue (taskID :: visited) skipped
      | .ok task =>
        let queue := queue ++ task.downstreamTaskIDs
        if task.state.terminal then
          skipLoop fuel queue (taskID :: visited) skipped
        else
          match ← update (.updateTaskState taskID .skipped) with
          | .error _ => skipLoop fuel queue (taskID :: visited) skipped
          | .ok _ =>
            skipLoop fuel queue (taskID :: visited) (skipped ++ [taskID])

/-- `SkipDownstreamTasks`.  Each round takes one entry of a downstream list
out of the queue, and a list enters the queue once, so the entries of the
bucket bound the rounds as long as nobody else changes the lists. -/
def skipDownstreamTasks (failedTaskID : String) :
    Program (Except SkipError (List String)) := do
  match ← view (fun s => (s.getTask failedTaskID, s.edgeCount)) with
  | (.error e, _) => return .error (.store e)
  | (.ok failedTask, edges) =>
    skipLoop (failedTask.downstreamTaskIDs.length + edges)
      failedTask.downstreamTaskIDs [] []

/-! ## The operations -/

/-- The roots loop of `SubmitWorkflow`. -/
def enqueueRoots : List String → Program (Except CallError Unit)
  | [] => return .ok ()
  | taskID :: rest =>
    tryUpdate (.updateTaskState taskID .queued) fun _ => do
      lockedWrite (·.enqueue [taskID])
      enqueueRoots rest

/-- `SubmitWorkflow`. -/
def submitWorkflow (orders : DagOrders) (workflow : WorkflowSpec) :
    Program (Except CallError Unit) :=
  match validateAndSort orders workflow with
  | .error e => return .error (.invalidDAG e)
  | .ok dag =>
    tryUpdate (.storeWorkflow workflow) fun _ =>
    tryUpdate (.initWorkflowState workflow.workflowId) fun _ =>
    tryUpdate (.initializeTasksForWorkflow workflow.workflowId workflow.tasks
      dag.inDegree dag.downstream) fun _ => do
      lockedWrite (Coordinator.cacheWorkflow dag workflow)
      enqueueRoots (dag.getReadyTasks orders.ready)

/-- `GetReadyTask`. -/
def getReadyTask (workerID : String) : Program (Option TaskAssignment) :=
  .act (.getReadyTask workerID)

/-- `checkWorkflowCompletion`. -/
def checkWorkflowCompletion (workflowID : String) : Program Unit := do
  let done ← view (·.isWorkflowComplete workflowID)
  Prog.when (done = true) do
    let taskStatuses ← view (·.getTaskStatusesForWorkflow workflowID)
    let finalState : WorkflowState :=
      if taskStatuses.any (·.state = .failed) then .failed else .complete
    let _ ← update (.updateWorkflowState workflowID finalState)
    return ()

/-- `taskWorkflowID`. -/
def taskWorkflowID (taskID : String) : Program String :=
  lockedRead (·.taskWorkflowMap.getD taskID "")

/-- `CompleteTask`. -/
def completeTask (taskID executionID output : String) :
    Program (Except CallError Unit) := do
  match ← lockedRead (·.assignedTasks[taskID]?) with
  | none =>
    match ← view (·.getTask taskID) with
    | .error e => return .error (.store e)
    | .ok task =>
      if task.state = .complete then
        if task.executionID ≠ executionID then
          return .error (.store .staleExecution)
        else
          return .ok ()
      else
        return .error (.store .staleExecution)
  | some assignedExecID =>
    if assignedExecID ≠ executionID then
      return .error (.store .staleExecution)
    else
      tryUpdate (.completeTask taskID executionID output)
        fun downstreamReady => do
        lockedWrite fun c => (c.forget taskID).enqueue downstreamReady
        let workflowID ← taskWorkflowID taskID
        Prog.when (workflowID ≠ "") (checkWorkflowCompletion workflowID)
        return .ok ()

/-- The case `SKIP_DOWNSTREAM` of `applyFailurePolicy` behind the traversal. -/
def afterSkip (workflowID : String) : Except SkipError (List String) → Program Unit
  -- A loop that goes on does not come to what is behind it.
  | .error .diverged => return ()
  -- An error of the traversal is logged, and leaves nothing skipped.
  | .error (.store _) => checkWorkflowCompletion workflowID
  | .ok skipped => do
    Prog.when (skipped ≠ []) (lockedWrite (·.dropFromQueue skipped))
    checkWorkflowCompletion workflowID

/-- `applyFailurePolicy`.  A policy that names no constant has no case in
the switch. -/
def applyFailurePolicy (workflowID failedTaskID : String) :
    FailurePolicy → Program Unit
  | .failFast => do
    match ← update (.cancelWorkflowTasks workflowID) with
    | .error _ => return ()
    | .ok cancelled =>
      lockedWrite (·.dropFromQueue cancelled)
      let _ ← update (.updateWorkflowState workflowID .failed)
      return ()
  | .skipDownstream | .continueIndependent => do
    afterSkip workflowID (← skipDownstreamTasks failedTaskID)
  | .unrecognized _ _ => return ()

/-- `FailTask`. -/
def failTask (taskID executionID errMsg : String) :
    Program (Except CallError Unit) := do
  if (← lockedRead (·.assignedTasks[taskID]?)) ≠ some executionID then
    return .error (.store .staleExecution)
  else
    match ← view (·.getTask taskID) with
    | .error e => return .error (.store e)
    | .ok task =>
      let maxRetries ← lockedRead (·.retryLimit taskID)
      let attemptCount := task.attemptCount + 1
      if attemptCount < maxRetries then
        let execID ← newUUID
        tryUpdate (.requeueTask taskID execID) fun _ => do
          lockedWrite fun c => (c.forget taskID).enqueue [taskID]
          return .ok ()
      else
        tryUpdate (.failTask taskID errMsg attemptCount) fun _ => do
          let (workflowID, policy) ← locked fun c =>
            let workflowID := c.taskWorkflowMap.getD taskID ""
            -- The zero value of the enum is `FAIL_FAST`.
            ((workflowID, c.workflowFailurePolicy.getD workflowID .failFast),
              c.forget taskID)
          Prog.when (workflowID ≠ "")
            (applyFailurePolicy workflowID taskID policy)
          return .ok ()

/-- `CancelWorkflow`. -/
def cancelWorkflow (workflowID : String) : Program (Except CallError Unit) :=
  tryUpdate (.cancelWorkflowTasks workflowID) fun cancelled => do
    lockedWrite (·.dropFromQueue cancelled)
    tryUpdate (.updateWorkflowState workflowID .cancelled) fun _ =>
      return .ok ()

/-- The loop that `HandleDeadWorker` and `PrepareRecovery` share: every task
gets a new execution ID and goes back to the queue, and a task whose
transaction fails is passed over. -/
def requeueAll : List String → Program Unit
  | [] => return ()
  | taskID :: rest => do
    let execID ← newUUID
    match ← update (.requeueTask taskID execID) with
    | .error _ => requeueAll rest
    | .ok _ =>
      lockedWrite (·.enqueue [taskID])
      requeueAll rest

/-- `HandleDeadWorker`. -/
def handleDeadWorker (order : RangeOrder String) (workerID : String) :
    Program (Except CallError Unit) := do
  let tasksToRequeue ← locked (Coordinator.claimTasks order workerID)
  requeueAll tasksToRequeue
  lockedWrite fun c => { c with heartbeat := c.heartbeat.removeWorker workerID }
  return .ok ()

/-- `LoadStateFromDB`. -/
def loadStateFromDB : Program Unit :=
  .act (.locked fun s c => ((), c.load s))

/-- `PrepareRecovery`. -/
def prepareRecovery : Program Unit := do
  let runningTasks ← view (·.getTasksInState .running)
  requeueAll runningTasks

/-- The start of the process: a new coordinator on the old file, then
`LoadStateFromDB` and `PrepareRecovery`, as in `cmd/coordinator/main.go`. -/
def restart : Program Unit := do
  lockedWrite fun _ => {}
  loadStateFromDB
  prepareRecovery

end DagScheduler
