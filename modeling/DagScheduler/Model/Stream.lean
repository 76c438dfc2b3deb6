import DagScheduler.Model.Run

/-!
# Workers, seen from the coordinator

`internal/coordinator/heartbeat.go` and `internal/worker/worker.go`: the
monitor that declares workers dead, and what the coordinator does with a
message of a worker.

`Run` of the monitor is an endless loop over a ticker, and `scan` is one round
of it.  `GetDeadWorkers` ranges over a map, so it takes the order of the range,
and so do `Snapshot` and every `HandleDeadWorker` that the round calls.  Ages
are `time.Duration`s, that is, 64-bit nanoseconds that wrap around.

`HandleStream` remembers the worker ID of the first message and handles one
message after the other.  `handleMessage` is the body of its loop under that
ID.  An error of `CompleteTask` or `FailTask` is logged and goes nowhere else.
-/

namespace DagScheduler

open Lib Program

/-! ## Messages -/

/-- `scheduler.TaskResult`, without the duration, which is only logged. -/
structure TaskResult where
  taskId : String
  executionId : String
  success : Bool
  output : String
  error : String
deriving DecidableEq, Repr

/-- The `oneof` of `scheduler.WorkerMessage`.  `unset` is a message without a
payload. -/
inductive WorkerPayload where
  | taskRequest (capacity : Int32)
  | heartbeat (timestampUnixMs : Int64) (runningTaskIds : List String)
  | taskResult (result : TaskResult)
  | unset
deriving DecidableEq, Repr

/-- `scheduler.WorkerMessage`. -/
structure WorkerMessage where
  workerId : String
  payload : WorkerPayload
deriving DecidableEq, Repr

/-- `scheduler.CoordinatorMessage`. -/
inductive CoordinatorMessage where
  | taskAssignment (assignment : TaskAssignment)
  | noTask (waitMs : Int32)
  | ping (timestampUnixMs : Int64)
deriving DecidableEq, Repr

/-! ## The heartbeat monitor -/

namespace HeartbeatMonitor

/-- `UpdateHeartbeat`. -/
def updateHeartbeat (h : HeartbeatMonitor) (workerID : String) (timestampMs : Int64)
    (runningTasks : List String) : HeartbeatMonitor :=
  { lastHeartbeat := h.lastHeartbeat.insert workerID timestampMs
    runningTasks := h.runningTasks.insert workerID runningTasks }

/-- The age of a heartbeat, in nanoseconds. -/
def age (nowMs lastHeartbeatMs : Int64) : Int64 := (nowMs - lastHeartbeatMs) * 1000000

/-- `GetDeadWorkers`. -/
def getDeadWorkers (h : HeartbeatMonitor) (order : RangeOrder String)
    (deadThreshold nowMs : Int64) : List String :=
  (order.visit h.lastHeartbeat.keys).filter fun workerID =>
    h.lastHeartbeat[workerID]?.any fun lastHeartbeatMs =>
      deadThreshold < age nowMs lastHeartbeatMs

end HeartbeatMonitor

/-- `coordinator.WorkerHealthSnapshot`. -/
structure WorkerHealthSnapshot where
  workerID : String
  lastHeartbeatMs : Int64
  ageMs : Int64
  runningTaskIDs : List String
  healthy : Bool
deriving DecidableEq, Repr

/-- `Snapshot`. -/
def HeartbeatMonitor.snapshot (h : HeartbeatMonitor) (order : RangeOrder String)
    (deadThreshold nowMs : Int64) : List WorkerHealthSnapshot :=
  (order.visit h.lastHeartbeat.keys).filterMap fun workerID =>
    h.lastHeartbeat[workerID]?.map fun lastHeartbeatMs =>
      { workerID := workerID
        lastHeartbeatMs := lastHeartbeatMs
        ageMs := nowMs - lastHeartbeatMs
        runningTaskIDs := h.runningTasks.getD workerID []
        healthy := age nowMs lastHeartbeatMs ≤ deadThreshold }

/-- Delete a worker from the monitor. -/
def untrack (workerID : String) : Program Unit :=
  lockedWrite fun c => { c with heartbeat := c.heartbeat.removeWorker workerID }

/-- The loop over the dead workers in `Run`.  An error of `HandleDeadWorker` is
logged, and the loop goes on. -/
def handleDeadWorkers (orders : String → RangeOrder String) : List String → Program Unit
  | [] => return ()
  | workerID :: rest => do
    let _ ← handleDeadWorker (orders workerID) workerID
    untrack workerID
    handleDeadWorkers orders rest

/-- One round of `Run`. -/
def scan (order : RangeOrder String) (orders : String → RangeOrder String)
    (deadThreshold nowMs : Int64) : Program Unit := do
  let deadWorkers ← lockedRead (·.heartbeat.getDeadWorkers order deadThreshold nowMs)
  handleDeadWorkers orders deadWorkers

/-! ## The stream handler -/

/-- `handleTaskRequest`, up to the message that it sends. -/
def handleTaskRequest (workerID : String) : Program CoordinatorMessage := do
  match ← getReadyTask workerID with
  | some task => return .taskAssignment task
  | none => return .noTask 1000

/-- `handleHeartbeat`. -/
def handleHeartbeat (workerID : String) (timestampUnixMs : Int64)
    (runningTaskIds : List String) : Program Unit :=
  lockedWrite fun c => { c with
    heartbeat := c.heartbeat.updateHeartbeat workerID timestampUnixMs runningTaskIds }

/-- `handleTaskResult`. -/
def handleTaskResult (result : TaskResult) : Program Unit := do
  if result.success then
    let _ ← completeTask result.taskId result.executionId result.output
    return ()
  else
    let _ ← failTask result.taskId result.executionId result.error
    return ()

/-- The switch of `HandleStream`, with the message that goes back. -/
def handleMessage (workerID : String) : WorkerPayload → Program (Option CoordinatorMessage)
  | .taskRequest _ => do
    return some (← handleTaskRequest workerID)
  | .heartbeat timestampUnixMs runningTaskIds => do
    handleHeartbeat workerID timestampUnixMs runningTaskIds
    return none
  | .taskResult result => do
    handleTaskResult result
    return none
  | .unset => return none

end DagScheduler
