import DagScheduler.Lib.Table

/-!
# Messages and stored records

The protobuf messages that the coordinator reads and the records that the
state store keeps, under the names of `proto/scheduler.proto` and
`internal/store/store.go`.

Strings are Lean strings.  A protobuf `string` is valid UTF-8, and Lean
compares strings by code point, which is the byte order of their UTF-8
encodings.  `int32` and `int64` fields are `Int32` and `Int64`, so that the
counters wrap where the Go counters wrap.

The other messages of the worker stream are in `DagScheduler.Model.Stream`.
Left out are the `workers` and `meta` buckets, which no coordinator operation
reads.
-/

namespace DagScheduler

open Lib

/-- `scheduler.TaskState`. -/
inductive TaskState where
  | pending
  | queued
  | running
  | complete
  | failed
  | skipped
  | unknown
deriving DecidableEq, Repr

/-- The states that the switches of the store treat as terminal. -/
def TaskState.terminal : TaskState → Bool
  | .complete | .failed | .skipped => true
  | _ => false

/-- `scheduler.WorkflowState`. -/
inductive WorkflowState where
  | running
  | complete
  | failed
  | cancelled
deriving DecidableEq, Repr

/-- `scheduler.FailurePolicy`.  A proto3 enum is open: a value that names no
constant is kept as the number that was sent. -/
inductive FailurePolicy where
  | failFast
  | skipDownstream
  | continueIndependent
  | unrecognized (value : Int32) (h : value ≠ 0 ∧ value ≠ 1 ∧ value ≠ 2)
deriving DecidableEq, Repr

/-- The policy is one of the three named constants. -/
def FailurePolicy.named : FailurePolicy → Bool
  | .unrecognized _ _ => false
  | _ => true

/-- `scheduler.TaskSpec`. -/
structure TaskSpec where
  taskId : String
  dependencies : List String := []
  command : String := ""
  env : List (String × String) := []
  timeoutSeconds : Int32 := 0
  maxRetries : Int32 := 0
deriving DecidableEq, Repr

/-- `scheduler.WorkflowSpec`. -/
structure WorkflowSpec where
  workflowId : String
  tasks : List TaskSpec
  failurePolicy : FailurePolicy := .failFast
deriving DecidableEq, Repr

/-- `scheduler.TaskAssignment`. -/
structure TaskAssignment where
  taskId : String
  executionId : String
  command : String
  env : List (String × String)
  timeoutSeconds : Int32
deriving DecidableEq, Repr

/-- `scheduler.TaskStatus`. -/
structure TaskStatus where
  taskId : String
  state : TaskState
  attemptCount : Int32
  output : String
  error : String
deriving DecidableEq, Repr

/-- `store.TaskStateRecord`. -/
structure TaskStateRecord where
  taskID : String
  workflowID : String
  state : TaskState
  executionID : String := ""
  attemptCount : Int32 := 0
  lastUpdated : Int64 := 0
  output : String := ""
  error : String := ""
  inDegree : Int32 := 0
  downstreamTaskIDs : List String := []
deriving DecidableEq, Repr

/-- `store.WorkflowStateRecord`. -/
structure WorkflowStateRecord where
  workflowID : String
  state : WorkflowState
  submittedAtMs : Int64 := 0
  completedAtMs : Int64 := 0
deriving DecidableEq, Repr

/-- The task IDs of a workflow, in the order of the message. -/
def WorkflowSpec.taskIDs (wf : WorkflowSpec) : List String :=
  wf.tasks.map (·.taskId)

theorem WorkflowSpec.mem_taskIDs {wf : WorkflowSpec} {id : String} :
    id ∈ wf.taskIDs ↔ ∃ task ∈ wf.tasks, task.taskId = id := List.mem_map

end DagScheduler
