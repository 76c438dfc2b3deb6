import DagScheduler.Lib.Unchecked
import DagScheduler.Model.Records

/-!
# The encodings of the records

`internal/store/serialization.go`: how the store turns a record into the bytes
of a bucket entry and back.  The other modules keep the records themselves in
the buckets, and `Properties.Encoding` and `Properties.Unchecked` say why this
is the same.

A Go string holds any bytes and an enum any `int32`, so the codecs work on raw
records.  `TaskStateRecord.raw` and `WorkflowStateRecord.raw` are the raw forms
of the records of the model.  Writing to a `bytes.Buffer` does not fail, so the
encoders are plain functions.  The memory that a length asks for is always
there.

`unmarshalTaskRecord` looks at the errors of its reads, the other two decoders
ignore them.  They have a `readString` of their own, which is
`readStringUnchecked` here.
-/

namespace DagScheduler

open Lib Reader

/-- `store.TaskStateRecord`, field by field as Go has it. -/
structure RawTaskRecord where
  taskID : Bytes
  workflowID : Bytes
  state : Int32
  executionID : Bytes
  attemptCount : Int32
  lastUpdated : Int64
  output : Bytes
  error : Bytes
  inDegree : Int32
  downstreamTaskIDs : List Bytes
deriving DecidableEq, Repr

/-- `store.WorkflowStateRecord`, field by field as Go has it. -/
structure RawWorkflowStateRecord where
  workflowID : Bytes
  state : Int32
  submittedAtMs : Int64
  completedAtMs : Int64
deriving DecidableEq, Repr

/-- `store.WorkerRecord`, field by field as Go has it. -/
structure RawWorkerRecord where
  workerID : Bytes
  lastHeartbeat : Int64
  runningTaskIDs : List Bytes
  queuedTaskIDs : List Bytes
  lastUpdated : Int64
deriving DecidableEq, Repr

/-- The number of a state in `scheduler.proto`. -/
def TaskState.number : TaskState → Int32
  | .pending => 0
  | .queued => 1
  | .running => 2
  | .complete => 3
  | .failed => 4
  | .skipped => 5
  | .unknown => 6

/-- The number of a workflow state in `scheduler.proto`. -/
def WorkflowState.number : WorkflowState → Int32
  | .running => 0
  | .complete => 1
  | .failed => 2
  | .cancelled => 3

/-- The bytes of a string. -/
def stringBytes (s : String) : Bytes := s.toUTF8.data.toList

/-- The raw form of a record. -/
def TaskStateRecord.raw (r : TaskStateRecord) : RawTaskRecord where
  taskID := stringBytes r.taskID
  workflowID := stringBytes r.workflowID
  state := r.state.number
  executionID := stringBytes r.executionID
  attemptCount := r.attemptCount
  lastUpdated := r.lastUpdated
  output := stringBytes r.output
  error := stringBytes r.error
  inDegree := r.inDegree
  downstreamTaskIDs := r.downstreamTaskIDs.map stringBytes

/-- The raw form of a workflow state. -/
def WorkflowStateRecord.raw (r : WorkflowStateRecord) : RawWorkflowStateRecord where
  workflowID := stringBytes r.workflowID
  state := r.state.number
  submittedAtMs := r.submittedAtMs
  completedAtMs := r.completedAtMs

/-! ## `marshalTaskRecord` -/

/-- The closure `writeString`. -/
def writeString (str : Bytes) : Bytes := ofInt32 (Int32.ofNat str.length) ++ str

/-- The bytes before the downstream count.  Records were written without the
rest before there was one. -/
def marshalMandatory (r : RawTaskRecord) : Bytes :=
  writeString r.taskID ++ writeString r.workflowID ++ ofInt32 r.state ++
    writeString r.executionID ++ ofInt32 r.attemptCount ++ ofInt64 r.lastUpdated ++
    writeString r.output ++ writeString r.error ++ ofInt32 r.inDegree

/-- The downstream count and the IDs. -/
def marshalDownstream (ids : List Bytes) : Bytes :=
  ofInt32 (Int32.ofNat ids.length) ++ (ids.map writeString).flatten

/-- `marshalTaskRecord`. -/
def marshalTaskRecord (r : RawTaskRecord) : Bytes :=
  marshalMandatory r ++ marshalDownstream r.downstreamTaskIDs

/-! ## `unmarshalTaskRecord` -/

/-- The closure `readString`. -/
def readString : Reader Bytes := do
  let l ← readInt32
  let n ← makeSlice l
  read n

/-- The loop over the downstream IDs.  The first error ends it. -/
def readDownstreamIDs : Nat → Reader (List Bytes)
  | 0 => return []
  | n + 1 => do
    match ← attempt readString with
    | none => return []
    | some id => return id :: (← readDownstreamIDs n)

/-- The section that old records do not have. -/
def readDownstream : Reader (List Bytes) := do
  match ← attempt readInt32 with
  | none => return []
  | some downstreamCount =>
    let n ← makeSlice downstreamCount
    readDownstreamIDs n

/-- The body of `unmarshalTaskRecord`. -/
def readTaskRecord : Reader RawTaskRecord := do
  let taskID ← readString
  let workflowID ← readString
  let state ← readInt32
  let executionID ← readString
  let attemptCount ← readInt32
  let lastUpdated ← readInt64
  let output ← readString
  let error ← readString
  let inDegree ← readInt32
  let downstreamTaskIDs ← readDownstream
  return { taskID, workflowID, state, executionID, attemptCount, lastUpdated, output, error,
           inDegree, downstreamTaskIDs }

/-- `unmarshalTaskRecord`.  What the reader has not read is not looked at. -/
def unmarshalTaskRecord (data : Bytes) : Except ReadFault RawTaskRecord :=
  (readTaskRecord data).map (·.1)

/-! ## Workflow states -/

/-- `marshalWorkflowState`. -/
def marshalWorkflowState (r : RawWorkflowStateRecord) : Bytes :=
  writeString r.workflowID ++ ofInt32 r.state ++ ofInt64 r.submittedAtMs ++
    ofInt64 r.completedAtMs

/-- The closure `readString` of the decoders that ignore errors. -/
def readStringUnchecked : Reader Bytes := do
  let l ← unchecked 0 readInt32
  let n ← makeSlice l
  unchecked (List.replicate n 0) (read n)

/-- The body of `unmarshalWorkflowState`. -/
def readWorkflowState : Reader RawWorkflowStateRecord := do
  let workflowID ← readStringUnchecked
  let state ← unchecked 0 readInt32
  let submittedAtMs ← unchecked 0 readInt64
  let completedAtMs ← unchecked 0 readInt64
  return { workflowID, state, submittedAtMs, completedAtMs }

/-- `unmarshalWorkflowState`.  It returns no error, but it may panic. -/
def unmarshalWorkflowState (data : Bytes) : Except ReadFault RawWorkflowStateRecord :=
  (readWorkflowState data).map (·.1)

/-! ## Workers -/

/-- The loop of `marshalWorkerRecord` over one of the two lists, with the length
before it. -/
def writeTaskIDs (ids : List Bytes) : Bytes :=
  ofInt32 (Int32.ofNat ids.length) ++ (ids.map writeString).flatten

/-- `marshalWorkerRecord`. -/
def marshalWorkerRecord (r : RawWorkerRecord) : Bytes :=
  writeString r.workerID ++ ofInt64 r.lastHeartbeat ++ writeTaskIDs r.runningTaskIDs ++
    writeTaskIDs r.queuedTaskIDs ++ ofInt64 r.lastUpdated

/-- The loop of `unmarshalWorkerRecord` over one of the two lists, with the
length before it. -/
def readTaskIDs : Reader (List Bytes) := do
  let len ← unchecked 0 readInt32
  let n ← makeSlice len
  times readStringUnchecked n

/-- The body of `unmarshalWorkerRecord`. -/
def readWorkerRecord : Reader RawWorkerRecord := do
  let workerID ← readStringUnchecked
  let lastHeartbeat ← unchecked 0 readInt64
  let runningTaskIDs ← readTaskIDs
  let queuedTaskIDs ← readTaskIDs
  let lastUpdated ← unchecked 0 readInt64
  return { workerID, lastHeartbeat, runningTaskIDs, queuedTaskIDs, lastUpdated }

/-- `unmarshalWorkerRecord`.  It returns no error, but it may panic. -/
def unmarshalWorkerRecord (data : Bytes) : Except ReadFault RawWorkerRecord :=
  (readWorkerRecord data).map (·.1)

end DagScheduler
