import DagScheduler.Lib.Trace
import DagScheduler.Model.Stream

/-!
# A worker and its streams

`cmd/worker/main.go`: the process that asks the coordinator for tasks, runs
them and reports the results, together with the streams between the two.

A `Stream` is one `WorkerStream` call.  It has a channel in each direction, and
it may break at any moment.  What is in its channels is lost then.  `runOnce`
uses one stream at a time and opens the next one when the last one is dead.

`recvLoop` starts a goroutine of `executeTask` for every assignment.  An
`Execution` is such a goroutine, and its `TaskPhase` says how far it is.  It keeps
the stream that its assignment came from and sends its result there.

The system moves by `Turn`s, one of a party at a time: a tick of the worker, a
message that arrives, a step of an execution, a stream that opens or breaks,
and the other operations of the coordinator.  The handler of a stream receives
a message, executes the operation and sends the answer in one turn.

A result goes over the stream only if its output is valid UTF-8, since
`proto.Marshal` refuses other strings.  The duration of an execution is left
out, and so is the environment of the process.
-/

namespace DagScheduler

open Lib

/-! ## `executeTask` -/

/-- The longest output that is sent whole. -/
def maxOutputBytes : Nat := 64 * 1024

/-- How a command ended: what it printed, the text of the error of
`CombinedOutput`, and whether the deadline of its context has passed. -/
structure Exit where
  output : ByteArray
  execErr : Option String
  deadlineExceeded : Bool := false
deriving DecidableEq

/-- The `Output` of the result. -/
def Exit.outputStr (exit : Exit) : ByteArray :=
  if exit.output.size > maxOutputBytes then
    exit.output.extract 0 maxOutputBytes ++ "\n[output truncated]".toUTF8
  else
    exit.output

/-- The `Error` of the result. -/
def Exit.errMsg (exit : Exit) (timeoutSeconds : Int32) : String :=
  match exit.execErr with
  | none => ""
  | some err =>
    if exit.deadlineExceeded = true then
      "task timed out after " ++ toString timeoutSeconds ++ "s"
    else
      "execution error: " ++ err

/-- The message that `executeTask` sends, or nothing if it cannot be
marshalled. -/
def Exit.result (exit : Exit) (assignment : TaskAssignment) : Option TaskResult :=
  (String.fromUTF8? exit.outputStr).map fun output =>
    { taskId := assignment.taskId
      executionId := assignment.executionId
      success := exit.execErr.isNone
      output := output
      error := exit.errMsg assignment.timeoutSeconds }

/-- How far a goroutine of `executeTask` is: before its first line, while the
command runs, with a result that is not sent, and before the deferred
function. -/
inductive TaskPhase where
  | spawned
  | executing
  | reporting (exit : Exit)
  | leaving
deriving DecidableEq

/-- A goroutine of `executeTask`. -/
structure Execution where
  stream : Nat
  assignment : TaskAssignment
  phase : TaskPhase := .spawned
deriving DecidableEq

/-! ## The parties -/

/-- `Worker`, with its goroutines. -/
structure Worker where
  id : String
  capacity : Int32
  running : Table String Bool := ∅
  executions : List Execution := []

/-- The `available` of the request ticker. -/
def Worker.available (w : Worker) : Int32 := w.capacity - Int32.ofNat w.running.size

/-- A `WorkerStream` with its two channels, oldest message first, and the
`workerID` of the handler. -/
structure Stream where
  live : Bool := true
  workerID : String := ""
  toCoordinator : List WorkerMessage := []
  toWorker : List CoordinatorMessage := []

/-- The stream breaks. -/
def Stream.break (s : Stream) : Stream :=
  { s with live := false, toCoordinator := [], toWorker := [] }

/-- `Send` of the worker. -/
def Stream.send (s : Stream) (msg : WorkerMessage) : Stream :=
  if s.live = true then { s with toCoordinator := s.toCoordinator ++ [msg] } else s

/-- The coordinator, the worker, and all streams, the current one last. -/
structure Cluster where
  world : World := {}
  worker : Worker
  streams : List Stream := []

/-! ## The turns -/

/-- What happens next. -/
inductive Turn where
  | connect
  | lose (i : Nat)
  | requestTick
  | heartbeatTick (nowMs : Int64) (order : RangeOrder String)
  | serve (i : Nat)
  | receive (i : Nat)
  | register (j : Nat)
  | finish (j : Nat) (exit : Exit)
  | report (j : Nat)
  | deregister (j : Nat)
  | other (c : Call)

namespace Cluster

/-- `Send` on the stream with the number `i`. -/
def send (c : Cluster) (i : Nat) (payload : WorkerPayload) : Cluster :=
  { c with streams := c.streams.modify i (·.send ⟨c.worker.id, payload⟩) }

/-- `runOnce` opens a stream when there is none. -/
def connect (c : Cluster) : Cluster :=
  if c.streams.any (·.live) then c else { c with streams := c.streams ++ [{}] }

/-- The ticker of the requests. -/
def requestTick (c : Cluster) : Cluster :=
  if c.worker.available ≤ 0 then c
  else c.send (c.streams.length - 1) (.taskRequest c.worker.available)

/-- The ticker of the heartbeats. -/
def heartbeatTick (c : Cluster) (nowMs : Int64) (order : RangeOrder String) : Cluster :=
  c.send (c.streams.length - 1) (.heartbeat nowMs (order.visit c.worker.running.keys))

/-- One round of `HandleStream` on the stream `i`. -/
def serve (env : Env) (c : Cluster) (i : Nat) : Cluster :=
  match c.streams[i]? with
  | none => c
  | some s =>
    match s.toCoordinator with
    | [] => c
    | msg :: rest =>
      let workerID := if s.workerID = "" then msg.workerId else s.workerID
      let out := (handleMessage workerID msg.payload).run (Action.handle env) c.world
      { c with
        world := out.2
        streams := c.streams.set i { s with
          workerID := workerID
          toCoordinator := rest
          toWorker := s.toWorker ++ out.1.toList } }

/-- One round of `recvLoop` on the stream `i`. -/
def receive (c : Cluster) (i : Nat) : Cluster :=
  match c.streams[i]? with
  | none => c
  | some s =>
    match s.toWorker with
    | [] => c
    | msg :: rest =>
      let c := { c with streams := c.streams.set i { s with toWorker := rest } }
      match msg with
      | .taskAssignment assignment =>
        { c with worker := { c.worker with
            executions := c.worker.executions ++ [{ stream := i, assignment := assignment }] } }
      | _ => c

/-- The execution `j` goes on to another phase. -/
def advance (c : Cluster) (j : Nat) (phase : TaskPhase) : Cluster :=
  { c with worker := { c.worker with
      executions := c.worker.executions.modify j ({ · with phase := phase }) } }

/-- The execution `j` enters itself into `running`. -/
def register (c : Cluster) (j : Nat) : Cluster :=
  match c.worker.executions[j]? with
  | some ⟨_, assignment, .spawned⟩ =>
    let c := c.advance j .executing
    { c with worker := { c.worker with
        running := c.worker.running.insert assignment.taskId true } }
  | _ => c

/-- The command of the execution `j` ends. -/
def finish (c : Cluster) (j : Nat) (exit : Exit) : Cluster :=
  match c.worker.executions[j]? with
  | some ⟨_, _, .executing⟩ => c.advance j (.reporting exit)
  | _ => c

/-- The execution `j` sends its result.  An error of `Send` is logged. -/
def report (c : Cluster) (j : Nat) : Cluster :=
  match c.worker.executions[j]? with
  | some ⟨stream, assignment, .reporting exit⟩ =>
    let c := c.advance j .leaving
    match exit.result assignment with
    | some result => c.send stream (.taskResult result)
    | none => c
  | _ => c

/-- The deferred function of the execution `j`. -/
def deregister (c : Cluster) (j : Nat) : Cluster :=
  match c.worker.executions[j]? with
  | some ⟨_, assignment, .leaving⟩ =>
    { c with worker := { c.worker with
        running := c.worker.running.erase assignment.taskId
        executions := c.worker.executions.eraseIdx j } }
  | _ => c

/-- The call is neither a restart nor a request under the ID of the worker. -/
def isForeign (c : Cluster) : Call → Bool
  | .restart => false
  | .getReadyTask workerID => workerID ≠ c.worker.id
  | _ => true

/-- One turn.  A turn of a party that cannot move does nothing. -/
def step (env : Env) (c : Cluster) : Turn → Cluster
  | .connect => c.connect
  | .lose i => { c with streams := c.streams.modify i (·.break) }
  | .requestTick => c.requestTick
  | .heartbeatTick nowMs order => c.heartbeatTick nowMs order
  | .serve i => c.serve env i
  | .receive i => c.receive i
  | .register j => c.register j
  | .finish j exit => c.finish j exit
  | .report j => c.report j
  | .deregister j => c.deregister j
  | .other call =>
    if c.isForeign call = true then { c with world := (call.exec env c.world).2 } else c

end Cluster

end DagScheduler
