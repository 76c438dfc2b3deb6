import DagScheduler.Model.Coordinator

/-!
# Runs of the coordinator

A `Call` is one operation with its arguments, and `Call.exec` executes it to
its end.  `runCalls` is a run of operations one at a time from an empty
database.  A `restart` between two operations is one of the calls.

`CrashRun` adds the crashes.  A call that is cut after `n` of its actions
leaves the process down, and the next thing to run is a restart, which may
be cut in turn.  A run that is up accepts any call.

`NeverReused` is the assumption that no two submissions share a workflow ID
or a task ID.
-/

namespace DagScheduler

open Lib

/-- One operation of the coordinator, with its arguments. -/
inductive Call where
  | submitWorkflow (orders : DagOrders) (workflow : WorkflowSpec)
  | getReadyTask (workerID : String)
  | completeTask (taskID executionID output : String)
  | failTask (taskID executionID errMsg : String)
  | cancelWorkflow (workflowID : String)
  | handleDeadWorker (order : RangeOrder String) (workerID : String)
  | restart

/-- What an operation returns. -/
inductive Reply where
  | assignment (a : Option TaskAssignment)
  | status (result : Except CallError Unit)
  | restarted

/-- `nil` in the place of an error. -/
def Reply.isNil : Reply → Bool
  | .status (.ok _) => true
  | _ => false

namespace Call

/-- The program of a call. -/
def prog : Call → Program Reply
  | .submitWorkflow orders workflow => do
      return .status (← DagScheduler.submitWorkflow orders workflow)
  | .getReadyTask workerID => do
      return .assignment (← DagScheduler.getReadyTask workerID)
  | .completeTask taskID executionID output => do
      return .status (← DagScheduler.completeTask taskID executionID output)
  | .failTask taskID executionID errMsg => do
      return .status (← DagScheduler.failTask taskID executionID errMsg)
  | .cancelWorkflow workflowID => do
      return .status (← DagScheduler.cancelWorkflow workflowID)
  | .handleDeadWorker order workerID => do
      return .status (← DagScheduler.handleDeadWorker order workerID)
  | .restart => do
      DagScheduler.restart
      return .restarted

variable (env : Env)

/-- Execute a call to its end. -/
def exec (c : Call) (w : World) : Reply × World :=
  c.prog.run (Action.handle env) w

/-- Execute the first `n` actions of a call. -/
def execFor (n : Nat) (c : Call) (w : World) : World :=
  c.prog.runFor (Action.handle env) n w

/-- The specification that a call submits. -/
def submits : Call → Option WorkflowSpec
  | .submitWorkflow _ workflow => some workflow
  | _ => none

/-- The operations on tasks. -/
def onTasks : Call → Bool
  | .getReadyTask _ | .completeTask _ _ _ | .failTask _ _ _ | .handleDeadWorker _ _ => true
  | _ => false

end Call

/-- The state after a run of calls, one at a time, from an empty database. -/
def runCalls (env : Env) (calls : List Call) : World :=
  calls.foldl (fun w c => (c.exec env w).2) {}

theorem runCalls_append (env : Env) (calls : List Call) (c : Call) :
    runCalls env (calls ++ [c]) = (c.exec env (runCalls env calls)).2 := by
  simp [runCalls]

/-- The calls with their replies, in order, from the state `w`. -/
def historyFrom (env : Env) : World → List Call → List (Call × Reply)
  | _, [] => []
  | w, c :: calls =>
      (c, (c.exec env w).1) :: historyFrom env (c.exec env w).2 calls

/-- The calls of a run with their replies, in order. -/
def history (env : Env) (calls : List Call) : List (Call × Reply) :=
  historyFrom env {} calls

theorem history_append (env : Env) (calls : List Call) (c : Call) :
    history env (calls ++ [c])
      = history env calls ++ [(c, (c.exec env (runCalls env calls)).1)] := by
  have h : ∀ w : World, historyFrom env w (calls ++ [c]) = historyFrom env w calls
      ++ [(c, (c.exec env (calls.foldl (fun w c => (c.exec env w).2) w)).1)] := by
    induction calls with
    | nil => exact fun _ => rfl
    | cons d calls ih =>
      intro w
      rw [List.cons_append, historyFrom, ih]
      rfl
  exact h {}

/-- The specifications that a run submits, in order. -/
def submitted (calls : List Call) : List WorkflowSpec :=
  calls.filterMap Call.submits

/-- No two submissions share a workflow ID or a task ID. -/
def NeverReused (specs : List WorkflowSpec) : Prop :=
  specs.Pairwise fun a b =>
    a.workflowId ≠ b.workflowId ∧ a.taskIDs.Disjoint b.taskIDs

/-- A run with one submission reuses no ID. -/
theorem neverReused_of_one {calls : List Call} {wf : WorkflowSpec}
    (h : submitted calls = [wf]) : NeverReused (submitted calls) := by
  rw [h]
  exact List.pairwise_singleton _ _

/-- A run with crashes.  The first index lists the calls that were started,
the second says whether the process is up. -/
inductive CrashRun (env : Env) : List Call → Bool → World → Prop where
  | start : CrashRun env [] true {}
  | call {calls : List Call} {w : World} (c : Call) :
      CrashRun env calls true w →
      CrashRun env (calls ++ [c]) true (c.exec env w).2
  | cut {calls : List Call} {w : World} (c : Call) (n : Nat) :
      CrashRun env calls true w →
      CrashRun env (calls ++ [c]) false (c.execFor env n w)
  | cutAgain {calls : List Call} {w : World} (n : Nat) :
      CrashRun env calls false w →
      CrashRun env (calls ++ [.restart]) false (Call.restart.execFor env n w)
  | recover {calls : List Call} {w : World} :
      CrashRun env calls false w →
      CrashRun env (calls ++ [.restart]) true (Call.restart.exec env w).2

/-- An environment that can be evaluated: the clock counts its readings, the
`n`-th UUID is a string of length `n + 1`, and only the bound on the
dependency lists makes a specification too large. -/
def Env.counting : Env where
  now n := Int64.ofNat n
  uuid n := String.ofList (List.replicate (n + 1) 'x')
  uuid_injective := by
    intro m n h
    simpa using congrArg String.length h
  marshals wf := wf.tasks.all fun task => task.dependencies.length < 2 ^ 31
  marshals_bounded := by
    intro wf h task htask
    simpa using List.all_eq_true.mp h task htask

/-- A workflow of two tasks in which the second names the first twice. -/
def WorkflowSpec.pair (policy : FailurePolicy) (maxRetries : Int32) : WorkflowSpec where
  workflowId := "w"
  tasks :=
    [{ taskId := "a", maxRetries := maxRetries },
     { taskId := "b", dependencies := ["a", "a"], maxRetries := maxRetries }]
  failurePolicy := policy

/-- A workflow of one task beside `WorkflowSpec.pair`. -/
def WorkflowSpec.beside : WorkflowSpec where
  workflowId := "v"
  tasks := [{ taskId := "c" }]

/-- A workflow of three tasks that do not depend on each other. -/
def WorkflowSpec.roots (policy : FailurePolicy) (maxRetries : Int32) : WorkflowSpec where
  workflowId := "w"
  tasks := [{ taskId := "a", maxRetries := maxRetries },
    { taskId := "b", maxRetries := maxRetries }, { taskId := "c", maxRetries := maxRetries }]
  failurePolicy := policy

end DagScheduler
