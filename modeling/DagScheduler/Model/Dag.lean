import DagScheduler.Model.Records

/-!
# The DAG resolver

`internal/coordinator/dag.go`.  `validateAndSort` checks a submitted
workflow and computes the in-degrees and the downstream lists that the
store keeps for each task.

Go ranges over a map in an unspecified order.  Every `range` over a map of
the source takes a `RangeOrder` here, and `DagOrders` collects them: the
order in which the dependencies are checked, in which they are linked, in
which the search visits its roots, and in which the ready tasks are listed.
The loop that colours every task white ranges over a map too, but the
colours it leaves do not depend on its order.

`visit` recurses along the dependencies of a task.  `fuel` bounds the depth
of that recursion, and `hasCycle` gives it one more than the number of
tasks.  `DagError.diverged` stands for a search that needs more.
-/

namespace DagScheduler

open Lib

/-- The errors of `ValidateAndSort`, with the task IDs that their texts
carry. -/
inductive DagError where
  | cyclicDAG (taskID : String)
  | missingDependency (taskID dep : String)
  | duplicateTaskID
  | diverged
deriving DecidableEq, Repr

/-- The error text as `fmt.Errorf` builds it. -/
def DagError.message : DagError → String
  | .cyclicDAG taskID =>
      "DAG contains a cycle: found cycle involving task " ++ taskID
  | .missingDependency taskID dep =>
      "dependency references non-existent task: task " ++ taskID
        ++ " depends on non-existent task " ++ dep
  | .duplicateTaskID => "duplicate task ID in workflow"
  | .diverged => ""

/-- `coordinator.DAG`. -/
structure DAG where
  tasks : Table String TaskSpec := ∅
  dependencies : Table String (List String) := ∅
  downstream : Table String (List String) := ∅
  inDegree : Table String Int32 := ∅

/-- One order for each `range` over a map of the resolver. -/
structure DagOrders where
  check : RangeOrder String
  link : RangeOrder String
  search : RangeOrder String
  ready : RangeOrder String

/-- Every range visits the keys as the table lists them. -/
def DagOrders.asListed : DagOrders :=
  ⟨.asListed _, .asListed _, .asListed _, .asListed _⟩

namespace DAG

/-- Add one task to the task map, with no downstream task and in-degree 0. -/
def addTask (dag : DAG) (task : TaskSpec) : Except DagError DAG :=
  if task.taskId ∈ dag.tasks then
    .error .duplicateTaskID
  else
    .ok
      { tasks := dag.tasks.insert task.taskId task
        inDegree := dag.inDegree.insert task.taskId 0
        dependencies := dag.dependencies.insert task.taskId task.dependencies
        downstream := dag.downstream.insert task.taskId [] }

/-- All dependencies of `taskID` exist. -/
def checkDependencies (dag : DAG) (taskID : String) : Except DagError Unit :=
  (dag.dependencies.getD taskID []).forM fun dep =>
    if dep ∈ dag.tasks then .ok () else .error (.missingDependency taskID dep)

/-- Record that `taskID` waits for `dep`. -/
def addEdge (taskID : String) (dag : DAG) (dep : String) : DAG :=
  { dag with
    downstream :=
      dag.downstream.insert dep (dag.downstream.getD dep [] ++ [taskID])
    inDegree := dag.inDegree.insert taskID (dag.inDegree.getD taskID 0 + 1) }

/-- Record every dependency of `taskID`. -/
def linkTask (dag : DAG) (taskID : String) : DAG :=
  (dag.dependencies.getD taskID []).foldl (addEdge taskID) dag

/-- The colours of the depth-first search. -/
inductive Color where
  | white
  | gray
  | black
deriving DecidableEq, Repr

/-- The recursive `visit` of `hasCycle`.  The answer is the colour map after
the visit. -/
def visit (dag : DAG) :
    Nat → Table String Color → String → Except DagError (Table String Color)
  | 0, _, _ => .error .diverged
  | fuel + 1, color, taskID =>
    match color.getD taskID .white with
    | .gray => .error (.cyclicDAG taskID)
    | .black => .ok color
    | .white => do
      let color ← (dag.dependencies.getD taskID []).foldlM (visit dag fuel)
        (color.insert taskID .gray)
      return color.insert taskID .black

/-- `DAG.hasCycle`.  A root that an earlier root has coloured is passed
over. -/
def hasCycle (order : RangeOrder String) (dag : DAG) : Except DagError Unit := do
  let white := dag.tasks.keys.foldl (·.insert · .white) (∅ : Table String Color)
  let _ ← (order.visit dag.tasks.keys).foldlM
    (fun color taskID =>
      if color.getD taskID .white = .white then
        visit dag (dag.tasks.keys.length + 1) color taskID
      else .ok color)
    white
  return ()

/-- `DAG.GetReadyTasks`: the tasks with in-degree 0. -/
def getReadyTasks (order : RangeOrder String) (dag : DAG) : List String :=
  (order.visit dag.inDegree.keys).filter
    (fun taskID => dag.inDegree.getD taskID 0 = 0)

end DAG

/-- `ValidateAndSort`. -/
def validateAndSort (orders : DagOrders) (workflow : WorkflowSpec) :
    Except DagError DAG := do
  let dag ← workflow.tasks.foldlM DAG.addTask {}
  (orders.check.visit dag.dependencies.keys).forM dag.checkDependencies
  let dag := (orders.link.visit dag.dependencies.keys).foldl DAG.linkTask dag
  dag.hasCycle orders.search
  return dag

end DagScheduler
