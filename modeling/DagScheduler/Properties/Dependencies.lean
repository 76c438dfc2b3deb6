import DagScheduler.Coordinator.Runs

/-!
# Dependency safety

The in-degree counter of a waiting task is the number of its dependencies
that are not complete, and no task is ahead of its dependencies.  Both hold
after every transaction of every run that reuses no ID, whatever calls are
made in whatever order and wherever they are cut by a crash: a state of a
`CrashRun` is the state after any prefix of the actions of any call.
-/

namespace DagScheduler

open Lib Store

/-- In a sound store the dependencies of a submitted task are those of its
specification. -/
theorem Store.Sound.depsOf_task {specs : List WorkflowSpec} {s : Store}
    (hs : s.Sound (· ∈ specs)) (hids : NeverReused specs) {wf : WorkflowSpec}
    (hwf : wf ∈ specs) {task : TaskSpec} (htask : task ∈ wf.tasks)
    {r : TaskStateRecord} (hr : s.taskState[task.taskId]? = some r) :
    s.workflows[r.workflowID]? = some wf ∧ s.depsOf task.taskId = task.dependencies := by
  have hl := hs.coherent.linked
  have hin : task.taskId ∈ wf.taskIDs := WorkflowSpec.mem_taskIDs.mpr ⟨task, htask, rfl⟩
  obtain ⟨wf', hwf', hin'⟩ := hl.owned _ r hr
  have heq := hids.eq_of_task hwf (hs.stored _ _ hwf') hin hin'
  subst heq
  refine ⟨hwf', ?_⟩
  rw [hl.depsOf_eq hwf' hin hr,
    WorkflowSpec.dependenciesOf_of_mem (hl.workflow _ _ hwf').2.2.nodup htask]

/-- The counter of a waiting task is right, and a task that is past waiting
has complete dependencies, after every transaction of every run. -/
theorem dependency_safety {env : Env} {calls : List Call} {up : Bool} {w : World}
    (hrun : CrashRun env calls up w) (hids : NeverReused (submitted calls))
    {wf : WorkflowSpec} (hwf : wf ∈ submitted calls) {task : TaskSpec}
    (htask : task ∈ wf.tasks) {r : TaskStateRecord}
    (hr : w.store.taskState[task.taskId]? = some r) :
    (r.state = .pending →
      r.inDegree.toInt = task.dependencies.countP
        fun d => w.store.stateOf d ≠ some .complete) ∧
    (r.state = .queued ∨ r.state = .running ∨ r.state = .complete ∨
        r.state = .failed →
      ∀ d ∈ task.dependencies, w.store.stateOf d = some .complete) := by
  have hs := hrun.sound hids
  have hdeps := (hs.depsOf_task hids hwf htask hr).2
  constructor
  · intro hp
    have hwait := hs.coherent.counted.waiting _ r hr hp
    rw [hwait, outstanding, hdeps]
    simp [isComplete]
  · intro hst d hd
    have hunblocked : r.state.unblocked = true := by
      rcases hst with hst | hst | hst | hst <;> rw [hst] <;> rfl
    have hready := hs.coherent.counted.ready _ r hr hunblocked
    rw [DepsComplete, hdeps] at hready
    simpa [isComplete] using hready d hd

/-- A completion that is cut right after its transaction. -/
def cutCompletion : World :=
  Call.execFor .counting 2 (.completeTask "a" "x" "")
    (runCalls .counting
      [.submitWorkflow .asListed (.pair .failFast 0), .getReadyTask "k"])

theorem dependency_safety_cutCompletion :
    cutCompletion.store.stateOf "b" = some .queued ∧
      ∀ d ∈ ["a", "a"], cutCompletion.store.stateOf d = some .complete := by
  refine ⟨by decide, ?_⟩
  have hrun : CrashRun .counting _ false cutCompletion :=
    .cut (.completeTask "a" "x" "") 2 (crashRun_runCalls .counting
      [.submitWorkflow .asListed (.pair .failFast 0), .getReadyTask "k"])
  have hwf : WorkflowSpec.pair .failFast 0 ∈ submitted
      [.submitWorkflow .asListed (.pair .failFast 0), .getReadyTask "k",
        .completeTask "a" "x" ""] := by decide
  have htask : { taskId := "b", dependencies := ["a", "a"] }
      ∈ (WorkflowSpec.pair .failFast 0).tasks := by decide
  have hr : cutCompletion.store.taskState["b"]? = some
      { taskID := "b", workflowID := "w", state := .queued, lastUpdated := 5 } := by
    decide
  exact (dependency_safety hrun (neverReused_of_one rfl) hwf htask hr).2 (.inl rfl)

end DagScheduler
