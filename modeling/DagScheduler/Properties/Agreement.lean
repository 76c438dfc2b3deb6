import DagScheduler.Coordinator.Runs

/-!
# Memory and store agree

The ready queue and the two maps of running tasks say the same as the task
records, between any two operations of a run that reuses no ID.  The parts
that make this inductive are in `Inv`: an assigned task is stored as
`RUNNING`, or as `SKIPPED` if it was given up while it ran, and the tasks of
a running workflow are in the caches, so `GetReadyTask` drops none of them.
-/

namespace DagScheduler

open Lib Store

/-- The scheduling state in memory and the one in the store agree. -/
structure MemoryAgrees (w : World) : Prop where
  nodup : w.coord.readyQueue.Nodup
  queued : ∀ t ∈ w.coord.readyQueue, w.store.stateOf t = some .queued
  listed : ∀ (t : String) (r : TaskStateRecord), w.store.taskState[t]? = some r →
    r.state = .queued → w.store.workflowStateOf r.workflowID = some .running →
    t ∈ w.coord.readyQueue
  sameKeys : ∀ t, t ∈ w.coord.runningTasks ↔ t ∈ w.coord.assignedTasks
  disjoint : ∀ t, t ∈ w.coord.runningTasks → t ∉ w.coord.readyQueue
  running : ∀ t, w.store.stateOf t = some .running → t ∈ w.coord.runningTasks
  execution : ∀ t e : String, w.coord.assignedTasks[t]? = some e →
    ∃ r, w.store.taskState[t]? = some r ∧ r.executionID = e

theorem Inv.memoryAgrees {P : WorkflowSpec → Prop} {w : World} (h : Inv P w) :
    MemoryAgrees w where
  nodup := h.agree.nodup
  queued := h.agree.queued
  listed := h.agree.listed
  sameKeys := h.agree.keys
  disjoint := fun t ht => h.agree.not_queued_of_assigned ((h.agree.keys t).mp ht)
  running := h.running
  execution := fun t e ht => by
    obtain ⟨r, hr, he, _⟩ := h.agree.assigned t e ht
    exact ⟨r, hr, he⟩

/-- After every operation of every run that reuses no ID, memory and store
agree. -/
theorem memory_store_agreement (env : Env) (calls : List Call)
    (hids : NeverReused (submitted calls)) : MemoryAgrees (runCalls env calls) :=
  (inv_runCalls env hids).memoryAgrees

/-- A task that is reclaimed from a dead worker, and the restart that finds it
in the queue. -/
def reclaimedRun : List Call :=
  [.submitWorkflow .asListed (.pair .failFast 3), .getReadyTask "k",
    .handleDeadWorker (.asListed _) "k", .restart]

theorem memory_store_agreement_reclaimedRun :
    (runCalls .counting reclaimedRun).coord.readyQueue = ["a"] ∧
      MemoryAgrees (runCalls .counting reclaimedRun) :=
  ⟨by decide, memory_store_agreement .counting reclaimedRun (neverReused_of_one rfl)⟩

end DagScheduler
