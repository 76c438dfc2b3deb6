import DagScheduler.Coordinator.Steady
import DagScheduler.Model.Stream

/-!
# Who owns a task

`runningTasks` and `assignedTasks` say which worker has a task and under which
execution.  Only `GetReadyTask` adds to them, and it adds one task, which it
answers with.  Every other program of the coordinator takes entries out or
leaves them alone: `GivesNone`.
-/

namespace DagScheduler

open Lib Program

/-- All tasks that are owned now were owned in `c`, by the same workers and
under the same executions. -/
structure OwnedIn (c : Coordinator) (w : World) : Prop where
  running : ∀ t k : String, w.coord.runningTasks[t]? = some k → c.runningTasks[t]? = some k
  assigned : ∀ t e : String, w.coord.assignedTasks[t]? = some e → c.assignedTasks[t]? = some e

theorem OwnedIn.refl (w : World) : OwnedIn w.coord w := ⟨fun _ _ h => h, fun _ _ h => h⟩

theorem OwnedIn.of_eq {c : Coordinator} {w w' : World} (h : OwnedIn c w)
    (hrun : w'.coord.runningTasks = w.coord.runningTasks)
    (hassigned : w'.coord.assignedTasks = w.coord.assignedTasks) : OwnedIn c w' := by
  refine ⟨fun t k ht => h.running t k ?_, fun t e ht => h.assigned t e ?_⟩
  · rw [← hrun]
    exact ht
  · rw [← hassigned]
    exact ht

/-- No action of the program gives a task to a worker. -/
def GivesNone (env : Env) {α : Type} (p : Program α) : Prop :=
  ∀ c, p.Preserves (Action.handle env) (OwnedIn c)

section Programs

variable {env : Env} {α : Type}

theorem steady_ownedIn (c : Coordinator) : Steady env (OwnedIn c) where
  rewrites _ h := h.of_eq rfl rfl
  closes _ _ _ h := h.of_eq rfl rfl
  eases hc h := ⟨fun t k ht => h.running t k (hc.running t k ht),
    fun t e ht => h.assigned t e (hc.assigned t e ht)⟩
  draws h := h.of_eq rfl rfl

/-- A submission leaves the owners and the monitor alone. -/
theorem Steady.submitWorkflow {J : World → Prop} (h : Steady env J)
    (hsame : ∀ {w w' : World}, w'.coord.runningTasks = w.coord.runningTasks →
      w'.coord.assignedTasks = w.coord.assignedTasks →
      w'.coord.heartbeat = w.coord.heartbeat → J w → J w')
    (orders : DagOrders) (wf : WorkflowSpec) :
    (submitWorkflow orders wf).Preserves (Action.handle env) J := by
  have hupdate : ∀ {β : Type} (op : StoreOp β),
      (Program.update op).Preserves (Action.handle env) J := by
    intro β op
    refine Prog.preserves_act fun w hw => ?_
    have hcoord : (Action.handle env (.update op) w).2.coord = w.coord := rfl
    exact hsame (by rw [hcoord]) (by rw [hcoord]) (by rw [hcoord]) hw
  rw [DagScheduler.submitWorkflow]
  cases validateAndSort orders wf with
  | error e => trivial
  | ok dag =>
    refine preserves_tryUpdate (hupdate _) fun _ => preserves_tryUpdate (hupdate _) fun _ =>
      preserves_tryUpdate (hupdate _) fun _ => ?_
    refine Prog.Preserves.bind (Prog.preserves_act fun w hw => ?_) fun _ => h.enqueueRoots _
    exact hsame (w := w) rfl rfl rfl hw

theorem Steady.handleTaskResult {J : World → Prop} (h : Steady env J) (result : TaskResult) :
    (handleTaskResult result).Preserves (Action.handle env) J := by
  rw [DagScheduler.handleTaskResult]
  split
  · exact (h.completeTask _ _ _).bind fun _ => trivial
  · exact (h.failTask _ _ _).bind fun _ => trivial

/-- `untrack` deletes one entry. -/
theorem preserves_untrack {J : World → Prop} {k : String}
    (hJ : ∀ w, J w → J { w with
      coord := { w.coord with heartbeat := w.coord.heartbeat.removeWorker k } }) :
    (untrack k).Preserves (Action.handle env) J :=
  Prog.preserves_act fun w hw => hJ w hw

theorem Steady.handleDeadWorker {J : World → Prop} (h : Steady env J)
    (order : RangeOrder String) {k : String}
    (hJ : ∀ w, J w → J { w with
      coord := { w.coord with heartbeat := w.coord.heartbeat.removeWorker k } }) :
    (handleDeadWorker order k).Preserves (Action.handle env) J := by
  rw [DagScheduler.handleDeadWorker]
  refine (h.locked fun c => c.eases_claimTasks order k).bind fun l =>
    (h.requeueAll l).bind fun _ => ?_
  exact Prog.Preserves.bind (preserves_untrack hJ) fun _ => trivial

/-- A call that is no request and no restart gives no task away. -/
theorem Call.ownedIn {c : Call} (env : Env) (w : World) (hask : ∀ k, c ≠ .getReadyTask k)
    (hrestart : c ≠ .restart) : OwnedIn w.coord (c.exec env w).2 := by
  have hsteady : Steady env (OwnedIn w.coord) := steady_ownedIn w.coord
  refine Prog.Preserves.run ?_ (.refl w)
  cases c with
  | submitWorkflow orders wf =>
    exact (hsteady.submitWorkflow (fun hrun hassigned _ hw => hw.of_eq hrun hassigned)
      orders wf).bind fun _ => trivial
  | getReadyTask k => exact absurd rfl (hask k)
  | completeTask t e output => exact (hsteady.completeTask t e output).bind fun _ => trivial
  | failTask t e errMsg => exact (hsteady.failTask t e errMsg).bind fun _ => trivial
  | cancelWorkflow id => exact (hsteady.cancelWorkflow id).bind fun _ => trivial
  | handleDeadWorker order k =>
    exact (hsteady.handleDeadWorker order fun _ hw => hw.of_eq rfl rfl).bind fun _ => trivial
  | restart => exact absurd rfl hrestart

/-- The loop over dead workers gives no task away. -/
theorem givesNone_handleDeadWorkers (orders : String → RangeOrder String) (l : List String) :
    GivesNone env (handleDeadWorkers orders l) := by
  intro c
  induction l with
  | nil => trivial
  | cons u l ih =>
    refine ((steady_ownedIn c).handleDeadWorker _ fun _ hw => hw.of_eq rfl rfl).bind fun _ => ?_
    exact Prog.Preserves.bind (preserves_untrack fun _ hw => hw.of_eq rfl rfl) fun _ => ih

end Programs

/-- What `GetReadyTask` does to the owners: nothing, or one more task that it
answers with. -/
inductive ReadyOutcome (w : World) (k : String) : Option TaskAssignment → World → Prop where
  | nothing {w' : World} : w'.coord.runningTasks = w.coord.runningTasks →
      w'.coord.assignedTasks = w.coord.assignedTasks →
      w'.coord.heartbeat = w.coord.heartbeat → ReadyOutcome w k none w'
  | task {a : TaskAssignment} {w' : World} : w.coord.readyQueue ≠ [] →
      w'.coord.runningTasks = w.coord.runningTasks.insert a.taskId k →
      w'.coord.assignedTasks = w.coord.assignedTasks.insert a.taskId a.executionId →
      w'.coord.heartbeat = w.coord.heartbeat → ReadyOutcome w k (some a) w'

theorem World.getReadyTask_outcome (env : Env) (w : World) (k : String) :
    ReadyOutcome w k (w.getReadyTask env k).1 (w.getReadyTask env k).2 := by
  unfold World.getReadyTask
  split
  · exact .nothing rfl rfl rfl
  · rename_i head rest hq
    dsimp only
    split
    · exact .nothing rfl rfl rfl
    · split
      · rename_i hup
        have hcoord := congrArg (fun out => out.2.coord) hup
        dsimp only [World.update] at hcoord
        exact .nothing (by rw [← hcoord]) (by rw [← hcoord]) (by rw [← hcoord])
      · rename_i hup
        have hcoord := congrArg (fun out => out.2.coord) hup
        dsimp only [World.update] at hcoord
        have hne : w.coord.readyQueue ≠ [] := by
          rw [hq]
          exact List.cons_ne_nil _ _
        exact .task hne (by rw [← hcoord]) (by rw [← hcoord]) (by rw [← hcoord])

/-- A new owner is the worker that asked, while there were tasks to hand out. -/
theorem ReadyOutcome.running {w w' : World} {k : String} {answer : Option TaskAssignment}
    (h : ReadyOutcome w k answer w') {t m : String}
    (ht : w'.coord.runningTasks[t]? = some m) :
    w.coord.runningTasks[t]? = some m ∨ m = k ∧ w.coord.readyQueue ≠ [] := by
  cases h with
  | nothing hrun _ _ =>
    rw [hrun] at ht
    exact .inl ht
  | task hq hrun _ _ =>
    rw [hrun, Table.get_insert] at ht
    split at ht
    · cases ht
      exact .inr ⟨rfl, hq⟩
    · exact .inl ht

theorem ReadyOutcome.heartbeat {w w' : World} {k : String} {answer : Option TaskAssignment}
    (h : ReadyOutcome w k answer w') : w'.coord.heartbeat = w.coord.heartbeat := by
  cases h with
  | nothing _ _ hbeat => exact hbeat
  | task _ _ _ hbeat => exact hbeat

end DagScheduler
