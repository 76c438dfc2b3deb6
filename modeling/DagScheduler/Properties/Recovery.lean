import DagScheduler.Coordinator.Alive

/-!
# Recovery after a crash

A restart puts every `QUEUED` and every `RUNNING` task of the store into the
ready queue.  Between two operations a running workflow always has such a
task.  Inside an operation it may not have one.

* `SubmitWorkflow` may be cut after `InitializeTasksForWorkflow` and before
  the last root has been queued.
* `CompleteTask`, `FailTask` and `CancelWorkflow` may be cut after the last
  task is over and before the state of the workflow has been written.
* `FailTask` may be cut before its policy has skipped all that depends on the
  failed task.

Nothing repairs these states, since recovery looks only at `QUEUED` and
`RUNNING` tasks.  `Resumable` describes a store without such a half-done
step, and crashes in resumable states are recovered from.  The recovery itself
may be cut anywhere: each of its transactions turns one `RUNNING` task into a
`QUEUED` one.
-/

namespace DagScheduler

open Lib Store

/-- Every running workflow with tasks has work left: no `PENDING` task has
all its dependencies `COMPLETE` or one of them `FAILED` or `SKIPPED`, and
some task is not over. -/
def Store.Resumable (s : Store) : Prop := s.Alive fun _ => True

/-- A run with crashes in which no call abandons a workflow, and every crash
inside an operation leaves the store resumable.  A crash between two operations
is a call of `restart`, and a restart may be cut as well. -/
inductive CarefulRun (env : Env) : List Call → Bool → World → Prop where
  | start : CarefulRun env [] true {}
  | call {calls : List Call} {w : World} (c : Call) :
      CarefulRun env calls true w → (∀ id, ¬ c.Abandons w id) →
      CarefulRun env (calls ++ [c]) true (c.exec env w).2
  | cut {calls : List Call} {w : World} (c : Call) (n : Nat) :
      CarefulRun env calls true w →
      (c ≠ .restart → (c.execFor env n w).store.Resumable) →
      CarefulRun env (calls ++ [c]) false (c.execFor env n w)
  | cutAgain {calls : List Call} {w : World} (n : Nat) :
      CarefulRun env calls false w →
      CarefulRun env (calls ++ [.restart]) false (Call.restart.execFor env n w)
  | recover {calls : List Call} {w : World} :
      CarefulRun env calls false w →
      CarefulRun env (calls ++ [.restart]) true (Call.restart.exec env w).2

/-- After a restart from `w` every running workflow with a task record has
one of its tasks in the ready queue. -/
def Recovers (env : Env) (w : World) : Prop :=
  ∀ id, (Call.restart.exec env w).2.store.workflowStateOf id = some .running →
    (∃ t, (Call.restart.exec env w).2.store.ownerOf t = some id) →
    ∃ t ∈ (Call.restart.exec env w).2.coord.readyQueue,
      (Call.restart.exec env w).2.store.ownerOf t = some id

variable {env : Env} {calls : List Call} {up : Bool} {w : World}

theorem CarefulRun.crashRun (hrun : CarefulRun env calls up w) :
    CrashRun env calls up w := by
  induction hrun with
  | start => exact .start
  | call c _ _ ih => exact .call c ih
  | cut c n _ _ ih => exact .cut c n ih
  | cutAgain n _ ih => exact .cutAgain n ih
  | recover _ ih => exact .recover ih

/-- A task that is queued again is open, and it is not in the way of any other one. -/
theorem Store.Live.requeue {s : Store} {id t : String} {r : TaskStateRecord} (h : s.Live id)
    (hr : s.taskState[t]? = some r) (execID : String) (now : Int64) :
    (s.requeued t r execID now).Live id := by
  have hshape : SameShape s (s.requeued t r execID now) := sameShape_setTask hr rfl
  have hself : (s.requeued t r execID now).stateOf t = some .queued := by
    rw [requeued, stateOf, get_setTask, if_pos rfl]
    rfl
  have hother : ∀ u, u ≠ t → (s.requeued t r execID now).stateOf u = s.stateOf u := by
    intro u hu
    rw [stateOf, get_requeued_ne hu]
    rfl
  have hpending : ∀ u, (s.requeued t r execID now).stateOf u = some .pending →
      s.stateOf u = some .pending := by
    intro u hu
    by_cases hut : u = t
    · rw [hut, hself] at hu
      cases hu
    · rw [← hother u hut]
      exact hu
  refine ⟨fun u hu hp => ?_, fun u hu hp d hd => ?_, ?_⟩
  · rw [hshape.ownerOf] at hu
    rw [hshape.depsOf]
    obtain ⟨d, hd, hnot⟩ := h.waits u hu (hpending u hp)
    refine ⟨d, hd, ?_⟩
    by_cases hdt : d = t
    · rw [isComplete, hdt, hself]
      rfl
    · rw [isComplete, hother d hdt]
      exact hnot
  · rw [hshape.ownerOf] at hu
    rw [hshape.depsOf] at hd
    by_cases hdt : d = t
    · rw [hdt, hself]
      simp
    · rw [hother d hdt]
      exact h.clear u hu (hpending u hp) d hd
  · obtain ⟨u, hu, ru, hru, hopen⟩ := h.work
    refine ⟨u, by rw [hshape.ownerOf]; exact hu, ?_⟩
    by_cases hut : u = t
    · subst hut
      exact ⟨_, (get_setTask _ _ _ _).trans (if_pos rfl), rfl⟩
    · exact ⟨ru, (get_requeued_ne hut _ _ _).trans hru, hopen⟩

/-- No transaction of a restart leaves a workflow without work. -/
theorem Store.Resumable.execFor_restart (hk : w.store.Keyed) (h : w.store.Resumable) (n : Nat) :
    (Call.restart.execFor env n w).store.Resumable := by
  have hloop : restart.wp (Action.handle env) (fun w => w.store.Keyed ∧ w.store.Resumable)
      (fun _ w' => RequeuesInOrder env (w.store.getTasksInState .running)
        { w with coord := ({} : Coordinator).load w.store } w') w := by
    refine wp_restart_of (K := fun s => s.Keyed ∧ s.Resumable)
      (C := fun s u => s.stateOf u = some .running) (fun s hs => hs.1) ?_ ⟨hk, h⟩ fun u hu => hu
    intro s t execID now hs hrun
    obtain ⟨r, hr, -⟩ := stateOf_eq_some.mp hrun
    have hshape : SameShape s (s.requeued t r execID now) := sameShape_setTask hr rfl
    refine ⟨r, hr, ⟨hshape.keyed hs.1, fun id wf hwf hQ hstate howned => ?_⟩, fun u hu hrun => ?_⟩
    · obtain ⟨u, hu⟩ := howned
      rw [hshape.ownerOf] at hu
      exact (hs.2 id wf hwf hQ hstate ⟨u, hu⟩).requeue hr execID now
    · rw [stateOf, get_requeued_ne hu]
      exact hrun
  have hall : Call.restart.prog.wp (Action.handle env)
      (fun w => w.store.Keyed ∧ w.store.Resumable) (fun _ _ => True) w := by
    rw [Call.prog, Prog.wp_bind]
    exact Prog.wp_mono (fun _ _ _ => trivial) _ hloop
  have hend : (fun w : World => w.store.Keyed ∧ w.store.Resumable)
    (Call.restart.execFor env n w) := Prog.wp_runFor ⟨hk, h⟩ hall n
  exact hend.2

/-- The run lemma: the store is resumable in every state of a careful run. -/
theorem CarefulRun.resumable (hrun : CarefulRun env calls up w)
    (hids : NeverReused (submitted calls)) : w.store.Resumable := by
  induction hrun with
  | start =>
    intro id wf hwf
    simp at hwf
  | @call calls w c hrun hkept ih =>
    have h := hrun.crashRun.inv hids.of_append
    have hadm := admissible_next h.sound hids
    obtain ⟨heff, h'⟩ := (h.mono (submitted_subset calls c)).exec c hadm
    exact heff.alive h hadm h'.sound.coherent.linked (fun id _ _ _ => hkept id)
      (ih hids.of_append)
  | @cut calls w c n hrun hres ih =>
    by_cases hc : c = .restart
    · subst hc
      have hs := hrun.crashRun.sound hids.of_append
      exact (ih hids.of_append).execFor_restart hs.coherent.linked.keyed n
    · exact hres hc
  | cutAgain n hrun ih =>
    have hs := hrun.crashRun.sound hids.of_append
    exact (ih hids.of_append).execFor_restart hs.coherent.linked.keyed n
  | @recover calls w hrun ih =>
    have hs := hrun.crashRun.sound hids.of_append
    exact (Keeps.restart hs).1.alive hs.coherent.linked (ih hids.of_append)

/-- After a restart from any state of a careful run, up or down, no running
workflow is stuck. -/
theorem crash_recovery (hrun : CarefulRun env calls up w)
    (hids : NeverReused (submitted calls)) : Recovers env w := by
  have hs := hrun.crashRun.sound hids
  obtain ⟨heff, h⟩ : RestartEffect env w (Call.restart.exec env w).2 ∧
    Inv (· ∈ submitted calls) (Call.restart.exec env w).2 := Keeps.restart hs
  have halive := heff.alive hs.coherent.linked (hrun.resumable hids)
  intro id hrunning hstored
  -- A running workflow has a specification, so it is alive.
  obtain ⟨st, hst, hstate⟩ := Option.map_eq_some_iff.mp hrunning
  obtain ⟨wf, hwf⟩ := (Table.mem_iff_get _ _).mp
    ((h.sound.coherent.tracked id st hst).2 hstate)
  obtain ⟨t, ht, hq | hr⟩ :=
    (halive id wf hwf trivial hrunning hstored).exists_active h.sound.coherent
  · obtain ⟨r, hget, hqueued⟩ := stateOf_eq_some.mp hq
    have hown : r.workflowID = id := by
      rw [ownerOf_of_get hget] at ht
      exact Option.some.inj ht
    exact ⟨t, h.agree.listed t r hget hqueued (by rw [hown]; exact hrunning), ht⟩
  · exact absurd hr (heff.not_running hs.coherent.linked.keyed t)

/-- The calls before the crash of `afterCompletion`. -/
def beforeCompletion : List Call :=
  [.submitWorkflow .asListed (.pair .failFast 3), .getReadyTask "k"]

/-- A crash right after the transaction that completes the first task.  The
second task is `QUEUED` in the store, and not yet in the ready queue. -/
def afterCompletion : World :=
  Call.execFor .counting 2 (.completeTask "a" "x" "out") (runCalls .counting beforeCompletion)

theorem resumable_afterCompletion : afterCompletion.store.Resumable := by
  have hnone : ∀ t, afterCompletion.store.stateOf t ≠ some .pending := by
    intro t ht
    obtain ⟨r, hr, hst⟩ := stateOf_eq_some.mp ht
    have hall : ∀ e ∈ afterCompletion.store.taskState.toList, e.2.state ≠ .pending := by
      decide
    exact hall (t, r) ((Table.mem_toList_iff _ (t, r)).mpr hr) hst
  intro id wf _ _ _ hstored
  obtain ⟨t, ht⟩ := hstored
  obtain ⟨r, hr, hown⟩ := ownerOf_eq_some.mp ht
  have hid : id = "w" := by
    have hall : ∀ e ∈ afterCompletion.store.taskState.toList, e.2.workflowID = "w" := by
      decide
    exact hown.symm.trans (hall (t, r) ((Table.mem_toList_iff _ (t, r)).mpr hr))
  subst hid
  have hb : afterCompletion.store.taskState["b"]? = some
      { taskID := "b", workflowID := "w", state := .queued, lastUpdated := 5 } := by
    decide
  exact ⟨fun t _ hp => absurd hp (hnone t), fun t _ hp => absurd hp (hnone t),
    "b", ownerOf_of_get hb, _, hb, rfl⟩

theorem crash_recovery_afterCompletion :
    afterCompletion.coord.readyQueue = [] ∧ Recovers .counting afterCompletion := by
  refine ⟨by decide, ?_⟩
  have hcalls : CarefulRun .counting beforeCompletion true
      (runCalls .counting beforeCompletion) :=
    .call (.getReadyTask "k")
      (.call (.submitWorkflow .asListed (.pair .failFast 3)) .start fun _ h => h) fun _ h => h
  have hids : NeverReused (submitted (beforeCompletion ++ [.completeTask "a" "x" "out"])) :=
    neverReused_of_one rfl
  exact crash_recovery (.cut (.completeTask "a" "x" "out") 2 hcalls
    fun _ => resumable_afterCompletion) hids

/-- A crash right after `InitializeTasksForWorkflow`: the workflow is stored as
`RUNNING`, and all its tasks are `PENDING`. -/
def cutSubmission : World :=
  Call.execFor .counting 3 (.submitWorkflow .asListed (.pair .failFast 3)) {}

/-- The restart queues nothing, and the workflow is stuck. -/
theorem not_recovers_cutSubmission :
    CrashRun .counting [.submitWorkflow .asListed (.pair .failFast 3)] false
        cutSubmission ∧
      ¬ Recovers .counting cutSubmission := by
  refine ⟨.cut (.submitWorkflow .asListed (.pair .failFast 3)) 3 .start, ?_⟩
  intro h
  obtain ⟨t, ht, _⟩ := h "w" (by decide) ⟨"a", by decide⟩
  have hempty : (Call.restart.exec .counting cutSubmission).2.coord.readyQueue = [] := by
    decide
  rw [hempty] at ht
  cases ht

end DagScheduler
