import DagScheduler.Properties.Restart

/-!
# Recovery that is interrupted

`LoadStateFromDB` and `PrepareRecovery` scan the bucket at two moments, the
second after the first has filled the queue.  They work on any store in which
every record has its own task ID for a key, also on one that no run leaves
behind, so nothing of the invariants of a run is used here.

* `ExactRecovery` is what one recovery does to such a store.
* `Interrupted` adds recoveries that are killed after some of their actions.
  Each leaves a store in which some running tasks are queued already
  (`PartlyReclaimed`), and a later recovery does the rest.
-/

namespace DagScheduler

open Lib Store

/-- What a recovery from `w` leaves in `w'`. -/
structure ExactRecovery (env : Env) (w w' : World) : Prop where
  workflows : w'.store.workflows = w.store.workflows
  workflowState : w'.store.workflowState = w.store.workflowState
  idle : ∀ t, w'.store.stateOf t ≠ some .running
  requeued : ∀ (t : String) (r : TaskStateRecord), w.store.taskState[t]? = some r →
    r.state = .running → ∃ n now, w.uuids ≤ n ∧ w'.store.taskState[t]? = some
      { r with state := .queued, executionID := env.uuid n, lastUpdated := now }
  distinct : ∀ (t u : String) (rt ru : TaskStateRecord), t ≠ u →
    w.store.stateOf t = some .running → w.store.stateOf u = some .running →
    w'.store.taskState[t]? = some rt → w'.store.taskState[u]? = some ru →
    rt.executionID ≠ ru.executionID
  kept : ∀ t, w.store.stateOf t ≠ some .running →
    w'.store.taskState[t]? = w.store.taskState[t]?
  nodup : w'.coord.readyQueue.Nodup
  mem_queue : ∀ t, t ∈ w'.coord.readyQueue ↔
    w.store.stateOf t = some .queued ∨ w.store.stateOf t = some .running

/-- The worlds that recoveries from `w` leave behind when each of them is
killed after some number of its actions. -/
inductive Interrupted (env : Env) (w : World) : World → Prop where
  | start : Interrupted env w w
  | cut {v : World} (n : Nat) : Interrupted env w v →
      Interrupted env w (restart.runFor (Action.handle env) n v)

/-- The stores agree up to execution IDs and time stamps, and the queues hold
the same tasks. -/
structure SameRecovery (w₁ w₂ : World) : Prop where
  workflows : w₁.store.workflows = w₂.store.workflows
  workflowState : w₁.store.workflowState = w₂.store.workflowState
  records : ∀ t : String, w₁.store.taskState[t]?.map TaskStateRecord.upToExecution
    = w₂.store.taskState[t]?.map TaskStateRecord.upToExecution
  queue : ∀ t, t ∈ w₁.coord.readyQueue ↔ t ∈ w₂.coord.readyQueue

/-- Some of the running tasks of `s₀` are queued in `s`. -/
structure PartlyReclaimed (s₀ s : Store) : Prop where
  keyed : s.Keyed
  workflows : s.workflows = s₀.workflows
  workflowState : s.workflowState = s₀.workflowState
  record : ∀ t : String, s.taskState[t]?.map TaskStateRecord.reclaimed
    = s₀.taskState[t]?.map TaskStateRecord.reclaimed

variable {env : Env} {w w' : World}

/-! ## One recovery -/

theorem run_restart (env : Env) (hk : w.store.Keyed) :
    RequeuesInOrder env (w.store.getTasksInState .running)
      { w with coord := ({} : Coordinator).load w.store }
      (restart.run (Action.handle env) w).2 := by
  refine Prog.wp_run (wp_restart_of (K := Keyed) (C := fun s t => t ∈ s.taskState)
    (fun _ h => h) ?_ hk ?_)
  · intro s t execID now hs ht
    obtain ⟨r, hr⟩ := (Table.mem_iff_get _ _).mp ht
    have hshape : SameShape s (s.requeued t r execID now) := sameShape_setTask hr rfl
    exact ⟨r, hr, hshape.keyed hs, fun u _ hu => (hshape.mem_iff u).mpr hu⟩
  · intro u hu
    obtain ⟨r, hr, _⟩ := stateOf_eq_some.mp hu
    exact (Table.mem_iff_get _ _).mpr ⟨r, hr⟩

theorem exactRecovery_restart (env : Env) (hk : w.store.Keyed) :
    ExactRecovery env w (restart.run (Action.handle env) w).2 := by
  have h := run_restart env hk
  have hmem : ∀ {st : TaskState} {t : String},
      t ∈ w.store.getTasksInState st ↔ w.store.stateOf t = some st :=
    mem_getTasksInState hk
  have hqueue := congrArg Coordinator.readyQueue h.coord
  rw [Coordinator.enqueue_readyQueue, load_readyQueue] at hqueue
  refine ⟨h.workflows, h.workflowState, ?_, ?_, ?_, ?_, ?_, ?_⟩
  · intro t
    by_cases ht : w.store.stateOf t = some .running
    · obtain ⟨r, hr, _⟩ := stateOf_eq_some.mp ht
      rw [stateOf_of_get (h.hit t r (hmem.mpr ht) hr)]
      simp
    · rw [stateOf, h.miss t (mt hmem.mp ht)]
      exact ht
  · intro t r hr hst
    exact ⟨_, _, Nat.le_add_right _ _,
      h.hit t r (hmem.mpr (stateOf_eq_some.mpr ⟨r, hr, hst⟩)) hr⟩
  · intro t u rt ru hne ht hu hrt hru heq
    obtain ⟨r, hr, _⟩ := stateOf_eq_some.mp ht
    obtain ⟨r', hr', _⟩ := stateOf_eq_some.mp hu
    rw [h.hit t r (hmem.mpr ht) hr] at hrt
    rw [h.hit u r' (hmem.mpr hu) hr'] at hru
    cases hrt
    cases hru
    -- The IDs are the generator's, at the places of the tasks in the scan.
    have hidx := env.uuid_injective heq
    exact hne ((List.idxOf_inj (hmem.mpr ht)).mp (Nat.add_left_cancel hidx))
  · exact fun t ht => h.miss t (mt hmem.mp ht)
  · rw [hqueue, List.nodup_append']
    refine ⟨nodup_getTasksInState hk _, nodup_getTasksInState hk _, ?_⟩
    intro t hq hr
    rw [hmem] at hq hr
    rw [hq] at hr
    cases hr
  · intro t
    rw [hqueue, List.mem_append, hmem, hmem]

/-! ## Recoveries that are killed -/

/-- A killed recovery has queued some of the running tasks. -/
theorem PartlyReclaimed.runFor {s₀ : Store} (h : PartlyReclaimed s₀ w.store) (n : Nat) :
    PartlyReclaimed s₀ (restart.runFor (Action.handle env) n w).store := by
  refine Prog.wp_runFor (J := fun w : World => PartlyReclaimed s₀ w.store) h
    (wp_restart_of (C := fun s t => s.stateOf t = some .running)
      (fun _ h => h.keyed) ?_ h fun _ hu => hu) n
  intro s t execID now hs ht
  obtain ⟨r, hr, hst⟩ := stateOf_eq_some.mp ht
  have hshape : SameShape s (s.requeued t r execID now) := sameShape_setTask hr rfl
  refine ⟨r, hr, ⟨hshape.keyed hs.keyed, hs.workflows, hs.workflowState, ?_⟩, ?_⟩
  · intro u
    rw [← hs.record u]
    by_cases hut : u = t
    · subst hut
      rw [requeued, get_setTask, if_pos rfl, hr]
      exact congrArg some (TaskStateRecord.reclaimed_of_running hst _ _)
    · rw [get_requeued_ne hut]
  · intro u hut hu
    rw [stateOf, get_requeued_ne hut]
    exact hu

theorem Interrupted.partlyReclaimed (hk : w.store.Keyed) {v : World}
    (h : Interrupted env w v) : PartlyReclaimed w.store v.store := by
  induction h with
  | start => exact ⟨hk, rfl, rfl, fun _ => rfl⟩
  | cut n _ ih => exact ih.runFor n

/-- Whether a task is queued or running is what a killed recovery keeps. -/
theorem PartlyReclaimed.waiting_iff {s₀ s : Store} (h : PartlyReclaimed s₀ s)
    (t : String) :
    s.stateOf t = some .queued ∨ s.stateOf t = some .running ↔
      s₀.stateOf t = some .queued ∨ s₀.stateOf t = some .running := by
  have hreclaimed : ∀ s : Store,
      s.stateOf t = some .queued ∨ s.stateOf t = some .running ↔
        (s.taskState[t]?.map TaskStateRecord.reclaimed).map (·.state) = some .queued := by
    intro s
    rw [stateOf]
    cases s.taskState[t]? with
    | none => simp
    | some r => cases hst : r.state <;> simp [TaskStateRecord.reclaimed, hst,
        TaskStateRecord.upToExecution]
  rw [hreclaimed, hreclaimed, h.record t]

/-- After a recovery a record has lost its worker. -/
theorem ExactRecovery.upToExecution (h : ExactRecovery env w w') (t : String) :
    w'.store.taskState[t]?.map TaskStateRecord.upToExecution
      = w.store.taskState[t]?.map TaskStateRecord.reclaimed := by
  rw [upToExecution_eq (h.idle t)]
  by_cases ht : w.store.stateOf t = some .running
  · obtain ⟨r, hr, hst⟩ := stateOf_eq_some.mp ht
    obtain ⟨n, now, _, hget⟩ := h.requeued t r hr hst
    rw [hget, hr]
    exact congrArg some (TaskStateRecord.reclaimed_of_running hst (env.uuid n) now)
  · rw [h.kept t ht]

/-- From every store in which each record has its own ID for a key, a recovery
is exact, and after any number of recoveries that are killed it ends as it
would have ended at once. -/
theorem recovery_exact_and_restartable (env : Env) {w : World} (hk : w.store.Keyed) :
    ExactRecovery env w (restart.run (Action.handle env) w).2 ∧
      ∀ v, Interrupted env w v →
        ExactRecovery env v (restart.run (Action.handle env) v).2 ∧
          SameRecovery (restart.run (Action.handle env) v).2
            (restart.run (Action.handle env) w).2 := by
  have hw := exactRecovery_restart env hk
  refine ⟨hw, fun v hv => ?_⟩
  have hpart := hv.partlyReclaimed hk
  have hfinal := exactRecovery_restart env hpart.keyed
  refine ⟨hfinal, ?_, ?_, ?_, ?_⟩
  · rw [hfinal.workflows, hw.workflows, hpart.workflows]
  · rw [hfinal.workflowState, hw.workflowState, hpart.workflowState]
  · intro t
    rw [hfinal.upToExecution, hw.upToExecution, hpart.record]
  · intro t
    rw [hfinal.mem_queue, hw.mem_queue, hpart.waiting_iff]

/-- A store that no run leaves behind: a running and a queued task of a
workflow that is not stored. -/
def strayStore : Store where
  taskState :=
    (((∅ : Table String TaskStateRecord).insert "a"
        { taskID := "a", workflowID := "w", state := .running }).insert "b"
        { taskID := "b", workflowID := "w", state := .queued }).insert "c"
        { taskID := "c", workflowID := "w", state := .running }

theorem keyed_strayStore : strayStore.Keyed := by
  intro t r hr
  simp only [strayStore, Table.get_insert] at hr
  split_ifs at hr with hc hb ha
  · cases hr
    subst hc
    decide
  · cases hr
    subst hb
    decide
  · cases hr
    subst ha
    decide
  · simp at hr

/-- A recovery of that store that is killed after its first `RequeueTask`. -/
def strayCut : World := restart.runFor (Action.handle .counting) 5 { store := strayStore }

theorem recovery_exact_and_restartable_stray :
    strayCut.store.stateOf "a" = some .queued ∧
      strayCut.store.stateOf "c" = some .running ∧
      SameRecovery (restart.run (Action.handle .counting) strayCut).2
        (restart.run (Action.handle .counting) { store := strayStore }).2 :=
  ⟨by decide, by decide, ((recovery_exact_and_restartable .counting
    (w := { store := strayStore }) keyed_strayStore).2 _ (.cut 5 .start)).2⟩

end DagScheduler
