import DagScheduler.Coordinator.Runs

/-!
# What one call does to one task

`TaskStep` lists every way in which a call can rewrite the record of a task,
with the condition under which it does.  `Effect.task` proves that the list
is complete.  The properties that follow one record along a run rest on it:
how often a task fails, whether a terminal state is final, and which
execution a record carries.
-/

namespace DagScheduler

open Lib Store

/-- The call `c` turns the record `o` of the task `t` into `o'`. -/
inductive TaskStep (env : Env) (w w' : World) (t : String) :
    (c : Call) → (o o' : Option TaskStateRecord) → Prop where
  | same {c : Call} {o : Option TaskStateRecord} : TaskStep env w w' t c o o
  | created {orders : DagOrders} {wf : WorkflowSpec} {r : TaskStateRecord} :
      t ∈ wf.taskIDs → r.state = .pending ∨ r.state = .queued →
      r.attemptCount = 0 → r.executionID = "" →
      TaskStep env w w' t (.submitWorkflow orders wf) none (some r)
  | assigned {workerID : String} {r : TaskStateRecord} {now : Int64} :
      r.state = .queued → w'.uuids = w.uuids + 1 →
      TaskStep env w w' t (.getReadyTask workerID) (some r) (some
        { r with
          state := .running, executionID := env.uuid w.uuids, lastUpdated := now })
  | completed {e output : String} {r : TaskStateRecord} {now : Int64} :
      w.coord.assignedTasks[t]? = some e →
      TaskStep env w w' t (.completeTask t e output) (some r) (some
        { r with state := .complete, output := output, lastUpdated := now })
  | released {u e output : String} {r : TaskStateRecord} {now : Int64} {n : Nat} :
      w.coord.assignedTasks[u]? = some e → r.state = .pending →
      TaskStep env w w' t (.completeTask u e output) (some r)
        (some ((unlocked now)^[n] r))
  | retried {e errMsg : String} {r : TaskStateRecord} {now : Int64} :
      w.coord.assignedTasks[t]? = some e →
      r.attemptCount + 1 < w.coord.retryLimit t → w'.uuids = w.uuids + 1 →
      TaskStep env w w' t (.failTask t e errMsg) (some r) (some
        { r with
          state := .queued, executionID := env.uuid w.uuids, lastUpdated := now })
  | failed {e errMsg : String} {r : TaskStateRecord} {now : Int64} :
      w.coord.assignedTasks[t]? = some e →
      ¬ r.attemptCount + 1 < w.coord.retryLimit t →
      TaskStep env w w' t (.failTask t e errMsg) (some r) (some
        { r with
          state := .failed, error := errMsg, attemptCount := r.attemptCount + 1,
          lastUpdated := now })
  | skippedBelow {u e errMsg : String} {r : TaskStateRecord} {now : Int64}
      {wf : WorkflowSpec} :
      u ≠ t → w.coord.assignedTasks[u]? = some e → r.state.terminal = false →
      w'.store.stateOf u = some .failed → w.store.ownerOf u = some r.workflowID →
      w.store.workflows[r.workflowID]? = some wf →
      wf.failurePolicy = .failFast ∨ Ancestor w.store.depsOf u t →
      TaskStep env w w' t (.failTask u e errMsg) (some r) (some
        { r with state := .skipped, lastUpdated := now })
  | cancelled {id : String} {r : TaskStateRecord} {now : Int64} :
      r.workflowID = id → r.state.terminal = false →
      TaskStep env w w' t (.cancelWorkflow id) (some r) (some
        { r with state := .skipped, lastUpdated := now })
  | reclaimed {order : RangeOrder String} {workerID : String} {r : TaskStateRecord}
      {now : Int64} {n : Nat} :
      w.coord.runningTasks[t]? = some workerID → w.uuids ≤ n → n < w'.uuids →
      TaskStep env w w' t (.handleDeadWorker order workerID) (some r) (some
        { r with state := .queued, executionID := env.uuid n, lastUpdated := now })
  | recovered {r : TaskStateRecord} {now : Int64} {n : Nat} :
      r.state = .running → w.uuids ≤ n → n < w'.uuids →
      TaskStep env w w' t .restart (some r) (some
        { r with state := .queued, executionID := env.uuid n, lastUpdated := now })

variable {env : Env} {P P' : WorkflowSpec → Prop} {w w' : World} {c : Call}

/-- A record before and after tasks are given up. -/
theorem Store.Skips.cases {Q : String → Prop} {s s' : Store} (h : Skips Q s s')
    (t : String) :
    s'.taskState[t]? = s.taskState[t]? ∨
      ∃ r now, s.taskState[t]? = some r ∧ Q t ∧ r.state.terminal = false ∧
        s'.taskState[t]? = some { r with state := .skipped, lastUpdated := now } := by
  cases hr : s.taskState[t]? with
  | none => exact .inl (h.absent t hr)
  | some r =>
    by_cases hc : Q t ∧ r.state.terminal = false
    · obtain ⟨now, hnow⟩ := h.hit t r hr hc.1 hc.2
      exact .inr ⟨r, now, rfl, hc.1, hc.2, hnow⟩
    · exact .inl (h.miss t r hr hc)

/-- A record before and after tasks are queued again. -/
theorem Requeues.cases {l : List String} (h : Requeues env l w w') (t : String) :
    w'.store.taskState[t]? = w.store.taskState[t]? ∨
      ∃ r n now, w.store.taskState[t]? = some r ∧ t ∈ l ∧ w.uuids ≤ n ∧
        n < w'.uuids ∧ w'.store.taskState[t]? = some
          { r with state := .queued, executionID := env.uuid n, lastUpdated := now } := by
  by_cases ht : t ∈ l
  · cases hr : w.store.taskState[t]? with
    | none => exact .inl (h.absent t hr)
    | some r =>
      obtain ⟨n, now, hlo, hhi, hget⟩ := h.hit t r ht hr
      exact .inr ⟨r, n, now, rfl, ht, hlo, hhi, hget⟩
  · exact .inl (h.miss t ht)

/-- After the failure of `u` the policy leaves the record of a task alone or
skips the task.  Only `FAIL_FAST` skips a task that does not depend on `u`. -/
theorem PolicyEffect.cases {id u : String} {s : Store} {c : Coordinator}
    {policy : FailurePolicy} (h : PolicyEffect id u s c w' policy) (t : String) :
    w'.store.taskState[t]? = s.taskState[t]? ∨
      ∃ r now, s.taskState[t]? = some r ∧ r.state.terminal = false ∧
        (policy = .failFast ∧ r.workflowID = id ∨ Ancestor s.depsOf u t) ∧
        w'.store.taskState[t]? = some
          { r with state := .skipped, lastUpdated := now } := by
  cases h with
  | failFast hg hclose =>
    rw [hclose.taskState]
    rcases hg.store.cases t with heq | ⟨r, now, hr, hown, hopen, hget⟩
    · exact .inl heq
    · rw [ownerOf_of_get hr] at hown
      exact .inr ⟨r, now, hr, hopen, .inl ⟨rfl, Option.some.inj hown⟩, hget⟩
  | below _ hg hchk =>
    rw [hchk.taskState]
    rcases hg.store.cases t with heq | ⟨r, now, hr, hanc, hopen, hget⟩
    · exact .inl heq
    · exact .inr ⟨r, now, hr, hopen, .inr hanc, hget⟩
  | unrecognized hstore _ =>
    rw [hstore]
    exact .inl rfl

/-! ## One case per operation -/

section Operations

variable (t : String)

theorem SubmitEffect.task (h : Inv P w) {orders : DagOrders} {wf : WorkflowSpec}
    (hf : w.store.Fresh wf) {result : Except CallError Unit}
    (heff : SubmitEffect w wf result w') :
    TaskStep env w w' t (.submitWorkflow orders wf) w.store.taskState[t]?
      w'.store.taskState[t]? := by
  cases heff with
  | refused hstore _ _ =>
    rw [hstore]
    exact .same
  | halted _ hstore _ _ =>
    rw [hstore]
    exact .same
  | launched hl =>
    by_cases ht : t ∈ wf.taskIDs
    · obtain ⟨now, hget⟩ := hl.task t ht
      rw [hget, hf.untouched h.sound.coherent.linked t ht]
      refine .created ht ?_ rfl rfl
      dsimp only
      split
      · exact .inr rfl
      · exact .inl rfl
    · rw [hl.other t ht]
      exact .same

theorem ReadyEffect.task (h : Inv P w) {workerID : String} {a : Option TaskAssignment}
    (heff : ReadyEffect env w workerID a w') :
    TaskStep env w w' t (.getReadyTask workerID) w.store.taskState[t]?
      w'.store.taskState[t]? := by
  cases heff with
  | empty _ => exact .same
  | unknown _ _ => exact .same
  | @assigned u rest spec r now _ hq hspec hr hstore hcoord huuids =>
    rw [hstore, get_setTask]
    split
    · rename_i hut
      subst hut
      have hqueued := h.agree.queued u (by rw [hq]; exact List.mem_cons_self)
      rw [stateOf_of_get hr] at hqueued
      rw [hr]
      exact .assigned (Option.some.inj hqueued) huuids
    · exact .same

theorem CompleteEffect.task {u e output : String} {result : Except CallError Unit}
    (heff : CompleteEffect w u e output result w') :
    TaskStep env w w' t (.completeTask u e output) w.store.taskState[t]?
      w'.store.taskState[t]? := by
  cases heff with
  | ignored _ _ => exact .same
  | @accepted r now s ready _ ha hr hc hchk hcoord _ =>
    rw [hchk.taskState]
    by_cases hut : t = u
    · subst hut
      rw [hc.task, hr]
      exact .completed ha
    · cases hrt : w.store.taskState[t]? with
      | none =>
        rw [hc.other t hut, hrt]
        exact .same
      | some rt =>
        by_cases hp : rt.state = .pending
        · rw [hc.other t hut, hrt]
          exact .released ha hp
        · rw [hc.get_other hut hrt (.inl hp)]
          exact .same

/-- `FailTask` refuses an execution that is not the current one. -/
theorem FailEffect.of_not_assigned {u e errMsg : String} {result : Except CallError Unit}
    (heff : FailEffect env w u e errMsg result w')
    (ha : w.coord.assignedTasks[u]? ≠ some e) :
    result = .error (.store .staleExecution) ∧ w' = w := by
  cases heff with
  | stale _ => exact ⟨rfl, rfl⟩
  | retried ha' _ _ _ _ _ => exact absurd ha' ha
  | failed ha' _ _ _ _ _ => exact absurd ha' ha

/-- `FailTask` accepts the current execution, and queues the task again or
gives it up. -/
theorem FailEffect.of_assigned {u e errMsg : String} {result : Except CallError Unit}
    (heff : FailEffect env w u e errMsg result w')
    (ha : w.coord.assignedTasks[u]? = some e) :
    result = .ok () ∧ ∃ r now, w.store.taskState[u]? = some r ∧
      (r.attemptCount + 1 < w.coord.retryLimit u ∧ w'.uuids = w.uuids + 1 ∧
          w'.store.taskState[u]? = some { r with
            state := .queued, executionID := env.uuid w.uuids, lastUpdated := now } ∨
        ¬ r.attemptCount + 1 < w.coord.retryLimit u ∧ w'.store.taskState[u]? = some
          { r with
            state := .failed, error := errMsg, attemptCount := r.attemptCount + 1,
            lastUpdated := now }) := by
  cases heff with
  | stale hne => exact absurd ha hne
  | @retried r now _ _ hr hlt hstore _ huuids =>
    refine ⟨rfl, r, now, hr, .inl ⟨hlt, huuids, ?_⟩⟩
    rw [hstore, get_setTask, if_pos rfl]
  | @failed r wf now _ _ hr hlt _ hpol _ =>
    refine ⟨rfl, r, now, hr, .inr ⟨hlt, ?_⟩⟩
    have hcases := hpol.cases u
    rw [get_setTask, if_pos rfl] at hcases
    rcases hcases with heq | ⟨r', now', hr', hopen, _⟩
    · exact heq
    · -- The failed task is over, so the policy leaves it alone.
      cases hr'
      cases hopen

/-- Where the policy skips what depends on a failed task, no such task stays
open. -/
theorem FailEffect.skips_below {u e errMsg : String} {result : Except CallError Unit}
    (heff : FailEffect env w u e errMsg result w') {r : TaskStateRecord}
    {wf : WorkflowSpec} (ha : w.coord.assignedTasks[u]? = some e)
    (hr : w.store.taskState[u]? = some r)
    (hwf : w.store.workflows[r.workflowID]? = some wf)
    (hpolicy : wf.failurePolicy = .skipDownstream ∨
      wf.failurePolicy = .continueIndependent)
    (hfailed : w'.store.stateOf u = some .failed) {t : String} (hut : u ≠ t)
    (hanc : Ancestor w.store.depsOf u t) (hopen : w.store.isOpen t) :
    w'.store.stateOf t = some .skipped := by
  obtain ⟨rt, hrt, hterm⟩ := hopen
  cases heff with
  | stale hne => exact absurd ha hne
  | retried _ _ _ hstore _ _ =>
    rw [hstore, Store.stateOf_setTask, if_pos rfl] at hfailed
    cases hfailed
  | @failed r' wf' now _ _ hr' _ hwf' hpol _ =>
    rw [hr] at hr'
    cases hr'
    rw [hwf] at hwf'
    cases hwf'
    have hshape : SameShape w.store (w.store.setTask u { r with
        state := .failed, error := errMsg, attemptCount := r.attemptCount + 1,
        lastUpdated := now }) := sameShape_setTask hr rfl
    generalize wf.failurePolicy = policy at hpol hpolicy
    cases hpol with
    | failFast _ _ => simp at hpolicy
    | unrecognized _ _ => simp at hpolicy
    | below _ hg hchk =>
      obtain ⟨now', hskip⟩ := hg.store.hit t rt
        (by rw [get_setTask, if_neg hut]; exact hrt)
        (by rw [hshape.depsOf]; exact hanc) hterm
      rw [Store.stateOf, hchk.taskState, hskip]
      rfl

theorem FailEffect.task (h : Inv P w) {u e errMsg : String}
    {result : Except CallError Unit} (heff : FailEffect env w u e errMsg result w') :
    TaskStep env w w' t (.failTask u e errMsg) w.store.taskState[t]?
      w'.store.taskState[t]? := by
  by_cases hut : u = t
  · subst hut
    by_cases ha : w.coord.assignedTasks[u]? = some e
    · obtain ⟨_, r, now, hr, ⟨hlt, huuids, hget⟩ | ⟨hlt, hget⟩⟩ := heff.of_assigned ha
      · rw [hr, hget]
        exact .retried ha hlt huuids
      · rw [hr, hget]
        exact .failed ha hlt
    · rw [(heff.of_not_assigned ha).2]
      exact .same
  · have hfailed := fun ha => (heff.of_assigned ha).2
    cases heff with
    | stale _ => exact .same
    | retried _ _ _ hstore _ _ =>
      rw [hstore, get_setTask, if_neg hut]
      exact .same
    | @failed r wf now _ ha hr hlast hwf hpol _ =>
      have hl := h.sound.coherent.linked
      have hshape : SameShape w.store (w.store.setTask u { r with
          state := .failed, error := errMsg, attemptCount := r.attemptCount + 1,
          lastUpdated := now }) := sameShape_setTask hr rfl
      have hcases := hpol.cases t
      rw [get_setTask, if_neg hut] at hcases
      rcases hcases with heq | ⟨r', now', hr', hopen, hwhy, hget⟩
      · rw [heq]
        exact .same
      · rw [hshape.depsOf] at hwhy
        have hid : r'.workflowID = r.workflowID := by
          rcases hwhy with ⟨_, hid⟩ | hanc
          · exact hid
          · have howner := hl.ancestor_owner hanc
            rw [ownerOf_of_get hr, ownerOf_of_get hr'] at howner
            exact (Option.some.inj howner).symm
        have hfailed' : w'.store.stateOf u = some .failed := by
          obtain ⟨r₀, _, hr₀, ⟨hlt, _⟩ | ⟨_, hget₀⟩⟩ := hfailed ha
          · rw [hr] at hr₀
            cases hr₀
            exact absurd hlt hlast
          · exact stateOf_eq_some.mpr ⟨_, hget₀, rfl⟩
        rw [hget, hr']
        exact .skippedBelow hut ha hopen hfailed' (by rw [ownerOf_of_get hr, hid])
          (by rw [hid]; exact hwf) (hwhy.imp_left And.left)

theorem CancelEffect.task {id : String} {result : Except CallError Unit}
    (heff : CancelEffect w id result w') :
    TaskStep env w w' t (.cancelWorkflow id) w.store.taskState[t]?
      w'.store.taskState[t]? := by
  cases heff with
  | cancelled _ hg hclose _ =>
    rw [hclose.taskState]
    rcases hg.store.cases t with heq | ⟨r, now, hr, hown, hopen, hget⟩
    · rw [heq]
      exact .same
    · rw [hget, hr]
      rw [ownerOf_of_get hr] at hown
      exact .cancelled (Option.some.inj hown) hopen
  | refused _ hstore _ _ =>
    rw [hstore]
    exact .same

theorem DeadWorkerEffect.task {order : RangeOrder String} {workerID : String}
    (heff : DeadWorkerEffect env workerID w w') :
    TaskStep env w w' t (.handleDeadWorker order workerID) w.store.taskState[t]?
      w'.store.taskState[t]? := by
  obtain ⟨l, w₁, _, hmem, hreq, rfl⟩ := heff.claimed
  rcases hreq.cases t with heq | ⟨r, n, now, hr, ht, hlo, hhi, hget⟩
  · dsimp only at heq ⊢
    rw [heq]
    exact .same
  · dsimp only at hr hlo hget ⊢
    rw [hget, hr]
    exact .reclaimed ((hmem t).mp ht) hlo hhi

theorem RestartEffect.task (hk : w.store.Keyed) (heff : RestartEffect env w w') :
    TaskStep env w w' t .restart w.store.taskState[t]? w'.store.taskState[t]? := by
  rcases heff.cases t with heq | ⟨r, n, now, hr, ht, hlo, hhi, hget⟩
  · dsimp only at heq
    rw [heq]
    exact .same
  · dsimp only at hr hlo
    have hrun := (mem_getTasksInState hk).mp ht
    rw [stateOf_of_get hr] at hrun
    rw [hget, hr]
    exact .recovered (Option.some.inj hrun) hlo hhi

end Operations

/-- The list of `TaskStep` is complete. -/
theorem Effect.task (h : Inv P w) (hadm : c.Admissible P' w) {reply : Reply}
    (heff : Effect env w c reply w') (t : String) :
    TaskStep env w w' t c w.store.taskState[t]? w'.store.taskState[t]? := by
  cases heff with
  | submitWorkflow heff => exact heff.task t h (hadm _ rfl).2
  | getReadyTask heff => exact heff.task t h
  | completeTask heff => exact heff.task t
  | failTask heff => exact heff.task t h
  | cancelWorkflow heff => exact heff.task t
  | handleDeadWorker heff => exact heff.task t
  | restart heff => exact heff.task t h.sound.coherent.linked.keyed

/-! ## What a new state tells about the call

A state that a record has after the call and did not have before tells which
call was made. -/

namespace TaskStep

variable {t : String}
  (hstep : TaskStep env w w' t c w.store.taskState[t]? w'.store.taskState[t]?)
include hstep

/-- Only a submission changes more than the state of a record. -/
theorem shape (hc : c.submits = none) :
    w'.store.taskState[t]?.map TaskStateRecord.shape
      = w.store.taskState[t]?.map TaskStateRecord.shape := by
  generalize w.store.taskState[t]? = o at hstep
  generalize w'.store.taskState[t]? = o' at hstep
  cases hstep with
  | created _ _ _ _ => cases hc
  | released _ _ => exact congrArg some (iterate_unlocked_shape _ _ _)
  | _ => rfl

/-- Only a submission makes a task wait. -/
theorem pending_back (hc : c.submits = none)
    (hst : w'.store.stateOf t = some .pending) : w.store.stateOf t = some .pending := by
  obtain ⟨r', hr', hst'⟩ := stateOf_eq_some.mp hst
  rw [hr'] at hstep
  generalize ho : w.store.taskState[t]? = o at hstep
  cases hstep with
  | same => exact stateOf_eq_some.mpr ⟨r', ho, hst'⟩
  | created _ _ _ _ => cases hc
  | released _ hp => exact stateOf_eq_some.mpr ⟨_, ho, hp⟩
  | _ => cases hst'

end TaskStep

/-- The call makes `t` skipped: it fails a task of the same workflow, or
cancels the workflow. -/
inductive SkipsTask (w w' : World) (t : String) : Call → Prop where
  | below {u e errMsg id : String} {wf : WorkflowSpec} :
      w.coord.assignedTasks[u]? = some e → w'.store.stateOf u = some .failed →
      w.store.ownerOf u = some id → w.store.ownerOf t = some id →
      w.store.workflows[id]? = some wf →
      wf.failurePolicy = .failFast ∨ Ancestor w.store.depsOf u t →
      SkipsTask w w' t (.failTask u e errMsg)
  | cancelled {id : String} : w.store.ownerOf t = some id →
      SkipsTask w w' t (.cancelWorkflow id)

namespace TaskStep

variable {t : String}
  (hstep : TaskStep env w w' t c w.store.taskState[t]? w'.store.taskState[t]?)
include hstep

/-- The calls that end a task. -/
theorem terminal_back {st : TaskState} (hterm : st.terminal = true)
    (hst : w'.store.stateOf t = some st) :
    w.store.stateOf t = some st ∨
      (st = .complete ∧
        ∃ e output, c = .completeTask t e output ∧ w.coord.assignedTasks[t]? = some e) ∨
      (st = .failed ∧
        ∃ e errMsg, c = .failTask t e errMsg ∧ w.coord.assignedTasks[t]? = some e) ∨
      (st = .skipped ∧ w.store.isOpen t ∧ SkipsTask w w' t c) := by
  obtain ⟨r', hr', rfl⟩ := stateOf_eq_some.mp hst
  rw [hr'] at hstep
  generalize ho : w.store.taskState[t]? = o at hstep
  cases hstep with
  | same => exact .inl (stateOf_eq_some.mpr ⟨r', ho, rfl⟩)
  | created _ hnew _ _ => rcases hnew with hnew | hnew <;> rw [hnew] at hterm <;> cases hterm
  | completed ha => exact .inr (.inl ⟨rfl, _, _, rfl, ha⟩)
  | failed ha _ => exact .inr (.inr (.inl ⟨rfl, _, _, rfl, ha⟩))
  | released _ hp =>
    rcases iterate_unlocked_pending _ hp _ with hq | hq <;> rw [hq] at hterm <;> cases hterm
  | skippedBelow _ ha hopen hf hown hwf hwhy =>
    exact .inr (.inr (.inr ⟨rfl, ⟨_, ho, hopen⟩,
      .below ha hf hown (ownerOf_of_get ho) hwf hwhy⟩))
  | cancelled hid hopen =>
    exact .inr (.inr (.inr ⟨rfl, ⟨_, ho, hopen⟩, .cancelled (by rw [ownerOf_of_get ho, hid])⟩))
  | _ => cases hterm

/-- Only `CompleteTask` on `t` completes `t`. -/
theorem complete_back (hst : w'.store.stateOf t = some .complete) :
    w.store.stateOf t = some .complete ∨
      ∃ e output, c = .completeTask t e output ∧ w.coord.assignedTasks[t]? = some e := by
  rcases hstep.terminal_back rfl hst with hold | ⟨_, hcall⟩ | ⟨hne, _⟩ | ⟨hne, _⟩
  · exact .inl hold
  · exact .inr hcall
  · cases hne
  · cases hne

/-- Only `FailTask` on `t` makes `t` fail. -/
theorem failed_back (hst : w'.store.stateOf t = some .failed) :
    w.store.stateOf t = some .failed ∨
      ∃ e errMsg, c = .failTask t e errMsg ∧ w.coord.assignedTasks[t]? = some e := by
  rcases hstep.terminal_back rfl hst with hold | ⟨hne, _⟩ | ⟨_, hcall⟩ | ⟨hne, _⟩
  · exact .inl hold
  · cases hne
  · exact .inr hcall
  · cases hne

/-- Only a failure in the workflow of `t` and a cancellation skip `t`. -/
theorem skipped_back (hst : w'.store.stateOf t = some .skipped) :
    w.store.stateOf t = some .skipped ∨ w.store.isOpen t ∧ SkipsTask w w' t c := by
  rcases hstep.terminal_back rfl hst with hold | ⟨hne, _⟩ | ⟨hne, _⟩ | ⟨_, hskips⟩
  · exact .inl hold
  · cases hne
  · cases hne
  · exact .inr hskips

/-- An open task stays open, unless the call completes, fails or skips it. -/
theorem open_forward (hopen : w.store.isOpen t) :
    w'.store.isOpen t ∨
      (∃ e output, c = .completeTask t e output ∧ w.coord.assignedTasks[t]? = some e) ∨
      (∃ e errMsg, c = .failTask t e errMsg ∧ w.coord.assignedTasks[t]? = some e) ∨
      SkipsTask w w' t c := by
  obtain ⟨r, hr, hterm⟩ := hopen
  rw [hr] at hstep
  generalize ho' : w'.store.taskState[t]? = o' at hstep
  cases hstep with
  | same => exact .inl ⟨r, ho', hterm⟩
  | assigned _ _ => exact .inl ⟨_, ho', rfl⟩
  | completed ha => exact .inr (.inl ⟨_, _, rfl, ha⟩)
  | released _ hp =>
    refine .inl ⟨_, ho', ?_⟩
    rcases iterate_unlocked_pending _ hp _ with hq | hq <;> rw [hq] <;> rfl
  | retried _ _ _ => exact .inl ⟨_, ho', rfl⟩
  | failed ha _ => exact .inr (.inr (.inl ⟨_, _, rfl, ha⟩))
  | skippedBelow _ ha _ hf hown hwf hwhy =>
    exact .inr (.inr (.inr (.below ha hf hown (ownerOf_of_get hr) hwf hwhy)))
  | cancelled hid _ =>
    exact .inr (.inr (.inr (.cancelled (by rw [ownerOf_of_get hr, hid]))))
  | reclaimed _ _ _ => exact .inl ⟨_, ho', rfl⟩
  | recovered _ _ _ => exact .inl ⟨_, ho', rfl⟩

end TaskStep

/-! ## Records that no call rewrites -/

/-- A task with an execution is `RUNNING`, or `SKIPPED` while it ran. -/
theorem Inv.state_of_assigned (h : Inv P w) {t e : String} {r : TaskStateRecord}
    (ha : w.coord.assignedTasks[t]? = some e) (hr : w.store.taskState[t]? = some r) :
    r.state = .running ∨ r.state = .skipped := by
  obtain ⟨r₀, hr₀, _, hst, _⟩ := h.agree.assigned t e ha
  rw [hr] at hr₀
  cases hr₀
  exact hst

/-- A task with a worker has an execution. -/
theorem Inv.assigned_of_running (h : Inv P w) {t worker : String}
    (hw : w.coord.runningTasks[t]? = some worker) :
    ∃ e, w.coord.assignedTasks[t]? = some e := by
  rw [← Table.mem_iff_get, ← h.agree.keys, Table.mem_iff_get]
  exact ⟨worker, hw⟩

/-- The record of a task that is over and has no execution stays as it is. -/
theorem TaskStep.eq_of_terminal (h : Inv P w) {t : String} {r : TaskStateRecord}
    {o' : Option TaskStateRecord} (hstep : TaskStep env w w' t c (some r) o')
    (hterm : r.state.terminal = true) (hnot : ∀ e, w.coord.assignedTasks[t]? ≠ some e) :
    o' = some r := by
  have hopen : r.state.terminal ≠ false := by simp [hterm]
  cases hstep with
  | same => rfl
  | assigned hst _ => simp [hst, TaskState.terminal] at hterm
  | completed ha => exact absurd ha (hnot _)
  | released _ hst => simp [hst, TaskState.terminal] at hterm
  | retried ha _ _ => exact absurd ha (hnot _)
  | failed ha _ => exact absurd ha (hnot _)
  | skippedBelow _ _ hst _ _ _ _ => exact absurd hst hopen
  | cancelled _ hst => exact absurd hst hopen
  | reclaimed hw _ _ =>
    obtain ⟨e, ha⟩ := h.assigned_of_running hw
    exact absurd ha (hnot e)
  | recovered hst _ _ => simp [hst, TaskState.terminal] at hterm

/-- The record of a task that is `COMPLETE` or `FAILED` stays as it is. -/
theorem TaskStep.eq_of_over (h : Inv P w) {t : String} {r : TaskStateRecord}
    {o' : Option TaskStateRecord} (hr : w.store.taskState[t]? = some r)
    (hstep : TaskStep env w w' t c (some r) o')
    (hover : r.state = .complete ∨ r.state = .failed) : o' = some r := by
  apply hstep.eq_of_terminal h
  · rcases hover with hst | hst <;> rw [hst] <;> rfl
  · intro e ha
    rcases h.state_of_assigned ha hr with hst | hst <;> simp [hst] at hover

/-- Only `GetReadyTask` gives an execution to a task, and the task runs then. -/
theorem Effect.assigned_back (h : Inv P w) {reply : Reply}
    (heff : Effect env w c reply w') {t e : String}
    (ha : w'.coord.assignedTasks[t]? = some e) :
    w.coord.assignedTasks[t]? = some e ∨
      e = env.uuid w.uuids ∧ w.uuids < w'.uuids ∧ w'.store.stateOf t = some .running ∧
        ∃ workerID a, c = .getReadyTask workerID ∧ reply = .assignment (some a) ∧
          a.taskId = t ∧ a.executionId = e := by
  have hforget : ∀ l : List String, w'.coord.assignedTasks
      = (l.foldl Coordinator.forget w.coord).assignedTasks →
      w.coord.assignedTasks[t]? = some e := by
    intro l heq
    rw [heq, Coordinator.get_foldl_forget_assigned] at ha
    split at ha
    · cases ha
    · exact ha
  cases heff with
  | submitWorkflow heff =>
    left
    cases heff with
    | refused _ hcoord _ => exact hforget [] (by rw [hcoord]; rfl)
    | halted _ _ hcoord _ => exact hforget [] (by rw [hcoord]; rfl)
    | launched hl =>
      obtain ⟨c, hcaches, hcoord⟩ := hl.coord
      exact hforget [] (by rw [hcoord]; exact hcaches.assignedTasks)
  | getReadyTask heff =>
    cases heff with
    | empty _ => exact .inl ha
    | unknown _ _ => exact .inl ha
    | @assigned u _ _ r now _ _ _ _ hstore hcoord huuids =>
      rw [hcoord, Table.get_insert] at ha
      split at ha
      · rename_i hut
        subst hut
        cases ha
        refine .inr ⟨rfl, by omega, ?_, _, _, rfl, rfl, rfl, rfl⟩
        rw [hstore, Store.stateOf_setTask, if_pos rfl]
      · exact .inl ha
  | completeTask heff =>
    left
    cases heff with
    | ignored _ _ => exact ha
    | @accepted _ _ _ _ _ _ _ _ _ hcoord _ => exact hforget [_] (by rw [hcoord]; rfl)
  | failTask heff =>
    left
    cases heff with
    | stale _ => exact ha
    | retried _ _ _ _ hcoord _ => exact hforget [_] (by rw [hcoord]; rfl)
    | @failed _ wf _ _ _ _ _ _ hpol _ =>
      generalize wf.failurePolicy = policy at hpol
      cases hpol with
      | failFast hg _ =>
        obtain ⟨gone, _, hcoord⟩ := hg.coord
        exact hforget [_] (by rw [hcoord]; rfl)
      | below _ hg _ =>
        obtain ⟨gone, _, hcoord⟩ := hg.coord
        exact hforget [_] (by rw [hcoord]; rfl)
      | unrecognized _ hcoord => exact hforget [_] (by rw [hcoord]; rfl)
  | cancelWorkflow heff =>
    left
    cases heff with
    | cancelled _ hg _ _ =>
      obtain ⟨gone, _, hcoord⟩ := hg.coord
      exact hforget [] (by rw [hcoord]; rfl)
    | refused _ _ hcoord _ => exact hforget [] (by rw [hcoord]; rfl)
  | handleDeadWorker heff =>
    obtain ⟨l, w₁, _, _, hreq, rfl⟩ := heff.claimed
    exact .inl (hforget l (by dsimp only; rw [hreq.coord]; rfl))
  | restart heff =>
    unfold RestartEffect at heff
    have hempty : w'.coord.assignedTasks = ∅ := by
      rw [heff.coord]
      exact (load_spec h.sound.coherent).2.2.2.1
    rw [hempty] at ha
    simp at ha

/-- The generator never goes back. -/
theorem Effect.uuids_le {reply : Reply} (heff : Effect env w c reply w') :
    w.uuids ≤ w'.uuids := by
  cases heff with
  | submitWorkflow heff =>
    cases heff with
    | refused _ _ huuids => omega
    | halted _ _ _ huuids => omega
    | launched hl =>
      have huuids := hl.uuids
      omega
  | getReadyTask heff =>
    cases heff with
    | empty _ => exact le_rfl
    | unknown _ _ => exact le_rfl
    | assigned _ _ _ _ _ huuids => omega
  | completeTask heff =>
    cases heff with
    | ignored _ _ => exact le_rfl
    | accepted _ _ _ _ _ huuids => omega
  | failTask heff =>
    cases heff with
    | stale _ => exact le_rfl
    | retried _ _ _ _ _ huuids => omega
    | failed _ _ _ _ _ huuids => omega
  | cancelWorkflow heff =>
    cases heff with
    | cancelled _ _ _ huuids => omega
    | refused _ _ _ huuids => omega
  | handleDeadWorker heff =>
    obtain ⟨l, w₁, _, _, hreq, rfl⟩ := heff.claimed
    exact hreq.uuids
  | restart heff =>
    unfold RestartEffect at heff
    exact heff.uuids

/-! ## Workflows -/

/-- Only a submission stores a specification. -/
theorem Effect.workflows {reply : Reply} (heff : Effect env w c reply w')
    (hc : c.submits = none) : w'.store.workflows = w.store.workflows := by
  cases heff with
  | submitWorkflow _ => cases hc
  | getReadyTask heff =>
    cases heff with
    | empty _ => rfl
    | unknown _ _ => rfl
    | assigned _ _ _ hstore _ _ => rw [hstore, setTask_workflows]
  | completeTask heff =>
    cases heff with
    | ignored _ _ => rfl
    | accepted _ _ hcomp hchk _ _ => rw [hchk.workflows, hcomp.workflows]
  | failTask heff =>
    cases heff with
    | stale _ => rfl
    | retried _ _ _ hstore _ _ => rw [hstore, setTask_workflows]
    | @failed _ wf _ _ _ _ _ _ hpol _ =>
      generalize wf.failurePolicy = policy at hpol
      cases hpol with
      | failFast hg hclose => rw [hclose.workflows, hg.store.workflows, setTask_workflows]
      | below _ hg hchk => rw [hchk.workflows, hg.store.workflows, setTask_workflows]
      | unrecognized hstore _ => rw [hstore, setTask_workflows]
  | cancelWorkflow heff =>
    cases heff with
    | cancelled _ hg hclose _ => rw [hclose.workflows, hg.store.workflows]
    | refused _ hstore _ _ => rw [hstore]
  | handleDeadWorker heff =>
    obtain ⟨l, w₁, _, _, hreq, rfl⟩ := heff.claimed
    exact hreq.workflows
  | restart heff =>
    unfold RestartEffect at heff
    exact heff.workflows

/-- Only a submission and a restart change the caches. -/
theorem Effect.sameCaches {reply : Reply} (heff : Effect env w c reply w')
    (hc : c.submits = none) (hr : c ≠ .restart) :
    Coordinator.SameCaches w.coord w'.coord := by
  cases heff with
  | submitWorkflow _ => cases hc
  | getReadyTask heff =>
    cases heff with
    | empty _ => exact ⟨rfl, rfl, rfl⟩
    | unknown _ _ => exact ⟨rfl, rfl, rfl⟩
    | assigned _ _ _ _ hcoord _ =>
      rw [hcoord]
      exact ⟨rfl, rfl, rfl⟩
  | completeTask heff =>
    cases heff with
    | ignored _ _ => exact ⟨rfl, rfl, rfl⟩
    | accepted _ _ _ _ hcoord _ =>
      rw [hcoord]
      exact ⟨rfl, rfl, rfl⟩
  | failTask heff =>
    cases heff with
    | stale _ => exact ⟨rfl, rfl, rfl⟩
    | retried _ _ _ _ hcoord _ =>
      rw [hcoord]
      exact ⟨rfl, rfl, rfl⟩
    | @failed _ wf _ _ _ _ _ _ hpol _ =>
      generalize wf.failurePolicy = policy at hpol
      cases hpol with
      | failFast hg _ | below _ hg _ =>
        obtain ⟨gone, _, hcoord⟩ := hg.coord
        rw [hcoord]
        exact ⟨rfl, rfl, rfl⟩
      | unrecognized _ hcoord =>
        rw [hcoord]
        exact ⟨rfl, rfl, rfl⟩
  | cancelWorkflow heff =>
    cases heff with
    | cancelled _ hg _ _ =>
      obtain ⟨gone, _, hcoord⟩ := hg.coord
      rw [hcoord]
      exact ⟨rfl, rfl, rfl⟩
    | refused _ _ hcoord _ =>
      rw [hcoord]
      exact ⟨rfl, rfl, rfl⟩
  | handleDeadWorker heff =>
    obtain ⟨l, w₁, _, _, hreq, rfl⟩ := heff.claimed
    have hkept := Coordinator.sameCaches_foldl_forget w.coord l
    dsimp only
    rw [hreq.coord]
    exact ⟨hkept.spec, hkept.owner, hkept.policy⟩
  | restart _ => exact absurd rfl hr

/-- Only a submission changes the shape of the store. -/
theorem Effect.sameShape (h : Inv P w) (hadm : c.Admissible P' w) {reply : Reply}
    (heff : Effect env w c reply w') (hc : c.submits = none) :
    SameShape w.store w'.store :=
  ⟨heff.workflows hc, fun t => (heff.task h hadm t).shape hc⟩

/-- The call turns the state `o` of the workflow `id` into `o'`. -/
inductive WorkflowStep (w w' : World) (id : String) :
    (c : Call) → (o o' : Option WorkflowState) → Prop where
  | same {c : Call} {o : Option WorkflowState} : WorkflowStep w w' id c o o
  | started {orders : DagOrders} {wf : WorkflowSpec} {o : Option WorkflowState} :
      wf.workflowId = id →
      WorkflowStep w w' id (.submitWorkflow orders wf) o (some .running)
  | completed {c : Call} {o : Option WorkflowState} :
      w'.store.AllOver id → ¬ w'.store.SomeFailed id →
      WorkflowStep w w' id c o (some .complete)
  | failed {c : Call} {o : Option WorkflowState} :
      w'.store.AllOver id → w'.store.SomeFailed id →
      WorkflowStep w w' id c o (some .failed)
  | stopped {t e errMsg : String} {wf : WorkflowSpec} {o : Option WorkflowState} :
      w.store.ownerOf t = some id → w.store.workflows[id]? = some wf →
      wf.failurePolicy = .failFast →
      WorkflowStep w w' id (.failTask t e errMsg) o (some .failed)
  | cancelled {o : Option WorkflowState} :
      WorkflowStep w w' id (.cancelWorkflow id) o (some .cancelled)

/-- The verdict of `checkWorkflowCompletion` on the tasks of the workflow. -/
def Store.EndsAs (s : Store) (id : String) (st : WorkflowState) : Prop :=
  s.AllOver id ∧
    (st = .failed ∧ s.SomeFailed id ∨ st = .complete ∧ ¬ s.SomeFailed id)

/-- The call writes `st` into the state record of the workflow `id`. -/
inductive WorkflowWrite (w w' : World) (id : String) : Call → WorkflowState → Prop where
  | started {orders : DagOrders} {wf : WorkflowSpec} : wf.workflowId = id →
      WorkflowWrite w w' id (.submitWorkflow orders wf) .running
  | completed {t e output : String} {st : WorkflowState} :
      w.coord.assignedTasks[t]? = some e → w.store.ownerOf t = some id →
      w'.store.EndsAs id st →
      WorkflowWrite w w' id (.completeTask t e output) st
  | failed {t e errMsg : String} {r : TaskStateRecord} {wf : WorkflowSpec}
      {st : WorkflowState} :
      w.coord.assignedTasks[t]? = some e → w.store.taskState[t]? = some r →
      r.workflowID = id → ¬ r.attemptCount + 1 < w.coord.retryLimit t →
      w.store.workflows[id]? = some wf →
      wf.failurePolicy = .failFast ∧ st = .failed ∨
        (wf.failurePolicy = .skipDownstream ∨ wf.failurePolicy = .continueIndependent) ∧
          w'.store.EndsAs id st →
      WorkflowWrite w w' id (.failTask t e errMsg) st
  | cancelled : WorkflowWrite w w' id (.cancelWorkflow id) .cancelled

/-- A check leaves the records of all workflows alone, or writes its verdict
into one of them. -/
theorem Store.Checked.record {i : String} {s s' : Store} (hchk : Checked i s s')
    (id : String) :
    s'.workflowState[id]? = s.workflowState[id]? ∨
      id = i ∧ ∃ r, s'.workflowState[id]? = some r ∧ s'.EndsAs id r.state := by
  have hover : s'.AllOver i ↔ s.AllOver i := by
    unfold AllOver
    rw [hchk.taskState]
  have hfailed : s'.SomeFailed i ↔ s.SomeFailed i := by
    unfold SomeFailed
    rw [hchk.taskState]
  cases hchk with
  | stillOpen _ => exact .inl rfl
  | failed hall hsome hclose =>
    by_cases hid : id = i
    · subst hid
      obtain ⟨r, hr, _, hst⟩ := hclose.this
      exact .inr ⟨rfl, r, hr, hover.mpr hall, .inl ⟨hst, hfailed.mpr hsome⟩⟩
    · exact .inl (hclose.other id hid)
  | complete hall hnone hclose =>
    by_cases hid : id = i
    · subst hid
      obtain ⟨r, hr, _, hst⟩ := hclose.this
      exact .inr ⟨rfl, r, hr, hover.mpr hall,
        .inr ⟨hst, fun hsome => hnone (hfailed.mp hsome)⟩⟩
    · exact .inl (hclose.other id hid)

/-- A submission writes the record of its own workflow, or none. -/
theorem SubmitEffect.workflowRecord {orders : DagOrders} {wf : WorkflowSpec}
    {result : Except CallError Unit} (heff : SubmitEffect w wf result w') (id : String) :
    w'.store.workflowState[id]? = w.store.workflowState[id]? ∨
      ∃ r, w'.store.workflowState[id]? = some r ∧
        WorkflowWrite w w' id (.submitWorkflow orders wf) r.state := by
  have hinsert : ∀ now : Int64, w'.store.workflowState
      = w.store.workflowState.insert wf.workflowId
        { workflowID := wf.workflowId, state := .running, submittedAtMs := now } →
      w'.store.workflowState[id]? = w.store.workflowState[id]? ∨
        ∃ r, w'.store.workflowState[id]? = some r ∧
          WorkflowWrite w w' id (.submitWorkflow orders wf) r.state := by
    intro now hstates
    rw [hstates, Table.get_insert]
    split
    · rename_i hid
      exact .inr ⟨_, rfl, .started hid⟩
    · exact .inl rfl
  cases heff with
  | refused hstore _ _ =>
    rw [hstore]
    exact .inl rfl
  | @halted _ now _ _ hstore _ _ => exact hinsert now (by rw [hstore]; rfl)
  | launched hl =>
    obtain ⟨now, hstates⟩ := hl.workflowState
    exact hinsert now hstates

/-- A failure writes the record of a workflow only if it is the last one allowed for a task
of it. -/
theorem FailEffect.workflowRecord {t e errMsg : String} {result : Except CallError Unit}
    (heff : FailEffect env w t e errMsg result w') (id : String) :
    w'.store.workflowState[id]? = w.store.workflowState[id]? ∨
      ∃ r, w'.store.workflowState[id]? = some r ∧
        WorkflowWrite w w' id (.failTask t e errMsg) r.state := by
  cases heff with
  | stale _ => exact .inl rfl
  | retried _ _ _ hstore _ _ =>
    rw [hstore]
    exact .inl rfl
  | @failed r wf now _ ha hr hlt hwf hpol _ =>
    generalize hpolicy : wf.failurePolicy = policy at hpol
    cases hpol with
    | @failFast s' hg hclose =>
      by_cases hid : id = r.workflowID
      · subst hid
        obtain ⟨rec, hrec, _, hst⟩ := hclose.this
        exact .inr ⟨rec, hrec, .failed ha hr rfl hlt hwf (.inl ⟨hpolicy, hst⟩)⟩
      · rw [hclose.other id hid, hg.store.workflowState]
        exact .inl rfl
    | @below _ s' hbelow hg hchk =>
      rcases hchk.record id with heq | ⟨rfl, rec, hrec, hverdict⟩
      · rw [heq, hg.store.workflowState]
        exact .inl rfl
      · rw [← hpolicy] at hbelow
        exact .inr ⟨rec, hrec, .failed ha hr rfl hlt hwf (.inr ⟨hbelow, hverdict⟩)⟩
    | unrecognized hstore _ =>
      rw [hstore]
      exact .inl rfl

/-- A cancellation writes the record of the workflow that it cancels. -/
theorem CancelEffect.workflowRecord {i : String} {result : Except CallError Unit}
    (heff : CancelEffect w i result w') (id : String) :
    w'.store.workflowState[id]? = w.store.workflowState[id]? ∨
      ∃ r, w'.store.workflowState[id]? = some r ∧
        WorkflowWrite w w' id (.cancelWorkflow i) r.state := by
  cases heff with
  | @cancelled s' _ _ hg hclose _ =>
    by_cases hid : id = i
    · subst hid
      obtain ⟨rec, hrec, _, hst⟩ := hclose.this
      refine .inr ⟨rec, hrec, ?_⟩
      rw [hst]
      exact .cancelled
    · rw [hclose.other id hid, hg.store.workflowState]
      exact .inl rfl
  | refused _ hstore _ _ =>
    rw [hstore]
    exact .inl rfl

/-- A call leaves the record of a workflow alone, or is one of
`WorkflowWrite`. -/
theorem Effect.workflowRecord {reply : Reply} (heff : Effect env w c reply w')
    (id : String) :
    w'.store.workflowState[id]? = w.store.workflowState[id]? ∨
      ∃ r, w'.store.workflowState[id]? = some r ∧ WorkflowWrite w w' id c r.state := by
  cases heff with
  | submitWorkflow heff => exact heff.workflowRecord id
  | failTask heff => exact heff.workflowRecord id
  | cancelWorkflow heff => exact heff.workflowRecord id
  | getReadyTask heff =>
    cases heff with
    | empty _ => exact .inl rfl
    | unknown _ _ => exact .inl rfl
    | assigned _ _ _ hstore _ _ =>
      rw [hstore]
      exact .inl rfl
  | completeTask heff =>
    cases heff with
    | ignored _ _ => exact .inl rfl
    | accepted ha hr hcomp hchk _ _ =>
      rw [← hcomp.workflowState]
      rcases hchk.record id with heq | ⟨rfl, r, hrec, hverdict⟩
      · exact .inl heq
      · exact .inr ⟨r, hrec, .completed ha (ownerOf_of_get hr) hverdict⟩
  | handleDeadWorker heff =>
    obtain ⟨l, w₁, _, _, hreq, rfl⟩ := heff.claimed
    have hsame : w₁.store.workflowState = w.store.workflowState := hreq.workflowState
    dsimp only
    rw [hsame]
    exact .inl rfl
  | restart heff =>
    unfold RestartEffect at heff
    have hsame : w'.store.workflowState = w.store.workflowState := heff.workflowState
    rw [hsame]
    exact .inl rfl

/-- The list of `WorkflowStep` is complete. -/
theorem Effect.workflow {reply : Reply} (heff : Effect env w c reply w') (id : String) :
    WorkflowStep w w' id c (w.store.workflowStateOf id)
      (w'.store.workflowStateOf id) := by
  have hverdict : ∀ {st : WorkflowState}, w'.store.EndsAs id st →
      WorkflowStep w w' id c (w.store.workflowStateOf id) (some st) := by
    intro st h
    obtain ⟨hall, ⟨rfl, hsome⟩ | ⟨rfl, hnone⟩⟩ := h
    · exact .failed hall hsome
    · exact .completed hall hnone
  rcases heff.workflowRecord id with heq | ⟨r, hr, hwrite⟩
  · rw [workflowStateOf, workflowStateOf, heq]
    exact .same
  · have hst : w'.store.workflowStateOf id = some r.state := by
      rw [workflowStateOf, hr]
      rfl
    rw [hst]
    generalize r.state = st at hwrite
    cases hwrite with
    | started hid => exact .started hid
    | completed _ _ h => exact hverdict h
    | failed _ hrec hid _ hwf h =>
      rcases h with ⟨hpolicy, rfl⟩ | ⟨_, h⟩
      · exact .stopped (ownerOf_eq_some.mpr ⟨_, hrec, hid⟩) hwf hpolicy
      · exact hverdict h
    | cancelled => exact .cancelled

/-- Only a submission starts a workflow. -/
theorem WorkflowStep.running_back {id : String} {o : Option WorkflowState}
    (hstep : WorkflowStep w w' id c o (some .running)) (hc : c.submits = none) :
    o = some .running := by
  cases hstep with
  | same => rfl
  | started _ => cases hc

end DagScheduler
