import DagScheduler.Store.Coherent

/-!
# What one transaction does to one record

`StoreOp.Creates` and `StoreOp.Rewrites` say which records a transaction can write for
a task, field by field, `StoreOp.WritesState` the record of a workflow, and
`StoreOp.WritesSpec` its specification.  `StoreOp.commit_changes`,
`StoreOp.commit_workflowState` and `StoreOp.commit_workflows` prove that nothing else
happens, on every keyed store, whether the transaction succeeds or not.  Who runs the
transaction and why does not matter here, so the lists serve runs that are cut short,
interleaved, or hit by faults as well as orderly ones.
-/

namespace DagScheduler

open Lib Store

namespace StoreOp

variable {α : Type}

/-- The transaction can create the record for `t`. -/
def Creates (t : String) (r : TaskStateRecord) : StoreOp α → Prop
  | .initializeTasksForWorkflow id tasks inDegrees downstream =>
      ∃ now, ∃ task ∈ tasks, task.taskId = t ∧
        r = initialRecord now id inDegrees downstream task
  | _ => False

/-- The transaction can turn the record `r` of `t` into `r'`. -/
def Rewrites (t : String) (r r' : TaskStateRecord) : StoreOp α → Prop
  | .updateTaskState u st => u = t ∧ ∃ now, r' = { r with state := st, lastUpdated := now }
  | .assignTask u e => u = t ∧
      ∃ now, r' = { r with state := .running, executionID := e, lastUpdated := now }
  | .completeTask u e output =>
      u = t ∧ r.executionID = e ∧
        (∃ now, r' = { r with state := .complete, output := output, lastUpdated := now }) ∨
      ∃ now n, r' = (unlocked now)^[n] r
  | .failTask u errMsg attemptCount => u = t ∧
      ∃ now, r' = { r with
        state := .failed, error := errMsg, attemptCount := attemptCount, lastUpdated := now }
  | .requeueTask u e => u = t ∧
      ∃ now, r' = { r with state := .queued, executionID := e, lastUpdated := now }
  | .cancelWorkflowTasks _ => r.state.terminal = false ∧
      ∃ now, r' = { r with state := .skipped, lastUpdated := now }
  | _ => False

/-- The record of `t` before and after the transaction. -/
inductive Changes (op : StoreOp α) (t : String) :
    Option TaskStateRecord → Option TaskStateRecord → Prop where
  | same (o : Option TaskStateRecord) : Changes op t o o
  | created (o : Option TaskStateRecord) {r : TaskStateRecord} : op.Creates t r →
      Changes op t o (some r)
  | rewritten {r r' : TaskStateRecord} : op.Rewrites t r r' → Changes op t (some r) (some r')

variable {s : Store} {t : String}

/-- The transactions that rewrite one record. -/
private theorem changes_modifyTask (hk : s.Keyed) {op : StoreOp α} {u : String}
    {f : TaskStateRecord → TaskStateRecord} (hf : ∀ r, u = t → op.Rewrites t r (f r)) :
    op.Changes t s.taskState[t]? (s.commit (modifyTask u f)).2.taskState[t]? := by
  rcases commit_modifyTask_cases hk u f with ⟨r, hr, hcommit⟩ | ⟨_, hcommit⟩
  · rw [hcommit, get_setTask]
    split
    · rename_i hu
      subst hu
      rw [hr]
      exact .rewritten (hf r rfl)
    · exact .same _
  · rw [hcommit]
    exact .same _

private theorem changes_initializeTasks (now : Int64) (id : String) (tasks : List TaskSpec)
    (inDegrees : Table String Int32) (downstream : Table String (List String)) :
    (StoreOp.initializeTasksForWorkflow id tasks inDegrees downstream).Changes t s.taskState[t]?
      (s.commit (Store.initializeTasksForWorkflow now id tasks inDegrees
        downstream)).2.taskState[t]? := by
  by_cases hkeys : ∀ task ∈ tasks, validKey task.taskId = true
  · rw [commit_initializeTasks hkeys]
    -- If two tasks of the list share an ID, the last one has written the record.
    suffices h : ∀ (l : List TaskSpec) (m : Table String TaskStateRecord), l ⊆ tasks →
        (StoreOp.initializeTasksForWorkflow id tasks inDegrees downstream).Changes t
          s.taskState[t]? m[t]? →
        (StoreOp.initializeTasksForWorkflow id tasks inDegrees downstream).Changes t
          s.taskState[t]? (l.foldl (fun m task => m.insert task.taskId
            (initialRecord now id inDegrees downstream task)) m)[t]? from
      h tasks s.taskState (List.Subset.refl _) (.same _)
    intro l
    induction l with
    | nil => exact fun m _ hm => hm
    | cons task l ih =>
      intro m hsub hm
      rw [List.cons_subset] at hsub
      refine ih _ hsub.2 ?_
      rw [Table.get_insert]
      split
      · rename_i heq
        exact .created _ ⟨now, task, hsub.1, heq, rfl⟩
      · exact hm
  · have hbad : ∃ task ∈ tasks, validKey task.taskId = false := by simpa using hkeys
    obtain ⟨e, he⟩ := commit_initializeTasks_refused hbad now id inDegrees downstream s
    rw [he]
    exact .same _

private theorem changes_completeTask (hk : s.Keyed) (now : Int64) (u e output : String) :
    (StoreOp.completeTask u e output).Changes t s.taskState[t]?
      (s.commit (Store.completeTask now u e output)).2.taskState[t]? := by
  have hcases := commit_completeTask_cases hk now u e output
  generalize s.commit (Store.completeTask now u e output) = out at hcases ⊢
  cases hcases with
  | absent _ => exact .same _
  | stale _ _ => exact .same _
  | again _ _ _ => exact .same _
  | done hr he _ hc =>
    by_cases hu : u = t
    · subst hu
      rw [hr, hc.task]
      exact .rewritten (.inl ⟨rfl, he, now, rfl⟩)
    · rw [hc.other t (Ne.symm hu)]
      cases s.taskState[t]? with
      | none => exact .same _
      | some x => exact .rewritten (.inr ⟨now, _, rfl⟩)

private theorem changes_cancelWorkflowTasks (hk : s.Keyed) (now : Int64) (id : String) :
    (StoreOp.cancelWorkflowTasks id).Changes t s.taskState[t]?
      (s.commit (Store.cancelWorkflowTasks now id)).2.taskState[t]? := by
  obtain ⟨s', cancelled, hcommit, hskips, _⟩ := commit_cancelWorkflowTasks hk now id
  rw [hcommit]
  cases hr : s.taskState[t]? with
  | none =>
    rw [hskips.absent t hr]
    exact .same _
  | some r =>
    by_cases hhit : s.ownerOf t = some id ∧ r.state.terminal = false
    · obtain ⟨now', hnew⟩ := hskips.hit t r hr hhit.1 hhit.2
      rw [hnew]
      exact .rewritten ⟨hhit.2, now', rfl⟩
    · rw [hskips.miss t r hr hhit]
      exact .same _

/-- Every transaction leaves every record in one of the listed ways. -/
theorem commit_changes (op : StoreOp α) (hk : s.Keyed) (marshals : WorkflowSpec → Bool)
    (now : Int64) (t : String) :
    op.Changes t s.taskState[t]? (s.commit (op.tx marshals now)).2.taskState[t]? := by
  cases op with
  | storeWorkflow wf =>
    by_cases hok : marshals wf = true ∧ validKey wf.workflowId = true
    · rw [StoreOp.tx, commit_storeWorkflow hok.1 hok.2]
      exact .same _
    · obtain ⟨e, he⟩ := commit_storeWorkflow_refused hok s
      rw [StoreOp.tx, he]
      exact .same _
  | initWorkflowState id =>
    cases hid : validKey id with
    | true =>
      rw [StoreOp.tx, commit_initWorkflowState hid]
      exact .same _
    | false =>
      obtain ⟨e, he⟩ := commit_initWorkflowState_refused hid now s
      rw [StoreOp.tx, he]
      exact .same _
  | updateWorkflowState id st =>
    rcases commit_updateWorkflowState_cases now id st with ⟨r, _, he⟩ | ⟨e, he⟩
    all_goals
      rw [StoreOp.tx, he]
      exact .same _
  | initializeTasksForWorkflow id tasks inDegrees downstream =>
    exact changes_initializeTasks now id tasks inDegrees downstream
  | updateTaskState u st => exact changes_modifyTask hk fun r hu => ⟨hu, now, rfl⟩
  | assignTask u e => exact changes_modifyTask hk fun r hu => ⟨hu, now, rfl⟩
  | completeTask u e output => exact changes_completeTask hk now u e output
  | failTask u errMsg attemptCount => exact changes_modifyTask hk fun r hu => ⟨hu, now, rfl⟩
  | requeueTask u e => exact changes_modifyTask hk fun r hu => ⟨hu, now, rfl⟩
  | cancelWorkflowTasks id => exact changes_cancelWorkflowTasks hk now id

/-! ## The state of a workflow -/

/-- The transaction writes the record `r` for the workflow `id`, over `o`. -/
def WritesState (now : Int64) (id : String) (o : Option WorkflowStateRecord)
    (r : WorkflowStateRecord) : StoreOp α → Prop
  | .initWorkflowState i =>
      i = id ∧ r = { workflowID := id, state := .running, submittedAtMs := now }
  | .updateWorkflowState i st => i = id ∧ r = nextWorkflowState now id o st
  | _ => False

private theorem state_putWorkflowState {i id : String} {op : StoreOp α} {now : Int64}
    {r : WorkflowStateRecord} {tx : Tx Unit}
    (htx : s.commit tx = (.ok (), s.setWorkflowState i r) ∨ ∃ e, s.commit tx = (.error e, s))
    (hop : i = id → op.WritesState now id s.workflowState[id]? r) :
    (s.commit tx).2.workflowState[id]? = s.workflowState[id]? ∨
      ∃ r, (s.commit tx).2.workflowState[id]? = some r ∧
        op.WritesState now id s.workflowState[id]? r := by
  rcases htx with hcommit | ⟨e, hcommit⟩
  · rw [hcommit, get_setWorkflowState]
    split
    · rename_i hi
      exact .inr ⟨r, rfl, hop hi⟩
    · exact .inl rfl
  · rw [hcommit]
    exact .inl rfl

/-- Two transactions write the state of a workflow, and no other one touches it. -/
theorem commit_workflowState (op : StoreOp α) (hk : s.Keyed) (marshals : WorkflowSpec → Bool)
    (now : Int64) (id : String) :
    (s.commit (op.tx marshals now)).2.workflowState[id]? = s.workflowState[id]? ∨
      ∃ r, (s.commit (op.tx marshals now)).2.workflowState[id]? = some r ∧
        op.WritesState now id s.workflowState[id]? r := by
  by_cases hop : op.rewrites = true
  · rw [(op.sameShape_of_rewrites hop hk marshals now).2]
    exact .inl rfl
  · cases op with
    | storeWorkflow wf =>
      by_cases hok : marshals wf = true ∧ validKey wf.workflowId = true
      · rw [StoreOp.tx, commit_storeWorkflow hok.1 hok.2]
        exact .inl rfl
      · obtain ⟨e, he⟩ := commit_storeWorkflow_refused hok s
        rw [StoreOp.tx, he]
        exact .inl rfl
    | initWorkflowState i =>
      refine state_putWorkflowState ?_ fun hi => ⟨hi, by rw [← hi]⟩
      cases hi : validKey i with
      | true => exact .inl (commit_initWorkflowState hi now s)
      | false => exact .inr (commit_initWorkflowState_refused hi now s)
    | updateWorkflowState i st =>
      refine state_putWorkflowState ?_ fun hi => ⟨hi, by rw [← hi]⟩
      cases hi : validKey i with
      | true => exact .inl (commit_updateWorkflowState hi now st s)
      | false => exact .inr (commit_updateWorkflowState_refused hi now st s)
    | initializeTasksForWorkflow i tasks inDegrees downstream =>
      by_cases hkeys : ∀ task ∈ tasks, validKey task.taskId = true
      · rw [StoreOp.tx, commit_initializeTasks hkeys]
        exact .inl rfl
      · have hbad : ∃ task ∈ tasks, validKey task.taskId = false := by simpa using hkeys
        obtain ⟨e, he⟩ := commit_initializeTasks_refused hbad now i inDegrees downstream s
        rw [StoreOp.tx, he]
        exact .inl rfl
    | _ => exact absurd rfl hop

/-! ## The specifications -/

/-- The transaction writes a specification under this ID. -/
def WritesSpec (id : String) : StoreOp α → Prop
  | .storeWorkflow workflow => workflow.workflowId = id
  | _ => False

private theorem workflows_putWorkflowState {tx : Tx Unit}
    (htx : (∃ i r, s.commit tx = (.ok (), s.setWorkflowState i r)) ∨
      ∃ e, s.commit tx = (.error e, s)) :
    (s.commit tx).2.workflows = s.workflows := by
  rcases htx with ⟨i, r, hcommit⟩ | ⟨e, hcommit⟩
  · rw [hcommit]
    rfl
  · rw [hcommit]

/-- `StoreWorkflow` is the only transaction that touches a specification. -/
theorem commit_workflows (op : StoreOp α) (hk : s.Keyed) (marshals : WorkflowSpec → Bool)
    (now : Int64) {id : String} (hop : ¬ op.WritesSpec id) :
    (s.commit (op.tx marshals now)).2.workflows[id]? = s.workflows[id]? := by
  by_cases hshape : op.rewrites = true
  · rw [(op.sameShape_of_rewrites hshape hk marshals now).1.workflows]
  · cases op with
    | storeWorkflow workflow =>
      by_cases hok : marshals workflow = true ∧ validKey workflow.workflowId = true
      · rw [StoreOp.tx, commit_storeWorkflow hok.1 hok.2, Table.get_insert]
        exact if_neg hop
      · obtain ⟨e, he⟩ := commit_storeWorkflow_refused hok s
        rw [StoreOp.tx, he]
    | initWorkflowState i =>
      refine congrArg (·[id]?) (workflows_putWorkflowState ?_)
      cases hi : validKey i with
      | true => exact .inl ⟨i, _, commit_initWorkflowState hi now s⟩
      | false => exact .inr (commit_initWorkflowState_refused hi now s)
    | updateWorkflowState i st =>
      refine congrArg (·[id]?) (workflows_putWorkflowState ?_)
      cases hi : validKey i with
      | true => exact .inl ⟨i, _, commit_updateWorkflowState hi now st s⟩
      | false => exact .inr (commit_updateWorkflowState_refused hi now st s)
    | initializeTasksForWorkflow i tasks inDegrees downstream =>
      by_cases hkeys : ∀ task ∈ tasks, validKey task.taskId = true
      · rw [StoreOp.tx, commit_initializeTasks hkeys]
      · have hbad : ∃ task ∈ tasks, validKey task.taskId = false := by simpa using hkeys
        obtain ⟨e, he⟩ := commit_initializeTasks_refused hbad now i inDegrees downstream s
        rw [StoreOp.tx, he]
    | _ => exact absurd rfl hshape

end StoreOp

end DagScheduler
