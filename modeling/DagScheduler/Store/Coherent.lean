import DagScheduler.Dag.Accepted
import DagScheduler.Store.Transactions

/-!
# A coherent store

`Coherent` is the invariant of the store alone.  It has three parts.

* `Linked`: every task record belongs to a stored workflow, the records of a
  workflow exist together, and the downstream list of a record is the
  dependency relation of its workflow read backwards.  No transaction other
  than those of a submission can break it, because no other transaction
  changes what `TaskStateRecord.shape` shows.
* `Counted`: a waiting task counts its outstanding dependencies, and a task
  that is past waiting has none.
* `Tracked`: a workflow state record is stored under its own ID, and a
  running workflow has a stored specification.

`depsOf` is the dependency relation of all stored tasks at once, so the
general lemmas of `Lib.Dependency` apply to the store as a whole.
-/

namespace DagScheduler

open Lib

/-- The states that a task reaches only after its dependencies. -/
def TaskState.unblocked : TaskState → Bool
  | .queued | .running | .complete | .failed => true
  | _ => false

/-- The fields of a record that are written once. -/
def TaskStateRecord.shape (r : TaskStateRecord) :
    String × String × List String :=
  (r.taskID, r.workflowID, r.downstreamTaskIDs)

namespace Store

/-- The specification that a task was submitted in. -/
def specOf (s : Store) (t : String) : Option WorkflowSpec :=
  (s.ownerOf t).bind (s.workflows[·]?)

/-- The dependencies of a stored task. -/
def depsOf (s : Store) (t : String) : List String :=
  ((s.specOf t).map (·.dependenciesOf t)).getD []

/-- The task is stored as `COMPLETE`. -/
def isComplete (s : Store) (t : String) : Bool := s.stateOf t = some .complete

/-- Every dependency of the task is `COMPLETE`. -/
def DepsComplete (s : Store) (t : String) : Prop :=
  ∀ d ∈ s.depsOf t, s.isComplete d = true

/-- The records and the specifications fit together. -/
structure Linked (s : Store) : Prop where
  keyed : s.Keyed
  workflow : ∀ (id : String) (wf : WorkflowSpec), s.workflows[id]? = some wf →
    wf.workflowId = id ∧ validKey id = true ∧ wf.WellFormed
  disjoint : ∀ (i j : String) (a b : WorkflowSpec), s.workflows[i]? = some a →
    s.workflows[j]? = some b → ∀ t ∈ a.taskIDs, t ∈ b.taskIDs → i = j
  owned : ∀ (t : String) (r : TaskStateRecord), s.taskState[t]? = some r →
    ∃ wf, s.workflows[r.workflowID]? = some wf ∧ t ∈ wf.taskIDs
  whole : ∀ (id : String) (wf : WorkflowSpec), s.workflows[id]? = some wf →
    ∀ t ∈ wf.taskIDs, t ∈ s.taskState → ∀ u ∈ wf.taskIDs, u ∈ s.taskState
  downstream : ∀ (d : String) (r : TaskStateRecord), s.taskState[d]? = some r →
    ∀ t, r.downstreamTaskIDs.count t = (s.depsOf t).count d

/-- The in-degree counters are right, no task is ahead of its dependencies,
and no task is in the state `UNKNOWN`, which the coordinator never writes. -/
structure Counted (s : Store) : Prop where
  waiting : ∀ (t : String) (r : TaskStateRecord), s.taskState[t]? = some r →
    r.state = .pending → r.inDegree.toInt = outstanding s.depsOf s.isComplete t
  ready : ∀ (t : String) (r : TaskStateRecord), s.taskState[t]? = some r →
    r.state.unblocked = true → s.DepsComplete t
  known : ∀ (t : String) (r : TaskStateRecord), s.taskState[t]? = some r →
    r.state ≠ .unknown

/-- The workflow states are stored under their own IDs. -/
def Tracked (s : Store) : Prop :=
  ∀ (id : String) (r : WorkflowStateRecord), s.workflowState[id]? = some r →
    r.workflowID = id ∧ (r.state = .running → id ∈ s.workflows)

/-- The invariant of the store. -/
structure Coherent (s : Store) : Prop where
  linked : s.Linked
  counted : s.Counted
  tracked : s.Tracked

theorem isComplete_iff {s : Store} {t : String} :
    s.isComplete t = true ↔
      ∃ r, s.taskState[t]? = some r ∧ r.state = .complete := by
  rw [isComplete, decide_eq_true_eq, stateOf_eq_some]

/-- A task that is past waiting has only complete ancestors. -/
theorem Counted.ancestor_complete {s : Store} (hc : s.Counted) {a t : String}
    (h : Ancestor s.depsOf a t) :
    ∀ r, s.taskState[t]? = some r → r.state.unblocked = true → s.isComplete a = true := by
  induction h with
  | single hd => exact fun r hr hu => hc.ready _ r hr hu a hd
  | tail _ hd ih =>
    intro r hr hu
    obtain ⟨rd, hrd, hst⟩ := isComplete_iff.mp (hc.ready _ r hr hu _ hd)
    exact ih rd hrd (by rw [hst]; rfl)

/-! ## Reading a linked store -/

namespace Linked

variable {s : Store} (hl : s.Linked)
include hl

/-- The workflow that has a task in its list owns the record of the task. -/
theorem owner_eq {id t : String} {wf : WorkflowSpec} {r : TaskStateRecord}
    (hwf : s.workflows[id]? = some wf) (ht : t ∈ wf.taskIDs)
    (hr : s.taskState[t]? = some r) : r.workflowID = id := by
  obtain ⟨wf', hwf', ht'⟩ := hl.owned t r hr
  exact hl.disjoint _ _ _ _ hwf' hwf t ht' ht

/-- The dependencies of a task are those of its specification. -/
theorem depsOf_eq {id t : String} {wf : WorkflowSpec} {r : TaskStateRecord}
    (hwf : s.workflows[id]? = some wf) (ht : t ∈ wf.taskIDs)
    (hr : s.taskState[t]? = some r) : s.depsOf t = wf.dependenciesOf t := by
  have hid := hl.owner_eq hwf ht hr
  simp [depsOf, specOf, ownerOf_of_get hr, hid, hwf]

omit hl in
theorem depsOf_absent {t : String} (hr : s.taskState[t]? = none) :
    s.depsOf t = [] := by
  simp [depsOf, specOf, ownerOf, hr]

/-- Only a stored task has dependencies, and they are stored tasks of the
same workflow. -/
theorem dep_stored {t d : String} (hd : d ∈ s.depsOf t) :
    ∃ r rd wf, s.taskState[t]? = some r ∧ s.taskState[d]? = some rd ∧
      rd.workflowID = r.workflowID ∧ s.workflows[r.workflowID]? = some wf ∧
      t ∈ wf.taskIDs ∧ d ∈ wf.taskIDs := by
  cases hr : s.taskState[t]? with
  | none =>
    rw [depsOf_absent hr] at hd
    cases hd
  | some r =>
    obtain ⟨wf, hwf, ht⟩ := hl.owned t r hr
    rw [hl.depsOf_eq hwf ht hr] at hd
    have hmem := (hl.workflow _ _ hwf).2.2.closed t d hd
    have htm : t ∈ s.taskState := (Table.mem_iff_get _ _).mpr ⟨r, hr⟩
    obtain ⟨rd, hrd⟩ := (Table.mem_iff_get _ _).mp
      (hl.whole _ _ hwf t ht htm d hmem)
    exact ⟨r, rd, wf, rfl, hrd, hl.owner_eq hwf hmem hrd, hwf, ht, hmem⟩

/-- A strict ancestor is a task of the same workflow. -/
theorem ancestor_owner {a t : String} (h : Ancestor s.depsOf a t) :
    s.ownerOf a = s.ownerOf t := by
  have hedge : ∀ d u, d ∈ s.depsOf u → s.ownerOf d = s.ownerOf u := by
    intro d u hd
    obtain ⟨r, rd, _, hr, hrd, hid, _⟩ := hl.dep_stored hd
    rw [ownerOf_of_get hr, ownerOf_of_get hrd, hid]
  induction h with
  | single h => exact hedge _ _ h
  | tail _ h ih => exact ih.trans (hedge _ _ h)

/-- The descent along the stored dependencies ends. -/
theorem ends (t : String) : Acc (Precedes s.depsOf) t := by
  cases hr : s.taskState[t]? with
  | none =>
    apply Acc.intro
    intro d hd
    rw [Precedes, depsOf_absent hr] at hd
    cases hd
  | some r =>
    obtain ⟨wf, hwf, ht⟩ := hl.owned t r hr
    have hends := (hl.workflow _ _ hwf).2.2.ends t
    -- The descent stays inside the workflow, where the two relations agree.
    induction hends generalizing r with
    | intro t _ ih =>
      apply Acc.intro
      intro d hd
      obtain ⟨r', rd, wf', hr', hrd, hid, hwf', _, hdw⟩ := hl.dep_stored hd
      rw [hr] at hr'
      cases hr'
      rw [hwf] at hwf'
      cases hwf'
      have hdep : Precedes wf.dependenciesOf d t := by
        rw [Precedes, ← hl.depsOf_eq hwf ht hr]
        exact hd
      exact ih d hdep rd hrd (by rw [hid]; exact hwf) hdw

/-- A downstream list names the tasks that wait for its task. -/
theorem mem_downstream {d t : String} {r : TaskStateRecord}
    (hr : s.taskState[d]? = some r) :
    t ∈ r.downstreamTaskIDs ↔ d ∈ s.depsOf t := by
  rw [← List.count_pos_iff, hl.downstream d r hr, List.count_pos_iff]

end Linked

/-! ## Transactions that keep the shape of every record -/

/-- The specifications and the shapes of the records are the same. -/
structure SameShape (s s' : Store) : Prop where
  workflows : s'.workflows = s.workflows
  shape : ∀ u : String, s'.taskState[u]?.map TaskStateRecord.shape
    = s.taskState[u]?.map TaskStateRecord.shape

namespace SameShape

theorem refl (s : Store) : SameShape s s := ⟨rfl, fun _ => rfl⟩

theorem symm {s s' : Store} (h : SameShape s s') : SameShape s' s :=
  ⟨h.workflows.symm, fun u => (h.shape u).symm⟩

theorem trans {s s' s'' : Store} (h : SameShape s s') (h' : SameShape s' s'') :
    SameShape s s'' :=
  ⟨h'.workflows.trans h.workflows, fun u => (h'.shape u).trans (h.shape u)⟩

variable {s s' : Store} (h : SameShape s s')
include h

/-- Every record comes from a record of the same shape. -/
theorem back {u : String} {r' : TaskStateRecord}
    (hr' : s'.taskState[u]? = some r') :
    ∃ r, s.taskState[u]? = some r ∧ r.taskID = r'.taskID ∧
      r.workflowID = r'.workflowID ∧ r.downstreamTaskIDs = r'.downstreamTaskIDs := by
  have hu := h.shape u
  rw [hr', Option.map_some, eq_comm, Option.map_eq_some_iff] at hu
  obtain ⟨r, hr, hshape⟩ := hu
  simp only [TaskStateRecord.shape, Prod.mk.injEq] at hshape
  exact ⟨r, hr, hshape⟩

theorem mem_iff (u : String) : u ∈ s'.taskState ↔ u ∈ s.taskState := by
  have hu := congrArg Option.isSome (h.shape u)
  rw [Option.isSome_map, Option.isSome_map] at hu
  rw [Std.ExtTreeMap.mem_iff_isSome_getElem?, Std.ExtTreeMap.mem_iff_isSome_getElem?, hu]

theorem ownerOf (u : String) : s'.ownerOf u = s.ownerOf u := by
  have hu := congrArg (Option.map (·.2.1)) (h.shape u)
  rw [Option.map_map, Option.map_map] at hu
  exact hu

theorem depsOf : s'.depsOf = s.depsOf := by
  funext u
  rw [Store.depsOf, Store.depsOf, specOf, specOf, h.ownerOf, h.workflows]

theorem keyed (hk : s.Keyed) : s'.Keyed := by
  intro u r' hr'
  obtain ⟨r, hr, hid, _⟩ := h.back hr'
  exact ⟨hid ▸ (hk u r hr).1, (hk u r hr).2⟩

theorem linked (hl : s.Linked) : s'.Linked := by
  refine ⟨h.keyed hl.keyed, ?_, ?_, ?_, ?_, ?_⟩
  · rw [h.workflows]
    exact hl.workflow
  · rw [h.workflows]
    exact hl.disjoint
  · intro u r' hr'
    obtain ⟨r, hr, _, hid, _⟩ := h.back hr'
    rw [h.workflows, ← hid]
    exact hl.owned u r hr
  · rw [h.workflows]
    intro id wf hwf t ht htm u hu
    exact (h.mem_iff u).mpr (hl.whole id wf hwf t ht ((h.mem_iff t).mp htm) u hu)
  · intro d r' hr' t
    obtain ⟨r, hr, _, _, hds⟩ := h.back hr'
    rw [h.depsOf, ← hds]
    exact hl.downstream d r hr t

end SameShape

theorem sameShape_setTask {s : Store} {t : String} {r r' : TaskStateRecord}
    (hr : s.taskState[t]? = some r) (hshape : r'.shape = r.shape) :
    SameShape s (s.setTask t r') := by
  refine ⟨rfl, ?_⟩
  intro u
  rw [get_setTask]
  split
  · rename_i htu
    rw [← htu, hr, Option.map_some, Option.map_some, hshape]
  · rfl

theorem sameShape_setWorkflowState (s : Store) (id : String)
    (r : WorkflowStateRecord) : SameShape s (s.setWorkflowState id r) :=
  ⟨rfl, fun _ => rfl⟩

theorem unlocked_shape (now : Int64) (ds : TaskStateRecord) :
    (unlocked now ds).shape = ds.shape := by
  unfold unlocked
  split <;> rfl

theorem iterate_unlocked_shape (now : Int64) (n : Nat) (ds : TaskStateRecord) :
    ((unlocked now)^[n] ds).shape = ds.shape := by
  induction n with
  | zero => rfl
  | succ n ih => rw [Function.iterate_succ_apply', unlocked_shape, ih]

theorem Completion.sameShape {now : Int64} {t output : String}
    {r : TaskStateRecord} {s s' : Store} {ready : List String}
    (h : Completion now t output r s s' ready) (hr : s.taskState[t]? = some r) :
    SameShape s s' := by
  refine ⟨h.workflows, ?_⟩
  intro u
  by_cases hu : u = t
  · rw [hu, h.task, hr]
    rfl
  · rw [h.other u hu, Option.map_map]
    exact congrArg (Option.map · _) (funext (iterate_unlocked_shape now _))

theorem Skips.sameShape {P : String → Prop} {s s' : Store} (h : Skips P s s') :
    SameShape s s' := by
  refine ⟨h.workflows, ?_⟩
  intro u
  cases hr : s.taskState[u]? with
  | none => rw [h.absent u hr]
  | some r =>
    by_cases hc : P u ∧ r.state.terminal = false
    · obtain ⟨now, hnow⟩ := h.hit u r hr hc.1 hc.2
      rw [hnow]
      rfl
    · rw [h.miss u r hr hc]

end Store

/-- The transactions that rewrite records of tasks, and create none. -/
def StoreOp.rewrites {α : Type} : StoreOp α → Bool
  | .updateTaskState _ _ | .assignTask _ _ | .completeTask _ _ _ | .failTask _ _ _
  | .requeueTask _ _ | .cancelWorkflowTasks _ => true
  | _ => false

/-- A transaction that rewrites records keeps their shape, whether it succeeds
or not, and touches no other bucket. -/
theorem StoreOp.sameShape_of_rewrites {α : Type} (op : StoreOp α)
    (hop : op.rewrites = true) {s : Store} (hk : s.Keyed)
    (marshals : WorkflowSpec → Bool) (now : Int64) :
    Store.SameShape s (s.commit (op.tx marshals now)).2 ∧
      (s.commit (op.tx marshals now)).2.workflowState = s.workflowState := by
  have hmodify : ∀ (t : String) (f : TaskStateRecord → TaskStateRecord),
      (∀ r, (f r).shape = r.shape) →
      Store.SameShape s (s.commit (Store.modifyTask t f)).2 ∧
        (s.commit (Store.modifyTask t f)).2.workflowState = s.workflowState := by
    intro t f hf
    cases hr : s.taskState[t]? with
    | none =>
      rw [Store.commit_modifyTask_absent hr]
      exact ⟨.refl s, rfl⟩
    | some r =>
      rw [Store.commit_modifyTask hk hr]
      exact ⟨Store.sameShape_setTask hr (hf r), rfl⟩
  cases op with
  | storeWorkflow _ => cases hop
  | initWorkflowState _ => cases hop
  | updateWorkflowState _ _ => cases hop
  | initializeTasksForWorkflow _ _ _ _ => cases hop
  | updateTaskState t st => exact hmodify t _ fun _ => rfl
  | assignTask t e => exact hmodify t _ fun _ => rfl
  | failTask t errMsg n => exact hmodify t _ fun _ => rfl
  | requeueTask t e => exact hmodify t _ fun _ => rfl
  | completeTask t e output =>
    show Store.SameShape s (s.commit (Store.completeTask now t e output)).2 ∧
      (s.commit (Store.completeTask now t e output)).2.workflowState = s.workflowState
    cases hr : s.taskState[t]? with
    | none =>
      rw [Store.commit_completeTask_absent hr]
      exact ⟨.refl s, rfl⟩
    | some r =>
      by_cases he : r.executionID = e
      · by_cases hst : r.state = .complete
        · rw [Store.commit_completeTask_again hr he hst]
          exact ⟨.refl s, rfl⟩
        · obtain ⟨s', ready, hcommit, hcomp⟩ :=
            Store.commit_completeTask hk.validKeys hr he hst now output
          rw [hcommit]
          exact ⟨hcomp.sameShape hr, hcomp.workflowState⟩
      · rw [Store.commit_completeTask_stale hr he]
        exact ⟨.refl s, rfl⟩
  | cancelWorkflowTasks id =>
    obtain ⟨s', cancelled, hcommit, hskips, _⟩ :=
      Store.commit_cancelWorkflowTasks hk now id
    show Store.SameShape s (s.commit (Store.cancelWorkflowTasks now id)).2 ∧
      (s.commit (Store.cancelWorkflowTasks now id)).2.workflowState = s.workflowState
    rw [hcommit]
    exact ⟨hskips.sameShape, hskips.workflowState⟩

end DagScheduler
