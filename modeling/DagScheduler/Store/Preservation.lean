import DagScheduler.Store.Coherent

/-!
# The transactions keep the store coherent

Each transaction keeps `Coherent` under a condition on the task it writes.

* `Coherent.rewrite`: records may change their state as long as no
  completion appears or disappears, and a task that is put past waiting has
  complete dependencies.  It covers the four transactions on one record
  (`Coherent.setTask`) and the two ways to give tasks up (`Coherent.skips`).
* `Coherent.completion`: the completion of a task whose dependencies are
  complete.  This is the only transaction that moves the counters, and
  `Lib.outstanding_mark` is the arithmetic behind it.
* `Coherent.storeWorkflow` and `Coherent.initializeTasks`: a new workflow
  whose IDs are fresh.
-/

namespace DagScheduler

open Lib

namespace Store

theorem isComplete_of_get {s : Store} {t : String} {r : TaskStateRecord}
    (h : s.taskState[t]? = some r) :
    s.isComplete t = decide (r.state = .complete) := by
  simp [isComplete, stateOf_of_get h]

theorem isComplete_absent {s : Store} {t : String} (h : s.taskState[t]? = none) :
    s.isComplete t = false := by
  simp [isComplete, stateOf, h]

/-- Completed tasks stay completed, so complete dependencies stay so. -/
theorem DepsComplete.mono {s s' : Store} (hdeps : s'.depsOf = s.depsOf)
    (hmono : ∀ u, s.isComplete u = true → s'.isComplete u = true) {t : String}
    (h : s.DepsComplete t) : s'.DepsComplete t := by
  intro d hd
  rw [hdeps] at hd
  exact hmono d (h d hd)

/-! ## Rewriting records -/

theorem Counted.rewrite {s s' : Store} (hc : s.Counted) (hshape : SameShape s s')
    (hcomp : ∀ u, s'.isComplete u = s.isComplete u)
    (hrec : ∀ (u : String) (r' : TaskStateRecord), s'.taskState[u]? = some r' →
      s.taskState[u]? = some r' ∨
        r'.state ≠ .pending ∧ r'.state ≠ .unknown ∧
          (r'.state.unblocked = true → s.DepsComplete u)) :
    s'.Counted := by
  have hsame : s'.isComplete = s.isComplete := funext hcomp
  refine ⟨?_, ?_, ?_⟩
  · intro u r' hr' hp
    rw [hshape.depsOf, hsame]
    rcases hrec u r' hr' with hr | ⟨hne, _⟩
    · exact hc.waiting u r' hr hp
    · exact absurd hp hne
  · intro u r' hr' hu
    rw [DepsComplete, hshape.depsOf, hsame]
    rcases hrec u r' hr' with hr | ⟨_, _, hdeps⟩
    · exact hc.ready u r' hr hu
    · exact hdeps hu
  · intro u r' hr'
    rcases hrec u r' hr' with hr | ⟨_, hknown, _⟩
    · exact hc.known u r' hr
    · exact hknown

theorem Tracked.of_eq {s s' : Store} (ht : s.Tracked)
    (hw : s'.workflows = s.workflows) (hws : s'.workflowState = s.workflowState) :
    s'.Tracked := by
  unfold Tracked
  rw [hw, hws]
  exact ht

/-- Giving up open tasks completes none and takes no completion back. -/
theorem Skips.isComplete {P : String → Prop} {s s' : Store} (h : Skips P s s') (u : String) :
    s'.isComplete u = s.isComplete u := by
  cases hr : s.taskState[u]? with
  | none => rw [isComplete_absent hr, isComplete_absent (h.absent u hr)]
  | some r =>
    by_cases hc : P u ∧ r.state.terminal = false
    · obtain ⟨now, hnow⟩ := h.hit u r hr hc.1 hc.2
      have hne : r.state ≠ .complete := by
        intro he
        rw [he] at hc
        cases hc.2
      rw [isComplete_of_get hnow, isComplete_of_get hr]
      simp [hne]
    · rw [isComplete_of_get hr, isComplete_of_get (h.miss u r hr hc)]

theorem stateOf_setTask (s : Store) (t u : String) (r : TaskStateRecord) :
    (s.setTask t r).stateOf u = if t = u then some r.state else s.stateOf u := by
  rw [stateOf, get_setTask]
  split <;> rfl

/-- Overwriting a task that is not complete takes no completion back. -/
theorem isComplete_setTask {s : Store} {t : String} (r : TaskStateRecord)
    (hold : s.isComplete t = false) {u : String} (hu : s.isComplete u = true) :
    (s.setTask t r).isComplete u = true := by
  have hne : t ≠ u := by
    intro htu
    rw [htu, hu] at hold
    cases hold
  rw [isComplete, stateOf, get_setTask, if_neg hne]
  exact hu

namespace Coherent

variable {s s' : Store} (hs : s.Coherent)
include hs

/-- Records may change their state, as long as no completion appears or
disappears and nothing gets ahead of its dependencies. -/
theorem rewrite (hshape : SameShape s s') (hws : s'.workflowState = s.workflowState)
    (hcomp : ∀ u, s'.isComplete u = s.isComplete u)
    (hrec : ∀ (u : String) (r' : TaskStateRecord), s'.taskState[u]? = some r' →
      s.taskState[u]? = some r' ∨
        r'.state ≠ .pending ∧ r'.state ≠ .unknown ∧
          (r'.state.unblocked = true → s.DepsComplete u)) :
    s'.Coherent :=
  ⟨hshape.linked hs.linked, hs.counted.rewrite hshape hcomp hrec,
    hs.tracked.of_eq hshape.workflows hws⟩

/-- A task that is not complete may take any state but `PENDING`, `COMPLETE`
and `UNKNOWN`, if its dependencies are complete where the state asks for it. -/
theorem setTask {t : String} {r r' : TaskStateRecord}
    (hr : s.taskState[t]? = some r) (hshape : r'.shape = r.shape)
    (hold : r.state ≠ .complete) (hnew : r'.state ≠ .complete)
    (hpend : r'.state ≠ .pending) (hknown : r'.state ≠ .unknown)
    (hdeps : r'.state.unblocked = true → s.DepsComplete t) :
    (s.setTask t r').Coherent := by
  apply hs.rewrite (sameShape_setTask hr hshape) rfl
  · intro u
    rw [isComplete, stateOf, get_setTask]
    split
    · rename_i htu
      subst htu
      rw [isComplete_of_get hr]
      simp [hold, hnew]
    · rfl
  · intro u x hx
    rw [get_setTask] at hx
    split at hx
    · rename_i htu
      cases hx
      exact .inr ⟨hpend, hknown, htu ▸ hdeps⟩
    · exact .inl hx

/-- A task that is not complete may be queued, started or failed once its
dependencies are complete. -/
theorem overwrite {t : String} {r r' : TaskStateRecord}
    (hr : s.taskState[t]? = some r) (hshape : r'.shape = r.shape)
    (hold : s.isComplete t = false) (hdeps : s.DepsComplete t)
    (hst : r'.state = .queued ∨ r'.state = .running ∨ r'.state = .failed) :
    (s.setTask t r').Coherent := by
  have hne : r.state ≠ .complete := by
    intro hc
    rw [isComplete_of_get hr, hc] at hold
    cases hold
  apply hs.setTask hr hshape hne _ _ _ fun _ => hdeps
  all_goals rcases hst with hst | hst | hst <;> rw [hst] <;> decide

/-- Giving up open tasks. -/
theorem skips {P : String → Prop} (h : Skips P s s') : s'.Coherent := by
  apply hs.rewrite h.sameShape h.workflowState h.isComplete
  intro u r' hr'
  obtain ⟨r, hr, _⟩ := h.sameShape.back hr'
  by_cases hc : P u ∧ r.state.terminal = false
  · obtain ⟨now, hnow⟩ := h.hit u r hr hc.1 hc.2
    rw [hr'] at hnow
    cases hnow
    exact .inr ⟨by simp, by simp, by simp [TaskState.unblocked]⟩
  · rw [h.miss u r hr hc] at hr'
    exact .inl (hr'.symm ▸ hr)

/-- Writing a workflow state that does not start the workflow. -/
theorem setWorkflowState {id : String} {r : WorkflowStateRecord}
    (hid : r.workflowID = id) (hrun : r.state = .running → id ∈ s.workflows) :
    (s.setWorkflowState id r).Coherent := by
  refine ⟨(sameShape_setWorkflowState s id r).linked hs.linked,
    ⟨hs.counted.waiting, hs.counted.ready, hs.counted.known⟩, ?_⟩
  intro i x hx
  rw [get_setWorkflowState] at hx
  split at hx
  · rename_i hi
    cases hx
    subst hi
    exact ⟨hid, hrun⟩
  · exact hs.tracked i x hx

/-- `UpdateWorkflowState` with a state that ends the workflow. -/
theorem nextWorkflowState (now : Int64) (id : String) {st : WorkflowState} (hst : st ≠ .running) :
    (s.setWorkflowState id
      (Store.nextWorkflowState now id s.workflowState[id]? st)).Coherent := by
  refine hs.setWorkflowState ?_ ?_
  · exact nextWorkflowState_workflowID _ _ _ _ fun r hr => (hs.tracked id r hr).1
  · rw [nextWorkflowState_state]
    exact fun h => absurd h hst

end Coherent

/-! ## The completion of a task -/

section Completion

variable {now : Int64} {t output : String} {r : TaskStateRecord}
  {s s' : Store} {ready : List String}

theorem Completion.isComplete_task (h : Completion now t output r s s' ready) :
    s'.isComplete t = true := by
  simp [isComplete_of_get h.task]

/-- The loop leaves a task alone that is not waiting for `t`. -/
theorem Completion.get_other (h : Completion now t output r s s' ready)
    {u : String} (hu : u ≠ t) {ru : TaskStateRecord}
    (hru : s.taskState[u]? = some ru)
    (hc : ru.state ≠ .pending ∨ u ∉ r.downstreamTaskIDs) :
    s'.taskState[u]? = some ru := by
  rw [h.other u hu, hru, Option.map_some]
  rcases hc with hne | hnot
  · rw [iterate_unlocked_of_ne now hne]
  · rw [List.count_eq_zero_of_not_mem hnot, Function.iterate_zero, id]

/-- The loop leaves a waiting task waiting or queues it. -/
theorem iterate_unlocked_pending {ds : TaskStateRecord} (now : Int64)
    (hp : ds.state = .pending) (n : Nat) :
    ((unlocked now)^[n] ds).state = .pending ∨
      ((unlocked now)^[n] ds).state = .queued := by
  induction n with
  | zero => exact .inl hp
  | succ n ih =>
    rw [Function.iterate_succ_apply']
    rcases ih with ih | ih
    · rw [unlocked, if_pos ih, decrement_state, ih]
      split
      · exact .inr rfl
      · exact .inl rfl
    · rw [unlocked_of_ne now (by simp [ih])]
      exact .inr ih

/-- A completion of `t` moves no other task, except that it queues tasks that
waited. -/
theorem Completion.stateOf_other (h : Completion now t output r s s' ready)
    {u : String} (hu : u ≠ t) :
    s'.stateOf u = s.stateOf u ∨ Released s s' u := by
  cases hru : s.taskState[u]? with
  | none =>
    have hru' : s'.taskState[u]? = none := by
      rw [h.other u hu, hru]
      rfl
    exact .inl (by rw [stateOf, stateOf, hru, hru'])
  | some ru =>
    by_cases hp : ru.state = .pending
    · have hru' := h.other u hu
      rw [hru, Option.map_some] at hru'
      rcases iterate_unlocked_pending now hp (r.downstreamTaskIDs.count u) with hst | hst
      · exact .inl (by rw [stateOf_of_get hru', stateOf_of_get hru, hst, hp])
      · exact .inr ⟨by rw [stateOf_of_get hru, hp], by rw [stateOf_of_get hru', hst]⟩
    · exact .inl (by
        rw [stateOf_of_get hru, stateOf_of_get (h.get_other hu hru (.inl hp))])

/-- A completion of `t` completes `t` and no other task. -/
theorem Completion.isComplete_other (h : Completion now t output r s s' ready)
    {u : String} (hu : u ≠ t) : s'.isComplete u = s.isComplete u := by
  rcases h.stateOf_other hu with heq | ⟨hp, hq⟩
  · rw [isComplete, isComplete, heq]
  · rw [isComplete, isComplete, hp, hq]
    rfl

theorem Completion.isComplete_mono (h : Completion now t output r s s' ready)
    (u : String) (hu : s.isComplete u = true) : s'.isComplete u = true := by
  by_cases hut : u = t
  · rw [hut]
    exact h.isComplete_task
  · rw [h.isComplete_other hut]
    exact hu

/-- A completion of `t` takes the entries that name `t` off what a task has
outstanding. -/
theorem Completion.outstanding_add (h : Completion now t output r s s' ready)
    (hr : s.taskState[t]? = some r) (hne : r.state ≠ .complete) (u : String) :
    outstanding s.depsOf s'.isComplete u + (s.depsOf u).count t
      = outstanding s.depsOf s.isComplete u := by
  apply outstanding_mark
  · simp [isComplete_of_get hr, hne]
  · exact h.isComplete_task
  · exact fun d hd => h.isComplete_other hd

/-- A task that waits for `t` counts what is outstanding after the
completion, and is queued when nothing is. -/
theorem Completion.get_waiting (h : Completion now t output r s s' ready)
    (hs : s.Coherent) (hr : s.taskState[t]? = some r) (hne : r.state ≠ .complete)
    {u : String} (hu : u ≠ t) {ru : TaskStateRecord}
    (hru : s.taskState[u]? = some ru) (hp : ru.state = .pending)
    (hdep : t ∈ s.depsOf u) :
    ∃ x : Int32, x.toInt = outstanding s.depsOf s'.isComplete u ∧
      s'.taskState[u]? = some { ru with
        inDegree := x
        state := if x = 0 then .queued else .pending
        lastUpdated := now } := by
  have hcount := hs.linked.downstream t r hr u
  have hadd := h.outstanding_add hr hne u
  have hwait := hs.counted.waiting u ru hru hp
  have hpos : 0 < r.downstreamTaskIDs.count u := by
    rw [hcount]
    exact List.count_pos_iff.mpr hdep
  obtain ⟨x, hx, hrec⟩ := iterate_unlocked now hp hpos (by omega)
  refine ⟨x, by omega, ?_⟩
  rw [h.other u hu, hru, Option.map_some, hrec]

/-- The completion of a task whose dependencies are complete. -/
theorem Coherent.completion (hs : s.Coherent)
    (h : Completion now t output r s s' ready) (hr : s.taskState[t]? = some r)
    (hne : r.state ≠ .complete) (hdeps : s.DepsComplete t) : s'.Coherent := by
  have hshape := h.sameShape hr
  have hmono : ∀ {u}, s.DepsComplete u → s'.DepsComplete u :=
    fun hd => hd.mono hshape.depsOf h.isComplete_mono
  refine ⟨hshape.linked hs.linked, ?_, hs.tracked.of_eq h.workflows h.workflowState⟩
  -- Every record is the completed one, a decremented one, or as before.
  suffices hrec : ∀ (u : String) (r' : TaskStateRecord),
      s'.taskState[u]? = some r' →
      (r'.state = .pending → r'.inDegree.toInt
        = outstanding s.depsOf s'.isComplete u) ∧
      (r'.state.unblocked = true → s'.DepsComplete u) ∧ r'.state ≠ .unknown by
    refine ⟨?_, fun u r' hr' => (hrec u r' hr').2.1, fun u r' hr' => (hrec u r' hr').2.2⟩
    intro u r' hr' hp
    rw [hshape.depsOf]
    exact (hrec u r' hr').1 hp
  intro u r' hr'
  by_cases hu : u = t
  · subst hu
    rw [h.task] at hr'
    cases hr'
    exact ⟨by simp, fun _ => hmono hdeps, by simp⟩
  · obtain ⟨ru, hru, _⟩ := hshape.back hr'
    by_cases hc : ru.state = .pending ∧ t ∈ s.depsOf u
    · obtain ⟨x, hx, hrec⟩ := h.get_waiting hs hr hne hu hru hc.1 hc.2
      rw [hr'] at hrec
      cases hrec
      refine ⟨fun _ => hx, ?_, by dsimp only; split <;> simp⟩
      intro hunb
      have hx0 : x = 0 := by
        by_contra hx0
        simp [hx0, TaskState.unblocked] at hunb
      rw [hx0, Int32.toInt_zero] at hx
      intro d hd
      rw [hshape.depsOf] at hd
      exact outstanding_eq_zero_iff.mp (by omega) d hd
    · have hsame : s'.taskState[u]? = some ru := by
        apply h.get_other hu hru
        rw [hs.linked.mem_downstream hr]
        exact Decidable.not_and_iff_not_or_not.mp hc
      rw [hr'] at hsame
      cases hsame
      refine ⟨?_, fun hunb => hmono (hs.counted.ready u r' hru hunb),
        hs.counted.known u r' hru⟩
      intro hp
      have hnot : t ∉ s.depsOf u := fun hd => hc ⟨hp, hd⟩
      have hadd := h.outstanding_add hr hne u
      rw [List.count_eq_zero_of_not_mem hnot, Nat.add_zero] at hadd
      rw [hadd]
      exact hs.counted.waiting u r' hru hp

end Completion

/-! ## A new workflow -/

/-- The workflow shares no ID with a stored workflow. -/
def Fresh (s : Store) (wf : WorkflowSpec) : Prop :=
  ∀ (id : String) (other : WorkflowSpec), s.workflows[id]? = some other →
    id ≠ wf.workflowId ∧ other.taskIDs.Disjoint wf.taskIDs

/-- No task of the workflow has a record. -/
def Untouched (s : Store) (wf : WorkflowSpec) : Prop :=
  ∀ t ∈ wf.taskIDs, s.taskState[t]? = none

theorem Fresh.untouched {s : Store} (hl : s.Linked) {wf : WorkflowSpec}
    (hf : s.Fresh wf) : s.Untouched wf := by
  intro t ht
  cases hr : s.taskState[t]? with
  | none => rfl
  | some r =>
    obtain ⟨other, hother, hin⟩ := hl.owned t r hr
    exact ((hf _ _ hother).2 hin ht).elim

/-- Storing the specification of a fresh workflow. -/
theorem Coherent.storeWorkflow {s : Store} (hs : s.Coherent) {wf : WorkflowSpec}
    (hf : s.Fresh wf) (hk : validKey wf.workflowId = true) (hwf : wf.WellFormed) :
    Coherent { s with workflows := s.workflows.insert wf.workflowId wf } := by
  let s' : Store := { s with workflows := s.workflows.insert wf.workflowId wf }
  have hget : ∀ id : String, s'.workflows[id]?
      = if wf.workflowId = id then some wf else s.workflows[id]? :=
    fun id => Table.get_insert _ _ _ _
  have hkeep : ∀ (id : String) (other : WorkflowSpec), s.workflows[id]? = some other →
      s'.workflows[id]? = some other := by
    intro id other hother
    rw [hget, if_neg (Ne.symm (hf id other hother).1), hother]
  have hcases : ∀ (id : String) (other : WorkflowSpec), s'.workflows[id]? = some other →
      id = wf.workflowId ∧ other = wf ∨ s.workflows[id]? = some other := by
    intro id other hother
    rw [hget] at hother
    split at hother
    · rename_i hid
      cases hother
      exact .inl ⟨hid.symm, rfl⟩
    · exact .inr hother
  have hdeps : s'.depsOf = s.depsOf := by
    funext t
    rw [depsOf, depsOf, specOf, specOf]
    have hown : s'.ownerOf t = s.ownerOf t := rfl
    rw [hown]
    cases hr : s.taskState[t]? with
    | none => simp [ownerOf, hr]
    | some r =>
      obtain ⟨other, hother, _⟩ := hs.linked.owned t r hr
      simp only [ownerOf_of_get hr, Option.bind_some, hother, hkeep _ _ hother]
  refine ⟨⟨hs.linked.keyed, ?_, ?_, ?_, ?_, ?_⟩, ⟨?_, ?_, ?_⟩, ?_⟩
  · intro id other hother
    rcases hcases id other hother with ⟨rfl, rfl⟩ | hold
    · exact ⟨rfl, hk, hwf⟩
    · exact hs.linked.workflow id other hold
  · intro i j a b ha hb t hta htb
    rcases hcases i a ha with ⟨rfl, rfl⟩ | hai <;>
      rcases hcases j b hb with ⟨rfl, rfl⟩ | hbj
    · rfl
    · exact ((hf j b hbj).2 htb hta).elim
    · exact ((hf i a hai).2 hta htb).elim
    · exact hs.linked.disjoint i j a b hai hbj t hta htb
  · intro t r hr
    obtain ⟨other, hother, ht⟩ := hs.linked.owned t r hr
    exact ⟨other, hkeep _ _ hother, ht⟩
  · intro id other hother t ht htm u hu
    rcases hcases id other hother with ⟨rfl, rfl⟩ | hold
    · obtain ⟨r, hr⟩ := (Table.mem_iff_get _ _).mp htm
      have hnone := hf.untouched hs.linked t ht
      rw [hnone] at hr
      cases hr
    · exact hs.linked.whole id other hold t ht htm u hu
  · intro d r hr t
    have h := hs.linked.downstream d r hr t
    rw [← hdeps] at h
    exact h
  · intro t r hr hp
    have h := hs.counted.waiting t r hr hp
    rw [← hdeps] at h
    exact h
  · intro t r hr hu d hd
    rw [hdeps] at hd
    exact hs.counted.ready t r hr hu d hd
  · exact hs.counted.known
  · intro id x hx
    refine ⟨(hs.tracked id x hx).1, fun hrun => ?_⟩
    rw [Std.ExtTreeMap.mem_insert]
    exact .inr ((hs.tracked id x hx).2 hrun)

/-- The store after `InitializeTasksForWorkflow` has run for an accepted
workflow. -/
def withTaskRecords (now : Int64) (wf : WorkflowSpec) (dag : DAG) (s : Store) :
    Store :=
  { s with
    taskState := wf.tasks.foldl (fun m task => m.insert task.taskId
      (initialRecord now wf.workflowId dag.inDegree dag.downstream task))
      s.taskState }

section NewTasks

variable {wf : WorkflowSpec} {dag : DAG} {s : Store}

theorem get_withTaskRecords (hd : wf.taskIDs.Nodup) (now : Int64)
    {t : String} {task : TaskSpec} (h : wf.findTask t = some task) :
    (s.withTaskRecords now wf dag).taskState[t]? = some
      (initialRecord now wf.workflowId dag.inDegree dag.downstream task) := by
  refine (Table.get_foldl_insert (fun task : TaskSpec => task.taskId) _ _ _ hd t).trans ?_
  rw [WorkflowSpec.findTask] at h
  rw [h, Option.map_some, Option.some_or]

theorem get_withTaskRecords_other (hd : wf.taskIDs.Nodup) (now : Int64)
    {t : String} (h : t ∉ wf.taskIDs) :
    (s.withTaskRecords now wf dag).taskState[t]? = s.taskState[t]? := by
  refine (Table.get_foldl_insert (fun task : TaskSpec => task.taskId) _ _ _ hd t).trans ?_
  have hnone : wf.findTask t = none := by
    rw [← Option.not_isSome_iff_eq_none, WorkflowSpec.findTask_isSome_iff]
    exact h
  rw [WorkflowSpec.findTask] at hnone
  rw [hnone, Option.map_none, Option.none_or]

/-- The record of a new task. -/
theorem get_withTaskRecords_mem (hacc : Accepted wf dag) (now : Int64) {t : String}
    (h : t ∈ wf.taskIDs) :
    (s.withTaskRecords now wf dag).taskState[t]? = some
      { taskID := t
        workflowID := wf.workflowId
        state := .pending
        lastUpdated := now
        inDegree := Int32.ofNat (wf.dependenciesOf t).length
        downstreamTaskIDs := dag.downstream.getD t [] } := by
  obtain ⟨task, htask⟩ := Option.isSome_iff_exists.mp
    (WorkflowSpec.findTask_isSome_iff.mpr h)
  have hid := (WorkflowSpec.mem_of_findTask htask).2
  rw [get_withTaskRecords hacc.nodup now htask, initialRecord, hid, hacc.inDegree]

theorem keyed_withTaskRecords (hacc : Accepted wf dag)
    (hk : ∀ task ∈ wf.tasks, validKey task.taskId = true) (hs : s.Keyed) (now : Int64) :
    (s.withTaskRecords now wf dag).Keyed := by
  intro t r hr
  by_cases ht : t ∈ wf.taskIDs
  · rw [get_withTaskRecords_mem hacc now ht] at hr
    cases hr
    obtain ⟨task, htask, rfl⟩ := WorkflowSpec.mem_taskIDs.mp ht
    exact ⟨rfl, hk task htask⟩
  · rw [get_withTaskRecords_other hacc.nodup now ht] at hr
    exact hs t r hr

/-- The dependencies of the new tasks are those of the specification. -/
theorem depsOf_withTaskRecords_mem (hacc : Accepted wf dag)
    (hwf : s.workflows[wf.workflowId]? = some wf) (now : Int64) {t : String}
    (h : t ∈ wf.taskIDs) :
    (s.withTaskRecords now wf dag).depsOf t = wf.dependenciesOf t := by
  have hr := get_withTaskRecords_mem (s := s) hacc now h
  have hwf' : (s.withTaskRecords now wf dag).workflows[wf.workflowId]? = some wf := hwf
  simp [depsOf, specOf, ownerOf_of_get hr, hwf']

/-- The dependencies of the other tasks are as before. -/
theorem depsOf_withTaskRecords_other (hd : wf.taskIDs.Nodup) (now : Int64)
    {t : String} (h : t ∉ wf.taskIDs) :
    (s.withTaskRecords now wf dag).depsOf t = s.depsOf t := by
  have hr : (s.withTaskRecords now wf dag).taskState[t]? = s.taskState[t]? :=
    get_withTaskRecords_other hd now h
  have hws : (s.withTaskRecords now wf dag).workflows = s.workflows := rfl
  rw [depsOf, depsOf, specOf, specOf, ownerOf, ownerOf, hr, hws]

/-- No new task is complete. -/
theorem isComplete_withTaskRecords (hacc : Accepted wf dag) (hnew : s.Untouched wf)
    (now : Int64) :
    (s.withTaskRecords now wf dag).isComplete = s.isComplete := by
  funext t
  by_cases h : t ∈ wf.taskIDs
  · rw [isComplete_of_get (get_withTaskRecords_mem hacc now h),
      isComplete_absent (hnew t h)]
    rfl
  · rw [isComplete, isComplete, stateOf, stateOf,
      get_withTaskRecords_other hacc.nodup now h]

variable (hs : s.Coherent) (hacc : Accepted wf dag)
  (hwf : s.workflows[wf.workflowId]? = some wf) (hnew : s.Untouched wf)
include hs hacc hwf hnew

/-- The downstream lists of the old and the new records. -/
private theorem downstream_withTaskRecords (now : Int64) {d : String}
    {r : TaskStateRecord}
    (hr : (s.withTaskRecords now wf dag).taskState[d]? = some r) (t : String) :
    r.downstreamTaskIDs.count t
      = ((s.withTaskRecords now wf dag).depsOf t).count d := by
  by_cases hd : d ∈ wf.taskIDs
  · rw [get_withTaskRecords_mem hacc now hd] at hr
    cases hr
    rw [hacc.downstream]
    by_cases ht : t ∈ wf.taskIDs
    · rw [depsOf_withTaskRecords_mem hacc hwf now ht]
    · rw [depsOf_withTaskRecords_other hacc.nodup now ht,
        WorkflowSpec.dependenciesOf_of_not_mem ht, List.count_nil, eq_comm,
        List.count_eq_zero]
      intro hin
      obtain ⟨_, rd, _, _, hrd, _⟩ := hs.linked.dep_stored hin
      rw [hnew d hd] at hrd
      cases hrd
  · rw [get_withTaskRecords_other hacc.nodup now hd] at hr
    rw [hs.linked.downstream d r hr t]
    by_cases ht : t ∈ wf.taskIDs
    · rw [depsOf_withTaskRecords_mem hacc hwf now ht,
        Linked.depsOf_absent (hnew t ht), List.count_nil, eq_comm,
        List.count_eq_zero]
      exact fun hin => hd (hacc.closed t d hin)
    · rw [depsOf_withTaskRecords_other hacc.nodup now ht]

/-- The records of a new workflow. -/
theorem Coherent.initializeTasks
    (hk : ∀ task ∈ wf.tasks, validKey task.taskId = true) (now : Int64) :
    (s.withTaskRecords now wf dag).Coherent := by
  have hwell := (hs.linked.workflow _ _ hwf).2.2
  have hmem : ∀ {t}, t ∈ wf.taskIDs →
      t ∈ (s.withTaskRecords now wf dag).taskState := fun h =>
    (Table.mem_iff_get _ _).mpr ⟨_, get_withTaskRecords_mem hacc now h⟩
  have hmem_other : ∀ {t}, t ∉ wf.taskIDs →
      (t ∈ (s.withTaskRecords now wf dag).taskState ↔ t ∈ s.taskState) := by
    intro t h
    rw [Table.mem_iff_get, Table.mem_iff_get, get_withTaskRecords_other hacc.nodup now h]
  refine ⟨⟨keyed_withTaskRecords hacc hk hs.linked.keyed now, hs.linked.workflow,
    hs.linked.disjoint, ?_, ?_, ?_⟩, ⟨?_, ?_, ?_⟩, hs.tracked⟩
  · intro t r hr
    by_cases ht : t ∈ wf.taskIDs
    · rw [get_withTaskRecords_mem hacc now ht] at hr
      cases hr
      exact ⟨wf, hwf, ht⟩
    · rw [get_withTaskRecords_other hacc.nodup now ht] at hr
      exact hs.linked.owned t r hr
  · intro id other hother t ht htm u hu
    by_cases huw : u ∈ wf.taskIDs
    · exact hmem huw
    · -- `u` is not in the new workflow, so `t` is not either.
      have htw : t ∉ wf.taskIDs := by
        intro htw
        have hid := hs.linked.disjoint _ _ _ _ hother hwf t ht htw
        subst hid
        have heq : other = wf := Option.some.inj (hother.symm.trans hwf)
        exact huw (heq ▸ hu)
      rw [hmem_other htw] at htm
      rw [hmem_other huw]
      exact hs.linked.whole id other hother t ht htm u hu
  · exact fun d r hr => downstream_withTaskRecords hs hacc hwf hnew now hr
  · intro t r hr hp
    rw [isComplete_withTaskRecords hacc hnew]
    by_cases ht : t ∈ wf.taskIDs
    · rw [get_withTaskRecords_mem hacc now ht] at hr
      cases hr
      have hall : outstanding (s.withTaskRecords now wf dag).depsOf s.isComplete t
          = (wf.dependenciesOf t).length := by
        rw [outstanding, depsOf_withTaskRecords_mem hacc hwf now ht,
          List.countP_eq_length]
        intro d hd
        rw [isComplete_absent (hnew d (hacc.closed t d hd))]
        rfl
      rw [hall]
      exact Int32.toInt_ofNat_of_lt (hwell.bounded t)
    · rw [get_withTaskRecords_other hacc.nodup now ht] at hr
      rw [outstanding, depsOf_withTaskRecords_other hacc.nodup now ht]
      exact hs.counted.waiting t r hr hp
  · intro t r hr hu
    rw [DepsComplete, isComplete_withTaskRecords hacc hnew]
    by_cases ht : t ∈ wf.taskIDs
    · rw [get_withTaskRecords_mem hacc now ht] at hr
      cases hr
      cases hu
    · rw [get_withTaskRecords_other hacc.nodup now ht] at hr
      rw [depsOf_withTaskRecords_other hacc.nodup now ht]
      exact hs.counted.ready t r hr hu
  · intro t r hr
    by_cases ht : t ∈ wf.taskIDs
    · rw [get_withTaskRecords_mem hacc now ht] at hr
      cases hr
      simp
    · rw [get_withTaskRecords_other hacc.nodup now ht] at hr
      exact hs.counted.known t r hr

end NewTasks

end Store

end DagScheduler
