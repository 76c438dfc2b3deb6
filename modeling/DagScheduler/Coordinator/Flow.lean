import DagScheduler.Coordinator.Moves

/-!
# The way of a task through the queue

The steps of any `GetReadyTask` and `CompleteTask` calls interleave, and
nothing fails, is cancelled or dies.  A completion makes tasks ready in its
transaction, appends them later, and looks at the workflow later still.  The
invariant `Flowing` therefore counts.

* What has entered the queue is in the queue or has been handed out.
* What has entered the queue and what is still to be appended together make
  one for a task that does not wait any more, and nothing for a task that
  waits.
* If all tasks of a workflow are complete, the workflow is closed or some call
  is on its way to close it.

`Flowing.step` is the step lemma and `flowing_run` the run lemma.
-/

namespace DagScheduler

open Lib Store

/-! ## What an event does to the queue -/

/-- How often the event puts the task into the queue. -/
def appended (env : Env) (t : String) (ev : Event Call Action World) : Nat :=
  (ev.after (Action.handle env)).coord.readyQueue.count t - ev.before.coord.readyQueue.count t

/-- The event hands the task out. -/
def handsOut (env : Env) (t : String) (ev : Event Call Action World) : Bool :=
  (ev.action.assignment env ev.before).any (·.taskId = t)

/-- How often the task has entered the queue, the start included. -/
def entered (env : Env) (w₀ : World) (es : List (Event Call Action World)) (t : String) : Nat :=
  w₀.coord.readyQueue.count t + (es.map (appended env t)).sum

/-! ## The invariant -/

/-- The states of tasks that go their way undisturbed. -/
def TaskState.flows : TaskState → Bool
  | .pending | .queued | .running | .complete => true
  | _ => false

/-- The task has been handed out. -/
def Store.Taken (s : Store) (t : String) : Prop :=
  s.stateOf t = some .running ∨ s.stateOf t = some .complete

/-- How many calls are about to append the task. -/
def onTheWay (ps : List (Call × Point)) (t : String) : Nat :=
  (ps.map fun q => q.2.unpublished.count t).sum

/-- The call is on its way to close the workflow. -/
def Closing (s : Store) (id : String) : Point → Prop
  | .completePublish t _ | .completeOwner t => s.ownerOf t = some id
  | .checkComplete i | .checkStatuses i | .close i false => i = id
  | _ => False

/-- All tasks of the workflow are complete. -/
def Store.Finished (s : Store) (wf : WorkflowSpec) : Prop :=
  ∀ t ∈ wf.taskIDs, s.stateOf t = some .complete

/-- The invariant between two steps.  `total` counts how often a task has
entered the queue, and `taken` how often it has been handed out. -/
structure Flowing (s : Store) (c : Coordinator) (ps : List (Call × Point))
    (total taken : String → Nat) : Prop where
  coherent : s.Coherent
  cached : ∀ (t : String) (r : TaskStateRecord), s.taskState[t]? = some r →
    t ∈ c.taskSpecCache ∧ c.taskWorkflowMap[t]? = some r.workflowID
  flows : ∀ (t : String) (r : TaskStateRecord), s.taskState[t]? = some r →
    r.state.flows = true
  waiting : ∀ t, s.stateOf t = some .pending → ¬ s.DepsComplete t
  queued : ∀ t ∈ c.readyQueue, s.stateOf t = some .queued
  ready : ∀ q ∈ ps, ∀ t ∈ q.2.unpublished, s.stateOf t = some .queued
  assigned : ∀ t, t ∈ c.assignedTasks → s.Taken t
  committing : ∀ q ∈ ps, ∀ t e output, q.2 = .completeCommit t e output → s.Taken t
  balance : ∀ t, total t = c.readyQueue.count t + taken t
  once : ∀ (t : String) (r : TaskStateRecord), s.taskState[t]? = some r →
    total t + onTheWay ps t = if r.state = .pending then 0 else 1
  closing : ∀ (id : String) (wf : WorkflowSpec), s.workflows[id]? = some wf →
    wf.tasks ≠ [] → s.Finished wf →
    s.workflowStateOf id = some .complete ∨ ∃ q ∈ ps, Closing s id q.2
  verdict : ∀ q ∈ ps, ∀ id, q.2 ≠ .close id true

section Facts

variable {s : Store} {c : Coordinator} {ps : List (Call × Point)} {total taken : String → Nat}

theorem onTheWay_set {i : Nat} {l : Call} {p : Point} (hp : ps[i]? = some (l, p)) (l' : Call)
    (p' : Point) (t : String) :
    onTheWay (ps.set i (l', p')) t + p.unpublished.count t
      = onTheWay ps t + p'.unpublished.count t :=
  sum_map_set (fun q : Call × Point => q.2.unpublished.count t) hp (l', p')

/-- A queued task is in the queue once, and not on its way there. -/
theorem Flowing.queued_once (h : Flowing s c ps total taken) {t : String}
    (ht : t ∈ c.readyQueue) : c.readyQueue.count t = 1 ∧ taken t = 0 ∧ onTheWay ps t = 0 := by
  obtain ⟨r, hr, hst⟩ := stateOf_eq_some.mp (h.queued t ht)
  have honce := h.once t r hr
  have hbalance := h.balance t
  have hpos := List.count_pos_iff.mpr ht
  rw [if_neg (by rw [hst]; decide)] at honce
  omega

theorem Flowing.depsComplete (h : Flowing s c ps total taken) {t : String} {st : TaskState}
    (ht : s.stateOf t = some st) (hst : st.unblocked = true) : s.DepsComplete t := by
  obtain ⟨r, hr, rfl⟩ := stateOf_eq_some.mp ht
  exact h.coherent.counted.ready t r hr hst

/-- Nothing fails. -/
theorem Flowing.none_failed (h : Flowing s c ps total taken) (id : String) :
    (s.getTaskStatusesForWorkflow id).any (·.state = .failed) = false := by
  rw [Bool.eq_false_iff]
  intro hany
  obtain ⟨u, r, hr, _, hst⟩ := any_failed_iff.mp hany
  have hflows := h.flows u r hr
  rw [hst] at hflows
  cases hflows

/-- The completion check sees that a workflow has finished. -/
theorem Flowing.isWorkflowComplete (h : Flowing s c ps total taken) {id : String}
    {wf : WorkflowSpec} (hwf : s.workflows[id]? = some wf) (hfin : s.Finished wf) :
    s.isWorkflowComplete id = true := by
  refine isWorkflowComplete_iff.mpr fun u r hr hid => ?_
  obtain ⟨wf', hwf', hu⟩ := h.coherent.linked.owned u r hr
  rw [hid, hwf] at hwf'
  cases hwf'
  obtain ⟨r', hr', hst⟩ := stateOf_eq_some.mp (hfin u hu)
  rw [hr] at hr'
  cases hr'
  rw [hst]
  rfl

/-- The workflow that a task is looked up under is its own. -/
theorem Flowing.lookup (h : Flowing s c ps total taken) {t id : String}
    (ht : s.ownerOf t = some id) : c.taskWorkflowMap.getD t "" = id := by
  obtain ⟨r, hr, hid⟩ := ownerOf_eq_some.mp ht
  rw [Table.getD_eq, (h.cached t r hr).2, hid]
  rfl

/-- A task that is in the queue is not about to enter it. -/
theorem Flowing.not_unpublished (h : Flowing s c ps total taken) {t : String}
    (ht : t ∈ c.readyQueue) {q : Call × Point} (hq : q ∈ ps) : t ∉ q.2.unpublished := by
  intro hu
  have hway := (h.queued_once ht).2.2
  have hpos := List.count_pos_iff.mpr hu
  have hle := List.le_sum_of_mem (List.mem_map_of_mem
    (f := fun q : Call × Point => q.2.unpublished.count t) hq)
  rw [onTheWay] at hway
  omega

/-- Only the owners of the tasks matter. -/
theorem closing_congr {s' : Store} (howner : ∀ t, s'.ownerOf t = s.ownerOf t) :
    Closing s' = Closing s := by
  funext id q
  cases q <;> simp only [Closing, howner]

/-- The calls on their way, when one of them moves. -/
theorem closing_set {i : Nat} {l : Call} {p : Point} {id : String}
    (hp : ps[i]? = some (l, p)) (h : ∃ q ∈ ps, Closing s id q.2) (x : Call × Point) :
    Closing s id p ∨ ∃ q ∈ ps.set i x, Closing s id q.2 := by
  obtain ⟨q, hq, hclosing⟩ := h
  obtain ⟨j, hj⟩ := List.mem_iff_getElem?.mp hq
  by_cases hji : j = i
  · rw [hji, hp] at hj
    cases hj
    exact .inl hclosing
  · refine .inr ⟨q, List.mem_of_getElem? (i := j) ?_, hclosing⟩
    rw [List.getElem?_set_ne (Ne.symm hji), hj]

end Facts

/-! ## Steps -/

section Steps

variable {s s' : Store} {c : Coordinator} {ps : List (Call × Point)}
  {total taken : String → Nat} {i : Nat} {l : Call} {p p' : Point}

/-- A step that changes no task and moves no task towards the queue. -/
theorem Flowing.quiet (h : Flowing s c ps total taken) (hp : ps[i]? = some (l, p))
    (hcoh : s'.Coherent) (hshape : s'.workflows = s.workflows)
    (htasks : s'.taskState = s.taskState)
    (hclosed : ∀ id, s.workflowStateOf id = some .complete →
      s'.workflowStateOf id = some .complete)
    (hready : p.unpublished = []) (hready' : p'.unpublished = [])
    (hcommit : ∀ t e output, p' = .completeCommit t e output → s.Taken t)
    (hclosing : ∀ (id : String) (wf : WorkflowSpec), s.workflows[id]? = some wf →
      s.Finished wf → Closing s id p →
      s'.workflowStateOf id = some .complete ∨ Closing s id p')
    (hverdict : ∀ id, p' ≠ .close id true) :
    Flowing s' c (ps.set i (l, p')) total taken := by
  have hstate : s'.stateOf = s.stateOf := by
    funext t
    rw [stateOf, htasks, stateOf]
  have howner : s'.ownerOf = s.ownerOf := by
    funext t
    rw [ownerOf, htasks, ownerOf]
  have hdeps : ∀ t, s'.DepsComplete t ↔ s.DepsComplete t := by
    intro t
    have hof : s'.depsOf t = s.depsOf t := by
      rw [depsOf, depsOf, specOf, specOf, howner, hshape]
    simp only [DepsComplete, hof, isComplete, hstate]
  have hmem : ∀ {q : Call × Point}, q ∈ ps.set i (l, p') → q ∈ ps ∨ q = (l, p') :=
    fun hq => List.mem_or_eq_of_mem_set hq
  refine ⟨hcoh, ?_, ?_, ?_, ?_, ?_, ?_, ?_, h.balance, ?_, ?_, ?_⟩
  · rw [htasks]
    exact h.cached
  · rw [htasks]
    exact h.flows
  · intro t ht
    rw [hdeps]
    exact h.waiting t (hstate ▸ ht)
  · rw [hstate]
    exact h.queued
  · intro q hq t ht
    rw [hstate]
    rcases hmem hq with hq | rfl
    · exact h.ready q hq t ht
    · rw [hready'] at ht
      cases ht
  · intro t ht
    rw [Taken, hstate]
    exact h.assigned t ht
  · intro q hq t e output hpoint
    rw [Taken, hstate]
    rcases hmem hq with hq | rfl
    · exact h.committing q hq t e output hpoint
    · exact hcommit t e output hpoint
  · intro t r hr
    rw [htasks] at hr
    have hset := onTheWay_set hp l p' t
    rw [hready, hready'] at hset
    have honce := h.once t r hr
    simp only [List.count_nil] at hset
    omega
  · intro id wf hwf hne hfin
    rw [hshape] at hwf
    rw [Finished, hstate] at hfin
    rcases h.closing id wf hwf hne hfin with hdone | hway
    · exact .inl (hclosed id hdone)
    · rw [closing_congr fun t => congrFun howner t]
      rcases closing_set hp hway (l, p') with hown | hother
      · rcases hclosing id wf hwf hfin hown with hdone | hnext
        · exact .inl hdone
        · exact .inr ⟨_, List.mem_set (List.getElem?_eq_some_iff.mp hp).1 _, hnext⟩
      · exact .inr hother
  · intro q hq id
    rcases hmem hq with hq | rfl
    · exact h.verdict q hq id
    · exact hverdict id

/-- After a completion a task still waits only if something is outstanding. -/
theorem Store.Completion.waiting {now : Int64} {t output : String} {r : TaskStateRecord}
    {ready : List String} (hc : Completion now t output r s s' ready) (hs : s.Coherent)
    (hr : s.taskState[t]? = some r) (hne : r.state ≠ .complete)
    (hwait : ∀ u, s.stateOf u = some .pending → ¬ s.DepsComplete u) {u : String}
    (hu : s'.stateOf u = some .pending) : ¬ s'.DepsComplete u := by
  have hut : u ≠ t := by
    rintro rfl
    rw [stateOf_of_get hc.task] at hu
    cases hu
  have hold : s.stateOf u = some .pending := by
    rcases hc.stateOf_other hut with heq | hrel
    · exact heq ▸ hu
    · exact hrel.1
  obtain ⟨ru, hru, hp⟩ := stateOf_eq_some.mp hold
  intro hdeps
  rw [DepsComplete, (hc.sameShape hr).depsOf] at hdeps
  by_cases hdep : t ∈ s.depsOf u
  · -- The counter reaches zero with what is outstanding, and then the task is queued.
    obtain ⟨x, hx, hget⟩ := hc.get_waiting hs hr hne hut hru hp hdep
    rw [outstanding_eq_zero_iff.mpr hdeps] at hx
    have hzero : x = 0 := Int32.toInt_inj.mp (by rw [hx, Int32.toInt_zero]; rfl)
    rw [stateOf_of_get hget, if_pos hzero] at hu
    cases hu
  · refine hwait u hold fun d hd => ?_
    have hdt : d ≠ t := by
      rintro rfl
      exact hdep hd
    rw [← hc.isComplete_other hdt]
    exact hdeps d hd

section Complete

variable {now : Int64} {t e output : String} {r : TaskStateRecord} {ready : List String}

/-- A task that is about to be completed runs, or is complete already. -/
theorem Flowing.running (h : Flowing s c ps total taken)
    (hp : ps[i]? = some (l, .completeCommit t e output)) (hr : s.taskState[t]? = some r)
    (hne : r.state ≠ .complete) : r.state = .running := by
  rcases h.committing _ (List.mem_of_getElem? hp) t e output rfl with hst | hst
  · rw [stateOf_of_get hr] at hst
    exact Option.some.inj hst
  · rw [stateOf_of_get hr] at hst
    exact absurd (Option.some.inj hst) hne

/-- The completion of a running task takes no task out of the queue. -/
theorem Store.Completion.queued_mono (hc : Completion now t output r s s' ready)
    (hr : s.taskState[t]? = some r) (hrunning : r.state = .running) {u : String}
    (hu : s.stateOf u = some .queued) : s'.stateOf u = some .queued := by
  have hut : u ≠ t := by
    rintro rfl
    rw [stateOf_of_get hr, hrunning] at hu
    cases hu
  rcases hc.stateOf_other hut with heq | hrel
  · exact heq.trans hu
  · exact hrel.2

theorem Store.Completion.taken_mono (hc : Completion now t output r s s' ready) {u : String}
    (hu : s.Taken u) : s'.Taken u := by
  by_cases hut : u = t
  · subst hut
    exact .inr (stateOf_of_get hc.task)
  · rcases hc.stateOf_other hut with heq | hrel
    · rw [Taken, heq]
      exact hu
    · rcases hu with hu | hu <;> rw [hrel.1] at hu <;> cases hu

/-- The completion of a running task changes who waits only by what it
releases. -/
theorem Store.Completion.pending_iff (hc : Completion now t output r s s' ready)
    (hr : s.taskState[t]? = some r) (hrunning : r.state = .running) {u : String}
    (hrel : ¬ Released s s' u) : s'.stateOf u = some .pending ↔ s.stateOf u = some .pending := by
  by_cases hut : u = t
  · subst hut
    rw [stateOf_of_get hc.task, stateOf_of_get hr, hrunning]
    simp
  · rcases hc.stateOf_other hut with heq | hrel'
    · rw [heq]
    · exact absurd hrel' hrel

/-- A released task gets its only place, and the others keep theirs. -/
theorem Flowing.once_complete (h : Flowing s c ps total taken)
    (hp : ps[i]? = some (l, .completeCommit t e output)) (hr : s.taskState[t]? = some r)
    (hne : r.state ≠ .complete) (hc : Completion now t output r s s' ready) {u : String}
    {r' : TaskStateRecord} (hr' : s'.taskState[u]? = some r') :
    total u + onTheWay (ps.set i (l, .completePublish t ready)) u
      = if r'.state = .pending then 0 else 1 := by
  have hset := onTheWay_set hp l (.completePublish t ready) u
  have hempty : (Point.completeCommit t e output).unpublished.count u = 0 := rfl
  have hlist : (Point.completePublish t ready).unpublished = ready := rfl
  rw [hempty, hlist] at hset
  obtain ⟨ru, hru, _⟩ := (hc.sameShape hr).back hr'
  have honce := h.once u ru hru
  by_cases hrel : Released s s' u
  · have hone : ready.count u = 1 :=
      List.count_eq_one_of_mem hc.nodup_ready ((hc.mem_ready u).mpr hrel)
    have hold := hrel.1
    have hnew := hrel.2
    rw [stateOf_of_get hru] at hold
    rw [stateOf_of_get hr'] at hnew
    rw [if_pos (Option.some.inj hold)] at honce
    rw [if_neg (by rw [Option.some.inj hnew]; decide)]
    omega
  · have hzero : ready.count u = 0 :=
      List.count_eq_zero_of_not_mem (mt (hc.mem_ready u).mp hrel)
    have hsame := hc.pending_iff hr (h.running hp hr hne) hrel
    rw [stateOf_of_get hr', stateOf_of_get hru, Option.some.injEq, Option.some.injEq] at hsame
    rw [if_congr hsame rfl rfl]
    omega

/-- The call that completes the last task of a workflow is on its way to close
it. -/
theorem Flowing.closing_complete (h : Flowing s c ps total taken)
    (hp : ps[i]? = some (l, .completeCommit t e output)) (hr : s.taskState[t]? = some r)
    (hc : Completion now t output r s s' ready) {id : String} {wf : WorkflowSpec}
    (hwf : s.workflows[id]? = some wf) (hne : wf.tasks ≠ []) (hfin : s'.Finished wf) :
    s'.workflowStateOf id = some .complete ∨
      ∃ q ∈ ps.set i (l, .completePublish t ready), Closing s' id q.2 := by
  have hshape := hc.sameShape hr
  by_cases hin : t ∈ wf.taskIDs
  · refine .inr ⟨_, List.mem_set (List.getElem?_eq_some_iff.mp hp).1 _, ?_⟩
    show s'.ownerOf t = some id
    rw [hshape.ownerOf, ownerOf_of_get hr, h.coherent.linked.owner_eq hwf hin hr]
  · have hfin' : s.Finished wf := by
      intro u hu
      have hut : u ≠ t := fun hut => hin (hut ▸ hu)
      have hst := hfin u hu
      rcases hc.stateOf_other hut with heq | hrel
      · exact heq ▸ hst
      · rw [hrel.2] at hst
        cases hst
    rw [closing_congr hshape.ownerOf, workflowStateOf, hc.workflowState]
    rcases h.closing id wf hwf hne hfin' with hdone | hway
    · exact .inl hdone
    · rcases closing_set hp hway (l, .completePublish t ready) with hown | hother
      · exact hown.elim
      · exact .inr hother

/-- The transaction of a completion. -/
theorem Flowing.complete (h : Flowing s c ps total taken)
    (hp : ps[i]? = some (l, .completeCommit t e output)) (hr : s.taskState[t]? = some r)
    (hne : r.state ≠ .complete) (hc : Completion now t output r s s' ready) :
    Flowing s' c (ps.set i (l, .completePublish t ready)) total taken := by
  have hrunning := h.running hp hr hne
  have hshape := hc.sameShape hr
  have hdeps : s.DepsComplete t := h.coherent.counted.ready t r hr (by rw [hrunning]; rfl)
  have hmem : ∀ {q : Call × Point}, q ∈ ps.set i (l, .completePublish t ready) →
      q ∈ ps ∨ q = (l, .completePublish t ready) := fun hq => List.mem_or_eq_of_mem_set hq
  refine ⟨h.coherent.completion hc hr hne hdeps, ?_, ?_,
    fun u hu => hc.waiting h.coherent hr hne h.waiting hu,
    fun u hu => hc.queued_mono hr hrunning (h.queued u hu), ?_,
    fun u hu => hc.taken_mono (h.assigned u hu), ?_, h.balance,
    fun u r' hr' => h.once_complete hp hr hne hc hr', ?_, ?_⟩
  · intro u r' hr'
    obtain ⟨ru, hru, _, hid, _⟩ := hshape.back hr'
    rw [← hid]
    exact h.cached u ru hru
  · intro u r' hr'
    have hst' := stateOf_of_get hr'
    by_cases hut : u = t
    · rw [hut, stateOf_of_get hc.task] at hst'
      rw [← Option.some.inj hst']
      rfl
    · rcases hc.stateOf_other hut with heq | hrel
      · rw [heq] at hst'
        obtain ⟨ru, hru, hst⟩ := stateOf_eq_some.mp hst'
        rw [← hst]
        exact h.flows u ru hru
      · rw [hrel.2] at hst'
        rw [← Option.some.inj hst']
        rfl
  · intro q hq u hu
    rcases hmem hq with hq | rfl
    · exact hc.queued_mono hr hrunning (h.ready q hq u hu)
    · exact ((hc.mem_ready u).mp hu).2
  · intro q hq u e' output' hpoint
    rcases hmem hq with hq | rfl
    · exact hc.taken_mono (h.committing q hq u e' output' hpoint)
    · cases hpoint
  · intro id wf hwf hne' hfin
    exact h.closing_complete hp hr hc (hshape.workflows ▸ hwf) hne' hfin
  · intro q hq id
    rcases hmem hq with hq | rfl
    · exact h.verdict q hq id
    · simp

end Complete

/-- The section that appends what a completion has released. -/
theorem Flowing.publish (h : Flowing s c ps total taken) {t : String} {ready : List String}
    (hp : ps[i]? = some (l, .completePublish t ready)) :
    Flowing s ((c.forget t).enqueue ready) (ps.set i (l, .completeOwner t))
      (fun u => total u + ready.count u) taken := by
  have hmem : ∀ {q : Call × Point}, q ∈ ps.set i (l, .completeOwner t) →
      q ∈ ps ∨ q = (l, .completeOwner t) := fun hq => List.mem_or_eq_of_mem_set hq
  refine ⟨h.coherent, h.cached, h.flows, h.waiting, ?_, ?_, ?_, ?_, ?_, ?_, ?_, ?_⟩
  · intro u hu
    rcases List.mem_append.mp hu with hu | hu
    · exact h.queued u hu
    · exact h.ready _ (List.mem_of_getElem? hp) u hu
  · intro q hq u hu
    rcases hmem hq with hq | rfl
    · exact h.ready q hq u hu
    · cases hu
  · exact fun u hu => h.assigned u (Std.ExtTreeMap.mem_erase.mp hu).2
  · intro q hq u e output hpoint
    rcases hmem hq with hq | rfl
    · exact h.committing q hq u e output hpoint
    · cases hpoint
  · intro u
    have hcount : ((c.forget t).enqueue ready).readyQueue.count u
        = c.readyQueue.count u + ready.count u := List.count_append
    have hbalance := h.balance u
    rw [hcount]
    omega
  · intro u r hr
    have hset := onTheWay_set hp l (.completeOwner t) u
    have hlist : (Point.completePublish t ready).unpublished = ready := rfl
    have hempty : (Point.completeOwner t).unpublished.count u = 0 := rfl
    rw [hlist, hempty] at hset
    have honce := h.once u r hr
    omega
  · intro id wf hwf hne hfin
    rcases h.closing id wf hwf hne hfin with hdone | hway
    · exact .inl hdone
    · rcases closing_set hp hway (l, .completeOwner t) with hown | hother
      · exact .inr ⟨_, List.mem_set (List.getElem?_eq_some_iff.mp hp).1 _, hown⟩
      · exact .inr hother
  · intro q hq id
    rcases hmem hq with hq | rfl
    · exact h.verdict q hq id
    · simp

/-- A step of `CompleteTask` that only looks. -/
theorem Flowing.reads (h : Flowing s c ps total taken) (hp : ps[i]? = some (l, p))
    (hcomp : p.completing = true) (hr : Reads s c p p') :
    Flowing s c (ps.set i (l, p')) total taken := by
  refine h.quiet hp h.coherent rfl rfl (fun _ hdone => hdone) ?_ hr.unpublished ?_ ?_ ?_
  · cases hr <;> rfl
  · rintro t e output rfl
    cases hr with
    | completeOurs ha => exact h.assigned t ((Table.mem_iff_get _ _).mpr ⟨e, ha⟩)
    | skipStart hskip => cases hskip
    | skipRead hskip => cases hskip
  · intro id wf hwf hfin hclosing
    cases hr with
    | completeOwner hid _ => exact .inr (hid.symm.trans (h.lookup hclosing))
    | completeNoOwner hid =>
      rw [h.lookup hclosing] at hid
      exact absurd hid (validKey_iff.mp (h.coherent.linked.workflow id wf hwf).2.1).1
    | checkDone _ => exact .inr hclosing
    | checkOpen hopen =>
      have hid : _ = id := hclosing
      rw [hid, h.isWorkflowComplete hwf hfin] at hopen
      cases hopen
    | checkStatuses =>
      rw [h.none_failed]
      exact .inr hclosing
    | skipStart _ => cases hcomp
    | skipRead _ => cases hcomp
    | _ => exact hclosing.elim
  · intro id hclose
    cases hr with
    | @checkStatuses i =>
      rw [h.none_failed] at hclose
      cases hclose
    | skipStart hskip => cases hcomp
    | skipRead hskip => cases hcomp
    | _ => cases hclose

/-- A transaction of `CompleteTask`. -/
theorem Flowing.writes (h : Flowing s c ps total taken) {now : Int64}
    (hp : ps[i]? = some (l, p)) (hcomp : p.completing = true) (hw : Writes now s p p' s') :
    Flowing s' c (ps.set i (l, p')) total taken := by
  cases hw with
  | complete hr _ hne hc => exact h.complete hp hr hne hc
  | completeRefused _ =>
    exact h.quiet hp h.coherent rfl rfl (fun _ hdone => hdone) rfl rfl
      (fun _ _ _ hpoint => by cases hpoint) (fun _ _ _ _ hclosing => hclosing.elim) (by simp)
  | completeAgain _ _ _ =>
    exact h.quiet hp h.coherent rfl rfl (fun _ hdone => hdone) rfl rfl
      (fun _ _ _ hpoint => by cases hpoint) (fun _ _ _ _ hclosing => hclosing.elim) (by simp)
  | @close i failed _ =>
    cases failed with
    | true => exact absurd rfl (h.verdict _ (List.mem_of_getElem? hp) i)
    | false =>
      -- The workflow that is closed becomes complete, and the others stay.
      have hset : ∀ id, (s.setWorkflowState i
          (nextWorkflowState now i s.workflowState[i]? .complete)).workflowStateOf id
          = if i = id then some .complete else s.workflowStateOf id := by
        intro id
        rw [workflowStateOf, get_setWorkflowState]
        split
        · simp
        · rfl
      refine h.quiet hp (h.coherent.nextWorkflowState now i (by decide)) rfl rfl ?_ rfl rfl
        (fun _ _ _ hpoint => by cases hpoint) ?_ (by simp)
      · intro id hdone
        refine (hset id).trans ?_
        rw [hdone, ite_self]
      · intro id _ _ _ hid
        exact .inl ((hset id).trans (if_pos hid))
  | @closeRefused i failed hkey =>
    refine h.quiet hp h.coherent rfl rfl (fun _ hdone => hdone) rfl rfl
      (fun _ _ _ hpoint => by cases hpoint) ?_ (by simp)
    intro id wf hwf _ hclosing
    cases failed with
    | true => exact hclosing.elim
    | false =>
      have hid : i = id := hclosing
      rw [hid, (h.coherent.linked.workflow id wf hwf).2.1] at hkey
      cases hkey
  | _ => cases hcomp

section Take

variable {t e k : String} {rest : List String} {r r' : TaskStateRecord}

/-- The head of the queue is in it once. -/
theorem Flowing.not_mem_rest (h : Flowing s c ps total taken) (hq : c.readyQueue = t :: rest) :
    t ∉ rest := by
  intro ht
  have hpos := List.count_pos_iff.mpr ht
  have hone := (h.queued_once (t := t) (by rw [hq]; exact List.mem_cons_self)).1
  rw [hq, List.count_cons_self] at hone
  omega

theorem Store.stateOf_take (hrun : r'.state = .running) (u : String) :
    (s.setTask t r').stateOf u = if t = u then some .running else s.stateOf u := by
  rw [stateOf_setTask, hrun]

/-- What is not running after an assignment is as it was. -/
theorem Store.stateOf_of_take (hrun : r'.state = .running) {u : String} {st : TaskState}
    (hne : st ≠ .running) (hu : (s.setTask t r').stateOf u = some st) :
    t ≠ u ∧ s.stateOf u = some st := by
  rw [stateOf_take hrun] at hu
  split at hu
  · exact absurd (Option.some.inj hu).symm hne
  · rename_i htu
    exact ⟨htu, hu⟩

theorem Store.Taken.take (hrun : r'.state = .running) {u : String} (hu : s.Taken u) :
    (s.setTask t r').Taken u := by
  rw [Taken, stateOf_take hrun]
  split
  · exact .inl rfl
  · exact hu

/-- A task that waits still waits: no dependency becomes complete. -/
theorem Flowing.waiting_take (h : Flowing s c ps total taken) (hr : s.taskState[t]? = some r)
    (hshape : r'.shape = r.shape) (hrun : r'.state = .running) {u : String}
    (hu : (s.setTask t r').stateOf u = some .pending) : ¬ (s.setTask t r').DepsComplete u := by
  refine mt (fun hd d hmem => ?_) (h.waiting u (stateOf_of_take hrun (by decide) hu).2)
  rw [DepsComplete, (sameShape_setTask hr hshape).depsOf] at hd
  have hdone := stateOf_eq_some.mpr (isComplete_iff.mp (hd d hmem))
  exact isComplete_iff.mpr (stateOf_eq_some.mp (stateOf_of_take hrun (by decide) hdone).2)

/-- The task has entered the queue once, before and after. -/
theorem Flowing.once_take (h : Flowing s c ps total taken) (hp : ps[i]? = some (l, .getReady k))
    (hr : s.taskState[t]? = some r) (hst : r.state = .queued) (hrun : r'.state = .running)
    {u : String} {ru : TaskStateRecord} (hru : (s.setTask t r').taskState[u]? = some ru) :
    total u + onTheWay (ps.set i (l, .done)) u = if ru.state = .pending then 0 else 1 := by
  have hset := onTheWay_set hp l .done u
  have hnone : (Point.getReady k).unpublished.count u = 0 := rfl
  have hdone : Point.done.unpublished.count u = 0 := rfl
  rw [get_setTask] at hru
  split at hru
  · rename_i htu
    subst htu
    cases hru
    have honce := h.once t r hr
    rw [if_neg (by rw [hst]; decide)] at honce
    rw [if_neg (by rw [hrun]; decide)]
    omega
  · have honce := h.once u ru hru
    omega

/-- An assignment finishes no workflow. -/
theorem Flowing.closing_take (h : Flowing s c ps total taken)
    (hp : ps[i]? = some (l, .getReady k)) (hr : s.taskState[t]? = some r)
    (hshape : r'.shape = r.shape) (hrun : r'.state = .running) {id : String} {wf : WorkflowSpec}
    (hwf : s.workflows[id]? = some wf) (hne : wf.tasks ≠ [])
    (hfin : (s.setTask t r').Finished wf) :
    s.workflowStateOf id = some .complete ∨
      ∃ q ∈ ps.set i (l, .done), Closing (s.setTask t r') id q.2 := by
  have hfin' : s.Finished wf := fun u hu => (stateOf_of_take hrun (by decide) (hfin u hu)).2
  rw [closing_congr (sameShape_setTask hr hshape).ownerOf]
  refine (h.closing id wf hwf hne hfin').imp_right fun hway => ?_
  rcases closing_set hp hway (l, .done) with hown | hother
  · exact hown.elim
  · exact hother

/-- The head of the queue is handed out. -/
theorem Flowing.take (h : Flowing s c ps total taken) (now : Int64)
    (hp : ps[i]? = some (l, .getReady k)) (hq : c.readyQueue = t :: rest)
    (hr : s.taskState[t]? = some r) :
    Flowing (s.setTask t { r with state := .running, executionID := e, lastUpdated := now })
      { c with
        readyQueue := rest
        runningTasks := c.runningTasks.insert t k
        assignedTasks := c.assignedTasks.insert t e }
      (ps.set i (l, .done)) total fun u => taken u + if t = u then 1 else 0 := by
  have hin : t ∈ c.readyQueue := by
    rw [hq]
    exact List.mem_cons_self
  have hqueued := h.queued t hin
  have hst : r.state = .queued := Option.some.inj ((stateOf_of_get hr).symm.trans hqueued)
  have hopen : s.isComplete t = false := by
    rw [isComplete_of_get hr, hst]
    rfl
  generalize hr' : { r with
    state := TaskState.running, executionID := e, lastUpdated := now } = r'
  have hrun : r'.state = .running := hr' ▸ rfl
  have hshape : r'.shape = r.shape := hr' ▸ rfl
  have hother : ∀ u, t ≠ u → (s.setTask t r').stateOf u = s.stateOf u :=
    fun u hu => (stateOf_take hrun u).trans (if_neg hu)
  have hmem : ∀ {q : Call × Point}, q ∈ ps.set i (l, .done) → q ∈ ps ∨ q = (l, .done) :=
    fun hq => List.mem_or_eq_of_mem_set hq
  refine ⟨h.coherent.overwrite hr hshape hopen (h.depsComplete hqueued rfl) (.inr (.inl hrun)),
    fun u ru hru => ?_, fun u ru hru => ?_, fun u hu => h.waiting_take hr hshape hrun hu,
    fun u hu => ?_, fun q hq' u hu => ?_, fun u hu => ?_, fun q hq' u e' output hpoint => ?_,
    fun u => ?_, fun u ru hru => h.once_take hp hr hst hrun hru,
    fun id wf hwf hne hfin => h.closing_take hp hr hshape hrun hwf hne hfin,
    fun q hq' id => ?_⟩
  · obtain ⟨ru', hru', _, hid, _⟩ := (sameShape_setTask hr hshape).back hru
    rw [← hid]
    exact h.cached u ru' hru'
  · rw [get_setTask] at hru
    split at hru
    · cases hru
      rw [hrun]
      rfl
    · exact h.flows u ru hru
  · have htu : t ≠ u := fun htu => h.not_mem_rest hq (htu ▸ hu)
    rw [hother u htu]
    exact h.queued u (hq ▸ List.mem_cons_of_mem t hu)
  · rcases hmem hq' with hq' | rfl
    · have htu : t ≠ u := by
        rintro rfl
        exact h.not_unpublished hin hq' hu
      rw [hother u htu]
      exact h.ready q hq' u hu
    · cases hu
  · rcases Std.ExtTreeMap.mem_insert.mp hu with hu | hu
    · exact .inl ((stateOf_take hrun u).trans (if_pos (Std.LawfulEqCmp.eq_of_compare hu)))
    · exact (h.assigned u hu).take hrun
  · rcases hmem hq' with hq' | rfl
    · exact (h.committing q hq' u e' output hpoint).take hrun
    · cases hpoint
  · have hbalance := h.balance u
    rw [hq, List.count_cons] at hbalance
    simp only [beq_iff_eq] at hbalance
    show total u = rest.count u + (taken u + if t = u then 1 else 0)
    omega
  · rcases hmem hq' with hq' | rfl
    · exact h.verdict q hq' id
    · simp

end Take

end Steps

section Step

variable {env : Env} {w w' : World} {ev : Event Call Action World} {ps : List (Call × Point)}
  {p p' : Point} {total taken : String → Nat}

theorem StepOf.appended_eq (h : StepOf env ps w ev p p' w') (t : String) :
    appended env t ev = w'.coord.readyQueue.count t - w.coord.readyQueue.count t := by
  rw [appended, h.after, h.before]

/-- No step of `CompleteTask` hands a task out. -/
theorem StepOf.handsOut_completing (h : StepOf env ps w ev p p' w') (hcomp : p.completing = true)
    (t : String) : handsOut env t ev = false := by
  have hnone : ev.action.assignment env w = none := by
    rw [h.assignment_eq]
    cases p with
    | getReady k => cases hcomp
    | _ => rfl
  rw [handsOut, h.before, hnone]
  rfl

/-- A step that leaves the queue as it is. -/
theorem StepOf.counts_quiet (h : StepOf env ps w ev p p' w') (total taken : String → Nat)
    (hcomp : p.completing = true) (hq : w'.coord.readyQueue = w.coord.readyQueue) :
    (fun t => total t + appended env t ev) = total ∧
      (fun t => taken t + if handsOut env t ev then 1 else 0) = taken := by
  refine ⟨funext fun t => ?_, funext fun t => ?_⟩
  · rw [h.appended_eq, hq, Nat.sub_self, Nat.add_zero]
  · rw [h.handsOut_completing hcomp]
    rfl

/-- A step of `CompleteTask` keeps the invariant, and what it appends has
complete dependencies. -/
theorem Flowing.step_complete (h : Flowing w.store w.coord ps total taken)
    (hstep : StepOf env ps w ev p p' w') (hcomp : p.completing = true) :
    Flowing w'.store w'.coord (ps.set ev.thread (ev.label, p'))
        (fun t => total t + appended env t ev)
        (fun t => taken t + if handsOut env t ev then 1 else 0) ∧
      ∀ t, 0 < appended env t ev → w.store.DepsComplete t := by
  have hnothing : w'.coord.readyQueue = w.coord.readyQueue →
      ∀ t, 0 < appended env t ev → w.store.DepsComplete t := by
    intro hq t ht
    rw [hstep.appended_eq, hq, Nat.sub_self] at ht
    cases ht
  cases hstep.moves with
  | reads hr =>
    obtain ⟨htotal, htaken⟩ := hstep.counts_quiet total taken hcomp rfl
    rw [htotal, htaken]
    exact ⟨h.reads hstep.point hcomp hr, hnothing rfl⟩
  | writes hw =>
    obtain ⟨htotal, htaken⟩ := hstep.counts_quiet total taken hcomp rfl
    rw [htotal, htaken]
    exact ⟨h.writes hstep.point hcomp hw, hnothing rfl⟩
  | locks hl =>
    cases hl with
    | @complete t ready =>
      have happended : ∀ u, appended env u ev = ready.count u := by
        intro u
        rw [hstep.appended_eq]
        show (w.coord.readyQueue ++ ready).count u - _ = _
        rw [List.count_append, Nat.add_sub_cancel_left]
      refine ⟨?_, fun u hu => ?_⟩
      · simp only [happended, hstep.handsOut_completing hcomp]
        exact h.publish hstep.point
      · rw [happended] at hu
        have hqueued := h.ready _ (List.mem_of_getElem? hstep.point) u
          (List.count_pos_iff.mp hu)
        exact h.depsComplete hqueued rfl
    | _ => cases hcomp
  | draws hd => cases hd <;> cases hcomp
  | ready _ => cases hcomp

/-- The step of `GetReadyTask`. -/
theorem StepOf.ready_eq {k : String} (h : StepOf env ps w ev (.getReady k) p' w') :
    p' = .done ∧ w' = (w.getReadyTask env k).2 := by
  refine ⟨?_, ?_⟩
  · cases h.moves with
    | reads hr => cases hr
    | draws hd => cases hd
    | writes hw => cases hw
    | locks hl => cases hl
    | ready _ => rfl
  · obtain ⟨next, hmove⟩ := h.action
    have hbefore := h.before
    have hafter := h.after
    rcases ev with ⟨i, c, act, before, returned⟩
    cases hmove
    cases hbefore
    exact hafter.symm

/-- `GetReadyTask` keeps the invariant and appends nothing. -/
theorem Flowing.step_ready (h : Flowing w.store w.coord ps total taken) {k : String}
    (hstep : StepOf env ps w ev (.getReady k) p' w') :
    Flowing w'.store w'.coord (ps.set ev.thread (ev.label, p'))
        (fun t => total t + appended env t ev)
        (fun t => taken t + if handsOut env t ev then 1 else 0) ∧
      ∀ t, appended env t ev = 0 := by
  have hpoint := hstep.point
  have hout : ∀ t, handsOut env t ev = (w.getReadyTask env k).1.any (·.taskId = t) := by
    intro t
    rw [handsOut, hstep.before, hstep.assignment_eq]
  have hqueue := hstep.appended_eq
  obtain ⟨rfl, hw'⟩ := hstep.ready_eq
  have hcases : ReadyCases env w k (w.getReadyTask env k) := w.getReadyTask_cases hstep.keyed k
  rw [hw'] at hqueue ⊢
  generalize w.getReadyTask env k = out at hcases hout hqueue
  cases hcases with
  | empty _ =>
    have happended : ∀ t, appended env t ev = 0 := fun t => (hqueue t).trans (Nat.sub_self _)
    refine ⟨?_, happended⟩
    simp only [happended, hout, Option.any_none]
    exact h.quiet hpoint h.coherent rfl rfl (fun _ hdone => hdone) rfl rfl
      (fun _ _ _ hdone => by cases hdone) (fun _ _ _ _ hclosing => hclosing.elim) (by simp)
  | @unknown t rest hq hspec =>
    -- A queued task has a record, and then it is in the caches.
    obtain ⟨r, hr, _⟩ := stateOf_eq_some.mp (h.queued t (hq ▸ List.mem_cons_self))
    exact absurd (h.cached t r hr).1 hspec
  | @absent t rest _ hq _ hnone =>
    obtain ⟨r, hr, _⟩ := stateOf_eq_some.mp (h.queued t (hq ▸ List.mem_cons_self))
    rw [hnone] at hr
    cases hr
  | @assigned t rest _ r hq _ hr =>
    have happended : ∀ u, appended env u ev = 0 := by
      intro u
      refine (hqueue u).trans (Nat.sub_eq_zero_of_le ?_)
      show rest.count u ≤ w.coord.readyQueue.count u
      rw [hq]
      exact (List.sublist_cons_self t rest).count_le u
    refine ⟨?_, happended⟩
    simp only [happended, hout, Option.any_some, decide_eq_true_eq]
    exact h.take _ hpoint hq hr

/-- The call is one of the two that the run is made of. -/
def Call.asksOrCompletes : Call → Bool
  | .getReadyTask _ | .completeTask _ _ _ => true
  | _ => false

theorem Call.concurrent_of_asksOrCompletes {c : Call} (h : c.asksOrCompletes = true) :
    c.concurrent = true := by
  cases c <;> first | rfl | cases h

theorem Flowing.step (h : Flowing w.store w.coord ps total taken)
    (hstep : StepOf env ps w ev p p' w') (hof : p.Of ev.label)
    (hl : ev.label.asksOrCompletes = true) :
    Flowing w'.store w'.coord (ps.set ev.thread (ev.label, p'))
        (fun t => total t + appended env t ev)
        (fun t => taken t + if handsOut env t ev then 1 else 0) ∧
      ∀ t, 0 < appended env t ev → w.store.DepsComplete t := by
  cases hlabel : ev.label with
  | completeTask t e output =>
    rw [← hlabel]
    exact h.step_complete hstep (Point.completing_of (hlabel ▸ hof))
  | getReadyTask k =>
    rw [← hlabel]
    rw [hlabel] at hof
    cases p with
    | getReady k' =>
      obtain ⟨hflow, hnothing⟩ := h.step_ready hstep
      refine ⟨hflow, fun t ht => ?_⟩
      rw [hnothing] at ht
      cases ht
    | done => exact h.step_complete hstep rfl
    | _ => simp [Point.Of] at hof
  | _ =>
    rw [hlabel] at hl
    cases hl

end Step

/-! ## Runs -/

section Runs

variable {env : Env} {w₀ w : World} {es : List (Event Call Action World)}
  {ps : List (Call × Point)} 
  {total taken : String → Nat}

/-- A call that is started has nothing to append. -/
theorem Flowing.spawn (h : Flowing w.store w.coord ps total taken) (c : Call) :
    Flowing w.store w.coord (ps ++ [(c, coordinator.init c)]) total taken := by
  have hempty : (coordinator.init c).unpublished = [] := by cases c <;> rfl
  have hmem : ∀ {q : Call × Point}, q ∈ ps ++ [(c, coordinator.init c)] →
      q ∈ ps ∨ q = (c, coordinator.init c) := by
    intro q hq
    rwa [List.mem_append, List.mem_singleton] at hq
  refine ⟨h.coherent, h.cached, h.flows, h.waiting, h.queued, ?_, h.assigned, ?_, h.balance,
    ?_, ?_, ?_⟩
  · intro q hq t ht
    rcases hmem hq with hq | rfl
    · exact h.ready q hq t ht
    · rw [hempty] at ht
      cases ht
  · intro q hq t e output hpoint
    rcases hmem hq with hq | rfl
    · exact h.committing q hq t e output hpoint
    · cases c <;> cases hpoint
  · intro t r hr
    have hway : onTheWay (ps ++ [(c, coordinator.init c)]) t = onTheWay ps t := by
      simp [onTheWay, hempty]
    rw [hway]
    exact h.once t r hr
  · intro id wf hwf hne hfin
    rcases h.closing id wf hwf hne hfin with hdone | ⟨q, hq, hclosing⟩
    · exact .inl hdone
    · exact .inr ⟨q, List.mem_append_left _ hq, hclosing⟩
  · intro q hq id
    rcases hmem hq with hq | rfl
    · exact h.verdict q hq id
    · cases c <;> simp [coordinator]

/-- The invariant holds along a run of points, and nothing is appended too
early. -/
theorem flowing_run (hrun : coordinator.Run (Action.handle env) w₀ es ps w)
    (hk : w₀.store.Keyed)
    (h₀ : Flowing w₀.store w₀.coord [] (w₀.coord.readyQueue.count ·) fun _ => 0)
    (hflows : ∀ l ∈ ps.map (·.1), l.asksOrCompletes = true) :
    Flowing w.store w.coord ps (entered env w₀ es) (fun t => es.countP (handsOut env t)) ∧
      ∀ ev ∈ es, ∀ t, 0 < appended env t ev → ev.before.store.DepsComplete t := by
  revert hflows
  refine run_invariant (I := fun es ps w => (∀ l ∈ ps.map (·.1), l.asksOrCompletes = true) →
    Flowing w.store w.coord ps (entered env w₀ es) (fun t => es.countP (handsOut env t)) ∧
      ∀ ev ∈ es, ∀ t, 0 < appended env t ev → ev.before.store.DepsComplete t) hk ?_ ?_ ?_ hrun
  · exact fun _ => ⟨h₀, by simp⟩
  · intro es ps w c _ ih hflows
    rw [List.map_append] at hflows
    obtain ⟨hflow, htime⟩ := ih fun l hl => hflows l (List.mem_append_left _ hl)
    exact ⟨hflow.spawn c, htime⟩
  · intro es ps w ev p p' w' hps hstep ih hflows
    rw [labels_set hstep.point] at hflows
    obtain ⟨hflow, htime⟩ := ih hflows
    have hq := List.mem_of_getElem? hstep.point
    have hlabel : ev.label.asksOrCompletes = true := hflows _ (List.mem_map_of_mem (f := (·.1)) hq)
    obtain ⟨hnext, hnew⟩ := hflow.step hstep (run_of hps hk _ hq) hlabel
    have htotal :
        entered env w₀ (es ++ [ev]) = fun t => entered env w₀ es t + appended env t ev := by
      funext t
      simp [entered, Nat.add_assoc]
    have htaken : (fun t => (es ++ [ev]).countP (handsOut env t))
        = fun t => es.countP (handsOut env t) + if handsOut env t ev then 1 else 0 := by
      funext t
      rw [List.countP_append, List.countP_singleton]
    rw [htotal, htaken]
    refine ⟨hnext, fun e he t ht => ?_⟩
    rcases List.mem_append.mp he with he | he
    · exact htime e he t ht
    · rw [List.mem_singleton.mp he] at ht ⊢
      rw [hstep.before]
      exact hnew t ht

end Runs

end DagScheduler
