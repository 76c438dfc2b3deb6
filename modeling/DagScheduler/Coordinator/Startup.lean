import DagScheduler.Coordinator.Effects

/-!
# Submissions and restarts

The two operations that fill the caches.  `Caches wf` is the step they
share: the tasks of one workflow enter the caches and everything else stays.

* `submitEffect_run`: a submission is refused before its first write, is
  halted after the workflow record because a task ID is no key, or is
  launched.  `Launched` says what the buckets and the memory hold then.  None
  of this looks at the IDs that are stored already.  `wp_submitWorkflow` adds
  that on fresh IDs the store stays sound.
* `load_spec`: `LoadStateFromDB` fills the caches from a coherent store, and
  covers the running workflows.
* `wp_restart`: a restart needs nothing of the memory it replaces.
-/

namespace DagScheduler

open Lib Program Store

/-- The tasks of `wf` enter the caches of `c`. -/
structure Caches (wf : WorkflowSpec) (c c' : Coordinator) : Prop where
  spec : ∀ t : String, c'.taskSpecCache[t]?
    = if t ∈ wf.taskIDs then wf.findTask t else c.taskSpecCache[t]?
  owner : ∀ t : String, c'.taskWorkflowMap[t]?
    = if t ∈ wf.taskIDs then some wf.workflowId else c.taskWorkflowMap[t]?
  policy : ∀ id : String, c'.workflowFailurePolicy[id]?
    = if wf.workflowId = id then some wf.failurePolicy
      else c.workflowFailurePolicy[id]?
  readyQueue : c'.readyQueue = c.readyQueue
  runningTasks : c'.runningTasks = c.runningTasks
  assignedTasks : c'.assignedTasks = c.assignedTasks

theorem Caches.mem_owner {wf : WorkflowSpec} {c c' : Coordinator}
    (h : Caches wf c c') (t : String) :
    t ∈ c'.taskWorkflowMap ↔ t ∈ wf.taskIDs ∨ t ∈ c.taskWorkflowMap := by
  rw [Std.ExtTreeMap.mem_iff_isSome_getElem?, Std.ExtTreeMap.mem_iff_isSome_getElem?,
    h.owner]
  split <;> simp_all

/-- The caches stay in agreement when a stored workflow enters them. -/
theorem Cached.caches {s : Store} {c c' : Coordinator} {wf : WorkflowSpec}
    (hc : Cached s c) (h : Caches wf c c')
    (hwf : s.workflows[wf.workflowId]? = some wf) : Cached s c' := by
  refine ⟨?_, ?_⟩
  · intro t id ht
    rw [h.owner] at ht
    split at ht
    · rename_i htw
      cases ht
      exact ⟨wf, hwf, htw, by rw [h.spec, if_pos htw], by rw [h.policy, if_pos rfl]⟩
    · rename_i htw
      obtain ⟨old, hold, hto, hspec, hpol⟩ := hc.owner t id ht
      refine ⟨old, hold, hto, by rw [h.spec, if_neg htw, hspec], ?_⟩
      rw [h.policy]
      split
      · rename_i hid
        rw [← hid, hwf] at hold
        cases hold
        rfl
      · exact hpol
  · intro t ht
    rw [h.mem_owner]
    rw [Std.ExtTreeMap.mem_iff_isSome_getElem?, h.spec] at ht
    split at ht
    · rename_i htw
      exact .inl htw
    · exact .inr (hc.spec t (Std.ExtTreeMap.mem_iff_isSome_getElem?.mpr ht))

/-- More stored workflows do no harm. -/
theorem Cached.mono {s s' : Store} {c : Coordinator} (hc : Cached s c)
    (h : ∀ (id : String) (wf : WorkflowSpec), s.workflows[id]? = some wf →
      s'.workflows[id]? = some wf) : Cached s' c := by
  refine ⟨?_, hc.spec⟩
  intro t id ht
  obtain ⟨wf, hwf, hrest⟩ := hc.owner t id ht
  exact ⟨wf, h id wf hwf, hrest⟩

/-- Both places that fill the caches put an entry for every task over what was
there. -/
theorem caches_of_entered {wf : WorkflowSpec} {c c' : Coordinator}
    (hspec : ∀ t : String, c'.taskSpecCache[t]? = (wf.findTask t).or c.taskSpecCache[t]?)
    (howner : ∀ t : String, c'.taskWorkflowMap[t]?
      = ((wf.findTask t).map fun _ => wf.workflowId).or c.taskWorkflowMap[t]?)
    (hpolicy : c'.workflowFailurePolicy
      = c.workflowFailurePolicy.insert wf.workflowId wf.failurePolicy)
    (hqueue : c'.readyQueue = c.readyQueue) (hrunning : c'.runningTasks = c.runningTasks)
    (hassigned : c'.assignedTasks = c.assignedTasks) : Caches wf c c' := by
  have hsome : ∀ t, t ∈ wf.taskIDs ↔ (wf.findTask t).isSome :=
    fun t => WorkflowSpec.findTask_isSome_iff.symm
  refine ⟨?_, ?_, ?_, hqueue, hrunning, hassigned⟩
  · intro t
    rw [hspec]
    simp only [hsome]
    cases wf.findTask t <;> rfl
  · intro t
    rw [howner]
    simp only [hsome]
    cases wf.findTask t <;> rfl
  · intro id
    rw [hpolicy]
    exact Table.get_insert _ _ _ _

/-- The section of `SubmitWorkflow`. -/
theorem caches_cacheWorkflow {wf : WorkflowSpec} {dag : DAG}
    (hacc : Accepted wf dag) (c : Coordinator) :
    Caches wf c (c.cacheWorkflow dag wf) := by
  have hfold : ∀ {V : Type} (val : String × TaskSpec → V) (m : Table String V)
      (t : String),
      (dag.tasks.toList.foldl (fun m e => m.insert e.1 (val e)) m)[t]?
        = ((wf.findTask t).map (val ⟨t, ·⟩)).or m[t]? := by
    intro V val m t
    have hd := Table.nodup_toList dag.tasks
    rw [Table.get_foldl_insert (fun e : String × TaskSpec => e.1) val _ m hd,
      Table.find_toList, hacc.tasks, Option.map_map]
    rfl
  refine caches_of_entered ?_ ?_ rfl rfl rfl rfl
  · intro t
    have hspec := hfold (·.2) c.taskSpecCache t
    rwa [Option.map_id'] at hspec
  · intro t
    exact hfold (fun _ => wf.workflowId) c.taskWorkflowMap t

/-- One round of `LoadStateFromDB`. -/
theorem caches_loadWorkflow {s : Store} {wf : WorkflowSpec}
    {st : WorkflowStateRecord} (hrun : st.state = .running)
    (hwf : s.workflows[st.workflowID]? = some wf) (hd : wf.taskIDs.Nodup)
    (c : Coordinator) : Caches wf c (c.loadWorkflow s st) := by
  have hfold : ∀ {V : Type} (val : TaskSpec → V) (m : Table String V) (t : String),
      (wf.tasks.foldl (fun m task => m.insert task.taskId (val task)) m)[t]?
        = ((wf.findTask t).map val).or m[t]? := by
    intro V val m t
    exact Table.get_foldl_insert (fun task : TaskSpec => task.taskId) val _ m hd t
  have hround : c.loadWorkflow s st =
      { c with
        workflowFailurePolicy :=
          c.workflowFailurePolicy.insert wf.workflowId wf.failurePolicy
        taskSpecCache :=
          wf.tasks.foldl (fun m task => m.insert task.taskId task) c.taskSpecCache
        taskWorkflowMap :=
          wf.tasks.foldl (fun m task => m.insert task.taskId wf.workflowId)
            c.taskWorkflowMap } := by
    simp [Coordinator.loadWorkflow, hrun, getWorkflow, hwf]
  rw [hround]
  refine caches_of_entered ?_ ?_ rfl rfl rfl rfl
  · intro t
    have hspec := hfold id c.taskSpecCache t
    rwa [Option.map_id] at hspec
  · intro t
    exact hfold (fun _ => wf.workflowId) c.taskWorkflowMap t

/-! ## `LoadStateFromDB` -/

/-- The queue that `LoadStateFromDB` leaves, whatever the store holds. -/
theorem load_readyQueue (s : Store) :
    (({} : Coordinator).load s).readyQueue = s.getTasksInState .queued := by
  have hloop : ∀ (l : List WorkflowStateRecord) (c : Coordinator),
      (l.foldl (Coordinator.loadWorkflow s) c).readyQueue = c.readyQueue := by
    intro l
    induction l with
    | nil => exact fun _ => rfl
    | cons st l ih =>
      intro c
      rw [List.foldl_cons, ih]
      unfold Coordinator.loadWorkflow
      split
      · rfl
      · cases s.getWorkflow st.workflowID <;> rfl
  rw [Coordinator.load, Coordinator.enqueue_readyQueue, hloop, List.nil_append]

section Load

variable {s : Store} (hs : s.Coherent)
include hs

/-- What the loop of `LoadStateFromDB` leaves after the records of `l`. -/
private theorem load_loop (l : List WorkflowStateRecord)
    (hl : ∀ st ∈ l, s.workflowState[st.workflowID]? = some st) :
    ∀ {c : Coordinator}, Cached s c →
      Cached s (l.foldl (Coordinator.loadWorkflow s) c) ∧
      (l.foldl (Coordinator.loadWorkflow s) c).readyQueue = c.readyQueue ∧
      (l.foldl (Coordinator.loadWorkflow s) c).runningTasks = c.runningTasks ∧
      (l.foldl (Coordinator.loadWorkflow s) c).assignedTasks = c.assignedTasks ∧
      ∀ t, (t ∈ c.taskWorkflowMap ∨ ∃ st ∈ l, st.state = .running ∧
          ∃ wf, s.workflows[st.workflowID]? = some wf ∧ t ∈ wf.taskIDs) →
        t ∈ (l.foldl (Coordinator.loadWorkflow s) c).taskWorkflowMap := by
  induction l with
  | nil =>
    intro c hc
    exact ⟨hc, rfl, rfl, rfl, fun t ht => ht.resolve_right (by simp)⟩
  | cons st l ih =>
    intro c hc
    have hl' : ∀ st' ∈ l, s.workflowState[st'.workflowID]? = some st' :=
      fun st' h => hl st' (List.mem_cons_of_mem st h)
    rw [List.foldl_cons]
    by_cases hrun : st.state = .running
    · -- A running workflow has a specification, which enters the caches.
      have hstored := (hs.tracked _ st (hl st (by simp))).2 hrun
      obtain ⟨wf, hwf⟩ := (Table.mem_iff_get _ _).mp hstored
      obtain ⟨hid, _, hwell⟩ := hs.linked.workflow _ _ hwf
      have hround := caches_loadWorkflow hrun hwf hwell.nodup c
      obtain ⟨hc', hq, hr, ha, hact⟩ :=
        ih hl' (hc.caches hround (by rw [hid]; exact hwf))
      refine ⟨hc', hq.trans hround.readyQueue, hr.trans hround.runningTasks,
        ha.trans hround.assignedTasks, ?_⟩
      rintro t (ht | ⟨st', hst', hrun', wf', hwf', ht⟩)
      · exact hact t (.inl ((hround.mem_owner t).mpr (.inr ht)))
      · rcases List.mem_cons.mp hst' with rfl | hin
        · rw [hwf] at hwf'
          cases hwf'
          exact hact t (.inl ((hround.mem_owner t).mpr (.inl ht)))
        · exact hact t (.inr ⟨st', hin, hrun', wf', hwf', ht⟩)
    · have hskip : c.loadWorkflow s st = c := by
        simp [Coordinator.loadWorkflow, hrun]
      rw [hskip]
      obtain ⟨hc', hq, hr, ha, hact⟩ := ih hl' hc
      refine ⟨hc', hq, hr, ha, ?_⟩
      rintro t (ht | ⟨st', hst', hrun', hwf'⟩)
      · exact hact t (.inl ht)
      · rcases List.mem_cons.mp hst' with rfl | hin
        · exact absurd hrun' hrun
        · exact hact t (.inr ⟨st', hin, hrun', hwf'⟩)

private theorem mem_getAllWorkflowStates {st : WorkflowStateRecord} :
    st ∈ s.getAllWorkflowStates ↔ s.workflowState[st.workflowID]? = some st := by
  rw [getAllWorkflowStates, List.mem_map]
  constructor
  · rintro ⟨e, he, rfl⟩
    rw [Table.mem_toList_iff] at he
    rw [(hs.tracked _ _ he).1]
    exact he
  · intro h
    exact ⟨(st.workflowID, st), (Table.mem_toList_iff _ _).mpr h, rfl⟩

/-- `LoadStateFromDB` on a new coordinator. -/
theorem load_spec :
    Cached s (({} : Coordinator).load s) ∧
      (({} : Coordinator).load s).readyQueue = s.getTasksInState .queued ∧
      (({} : Coordinator).load s).runningTasks = ∅ ∧
      (({} : Coordinator).load s).assignedTasks = ∅ ∧
      ∀ (t : String) (r : TaskStateRecord), s.taskState[t]? = some r →
        s.workflowStateOf r.workflowID = some .running →
        t ∈ (({} : Coordinator).load s).taskWorkflowMap := by
  have hempty : Cached s {} := by
    refine ⟨?_, ?_⟩
    · intro t id ht
      simp at ht
    · intro t ht
      simp at ht
  obtain ⟨hc, hq, hr, ha, hact⟩ := load_loop hs s.getAllWorkflowStates
    (fun st h => (mem_getAllWorkflowStates hs).mp h) hempty
  refine ⟨⟨hc.owner, hc.spec⟩, ?_, hr, ha, ?_⟩
  · rw [Coordinator.load, Coordinator.enqueue, hq, List.nil_append]
  · intro t r ht hrun
    obtain ⟨st, hst, hstate⟩ := Option.map_eq_some_iff.mp hrun
    obtain ⟨wf, hwf, htw⟩ := hs.linked.owned t r ht
    have hid := (hs.tracked _ st hst).1
    apply hact t
    refine .inr ⟨st, (mem_getAllWorkflowStates hs).mpr (by rw [hid]; exact hst), hstate,
      wf, by rw [hid]; exact hwf, htw⟩

/-- `LoadStateFromDB` remembers the policy of every running workflow, also of
one that has no tasks. -/
theorem load_policy {id : String} {wf : WorkflowSpec}
    (hwf : s.workflows[id]? = some wf) (hrun : s.workflowStateOf id = some .running) :
    (({} : Coordinator).load s).workflowFailurePolicy[id]? = some wf.failurePolicy := by
  have hloop : ∀ (l : List WorkflowStateRecord) (c : Coordinator),
      (c.workflowFailurePolicy[id]? = some wf.failurePolicy ∨
        ∃ st ∈ l, st.state = .running ∧ st.workflowID = id) →
      (l.foldl (Coordinator.loadWorkflow s) c).workflowFailurePolicy[id]?
        = some wf.failurePolicy := by
    intro l
    induction l with
    | nil => exact fun c h => h.resolve_right (by simp)
    | cons st l ih =>
      intro c h
      rw [List.foldl_cons]
      apply ih
      by_cases hst : st.state = .running ∧ st.workflowID = id
      · obtain ⟨hst, rfl⟩ := hst
        obtain ⟨hid, _, hwell⟩ := hs.linked.workflow _ _ hwf
        left
        rw [(caches_loadWorkflow hst hwf hwell.nodup c).policy, if_pos hid]
      · -- A round for another workflow, or for one that does not run.
        have hkept : (c.loadWorkflow s st).workflowFailurePolicy[id]?
            = c.workflowFailurePolicy[id]? := by
          unfold Coordinator.loadWorkflow
          split
          · rfl
          · rename_i hstate
            cases hother : s.workflows[st.workflowID]? with
            | none => simp [getWorkflow, hother]
            | some other =>
              have hne : other.workflowId ≠ id := by
                rw [(hs.linked.workflow _ _ hother).1]
                exact fun he => hst ⟨not_not.mp hstate, he⟩
              simp only [getWorkflow, hother]
              exact Table.get_insert_ne _ _ hne
        rw [hkept]
        refine h.imp_right ?_
        intro hlater
        obtain ⟨st', hin, hst', hid'⟩ := hlater
        rcases List.mem_cons.mp hin with rfl | hin
        · exact absurd ⟨hst', hid'⟩ hst
        · exact ⟨st', hin, hst', hid'⟩
  obtain ⟨st, hst, hstate⟩ := Option.map_eq_some_iff.mp hrun
  have hid := (hs.tracked _ st hst).1
  exact hloop s.getAllWorkflowStates {}
    (.inr ⟨st, (mem_getAllWorkflowStates hs).mpr (by rw [hid]; exact hst), hstate, hid⟩)

end Load

variable {env : Env} {P : WorkflowSpec → Prop} {w : World}

/-- What a restart does. -/
def RestartEffect (env : Env) (w w' : World) : Prop :=
  Requeues env (w.store.getTasksInState .running)
    { w with coord := ({} : Coordinator).load w.store } w'

/-- A restart is the loop of `PrepareRecovery` on the loaded memory. -/
private theorem wp_restart_loop {K : Store → Prop} {Q : Unit → World → Prop}
    (hs : K w.store)
    (hloop : (requeueAll (w.store.getTasksInState .running)).wp (Action.handle env)
      (fun w => K w.store) Q { w with coord := ({} : Coordinator).load w.store }) :
    restart.wp (Action.handle env) (fun w => K w.store) Q w := by
  rw [restart, Prog.wp_bind]
  refine ⟨hs, ?_⟩
  rw [Prog.wp_ret, Prog.wp_bind, loadStateFromDB, Prog.wp_act]
  refine ⟨hs, ?_⟩
  rw [prepareRecovery, Prog.wp_bind]
  exact ⟨hs, hloop⟩

/-- A restart keeps whatever the requeueing of the running tasks keeps. -/
theorem wp_restart_of {K : Store → Prop} {C : Store → String → Prop}
    (hkeyed : ∀ s, K s → s.Keyed)
    (hstep : ∀ (s : Store) (t execID : String) (now : Int64), K s → C s t →
      ∃ r, s.taskState[t]? = some r ∧ K (s.requeued t r execID now) ∧
        ∀ u, u ≠ t → C s u → C (s.requeued t r execID now) u)
    (hs : K w.store) (hcan : ∀ u, w.store.stateOf u = some .running → C w.store u) :
    restart.wp (Action.handle env) (fun w => K w.store)
      (fun _ w' => RequeuesInOrder env (w.store.getTasksInState .running)
        { w with coord := ({} : Coordinator).load w.store } w') w := by
  have hk := hkeyed _ hs
  refine wp_restart_loop hs ?_
  refine wp_requeueAll_of hkeyed hstep _ hs (nodup_getTasksInState hk _) ?_
  intro u hu
  exact hcan u ((mem_getTasksInState hk).mp hu)

theorem wp_restart (hs : Keeps P w) :
    restart.wp (Action.handle env) (Keeps P)
      (fun _ w' => RestartEffect env w w') w := by
  have hkeyed := hs.coherent.linked.keyed
  refine wp_restart_loop (K := Sound P) hs ?_
  refine wp_requeueAll _ hs (nodup_getTasksInState hkeyed _) ?_
  intro u hu
  obtain ⟨r, hr, hst⟩ := stateOf_eq_some.mp ((mem_getTasksInState hkeyed).mp hu)
  exact ⟨r, hr, by simp [hst],
    hs.coherent.counted.ready u r hr (by rw [hst]; rfl)⟩

/-! ## `SubmitWorkflow` -/

/-- The tasks of `l` are queued. -/
structure Queues (l : List String) (w w' : World) : Prop where
  workflows : w'.store.workflows = w.store.workflows
  workflowState : w'.store.workflowState = w.store.workflowState
  hit : ∀ (u : String) (r : TaskStateRecord), u ∈ l →
    w.store.taskState[u]? = some r → ∃ now, w'.store.taskState[u]? = some
      { r with state := .queued, lastUpdated := now }
  miss : ∀ u : String, u ∉ l → w'.store.taskState[u]? = w.store.taskState[u]?
  coord : w'.coord = w.coord.enqueue l
  uuids : w'.uuids = w.uuids

/-- The loop over the roots, in any state in which the roots have records. -/
theorem run_enqueueRoots (l : List String) :
    ∀ {w : World}, w.store.Keyed → l.Nodup → (∀ u ∈ l, u ∈ w.store.taskState) →
      ((enqueueRoots l).run (Action.handle env) w).1 = .ok () ∧
        Queues l w ((enqueueRoots l).run (Action.handle env) w).2 := by
  induction l with
  | nil =>
    intro w _ _ _
    exact ⟨rfl, rfl, rfl, by simp, fun _ _ => rfl, (Coordinator.enqueue_nil _).symm, rfl⟩
  | cons t l ih =>
    intro w hk hnd hrec
    rw [List.nodup_cons] at hnd
    obtain ⟨r, hr⟩ := (Table.mem_iff_get _ _).mp (hrec t (by simp))
    let s : Store := w.store.setTask t
      { r with state := .queued, lastUpdated := env.now w.ticks }
    have hshape : SameShape w.store s := sameShape_setTask hr rfl
    have hother : ∀ u, u ≠ t → s.taskState[u]? = w.store.taskState[u]? :=
      fun u hu => by rw [get_setTask, if_neg (Ne.symm hu)]
    let w₁ : World := { w.wrote s with coord := w.coord.enqueue [t] }
    have hrun : (enqueueRoots (t :: l)).run (Action.handle env) w
        = (enqueueRoots l).run (Action.handle env) w₁ := by
      rw [enqueueRoots, run_tryUpdate (.updateTaskState t .queued)
        (commit_modifyTask hk hr _), Prog.run_bind]
      rfl
    have hk₁ : w₁.store.Keyed := hshape.keyed hk
    obtain ⟨hok, h⟩ := ih hk₁ hnd.2
      fun u hu => (hshape.mem_iff u).mpr (hrec u (List.mem_cons_of_mem t hu))
    rw [hrun]
    refine ⟨hok, h.workflows, h.workflowState, ?_, ?_, ?_, h.uuids⟩
    · intro u ru hu hru
      rcases List.mem_cons.mp hu with rfl | hin
      · rw [hr] at hru
        cases hru
        refine ⟨env.now w.ticks, ?_⟩
        rw [h.miss u hnd.1]
        exact (get_setTask _ _ _ _).trans (if_pos rfl)
      · have hne : u ≠ t := fun he => hnd.1 (he ▸ hin)
        exact h.hit u ru hin ((hother u hne).trans hru)
    · intro u hu
      rw [List.mem_cons, not_or] at hu
      rw [h.miss u hu.2]
      exact hother u hu.1
    · rw [h.coord, Coordinator.enqueue_cons _ t l]

theorem wp_enqueueRoots (l : List String) :
    ∀ {w : World}, Keeps P w →
      (∀ u ∈ l, ∃ r, w.store.taskState[u]? = some r ∧ r.state ≠ .complete ∧
        w.store.depsOf u = []) →
      (enqueueRoots l).wp (Action.handle env) (Keeps P) (fun _ _ => True) w := by
  induction l with
  | nil => exact fun _ _ => trivial
  | cons t l ih =>
    intro w hs hrec
    obtain ⟨r, hr, hnc, hdeps⟩ := hrec t (by simp)
    let s : Store := w.store.setTask t
      { r with state := .queued, lastUpdated := env.now w.ticks }
    have hs' : s.Sound P := by
      refine hs.of_workflows
        (hs.coherent.setTask hr rfl hnc (by simp) (by simp) (by simp)
          fun _ d hd => ?_) rfl
      rw [hdeps] at hd
      cases hd
    have hshape : SameShape w.store s := sameShape_setTask hr rfl
    rw [enqueueRoots]
    refine wp_tryUpdate (.updateTaskState t .queued)
      (commit_modifyTask hs.coherent.linked.keyed hr _) hs' ?_
    rw [Prog.wp_bind]
    apply wp_lockedWrite hs'
    refine ih hs' ?_
    intro u hu
    obtain ⟨ru, hru, hunc, hudeps⟩ := hrec u (by simp [hu])
    have hdeps' : s.depsOf u = [] := (congrFun hshape.depsOf u).trans hudeps
    by_cases hut : t = u
    · subst hut
      exact ⟨_, (get_setTask _ _ _ _).trans (if_pos rfl), by simp, hdeps'⟩
    · exact ⟨ru, (get_setTask _ _ _ _).trans ((if_neg hut).trans hru), hunc, hdeps'⟩

/-- What an accepted submission leaves behind. -/
structure Launched (wf : WorkflowSpec) (dag : DAG) (roots : List String)
    (w w' : World) : Prop where
  accepted : Accepted wf dag
  wellFormed : wf.WellFormed
  key : validKey wf.workflowId = true
  workflows : w'.store.workflows = w.store.workflows.insert wf.workflowId wf
  workflowState : ∃ now, w'.store.workflowState
    = w.store.workflowState.insert wf.workflowId
      { workflowID := wf.workflowId, state := .running, submittedAtMs := now }
  task : ∀ t ∈ wf.taskIDs, ∃ now, w'.store.taskState[t]? = some
    { taskID := t
      workflowID := wf.workflowId
      state := if wf.dependenciesOf t = [] then .queued else .pending
      lastUpdated := now
      inDegree := Int32.ofNat (wf.dependenciesOf t).length
      downstreamTaskIDs := dag.downstream.getD t [] }
  other : ∀ t : String, t ∉ wf.taskIDs →
    w'.store.taskState[t]? = w.store.taskState[t]?
  mem_roots : ∀ t, t ∈ roots ↔ t ∈ wf.taskIDs ∧ wf.dependenciesOf t = []
  nodup_roots : roots.Nodup
  coord : ∃ c, Caches wf w.coord c ∧ w'.coord = c.enqueue roots
  uuids : w'.uuids = w.uuids

/-- A new workflow starts with its roots queued and its other tasks waiting. -/
theorem Launched.stateOf {wf : WorkflowSpec} {dag : DAG} {roots : List String}
    {w' : World} (h : Launched wf dag roots w w') {t : String} (ht : t ∈ wf.taskIDs) :
    w'.store.stateOf t
      = some (if wf.dependenciesOf t = [] then .queued else .pending) := by
  obtain ⟨now, hget⟩ := h.task t ht
  rw [stateOf_of_get hget]

/-- What `SubmitWorkflow` does. -/
inductive SubmitEffect (w : World) (wf : WorkflowSpec) :
    Except CallError Unit → World → Prop where
  | refused {e : CallError} {w' : World} : w'.store = w.store →
      w'.coord = w.coord → w'.uuids = w.uuids → SubmitEffect w wf (.error e) w'
  | halted {e : CallError} {now : Int64} {w' : World} :
      (∃ task ∈ wf.tasks, validKey task.taskId = false) →
      w'.store = Store.setWorkflowState
        { w.store with workflows := w.store.workflows.insert wf.workflowId wf }
        wf.workflowId
        { workflowID := wf.workflowId, state := .running, submittedAtMs := now } →
      w'.coord = w.coord → w'.uuids = w.uuids → SubmitEffect w wf (.error e) w'
  | launched {dag : DAG} {roots : List String} {w' : World} :
      Launched wf dag roots w w' → SubmitEffect w wf (.ok ()) w'

/-- The roots of an accepted workflow are its tasks without dependencies. -/
theorem Accepted.mem_roots {wf : WorkflowSpec} {dag : DAG} (hacc : Accepted wf dag)
    (hwell : wf.WellFormed) (order : RangeOrder String) (t : String) :
    t ∈ dag.getReadyTasks order ↔ t ∈ wf.taskIDs ∧ wf.dependenciesOf t = [] := by
  rw [hacc.mem_getReadyTasks]
  refine and_congr_right fun _ => ?_
  have hlen := Int32.toInt_ofNat_of_lt (hwell.bounded t)
  rw [← List.length_eq_zero_iff]
  constructor
  · intro h
    rw [h, Int32.toInt_zero] at hlen
    omega
  · intro h
    rw [h]
    rfl

/-- The submission is refused before its first write. -/
def RefusedAtOnce (env : Env) (orders : DagOrders) (wf : WorkflowSpec) : Prop :=
  (∃ e, validateAndSort orders wf = .error e) ∨
    ¬ (env.marshals wf = true ∧ validKey wf.workflowId = true)

/-- The specification and the workflow state are stored. -/
def Store.registered (now : Int64) (wf : WorkflowSpec) (s : Store) : Store :=
  setWorkflowState { s with workflows := s.workflows.insert wf.workflowId wf }
    wf.workflowId
    { workflowID := wf.workflowId, state := .running, submittedAtMs := now }

section Run

variable {orders : DagOrders} {wf : WorkflowSpec}

theorem run_submitWorkflow_refused (h : RefusedAtOnce env orders wf) (w : World) :
    ∃ e w', (submitWorkflow orders wf).run (Action.handle env) w = (.error e, w') ∧
      w'.store = w.store ∧ w'.coord = w.coord ∧ w'.uuids = w.uuids := by
  cases hdag : validateAndSort orders wf with
  | error e =>
    refine ⟨.invalidDAG e, w, ?_, rfl, rfl, rfl⟩
    rw [submitWorkflow, hdag]
    rfl
  | ok dag =>
    have hstore : ¬ (env.marshals wf = true ∧ validKey wf.workflowId = true) := by
      rcases h with ⟨e, he⟩ | h
      · rw [hdag] at he
        cases he
      · exact h
    obtain ⟨e, he⟩ := commit_storeWorkflow_refused hstore w.store
    refine ⟨.store e, w.wrote w.store, ?_, rfl, rfl, rfl⟩
    rw [submitWorkflow, hdag]
    exact run_tryUpdate_refused (.storeWorkflow wf) he

variable {dag : DAG} (hdag : validateAndSort orders wf = .ok dag)
  (hm : env.marshals wf = true) (hk : validKey wf.workflowId = true)
include hdag hm hk

/-- The first two transactions of a submission. -/
private theorem run_register (w : World) :
    (submitWorkflow orders wf).run (Action.handle env) w
      = (tryUpdate (.initializeTasksForWorkflow wf.workflowId wf.tasks dag.inDegree
            dag.downstream) fun _ => do
          lockedWrite (Coordinator.cacheWorkflow dag wf)
          enqueueRoots (dag.getReadyTasks orders.ready)).run (Action.handle env)
        { w with
          store := w.store.registered (env.now (w.ticks + 1)) wf
          ticks := w.ticks + 2 } := by
  rw [submitWorkflow, hdag]
  dsimp only
  rw [run_tryUpdate (.storeWorkflow wf) (commit_storeWorkflow hm hk _),
    run_tryUpdate (.initWorkflowState wf.workflowId) (commit_initWorkflowState hk _ _)]
  rfl

/-- A task ID that is no key stops the submission after the workflow state. -/
theorem run_submitWorkflow_halted
    (hbad : ∃ task ∈ wf.tasks, validKey task.taskId = false) (w : World) :
    ∃ e w', (submitWorkflow orders wf).run (Action.handle env) w = (.error e, w') ∧
      w'.store = w.store.registered (env.now (w.ticks + 1)) wf ∧
      w'.coord = w.coord ∧ w'.uuids = w.uuids := by
  rw [run_register hdag hm hk]
  obtain ⟨e, he⟩ := commit_initializeTasks_refused hbad (env.now (w.ticks + 2))
    wf.workflowId dag.inDegree dag.downstream
    (w.store.registered (env.now (w.ticks + 1)) wf)
  exact ⟨.store e, _, run_tryUpdate_refused (.initializeTasksForWorkflow wf.workflowId
    wf.tasks dag.inDegree dag.downstream) he, rfl, rfl, rfl⟩

/-- Every other submission is launched, whatever the IDs are. -/
theorem run_submitWorkflow_launched
    (hkeys : ∀ task ∈ wf.tasks, validKey task.taskId = true) {w : World}
    (hkeyed : w.store.Keyed) :
    ∃ w', (submitWorkflow orders wf).run (Action.handle env) w = (.ok (), w') ∧
      Launched wf dag (dag.getReadyTasks orders.ready) w w' := by
  have hacc := accepted_of_ok hdag
  have hwell := hacc.wellFormed (env.marshals_bounded wf hm)
  have hroots := hacc.mem_roots hwell orders.ready
  let s₂ : Store := w.store.registered (env.now (w.ticks + 1)) wf
  let s₃ : Store := s₂.withTaskRecords (env.now (w.ticks + 2)) wf dag
  have hkeyed₃ : s₃.Keyed := keyed_withTaskRecords hacc hkeys (s := s₂) hkeyed _
  let w₃ : World :=
    { w with
      store := s₃, coord := w.coord.cacheWorkflow dag wf, ticks := w.ticks + 3 }
  have hrun : (submitWorkflow orders wf).run (Action.handle env) w
      = (enqueueRoots (dag.getReadyTasks orders.ready)).run (Action.handle env) w₃ := by
    rw [run_register hdag hm hk, run_tryUpdate (.initializeTasksForWorkflow wf.workflowId
      wf.tasks dag.inDegree dag.downstream) (commit_initializeTasks hkeys _ _ _ _ _),
      Prog.run_bind]
    rfl
  obtain ⟨hok, hq⟩ : ((enqueueRoots (dag.getReadyTasks orders.ready)).run
      (Action.handle env) w₃).1 = .ok () ∧ Queues (dag.getReadyTasks orders.ready) w₃
        ((enqueueRoots (dag.getReadyTasks orders.ready)).run (Action.handle env) w₃).2 := by
    refine run_enqueueRoots _ hkeyed₃ (Accepted.nodup_getReadyTasks orders.ready) ?_
    intro u hu
    exact (Table.mem_iff_get _ _).mpr
      ⟨_, get_withTaskRecords_mem hacc _ ((hroots u).mp hu).1⟩
  rw [hrun]
  refine ⟨_, Prod.ext hok rfl, ⟨hacc, hwell, hk, hq.workflows, ⟨_, hq.workflowState⟩, ?_, ?_,
    hroots, Accepted.nodup_getReadyTasks orders.ready,
    ⟨_, caches_cacheWorkflow hacc w.coord, hq.coord⟩, hq.uuids⟩⟩
  · intro t ht
    have hrec := get_withTaskRecords_mem (s := s₂) hacc (env.now (w.ticks + 2)) ht
    by_cases hdeps : wf.dependenciesOf t = []
    · obtain ⟨stamp, hget⟩ := hq.hit t _ ((hroots t).mpr ⟨ht, hdeps⟩) hrec
      exact ⟨stamp, by rw [hget, if_pos hdeps]⟩
    · refine ⟨env.now (w.ticks + 2), ?_⟩
      rw [hq.miss t fun h => hdeps ((hroots t).mp h).2, if_neg hdeps]
      exact hrec
  · intro t ht
    rw [hq.miss t fun h => ht ((hroots t).mp h).1]
    exact get_withTaskRecords_other (s := s₂) hacc.nodup _ ht

end Run

/-- What a submission does to a keyed store. -/
theorem submitEffect_run (hkeyed : w.store.Keyed) (orders : DagOrders)
    (wf : WorkflowSpec) :
    SubmitEffect w wf ((submitWorkflow orders wf).run (Action.handle env) w).1
      ((submitWorkflow orders wf).run (Action.handle env) w).2 := by
  by_cases hnow : RefusedAtOnce env orders wf
  · obtain ⟨e, w', hrun, hstore, hcoord, huuids⟩ := run_submitWorkflow_refused hnow w
    rw [hrun]
    exact .refused hstore hcoord huuids
  · unfold RefusedAtOnce at hnow
    push Not at hnow
    obtain ⟨hdag, hm, hk⟩ := hnow
    cases hsort : validateAndSort orders wf with
    | error e => exact absurd hsort (hdag e)
    | ok dag =>
      by_cases hkeys : ∀ task ∈ wf.tasks, validKey task.taskId = true
      · obtain ⟨w', hrun, hla⟩ := run_submitWorkflow_launched hsort hm hk hkeys hkeyed
        rw [hrun]
        exact .launched hla
      · have hbad : ∃ task ∈ wf.tasks, validKey task.taskId = false := by
          simpa using hkeys
        obtain ⟨e, w', hrun, hstore, hcoord, huuids⟩ :=
          run_submitWorkflow_halted hsort hm hk hbad w
        rw [hrun]
        exact .halted hbad hstore hcoord huuids

/-- The store is sound after every action of a submission of fresh IDs. -/
private theorem wp_submitWorkflow_sound (hs : Keeps P w) (orders : DagOrders)
    {wf : WorkflowSpec} (hP : P wf) (hfresh : w.store.Fresh wf) :
    (submitWorkflow orders wf).wp (Action.handle env) (Keeps P) (fun _ _ => True) w := by
  rw [submitWorkflow]
  cases hdag : validateAndSort orders wf with
  | error e => trivial
  | ok dag =>
    have hacc := accepted_of_ok hdag
    dsimp only
    by_cases hstore : env.marshals wf = true ∧ validKey wf.workflowId = true
    · obtain ⟨hm, hk⟩ := hstore
      have hwell := hacc.wellFormed (env.marshals_bounded wf hm)
      -- The specification, then the workflow state.
      let s₁ : Store :=
        { w.store with workflows := w.store.workflows.insert wf.workflowId wf }
      have hget₁ : s₁.workflows[wf.workflowId]? = some wf := by
        rw [Table.get_insert, if_pos rfl]
      have hs₁ : s₁.Sound P := by
        refine ⟨hs.coherent.storeWorkflow hfresh hk hwell, ?_⟩
        intro id other hother
        rw [Table.get_insert] at hother
        split at hother
        · cases hother
          exact hP
        · exact hs.stored id other hother
      refine wp_tryUpdate (.storeWorkflow wf) (commit_storeWorkflow hm hk _) hs₁ ?_
      let now := env.now (w.ticks + 1)
      let s₂ : Store := s₁.setWorkflowState wf.workflowId
        { workflowID := wf.workflowId, state := .running, submittedAtMs := now }
      have hs₂ : s₂.Sound P := hs₁.of_workflows
        (hs₁.coherent.setWorkflowState rfl
          fun _ => (Table.mem_iff_get _ _).mpr ⟨wf, hget₁⟩) rfl
      refine wp_tryUpdate (.initWorkflowState wf.workflowId)
        (commit_initWorkflowState hk _ _) hs₂ ?_
      have hnew : s₂.Untouched wf := hfresh.untouched hs.coherent.linked
      by_cases hkeys : ∀ task ∈ wf.tasks, validKey task.taskId = true
      · have hs₃ : Sound P (s₂.withTaskRecords (env.now (w.ticks + 1 + 1)) wf dag) :=
          hs₂.of_workflows (hs₂.coherent.initializeTasks hacc hget₁ hnew hkeys _) rfl
        refine wp_tryUpdate (.initializeTasksForWorkflow wf.workflowId
          wf.tasks dag.inDegree dag.downstream)
          (commit_initializeTasks hkeys _ _ _ _ _) hs₃ ?_
        rw [Prog.wp_bind]
        apply wp_lockedWrite hs₃
        apply wp_enqueueRoots _ hs₃
        intro u hu
        obtain ⟨hin, hdeps⟩ := (hacc.mem_roots hwell orders.ready u).mp hu
        exact ⟨_, get_withTaskRecords_mem hacc _ hin, by simp,
          (depsOf_withTaskRecords_mem hacc hget₁ _ hin).trans hdeps⟩
      · have hbad : ∃ task ∈ wf.tasks, validKey task.taskId = false := by
          simpa using hkeys
        obtain ⟨e, he⟩ := commit_initializeTasks_refused hbad
          (env.now (w.ticks + 1 + 1)) wf.workflowId dag.inDegree dag.downstream s₂
        exact wp_tryUpdate_refused (.initializeTasksForWorkflow wf.workflowId
          wf.tasks dag.inDegree dag.downstream) he hs₂ trivial
    · obtain ⟨e, he⟩ := commit_storeWorkflow_refused hstore w.store
      exact wp_tryUpdate_refused (.storeWorkflow wf) he hs trivial

theorem wp_submitWorkflow (hs : Keeps P w) (orders : DagOrders) {wf : WorkflowSpec}
    (hP : P wf) (hfresh : w.store.Fresh wf) :
    (submitWorkflow orders wf).wp (Action.handle env) (Keeps P)
      (SubmitEffect w wf) w :=
  Prog.wp_of_run (wp_submitWorkflow_sound hs orders hP hfresh)
    (submitEffect_run hs.coherent.linked.keyed orders wf)

end DagScheduler
