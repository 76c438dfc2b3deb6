import DagScheduler.Coordinator.Startup
import DagScheduler.Coordinator.Steady

/-!
# What holds even when IDs are reused

A submission never looks at the IDs that are stored already, so a run that
reuses an ID may leave a store that is not coherent.  `Grounded` is what
remains: whatever names a workflow, in the store or in memory, names a
workflow whose specification is stored.

No action of an operation breaks it, with one exception.  The records of a
submission are written after its specification, and only that order keeps
them grounded.  `Grounded K` therefore also remembers that the workflows of
`K` are stored: the tail of a submission preserves `Grounded [workflowId]`,
and every other program preserves `Grounded []`.  The run lemma is
`CrashRun.grounded`.
-/

namespace DagScheduler

open Lib Program Store

/-- Every workflow that the store mentions is stored. -/
structure Store.Rooted (s : Store) : Prop where
  keyed : s.Keyed
  spec : ∀ (id : String) (wf : WorkflowSpec), s.workflows[id]? = some wf →
    wf.workflowId = id
  owner : ∀ (t : String) (r : TaskStateRecord), s.taskState[t]? = some r →
    r.workflowID ∈ s.workflows
  tracked : s.Tracked

/-- Every workflow that the caches mention is stored, and the two caches of
tasks have the same keys. -/
structure Coordinator.RootedIn (s : Store) (c : Coordinator) : Prop where
  owner : ∀ t id : String, c.taskWorkflowMap[t]? = some id → id ∈ s.workflows
  policy : ∀ id, id ∈ c.workflowFailurePolicy → id ∈ s.workflows
  cached : ∀ t, t ∈ c.taskSpecCache ↔ t ∈ c.taskWorkflowMap

/-- Every workflow that is mentioned is stored, and so are those of `K`. -/
structure Grounded (K : List String) (w : World) : Prop where
  store : w.store.Rooted
  memory : Coordinator.RootedIn w.store w.coord
  stored : ∀ id ∈ K, id ∈ w.store.workflows

/-! ## Transactions -/

theorem Store.Rooted.sameShape {s s' : Store} (hs : s.Rooted) (h : SameShape s s')
    (hstates : s'.workflowState = s.workflowState) : s'.Rooted := by
  refine ⟨h.keyed hs.keyed, by rw [h.workflows]; exact hs.spec, ?_, ?_⟩
  · intro t r' hr'
    obtain ⟨r, hr, _, hid, _⟩ := h.back hr'
    rw [h.workflows, ← hid]
    exact hs.owner t r hr
  · unfold Tracked
    rw [hstates, h.workflows]
    exact hs.tracked

theorem Coordinator.RootedIn.mono {s s' : Store} {c c' : Coordinator}
    (h : Coordinator.RootedIn s c) (hw : ∀ id, id ∈ s.workflows → id ∈ s'.workflows)
    (hc : Coordinator.SameCaches c c') : Coordinator.RootedIn s' c' := by
  refine ⟨?_, ?_, ?_⟩
  · rw [hc.owner]
    exact fun t id ht => hw id (h.owner t id ht)
  · rw [hc.policy]
    exact fun id hid => hw id (h.policy id hid)
  · rw [hc.spec, hc.owner]
    exact h.cached

variable {env : Env} {K : List String} {w : World}

/-- A step that keeps the caches and loses no specification. -/
theorem Grounded.of_caches {w' : World} (h : Grounded K w) (hs : w'.store.Rooted)
    (hw : ∀ id, id ∈ w.store.workflows → id ∈ w'.store.workflows)
    (hc : Coordinator.SameCaches w.coord w'.coord) : Grounded K w' :=
  ⟨hs, h.memory.mono hw hc, fun id hid => hw id (h.stored id hid)⟩

/-- A transaction that rewrites records. -/
theorem Grounded.rewrites (h : Grounded K w) {α : Type} {op : StoreOp α}
    (hop : op.rewrites = true) : Grounded K (w.update env op).2 := by
  obtain ⟨hshape, hstates⟩ :=
    op.sameShape_of_rewrites hop h.store.keyed env.marshals (env.now w.ticks)
  refine h.of_caches (h.store.sameShape hshape hstates) ?_ ⟨rfl, rfl, rfl⟩
  intro id hid
  show id ∈ (w.store.commit (op.tx env.marshals (env.now w.ticks))).2.workflows
  rw [hshape.workflows]
  exact hid

/-- A state other than `RUNNING` may be written for any workflow, and
`RUNNING` for a stored one. -/
theorem Store.Rooted.setWorkflowState {s : Store} (hs : s.Rooted) {id : String}
    {r : WorkflowStateRecord} (hid : r.workflowID = id)
    (hrun : r.state = .running → id ∈ s.workflows) : (s.setWorkflowState id r).Rooted := by
  refine ⟨hs.keyed, hs.spec, hs.owner, ?_⟩
  intro i r' hr'
  rw [get_setWorkflowState] at hr'
  split at hr'
  · rename_i hii
    cases hr'
    rw [← hii]
    exact ⟨hid, hrun⟩
  · exact hs.tracked i r' hr'

theorem Grounded.updateWorkflowState (h : Grounded K w) (id : String)
    {st : WorkflowState} (hst : st ≠ .running) :
    Grounded K (w.update env (.updateWorkflowState id st)).2 := by
  have hcases : (w.update env (.updateWorkflowState id st)).2 = w.wrote w.store ∨
      (w.update env (.updateWorkflowState id st)).2 = w.wrote (w.store.setWorkflowState id
        (nextWorkflowState (env.now w.ticks) id w.store.workflowState[id]? st)) := by
    cases hk : validKey id with
    | true =>
      have hcommit := commit_updateWorkflowState hk (env.now w.ticks) st w.store
      right
      simp [World.update, StoreOp.tx, hcommit, World.wrote]
    | false =>
      obtain ⟨e, he⟩ := commit_updateWorkflowState_refused hk (env.now w.ticks) st w.store
      left
      simp [World.update, StoreOp.tx, he, World.wrote]
  rcases hcases with heq | heq
  · rw [heq]
    exact h.of_caches h.store (fun _ hid => hid) ⟨rfl, rfl, rfl⟩
  · rw [heq]
    refine h.of_caches (h.store.setWorkflowState ?_ ?_) (fun _ hid => hid) ⟨rfl, rfl, rfl⟩
    · exact nextWorkflowState_workflowID _ _ _ _ fun r hr => (h.store.tracked id r hr).1
    · rw [nextWorkflowState_state]
      exact fun hrun => absurd hrun hst

/-! ## Programs -/

theorem steady_grounded (env : Env) (K : List String) : Steady env (Grounded K) where
  rewrites hop h := h.rewrites hop
  closes id _ hst h := h.updateWorkflowState id hst
  eases hc h := h.of_caches h.store (fun _ hid => hid) hc.caches
  draws h := h.of_caches h.store (fun _ hid => hid) ⟨rfl, rfl, rfl⟩

theorem grounded_handleDeadWorker (order : RangeOrder String) (workerID : String) :
    (handleDeadWorker order workerID).Preserves (Action.handle env) (Grounded K) := by
  rw [handleDeadWorker]
  have hkept := steady_grounded env K
  refine Prog.Preserves.bind (hkept.locked fun c => c.eases_claimTasks order workerID)
    fun l => (hkept.requeueAll l).bind fun _ => ?_
  refine Prog.Preserves.bind (Prog.preserves_act fun w h => ?_) fun _ => trivial
  exact h.of_caches h.store (fun _ hid => hid) ⟨rfl, rfl, rfl⟩

theorem grounded_getReadyTask (workerID : String) :
    (getReadyTask workerID).Preserves (Action.handle env) (Grounded K) := by
  refine Prog.preserves_act fun w h => ?_
  show Grounded K (w.getReadyTask env workerID).2
  unfold World.getReadyTask
  split
  · exact h
  · rename_i t rest _
    have hpop : Grounded K { w with coord := { w.coord with readyQueue := rest } } :=
      h.of_caches h.store (fun _ hid => hid) ⟨rfl, rfl, rfl⟩
    dsimp only
    split
    · exact hpop
    · let w₁ : World :=
        { w with coord := { w.coord with readyQueue := rest }, uuids := w.uuids + 1 }
      have hdrawn : Grounded K w₁ :=
        hpop.of_caches hpop.store (fun _ hid => hid) ⟨rfl, rfl, rfl⟩
      have htx : Grounded K (w₁.update env (.assignTask t (env.uuid w.uuids))).2 :=
        hdrawn.rewrites rfl
      split
      · rename_i heq
        rw [heq] at htx
        exact htx
      · rename_i heq
        rw [heq] at htx
        exact htx.of_caches htx.store (fun _ hid => hid) ⟨rfl, rfl, rfl⟩

/-! ## Submissions and restarts -/

/-- The caches after the tasks of a stored workflow have entered them. -/
theorem Coordinator.RootedIn.cache {s : Store} {c : Coordinator} {A : Type}
    (h : Coordinator.RootedIn s c) {id : String} (hid : id ∈ s.workflows)
    (policy : FailurePolicy) (key : A → String) (spec : A → TaskSpec) (tasks : List A) :
    Coordinator.RootedIn s
      { c with
        taskSpecCache := tasks.foldl (fun m a => m.insert (key a) (spec a)) c.taskSpecCache
        taskWorkflowMap := tasks.foldl (fun m a => m.insert (key a) id) c.taskWorkflowMap
        workflowFailurePolicy := c.workflowFailurePolicy.insert id policy } := by
  refine ⟨?_, ?_, ?_⟩
  · intro t i ht
    rcases Table.get_foldl_insert_const key id tasks c.taskWorkflowMap ht with hold | rfl
    · exact h.owner t i hold
    · exact hid
  · intro i hi
    rw [Std.ExtTreeMap.mem_insert, Std.LawfulEqCmp.compare_eq_iff_eq] at hi
    rcases hi with rfl | hold
    · exact hid
    · exact h.policy i hold
  · intro t
    rw [Table.mem_foldl_insert, Table.mem_foldl_insert, h.cached]

theorem Grounded.load (h : Grounded K w) :
    Grounded K { w with coord := w.coord.load w.store } := by
  have hround : ∀ c st, Coordinator.RootedIn w.store c →
      Coordinator.RootedIn w.store (c.loadWorkflow w.store st) := by
    intro c st hc
    unfold Coordinator.loadWorkflow
    split
    · exact hc
    · unfold getWorkflow
      cases hwf : w.store.workflows[st.workflowID]? with
      | none => exact hc
      | some wf =>
        have hid : wf.workflowId ∈ w.store.workflows := by
          rw [h.store.spec _ _ hwf]
          exact (Table.mem_iff_get _ _).mpr ⟨wf, hwf⟩
        exact hc.cache hid wf.failurePolicy (·.taskId) (fun task => task) wf.tasks
  have hloop : ∀ (l : List WorkflowStateRecord) c, Coordinator.RootedIn w.store c →
      Coordinator.RootedIn w.store (l.foldl (Coordinator.loadWorkflow w.store) c) := by
    intro l
    induction l with
    | nil => exact fun _ hc => hc
    | cons st l ih => exact fun c hc => ih _ (hround c st hc)
  exact ⟨h.store, (hloop _ _ h.memory).mono (fun _ hid => hid) ⟨rfl, rfl, rfl⟩, h.stored⟩

theorem grounded_restart : restart.Preserves (Action.handle env) (Grounded K) := by
  rw [restart]
  refine Prog.Preserves.bind (Prog.preserves_act fun w h => ?_) fun _ => ?_
  · refine ⟨h.store, ⟨?_, ?_, ?_⟩, h.stored⟩
    · intro t id ht
      simp [Action.handle] at ht
    · intro id hid
      simp [Action.handle] at hid
    · intro t
      simp [Action.handle]
  · refine Prog.Preserves.bind (Prog.preserves_act fun w h => h.load) fun _ => ?_
    rw [prepareRecovery]
    exact (preserves_view _).bind fun l => (steady_grounded env K).requeueAll l

theorem Grounded.initializeTasks {wf : WorkflowSpec} {dag : DAG}
    (h : Grounded [wf.workflowId] w) (hacc : Accepted wf dag) :
    Grounded [wf.workflowId] (w.update env (.initializeTasksForWorkflow wf.workflowId
      wf.tasks dag.inDegree dag.downstream)).2 := by
  by_cases hkeys : ∀ task ∈ wf.tasks, validKey task.taskId = true
  · have hcommit := commit_initializeTasks hkeys (env.now w.ticks) wf.workflowId
      dag.inDegree dag.downstream w.store
    have hworld : (w.update env (.initializeTasksForWorkflow wf.workflowId wf.tasks
        dag.inDegree dag.downstream)).2
        = w.wrote (w.store.withTaskRecords (env.now w.ticks) wf dag) := by
      simp [World.update, StoreOp.tx, hcommit, World.wrote, withTaskRecords]
    rw [hworld]
    refine h.of_caches ⟨keyed_withTaskRecords hacc hkeys h.store.keyed _, h.store.spec,
      ?_, h.store.tracked⟩ (fun _ hid => hid) ⟨rfl, rfl, rfl⟩
    intro t r hr
    rw [World.wrote_store] at hr
    by_cases ht : t ∈ wf.taskIDs
    · rw [get_withTaskRecords_mem hacc _ ht] at hr
      cases hr
      exact h.stored _ (List.mem_singleton_self _)
    · rw [get_withTaskRecords_other hacc.nodup _ ht] at hr
      exact h.store.owner t r hr
  · have hbad : ∃ task ∈ wf.tasks, validKey task.taskId = false := by simpa using hkeys
    obtain ⟨e, he⟩ := commit_initializeTasks_refused hbad (env.now w.ticks)
      wf.workflowId dag.inDegree dag.downstream w.store
    have hworld : (w.update env (.initializeTasksForWorkflow wf.workflowId wf.tasks
        dag.inDegree dag.downstream)).2 = w.wrote w.store := by
      simp [World.update, StoreOp.tx, he, World.wrote]
    rw [hworld]
    exact h.of_caches h.store (fun _ hid => hid) ⟨rfl, rfl, rfl⟩

/-- Storing a specification grounds the workflow it names. -/
theorem Grounded.storeWorkflow (h : Grounded [] w) {wf : WorkflowSpec} {s : Store}
    (hs : s = { w.store with workflows := w.store.workflows.insert wf.workflowId wf }) :
    Grounded [wf.workflowId] (w.wrote s) := by
  subst hs
  have hmono : ∀ id, id ∈ w.store.workflows →
      id ∈ w.store.workflows.insert wf.workflowId wf := by
    intro id hid
    rw [Std.ExtTreeMap.mem_insert]
    exact .inr hid
  refine ⟨⟨h.store.keyed, ?_, fun t r hr => hmono _ (h.store.owner t r hr), ?_⟩,
    h.memory.mono hmono ⟨rfl, rfl, rfl⟩, ?_⟩
  · intro id other hother
    rw [World.wrote_store, Table.get_insert] at hother
    split at hother
    · rename_i hid
      cases hother
      exact hid
    · exact h.store.spec id other hother
  · intro id r hr
    exact ⟨(h.store.tracked id r hr).1, fun hrun => hmono id ((h.store.tracked id r hr).2 hrun)⟩
  · intro id hid
    rw [List.mem_singleton.mp hid]
    exact Std.ExtTreeMap.mem_insert_self

/-- The part of a submission after the specification is stored. -/
private theorem grounded_register {wf : WorkflowSpec} {dag : DAG} (hacc : Accepted wf dag)
    (hk : validKey wf.workflowId = true) (roots : List String) :
    (tryUpdate (.initWorkflowState wf.workflowId) fun _ =>
      tryUpdate (.initializeTasksForWorkflow wf.workflowId wf.tasks dag.inDegree
        dag.downstream) fun _ => do
        lockedWrite (Coordinator.cacheWorkflow dag wf)
        enqueueRoots roots : Program (Except CallError Unit)).Preserves
      (Action.handle env) (Grounded [wf.workflowId]) := by
  refine preserves_tryUpdate (Prog.preserves_act fun w h => ?_) fun _ =>
    preserves_tryUpdate (Prog.preserves_act fun w h => h.initializeTasks hacc) fun _ => ?_
  · have hworld : (w.update env (.initWorkflowState wf.workflowId)).2
        = w.wrote (w.store.setWorkflowState wf.workflowId
          { workflowID := wf.workflowId, state := .running,
            submittedAtMs := env.now w.ticks }) := by
      simp [World.update, StoreOp.tx, commit_initWorkflowState hk, World.wrote]
    show Grounded _ (w.update env (.initWorkflowState wf.workflowId)).2
    rw [hworld]
    exact h.of_caches (h.store.setWorkflowState rfl fun _ =>
      h.stored _ (List.mem_singleton_self _)) (fun _ hid => hid) ⟨rfl, rfl, rfl⟩
  · refine Prog.Preserves.bind (Prog.preserves_act fun w h => ?_) fun _ =>
      (steady_grounded env _).enqueueRoots roots
    exact ⟨h.store, h.memory.cache (h.stored _ (List.mem_singleton_self _))
      wf.failurePolicy (fun e : String × TaskSpec => e.1) (fun e => e.2) dag.tasks.toList, h.stored⟩

theorem wp_submitWorkflow_grounded (h : Grounded [] w) (orders : DagOrders)
    (wf : WorkflowSpec) :
    (submitWorkflow orders wf).wp (Action.handle env) (Grounded [])
      (fun _ _ => True) w := by
  have hweaken : ∀ w, Grounded [wf.workflowId] w → Grounded [] w :=
    fun w h => ⟨h.store, h.memory, by simp⟩
  rw [submitWorkflow]
  cases hdag : validateAndSort orders wf with
  | error e => trivial
  | ok dag =>
    dsimp only
    rw [tryUpdate, Prog.wp_bind, update, Prog.wp_act]
    by_cases hstore : env.marshals wf = true ∧ validKey wf.workflowId = true
    · have hcommit := commit_storeWorkflow hstore.1 hstore.2 w.store
      have hworld : Action.handle env (.update (.storeWorkflow wf)) w = (.ok (),
          w.wrote { w.store with
            workflows := w.store.workflows.insert wf.workflowId wf }) := by
        simp [Action.handle, World.update, StoreOp.tx, hcommit, World.wrote]
      have hgrounded : Grounded [wf.workflowId] (w.wrote { w.store with
          workflows := w.store.workflows.insert wf.workflowId wf }) :=
        h.storeWorkflow rfl
      rw [hworld]
      refine ⟨hweaken _ hgrounded, ?_⟩
      exact Prog.wp_weaken hweaken
        ((grounded_register (accepted_of_ok hdag) hstore.2 _).wp hgrounded)
    · obtain ⟨e, he⟩ := commit_storeWorkflow_refused hstore w.store
      have hworld : Action.handle env (.update (.storeWorkflow wf)) w
          = (.error e, w.wrote w.store) := by
        simp [Action.handle, World.update, StoreOp.tx, he, World.wrote]
      rw [hworld]
      exact ⟨h.of_caches h.store (fun _ hid => hid) ⟨rfl, rfl, rfl⟩, trivial⟩

/-! ## Runs -/

/-- Every state during a call is grounded. -/
theorem Call.wp_grounded (c : Call) (h : Grounded [] w) :
    c.prog.wp (Action.handle env) (Grounded []) (fun _ _ => True) w := by
  cases c <;> rw [Call.prog, Prog.wp_bind]
  case submitWorkflow orders wf => exact wp_submitWorkflow_grounded h orders wf
  case getReadyTask workerID => exact (grounded_getReadyTask workerID).wp h
  case completeTask t e output => exact ((steady_grounded env []).completeTask t e output).wp h
  case failTask t e errMsg => exact ((steady_grounded env []).failTask t e errMsg).wp h
  case cancelWorkflow id => exact ((steady_grounded env []).cancelWorkflow id).wp h
  case handleDeadWorker order workerID =>
    exact (grounded_handleDeadWorker order workerID).wp h
  case restart => exact grounded_restart.wp h

theorem grounded_empty : Grounded [] {} := by
  have hno : ∀ {V : Type} (k : String) (v : V), (∅ : Table String V)[k]? ≠ some v := by
    simp
  exact
    ⟨⟨fun t r h => absurd h (hno t r), fun id wf h => absurd h (hno id wf),
      fun t r h => absurd h (hno t r), fun id r h => absurd h (hno id r)⟩,
      ⟨fun t id h => absurd h (hno t id), fun id h => by simp at h, fun t => by simp⟩, by simp⟩

/-- The run lemma: every state of every run is grounded, whatever IDs it
reuses. -/
theorem CrashRun.grounded {calls : List Call} {up : Bool}
    (hrun : CrashRun env calls up w) : Grounded [] w := by
  induction hrun with
  | start => exact grounded_empty
  | call c _ ih => exact (Prog.wp_run (Prog.wp_and_inv ih (c.wp_grounded ih))).2
  | cut c n _ ih => exact Prog.wp_runFor ih (c.wp_grounded ih) n
  | cutAgain n _ ih => exact Prog.wp_runFor ih (Call.restart.wp_grounded ih) n
  | recover _ ih =>
    exact (Prog.wp_run (Prog.wp_and_inv ih (Call.restart.wp_grounded ih))).2

end DagScheduler
