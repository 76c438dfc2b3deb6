import DagScheduler.Properties.Progress

/-!
# A restart is the death of every worker

A restart rebuilds the memory from the store and queues every task that is
stored as `RUNNING`.  `HandleDeadWorker` on every worker of `runningTasks`
works from the memory and keeps it.  For the workflows that were accepted and
are stored as `RUNNING` the two come to the same.

* `reclaimed` is the record that both leave, up to the execution ID and the
  time stamp.  Neither a death nor a restart changes it
  (`Effect.reclaimed`), and it is the record itself once no task runs.
* The queue and the caches then follow from the invariant of the two runs,
  since it says what they hold for a running workflow.

Two invariants are needed beyond `Inv`.  A task with a worker was not skipped
unless its workflow is over (`Executing`), and the policy of every running
workflow is cached, even if the workflow has no task (`PolicyCached`).
-/

namespace DagScheduler

open Lib Store

/-- The record without its execution ID and its time stamp. -/
def TaskStateRecord.upToExecution (r : TaskStateRecord) : TaskStateRecord :=
  { r with executionID := "", lastUpdated := 0 }

/-- The record without them after the task has lost its worker. -/
def TaskStateRecord.reclaimed (r : TaskStateRecord) : TaskStateRecord :=
  { r.upToExecution with state := if r.state = .running then .queued else r.state }

/-- The two worlds agree on the workflow: on its records, on which of its
tasks are queued, and on its entries of the caches. -/
structure SameFor (wf : WorkflowSpec) (w₁ w₂ : World) : Prop where
  records : ∀ t ∈ wf.taskIDs,
    w₁.store.taskState[t]?.map TaskStateRecord.upToExecution
      = w₂.store.taskState[t]?.map TaskStateRecord.upToExecution
  queue : ∀ t ∈ wf.taskIDs, t ∈ w₁.coord.readyQueue ↔ t ∈ w₂.coord.readyQueue
  spec : ∀ t ∈ wf.taskIDs, w₁.coord.taskSpecCache[t]? = w₂.coord.taskSpecCache[t]?
  owner : ∀ t ∈ wf.taskIDs, w₁.coord.taskWorkflowMap[t]? = w₂.coord.taskWorkflowMap[t]?
  policy : w₁.coord.workflowFailurePolicy[wf.workflowId]?
    = w₂.coord.workflowFailurePolicy[wf.workflowId]?

/-- No task is with a worker. -/
structure Idle (w : World) : Prop where
  runningTasks : w.coord.runningTasks = ∅
  assignedTasks : w.coord.assignedTasks = ∅

/-- The task belongs to a workflow that is stored as `RUNNING`. -/
def Store.InRunning (s : Store) (t : String) : Prop :=
  ∃ id, s.ownerOf t = some id ∧ s.workflowStateOf id = some .running

/-- A task with a worker is stored as `RUNNING`, if its workflow is. -/
def Executing (w : World) : Prop :=
  ∀ t e : String, w.coord.assignedTasks[t]? = some e → w.store.InRunning t →
    w.store.stateOf t = some .running

/-- The policy of a running workflow whose task IDs are keys is cached. -/
def PolicyCached (w : World) : Prop :=
  ∀ (id : String) (wf : WorkflowSpec), w.store.workflows[id]? = some wf →
    (∀ t ∈ wf.taskIDs, validKey t = true) →
    w.store.workflowStateOf id = some .running →
    w.coord.workflowFailurePolicy[id]? = some wf.failurePolicy

variable {env : Env} {P P' : WorkflowSpec → Prop} {w w' : World} {c : Call}

/-! ## Tasks with a worker -/

/-- Whoever skips a task that runs ends its workflow. -/
theorem SkipsTask.stops (h : Inv P w) {reply : Reply} (heff : Effect env w c reply w')
    {t e id : String} (ha : w.coord.assignedTasks[t]? = some e)
    (hopen : w.store.isOpen t) (hskipped : w'.store.stateOf t = some .skipped)
    (hown : w.store.ownerOf t = some id) (hskips : SkipsTask w w' t c) :
    w'.store.workflowStateOf id ≠ some .running := by
  have hs := h.sound.coherent
  intro hrun
  cases hskips with
  | @below u e' errMsg id' wf hau hf hownu hownt hwf hwhy =>
    rw [hown] at hownt
    cases hownt
    rcases hwhy with hfast | hanc
    · -- `FAIL_FAST` stores the workflow as `FAILED`.
      cases heff with
      | failTask heff =>
        cases heff with
        | stale hne => exact hne hau
        | retried _ _ _ hstore _ _ =>
          rw [hstore, Store.stateOf_setTask, if_pos rfl] at hf
          cases hf
        | @failed r wf' now _ _ hr _ hwf' hpol _ =>
          rw [ownerOf_of_get hr] at hownu
          cases hownu
          rw [hwf] at hwf'
          cases hwf'
          rw [hfast] at hpol
          cases hpol with
          | failFast _ hclose =>
            rw [hclose.stateOf_self] at hrun
            cases hrun
          | below hbelow _ _ => rcases hbelow with hp | hp <;> cases hp
    · -- The ancestors of a task that runs are complete.
      obtain ⟨r, hr, hterm⟩ := hopen
      obtain ⟨ru, hru, _, hst, _⟩ := h.agree.assigned u e' hau
      have hunblocked : r.state.unblocked = true := by
        rcases h.state_of_assigned ha hr with hst | hst
        · rw [hst]
          rfl
        · rw [hst] at hterm
          cases hterm
      obtain ⟨r', hr', hdone⟩ :=
        isComplete_iff.mp (hs.counted.ancestor_complete hanc r hr hunblocked)
      rw [hru] at hr'
      cases hr'
      rcases hst with hst | hst <;> rw [hst] at hdone <;> cases hdone
  | @cancelled id' hown' =>
    rw [hown] at hown'
    cases hown'
    cases heff with
    | cancelWorkflow heff =>
      cases heff with
      | cancelled _ _ hclose _ =>
        rw [hclose.stateOf_self] at hrun
        cases hrun
      | refused _ hstore _ _ =>
        obtain ⟨r, hr, hterm⟩ := hopen
        rw [hstore, stateOf_of_get hr] at hskipped
        rw [Option.some.inj hskipped] at hterm
        cases hterm

/-- A task of a running workflow was one before the call, or the call
submits it. -/
theorem Store.InRunning.back (h : Inv P w) (hadm : c.Admissible P' w) {reply : Reply}
    (heff : Effect env w c reply w') {t : String} {r : TaskStateRecord}
    (hr : w.store.taskState[t]? = some r) (hrun : w'.store.InRunning t) :
    w.store.InRunning t := by
  obtain ⟨id, hown', hstate⟩ := hrun
  have hown : w.store.ownerOf t = some id := by
    have hkept := (heff.task h hadm t).owner_mono (ownerOf_of_get hr)
    rw [hown'] at hkept
    rw [ownerOf_of_get hr]
    exact hkept.symm
  refine ⟨id, hown, ?_⟩
  have hstep := heff.workflow id
  rw [hstate] at hstep
  cases hc : c.submits with
  | none => exact hstep.running_back hc
  | some wf =>
    obtain ⟨stored, hstored, _⟩ := h.sound.coherent.linked.owned t r hr
    have hid := Option.some.inj ((ownerOf_of_get hr).symm.trans hown)
    rw [hid] at hstored
    generalize w.store.workflowStateOf id = o at hstep
    cases hstep with
    | same => rfl
    | started hnew =>
      cases hc
      exact absurd hnew.symm ((hadm wf rfl).2 id stored hstored).1

theorem Executing.step (h : Inv P w) (h' : Inv P' w') {P'' : WorkflowSpec → Prop}
    (hadm : c.Admissible P'' w) {reply : Reply} (heff : Effect env w c reply w')
    (hex : Executing w) : Executing w' := by
  intro t e ha' hrun'
  obtain ⟨r', hr', _, hst, _⟩ := h'.agree.assigned t e ha'
  rcases hst with hst | hst
  · exact stateOf_eq_some.mpr ⟨r', hr', hst⟩
  · have hskipped : w'.store.stateOf t = some .skipped :=
      stateOf_eq_some.mpr ⟨r', hr', hst⟩
    rcases heff.assigned_back h ha' with ha | ⟨_, _, hrunning, _⟩
    · obtain ⟨r, hr, _⟩ := h.agree.assigned t e ha
      have hrun := hrun'.back h hadm heff hr
      rcases (heff.task h hadm t).skipped_back hskipped with hbefore | ⟨hopen, hskips⟩
      · rw [hex t e ha hrun] at hbefore
        cases hbefore
      · obtain ⟨id, hown, _⟩ := hrun
        obtain ⟨id', hown', hstate'⟩ := hrun'
        rw [(heff.task h hadm t).owner_mono hown] at hown'
        cases hown'
        exact absurd hstate' (hskips.stops h heff ha hopen hskipped hown)
    · exact hrunning

theorem executing_runCalls (env : Env) (calls : List Call)
    (hids : NeverReused (submitted calls)) : Executing (runCalls env calls) := by
  refine runCalls_induction (I := fun _ w => Executing w) ?_ ?_ calls hids
  · intro t e ha
    simp at ha
  · intro calls c reply w w' hids h heff h' hex
    exact hex.step h h' (admissible_next h.sound hids) heff

/-! ## Policies -/

theorem PolicyCached.step (h : Inv P w) (hadm : c.Admissible P' w) {reply : Reply}
    (heff : Effect env w c reply w') (hpc : PolicyCached w) : PolicyCached w' := by
  intro id wf hwf hkeys hrun
  cases hc : c.submits with
  | none =>
    rw [heff.workflows hc] at hwf
    have hstep := heff.workflow id
    rw [hrun] at hstep
    have hbefore := hstep.running_back hc
    by_cases hrestart : c = .restart
    · subst hrestart
      cases heff with
      | restart heff =>
        unfold RestartEffect at heff
        rw [heff.coord]
        exact load_policy h.sound.coherent hwf hbefore
    · rw [(heff.sameCaches hc hrestart).policy]
      exact hpc id wf hwf hkeys hbefore
  | some new =>
    cases heff with
    | submitWorkflow heff =>
      cases hc
      cases heff with
      | refused hstore hcoord _ =>
        rw [hstore] at hwf hrun
        rw [hcoord]
        exact hpc id wf hwf hkeys hrun
      | halted hbad hstore hcoord _ =>
        rw [hstore] at hwf hrun
        by_cases hid : new.workflowId = id
        · -- The new workflow has a task ID that is no key.
          subst hid
          have hnew : some new = some wf :=
            ((Table.get_insert _ _ _ _).trans (if_pos rfl)).symm.trans hwf
          cases hnew
          obtain ⟨task, htask, hinvalid⟩ := hbad
          rw [hkeys _ (WorkflowSpec.mem_taskIDs.mpr ⟨task, htask, rfl⟩)] at hinvalid
          cases hinvalid
        · rw [workflowStateOf, get_setWorkflowState, if_neg hid] at hrun
          rw [hcoord]
          exact hpc id wf ((Table.get_insert_ne _ _ hid).symm.trans hwf) hkeys hrun
      | launched hl =>
        obtain ⟨c, hcaches, hcoord⟩ := hl.coord
        obtain ⟨now, hstates⟩ := hl.workflowState
        rw [hl.workflows, Table.get_insert] at hwf
        rw [workflowStateOf, hstates, Table.get_insert] at hrun
        rw [hcoord, show (c.enqueue _).workflowFailurePolicy = c.workflowFailurePolicy from rfl,
          hcaches.policy]
        split at hwf
        · rename_i hid
          cases hwf
          rw [if_pos hid]
        · rename_i hid
          rw [if_neg hid] at hrun ⊢
          exact hpc id wf hwf hkeys hrun
    | _ => cases hc

theorem policyCached_runCalls (env : Env) (calls : List Call)
    (hids : NeverReused (submitted calls)) : PolicyCached (runCalls env calls) := by
  refine runCalls_induction (I := fun _ w => PolicyCached w) ?_ ?_ calls hids
  · intro id wf hwf
    simp at hwf
  · intro calls c reply w w' hids h heff h' hpc
    exact hpc.step h (admissible_next h.sound hids) heff

/-! ## Records -/

theorem TaskStateRecord.reclaimed_of_running {r : TaskStateRecord} (hr : r.state = .running)
    (e : String) (now : Int64) :
    ({ r with state := .queued, executionID := e, lastUpdated := now } :
      TaskStateRecord).reclaimed = r.reclaimed := by
  simp [reclaimed, upToExecution, hr]

theorem TaskStateRecord.reclaimed_of_not_running {r : TaskStateRecord}
    (hr : r.state ≠ .running) : r.reclaimed = r.upToExecution := by
  simp [reclaimed, upToExecution, hr]

/-- If a task does not run, `reclaimed` only drops what is not compared. -/
theorem Store.upToExecution_eq {s : Store} {t : String} (h : s.stateOf t ≠ some .running) :
    s.taskState[t]?.map TaskStateRecord.upToExecution
      = s.taskState[t]?.map TaskStateRecord.reclaimed := by
  cases hr : s.taskState[t]? with
  | none => rfl
  | some r =>
    have hst : r.state ≠ .running := fun hst => h (stateOf_eq_some.mpr ⟨r, hr, hst⟩)
    exact congrArg some (TaskStateRecord.reclaimed_of_not_running hst).symm

/-- Between the two worlds tasks were taken from their workers. -/
structure Reclaims (w w' : World) : Prop where
  workflows : w'.store.workflows = w.store.workflows
  workflowState : w'.store.workflowState = w.store.workflowState
  record : ∀ t, w.store.InRunning t →
    w'.store.taskState[t]?.map TaskStateRecord.reclaimed
      = w.store.taskState[t]?.map TaskStateRecord.reclaimed

theorem Reclaims.refl (w : World) : Reclaims w w := ⟨rfl, rfl, fun _ _ => rfl⟩

theorem Reclaims.ownerOf (h : Reclaims w w') {t : String} (ht : w.store.InRunning t) :
    w'.store.ownerOf t = w.store.ownerOf t := by
  have howner := congrArg (Option.map (·.workflowID)) (h.record t ht)
  rw [Option.map_map, Option.map_map] at howner
  exact howner

theorem Reclaims.workflowStateOf (h : Reclaims w w') (id : String) :
    w'.store.workflowStateOf id = w.store.workflowStateOf id := by
  rw [Store.workflowStateOf, h.workflowState, Store.workflowStateOf]

theorem Reclaims.inRunning (h : Reclaims w w') {t : String} (ht : w.store.InRunning t) :
    w'.store.InRunning t := by
  have howner := h.ownerOf ht
  obtain ⟨id, hown, hrun⟩ := ht
  exact ⟨id, howner.trans hown, (h.workflowStateOf id).trans hrun⟩

theorem Reclaims.trans {w₁ w₂ w₃ : World} (h : Reclaims w₁ w₂) (h' : Reclaims w₂ w₃) :
    Reclaims w₁ w₃ :=
  ⟨h'.workflows.trans h.workflows, h'.workflowState.trans h.workflowState,
    fun t ht => (h'.record t (h.inRunning ht)).trans (h.record t ht)⟩

/-- A death takes the tasks of one worker. -/
theorem DeadWorkerEffect.reclaims (h : Inv P w) (hex : Executing w) {workerID : String}
    (heff : DeadWorkerEffect env workerID w w') : Reclaims w w' := by
  have htask : ∀ t, TaskStep env w w' t (.handleDeadWorker (.asListed _) workerID)
      w.store.taskState[t]? w'.store.taskState[t]? := fun t => heff.task t
  obtain ⟨l, w₁, _, hmem, hreq, rfl⟩ := heff.claimed
  refine ⟨hreq.workflows, hreq.workflowState, fun t ht => ?_⟩
  have hstep := htask t
  generalize ho : w.store.taskState[t]? = o at hstep
  dsimp only at hstep ⊢
  generalize w₁.store.taskState[t]? = o' at hstep
  cases hstep with
  | same => rfl
  | reclaimed hw _ _ =>
    obtain ⟨e, ha⟩ := h.assigned_of_running hw
    have hst := hex t e ha ht
    rw [stateOf_of_get ho] at hst
    exact congrArg some (TaskStateRecord.reclaimed_of_running (Option.some.inj hst) _ _)

/-- A restart takes the tasks of all workers. -/
theorem RestartEffect.reclaims (hk : w.store.Keyed) (heff : RestartEffect env w w') :
    Reclaims w w' := by
  have htask := fun t => heff.task t hk
  unfold RestartEffect at heff
  refine ⟨heff.workflows, heff.workflowState, fun t _ => ?_⟩
  have hstep := htask t
  generalize w.store.taskState[t]? = o at hstep
  generalize w'.store.taskState[t]? = o' at hstep
  cases hstep with
  | same => rfl
  | recovered hst _ _ =>
    exact congrArg some (TaskStateRecord.reclaimed_of_running hst _ _)

/-! ## The death of every worker -/

/-- `HandleDeadWorker` for a list of workers, each with the order in which
its call visits the map. -/
def deathsOf (deaths : List (RangeOrder String × String)) : List Call :=
  deaths.map fun d => .handleDeadWorker d.1 d.2

theorem submitted_deathsOf (calls : List Call)
    (deaths : List (RangeOrder String × String)) :
    submitted (calls ++ deathsOf deaths) = submitted calls := by
  have hnone : submitted (deathsOf deaths) = [] := by
    simp [submitted, deathsOf, Call.submits]
  unfold submitted at hnone ⊢
  rw [List.filterMap_append, hnone, List.append_nil]

/-- After the deaths only the tasks of other workers are left in the map. -/
theorem reclaims_deathsOf (env : Env) {calls : List Call}
    (hids : NeverReused (submitted calls)) (deaths : List (RangeOrder String × String)) :
    Reclaims (runCalls env calls) (runCalls env (calls ++ deathsOf deaths)) ∧
      ∀ t k : String,
        (runCalls env (calls ++ deathsOf deaths)).coord.runningTasks[t]? = some k →
        (runCalls env calls).coord.runningTasks[t]? = some k ∧ ∀ d ∈ deaths, d.2 ≠ k := by
  induction deaths using List.reverseRecOn with
  | nil =>
    rw [show deathsOf [] = [] from rfl, List.append_nil]
    exact ⟨.refl _, fun t k ht => ⟨ht, by simp⟩⟩
  | append_singleton deaths d ih =>
    obtain ⟨hrec, hmap⟩ := ih
    have hcalls : calls ++ deathsOf (deaths ++ [d])
        = (calls ++ deathsOf deaths) ++ [.handleDeadWorker d.1 d.2] := by
      simp [deathsOf]
    have hids' : NeverReused (submitted ((calls ++ deathsOf deaths)
        ++ [.handleDeadWorker d.1 d.2])) := by
      rw [← hcalls, submitted_deathsOf]
      exact hids
    have h := inv_runCalls env hids'.of_append
    have heff := effect_runCalls env hids'
    rw [hcalls]
    generalize ((Call.handleDeadWorker d.1 d.2).exec env
      (runCalls env (calls ++ deathsOf deaths))).1 = reply at heff
    cases heff with
    | handleDeadWorker heff =>
      refine ⟨hrec.trans (heff.reclaims h (executing_runCalls env _ hids'.of_append)), ?_⟩
      intro t k ht
      obtain ⟨l, w₁, _, hmem, hreq, hworld⟩ := heff.claimed
      rw [hworld] at ht
      dsimp only at ht
      rw [hreq.coord, Coordinator.enqueue_runningTasks,
        Coordinator.get_foldl_forget_running] at ht
      split at ht
      · cases ht
      · rename_i hout
        obtain ⟨ht₀, hother⟩ := hmap t k ht
        refine ⟨ht₀, fun d' hd' => ?_⟩
        rcases List.mem_append.mp hd' with hin | hlast
        · exact hother d' hin
        · rw [List.mem_singleton.mp hlast]
          intro hk
          exact hout ((hmem t).mpr (by rw [hk]; exact ht))

/-! ## The comparison -/

/-- What the caches hold for a task of a running workflow. -/
theorem Inv.cached_of_running (h : Inv P w) {wf : WorkflowSpec} (hold : w.store.Holds wf)
    (hrun : w.store.workflowStateOf wf.workflowId = some .running) {t : String}
    (ht : t ∈ wf.taskIDs) :
    w.coord.taskWorkflowMap[t]? = some wf.workflowId ∧
      w.coord.taskSpecCache[t]? = wf.findTask t := by
  obtain ⟨r, hr, hown⟩ := ownerOf_eq_some.mp (hold.owner t ht)
  have hmap := h.active t r hr (by rw [hown]; exact hrun)
  obtain ⟨id, hid⟩ := (Table.mem_iff_get _ _).mp hmap
  obtain ⟨wf', hwf', hin, hspec, _⟩ := h.cached.owner t id hid
  have heq : id = wf.workflowId :=
    (h.sound.coherent.linked.owner_eq hwf' hin hr).symm.trans hown
  subst heq
  rw [hold.spec] at hwf'
  cases hwf'
  exact ⟨hid, hspec⟩

/-- Which tasks of a running workflow are in the queue. -/
theorem Inv.mem_queue_iff (h : Inv P w) {t : String} (ht : w.store.InRunning t) :
    t ∈ w.coord.readyQueue ↔ w.store.stateOf t = some .queued := by
  refine ⟨h.agree.queued t, fun hq => ?_⟩
  obtain ⟨r, hr, hst⟩ := stateOf_eq_some.mp hq
  obtain ⟨id, hown, hrun⟩ := ht
  rw [ownerOf_of_get hr] at hown
  exact h.agree.listed t r hr hst (by rw [Option.some.inj hown]; exact hrun)

/-- The task IDs of a stored workflow with records are keys. -/
theorem Store.Holds.keys {s : Store} {wf : WorkflowSpec} (hold : s.Holds wf)
    (hk : s.Keyed) : ∀ t ∈ wf.taskIDs, validKey t = true := by
  intro t ht
  obtain ⟨r, hr, _⟩ := ownerOf_eq_some.mp (hold.owner t ht)
  exact (hk t r hr).2

/-- What remains of a workflow after its tasks were taken from their workers
is fixed by the world before. -/
theorem Reclaims.sameFor {P₁ P₂ : WorkflowSpec → Prop} {w₁ w₂ : World}
    {wf : WorkflowSpec} (hold : w.store.Holds wf)
    (hrun : w.store.workflowStateOf wf.workflowId = some .running)
    (h₁ : Reclaims w w₁) (h₂ : Reclaims w w₂) (hinv₁ : Inv P₁ w₁) (hinv₂ : Inv P₂ w₂)
    (hpc₁ : PolicyCached w₁) (hpc₂ : PolicyCached w₂)
    (hidle₁ : ∀ t, w₁.store.stateOf t ≠ some .running)
    (hidle₂ : ∀ t, w₂.store.stateOf t ≠ some .running) : SameFor wf w₁ w₂ := by
  have hin : ∀ t ∈ wf.taskIDs, w.store.InRunning t :=
    fun t ht => ⟨wf.workflowId, hold.owner t ht, hrun⟩
  have hrecords : ∀ t ∈ wf.taskIDs,
      w₁.store.taskState[t]?.map TaskStateRecord.upToExecution
        = w₂.store.taskState[t]?.map TaskStateRecord.upToExecution := by
    intro t ht
    rw [upToExecution_eq (hidle₁ t), upToExecution_eq (hidle₂ t), h₁.record t (hin t ht),
      h₂.record t (hin t ht)]
  have hstate : ∀ t ∈ wf.taskIDs, w₁.store.stateOf t = w₂.store.stateOf t := by
    intro t ht
    have hst := congrArg (Option.map (·.state)) (hrecords t ht)
    rw [Option.map_map, Option.map_map] at hst
    exact hst
  have hholds : ∀ {w' : World}, Reclaims w w' → w'.store.Holds wf ∧
      w'.store.workflowStateOf wf.workflowId = some .running := by
    intro w' h
    refine ⟨⟨by rw [h.workflows]; exact hold.spec, fun t ht => ?_⟩, ?_⟩
    · exact (h.ownerOf (hin t ht)).trans (hold.owner t ht)
    · exact (h.workflowStateOf _).trans hrun
  obtain ⟨hold₁, hrun₁⟩ := hholds h₁
  obtain ⟨hold₂, hrun₂⟩ := hholds h₂
  refine ⟨hrecords, ?_, ?_, ?_, ?_⟩
  · intro t ht
    rw [hinv₁.mem_queue_iff (h₁.inRunning (hin t ht)),
      hinv₂.mem_queue_iff (h₂.inRunning (hin t ht)), hstate t ht]
  · intro t ht
    rw [(hinv₁.cached_of_running hold₁ hrun₁ ht).2, (hinv₂.cached_of_running hold₂ hrun₂ ht).2]
  · intro t ht
    rw [(hinv₁.cached_of_running hold₁ hrun₁ ht).1, (hinv₂.cached_of_running hold₂ hrun₂ ht).1]
  · rw [hpc₁ _ wf hold₁.spec (hold₁.keys hinv₁.sound.coherent.linked.keyed) hrun₁,
      hpc₂ _ wf hold₂.spec (hold₂.keys hinv₂.sound.coherent.linked.keyed) hrun₂]

/-- After every run that reuses no ID, a restart and the death of all workers
leave no task with a worker, and agree on every accepted workflow that is
stored as `RUNNING`. -/
theorem restart_same_as_deaths (env : Env) {calls : List Call}
    (hids : NeverReused (submitted calls)) (deaths : List (RangeOrder String × String))
    (hall : ∀ t k : String, (runCalls env calls).coord.runningTasks[t]? = some k →
      ∃ d ∈ deaths, d.2 = k) :
    Idle (runCalls env (calls ++ [.restart])) ∧
      Idle (runCalls env (calls ++ deathsOf deaths)) ∧
      ∀ wf, AcceptedIn env calls wf →
        (runCalls env calls).store.workflowStateOf wf.workflowId = some .running →
        SameFor wf (runCalls env (calls ++ [.restart]))
          (runCalls env (calls ++ deathsOf deaths)) := by
  have h := inv_runCalls env hids
  have hids₁ : NeverReused (submitted (calls ++ [.restart])) := by
    rw [submitted_append]
    simpa [Call.submits] using hids
  have hids₂ : NeverReused (submitted (calls ++ deathsOf deaths)) := by
    rw [submitted_deathsOf]
    exact hids
  have hinv₁ := inv_runCalls env hids₁
  have hinv₂ := inv_runCalls env hids₂
  have heff₁ := effect_runCalls env hids₁
  generalize (Call.restart.exec env (runCalls env calls)).1 = reply at heff₁
  have hrestart : RestartEffect env (runCalls env calls)
      (runCalls env (calls ++ [.restart])) := by
    cases heff₁ with
    | restart heff => exact heff
  obtain ⟨hdeaths, hleft⟩ := reclaims_deathsOf env hids deaths
  have hidle₁ : Idle (runCalls env (calls ++ [.restart])) := by
    have hcoord := Requeues.coord hrestart
    obtain ⟨_, _, hr, ha, _⟩ := load_spec h.sound.coherent
    exact ⟨by rw [hcoord]; exact hr, by rw [hcoord]; exact ha⟩
  have hempty₂ : ∀ t, t ∉ (runCalls env (calls ++ deathsOf deaths)).coord.runningTasks := by
    intro t ht
    obtain ⟨k, hk⟩ := (Table.mem_iff_get _ _).mp ht
    obtain ⟨hbefore, hother⟩ := hleft t k hk
    obtain ⟨d, hd, hdk⟩ := hall t k hbefore
    exact hother d hd hdk
  have hidle₂ : Idle (runCalls env (calls ++ deathsOf deaths)) := by
    refine ⟨?_, ?_⟩ <;> apply Std.ExtTreeMap.ext_getElem? <;> intro t
    · rw [(Table.not_mem_iff_get _ _).mp (hempty₂ t)]
      simp
    · rw [(Table.not_mem_iff_get _ _).mp fun ht => hempty₂ t ((hinv₂.agree.keys t).mpr ht)]
      simp
  refine ⟨hidle₁, hidle₂, fun wf hacc hrun => ?_⟩
  exact (hrestart.reclaims h.sound.coherent.linked.keyed).sameFor (hacc.stored hids) hrun
    hdeaths hinv₁ hinv₂ (policyCached_runCalls env _ hids₁) (policyCached_runCalls env _ hids₂)
    (hrestart.not_running h.sound.coherent.linked.keyed)
    (fun t hst => hempty₂ t (hinv₂.running t hst))

/-- One task runs, on the worker `k`. -/
def oneRunningRun : List Call :=
  [.submitWorkflow .asListed (.pair .failFast 3), .getReadyTask "k"]

theorem restart_same_as_deaths_oneRunningRun :
    SameFor (.pair .failFast 3) (runCalls .counting (oneRunningRun ++ [.restart]))
      (runCalls .counting (oneRunningRun ++ deathsOf [(.asListed _, "k")])) := by
  refine (restart_same_as_deaths .counting (neverReused_of_one rfl) [(.asListed _, "k")]
    ?_).2.2 (.pair .failFast 3) ⟨.asListed, .status (.ok ()), List.mem_cons_self, rfl⟩
    (by decide)
  intro t k ht
  have hrunning : (runCalls .counting oneRunningRun).coord.runningTasks
      = (∅ : Table String String).insert "a" "k" := by decide
  rw [hrunning, Table.get_insert] at ht
  split at ht
  · cases ht
    exact ⟨_, List.mem_singleton_self _, rfl⟩
  · simp at ht

end DagScheduler
