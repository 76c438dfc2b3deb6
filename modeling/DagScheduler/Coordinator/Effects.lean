import DagScheduler.Coordinator.Skip

/-!
# What each operation does

`Inv` is the invariant between two operations: the store is sound, the ready
queue and the maps of running tasks agree with it (`Agree`), and the caches
agree with the stored specifications (`Cached`) and cover the running
workflows.

For each operation this module defines its effect, a relation between the
world before and the world after, and proves that the operation has the
effect whenever `Inv` holds before it.  The proofs walk through the program
once, with `Sound` as the invariant between two actions.  All later modules
reason about effects only.

The effects here are those of the operations on submitted work:
`CompleteEffect`, `FailEffect`, `CancelEffect`, `DeadWorkerEffect` and
`ReadyEffect`.  Submissions and restarts are in `Coordinator.Startup`.
-/

namespace DagScheduler

open Lib Program Store

/-! ## The invariant between two operations -/

/-- The ready queue and the maps of running tasks agree with the store. -/
structure Agree (s : Store) (c : Coordinator) : Prop where
  nodup : c.readyQueue.Nodup
  queued : ∀ t ∈ c.readyQueue, s.stateOf t = some .queued
  listed : ∀ (t : String) (r : TaskStateRecord), s.taskState[t]? = some r →
    r.state = .queued → s.workflowStateOf r.workflowID = some .running →
    t ∈ c.readyQueue
  keys : ∀ t, t ∈ c.runningTasks ↔ t ∈ c.assignedTasks
  assigned : ∀ t e : String, c.assignedTasks[t]? = some e →
    ∃ r, s.taskState[t]? = some r ∧ r.executionID = e ∧
      (r.state = .running ∨ r.state = .skipped) ∧ s.DepsComplete t ∧
      t ∈ c.taskWorkflowMap

/-- The caches agree with the stored specifications. -/
structure Cached (s : Store) (c : Coordinator) : Prop where
  owner : ∀ t id : String, c.taskWorkflowMap[t]? = some id →
    ∃ wf, s.workflows[id]? = some wf ∧ t ∈ wf.taskIDs ∧
      c.taskSpecCache[t]? = wf.findTask t ∧
      c.workflowFailurePolicy[id]? = some wf.failurePolicy
  spec : ∀ t, t ∈ c.taskSpecCache → t ∈ c.taskWorkflowMap

/-- The invariant between two operations.  `running` says that a task that
is stored as `RUNNING` has a worker, and `active` that the tasks of a running
workflow are in the caches. -/
structure Inv (P : WorkflowSpec → Prop) (w : World) : Prop where
  sound : w.store.Sound P
  agree : Agree w.store w.coord
  running : ∀ t, w.store.stateOf t = some .running → t ∈ w.coord.runningTasks
  cached : Cached w.store w.coord
  active : ∀ (t : String) (r : TaskStateRecord), w.store.taskState[t]? = some r →
    w.store.workflowStateOf r.workflowID = some .running →
    t ∈ w.coord.taskWorkflowMap

/-- What `Inv` knows of a task that is assigned. -/
theorem Inv.assigned {P : WorkflowSpec → Prop} {w : World} (h : Inv P w)
    {t e : String} (ht : w.coord.assignedTasks[t]? = some e) :
    ∃ r wf, w.store.taskState[t]? = some r ∧ r.executionID = e ∧
      (r.state = .running ∨ r.state = .skipped) ∧ w.store.DepsComplete t ∧
      w.store.workflows[r.workflowID]? = some wf ∧ t ∈ wf.taskIDs ∧
      w.coord.taskWorkflowMap[t]? = some r.workflowID ∧
      w.coord.taskSpecCache[t]? = wf.findTask t ∧
      w.coord.workflowFailurePolicy[r.workflowID]? = some wf.failurePolicy := by
  obtain ⟨r, hr, he, hst, hdeps, hmap⟩ := h.agree.assigned t e ht
  obtain ⟨id, hid⟩ := (Table.mem_iff_get _ _).mp hmap
  obtain ⟨wf, hwf, htw, hspec, hpol⟩ := h.cached.owner t id hid
  have hown := h.sound.coherent.linked.owner_eq hwf htw hr
  subst hown
  exact ⟨r, wf, hr, he, hst, hdeps, hwf, htw, hid, hspec, hpol⟩

/-! ## The end of a workflow -/

/-- The workflow `id` gets the state `st`. -/
structure Store.Closes (id : String) (st : WorkflowState) (s s' : Store) : Prop where
  workflows : s'.workflows = s.workflows
  taskState : s'.taskState = s.taskState
  this : ∃ r, s'.workflowState[id]? = some r ∧ r.workflowID = id ∧ r.state = st
  other : ∀ i : String, i ≠ id → s'.workflowState[i]? = s.workflowState[i]?

/-- Every task of the workflow is over. -/
def Store.AllOver (id : String) (s : Store) : Prop :=
  ∀ (u : String) (r : TaskStateRecord), s.taskState[u]? = some r →
    r.workflowID = id → r.state.terminal = true

/-- Some task of the workflow is `FAILED`. -/
def Store.SomeFailed (id : String) (s : Store) : Prop :=
  ∃ (u : String) (r : TaskStateRecord), s.taskState[u]? = some r ∧
    r.workflowID = id ∧ r.state = .failed

/-- `checkWorkflowCompletion` closes a workflow whose tasks are all over, and
leaves any other workflow alone. -/
inductive Store.Checked (id : String) (s : Store) : Store → Prop where
  | stillOpen : ¬ s.AllOver id → Checked id s s
  | failed {s' : Store} : s.AllOver id → s.SomeFailed id →
      Closes id .failed s s' → Checked id s s'
  | complete {s' : Store} : s.AllOver id → ¬ s.SomeFailed id →
      Closes id .complete s s' → Checked id s s'

theorem Store.Closes.setWorkflowState {s : Store} (ht : s.Tracked) (id : String)
    (st : WorkflowState) (now : Int64) :
    Closes id st s (s.setWorkflowState id
      (nextWorkflowState now id s.workflowState[id]? st)) := by
  refine ⟨rfl, rfl, ⟨nextWorkflowState now id s.workflowState[id]? st, ?_, ?_,
    nextWorkflowState_state _ _ _ _⟩, ?_⟩
  · rw [get_setWorkflowState, if_pos rfl]
  · exact nextWorkflowState_workflowID _ _ _ _ fun r hr => (ht id r hr).1
  · intro i hi
    rw [get_setWorkflowState, if_neg (Ne.symm hi)]

theorem Store.Sound.closes {P : WorkflowSpec → Prop} {s : Store} (hs : s.Sound P)
    (id : String) {st : WorkflowState} (hst : st ≠ .running) (now : Int64) :
    (s.setWorkflowState id
      (nextWorkflowState now id s.workflowState[id]? st)).Sound P := by
  refine hs.of_workflows (hs.coherent.setWorkflowState ?_ ?_) rfl
  · exact nextWorkflowState_workflowID _ _ _ _ fun r hr =>
      (hs.coherent.tracked id r hr).1
  · rw [nextWorkflowState_state]
    exact fun h => absurd h hst

variable {env : Env} {P : WorkflowSpec → Prop} {w : World}

theorem wp_checkWorkflowCompletion (hs : Keeps P w) {id : String}
    (hk : validKey id = true) :
    (checkWorkflowCompletion id).wp (Action.handle env) (Keeps P)
      (fun _ w' => Checked id w.store w'.store ∧ w'.coord = w.coord ∧
        w'.uuids = w.uuids) w := by
  rw [checkWorkflowCompletion, Prog.wp_bind]
  apply wp_view hs
  rw [Prog.wp_when]
  have hover : w.store.isWorkflowComplete id = true ↔ w.store.AllOver id :=
    isWorkflowComplete_iff
  constructor
  · intro hdone
    rw [Prog.wp_bind]
    apply wp_view hs
    rw [Prog.wp_bind]
    have hfailed : (w.store.getTaskStatusesForWorkflow id).any
        (·.state = .failed) = true ↔ w.store.SomeFailed id := any_failed_iff
    by_cases hf : w.store.SomeFailed id
    · rw [if_pos (hfailed.mpr hf)]
      refine wp_update (.updateWorkflowState id .failed)
        (commit_updateWorkflowState hk _ _ _) (hs.closes id (by simp) _) ?_
      exact ⟨.failed (hover.mp hdone) hf
        (Closes.setWorkflowState hs.coherent.tracked id _ _), rfl, rfl⟩
    · rw [if_neg fun h => hf (hfailed.mp h)]
      refine wp_update (.updateWorkflowState id .complete)
        (commit_updateWorkflowState hk _ _ _) (hs.closes id (by simp) _) ?_
      exact ⟨.complete (hover.mp hdone) hf
        (Closes.setWorkflowState hs.coherent.tracked id _ _), rfl, rfl⟩
  · intro hopen
    exact ⟨.stillOpen fun h => hopen (hover.mpr h), rfl, rfl⟩

/-! ## `CompleteTask` -/

/-- What `CompleteTask` does. -/
inductive CompleteEffect (w : World) (t e output : String) :
    Except CallError Unit → World → Prop where
  | ignored {result : Except CallError Unit} :
      w.coord.assignedTasks[t]? ≠ some e →
      (result = .ok () ↔ ∃ r, w.store.taskState[t]? = some r ∧
        r.state = .complete ∧ r.executionID = e) →
      CompleteEffect w t e output result w
  | accepted {r : TaskStateRecord} {now : Int64} {s : Store}
      {ready : List String} {w' : World} :
      w.coord.assignedTasks[t]? = some e → w.store.taskState[t]? = some r →
      Completion now t output r w.store s ready →
      Checked r.workflowID s w'.store →
      w'.coord = (w.coord.forget t).enqueue ready → w'.uuids = w.uuids →
      CompleteEffect w t e output (.ok ()) w'

theorem wp_completeTask (h : Inv P w) (t e output : String) :
    (completeTask t e output).wp (Action.handle env) (Keeps P)
      (CompleteEffect w t e output) w := by
  rw [completeTask, Prog.wp_bind]
  apply wp_lockedRead h.sound
  cases ha : w.coord.assignedTasks[t]? with
  | none =>
    dsimp only
    rw [Prog.wp_bind]
    apply wp_view h.sound
    have hne : w.coord.assignedTasks[t]? ≠ some e := by simp [ha]
    cases hr : w.store.taskState[t]? with
    | none =>
      simp only [getTask, hr]
      exact .ignored hne (by simp [hr])
    | some r =>
      simp only [getTask, hr]
      by_cases hc : r.state = .complete
      · by_cases he : r.executionID = e
        · rw [if_pos hc, if_neg (by simp [he])]
          exact .ignored hne (by simp [hr, hc, he])
        · rw [if_pos hc, if_pos he]
          exact .ignored hne (by simp [hr, hc, he])
      · rw [if_neg hc]
        exact .ignored hne (by simp [hr, hc])
  | some e' =>
    dsimp only
    obtain ⟨r, wf, hr, he', hst, hdeps, hwf, _, hmap, _⟩ := h.assigned ha
    have hnc : r.state ≠ .complete := by
      rcases hst with hst | hst <;> simp [hst]
    by_cases hee : e' = e
    · subst hee
      rw [if_neg (by simp)]
      have hl := h.sound.coherent.linked
      obtain ⟨s, ready, hcommit, hcomp⟩ :=
        commit_completeTask hl.keyed.validKeys hr he' hnc (env.now w.ticks) output
      have hs : s.Sound P := h.sound.of_workflows
        (h.sound.coherent.completion hcomp hr hnc hdeps) hcomp.workflows
      have hkey := hl.workflow _ _ hwf
      refine wp_tryUpdate (.completeTask t e' output) hcommit hs ?_
      rw [Prog.wp_bind]
      apply wp_lockedWrite hs
      rw [Prog.wp_bind]
      apply wp_lockedRead hs
      have hid : ((w.coord.forget t).enqueue ready).taskWorkflowMap.getD t ""
          = r.workflowID := by
        rw [Table.getD_eq]
        simp [Coordinator.enqueue, Coordinator.forget, hmap]
      have hne : r.workflowID ≠ "" := (validKey_iff.mp hkey.2.1).1
      simp only [World.wrote_coord, hid]
      rw [Prog.wp_bind, Prog.wp_when]
      refine ⟨fun _ => ?_, fun hc => absurd hne hc⟩
      refine Prog.wp_mono ?_ _ (wp_checkWorkflowCompletion hs hkey.2.1)
      rintro _ w' ⟨hchk, hcoord, huuids⟩
      exact .accepted ha hr hcomp hchk hcoord huuids
    · rw [if_pos hee]
      refine .ignored (by simp [ha, hee]) ?_
      simp [hr, hnc]

/-! ## `FailTask` -/

/-- The open tasks of `Q` are given up, and leave the ready queue. -/
structure GivesUp (Q : String → Prop) (s : Store) (c : Coordinator) (s' : Store)
    (c' : Coordinator) : Prop where
  store : Skips Q s s'
  coord : ∃ gone, (∀ u, u ∈ gone ↔ Q u ∧ s.isOpen u) ∧ c' = c.dropFromQueue gone

theorem Coordinator.dropFromQueue_nil (c : Coordinator) : c.dropFromQueue [] = c := by
  simp [dropFromQueue]

/-- What `applyFailurePolicy` does after the failure of `t`, from the store
`s` and the memory `c`. -/
inductive PolicyEffect (id t : String) (s : Store) (c : Coordinator) (w' : World) :
    FailurePolicy → Prop where
  | failFast {s' : Store} : GivesUp (fun u => s.ownerOf u = some id) s c s' w'.coord →
      Closes id .failed s' w'.store → PolicyEffect id t s c w' .failFast
  | below {policy : FailurePolicy} {s' : Store} :
      policy = .skipDownstream ∨ policy = .continueIndependent →
      GivesUp (Ancestor s.depsOf t) s c s' w'.coord →
      Checked id s' w'.store → PolicyEffect id t s c w' policy
  | unrecognized {value : Int32} {h : value ≠ 0 ∧ value ≠ 1 ∧ value ≠ 2} :
      w'.store = s → w'.coord = c →
      PolicyEffect id t s c w' (.unrecognized value h)

theorem wp_cancelWorkflowTasks {β : Type} (hs : Keeps P w) (id : String)
    {k : Except StoreError (List String) → Program β} {Q : β → World → Prop}
    (hk : ∀ s cancelled, Skips (fun u => w.store.ownerOf u = some id) w.store s →
      s.Sound P →
      (∀ u, u ∈ cancelled ↔ w.store.ownerOf u = some id ∧ w.store.isOpen u) →
      (k (.ok cancelled)).wp (Action.handle env) (Keeps P) Q (w.wrote s)) :
    (update (.cancelWorkflowTasks id) >>= k).wp (Action.handle env) (Keeps P) Q w := by
  obtain ⟨s, cancelled, hcommit, hskips, hmem⟩ :=
    commit_cancelWorkflowTasks hs.coherent.linked.keyed (env.now w.ticks) id
  have hs' : s.Sound P :=
    hs.of_workflows (hs.coherent.skips hskips) hskips.workflows
  rw [Prog.wp_bind]
  exact wp_update (.cancelWorkflowTasks id) hcommit hs'
    (hk s cancelled hskips hs' hmem)

/-- `SKIP_DOWNSTREAM` and `CONTINUE_INDEPENDENT` have the same code. -/
theorem applyFailurePolicy_below {policy : FailurePolicy}
    (hpol : policy = .skipDownstream ∨ policy = .continueIndependent) (id t : String) :
    applyFailurePolicy id t policy = skipDownstreamTasks t >>= afterSkip id := by
  rcases hpol with rfl | rfl <;> rfl

theorem wp_applyFailurePolicy (hs : Keeps P w) {id t : String}
    (hk : validKey id = true) {r : TaskStateRecord}
    (hr : w.store.taskState[t]? = some r) (policy : FailurePolicy) :
    (applyFailurePolicy id t policy).wp (Action.handle env) (Keeps P)
      (fun _ w' => PolicyEffect id t w.store w.coord w' policy ∧
        w'.uuids = w.uuids) w := by
  have hbelow : ∀ policy', policy' = .skipDownstream ∨
      policy' = .continueIndependent →
      (applyFailurePolicy id t policy').wp (Action.handle env) (Keeps P)
        (fun _ w' => PolicyEffect id t w.store w.coord w' policy' ∧
          w'.uuids = w.uuids) w := by
    intro policy' hpol
    rw [applyFailurePolicy_below hpol, Prog.wp_bind]
    refine Prog.wp_mono ?_ _ (wp_skipDownstreamTasks hs hr)
    rintro _ w₁ ⟨skipped, rfl, hskip⟩
    have hs₁ : Keeps P w₁ :=
      hs.of_workflows (hs.coherent.skips hskip.store) hskip.store.workflows
    have hfinish : ∀ w₂ : World, w₂.store = w₁.store → w₂.uuids = w.uuids →
        w₂.coord = w.coord.dropFromQueue skipped →
        (checkWorkflowCompletion id).wp (Action.handle env) (Keeps P)
          (fun _ w' => PolicyEffect id t w.store w.coord w' policy' ∧
            w'.uuids = w.uuids) w₂ := by
      intro w₂ hst huu hco
      have hs₂ : Keeps P w₂ := by
        rw [Keeps, hst]
        exact hs₁
      refine Prog.wp_mono ?_ _ (wp_checkWorkflowCompletion hs₂ hk)
      rintro _ w' ⟨hchk, hcoord, huuids⟩
      rw [hst] at hchk
      refine ⟨.below hpol ⟨hskip.store, skipped, hskip.skipped, ?_⟩ hchk, ?_⟩
      · rw [hcoord, hco]
      · rw [huuids, huu]
    rw [afterSkip, Prog.wp_bind, Prog.wp_when]
    constructor
    · intro _
      apply wp_lockedWrite hs₁
      exact hfinish _ rfl hskip.uuids (by rw [hskip.coord])
    · intro hnil
      have hnil' : skipped = [] := by simpa using hnil
      refine hfinish w₁ rfl hskip.uuids ?_
      rw [hnil', Coordinator.dropFromQueue_nil, hskip.coord]
  cases policy with
  | failFast =>
    rw [applyFailurePolicy]
    apply wp_cancelWorkflowTasks hs
    intro s cancelled hskips hs' hmem
    dsimp only
    rw [Prog.wp_bind]
    apply wp_lockedWrite hs'
    rw [Prog.wp_bind]
    refine wp_update (.updateWorkflowState id .failed)
      (commit_updateWorkflowState hk _ _ _) (hs'.closes id (by simp) _) ?_
    exact ⟨.failFast ⟨hskips, cancelled, hmem, rfl⟩
      (Closes.setWorkflowState hs'.coherent.tracked id _ _), rfl⟩
  | skipDownstream => exact hbelow _ (.inl rfl)
  | continueIndependent => exact hbelow _ (.inr rfl)
  | unrecognized value hv => exact ⟨.unrecognized rfl rfl, rfl⟩

/-- What `FailTask` does. -/
inductive FailEffect (env : Env) (w : World) (t e errMsg : String) :
    Except CallError Unit → World → Prop where
  | stale : w.coord.assignedTasks[t]? ≠ some e →
      FailEffect env w t e errMsg (.error (.store .staleExecution)) w
  | retried {r : TaskStateRecord} {now : Int64} {w' : World} :
      w.coord.assignedTasks[t]? = some e → w.store.taskState[t]? = some r →
      r.attemptCount + 1 < w.coord.retryLimit t →
      w'.store = w.store.setTask t
        { r with
          state := .queued, executionID := env.uuid w.uuids, lastUpdated := now } →
      w'.coord = (w.coord.forget t).enqueue [t] → w'.uuids = w.uuids + 1 →
      FailEffect env w t e errMsg (.ok ()) w'
  | failed {r : TaskStateRecord} {wf : WorkflowSpec} {now : Int64} {w' : World} :
      w.coord.assignedTasks[t]? = some e → w.store.taskState[t]? = some r →
      ¬ r.attemptCount + 1 < w.coord.retryLimit t →
      w.store.workflows[r.workflowID]? = some wf →
      PolicyEffect r.workflowID t
        (w.store.setTask t
          { r with
            state := .failed, error := errMsg, attemptCount := r.attemptCount + 1,
            lastUpdated := now })
        (w.coord.forget t) w' wf.failurePolicy →
      w'.uuids = w.uuids →
      FailEffect env w t e errMsg (.ok ()) w'

theorem wp_failTask (h : Inv P w) (t e errMsg : String) :
    (failTask t e errMsg).wp (Action.handle env) (Keeps P)
      (FailEffect env w t e errMsg) w := by
  rw [failTask, Prog.wp_bind]
  apply wp_lockedRead h.sound
  by_cases ha : w.coord.assignedTasks[t]? = some e
  · rw [if_neg (by simp [ha])]
    obtain ⟨r, wf, hr, _, hst, hdeps, hwf, _, hmap, _, hpol⟩ := h.assigned ha
    have hnc : r.state ≠ .complete := by
      rcases hst with hst | hst <;> simp [hst]
    have hl := h.sound.coherent.linked
    have hget : w.store.getTask t = .ok r := by simp [getTask, hr]
    rw [Prog.wp_bind]
    apply wp_view h.sound
    rw [hget]
    dsimp only
    rw [Prog.wp_bind]
    apply wp_lockedRead h.sound
    by_cases hlt : r.attemptCount + 1 < w.coord.retryLimit t
    · rw [if_pos hlt, Prog.wp_bind]
      apply wp_newUUID h.sound
      have hs' : Sound P (w.store.setTask t { r with
          state := .queued, executionID := env.uuid w.uuids,
          lastUpdated := env.now w.ticks }) :=
        h.sound.of_workflows
          (h.sound.coherent.setTask hr rfl hnc (by simp) (by simp) (by simp)
            fun _ => hdeps) rfl
      refine wp_tryUpdate (.requeueTask t (env.uuid w.uuids))
        (commit_modifyTask hl.keyed hr _) hs' ?_
      rw [Prog.wp_bind]
      apply wp_lockedWrite hs'
      exact .retried ha hr hlt rfl rfl rfl
    · rw [if_neg hlt]
      have hs' : Sound P (w.store.setTask t { r with
          state := .failed, error := errMsg, attemptCount := r.attemptCount + 1,
          lastUpdated := env.now w.ticks }) :=
        h.sound.of_workflows
          (h.sound.coherent.setTask hr rfl hnc (by simp) (by simp) (by simp)
            fun _ => hdeps) rfl
      refine wp_tryUpdate (.failTask t errMsg (r.attemptCount + 1))
        (commit_modifyTask hl.keyed hr _) hs' ?_
      rw [Prog.wp_bind]
      apply wp_locked hs'
      have hkey := hl.workflow _ _ hwf
      have hid : w.coord.taskWorkflowMap.getD t "" = r.workflowID := by
        rw [Table.getD_eq]
        simp [hmap]
      have hpolicy : w.coord.workflowFailurePolicy.getD r.workflowID .failFast
          = wf.failurePolicy := by
        rw [Table.getD_eq, hpol]
        rfl
      have hne : r.workflowID ≠ "" := (validKey_iff.mp hkey.2.1).1
      simp only [World.wrote_coord, hid, hpolicy]
      rw [Prog.wp_bind, Prog.wp_when]
      refine ⟨fun _ => ?_, fun hc => absurd hne hc⟩
      refine Prog.wp_mono ?_ _ (wp_applyFailurePolicy hs' hkey.2.1
        (by rw [World.wrote_store, get_setTask, if_pos rfl]) _)
      rintro _ w' ⟨heff, huuids⟩
      exact .failed ha hr hlt hwf heff huuids
  · rw [if_pos (by simpa using ha)]
    exact .stale ha

/-! ## `CancelWorkflow` -/

/-- What `CancelWorkflow` does.  An ID that is no key has no tasks, and the
second transaction refuses it. -/
inductive CancelEffect (w : World) (id : String) :
    Except CallError Unit → World → Prop where
  | cancelled {s : Store} {w' : World} : validKey id = true →
      GivesUp (fun u => w.store.ownerOf u = some id) w.store w.coord s w'.coord →
      Closes id .cancelled s w'.store → w'.uuids = w.uuids →
      CancelEffect w id (.ok ()) w'
  | refused {e : CallError} {w' : World} : validKey id = false →
      w'.store = w.store → w'.coord = w.coord → w'.uuids = w.uuids →
      CancelEffect w id (.error e) w'

/-- A traversal that meets no task changes nothing. -/
theorem Store.Skips.eq_of_empty {Q : String → Prop} {s s' : Store}
    (h : Skips Q s s')
    (hQ : ∀ (u : String) (r : TaskStateRecord), s.taskState[u]? = some r → ¬ Q u) :
    s' = s := by
  refine Store.ext h.workflows h.workflowState (Std.ExtTreeMap.ext_getElem? ?_)
  intro u
  cases hr : s.taskState[u]? with
  | none => exact h.absent u hr
  | some r => exact h.miss u r hr fun hc => hQ u r hr hc.1

theorem wp_cancelWorkflow (h : Inv P w) (id : String) :
    (cancelWorkflow id).wp (Action.handle env) (Keeps P) (CancelEffect w id) w := by
  rw [cancelWorkflow, tryUpdate]
  apply wp_cancelWorkflowTasks h.sound
  intro s cancelled hskips hs hmem
  dsimp only
  rw [Prog.wp_bind]
  apply wp_lockedWrite hs
  cases hk : validKey id with
  | true =>
    refine wp_tryUpdate (.updateWorkflowState id .cancelled)
      (commit_updateWorkflowState hk _ _ _) (hs.closes id (by simp) _) ?_
    exact .cancelled hk ⟨hskips, cancelled, hmem, rfl⟩
      (Closes.setWorkflowState hs.coherent.tracked id _ _) rfl
  | false =>
    have hnone : ∀ (u : String) (r : TaskStateRecord),
        w.store.taskState[u]? = some r → ¬ w.store.ownerOf u = some id := by
      intro u r hr hown
      rw [ownerOf_of_get hr] at hown
      obtain ⟨wf, hwf, _⟩ := h.sound.coherent.linked.owned u r hr
      have hvalid := (h.sound.coherent.linked.workflow _ _ hwf).2.1
      rw [Option.some.inj hown, hk] at hvalid
      cases hvalid
    have hgone : cancelled = [] := by
      rw [List.eq_nil_iff_forall_not_mem]
      intro u hu
      obtain ⟨hown, r, hr, _⟩ := (hmem u).mp hu
      exact hnone u r hr hown
    obtain ⟨e, he⟩ := commit_updateWorkflowState_refused hk (env.now (w.ticks + 1))
      .cancelled s
    refine wp_tryUpdate_refused (.updateWorkflowState id .cancelled) he hs ?_
    refine .refused hk (hskips.eq_of_empty hnone) ?_ rfl
    rw [hgone]
    exact Coordinator.dropFromQueue_nil _

/-! ## Requeueing -/

/-- The tasks of `l` are queued again, each with an execution ID that the
generator gave out in between. -/
structure Requeues (env : Env) (l : List String) (w w' : World) : Prop where
  workflows : w'.store.workflows = w.store.workflows
  workflowState : w'.store.workflowState = w.store.workflowState
  absent : ∀ u : String, w.store.taskState[u]? = none →
    w'.store.taskState[u]? = none
  hit : ∀ (u : String) (r : TaskStateRecord), u ∈ l →
    w.store.taskState[u]? = some r → ∃ n now, w.uuids ≤ n ∧ n < w'.uuids ∧
      w'.store.taskState[u]? = some
        { r with state := .queued, executionID := env.uuid n, lastUpdated := now }
  miss : ∀ u : String, u ∉ l → w'.store.taskState[u]? = w.store.taskState[u]?
  coord : w'.coord = w.coord.enqueue l
  uuids : w.uuids ≤ w'.uuids

theorem Requeues.sameShape {env : Env} {l : List String} {w w' : World}
    (h : Requeues env l w w') : SameShape w.store w'.store := by
  refine ⟨h.workflows, ?_⟩
  intro u
  by_cases hu : u ∈ l
  · cases hr : w.store.taskState[u]? with
    | none => rw [h.absent u hr]
    | some r =>
      obtain ⟨n, now, _, _, hget⟩ := h.hit u r hu hr
      rw [hget]
      rfl
  · rw [h.miss u hu]

theorem Coordinator.enqueue_nil (c : Coordinator) : c.enqueue [] = c := by
  simp [enqueue]

theorem Coordinator.enqueue_cons (c : Coordinator) (t : String) (l : List String) :
    c.enqueue (t :: l) = (c.enqueue [t]).enqueue l := by
  simp [enqueue]

/-- The record of `t` after `RequeueTask`. -/
def Store.requeued (s : Store) (t : String) (r : TaskStateRecord) (execID : String)
    (now : Int64) : Store :=
  s.setTask t { r with state := .queued, executionID := execID, lastUpdated := now }

theorem Store.get_requeued_ne {s : Store} {t u : String} (h : u ≠ t)
    (r : TaskStateRecord) (execID : String) (now : Int64) :
    (s.requeued t r execID now).taskState[u]? = s.taskState[u]? := by
  rw [requeued, get_setTask, if_neg (Ne.symm h)]

/-- The tasks of `l` are queued again in the order of `l`, each with the next
execution ID and at the next reading of the clock. -/
structure RequeuesInOrder (env : Env) (l : List String) (w w' : World) : Prop where
  workflows : w'.store.workflows = w.store.workflows
  workflowState : w'.store.workflowState = w.store.workflowState
  hit : ∀ (u : String) (r : TaskStateRecord), u ∈ l →
    w.store.taskState[u]? = some r → w'.store.taskState[u]? = some
      { r with
        state := .queued, executionID := env.uuid (w.uuids + l.idxOf u)
        lastUpdated := env.now (w.ticks + l.idxOf u) }
  miss : ∀ u : String, u ∉ l → w'.store.taskState[u]? = w.store.taskState[u]?
  coord : w'.coord = w.coord.enqueue l
  uuids : w'.uuids = w.uuids + l.length

theorem RequeuesInOrder.requeues {env : Env} {l : List String} {w w' : World}
    (h : RequeuesInOrder env l w w') (hrec : ∀ u ∈ l, u ∈ w.store.taskState) :
    Requeues env l w w' := by
  refine ⟨h.workflows, h.workflowState, ?_, ?_, h.miss, h.coord, ?_⟩
  · intro u hu
    have hnot : u ∉ l := fun hin =>
      (Table.not_mem_iff_get _ _).mpr hu (hrec u hin)
    exact (h.miss u hnot).trans hu
  · intro u r hu hr
    have hlt := List.idxOf_lt_length_of_mem hu
    exact ⟨_, _, by omega, by rw [h.uuids]; omega, h.hit u r hu hr⟩
  · rw [h.uuids]
    omega

/-- The first task of the list, then the others. -/
theorem RequeuesInOrder.cons {env : Env} {t : String} {l : List String}
    {r : TaskStateRecord} {w w' : World} (hnot : t ∉ l)
    (hr : w.store.taskState[t]? = some r)
    (h : RequeuesInOrder env l
      { store := w.store.requeued t r (env.uuid w.uuids) (env.now w.ticks)
        coord := w.coord.enqueue [t]
        ticks := w.ticks + 1
        uuids := w.uuids + 1 } w') : RequeuesInOrder env (t :: l) w w' := by
  refine ⟨h.workflows, h.workflowState, ?_, ?_, ?_, ?_⟩
  · intro u ru hu hru
    by_cases hut : u = t
    · subst hut
      rw [hr] at hru
      cases hru
      rw [h.miss u hnot, List.idxOf_cons_self]
      exact (get_setTask _ _ _ _).trans (if_pos rfl)
    · have hin : u ∈ l := (List.mem_cons.mp hu).resolve_left hut
      rw [h.hit u ru hin ((get_requeued_ne hut _ _ _).trans hru),
        List.idxOf_cons_ne _ (Ne.symm hut)]
      simp only [Nat.succ_eq_add_one, Nat.add_assoc, Nat.add_comm 1]
  · intro u hu
    rw [List.mem_cons, not_or] at hu
    rw [h.miss u hu.2]
    exact get_requeued_ne hu.1 _ _ _
  · rw [h.coord, Coordinator.enqueue_cons _ t l]
  · rw [h.uuids, List.length_cons]
    dsimp only
    omega

/-- The loop keeps `K`, if the requeueing of one task does.  `C` is what a
task needs for it, and the other tasks keep what they need. -/
theorem wp_requeueAll_of {K : Store → Prop} {C : Store → String → Prop}
    (hkeyed : ∀ s, K s → s.Keyed)
    (hstep : ∀ (s : Store) (t execID : String) (now : Int64), K s → C s t →
      ∃ r, s.taskState[t]? = some r ∧ K (s.requeued t r execID now) ∧
        ∀ u, u ≠ t → C s u → C (s.requeued t r execID now) u)
    (l : List String) :
    ∀ {w : World}, K w.store → l.Nodup → (∀ u ∈ l, C w.store u) →
      (requeueAll l).wp (Action.handle env) (fun w => K w.store)
        (fun _ w' => RequeuesInOrder env l w w') w := by
  induction l with
  | nil =>
    intro w _ _ _
    exact ⟨rfl, rfl, by simp, fun _ _ => rfl, (Coordinator.enqueue_nil _).symm, rfl⟩
  | cons t l ih =>
    intro w hs hnd hcan
    rw [List.nodup_cons] at hnd
    obtain ⟨r, hr, hs', hothers⟩ := hstep w.store t (env.uuid w.uuids)
      (env.now w.ticks) hs (hcan t (by simp))
    rw [requeueAll, Prog.wp_bind]
    refine ⟨hs, ?_⟩
    rw [Prog.wp_ret, Prog.wp_bind]
    refine wp_update (.requeueTask t (env.uuid w.uuids))
      (commit_modifyTask (hkeyed _ hs) hr _) hs' ?_
    dsimp only
    let w₁ : World :=
      { store := w.store.requeued t r (env.uuid w.uuids) (env.now w.ticks)
        coord := w.coord.enqueue [t]
        ticks := w.ticks + 1
        uuids := w.uuids + 1 }
    have hrest := ih (w := w₁) hs' hnd.2 ?_
    · have hall : (requeueAll l).wp (Action.handle env) (fun w => K w.store)
          (fun _ w' => RequeuesInOrder env (t :: l) w w') w₁ :=
        Prog.wp_mono (fun _ _ h => h.cons hnd.1 hr) _ hrest
      rw [Prog.wp_bind]
      exact ⟨hs', hall⟩
    · intro u hu
      exact hothers u (fun he => hnd.1 (he ▸ hu)) (hcan u (by simp [hu]))

theorem wp_requeueAll (l : List String) {w : World} (hs : Keeps P w) (hnd : l.Nodup)
    (hrec : ∀ u ∈ l, ∃ r, w.store.taskState[u]? = some r ∧ r.state ≠ .complete ∧
      w.store.DepsComplete u) :
    (requeueAll l).wp (Action.handle env) (Keeps P)
      (fun _ w' => Requeues env l w w') w := by
  refine Prog.wp_mono ?_ _ (wp_requeueAll_of (K := Sound P)
    (C := fun s u => ∃ r, s.taskState[u]? = some r ∧ r.state ≠ .complete ∧ s.DepsComplete u)
    (fun s h => h.coherent.linked.keyed) ?_ l hs hnd hrec)
  · intro _ w' h
    apply h.requeues
    intro u hu
    obtain ⟨r, hr, _⟩ := hrec u hu
    exact (Table.mem_iff_get _ _).mpr ⟨r, hr⟩
  · intro s t execID now hs hcan
    obtain ⟨r, hr, hnc, hdeps⟩ := hcan
    refine ⟨r, hr, hs.of_workflows
      (hs.coherent.setTask hr rfl hnc (by simp) (by simp) (by simp) fun _ => hdeps) rfl, ?_⟩
    intro u hut hcan
    obtain ⟨ru, hru, hunc, hudeps⟩ := hcan
    refine ⟨ru, (get_requeued_ne hut _ _ _).trans hru, hunc, ?_⟩
    have hshape : SameShape s (s.requeued t r execID now) := sameShape_setTask hr rfl
    refine hudeps.mono hshape.depsOf ?_
    intro v hv
    obtain ⟨rv, hrv, hvc⟩ := isComplete_iff.mp hv
    have hvt : v ≠ t := by
      rintro rfl
      rw [hr] at hrv
      cases hrv
      exact hnc hvc
    exact isComplete_iff.mpr ⟨rv, (get_requeued_ne hvt _ _ _).trans hrv, hvc⟩

/-! ## `HandleDeadWorker` -/

/-- What `HandleDeadWorker` does: it takes the tasks of the worker out of
the maps and queues them again. -/
structure DeadWorkerEffect (env : Env) (workerID : String) (w w' : World) :
    Prop where
  claimed : ∃ (l : List String) (w₁ : World), l.Nodup ∧
    (∀ u, u ∈ l ↔ w.coord.runningTasks[u]? = some workerID) ∧
    Requeues env l { w with coord := l.foldl Coordinator.forget w.coord } w₁ ∧
    w' = { w₁ with
      coord := { w₁.coord with
        heartbeat := w₁.coord.heartbeat.removeWorker workerID } }

theorem wp_handleDeadWorker (h : Inv P w) (order : RangeOrder String)
    (workerID : String) :
    (handleDeadWorker order workerID).wp (Action.handle env) (Keeps P)
      (fun result w' => result = .ok () ∧ DeadWorkerEffect env workerID w w') w := by
  rw [handleDeadWorker, Prog.wp_bind]
  apply wp_locked h.sound
  let l := (order.visit w.coord.runningTasks.keys).filter
    (fun u => w.coord.runningTasks[u]? = some workerID)
  have hnd : l.Nodup := (order.nodup_visit (Table.nodup_keys _)).filter _
  have hmem : ∀ u, u ∈ l ↔ w.coord.runningTasks[u]? = some workerID := by
    intro u
    rw [List.mem_filter, RangeOrder.mem_visit, Std.ExtTreeMap.mem_keys,
      decide_eq_true_eq]
    exact ⟨fun hu => hu.2, fun hu => ⟨(Table.mem_iff_get _ _).mpr ⟨_, hu⟩, hu⟩⟩
  rw [Prog.wp_bind]
  refine Prog.wp_mono ?_ _ (Prog.wp_and_inv h.sound (wp_requeueAll l
    (w := { w with coord := l.foldl Coordinator.forget w.coord }) h.sound hnd ?_))
  · rintro _ w₁ ⟨hreq, hs₁⟩
    rw [Prog.wp_bind]
    apply wp_lockedWrite hs₁
    exact ⟨rfl, l, w₁, hnd, hmem, hreq, rfl⟩
  · intro u hu
    have hrun : u ∈ w.coord.runningTasks :=
      (Table.mem_iff_get _ _).mpr ⟨workerID, (hmem u).mp hu⟩
    obtain ⟨e, he⟩ := (Table.mem_iff_get _ _).mp ((h.agree.keys u).mp hrun)
    obtain ⟨r, hr, _, hst, hdeps, _⟩ := h.agree.assigned u e he
    refine ⟨r, hr, ?_, hdeps⟩
    rcases hst with hst | hst <;> simp [hst]

/-! ## `GetReadyTask` -/

/-- What `GetReadyTask` does. -/
inductive ReadyEffect (env : Env) (w : World) (workerID : String) :
    Option TaskAssignment → World → Prop where
  | empty : w.coord.readyQueue = [] → ReadyEffect env w workerID none w
  | unknown {t : String} {rest : List String} :
      w.coord.readyQueue = t :: rest → t ∉ w.coord.taskSpecCache →
      ReadyEffect env w workerID none
        { w with coord := { w.coord with readyQueue := rest } }
  | assigned {t : String} {rest : List String} {spec : TaskSpec}
      {r : TaskStateRecord} {now : Int64} {w' : World} :
      w.coord.readyQueue = t :: rest → w.coord.taskSpecCache[t]? = some spec →
      w.store.taskState[t]? = some r →
      w'.store = w.store.setTask t
        { r with
          state := .running, executionID := env.uuid w.uuids, lastUpdated := now } →
      w'.coord = { w.coord with
        readyQueue := rest
        runningTasks := w.coord.runningTasks.insert t workerID
        assignedTasks := w.coord.assignedTasks.insert t (env.uuid w.uuids) } →
      w'.uuids = w.uuids + 1 →
      ReadyEffect env w workerID (some
        { taskId := t
          executionId := env.uuid w.uuids
          command := spec.command
          env := spec.env
          timeoutSeconds := spec.timeoutSeconds }) w'

theorem wp_getReadyTask (h : Inv P w) (workerID : String) :
    (getReadyTask workerID).wp (Action.handle env) (Keeps P)
      (ReadyEffect env w workerID) w := by
  rw [getReadyTask, Prog.wp_act]
  have hcases : ReadyCases env w workerID (w.getReadyTask env workerID) :=
    World.getReadyTask_cases h.sound.coherent.linked.keyed workerID
  have hact : Action.handle env (Action.getReadyTask workerID) w
      = w.getReadyTask env workerID := rfl
  rw [hact]
  generalize w.getReadyTask env workerID = res at hcases
  have hqueued : ∀ {t rest}, w.coord.readyQueue = t :: rest →
      w.store.stateOf t = some .queued :=
    fun hq => h.agree.queued _ (by rw [hq]; exact List.mem_cons_self)
  cases hcases with
  | empty hq => exact ⟨h.sound, .empty hq⟩
  | unknown hq hspec => exact ⟨h.sound, .unknown hq hspec⟩
  | absent hq _ hr =>
    have hst := hqueued hq
    rw [stateOf, hr] at hst
    cases hst
  | @assigned t _ _ r hq hspec hr =>
    have hst := hqueued hq
    rw [stateOf_of_get hr] at hst
    have hst' := Option.some.inj hst
    refine ⟨?_, .assigned hq hspec hr rfl rfl rfl⟩
    exact h.sound.of_workflows
      (h.sound.coherent.setTask hr rfl (by simp [hst']) (by simp) (by simp) (by simp)
        fun _ => h.sound.coherent.counted.ready t r hr (by rw [hst']; rfl)) rfl

end DagScheduler
