import DagScheduler.Coordinator.Rules
import DagScheduler.Lib.Admits

/-!
# What the operations use

`Call.Runs` lists the transactions that an operation can run, and `Section` the
sections under the mutex.  An operation runs most of its transactions only after it
has seen something: a completion after the task was assigned under the execution of
the caller, a new execution after the old one was assigned or its worker declared
dead.  `Seen J φ` says that some state of `J` shows `φ`, so the list is as long as
the invariant `J` allows.

`Call.admits_prog` proves that the list is complete, for every handler that answers
reads as the process does.  What becomes of the transactions is left to the handler,
so the list also holds where transactions fail.
-/

namespace DagScheduler

open Lib Program

/-- Some state of `J` shows `φ`. -/
def Seen (J : World → Prop) (φ : World → Prop) : Prop := ∃ w, J w ∧ φ w

/-- The UUID is drawn in a state of `J`, and `B` holds after it. -/
def Drawn (env : Env) (J B : World → Prop) (execID : String) : Prop :=
  ∃ w, J w ∧ B { w with uuids := w.uuids + 1 } ∧ execID = env.uuid w.uuids

/-- The transactions that a call can run, if it meets states of `J`. -/
inductive Call.Runs (env : Env) (J B : World → Prop) :
    Call → {α : Type} → StoreOp α → Prop where
  -- `SubmitWorkflow`
  | storeWorkflow {orders : DagOrders} {wf : WorkflowSpec} {dag : DAG} :
      validateAndSort orders wf = .ok dag →
      Runs env J B (.submitWorkflow orders wf) (.storeWorkflow wf)
  | initWorkflowState {orders : DagOrders} {wf : WorkflowSpec} {dag : DAG} :
      validateAndSort orders wf = .ok dag →
      Runs env J B (.submitWorkflow orders wf) (.initWorkflowState wf.workflowId)
  | initializeTasks {orders : DagOrders} {wf : WorkflowSpec} {dag : DAG} :
      validateAndSort orders wf = .ok dag →
      Runs env J B (.submitWorkflow orders wf)
        (.initializeTasksForWorkflow wf.workflowId wf.tasks dag.inDegree dag.downstream)
  | queueRoot {orders : DagOrders} {wf : WorkflowSpec} {dag : DAG} {t : String} :
      validateAndSort orders wf = .ok dag → t ∈ dag.getReadyTasks orders.ready →
      Runs env J B (.submitWorkflow orders wf) (.updateTaskState t .queued)
  -- `CompleteTask`
  | complete {t e output : String} :
      Seen J (·.coord.assignedTasks[t]? = some e) →
      Runs env J B (.completeTask t e output) (.completeTask t e output)
  | conclude {t e output id : String} {st : WorkflowState} : st ≠ .running →
      Runs env J B (.completeTask t e output) (.updateWorkflowState id st)
  -- `FailTask`
  | retry {t e errMsg execID : String} :
      Seen J (·.coord.assignedTasks[t]? = some e) → Drawn env J B execID →
      Runs env J B (.failTask t e errMsg) (.requeueTask t execID)
  | fail {t e errMsg : String} {attemptCount : Int32} :
      Seen J (·.coord.assignedTasks[t]? = some e) →
      Runs env J B (.failTask t e errMsg) (.failTask t errMsg attemptCount)
  | skip {t e errMsg u : String} : Seen J (·.store.isOpen u) →
      Runs env J B (.failTask t e errMsg) (.updateTaskState u .skipped)
  | stop {t e errMsg id : String} :
      Runs env J B (.failTask t e errMsg) (.cancelWorkflowTasks id)
  | concludeFailed {t e errMsg id : String} {st : WorkflowState} : st ≠ .running →
      Runs env J B (.failTask t e errMsg) (.updateWorkflowState id st)
  -- `CancelWorkflow`
  | cancelTasks {id : String} : Runs env J B (.cancelWorkflow id) (.cancelWorkflowTasks id)
  | cancelState {id : String} :
      Runs env J B (.cancelWorkflow id) (.updateWorkflowState id .cancelled)
  -- `HandleDeadWorker`
  | reclaim {order : RangeOrder String} {workerID t execID : String} :
      Seen J (·.coord.runningTasks[t]? = some workerID) → Drawn env J B execID →
      Runs env J B (.handleDeadWorker order workerID) (.requeueTask t execID)
  -- The restart
  | recover {t execID : String} : Seen J (t ∈ ·.store.getTasksInState .running) →
      Drawn env J B execID → Runs env J B .restart (.requeueTask t execID)

/-- What a section under the mutex makes of the memory. -/
inductive Section (s : Store) (m : Coordinator) : Coordinator → Prop where
  | same : Section s m m
  | enqueue (l : List String) : Section s m (m.enqueue l)
  | drop (l : List String) : Section s m (m.dropFromQueue l)
  | forget (l : List String) : Section s m (l.foldl Coordinator.forget m)
  | forgetEnqueue (t : String) (l : List String) : Section s m ((m.forget t).enqueue l)
  | cache (dag : DAG) (wf : WorkflowSpec) : Section s m (m.cacheWorkflow dag wf)
  | untrack (workerID : String) :
      Section s m { m with heartbeat := m.heartbeat.removeWorker workerID }
  | reset : Section s m {}
  | load : Section s m (m.load s)

/-- `LoadStateFromDB` fills the caches and the queue, and assigns nothing. -/
theorem Coordinator.load_maps (s : Store) (m : Coordinator) :
    (m.load s).assignedTasks = m.assignedTasks ∧ (m.load s).runningTasks = m.runningTasks := by
  suffices h : ∀ (l : List WorkflowStateRecord) (m : Coordinator),
      (l.foldl (Coordinator.loadWorkflow s) m).assignedTasks = m.assignedTasks ∧
        (l.foldl (Coordinator.loadWorkflow s) m).runningTasks = m.runningTasks from
    h s.getAllWorkflowStates m
  intro l
  induction l with
  | nil => exact fun _ => ⟨rfl, rfl⟩
  | cons st l ih =>
    intro m
    have hround : (m.loadWorkflow s st).assignedTasks = m.assignedTasks ∧
        (m.loadWorkflow s st).runningTasks = m.runningTasks := by
      unfold Coordinator.loadWorkflow
      split
      · exact ⟨rfl, rfl⟩
      · cases s.getWorkflow st.workflowID <;> exact ⟨rfl, rfl⟩
    rw [List.foldl_cons, (ih _).1, (ih _).2]
    exact hround

/-- A section keeps the execution and the worker of a task, or deletes both. -/
theorem Section.maps {s : Store} {m m' : Coordinator} (h : Section s m m') (t : String) :
    m'.assignedTasks[t]? = m.assignedTasks[t]? ∧ m'.runningTasks[t]? = m.runningTasks[t]? ∨
      m'.assignedTasks[t]? = none ∧ m'.runningTasks[t]? = none := by
  have hforget : ∀ l : List String,
      (l.foldl Coordinator.forget m).assignedTasks[t]? = m.assignedTasks[t]? ∧
        (l.foldl Coordinator.forget m).runningTasks[t]? = m.runningTasks[t]? ∨
      (l.foldl Coordinator.forget m).assignedTasks[t]? = none ∧
        (l.foldl Coordinator.forget m).runningTasks[t]? = none := by
    intro l
    rw [Coordinator.get_foldl_forget_assigned, Coordinator.get_foldl_forget_running]
    by_cases ht : t ∈ l
    · simp [ht]
    · simp [ht]
  cases h with
  | forget l => exact hforget l
  | forgetEnqueue u l => exact hforget [u]
  | reset => exact .inr ⟨by simp, by simp⟩
  | load =>
    rw [(m.load_maps s).1, (m.load_maps s).2]
    exact .inl ⟨rfl, rfl⟩
  | _ => exact .inl ⟨rfl, rfl⟩

/-- The memory with other heartbeats. -/
def Coordinator.withMonitor (m : Coordinator) (heartbeat : HeartbeatMonitor) : Coordinator :=
  { m with heartbeat := heartbeat }

/-- The section does not look at the monitor, and writes nothing else by what it finds
there. -/
def Blind {α : Type} (f : Store → Coordinator → α × Coordinator) : Prop :=
  ∀ s m heartbeat, ∃ heartbeat', f s (m.withMonitor heartbeat)
    = ((f s m).1, (f s m).2.withMonitor heartbeat')

theorem Coordinator.foldl_forget_withMonitor (l : List String) (m : Coordinator)
    (heartbeat : HeartbeatMonitor) : l.foldl Coordinator.forget (m.withMonitor heartbeat)
      = (l.foldl Coordinator.forget m).withMonitor heartbeat := by
  induction l generalizing m with
  | nil => rfl
  | cons t l ih => exact ih (m.forget t)

theorem Coordinator.load_withMonitor (s : Store) (m : Coordinator)
    (heartbeat : HeartbeatMonitor) :
    (m.withMonitor heartbeat).load s = (m.load s).withMonitor heartbeat := by
  suffices h : ∀ (l : List WorkflowStateRecord) (m : Coordinator),
      l.foldl (Coordinator.loadWorkflow s) (m.withMonitor heartbeat)
        = (l.foldl (Coordinator.loadWorkflow s) m).withMonitor heartbeat by
    rw [Coordinator.load, h]
    rfl
  intro l
  induction l with
  | nil => exact fun _ => rfl
  | cons st l ih =>
    intro m
    have hround : (m.withMonitor heartbeat).loadWorkflow s st
        = (m.loadWorkflow s st).withMonitor heartbeat := by
      unfold Coordinator.loadWorkflow
      split
      · rfl
      · cases s.getWorkflow st.workflowID <;> rfl
    rw [List.foldl_cons, hround, ih]
    rfl

/-- The actions that a call can use. -/
def Call.Uses (env : Env) (J B : World → Prop) (c : Call) {β : Type} : Action β → Prop
  | .update op => c.Runs env J B op
  | .view _ => True
  | .locked f => (∀ s m, Section s m (f s m).2) ∧ Blind f
  | .newUUID => True
  | .getReadyTask workerID => c = .getReadyTask workerID

/-- The handler answers reads as the process does. -/
structure Answers (env : Env) (h : Handler Action World) : Prop where
  view : ∀ {α : Type} (f : Store → α) (w : World), (h (.view f) w).1 = f w.store
  locked : ∀ {α : Type} (f : Store → Coordinator → α × Coordinator) (w : World),
    (h (.locked f) w).1 = (f w.store w.coord).1
  newUUID : ∀ w : World,
    h .newUUID w = (env.uuid w.uuids, { w with uuids := w.uuids + 1 })

theorem answers_handle (env : Env) : Answers env (Action.handle env) :=
  ⟨fun _ _ => rfl, fun _ _ => rfl, fun _ => rfl⟩

/-- Every action of the program is one that the call can use. -/
abbrev Within (env : Env) (h : Handler Action World) (J B : World → Prop) (c : Call)
    {α : Type} (p : Program α) : Prop := p.Admits h J B (c.Uses env J B)

section Actions

variable {env : Env} {h : Handler Action World} {J B : World → Prop} {c : Call} {α γ : Type}

theorem admits_update_bind {P : ∀ {β : Type}, Action β → Prop} {op : StoreOp γ}
    {k : Except StoreError γ → Program α} (hop : P (.update op))
    (hk : ∀ result, (k result).Admits h J B P) : (update op >>= k).Admits h J B P :=
  Prog.Admits.bind (Prog.admits_act hop) hk

theorem within_tryUpdate {op : StoreOp γ} {k : γ → Program (Except CallError Unit)}
    (hop : c.Runs env J B op) (hk : ∀ a, Within env h J B c (k a)) :
    Within env h J B c (tryUpdate op k) := by
  rw [tryUpdate]
  refine admits_update_bind hop fun result => ?_
  cases result with
  | error e => trivial
  | ok a => exact hk a

theorem within_lockedWrite {f : Coordinator → Coordinator} (hf : ∀ s m, Section s m (f m))
    (hblind : ∀ m heartbeat, ∃ heartbeat', f (m.withMonitor heartbeat)
      = (f m).withMonitor heartbeat' := by exact fun _ heartbeat => ⟨heartbeat, rfl⟩) :
    Within env h J B c (lockedWrite f) := by
  refine Prog.admits_act ⟨hf, fun s m heartbeat => ?_⟩
  obtain ⟨heartbeat', heq⟩ := hblind m heartbeat
  exact ⟨heartbeat', congrArg (((), ·)) heq⟩

end Actions

section Programs

variable {env : Env} {h : Handler Action World} (hans : Answers env h)
  {J B : World → Prop} {c : Call} {α γ : Type}
include hans

theorem admits_view_bind {P : ∀ {β : Type}, Action β → Prop} {f : Store → γ}
    {k : γ → Program α} (hf : P (.view f))
    (hk : ∀ w, J w → (k (f w.store)).Admits h J B P) : (view f >>= k).Admits h J B P := by
  refine Prog.admits_act_bind hf fun w hw _ => ?_
  rw [hans.view]
  exact hk w hw

theorem within_locked_bind {f : Coordinator → γ × Coordinator} {k : γ → Program α}
    (hf : ∀ s m, Section s m (f m).2) (hblind : Blind fun _ : Store => f)
    (hk : ∀ w, J w → Within env h J B c (k (f w.coord).1)) :
    Within env h J B c (locked f >>= k) := by
  refine Prog.admits_act_bind ⟨hf, hblind⟩ fun w hw _ => ?_
  rw [hans.locked]
  exact hk w hw

theorem within_lockedRead_bind {f : Coordinator → γ} {k : γ → Program α}
    (hk : ∀ w, J w → Within env h J B c (k (f w.coord)))
    (hblind : ∀ m heartbeat, f (m.withMonitor heartbeat) = f m := by exact fun _ _ => rfl) :
    Within env h J B c (lockedRead f >>= k) := by
  refine within_locked_bind hans (fun _ _ => .same) (fun s m heartbeat => ?_) hk
  exact ⟨heartbeat, congrArg (·, m.withMonitor heartbeat) (hblind m heartbeat)⟩

theorem within_newUUID_bind {k : String → Program α}
    (hk : ∀ execID, Drawn env J B execID → Within env h J B c (k execID)) :
    Within env h J B c (newUUID >>= k) := by
  refine Prog.admits_act_bind trivial fun w hw hb => ?_
  rw [hans.newUUID] at hb ⊢
  exact hk _ ⟨w, hw, hb, rfl⟩

section Skip

variable {P : ∀ {β : Type}, Action β → Prop}
  (hview : ∀ {β : Type} (f : Store → β), P (.view f))
  (hskip : ∀ u, Seen J (·.store.isOpen u) → P (.update (.updateTaskState u .skipped)))
include hview hskip

theorem admits_skipLoop (fuel : Nat) (queue visited skipped : List String) :
    (skipLoop fuel queue visited skipped).Admits h J B P := by
  induction fuel generalizing queue visited skipped with
  | zero => cases queue <;> trivial
  | succ fuel ih =>
    cases queue with
    | nil => trivial
    | cons t queue =>
      rw [skipLoop]
      split
      · exact ih _ _ _
      refine admits_view_bind hans (hview _) fun w hw => ?_
      rw [Store.getTask]
      cases hr : w.store.taskState[t]? with
      | none => exact ih _ _ _
      | some task =>
        dsimp only
        split
        · exact ih _ _ _
        · rename_i hopen
          have hseen : Seen J (·.store.isOpen t) :=
            ⟨w, hw, task, hr, Bool.eq_false_iff.mpr hopen⟩
          refine admits_update_bind (hskip t hseen) fun result => ?_
          cases result with
          | error e => exact ih _ _ _
          | ok _ => exact ih _ _ _

theorem admits_skipDownstreamTasks (t : String) :
    (skipDownstreamTasks t).Admits h J B P := by
  rw [skipDownstreamTasks]
  refine admits_view_bind hans (hview _) fun w _ => ?_
  cases w.store.getTask t with
  | error e => trivial
  | ok task => exact admits_skipLoop hans hview hskip _ _ _ _

end Skip

theorem within_checkWorkflowCompletion {id : String}
    (hclose : ∀ st : WorkflowState, st ≠ .running → c.Runs env J B (.updateWorkflowState id st)) :
    Within env h J B c (checkWorkflowCompletion id) := by
  rw [checkWorkflowCompletion]
  refine admits_view_bind hans trivial fun _ _ => Prog.admits_when ?_
  refine admits_view_bind hans trivial fun _ _ => ?_
  refine admits_update_bind (hclose _ ?_) fun _ => trivial
  split <;> simp

theorem within_requeueAll {l : List String} (hrequeue : ∀ t ∈ l, ∀ execID,
      Drawn env J B execID → c.Runs env J B (.requeueTask t execID)) :
    Within env h J B c (requeueAll l) := by
  induction l with
  | nil => trivial
  | cons t l ih =>
    rw [List.forall_mem_cons] at hrequeue
    rw [requeueAll]
    refine within_newUUID_bind hans fun execID hexec => ?_
    refine admits_update_bind (hrequeue.1 execID hexec) fun result => ?_
    cases result with
    | error e => exact ih hrequeue.2
    | ok _ =>
      exact Prog.Admits.bind (within_lockedWrite fun _ _ => .enqueue [t])
        fun _ => ih hrequeue.2

omit hans in
theorem within_enqueueRoots {l : List String}
    (hqueue : ∀ t ∈ l, c.Runs env J B (.updateTaskState t .queued)) :
    Within env h J B c (enqueueRoots l) := by
  induction l with
  | nil => trivial
  | cons t l ih =>
    rw [List.forall_mem_cons] at hqueue
    rw [enqueueRoots]
    refine within_tryUpdate hqueue.1 fun _ => ?_
    exact Prog.Admits.bind (within_lockedWrite fun _ _ => .enqueue [t]) fun _ => ih hqueue.2

omit hans in
theorem within_submitWorkflow (orders : DagOrders) (wf : WorkflowSpec) :
    Within env h J B (.submitWorkflow orders wf) (submitWorkflow orders wf) := by
  rw [submitWorkflow]
  cases hv : validateAndSort orders wf with
  | error e => trivial
  | ok dag =>
    refine within_tryUpdate (.storeWorkflow hv) fun _ => ?_
    refine within_tryUpdate (.initWorkflowState hv) fun _ => ?_
    refine within_tryUpdate (.initializeTasks hv) fun _ => ?_
    refine Prog.Admits.bind (within_lockedWrite fun _ _ => .cache dag wf) fun _ => ?_
    exact within_enqueueRoots fun t ht => .queueRoot hv ht

theorem within_completeTask (t e output : String) :
    Within env h J B (.completeTask t e output) (completeTask t e output) := by
  rw [completeTask]
  refine within_lockedRead_bind hans fun w hw => ?_
  cases ha : w.coord.assignedTasks[t]? with
  | none =>
    refine admits_view_bind hans trivial fun w' _ => ?_
    cases w'.store.getTask t with
    | error e => trivial
    | ok task =>
      dsimp only
      split
      · split <;> trivial
      · trivial
  | some e' =>
    dsimp only
    split
    · trivial
    · rename_i hsame
      rw [not_not] at hsame
      subst hsame
      refine within_tryUpdate (.complete ⟨w, hw, ha⟩) fun ready => ?_
      refine Prog.Admits.bind (within_lockedWrite fun _ _ => .forgetEnqueue t ready) fun _ => ?_
      refine within_lockedRead_bind hans fun _ _ => ?_
      refine Prog.Admits.bind (Prog.admits_when ?_) fun _ => trivial
      exact within_checkWorkflowCompletion hans fun _ hst => .conclude hst

theorem within_applyFailurePolicy {t e errMsg id u : String} (policy : FailurePolicy) :
    Within env h J B (.failTask t e errMsg) (applyFailurePolicy id u policy) := by
  have hcheck : Within env h J B (.failTask t e errMsg) (checkWorkflowCompletion id) :=
    within_checkWorkflowCompletion hans fun _ hst => .concludeFailed hst
  have hbelow : Within env h J B (.failTask t e errMsg)
      (skipDownstreamTasks u >>= afterSkip id) := by
    have hskipped : Within env h J B (.failTask t e errMsg) (skipDownstreamTasks u) :=
      admits_skipDownstreamTasks hans (fun _ => trivial) (fun _ hopen => .skip hopen) u
    refine hskipped.bind fun result => ?_
    rcases result with (e | _) | skipped
    · exact hcheck
    · trivial
    · exact Prog.Admits.bind (Prog.admits_when (within_lockedWrite fun _ _ => .drop _))
        fun _ => hcheck
  cases policy with
  | failFast =>
    rw [applyFailurePolicy]
    refine admits_update_bind .stop fun result => ?_
    cases result with
    | error e => trivial
    | ok cancelled =>
      refine Prog.Admits.bind (within_lockedWrite fun _ _ => .drop cancelled) fun _ => ?_
      exact admits_update_bind (.concludeFailed (by simp)) fun _ => trivial
  | skipDownstream => exact hbelow
  | continueIndependent => exact hbelow
  | unrecognized value hv => trivial

theorem within_failTask (t e errMsg : String) :
    Within env h J B (.failTask t e errMsg) (failTask t e errMsg) := by
  rw [failTask]
  refine within_lockedRead_bind hans fun w hw => ?_
  split
  · trivial
  · rename_i hsame
    rw [not_not] at hsame
    refine admits_view_bind hans trivial fun w' _ => ?_
    cases w'.store.getTask t with
    | error e => trivial
    | ok task =>
      refine within_lockedRead_bind hans fun _ _ => ?_
      dsimp only
      split
      · refine within_newUUID_bind hans fun execID hexec => ?_
        refine within_tryUpdate (.retry ⟨w, hw, hsame⟩ hexec) fun _ => ?_
        exact Prog.Admits.bind (within_lockedWrite fun _ _ => .forgetEnqueue t [t])
          fun _ => trivial
      · refine within_tryUpdate (.fail ⟨w, hw, hsame⟩) fun _ => ?_
        refine within_locked_bind hans (fun _ _ => .forget [t])
          (fun _ _ heartbeat => ⟨heartbeat, rfl⟩) fun _ _ => ?_
        exact Prog.Admits.bind (Prog.admits_when (within_applyFailurePolicy hans _))
          fun _ => trivial

omit hans in
theorem within_cancelWorkflow (id : String) :
    Within env h J B (.cancelWorkflow id) (cancelWorkflow id) := by
  rw [cancelWorkflow]
  refine within_tryUpdate .cancelTasks fun cancelled => ?_
  refine Prog.Admits.bind (within_lockedWrite fun _ _ => .drop cancelled) fun _ => ?_
  exact within_tryUpdate .cancelState fun _ => trivial

theorem within_handleDeadWorker (order : RangeOrder String) (k : String) :
    Within env h J B (.handleDeadWorker order k) (handleDeadWorker order k) := by
  rw [handleDeadWorker]
  refine within_locked_bind hans (fun _ _ => .forget _) (fun _ m heartbeat => ?_) fun w hw => ?_
  · exact ⟨heartbeat, congrArg (_, ·) (m.foldl_forget_withMonitor _ heartbeat)⟩
  refine Prog.Admits.bind (within_requeueAll hans fun t ht execID hexec => ?_) fun _ => ?_
  · refine .reclaim ⟨w, hw, ?_⟩ hexec
    exact of_decide_eq_true (List.mem_filter.mp ht).2
  · exact Prog.Admits.bind (within_lockedWrite (fun _ _ => .untrack k)
      fun _ heartbeat => ⟨heartbeat.removeWorker k, rfl⟩) fun _ => trivial

theorem within_restart : Within env h J B .restart restart := by
  rw [restart]
  refine Prog.Admits.bind (within_lockedWrite (fun _ _ => .reset)
    fun _ _ => ⟨({} : Coordinator).heartbeat, rfl⟩) fun _ => ?_
  refine Prog.Admits.bind (Prog.admits_act ⟨fun _ _ => .load, fun s m heartbeat => ?_⟩) fun _ => ?_
  · exact ⟨heartbeat, congrArg (((), ·)) (m.load_withMonitor s heartbeat)⟩
  rw [prepareRecovery]
  refine admits_view_bind hans trivial fun w hw => ?_
  exact within_requeueAll hans fun t ht execID hexec => .recover ⟨w, hw, ht⟩ hexec

/-- A call uses only what it can use. -/
theorem Call.admits_prog (c : Call) : c.prog.Admits h J B (c.Uses env J B) := by
  cases c with
  | submitWorkflow orders wf => exact (within_submitWorkflow orders wf).bind fun _ => trivial
  | getReadyTask k => exact ⟨rfl, fun _ _ _ => trivial⟩
  | completeTask t e output => exact (within_completeTask hans t e output).bind fun _ => trivial
  | failTask t e errMsg => exact (within_failTask hans t e errMsg).bind fun _ => trivial
  | cancelWorkflow id => exact (within_cancelWorkflow id).bind fun _ => trivial
  | handleDeadWorker order k =>
    exact (within_handleDeadWorker hans order k).bind fun _ => trivial
  | restart => exact (within_restart hans).bind fun _ => trivial

end Programs

end DagScheduler
