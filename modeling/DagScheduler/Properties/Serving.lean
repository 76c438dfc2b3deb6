import DagScheduler.Coordinator.Runs
import DagScheduler.Coordinator.Uses
import DagScheduler.Model.Service

/-!
# The service around the coordinator

The process is never asked for one of the coordinator's operations.  It gets messages of
workers and requests of clients, and a ticker starts rounds of the monitor.  Between two
such jobs it may stop and be started again.  `runProcess` executes jobs and restarts one
at a time.

`callsOf` lists the operations behind the steps.  The operations are blind to the
heartbeats (`Call.exec_withMonitor`), so the process is in the state of a run of these
operations, and sends the assignments that they answer.  Everything that is proved about
runs of operations holds of the service.

A round of the monitor is a loop of `HandleDeadWorker`s.  `Swept` says what the whole
round does, from the state in which it looked at the heartbeats.
-/

namespace DagScheduler

open Lib Program Store

/-! ## Operations and heartbeats -/

/-- The world with other heartbeats. -/
def World.withMonitor (w : World) (heartbeat : HeartbeatMonitor) : World :=
  { w with coord := w.coord.withMonitor heartbeat }

variable {env : Env} {w : World}

theorem World.getReadyTask_withMonitor (env : Env) (w : World) (heartbeat : HeartbeatMonitor)
    (workerID : String) : (w.withMonitor heartbeat).getReadyTask env workerID
      = ((w.getReadyTask env workerID).1,
          (w.getReadyTask env workerID).2.withMonitor heartbeat) := by
  have hqueue : (w.withMonitor heartbeat).coord.readyQueue = w.coord.readyQueue := rfl
  unfold World.getReadyTask
  rw [hqueue]
  cases w.coord.readyQueue with
  | nil => rfl
  | cons t rest =>
    have hcache : (w.withMonitor heartbeat).coord.taskSpecCache = w.coord.taskSpecCache := rfl
    dsimp only
    rw [hcache]
    cases w.coord.taskSpecCache[t]? with
    | none => rfl
    | some spec =>
      have hstore : (w.withMonitor heartbeat).store = w.store := rfl
      have hticks : (w.withMonitor heartbeat).ticks = w.ticks := rfl
      have huuids : (w.withMonitor heartbeat).uuids = w.uuids := rfl
      simp only [World.update, hstore, hticks, huuids]
      generalize w.store.commit
        ((StoreOp.assignTask t (env.uuid w.uuids)).tx env.marshals (env.now w.ticks)) = out
      obtain ⟨result, s⟩ := out
      cases result <;> rfl

/-- No action of an operation tells states apart that differ in the heartbeats. -/
theorem Call.Uses.blind {J B : World → Prop} {c : Call} {β : Type} (e : Action β) (w v : World)
    (huses : c.Uses env J B e) (hv : ∃ heartbeat, v = w.withMonitor heartbeat) :
    (Action.handle env e w).1 = (Action.handle env e v).1 ∧
      ∃ heartbeat, (Action.handle env e v).2 = (Action.handle env e w).2.withMonitor heartbeat := by
  obtain ⟨heartbeat, rfl⟩ := hv
  cases e with
  | update op => exact ⟨rfl, heartbeat, rfl⟩
  | view f => exact ⟨rfl, heartbeat, rfl⟩
  | newUUID => exact ⟨rfl, heartbeat, rfl⟩
  | locked f =>
    obtain ⟨heartbeat', heq⟩ := huses.2 w.store w.coord heartbeat
    exact ⟨(congrArg Prod.fst heq).symm, heartbeat',
      congrArg (fun out => { w with coord := out.2 }) heq⟩
  | getReadyTask k =>
    have hget := w.getReadyTask_withMonitor env heartbeat k
    exact ⟨(congrArg Prod.fst hget).symm, heartbeat, congrArg Prod.snd hget⟩

/-- An operation answers the same and leaves the same, whatever the heartbeats are. -/
theorem Call.exec_withMonitor (env : Env) (c : Call) (w : World) (heartbeat : HeartbeatMonitor) :
    (c.exec env (w.withMonitor heartbeat)).1 = (c.exec env w).1 ∧
      ∃ heartbeat', (c.exec env (w.withMonitor heartbeat)).2
        = (c.exec env w).2.withMonitor heartbeat' := by
  obtain ⟨hreply, hworld⟩ := (c.admits_prog (answers_handle env)).run_related
    (R := fun w v => ∃ heartbeat, v = w.withMonitor heartbeat)
    (fun e w v huses hv => huses.blind e w v hv) ⟨heartbeat, rfl⟩
  exact ⟨hreply.symm, hworld⟩

/-! ## Jobs one at a time -/

/-- One step of the process: it does a job, or it is started again. -/
inductive ProcessStep where
  | job (j : Job)
  | restart

/-- The program of a step. -/
def ProcessStep.prog : ProcessStep → Program (Option CoordinatorMessage)
  | .job j => j.prog
  | .restart => do
    DagScheduler.restart
    return none

/-- Execute a step to its end. -/
def ProcessStep.exec (env : Env) (step : ProcessStep) (w : World) :
    Option CoordinatorMessage × World :=
  step.prog.run (Action.handle env) w

/-- The state after a run of steps, one at a time, from an empty database. -/
def runProcess (env : Env) (steps : List ProcessStep) : World :=
  steps.foldl (fun w step => (step.exec env w).2) {}

theorem runProcess_append (env : Env) (steps : List ProcessStep) (step : ProcessStep) :
    runProcess env (steps ++ [step]) = (step.exec env (runProcess env steps)).2 := by
  simp [runProcess]

/-- The operations behind a job that is executed in the state `w`. -/
def Job.calls (w : World) : Job → List Call
  | .message workerID (.taskRequest _) => [.getReadyTask workerID]
  | .message _ (.taskResult result) =>
      if result.success then [.completeTask result.taskId result.executionId result.output]
      else [.failTask result.taskId result.executionId result.error]
  | .message _ (.heartbeat _ _) => []
  | .message _ .unset => []
  | .submit orders workflow => [.submitWorkflow orders workflow]
  | .cancel workflowID => [.cancelWorkflow workflowID]
  | .status _ => []
  | .scan order orders deadThreshold nowMs =>
      (w.coord.heartbeat.getDeadWorkers order deadThreshold nowMs).map fun workerID =>
        .handleDeadWorker (orders workerID) workerID

/-- The operations behind a step. -/
def ProcessStep.calls (w : World) : ProcessStep → List Call
  | .job j => j.calls w
  | .restart => [.restart]

/-- The operations behind the steps, from the state `w`. -/
def callsFrom (env : Env) : World → List ProcessStep → List Call
  | _, [] => []
  | w, step :: steps => step.calls w ++ callsFrom env (step.exec env w).2 steps

/-- The operations behind a run of steps, in order. -/
def callsOf (env : Env) (steps : List ProcessStep) : List Call := callsFrom env {} steps

theorem callsOf_append (env : Env) (steps : List ProcessStep) (step : ProcessStep) :
    callsOf env (steps ++ [step]) = callsOf env steps ++ step.calls (runProcess env steps) := by
  have h : ∀ w : World, callsFrom env w (steps ++ [step]) = callsFrom env w steps
      ++ step.calls (steps.foldl (fun w step => (step.exec env w).2) w) := by
    induction steps with
    | nil =>
      intro w
      rw [List.nil_append, callsFrom, callsFrom, callsFrom, List.append_nil, List.nil_append]
      rfl
    | cons first steps ih =>
      intro w
      rw [List.cons_append, callsFrom, ih, callsFrom, List.append_assoc]
      rfl
  exact h {}

/-- The assignment that a message carries. -/
def CoordinatorMessage.assignment : CoordinatorMessage → Option TaskAssignment
  | .taskAssignment a => some a
  | _ => none

/-- The assignment that an operation answers. -/
def Reply.assigned : Reply → Option TaskAssignment
  | .assignment a => a
  | _ => none

/-- The messages that go back for the steps, from the state `w`. -/
def sentFrom (env : Env) : World → List ProcessStep → List CoordinatorMessage
  | _, [] => []
  | w, step :: steps => (step.exec env w).1.toList ++ sentFrom env (step.exec env w).2 steps

/-- The assignments that go to the workers, in order. -/
def assignmentsSent (env : Env) (steps : List ProcessStep) : List TaskAssignment :=
  (sentFrom env {} steps).filterMap (·.assignment)

/-- The assignments that the operations answer, in order. -/
def assignmentsAnswered (env : Env) (calls : List Call) : List TaskAssignment :=
  (history env calls).filterMap (·.2.assigned)

theorem assignmentsSent_append (env : Env) (steps : List ProcessStep) (step : ProcessStep) :
    assignmentsSent env (steps ++ [step]) = assignmentsSent env steps
      ++ ((step.exec env (runProcess env steps)).1.bind (·.assignment)).toList := by
  have h : ∀ w : World, sentFrom env w (steps ++ [step]) = sentFrom env w steps
      ++ (step.exec env (steps.foldl (fun w step => (step.exec env w).2) w)).1.toList := by
    induction steps with
    | nil =>
      intro w
      rw [List.nil_append, sentFrom, sentFrom, sentFrom, List.append_nil, List.nil_append]
      rfl
    | cons first steps ih =>
      intro w
      rw [List.cons_append, sentFrom, ih, sentFrom, List.append_assoc]
      rfl
  rw [assignmentsSent, h, List.filterMap_append, ← assignmentsSent, ← runProcess]
  generalize (step.exec env (runProcess env steps)).1 = out
  cases out with
  | none => rfl
  | some m => cases hm : m.assignment <;> simp [hm]

theorem assignmentsAnswered_append (env : Env) (calls : List Call) (c : Call) :
    assignmentsAnswered env (calls ++ [c]) = assignmentsAnswered env calls
      ++ ((c.exec env (runCalls env calls)).1.assigned).toList := by
  rw [assignmentsAnswered, history_append, List.filterMap_append, ← assignmentsAnswered]
  cases h : (c.exec env (runCalls env calls)).1.assigned <;> simp [h]

/-! ## The operations behind the steps -/

/-- The process after some steps: the state of a run of the operations, but for the
heartbeats, and the assignments that they have answered. -/
structure Serves (env : Env) (calls : List Call) (sent : List TaskAssignment) (v : World) :
    Prop where
  state : ∃ heartbeat, v = (runCalls env calls).withMonitor heartbeat
  sent : sent = assignmentsAnswered env calls

/-- One operation more. -/
theorem Serves.call {calls : List Call} {sent : List TaskAssignment} {v : World}
    (h : Serves env calls sent v) (c : Call) :
    Serves env (calls ++ [c]) (sent ++ ((c.exec env v).1.assigned).toList) (c.exec env v).2 := by
  obtain ⟨heartbeat, rfl⟩ := h.state
  obtain ⟨hreply, hworld⟩ := c.exec_withMonitor env (runCalls env calls) heartbeat
  refine ⟨?_, ?_⟩
  · rw [runCalls_append]
    exact hworld
  · rw [assignmentsAnswered_append, ← h.sent, hreply]

/-- Other heartbeats. -/
theorem Serves.withMonitor {calls : List Call} {sent : List TaskAssignment} {v : World}
    (h : Serves env calls sent v) (heartbeat : HeartbeatMonitor) :
    Serves env calls sent (v.withMonitor heartbeat) := by
  obtain ⟨heartbeat', rfl⟩ := h.state
  exact ⟨⟨heartbeat, rfl⟩, h.sent⟩

/-- The loop over the dead workers. -/
theorem Serves.handleDeadWorkers {calls : List Call} {sent : List TaskAssignment} {v : World}
    (h : Serves env calls sent v) (orders : String → RangeOrder String) (l : List String) :
    Serves env (calls ++ l.map fun k => .handleDeadWorker (orders k) k) sent
      ((handleDeadWorkers orders l).run (Action.handle env) v).2 := by
  induction l generalizing calls v with
  | nil =>
    rw [List.map_nil, List.append_nil]
    exact h
  | cons k l ih =>
    have hcall := h.call (.handleDeadWorker (orders k) k)
    have hnone : ((Call.handleDeadWorker (orders k) k).exec env v).1.assigned = none := by
      rw [Call.exec, Call.prog, Prog.run_bind]
      rfl
    rw [hnone, Option.toList_none, List.append_nil] at hcall
    have hworld : ((Call.handleDeadWorker (orders k) k).exec env v).2
        = ((handleDeadWorker (orders k) k).run (Action.handle env) v).2 := by
      rw [Call.exec, Call.prog, Prog.run_bind]
      rfl
    rw [hworld] at hcall
    rw [List.map_cons, List.append_cons, DagScheduler.handleDeadWorkers, Prog.run_bind,
      Prog.run_bind]
    exact ih (hcall.withMonitor _)

/-- A step that executes one operation and drops what it answers. -/
theorem Serves.ignoring {calls : List Call} {sent : List TaskAssignment} {v : World}
    (h : Serves env calls sent v) {c : Call} {step : ProcessStep} {α : Type} {p : Program α}
    {reply : α → Reply} (hc : c.prog = p >>= fun r => pure (reply r))
    (hstep : step.prog = p >>= fun _ => pure none) (hnone : ∀ r, (reply r).assigned = none) :
    Serves env (calls ++ [c]) (sent ++ ((step.exec env v).1.bind (·.assignment)).toList)
      (step.exec env v).2 := by
  have hexec : c.exec env v = (reply (p.run (Action.handle env) v).1,
      (p.run (Action.handle env) v).2) := by
    rw [Call.exec, hc, Prog.run_bind]
    rfl
  have hcall := h.call c
  rw [hexec, hnone] at hcall
  rw [ProcessStep.exec, hstep, Prog.run_bind]
  exact hcall

/-- A step without operations. -/
theorem Serves.quiet {calls : List Call} {sent : List TaskAssignment} {v : World}
    (h : Serves env calls sent v) {step : ProcessStep} (heartbeat : HeartbeatMonitor)
    (hstep : step.exec env v = (none, v.withMonitor heartbeat)) :
    Serves env (calls ++ []) (sent ++ ((step.exec env v).1.bind (·.assignment)).toList)
      (step.exec env v).2 := by
  rw [hstep, Option.bind_none, Option.toList_none, List.append_nil, List.append_nil]
  exact h.withMonitor heartbeat

/-- A message of a worker. -/
theorem Serves.message {calls : List Call} {sent : List TaskAssignment} {v : World}
    (h : Serves env calls sent v) (k : String) (payload : WorkerPayload) :
    Serves env (calls ++ (Job.message k payload).calls v)
      (sent ++ (((ProcessStep.job (.message k payload)).exec env v).1.bind (·.assignment)).toList)
      ((ProcessStep.job (.message k payload)).exec env v).2 := by
  cases payload with
  | heartbeat timestamp running => exact h.quiet _ rfl
  | unset => exact h.quiet v.coord.heartbeat rfl
  | taskResult result =>
    by_cases hsuccess : result.success = true
    · rw [Job.calls, if_pos hsuccess]
      refine h.ignoring rfl ?_ fun _ => rfl
      rw [ProcessStep.prog, Job.prog, handleMessage, handleTaskResult, if_pos hsuccess,
        Prog.bind_assoc]
      rfl
    · rw [Job.calls, if_neg hsuccess]
      refine h.ignoring rfl ?_ fun _ => rfl
      rw [ProcessStep.prog, Job.prog, handleMessage, handleTaskResult, if_neg hsuccess,
        Prog.bind_assoc]
      rfl
  | taskRequest capacity =>
    have hcall := h.call (.getReadyTask k)
    have hexec : (Call.getReadyTask k).exec env v
        = (.assignment (v.getReadyTask env k).1, (v.getReadyTask env k).2) := rfl
    rw [hexec] at hcall
    have hrun : (getReadyTask k).run (Action.handle env) v = v.getReadyTask env k := rfl
    rw [ProcessStep.exec, ProcessStep.prog, Job.prog, handleMessage, Prog.run_bind,
      handleTaskRequest, Prog.run_bind, hrun]
    generalize v.getReadyTask env k = out at hcall ⊢
    obtain ⟨a, v'⟩ := out
    cases a <;> exact hcall

/-- A round of the monitor, up to its list. -/
theorem ProcessStep.exec_scan (env : Env) (order : RangeOrder String)
    (orders : String → RangeOrder String) (deadThreshold nowMs : Int64) (v : World) :
    (ProcessStep.job (.scan order orders deadThreshold nowMs)).exec env v = (none,
      ((handleDeadWorkers orders (v.coord.heartbeat.getDeadWorkers order deadThreshold
        nowMs)).run (Action.handle env) v).2) := by
  rw [ProcessStep.exec, ProcessStep.prog, Job.prog, Prog.run_bind, scan, Prog.run_bind]
  rfl

/-- A status query changes nothing. -/
theorem ProcessStep.exec_status (env : Env) (id : String) (v : World) :
    (ProcessStep.job (.status id)).exec env v = (none, v) := by
  have hview : (Program.view (·.getWorkflowState id)).run (Action.handle env) v
      = (v.store.getWorkflowState id, v) := rfl
  rw [ProcessStep.exec, ProcessStep.prog, Job.prog, Prog.run_bind, getWorkflowStatus,
    Prog.run_bind, hview]
  cases v.store.getWorkflowState id <;> rfl

/-- One step more. -/
theorem Serves.step {calls : List Call} {sent : List TaskAssignment} {v : World}
    (h : Serves env calls sent v) (step : ProcessStep) :
    Serves env (calls ++ step.calls v) (sent ++ ((step.exec env v).1.bind (·.assignment)).toList)
      (step.exec env v).2 := by
  cases step with
  | restart => exact h.ignoring (c := .restart) rfl rfl fun _ => rfl
  | job j =>
    cases j with
    | message k payload => exact h.message k payload
    | submit orders wf => exact h.ignoring (c := .submitWorkflow orders wf) rfl rfl fun _ => rfl
    | cancel id => exact h.ignoring (c := .cancelWorkflow id) rfl rfl fun _ => rfl
    | status id => exact h.quiet v.coord.heartbeat (ProcessStep.exec_status env id v)
    | scan order orders deadThreshold nowMs =>
      rw [ProcessStep.exec_scan, Option.bind_none, Option.toList_none, List.append_nil]
      exact h.handleDeadWorkers orders _

/-- The run lemma. -/
theorem serves_runProcess (env : Env) (steps : List ProcessStep) :
    Serves env (callsOf env steps) (assignmentsSent env steps) (runProcess env steps) := by
  induction steps using List.reverseRecOn with
  | nil => exact ⟨⟨_, rfl⟩, rfl⟩
  | append_singleton steps step ih =>
    rw [callsOf_append, assignmentsSent_append, runProcess_append]
    exact ih.step step

/-- The specification that a step submits. -/
def ProcessStep.submits : ProcessStep → Option WorkflowSpec
  | .job (.submit _ workflow) => some workflow
  | _ => none

theorem ProcessStep.submits_calls (w : World) (step : ProcessStep) :
    (step.calls w).filterMap Call.submits = step.submits.toList := by
  cases step with
  | restart => rfl
  | job j =>
    cases j with
    | submit orders wf => rfl
    | cancel id => rfl
    | status id => rfl
    | scan order orders deadThreshold nowMs =>
      rw [ProcessStep.calls, Job.calls, List.filterMap_map]
      exact List.filterMap_eq_nil_iff.mpr fun _ _ => rfl
    | message k payload =>
      cases payload with
      | taskResult result =>
        rw [ProcessStep.calls, Job.calls]
        split <;> rfl
      | _ => rfl

/-- The steps submit what their operations submit. -/
theorem submitted_callsOf (env : Env) (steps : List ProcessStep) :
    submitted (callsOf env steps) = steps.filterMap ProcessStep.submits := by
  induction steps using List.reverseRecOn with
  | nil => rfl
  | append_singleton steps step ih =>
    rw [callsOf_append, submitted, List.filterMap_append, ← submitted, ih,
      ProcessStep.submits_calls, List.filterMap_append]
    cases h : step.submits <;> simp [h]

/-- Whatever messages of workers, requests of clients, rounds of the monitor and restarts
the process goes through, one at a time, it is in the state of a run of the coordinator's
operations, but for the heartbeats.  The workers get the assignments that these operations
answer, and the operations submit what the clients do. -/
theorem service_runs_operations (env : Env) (steps : List ProcessStep) :
    (∃ heartbeat, runProcess env steps
      = (runCalls env (callsOf env steps)).withMonitor heartbeat) ∧
    assignmentsSent env steps = assignmentsAnswered env (callsOf env steps) ∧
    submitted (callsOf env steps) = steps.filterMap ProcessStep.submits :=
  ⟨(serves_runProcess env steps).state, (serves_runProcess env steps).sent,
    submitted_callsOf env steps⟩

/-! ## Rounds of the monitor -/

theorem Inv.withMonitor {P : WorkflowSpec → Prop} (h : Inv P w) (heartbeat : HeartbeatMonitor) :
    Inv P (w.withMonitor heartbeat) :=
  ⟨h.sound, ⟨h.agree.nodup, h.agree.queued, h.agree.listed, h.agree.keys, h.agree.assigned⟩,
    h.running, ⟨h.cached.owner, h.cached.spec⟩, h.active⟩

/-- The invariant between two steps. -/
theorem inv_runProcess (env : Env) {steps : List ProcessStep}
    (hids : NeverReused (steps.filterMap ProcessStep.submits)) :
    Inv (· ∈ steps.filterMap ProcessStep.submits) (runProcess env steps) := by
  rw [← submitted_callsOf env] at hids ⊢
  obtain ⟨heartbeat, hstate⟩ := (serves_runProcess env steps).state
  rw [hstate]
  exact (inv_runCalls env hids).withMonitor heartbeat

/-- One of the workers owns the task. -/
def Coordinator.OwnedBy (m : Coordinator) (workers : List String) (t : String) : Prop :=
  ∃ k ∈ workers, m.runningTasks[t]? = some k

/-- The workers are gone, and their tasks are back in the queue.  Nothing else has
changed. -/
structure Swept (env : Env) (dead : List String) (w w' : World) : Prop where
  queue : ∃ l : List String, l.Nodup ∧ (∀ t, t ∈ l ↔ w.coord.OwnedBy dead t) ∧
    w'.coord.readyQueue = w.coord.readyQueue ++ l
  hit : ∀ (t : String) (r : TaskStateRecord), w.coord.OwnedBy dead t →
    w.store.taskState[t]? = some r → ∃ n now, w.uuids ≤ n ∧ n < w'.uuids ∧
      w'.store.taskState[t]? = some
        { r with state := .queued, executionID := env.uuid n, lastUpdated := now }
  freed : ∀ t : String, w.coord.OwnedBy dead t →
    w'.coord.runningTasks[t]? = none ∧ w'.coord.assignedTasks[t]? = none
  miss : ∀ t : String, ¬ w.coord.OwnedBy dead t →
    w'.store.taskState[t]? = w.store.taskState[t]? ∧
      w'.coord.runningTasks[t]? = w.coord.runningTasks[t]? ∧
      w'.coord.assignedTasks[t]? = w.coord.assignedTasks[t]?
  monitor : ∀ k : String, w'.coord.heartbeat.lastHeartbeat[k]?
    = if k ∈ dead then none else w.coord.heartbeat.lastHeartbeat[k]?
  workflows : w'.store.workflows = w.store.workflows
  workflowState : w'.store.workflowState = w.store.workflowState
  caches : Coordinator.SameCaches w.coord w'.coord
  uuids : w.uuids ≤ w'.uuids

theorem swept_nil (env : Env) (w : World) : Swept env [] w w := by
  have hno : ∀ t, ¬ w.coord.OwnedBy [] t := fun t ⟨k, hk, _⟩ => List.not_mem_nil hk
  refine ⟨⟨[], List.nodup_nil, fun t => ?_, (List.append_nil _).symm⟩,
    fun t r ht => absurd ht (hno t), fun t ht => absurd ht (hno t), fun t _ => ⟨rfl, rfl, rfl⟩,
    fun k => rfl, rfl, rfl, ⟨rfl, rfl, rfl⟩, Nat.le_refl _⟩
  simp [hno t]

/-- A task that the second sweep finds is one that the first has left. -/
theorem Swept.ownedBy_append {dead dead' : List String} {w₁ : World} (h : Swept env dead w w₁)
    (t : String) : w.coord.OwnedBy (dead ++ dead') t ↔
      w.coord.OwnedBy dead t ∨ ¬ w.coord.OwnedBy dead t ∧ w₁.coord.OwnedBy dead' t := by
  by_cases ht : w.coord.OwnedBy dead t
  · obtain ⟨k, hk, hrun⟩ := ht
    simp only [show w.coord.OwnedBy dead t from ⟨k, hk, hrun⟩, true_or, iff_true]
    exact ⟨k, List.mem_append_left _ hk, hrun⟩
  · have hsame := (h.miss t ht).2.1
    simp only [ht, false_or, not_false_eq_true, true_and]
    constructor
    · rintro ⟨k, hk, hrun⟩
      have hk' := (List.mem_append.mp hk).resolve_left fun hin => ht ⟨k, hin, hrun⟩
      exact ⟨k, hk', hsame.trans hrun⟩
    · rintro ⟨k, hk, hrun⟩
      exact ⟨k, List.mem_append_right _ hk, hsame.symm.trans hrun⟩

/-- Two sweeps, one after the other. -/
theorem Swept.trans {dead dead' : List String} {w₁ w₂ : World} (h : Swept env dead w w₁)
    (h' : Swept env dead' w₁ w₂) : Swept env (dead ++ dead') w w₂ := by
  have hfreed : ∀ t, w.coord.OwnedBy dead t → ¬ w₁.coord.OwnedBy dead' t := by
    rintro t ht ⟨k, _, hrun⟩
    rw [(h.freed t ht).1] at hrun
    cases hrun
  obtain ⟨l, hnd, hl, hq⟩ := h.queue
  obtain ⟨l', hnd', hl', hq'⟩ := h'.queue
  refine ⟨⟨l ++ l', ?_, fun t => ?_, by rw [hq', hq, List.append_assoc]⟩, fun t r ht hr => ?_,
    fun t ht => ?_, fun t ht => ?_, fun k => ?_, h'.workflows.trans h.workflows,
    h'.workflowState.trans h.workflowState, ?_, h.uuids.trans h'.uuids⟩
  · refine List.nodup_append.mpr ⟨hnd, hnd', fun t ht t' ht' heq => ?_⟩
    exact hfreed t ((hl t).mp ht) ((hl' t).mp (heq ▸ ht'))
  · rw [List.mem_append, hl, hl', h.ownedBy_append]
    by_cases ht : w.coord.OwnedBy dead t <;> simp [ht]
  · rcases (h.ownedBy_append t).mp ht with ht | ⟨hno, ht⟩
    · obtain ⟨n, now, hle, hlt, hget⟩ := h.hit t r ht hr
      exact ⟨n, now, hle, hlt.trans_le h'.uuids, (h'.miss t (hfreed t ht)).1.trans hget⟩
    · obtain ⟨n, now, hle, hlt, hget⟩ := h'.hit t r ht ((h.miss t hno).1.trans hr)
      exact ⟨n, now, h.uuids.trans hle, hlt, hget⟩
  · rcases (h.ownedBy_append t).mp ht with ht | ⟨_, ht⟩
    · have hsame := (h'.miss t (hfreed t ht)).2
      exact ⟨hsame.1.trans (h.freed t ht).1, hsame.2.trans (h.freed t ht).2⟩
    · exact h'.freed t ht
  · rw [h.ownedBy_append, not_or, not_and] at ht
    have hfirst := h.miss t ht.1
    have hsecond := h'.miss t (ht.2 ht.1)
    exact ⟨hsecond.1.trans hfirst.1, hsecond.2.1.trans hfirst.2.1, hsecond.2.2.trans hfirst.2.2⟩
  · rw [h'.monitor, h.monitor]
    by_cases hk : k ∈ dead <;> by_cases hk' : k ∈ dead' <;> simp [hk, hk']
  · exact ⟨h'.caches.spec.trans h.caches.spec, h'.caches.owner.trans h.caches.owner,
      h'.caches.policy.trans h.caches.policy⟩

/-- `HandleDeadWorker` sweeps one worker. -/
theorem DeadWorkerEffect.swept {k : String} {w₁ : World} (heff : DeadWorkerEffect env k w w₁) :
    Swept env [k] w w₁ := by
  obtain ⟨l, w₂, hnd, hmem, hreq, rfl⟩ := heff.claimed
  have howned : ∀ t, w.coord.OwnedBy [k] t ↔ t ∈ l := by
    intro t
    rw [hmem]
    constructor
    · rintro ⟨k', hk', hrun⟩
      rw [← List.mem_singleton.mp hk']
      exact hrun
    · exact fun hrun => ⟨k, List.mem_singleton_self k, hrun⟩
  have hcoord : w₂.coord = (l.foldl Coordinator.forget w.coord).enqueue l := hreq.coord
  refine ⟨⟨l, hnd, fun t => (howned t).symm, ?_⟩, fun t r ht hr => ?_, fun t ht => ?_,
    fun t ht => ?_, fun k' => ?_, hreq.workflows, hreq.workflowState, ?_, hreq.uuids⟩
  · dsimp only
    rw [hcoord, Coordinator.enqueue_readyQueue, Coordinator.foldl_forget_readyQueue]
  · exact hreq.hit t r ((howned t).mp ht) hr
  · dsimp only
    rw [hcoord, Coordinator.enqueue_runningTasks, Coordinator.enqueue_assignedTasks,
      Coordinator.get_foldl_forget_running, Coordinator.get_foldl_forget_assigned,
      if_pos ((howned t).mp ht), if_pos ((howned t).mp ht)]
    exact ⟨rfl, rfl⟩
  · rw [howned] at ht
    refine ⟨hreq.miss t ht, ?_⟩
    dsimp only
    rw [hcoord, Coordinator.enqueue_runningTasks, Coordinator.enqueue_assignedTasks,
      Coordinator.get_foldl_forget_running, Coordinator.get_foldl_forget_assigned,
      if_neg ht, if_neg ht]
    exact ⟨rfl, rfl⟩
  · have hbeat : w₂.coord.heartbeat = w.coord.heartbeat := by
      rw [hcoord]
      exact Coordinator.foldl_forget_heartbeat w.coord l
    dsimp only
    rw [hbeat, HeartbeatMonitor.removeWorker, Table.get_erase]
    by_cases hk : k = k' <;> simp [hk, eq_comm]
  · dsimp only
    have hcaches := Coordinator.sameCaches_foldl_forget w.coord l
    rw [hcoord]
    exact ⟨hcaches.spec, hcaches.owner, hcaches.policy⟩

/-- The monitor forgets a worker that is gone already. -/
theorem Swept.untrack {dead : List String} {w₁ : World} (h : Swept env dead w w₁) {k : String}
    (hk : k ∈ dead) :
    Swept env dead w (w₁.withMonitor (w₁.coord.heartbeat.removeWorker k)) := by
  refine ⟨h.queue, h.hit, h.freed, h.miss, fun k' => ?_, h.workflows, h.workflowState,
    ⟨h.caches.spec, h.caches.owner, h.caches.policy⟩, h.uuids⟩
  show (w₁.coord.heartbeat.lastHeartbeat.erase k)[k']? = _
  rw [Table.get_erase, h.monitor]
  by_cases hkk : k = k'
  · subst hkk
    simp [hk]
  · simp [hkk]

/-- The loop over the dead workers. -/
theorem Inv.handleDeadWorkers {P : WorkflowSpec → Prop} (h : Inv P w)
    (orders : String → RangeOrder String) (l : List String) :
    Swept env l w ((DagScheduler.handleDeadWorkers orders l).run (Action.handle env) w).2 := by
  induction l generalizing w with
  | nil => exact swept_nil env w
  | cons k l ih =>
    have hadm : (Call.handleDeadWorker (orders k) k).Admissible P w := fun _ hsub => nomatch hsub
    have heff : Effect env w (.handleDeadWorker (orders k) k) _ _ := (h.exec _ hadm).1
    have hinv : Inv P ((Call.handleDeadWorker (orders k) k).exec env w).2 := (h.exec _ hadm).2
    have hworld : ((Call.handleDeadWorker (orders k) k).exec env w).2
        = ((handleDeadWorker (orders k) k).run (Action.handle env) w).2 := by
      rw [Call.exec, Call.prog, Prog.run_bind]
      rfl
    rw [hworld] at hinv heff
    rw [DagScheduler.handleDeadWorkers, Prog.run_bind, Prog.run_bind]
    generalize ((Call.handleDeadWorker (orders k) k).exec env w).1 = reply at heff
    generalize ((handleDeadWorker (orders k) k).run (Action.handle env) w).2 = w₁ at hinv heff ⊢
    cases heff with
    | handleDeadWorker heff =>
      exact (heff.swept.untrack (List.mem_singleton_self k)).trans (ih (hinv.withMonitor _))

/-- A round of the monitor takes the tasks of all workers that it finds dead, and of no
other ones.  Each of these tasks is queued again once, under a fresh execution.  The
monitor forgets these workers, and everything else stays as it is. -/
theorem scan_sweeps (env : Env) {steps : List ProcessStep}
    (hids : NeverReused (steps.filterMap ProcessStep.submits)) (order : RangeOrder String)
    (orders : String → RangeOrder String) (deadThreshold nowMs : Int64) :
    Swept env
      ((runProcess env steps).coord.heartbeat.getDeadWorkers order deadThreshold nowMs)
      (runProcess env steps)
      (runProcess env (steps ++ [.job (.scan order orders deadThreshold nowMs)])) := by
  rw [runProcess_append, ProcessStep.exec_scan]
  exact (inv_runProcess env hids).handleDeadWorkers orders _

/-- The process is started again while a task is with a worker.  Two workers send a
heartbeat each and get a task, a client cancels a workflow that does not exist and asks
for the status of the other one.  Then only one of the workers is heard of. -/
def silentWorker : List ProcessStep :=
  [.job (.submit .asListed (.roots .failFast 3)), .job (.message "k" (.taskRequest 1)), .restart,
    .job (.message "k" (.heartbeat 1000 [])), .job (.message "l" (.heartbeat 1000 [])),
    .job (.message "k" (.taskRequest 1)), .job (.message "l" (.taskRequest 1)),
    .job (.cancel "v"), .job (.status "w"), .job (.message "l" (.heartbeat 19000 ["c"]))]

/-- The round that declares the other worker dead. -/
def roundAfter : Job := .scan (.asListed _) (fun _ => .asListed _) 15000000000 20000

theorem scan_sweeps_silentWorker :
    (runProcess .counting silentWorker).coord.OwnedBy ["k"] "b" ∧
      (runProcess .counting silentWorker).coord.OwnedBy ["l"] "c" ∧
      Swept .counting ["k"] (runProcess .counting silentWorker)
        (runProcess .counting (silentWorker ++ [.job roundAfter])) := by
  have hdead : (runProcess .counting silentWorker).coord.heartbeat.getDeadWorkers (.asListed _)
      15000000000 20000 = ["k"] := by decide
  have hids : NeverReused (silentWorker.filterMap ProcessStep.submits) :=
    List.pairwise_singleton _ _
  have hsweep := scan_sweeps .counting hids (.asListed _) (fun _ => .asListed _) 15000000000 20000
  rw [hdead] at hsweep
  exact ⟨⟨"k", List.mem_singleton_self _, by decide⟩, ⟨"l", List.mem_singleton_self _, by decide⟩,
    hsweep⟩

end DagScheduler
