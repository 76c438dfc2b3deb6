import DagScheduler.Lib.Pool
import DagScheduler.Model.Run

/-!
# The control points of the operations

Every point stands before one atomic step: a section under the mutex, a
`db.View`, a `db.Update`, or a new UUID.  It carries the local variables that
are still needed.  `Point.move` gives the step and the point after it.

`tracks_prog` says that the operations are exactly the unfoldings of their
first points, so an invariant over the points of all running calls is an
invariant of the source.  `SubmitWorkflow` and the restart are not among them:
no property about interleavings runs them concurrently.
-/

namespace DagScheduler

open Lib Program

/-! ## What an action is for -/

/-- The task that an action completes. -/
def Action.completes {β : Type} : Action β → Option String
  | .update (.completeTask t _ _) => some t
  | _ => none

/-- The assignment that an action returns. -/
def Action.assignment (env : Env) (w : World) {β : Type} : Action β → Option TaskAssignment
  | .getReadyTask workerID => (w.getReadyTask env workerID).1
  | _ => none

/-- The action is a section under the mutex. -/
def Action.isSection {β : Type} : Action β → Bool
  | .locked _ => true
  | _ => false

/-! ## Points -/

/-- Where a running call stands. -/
inductive Point where
  | done
  | getReady (workerID : String)
  -- `CompleteTask`
  | completeCheck (taskID executionID output : String)
  | completeLookup (taskID executionID : String)
  | completeCommit (taskID executionID output : String)
  | completePublish (taskID : String) (downstreamReady : List String)
  | completeOwner (taskID : String)
  -- `checkWorkflowCompletion`
  | checkComplete (workflowID : String)
  | checkStatuses (workflowID : String)
  | close (workflowID : String) (failed : Bool)
  -- `FailTask`
  | failCheck (taskID executionID errMsg : String)
  | failRead (taskID executionID errMsg : String)
  | failLimit (taskID executionID errMsg : String) (attemptCount : Int32)
  | failDraw (taskID executionID : String)
  | failRequeue (taskID executionID newID : String)
  | failPublish (taskID executionID : String)
  | failCommit (taskID executionID errMsg : String) (attemptCount : Int32)
  | failForget (taskID executionID : String)
  -- `applyFailurePolicy`
  | stopCancel (workflowID : String)
  | stopDrop (workflowID : String) (cancelled : List String)
  | skipStart (workflowID taskID : String)
  | skipRead (workflowID : String) (fuel : Nat) (taskID : String)
      (queue visited skipped : List String)
  | skipWrite (workflowID : String) (fuel : Nat) (taskID : String)
      (queue visited skipped : List String)
  | skipDrop (workflowID : String) (skipped : List String)
  -- `HandleDeadWorker`
  | deadClaim (order : RangeOrder String) (workerID : String)
  | deadDraw (workerID taskID : String) (rest : List String)
  | deadRequeue (workerID taskID newID : String) (rest : List String)
  | deadPublish (workerID taskID : String) (rest : List String)
  | deadForget (workerID : String)
  -- `CancelWorkflow`
  | cancelTasks (workflowID : String)
  | cancelDrop (workflowID : String) (cancelled : List String)
  | cancelClose (workflowID : String)

namespace Point

/-- The end of `SkipDownstreamTasks` in `applyFailurePolicy`. -/
def skipEnd (workflowID : String) (skipped : List String) : Point :=
  if skipped ≠ [] then .skipDrop workflowID skipped else .checkComplete workflowID

/-- The loop of `SkipDownstreamTasks` up to its next read. -/
def skipNext (workflowID : String) :
    Nat → (queue visited skipped : List String) → Point
  | _, [], _, skipped => skipEnd workflowID skipped
  | 0, _ :: _, _, _ => .done
  | fuel + 1, taskID :: queue, visited, skipped =>
    if taskID ∈ visited then skipNext workflowID fuel queue visited skipped
    else .skipRead workflowID fuel taskID queue visited skipped

/-- The loop of `HandleDeadWorker` up to its next UUID. -/
def deadNext (workerID : String) : List String → Point
  | [] => .deadForget workerID
  | taskID :: rest => .deadDraw workerID taskID rest

/-- The switch of `applyFailurePolicy`. -/
def policy (workflowID failedTaskID : String) : FailurePolicy → Point
  | .failFast => .stopCancel workflowID
  | .skipDownstream | .continueIndependent => .skipStart workflowID failedTaskID
  | .unrecognized _ _ => .done

/-- The step of a point, and the points after it. -/
def move : Point → Option (Move Action Point)
  | .done => none
  | .getReady k => some ⟨.getReadyTask k, fun _ => .done⟩
  | .completeCheck t e output => some
      ⟨.locked fun _ c => (c.assignedTasks[t]?, c), fun
        | none => .completeLookup t e
        | some assigned => if assigned ≠ e then .done else .completeCommit t e output⟩
  | .completeLookup t _ => some ⟨.view (·.getTask t), fun _ => .done⟩
  | .completeCommit t e output => some
      ⟨.update (.completeTask t e output), fun
        | .error _ => .done
        | .ok ready => .completePublish t ready⟩
  | .completePublish t ready => some
      ⟨.locked fun _ c => ((), (c.forget t).enqueue ready), fun _ => .completeOwner t⟩
  | .completeOwner t => some
      ⟨.locked fun _ c => (c.taskWorkflowMap.getD t "", c), fun id =>
        if id ≠ "" then .checkComplete id else .done⟩
  | .checkComplete id => some
      ⟨.view (·.isWorkflowComplete id), fun complete =>
        if complete = true then .checkStatuses id else .done⟩
  | .checkStatuses id => some
      ⟨.view (·.getTaskStatusesForWorkflow id), fun statuses =>
        .close id (statuses.any (·.state = .failed))⟩
  | .close id failed => some
      ⟨.update (.updateWorkflowState id (if failed then .failed else .complete)),
        fun _ => .done⟩
  | .failCheck t e errMsg => some
      ⟨.locked fun _ c => (c.assignedTasks[t]?, c), fun assigned =>
        if assigned ≠ some e then .done else .failRead t e errMsg⟩
  | .failRead t e errMsg => some
      ⟨.view (·.getTask t), fun
        | .error _ => .done
        | .ok task => .failLimit t e errMsg (task.attemptCount + 1)⟩
  | .failLimit t e errMsg attempts => some
      ⟨.locked fun _ c => (c.retryLimit t, c), fun maxRetries =>
        if attempts < maxRetries then .failDraw t e else .failCommit t e errMsg attempts⟩
  | .failDraw t e => some ⟨.newUUID, fun newID => .failRequeue t e newID⟩
  | .failRequeue t e newID => some
      ⟨.update (.requeueTask t newID), fun
        | .error _ => .done
        | .ok _ => .failPublish t e⟩
  | .failPublish t _ => some
      ⟨.locked fun _ c => ((), (c.forget t).enqueue [t]), fun _ => .done⟩
  | .failCommit t e errMsg attempts => some
      ⟨.update (.failTask t errMsg attempts), fun
        | .error _ => .done
        | .ok _ => .failForget t e⟩
  | .failForget t _ => some
      ⟨.locked fun _ c =>
        ((c.taskWorkflowMap.getD t "",
          c.workflowFailurePolicy.getD (c.taskWorkflowMap.getD t "") .failFast), c.forget t),
        fun found => if found.1 ≠ "" then policy found.1 t found.2 else .done⟩
  | .stopCancel id => some
      ⟨.update (.cancelWorkflowTasks id), fun
        | .error _ => .done
        | .ok cancelled => .stopDrop id cancelled⟩
  | .stopDrop id cancelled => some
      ⟨.locked fun _ c => ((), c.dropFromQueue cancelled), fun _ => .close id true⟩
  | .skipStart id t => some
      ⟨.view fun s => (s.getTask t, s.edgeCount), fun
        | (.error _, _) => .checkComplete id
        | (.ok task, edges) => skipNext id (task.downstreamTaskIDs.length + edges)
            task.downstreamTaskIDs [] []⟩
  | .skipRead id fuel t queue visited skipped => some
      ⟨.view (·.getTask t), fun
        | .error _ => skipNext id fuel queue (t :: visited) skipped
        | .ok task =>
          if task.state.terminal then
            skipNext id fuel (queue ++ task.downstreamTaskIDs) (t :: visited) skipped
          else
            .skipWrite id fuel t (queue ++ task.downstreamTaskIDs) visited skipped⟩
  | .skipWrite id fuel t queue visited skipped => some
      ⟨.update (.updateTaskState t .skipped), fun
        | .error _ => skipNext id fuel queue (t :: visited) skipped
        | .ok _ => skipNext id fuel queue (t :: visited) (skipped ++ [t])⟩
  | .skipDrop id skipped => some
      ⟨.locked fun _ c => ((), c.dropFromQueue skipped), fun _ => .checkComplete id⟩
  | .deadClaim order k => some
      ⟨.locked fun _ c => c.claimTasks order k, fun tasks => deadNext k tasks⟩
  | .deadDraw k t rest => some ⟨.newUUID, fun newID => .deadRequeue k t newID rest⟩
  | .deadRequeue k t newID rest => some
      ⟨.update (.requeueTask t newID), fun
        | .error _ => deadNext k rest
        | .ok _ => .deadPublish k t rest⟩
  | .deadPublish k t rest => some
      ⟨.locked fun _ c => ((), c.enqueue [t]), fun _ => deadNext k rest⟩
  | .deadForget k => some
      ⟨.locked fun _ c => ((), { c with heartbeat := c.heartbeat.removeWorker k }),
        fun _ => .done⟩
  | .cancelTasks id => some
      ⟨.update (.cancelWorkflowTasks id), fun
        | .error _ => .done
        | .ok cancelled => .cancelDrop id cancelled⟩
  | .cancelDrop id cancelled => some
      ⟨.locked fun _ c => ((), c.dropFromQueue cancelled), fun _ => .cancelClose id⟩
  | .cancelClose id => some ⟨.update (.updateWorkflowState id .cancelled), fun _ => .done⟩

/-- Only the last point has no step. -/
theorem move_eq_none {p : Point} : p.move = none ↔ p = .done := by
  cases p <;> simp [move]

end Point

/-- The operations that have points. -/
def Call.concurrent : Call → Bool
  | .submitWorkflow _ _ | .restart => false
  | _ => true

theorem Call.concurrent_of_onTasks {c : Call} (hc : c.onTasks = true) :
    c.concurrent = true := by
  cases c <;> first | rfl | cases hc

/-- The machine of the operations. -/
def coordinator : Machine Action Call Point where
  init
    | .getReadyTask k => .getReady k
    | .completeTask t e output => .completeCheck t e output
    | .failTask t e errMsg => .failCheck t e errMsg
    | .cancelWorkflow id => .cancelTasks id
    | .handleDeadWorker order k => .deadClaim order k
    | .submitWorkflow _ _ | .restart => .done
  move := Point.move

/-! ## The operations follow their points -/

/-- One action and the rest of the program. -/
theorem tracks_act {α β : Type} {e : Action β} {k : β → Program α} {p : Point}
    {next : β → Point} (hmove : p.move = some ⟨e, next⟩)
    (hnext : ∀ b, coordinator.Tracks (next b) (k b)) :
    coordinator.Tracks p (Prog.act e >>= k) :=
  ⟨next, hmove, hnext⟩

/-- What a program answers does not matter to its points. -/
theorem tracks_map {α β : Type} (f : α → β) {p : Point} {rest : Program α}
    (h : coordinator.Tracks p rest) : coordinator.Tracks p (rest >>= fun a => pure (f a)) := by
  induction rest generalizing p with
  | ret a => exact h
  | step e k ih =>
    obtain ⟨next, hmove, hnext⟩ := h
    exact ⟨next, hmove, fun b => ih b (hnext b)⟩

theorem tracks_checkWorkflowCompletion (id : String) :
    coordinator.Tracks (.checkComplete id) (checkWorkflowCompletion id) := by
  refine tracks_act rfl fun complete => ?_
  unfold Prog.when
  split
  · exact tracks_act rfl fun statuses => tracks_act rfl fun _ => rfl
  · rfl

theorem tracks_completeTask (t e output : String) :
    coordinator.Tracks (.completeCheck t e output) (completeTask t e output) := by
  refine tracks_act rfl fun assigned => ?_
  cases assigned with
  | none =>
    refine tracks_act rfl fun found => ?_
    cases found with
    | error _ => rfl
    | ok task =>
      dsimp only
      split
      · split <;> rfl
      · rfl
  | some assigned =>
    dsimp only
    split
    · rfl
    · refine tracks_act rfl fun result => ?_
      cases result with
      | error _ => rfl
      | ok ready =>
        refine tracks_act rfl fun _ => tracks_act rfl fun id => ?_
        apply tracks_map
        unfold Prog.when
        split
        · exact tracks_checkWorkflowCompletion id
        · rfl

/-- The traversal has come to its end. -/
theorem tracks_afterSkip (id : String) (skipped : List String) :
    coordinator.Tracks (Point.skipEnd id skipped) (afterSkip id (.ok skipped)) := by
  rw [afterSkip]
  unfold Point.skipEnd Prog.when
  split
  · exact tracks_act rfl fun _ => tracks_checkWorkflowCompletion id
  · exact tracks_checkWorkflowCompletion id

/-- The loop of `SkipDownstreamTasks` and what is behind it. -/
theorem tracks_skipLoop (id : String) (fuel : Nat) :
    ∀ queue visited skipped, coordinator.Tracks (Point.skipNext id fuel queue visited skipped)
      (skipLoop fuel queue visited skipped >>= afterSkip id) := by
  induction fuel with
  | zero =>
    intro queue visited skipped
    cases queue with
    | nil => exact tracks_afterSkip id skipped
    | cons t queue => rfl
  | succ fuel ih =>
    intro queue visited skipped
    cases queue with
    | nil => exact tracks_afterSkip id skipped
    | cons t queue =>
      unfold Point.skipNext skipLoop
      split
      · exact ih _ _ _
      · rw [Prog.bind_assoc]
        refine tracks_act rfl fun found => ?_
        cases found with
        | error _ => exact ih _ _ _
        | ok task =>
          dsimp only
          split
          · exact ih _ _ _
          · rw [Prog.bind_assoc]
            refine tracks_act rfl fun result => ?_
            cases result with
            | error _ => exact ih _ _ _
            | ok _ => exact ih _ _ _

theorem tracks_applyFailurePolicy (id t : String) (policy : FailurePolicy) :
    coordinator.Tracks (Point.policy id t policy) (applyFailurePolicy id t policy) := by
  have hskip : coordinator.Tracks (.skipStart id t) (applyFailurePolicy id t .skipDownstream) := by
    unfold applyFailurePolicy skipDownstreamTasks
    rw [Prog.bind_assoc]
    refine tracks_act rfl fun found => ?_
    obtain ⟨found, edges⟩ := found
    cases found with
    | error _ => exact tracks_checkWorkflowCompletion id
    | ok task => exact tracks_skipLoop id _ _ _ _
  cases policy with
  | failFast =>
    refine tracks_act rfl fun result => ?_
    cases result with
    | error _ => rfl
    | ok cancelled => exact tracks_act rfl fun _ => tracks_act rfl fun _ => rfl
  | skipDownstream => exact hskip
  | continueIndependent => exact hskip
  | unrecognized _ _ => rfl

theorem tracks_failTask (t e errMsg : String) :
    coordinator.Tracks (.failCheck t e errMsg) (failTask t e errMsg) := by
  refine tracks_act rfl fun assigned => ?_
  dsimp only
  split
  · rfl
  · refine tracks_act rfl fun found => ?_
    cases found with
    | error _ => rfl
    | ok task =>
      refine tracks_act rfl fun limit => ?_
      split
      · refine tracks_act rfl fun newID => tracks_act rfl fun result => ?_
        cases result with
        | error _ => rfl
        | ok _ => exact tracks_act rfl fun _ => rfl
      · refine tracks_act rfl fun result => ?_
        cases result with
        | error _ => rfl
        | ok _ =>
          refine tracks_act rfl fun found => ?_
          apply tracks_map
          unfold Prog.when
          split
          · exact tracks_applyFailurePolicy _ _ _
          · rfl

theorem tracks_cancelWorkflow (id : String) :
    coordinator.Tracks (.cancelTasks id) (cancelWorkflow id) := by
  refine tracks_act rfl fun result => ?_
  cases result with
  | error _ => rfl
  | ok cancelled =>
    refine tracks_act rfl fun _ => tracks_act rfl fun result => ?_
    cases result <;> rfl

/-- The loop of `HandleDeadWorker` inside a longer program. -/
theorem tracks_requeueAll {α : Type} (k : String) {rest : Unit → Program α}
    (hrest : coordinator.Tracks (.deadForget k) (rest ())) (tasks : List String) :
    coordinator.Tracks (Point.deadNext k tasks) (requeueAll tasks >>= rest) := by
  induction tasks with
  | nil => exact hrest
  | cons t tasks ih =>
    unfold requeueAll
    rw [Prog.bind_assoc]
    refine tracks_act rfl fun newID => ?_
    rw [Prog.bind_assoc]
    refine tracks_act rfl fun result => ?_
    cases result with
    | error _ => exact ih
    | ok _ => exact tracks_act rfl fun _ => ih

theorem tracks_handleDeadWorker (order : RangeOrder String) (k : String) :
    coordinator.Tracks (.deadClaim order k) (handleDeadWorker order k) := by
  refine tracks_act rfl fun tasks => ?_
  refine tracks_requeueAll k ?_ tasks
  exact tracks_act rfl fun _ => rfl

/-- Every operation with points is the unfolding of its first one. -/
theorem tracks_prog (c : Call) (hc : c.concurrent = true) :
    coordinator.Tracks (coordinator.init c) c.prog := by
  cases c with
  | submitWorkflow _ _ => cases hc
  | restart => cases hc
  | getReadyTask k => exact tracks_act rfl fun _ => rfl
  | completeTask t e output => exact tracks_map _ (tracks_completeTask t e output)
  | failTask t e errMsg => exact tracks_map _ (tracks_failTask t e errMsg)
  | cancelWorkflow id => exact tracks_map _ (tracks_cancelWorkflow id)
  | handleDeadWorker order k => exact tracks_map _ (tracks_handleDeadWorker order k)

/-- When all calls have returned, all threads are at the last point. -/
theorem done_of_returned {ts : List (Thread Call Action Reply)} {ps : List (Call × Point)}
    (hfollow : coordinator.Follow ts ps) (hreturned : ∀ th ∈ ts, th.rest.isRet = true) :
    ∀ q ∈ ps, q.2 = .done := by
  intro q hq
  obtain ⟨i, hi⟩ := List.mem_iff_getElem?.mp hq
  have hlt : i < ts.length := hfollow.length ▸ (List.getElem?_eq_some_iff.mp hi).1
  have hret := (hfollow.tracks i _ q (List.getElem?_eq_getElem hlt) hi).2.isRet
  rw [hreturned _ (List.getElem_mem hlt)] at hret
  exact Point.move_eq_none.mp (Option.isNone_iff_eq_none.mp hret.symm)

/-! ## Schedules that can be evaluated -/

/-- The events, the threads and the world of a schedule that starts after the
given calls. -/
def scheduleAfter (calls : List Call) (schedule : List (Choice Call)) :
    List (Event Call Action World) × List (Thread Call Action Reply) × World :=
  Pool.exec (Action.handle .counting) Call.prog (runCalls .counting calls) schedule

theorem interleaving_scheduleAfter (calls : List Call) (schedule : List (Choice Call)) :
    Interleaving (Action.handle .counting) Call.prog (runCalls .counting calls)
      (scheduleAfter calls schedule).1 (scheduleAfter calls schedule).2.1
      (scheduleAfter calls schedule).2.2 :=
  Pool.interleaving_exec _ _ _ _

end DagScheduler
