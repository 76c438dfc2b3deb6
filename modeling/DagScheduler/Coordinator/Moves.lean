import DagScheduler.Coordinator.Points
import DagScheduler.Coordinator.Rules

/-!
# What one step of a call does

A step between two points is of one of five kinds.

* `Reads`: it looks at the store or at the memory and changes neither.
* `Draws`: it takes a new UUID.
* `Writes`: it is one `db.Update`.
* `Locks`: it is a section under the mutex that writes the memory.
* `GetReadyTask`, which is one step and does both.

`Point.steps` is the inversion lemma.  The invariants of the interleavings
are proved from these relations and never from the actions themselves.  The
rounds of `SkipDownstreamTasks` are kept only as far as `Skipping`.
-/

namespace DagScheduler

open Lib Store

/-- The points of `SkipDownstreamTasks` and of what follows it.  A loop without
rounds stops where it is. -/
inductive Point.Skipping (id : String) : Point → Prop where
  | read (fuel : Nat) (t : String) (queue visited skipped : List String) :
      Skipping id (.skipRead id fuel t queue visited skipped)
  | write (fuel : Nat) (t : String) (queue visited skipped : List String) :
      Skipping id (.skipWrite id fuel t queue visited skipped)
  | drop (skipped : List String) : Skipping id (.skipDrop id skipped)
  | check : Skipping id (.checkComplete id)
  | stuck : Skipping id .done

/-- The steps that change nothing. -/
inductive Reads (s : Store) (c : Coordinator) : Point → Point → Prop where
  | completeOurs {t e output : String} : c.assignedTasks[t]? = some e →
      Reads s c (.completeCheck t e output) (.completeCommit t e output)
  | completeOther {t e output e' : String} : c.assignedTasks[t]? = some e' → e' ≠ e →
      Reads s c (.completeCheck t e output) .done
  | completeAbsent {t e output : String} : c.assignedTasks[t]? = none →
      Reads s c (.completeCheck t e output) (.completeLookup t e)
  | completeLookup {t e : String} : Reads s c (.completeLookup t e) .done
  | completeOwner {t id : String} : c.taskWorkflowMap.getD t "" = id → id ≠ "" →
      Reads s c (.completeOwner t) (.checkComplete id)
  | completeNoOwner {t : String} : c.taskWorkflowMap.getD t "" = "" →
      Reads s c (.completeOwner t) .done
  | checkDone {id : String} : s.isWorkflowComplete id = true →
      Reads s c (.checkComplete id) (.checkStatuses id)
  | checkOpen {id : String} : s.isWorkflowComplete id = false →
      Reads s c (.checkComplete id) .done
  | checkStatuses {id : String} :
      Reads s c (.checkStatuses id)
        (.close id ((s.getTaskStatusesForWorkflow id).any (·.state = .failed)))
  | failOurs {t e errMsg : String} : c.assignedTasks[t]? = some e →
      Reads s c (.failCheck t e errMsg) (.failRead t e errMsg)
  | failOther {t e errMsg : String} : c.assignedTasks[t]? ≠ some e →
      Reads s c (.failCheck t e errMsg) .done
  | failRead {t e errMsg : String} {r : TaskStateRecord} : s.taskState[t]? = some r →
      Reads s c (.failRead t e errMsg) (.failLimit t e errMsg (r.attemptCount + 1))
  | failAbsent {t e errMsg : String} : s.taskState[t]? = none →
      Reads s c (.failRead t e errMsg) .done
  | failRetry {t e errMsg : String} {attempts : Int32} : attempts < c.retryLimit t →
      Reads s c (.failLimit t e errMsg attempts) (.failDraw t e)
  | failLast {t e errMsg : String} {attempts : Int32} : ¬ attempts < c.retryLimit t →
      Reads s c (.failLimit t e errMsg attempts) (.failCommit t e errMsg attempts)
  | skipStart {id t : String} {p : Point} : p.Skipping id → Reads s c (.skipStart id t) p
  | skipRead {id t : String} {fuel : Nat} {queue visited skipped : List String}
      {p : Point} : p.Skipping id →
      Reads s c (.skipRead id fuel t queue visited skipped) p

/-- The steps that take a UUID. -/
inductive Draws (newID : String) : Point → Point → Prop where
  | fail {t e : String} : Draws newID (.failDraw t e) (.failRequeue t e newID)
  | dead {k t : String} {rest : List String} :
      Draws newID (.deadDraw k t rest) (.deadRequeue k t newID rest)

/-- The transactions: the store before, the points, and the store after. -/
inductive Writes (now : Int64) (s : Store) : Point → Point → Store → Prop where
  | completeRefused {t e output : String} :
      (∀ r, s.taskState[t]? = some r → r.executionID ≠ e) →
      Writes now s (.completeCommit t e output) .done s
  | completeAgain {t e output : String} {r : TaskStateRecord} :
      s.taskState[t]? = some r → r.executionID = e → r.state = .complete →
      Writes now s (.completeCommit t e output) (.completePublish t []) s
  | complete {t e output : String} {r : TaskStateRecord} {s' : Store} {ready : List String} :
      s.taskState[t]? = some r → r.executionID = e → r.state ≠ .complete →
      Completion now t output r s s' ready →
      Writes now s (.completeCommit t e output) (.completePublish t ready) s'
  | close {id : String} {failed : Bool} : validKey id = true →
      Writes now s (.close id failed) .done
        (s.setWorkflowState id (nextWorkflowState now id s.workflowState[id]?
          (if failed then .failed else .complete)))
  | closeRefused {id : String} {failed : Bool} : validKey id = false →
      Writes now s (.close id failed) .done s
  | retry {t e newID : String} {r : TaskStateRecord} : s.taskState[t]? = some r →
      Writes now s (.failRequeue t e newID) (.failPublish t e)
        (s.setTask t { r with state := .queued, executionID := newID, lastUpdated := now })
  | retryAbsent {t e newID : String} : s.taskState[t]? = none →
      Writes now s (.failRequeue t e newID) .done s
  | fail {t e errMsg : String} {attempts : Int32} {r : TaskStateRecord} :
      s.taskState[t]? = some r →
      Writes now s (.failCommit t e errMsg attempts) (.failForget t e)
        (s.setTask t { r with
          state := .failed, error := errMsg, attemptCount := attempts, lastUpdated := now })
  | failAbsent {t e errMsg : String} {attempts : Int32} : s.taskState[t]? = none →
      Writes now s (.failCommit t e errMsg attempts) .done s
  | stop {id : String} {cancelled : List String} {s' : Store} :
      Skips (fun u => s.ownerOf u = some id) s s' →
      Writes now s (.stopCancel id) (.stopDrop id cancelled) s'
  | skip {id t : String} {fuel : Nat} {queue visited skipped : List String}
      {r : TaskStateRecord} {p : Point} : s.taskState[t]? = some r → p.Skipping id →
      Writes now s (.skipWrite id fuel t queue visited skipped) p
        (s.setTask t { r with state := .skipped, lastUpdated := now })
  | skipAbsent {id t : String} {fuel : Nat} {queue visited skipped : List String}
      {p : Point} : s.taskState[t]? = none → p.Skipping id →
      Writes now s (.skipWrite id fuel t queue visited skipped) p s
  | requeue {k t newID : String} {rest : List String} {r : TaskStateRecord} :
      s.taskState[t]? = some r →
      Writes now s (.deadRequeue k t newID rest) (.deadPublish k t rest)
        (s.setTask t { r with state := .queued, executionID := newID, lastUpdated := now })
  | requeueAbsent {k t newID : String} {rest : List String} : s.taskState[t]? = none →
      Writes now s (.deadRequeue k t newID rest) (Point.deadNext k rest) s
  | cancel {id : String} {cancelled : List String} {s' : Store} :
      Skips (fun u => s.ownerOf u = some id) s s' →
      (∀ u, u ∈ cancelled ↔ s.ownerOf u = some id ∧ s.isOpen u) →
      Writes now s (.cancelTasks id) (.cancelDrop id cancelled) s'
  | cancelClose {id : String} : validKey id = true →
      Writes now s (.cancelClose id) .done
        (s.setWorkflowState id
          (nextWorkflowState now id s.workflowState[id]? .cancelled))
  | cancelCloseRefused {id : String} : validKey id = false →
      Writes now s (.cancelClose id) .done s

/-- The sections under the mutex that write. -/
inductive Locks (c : Coordinator) : Point → Point → Coordinator → Prop where
  | complete {t : String} {ready : List String} :
      Locks c (.completePublish t ready) (.completeOwner t) ((c.forget t).enqueue ready)
  | retry {t e : String} :
      Locks c (.failPublish t e) .done ((c.forget t).enqueue [t])
  | fail {t e : String} :
      Locks c (.failForget t e)
        (if c.taskWorkflowMap.getD t "" ≠ "" then
          Point.policy (c.taskWorkflowMap.getD t "") t
            (c.workflowFailurePolicy.getD (c.taskWorkflowMap.getD t "") .failFast)
        else .done)
        (c.forget t)
  | stop {id : String} {cancelled : List String} :
      Locks c (.stopDrop id cancelled) (.close id true) (c.dropFromQueue cancelled)
  | skip {id : String} {skipped : List String} :
      Locks c (.skipDrop id skipped) (.checkComplete id) (c.dropFromQueue skipped)
  | claim {order : RangeOrder String} {k : String} :
      Locks c (.deadClaim order k) (Point.deadNext k (c.claimTasks order k).1)
        (c.claimTasks order k).2
  | requeue {k t : String} {rest : List String} :
      Locks c (.deadPublish k t rest) (Point.deadNext k rest) (c.enqueue [t])
  | remove {k : String} :
      Locks c (.deadForget k) .done { c with heartbeat := c.heartbeat.removeWorker k }
  | cancel {id : String} {cancelled : List String} :
      Locks c (.cancelDrop id cancelled) (.cancelClose id) (c.dropFromQueue cancelled)

/-- One step of a call. -/
inductive Moves (env : Env) (w : World) : Point → Point → World → Prop where
  | reads {p p' : Point} : Reads w.store w.coord p p' → Moves env w p p' w
  | draws {p p' : Point} : Draws (env.uuid w.uuids) p p' →
      Moves env w p p' { w with uuids := w.uuids + 1 }
  | writes {p p' : Point} {s' : Store} : Writes (env.now w.ticks) w.store p p' s' →
      Moves env w p p' (w.wrote s')
  | locks {p p' : Point} {c' : Coordinator} : Locks w.coord p p' c' →
      Moves env w p p' { w with coord := c' }
  | ready {k : String} {a : Option TaskAssignment} {w' : World} :
      ReadyCases env w k (a, w') → Moves env w (.getReady k) .done w'

/-! ## The inversion lemma -/

theorem Point.skipping_skipEnd (id : String) (skipped : List String) :
    (Point.skipEnd id skipped).Skipping id := by
  unfold Point.skipEnd
  split
  · exact .drop skipped
  · exact .check

theorem Point.skipping_skipNext (id : String) (fuel : Nat) (queue visited skipped : List String) :
    (Point.skipNext id fuel queue visited skipped).Skipping id := by
  induction fuel generalizing queue with
  | zero =>
    cases queue with
    | nil => exact skipping_skipEnd id skipped
    | cons t queue => exact .stuck
  | succ fuel ih =>
    cases queue with
    | nil => exact skipping_skipEnd id skipped
    | cons t queue =>
      unfold Point.skipNext
      split
      · exact ih queue
      · exact .read fuel t queue visited skipped

/-- Whatever action the point has, it is a step of one of the five kinds. -/
def Point.Steps (env : Env) (w : World) (p : Point) : Prop :=
  ∀ (β : Type) (act : Action β) (next : β → Point), p.move = some ⟨act, next⟩ →
    Moves env w p (next (Action.handle env act w).1) (Action.handle env act w).2

section Inversion

variable {env : Env} {w : World}

/-- The action of a point is known. -/
theorem Point.steps_of_move {p : Point} {β : Type} {act : Action β} {next : β → Point}
    (hp : p.move = some ⟨act, next⟩)
    (h : Moves env w p (next (Action.handle env act w).1) (Action.handle env act w).2) :
    p.Steps env w := by
  intro β' act' next' hmove
  rw [hp] at hmove
  cases hmove
  exact h

/-- A step that only reads. -/
theorem Point.steps_of_reads {p : Point} {β : Type} {act : Action β} {next : β → Point}
    (hp : p.move = some ⟨act, next⟩) (hw : (Action.handle env act w).2 = w)
    (h : Reads w.store w.coord p (next (Action.handle env act w).1)) : p.Steps env w := by
  refine steps_of_move hp ?_
  rw [hw]
  exact .reads h

section Transactions

variable (hk : w.store.Keyed)
include hk

/-- A transaction on one record, as a step. -/
theorem Point.steps_modifyTask {op : StoreOp Unit} {p : Point}
    {next : Except StoreError Unit → Point} (hp : p.move = some ⟨.update op, next⟩)
    {t : String} {f : TaskStateRecord → TaskStateRecord}
    (hop : op.tx env.marshals (env.now w.ticks) = modifyTask t f)
    (hok : ∀ r, w.store.taskState[t]? = some r →
      Writes (env.now w.ticks) w.store p (next (.ok ())) (w.store.setTask t (f r)))
    (herror : w.store.taskState[t]? = none →
      Writes (env.now w.ticks) w.store p (next (.error .taskNotFound)) w.store) :
    p.Steps env w := by
  refine steps_of_move hp ?_
  rcases commit_modifyTask_cases hk t f with ⟨r, hr, hcommit⟩ | ⟨hr, hcommit⟩
  · have hupdate : Action.handle env (.update op) w
        = (.ok (), w.wrote (w.store.setTask t (f r))) := by
      rw [Action.handle, World.update, hop, hcommit]
      rfl
    rw [hupdate]
    exact .writes (hok r hr)
  · have hupdate : Action.handle env (.update op) w
        = (.error .taskNotFound, w.wrote w.store) := by
      rw [Action.handle, World.update, hop, hcommit]
      rfl
    rw [hupdate]
    exact .writes (herror hr)

omit hk in
/-- `UpdateWorkflowState`, as a step. -/
theorem Point.steps_updateWorkflowState {id : String} {st : WorkflowState} {p p' : Point}
    (hp : p.move = some ⟨.update (.updateWorkflowState id st), fun _ => p'⟩)
    (hok : validKey id = true → Writes (env.now w.ticks) w.store p p'
      (w.store.setWorkflowState id
        (nextWorkflowState (env.now w.ticks) id w.store.workflowState[id]? st)))
    (herror : validKey id = false → Writes (env.now w.ticks) w.store p p' w.store) :
    p.Steps env w := by
  refine steps_of_move hp ?_
  cases hv : validKey id with
  | true =>
    have hupdate : (Action.handle env (.update (.updateWorkflowState id st)) w).2 = w.wrote
        (w.store.setWorkflowState id
          (nextWorkflowState (env.now w.ticks) id w.store.workflowState[id]? st)) := by
      rw [Action.handle, World.update, StoreOp.tx, commit_updateWorkflowState hv]
      rfl
    rw [hupdate]
    exact .writes (hok hv)
  | false =>
    obtain ⟨e, he⟩ := commit_updateWorkflowState_refused hv (env.now w.ticks) st w.store
    have hupdate : (Action.handle env (.update (.updateWorkflowState id st)) w).2
        = w.wrote w.store := by
      rw [Action.handle, World.update, StoreOp.tx, he]
      rfl
    rw [hupdate]
    exact .writes (herror hv)

/-- `CancelWorkflowTasks`, as a step. -/
theorem Point.steps_cancelWorkflowTasks {id : String} {p : Point}
    {next : Except StoreError (List String) → Point}
    (hp : p.move = some ⟨.update (.cancelWorkflowTasks id), next⟩)
    (hok : ∀ cancelled s', Skips (fun u => w.store.ownerOf u = some id) w.store s' →
      (∀ u, u ∈ cancelled ↔ w.store.ownerOf u = some id ∧ w.store.isOpen u) →
      Writes (env.now w.ticks) w.store p (next (.ok cancelled)) s') : p.Steps env w := by
  obtain ⟨s', cancelled, hcommit, hskips, hmem⟩ :=
    commit_cancelWorkflowTasks hk (env.now w.ticks) id
  have hupdate : Action.handle env (.update (.cancelWorkflowTasks id)) w
      = (.ok cancelled, w.wrote s') := by
    show (_, w.wrote _) = _
    rw [StoreOp.tx, hcommit]
  refine steps_of_move hp ?_
  rw [hupdate]
  exact .writes (hok cancelled s' hskips hmem)

/-- The transaction of `CompleteTask`, as a step. -/
theorem Point.steps_completeCommit (t e output : String) :
    (Point.completeCommit t e output).Steps env w := by
  refine steps_of_move rfl ?_
  have hcases := commit_completeTask_cases hk (env.now w.ticks) t e output
  have hupdate : Action.handle env (.update (.completeTask t e output)) w
      = ((w.store.commit (Store.completeTask (env.now w.ticks) t e output)).1,
        w.wrote (w.store.commit (Store.completeTask (env.now w.ticks) t e output)).2) := rfl
  rw [hupdate]
  generalize w.store.commit (Store.completeTask (env.now w.ticks) t e output) = out at hcases
  cases hcases with
  | absent hr =>
    refine .writes (.completeRefused ?_)
    intro r hr'
    rw [hr] at hr'
    cases hr'
  | stale hr he =>
    refine .writes (.completeRefused ?_)
    intro r' hr'
    rw [hr] at hr'
    cases hr'
    exact he
  | again hr he hst => exact .writes (.completeAgain hr he hst)
  | done hr he hst hc => exact .writes (.complete hr he hst hc)

end Transactions

/-! The points where a call looks at what it has read. -/

theorem Point.steps_completeCheck (t e output : String) :
    (Point.completeCheck t e output).Steps env w := by
  refine steps_of_reads rfl rfl ?_
  generalize ha : (Action.handle env _ w).1 = found
  cases found with
  | none => exact .completeAbsent ha
  | some assigned =>
    dsimp only
    split
    · rename_i hne
      exact .completeOther ha hne
    · rename_i heq
      rw [not_not] at heq
      exact .completeOurs (heq ▸ ha)

theorem Point.steps_completeOwner (t : String) : (Point.completeOwner t).Steps env w := by
  refine steps_of_reads rfl rfl ?_
  show Reads _ _ _ (if w.coord.taskWorkflowMap.getD t "" ≠ "" then _ else _)
  split
  · rename_i hid
    exact .completeOwner rfl hid
  · rename_i hid
    exact .completeNoOwner (not_not.mp hid)

theorem Point.steps_checkComplete (id : String) : (Point.checkComplete id).Steps env w := by
  refine steps_of_reads rfl rfl ?_
  show Reads _ _ _ (if w.store.isWorkflowComplete id = true then _ else _)
  split
  · rename_i hdone
    exact .checkDone hdone
  · rename_i hopen
    exact .checkOpen (Bool.not_eq_true _ ▸ hopen)

theorem Point.steps_failCheck (t e errMsg : String) :
    (Point.failCheck t e errMsg).Steps env w := by
  refine steps_of_reads rfl rfl ?_
  show Reads _ _ _ (if w.coord.assignedTasks[t]? ≠ some e then _ else _)
  split
  · rename_i hne
    exact .failOther hne
  · rename_i heq
    exact .failOurs (not_not.mp heq)

theorem Point.steps_failRead (t e errMsg : String) :
    (Point.failRead t e errMsg).Steps env w := by
  refine steps_of_reads rfl rfl ?_
  have hread : (Action.handle env (.view fun s => s.getTask t) w).1 = w.store.getTask t := rfl
  rw [hread]
  unfold getTask
  cases hr : w.store.taskState[t]? with
  | none => exact .failAbsent hr
  | some r => exact .failRead hr

theorem Point.steps_failLimit (t e errMsg : String) (attempts : Int32) :
    (Point.failLimit t e errMsg attempts).Steps env w := by
  refine steps_of_reads rfl rfl ?_
  show Reads _ _ _ (if attempts < w.coord.retryLimit t then _ else _)
  split
  · rename_i hlt
    exact .failRetry hlt
  · rename_i hge
    exact .failLast hge

theorem Point.steps_skipStart (id t : String) : (Point.skipStart id t).Steps env w := by
  refine steps_of_reads rfl rfl (.skipStart ?_)
  generalize (Action.handle env _ w).1 = found
  obtain ⟨found, edges⟩ := found
  cases found with
  | error _ => exact .check
  | ok task => exact skipping_skipNext _ _ _ _ _

theorem Point.steps_skipRead (id : String) (fuel : Nat) (t : String)
    (queue visited skipped : List String) :
    (Point.skipRead id fuel t queue visited skipped).Steps env w := by
  refine steps_of_reads rfl rfl (.skipRead ?_)
  generalize (Action.handle env _ w).1 = found
  cases found with
  | error _ => exact skipping_skipNext _ _ _ _ _
  | ok task =>
    dsimp only
    split
    · exact skipping_skipNext _ _ _ _ _
    · exact .write _ _ _ _ _

/-- What the step of a point does. -/
theorem Point.steps (hk : w.store.Keyed) (p : Point) : p.Steps env w := by
  cases p with
  | done => exact fun _ _ _ hmove => nomatch hmove
  | getReady k => exact steps_of_move rfl (.ready (w.getReadyTask_cases hk k))
  -- `CompleteTask` and `checkWorkflowCompletion`
  | completeCheck t e output => exact steps_completeCheck t e output
  | completeLookup t e => exact steps_of_reads rfl rfl .completeLookup
  | completeCommit t e output => exact steps_completeCommit hk t e output
  | completePublish t ready => exact steps_of_move rfl (.locks .complete)
  | completeOwner t => exact steps_completeOwner t
  | checkComplete id => exact steps_checkComplete id
  | checkStatuses id => exact steps_of_reads rfl rfl .checkStatuses
  | close id failed => exact steps_updateWorkflowState rfl .close .closeRefused
  -- `FailTask`
  | failCheck t e errMsg => exact steps_failCheck t e errMsg
  | failRead t e errMsg => exact steps_failRead t e errMsg
  | failLimit t e errMsg attempts => exact steps_failLimit t e errMsg attempts
  | failDraw t e => exact steps_of_move rfl (.draws .fail)
  | failRequeue t e newID => exact steps_modifyTask hk rfl rfl (fun r => .retry) .retryAbsent
  | failPublish t e => exact steps_of_move rfl (.locks .retry)
  | failCommit t e errMsg attempts =>
    exact steps_modifyTask hk rfl rfl (fun r => .fail) .failAbsent
  | failForget t e => exact steps_of_move rfl (.locks .fail)
  -- `applyFailurePolicy`
  | stopCancel id =>
    exact steps_cancelWorkflowTasks hk rfl fun cancelled s' hskips _ => .stop hskips
  | stopDrop id cancelled => exact steps_of_move rfl (.locks .stop)
  | skipStart id t => exact steps_skipStart id t
  | skipRead id fuel t queue visited skipped => exact steps_skipRead id fuel t queue visited skipped
  | skipWrite id fuel t queue visited skipped =>
    exact steps_modifyTask hk rfl rfl (fun r hr => .skip hr (skipping_skipNext _ _ _ _ _))
      fun hr => .skipAbsent hr (skipping_skipNext _ _ _ _ _)
  | skipDrop id skipped => exact steps_of_move rfl (.locks .skip)
  -- `HandleDeadWorker`
  | deadClaim order k => exact steps_of_move rfl (.locks .claim)
  | deadDraw k t rest => exact steps_of_move rfl (.draws .dead)
  | deadRequeue k t newID rest =>
    exact steps_modifyTask hk rfl rfl (fun r => .requeue) .requeueAbsent
  | deadPublish k t rest => exact steps_of_move rfl (.locks .requeue)
  | deadForget k => exact steps_of_move rfl (.locks .remove)
  -- `CancelWorkflow`
  | cancelTasks id =>
    exact steps_cancelWorkflowTasks hk rfl fun cancelled s' hskips hmem => .cancel hskips hmem
  | cancelDrop id cancelled => exact steps_of_move rfl (.locks .cancel)
  | cancelClose id => exact steps_updateWorkflowState rfl .cancelClose .cancelCloseRefused

end Inversion

/-! ## What no step changes -/

theorem Writes.sameShape {now : Int64} {s s' : Store} {p p' : Point}
    (h : Writes now s p p' s') : SameShape s s' := by
  cases h with
  | complete hr _ _ hc => exact hc.sameShape hr
  | close _ => exact sameShape_setWorkflowState s _ _
  | cancelClose _ => exact sameShape_setWorkflowState s _ _
  | retry hr => exact sameShape_setTask hr rfl
  | fail hr => exact sameShape_setTask hr rfl
  | requeue hr => exact sameShape_setTask hr rfl
  | skip hr _ => exact sameShape_setTask hr rfl
  | stop hskips => exact hskips.sameShape
  | cancel hskips _ => exact hskips.sameShape
  | _ => exact .refl s

section Moves

variable {env : Env} {w w' : World} {p p' : Point}

/-- The specifications and the shapes of the records stay. -/
theorem Moves.sameShape (h : Moves env w p p' w') : SameShape w.store w'.store := by
  cases h with
  | writes h => exact h.sameShape
  | ready h =>
    cases h with
    | assigned _ _ hr => exact sameShape_setTask hr rfl
    | _ => exact .refl _
  | _ => exact .refl _

end Moves

section Runs

variable {env : Env} {w₀ w : World} {es : List (Event Call Action World)}
  {ps : List (Call × Point)}

/-- Along a run of points the store keeps its shape. -/
theorem run_sameShape (hrun : coordinator.Run (Action.handle env) w₀ es ps w)
    (hk : w₀.store.Keyed) : SameShape w₀.store w.store := by
  induction hrun with
  | start => exact .refl _
  | spawn _ _ ih => exact ih
  | step _ _ hmove ih => exact ih.trans (Point.steps (ih.keyed hk) _ _ _ _ hmove).sameShape

/-- The event is a step of its thread from the point `p`. -/
structure StepOf (env : Env) (ps : List (Call × Point)) (w : World)
    (ev : Event Call Action World) (p p' : Point) (w' : World) : Prop where
  keyed : w.store.Keyed
  point : ps[ev.thread]? = some (ev.label, p)
  action : ∃ next, p.move = some ⟨ev.action, next⟩
  before : ev.before = w
  after : ev.after (Action.handle env) = w'
  returned : ev.returned = p'.move.isNone
  moves : Moves env w p p' w'

/-- Only `GetReadyTask` returns an assignment. -/
theorem StepOf.assignment_eq {w' : World} {ev : Event Call Action World} {p p' : Point}
    (h : StepOf env ps w ev p p' w') : ev.action.assignment env w
      = match p with
        | .getReady k => (w.getReadyTask env k).1
        | _ => none := by
  obtain ⟨next, hmove⟩ := h.action
  rcases ev with ⟨i, c, act, before, returned⟩
  cases p <;> cases hmove <;> rfl

/-- What every step keeps holds along a run. -/
theorem run_invariant {I : List (Event Call Action World) → List (Call × Point) → World → Prop}
    (hk : w₀.store.Keyed) (hstart : I [] [] w₀)
    (hspawn : ∀ es ps w c, coordinator.Run (Action.handle env) w₀ es ps w → I es ps w →
      I es (ps ++ [(c, coordinator.init c)]) w)
    (hstep : ∀ es ps w ev p p' w', coordinator.Run (Action.handle env) w₀ es ps w →
      StepOf env ps w ev p p' w' → I es ps w →
      I (es ++ [ev]) (ps.set ev.thread (ev.label, p')) w')
    (hrun : coordinator.Run (Action.handle env) w₀ es ps w) : I es ps w := by
  induction hrun with
  | start => exact hstart
  | spawn c hrun ih => exact hspawn _ _ _ c hrun ih
  | step hrun hp hmove ih =>
    have hkw := (run_sameShape hrun hk).keyed hk
    exact hstep _ _ _ ⟨_, _, _, _, _⟩ _ _ _ hrun
      ⟨hkw, hp, ⟨_, hmove⟩, rfl, rfl, rfl, Point.steps hkw _ _ _ _ hmove⟩ ih

end Runs

/-! ## The points of a call -/

/-- The point can belong to the call. -/
def Point.Of (c : Call) : Point → Prop
  | .done => True
  | .getReady k => c = .getReadyTask k
  | .completeCheck t e output | .completeCommit t e output => c = .completeTask t e output
  | .completeLookup t e => ∃ output, c = .completeTask t e output
  | .completePublish t _ | .completeOwner t => ∃ e output, c = .completeTask t e output
  | .checkComplete _ | .checkStatuses _ | .close _ _ =>
      (∃ t e output, c = .completeTask t e output) ∨ ∃ t e errMsg, c = .failTask t e errMsg
  | .failCheck t e errMsg | .failRead t e errMsg | .failLimit t e errMsg _
  | .failCommit t e errMsg _ => c = .failTask t e errMsg
  | .failDraw t e | .failRequeue t e _ | .failPublish t e | .failForget t e =>
      ∃ errMsg, c = .failTask t e errMsg
  | .stopCancel _ | .stopDrop _ _ | .skipStart _ _ | .skipRead _ _ _ _ _ _
  | .skipWrite _ _ _ _ _ _ | .skipDrop _ _ => ∃ t e errMsg, c = .failTask t e errMsg
  | .deadClaim order k => c = .handleDeadWorker order k
  | .deadDraw k _ _ | .deadRequeue k _ _ _ | .deadPublish k _ _ | .deadForget k =>
      ∃ order, c = .handleDeadWorker order k
  | .cancelTasks id | .cancelDrop id _ | .cancelClose id => c = .cancelWorkflow id

theorem Point.of_init (c : Call) : (coordinator.init c).Of c := by
  cases c <;> first | exact rfl | exact trivial

theorem Point.Skipping.of {id : String} {p : Point} (h : p.Skipping id) {c : Call}
    (hc : ∃ t e errMsg, c = .failTask t e errMsg) : p.Of c := by
  cases h with
  | check => exact .inr hc
  | stuck => trivial
  | _ => exact hc

theorem Point.of_deadNext {k : String} {c : Call} (hc : ∃ order, c = .handleDeadWorker order k)
    (l : List String) : (Point.deadNext k l).Of c := by
  cases l <;> exact hc

theorem Reads.of {s : Store} {c : Coordinator} {p p' : Point} (h : Reads s c p p') {l : Call}
    (hp : p.Of l) : p'.Of l := by
  cases h with
  | completeOurs _ => exact hp
  | completeAbsent _ => exact ⟨_, hp⟩
  | completeOwner _ _ =>
    obtain ⟨e, output, hl⟩ := hp
    exact .inl ⟨_, e, output, hl⟩
  | checkDone _ => exact hp
  | checkStatuses => exact hp
  | failOurs _ => exact hp
  | failRead _ => exact hp
  | failRetry _ => exact ⟨_, hp⟩
  | failLast _ => exact hp
  | skipStart hskip => exact hskip.of hp
  | skipRead hskip => exact hskip.of hp
  | _ => exact trivial

theorem Writes.of {now : Int64} {s s' : Store} {p p' : Point} (h : Writes now s p p' s')
    {l : Call} (hp : p.Of l) : p'.Of l := by
  cases h with
  | completeAgain _ _ _ => exact ⟨_, _, hp⟩
  | complete _ _ _ _ => exact ⟨_, _, hp⟩
  | retry _ => exact hp
  | fail _ => exact ⟨_, hp⟩
  | stop _ => exact hp
  | skip _ hskip => exact hskip.of hp
  | skipAbsent _ hskip => exact hskip.of hp
  | requeue _ => exact hp
  | requeueAbsent _ => exact Point.of_deadNext hp _
  | cancel _ _ => exact hp
  | _ => exact trivial

theorem Locks.of {c c' : Coordinator} {p p' : Point} (h : Locks c p p' c') {l : Call}
    (hp : p.Of l) : p'.Of l := by
  cases h with
  | complete => exact hp
  | @fail t e =>
    obtain ⟨errMsg, hl⟩ := hp
    split
    · generalize c.workflowFailurePolicy.getD _ _ = policy
      cases policy with
      | unrecognized _ _ => exact trivial
      | _ => exact ⟨t, e, errMsg, hl⟩
    · exact trivial
  | stop => exact .inr hp
  | skip => exact .inr hp
  | claim => exact Point.of_deadNext ⟨_, hp⟩ _
  | requeue => exact Point.of_deadNext hp _
  | cancel => exact hp
  | _ => exact trivial

theorem Moves.of {env : Env} {w w' : World} {p p' : Point} (h : Moves env w p p' w') {l : Call}
    (hp : p.Of l) : p'.Of l := by
  cases h with
  | reads hr => exact hr.of hp
  | writes hw => exact hw.of hp
  | locks hl => exact hl.of hp
  | draws hd =>
    cases hd with
    | fail => exact hp
    | dead => exact hp
  | ready _ => exact trivial

/-- Every thread is at a point of its call. -/
theorem run_of {env : Env} {w₀ w : World} {es : List (Event Call Action World)}
    {ps : List (Call × Point)} (hrun : coordinator.Run (Action.handle env) w₀ es ps w)
    (hk : w₀.store.Keyed) : ∀ q ∈ ps, q.2.Of q.1 := by
  refine run_invariant (I := fun _ ps _ => ∀ q ∈ ps, q.2.Of q.1) hk (by simp) ?_ ?_ hrun
  · intro es ps w c _ ih q hq
    rcases List.mem_append.mp hq with hq | hq
    · exact ih q hq
    · rw [List.mem_singleton.mp hq]
      exact Point.of_init c
  · intro es ps w ev p p' w' _ hstep ih q hq
    rcases List.mem_or_eq_of_mem_set hq with hq | rfl
    · exact ih q hq
    · exact hstep.moves.of (ih _ (List.mem_of_getElem? hstep.point))

/-! ## First steps -/

/-- The point stands before the first step of its call. -/
def Point.first : Point → Bool
  | .getReady _ | .completeCheck _ _ _ | .failCheck _ _ _ | .deadClaim _ _
  | .cancelTasks _ => true
  | _ => false

theorem Point.Skipping.not_first {id : String} {p : Point} (h : p.Skipping id) :
    p.first = false := by
  cases h <;> rfl

theorem Point.not_first_deadNext (k : String) (l : List String) :
    (Point.deadNext k l).first = false := by
  cases l <;> rfl

/-- No step leads back to a first point. -/
theorem Moves.not_first {env : Env} {w w' : World} {p p' : Point} (h : Moves env w p p' w') :
    p'.first = false := by
  cases h with
  | reads hr =>
    cases hr with
    | skipStart hskip => exact hskip.not_first
    | skipRead hskip => exact hskip.not_first
    | _ => rfl
  | draws hd => cases hd <;> rfl
  | ready _ => rfl
  | writes hw =>
    cases hw with
    | skip _ hskip => exact hskip.not_first
    | skipAbsent _ hskip => exact hskip.not_first
    | requeueAbsent _ => exact Point.not_first_deadNext _ _
    | _ => rfl
  | locks hl =>
    cases hl with
    | fail =>
      split
      · generalize w.coord.workflowFailurePolicy.getD _ _ = policy
        cases policy <;> rfl
      · rfl
    | claim => exact Point.not_first_deadNext _ _
    | requeue => exact Point.not_first_deadNext _ _
    | _ => rfl

/-- A thread at a first point has not moved. -/
theorem run_first {env : Env} {w₀ w : World} {es : List (Event Call Action World)}
    {ps : List (Call × Point)} (hrun : coordinator.Run (Action.handle env) w₀ es ps w)
    (hk : w₀.store.Keyed) : ∀ (i : Nat) (l : Call) (p : Point), ps[i]? = some (l, p) →
      p.first = true → lastOf i es = none := by
  refine run_invariant (I := fun es ps _ => ∀ (i : Nat) (l : Call) (p : Point),
    ps[i]? = some (l, p) → p.first = true → lastOf i es = none) hk (by simp) ?_ ?_ hrun
  · intro es ps w c hps ih i l p hp hfirst
    rw [List.getElem?_append] at hp
    split at hp
    · exact ih i l p hp hfirst
    · rename_i hlen
      -- A thread that was not there has no events.
      by_contra hsome
      obtain ⟨ev, hev⟩ := Option.ne_none_iff_exists'.mp hsome
      obtain ⟨hin, hi⟩ := mem_of_lastOf hev
      obtain ⟨p', hp'⟩ := hps.exists_thread hin
      rw [hi] at hp'
      exact hlen (List.getElem?_eq_some_iff.mp hp').1
  · intro es ps w ev p p' w' _ hstep ih i l q hq hfirst
    by_cases hi : ev.thread = i
    · subst hi
      rw [List.getElem?_set_self (List.getElem?_eq_some_iff.mp hstep.point).1] at hq
      cases hq
      rw [hstep.moves.not_first] at hfirst
      cases hfirst
    · rw [List.getElem?_set_ne hi] at hq
      rw [lastOf_append_ne hi]
      exact ih i l q hq hfirst

/-! ## Completions on their way -/

/-- The points of `CompleteTask`. -/
def Point.completing : Point → Bool
  | .done | .completeCheck _ _ _ | .completeLookup _ _ | .completeCommit _ _ _
  | .completePublish _ _ | .completeOwner _ | .checkComplete _ | .checkStatuses _
  | .close _ _ => true
  | _ => false

theorem Point.completing_of {t e output : String} {p : Point}
    (h : p.Of (.completeTask t e output)) : p.completing = true := by
  cases p <;> first | rfl | (simp [Point.Of] at h)

/-- The tasks that a call has made ready and not appended yet. -/
def Point.unpublished : Point → List String
  | .completePublish _ ready => ready
  | _ => []

theorem Reads.unpublished {s : Store} {c : Coordinator} {p p' : Point}
    (h : Reads s c p p') : p'.unpublished = [] := by
  cases h with
  | skipStart hskip => cases hskip <;> rfl
  | skipRead hskip => cases hskip <;> rfl
  | _ => rfl

/-- Only a completion leaves tasks to append, and it released them. -/
theorem Moves.unpublished {env : Env} {w w' : World} {p p' : Point}
    (h : Moves env w p p' w') {u : String} (hu : u ∈ p'.unpublished) :
    Released w.store w'.store u ∧ ∃ t e output, p = .completeCommit t e output := by
  cases h with
  | reads hr =>
    rw [hr.unpublished] at hu
    cases hu
  | draws hd => cases hd <;> cases hu
  | ready _ => cases hu
  | writes hw =>
    cases hw with
    | complete _ _ _ hc => exact ⟨(hc.mem_ready u).mp hu, _, _, _, rfl⟩
    | skip _ hskip => cases hskip <;> cases hu
    | skipAbsent _ hskip => cases hskip <;> cases hu
    | @requeueAbsent _ _ _ rest _ => cases rest <;> cases hu
    | _ => cases hu
  | locks hl =>
    cases hl with
    | fail =>
      split at hu
      · generalize w.coord.workflowFailurePolicy.getD _ _ = policy at hu
        cases policy <;> cases hu
      · cases hu
    | @claim order k =>
      generalize (w.coord.claimTasks order k).1 = tasks at hu
      cases tasks <;> cases hu
    | @requeue _ _ rest => cases rest <;> cases hu
    | _ => cases hu

end DagScheduler
