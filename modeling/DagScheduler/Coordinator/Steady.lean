import DagScheduler.Coordinator.Rules

/-!
# What the operations on tasks leave alone

The operations on tasks use few kinds of actions: transactions that rewrite
records, the end of a workflow, new UUIDs, and sections that take tasks out of
the two maps of running tasks or change the queue.  `Steady` asks of a
property of the world that none of these breaks it.  Every program below then
preserves it, whatever the property says.
-/

namespace DagScheduler

open Lib Program Store

/-- The memory after a section of an operation on tasks: the caches and the
monitor are the same, and tasks only leave the maps of running tasks. -/
structure Coordinator.Eases (c c' : Coordinator) : Prop where
  caches : Coordinator.SameCaches c c'
  heartbeat : c'.heartbeat = c.heartbeat
  running : ∀ t k : String, c'.runningTasks[t]? = some k → c.runningTasks[t]? = some k
  assigned : ∀ t e : String, c'.assignedTasks[t]? = some e → c.assignedTasks[t]? = some e

namespace Coordinator

variable (c : Coordinator)

theorem Eases.refl : c.Eases c := ⟨⟨rfl, rfl, rfl⟩, rfl, fun _ _ h => h, fun _ _ h => h⟩

theorem eases_enqueue (l : List String) : c.Eases (c.enqueue l) :=
  ⟨⟨rfl, rfl, rfl⟩, rfl, fun _ _ h => h, fun _ _ h => h⟩

theorem eases_dropFromQueue (l : List String) : c.Eases (c.dropFromQueue l) :=
  ⟨⟨rfl, rfl, rfl⟩, rfl, fun _ _ h => h, fun _ _ h => h⟩

theorem eases_forget (t : String) : c.Eases (c.forget t) := by
  have herase : ∀ (m : Table String String) (u v : String), (m.erase t)[u]? = some v →
      m[u]? = some v := by
    intro m u v h
    rw [Table.get_erase] at h
    split at h
    · cases h
    · exact h
  exact ⟨⟨rfl, rfl, rfl⟩, rfl, herase c.runningTasks, herase c.assignedTasks⟩

theorem eases_forget_enqueue (t : String) (l : List String) :
    c.Eases ((c.forget t).enqueue l) :=
  ⟨⟨rfl, rfl, rfl⟩, rfl, (c.eases_forget t).running, (c.eases_forget t).assigned⟩

theorem eases_claimTasks (order : RangeOrder String) (workerID : String) :
    c.Eases (c.claimTasks order workerID).2 := by
  refine ⟨sameCaches_foldl_forget c _, foldl_forget_heartbeat c _, fun t k h => ?_,
    fun t e h => ?_⟩
  · rw [claimTasks, get_foldl_forget_running] at h
    split at h
    · cases h
    · exact h
  · rw [claimTasks, get_foldl_forget_assigned] at h
    split at h
    · cases h
    · exact h

end Coordinator

/-- No action of an operation on tasks breaks the property. -/
structure Steady (env : Env) (J : World → Prop) : Prop where
  rewrites : ∀ {w : World} {α : Type} {op : StoreOp α}, op.rewrites = true → J w →
    J (w.update env op).2
  closes : ∀ {w : World} (id : String) {st : WorkflowState}, st ≠ .running → J w →
    J (w.update env (.updateWorkflowState id st)).2
  eases : ∀ {w : World} {c : Coordinator}, w.coord.Eases c → J w → J { w with coord := c }
  draws : ∀ {w : World}, J w → J { w with uuids := w.uuids + 1 }

/-- The transaction first, and the rest of the operation if it succeeds. -/
theorem preserves_tryUpdate {env : Env} {α : Type} {J : World → Prop} {op : StoreOp α}
    {k : α → Program (Except CallError Unit)}
    (hop : (update op).Preserves (Action.handle env) J)
    (hk : ∀ a, (k a).Preserves (Action.handle env) J) :
    (tryUpdate op k).Preserves (Action.handle env) J := by
  rw [tryUpdate]
  refine hop.bind fun result => ?_
  cases result with
  | error e => trivial
  | ok a => exact hk a

theorem preserves_view {env : Env} {α : Type} {J : World → Prop} (f : Store → α) :
    (view f).Preserves (Action.handle env) J :=
  Prog.preserves_act fun _ h => h

theorem preserves_lockedRead {env : Env} {α : Type} {J : World → Prop} (f : Coordinator → α) :
    (lockedRead f).Preserves (Action.handle env) J :=
  Prog.preserves_act fun _ h => h

namespace Steady

variable {env : Env} {J : World → Prop} (h : Steady env J)
include h

theorem update {α : Type} {op : StoreOp α} (hop : op.rewrites = true) :
    (Program.update op).Preserves (Action.handle env) J :=
  Prog.preserves_act fun _ hw => h.rewrites hop hw

theorem updateWorkflowState (id : String) {st : WorkflowState} (hst : st ≠ .running) :
    (Program.update (.updateWorkflowState id st)).Preserves (Action.handle env) J :=
  Prog.preserves_act fun _ hw => h.closes id hst hw

theorem locked {α : Type} {f : Coordinator → α × Coordinator}
    (hf : ∀ c : Coordinator, c.Eases (f c).2) :
    (Program.locked f).Preserves (Action.handle env) J :=
  Prog.preserves_act fun w hw => h.eases (hf w.coord) hw

theorem lockedWrite {f : Coordinator → Coordinator} (hf : ∀ c : Coordinator, c.Eases (f c)) :
    (Program.lockedWrite f).Preserves (Action.handle env) J :=
  h.locked hf

theorem newUUID : Program.newUUID.Preserves (Action.handle env) J :=
  Prog.preserves_act fun _ hw => h.draws hw

theorem skipLoop (fuel : Nat) (queue visited skipped : List String) :
    (skipLoop fuel queue visited skipped).Preserves (Action.handle env) J := by
  induction fuel generalizing queue visited skipped with
  | zero => cases queue <;> trivial
  | succ fuel ih =>
    cases queue with
    | nil => trivial
    | cons t queue =>
      rw [DagScheduler.skipLoop]
      split
      · exact ih _ _ _
      · refine (preserves_view _).bind fun result => ?_
        cases result with
        | error e => exact ih _ _ _
        | ok task =>
          dsimp only
          split
          · exact ih _ _ _
          · refine (h.update rfl).bind fun result => ?_
            cases result with
            | error e => exact ih _ _ _
            | ok _ => exact ih _ _ _

theorem skipDownstreamTasks (t : String) :
    (skipDownstreamTasks t).Preserves (Action.handle env) J := by
  rw [DagScheduler.skipDownstreamTasks]
  refine (preserves_view _).bind fun result => ?_
  rcases result with ⟨e | task, edges⟩
  · trivial
  · exact h.skipLoop _ _ _ _

theorem checkWorkflowCompletion (id : String) :
    (checkWorkflowCompletion id).Preserves (Action.handle env) J := by
  rw [DagScheduler.checkWorkflowCompletion]
  refine (preserves_view _).bind fun done => Prog.preserves_when ?_
  refine (preserves_view _).bind fun statuses => ?_
  refine (h.updateWorkflowState id ?_).bind fun _ => trivial
  split <;> simp

theorem completeTask (t e output : String) :
    (completeTask t e output).Preserves (Action.handle env) J := by
  rw [DagScheduler.completeTask]
  refine (preserves_lockedRead _).bind fun assigned => ?_
  cases assigned with
  | none =>
    refine (preserves_view _).bind fun result => ?_
    cases result with
    | error e => trivial
    | ok task =>
      dsimp only
      split
      · split <;> trivial
      · trivial
  | some e' =>
    dsimp only
    split
    · trivial
    · refine preserves_tryUpdate (h.update rfl) fun ready => ?_
      refine Prog.Preserves.bind (h.lockedWrite fun c => c.eases_forget_enqueue t ready)
        fun _ => ?_
      refine (preserves_lockedRead _).bind fun id => ?_
      exact (Prog.preserves_when (h.checkWorkflowCompletion id)).bind fun _ => trivial

theorem afterSkip (id : String) (result : Except SkipError (List String)) :
    (afterSkip id result).Preserves (Action.handle env) J := by
  rcases result with (e | _) | skipped
  · exact h.checkWorkflowCompletion id
  · trivial
  · refine Prog.Preserves.bind
      (Prog.preserves_when (h.lockedWrite fun c => c.eases_dropFromQueue _)) fun _ => ?_
    exact h.checkWorkflowCompletion id

theorem applyFailurePolicy (id t : String) (policy : FailurePolicy) :
    (applyFailurePolicy id t policy).Preserves (Action.handle env) J := by
  have hbelow : (DagScheduler.skipDownstreamTasks t >>= DagScheduler.afterSkip id).Preserves
      (Action.handle env) J := (h.skipDownstreamTasks t).bind (h.afterSkip id)
  cases policy with
  | failFast =>
    rw [DagScheduler.applyFailurePolicy]
    refine (h.update rfl).bind fun result => ?_
    cases result with
    | error e => trivial
    | ok cancelled =>
      dsimp only
      refine Prog.Preserves.bind (h.lockedWrite fun c => c.eases_dropFromQueue _) fun _ => ?_
      exact (h.updateWorkflowState id (by simp)).bind fun _ => trivial
  | skipDownstream => exact hbelow
  | continueIndependent => exact hbelow
  | unrecognized value hv => trivial

theorem failTask (t e errMsg : String) :
    (failTask t e errMsg).Preserves (Action.handle env) J := by
  rw [DagScheduler.failTask]
  refine (preserves_lockedRead _).bind fun assigned => ?_
  split
  · trivial
  · refine (preserves_view _).bind fun result => ?_
    cases result with
    | error e => trivial
    | ok task =>
      refine (preserves_lockedRead _).bind fun maxRetries => ?_
      dsimp only
      split
      · refine h.newUUID.bind fun execID => ?_
        refine preserves_tryUpdate (h.update rfl) fun _ => ?_
        exact Prog.Preserves.bind (h.lockedWrite fun c => c.eases_forget_enqueue t [t])
          fun _ => trivial
      · refine preserves_tryUpdate (h.update rfl) fun _ => ?_
        refine Prog.Preserves.bind (h.locked fun c => c.eases_forget t) fun found => ?_
        exact (Prog.preserves_when (h.applyFailurePolicy _ _ _)).bind fun _ => trivial

theorem cancelWorkflow (id : String) :
    (cancelWorkflow id).Preserves (Action.handle env) J := by
  rw [DagScheduler.cancelWorkflow]
  refine preserves_tryUpdate (h.update rfl) fun cancelled => ?_
  refine Prog.Preserves.bind (h.lockedWrite fun c => c.eases_dropFromQueue _) fun _ => ?_
  exact preserves_tryUpdate (h.updateWorkflowState id (by simp)) fun _ => trivial

theorem requeueAll (l : List String) : (requeueAll l).Preserves (Action.handle env) J := by
  induction l with
  | nil => trivial
  | cons t l ih =>
    rw [DagScheduler.requeueAll]
    refine h.newUUID.bind fun execID => (h.update rfl).bind fun result => ?_
    cases result with
    | error e => exact ih
    | ok _ =>
      dsimp only
      exact Prog.Preserves.bind (h.lockedWrite fun c => c.eases_enqueue _) fun _ => ih

theorem enqueueRoots (l : List String) :
    (enqueueRoots l).Preserves (Action.handle env) J := by
  induction l with
  | nil => trivial
  | cons t l ih =>
    rw [DagScheduler.enqueueRoots]
    refine preserves_tryUpdate (h.update rfl) fun _ => ?_
    exact Prog.Preserves.bind (h.lockedWrite fun c => c.eases_enqueue _) fun _ => ih

end Steady

end DagScheduler
