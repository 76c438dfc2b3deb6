import DagScheduler.Model.Faults
import DagScheduler.Coordinator.Steps

/-!
# Failed transactions and lost tasks

A task can still be dispatched if it is `QUEUED` and in the ready queue, and
can still be reclaimed if it is `RUNNING` and in `runningTasks`.  An operation
that takes a task out of the memory before its transaction has gone through
loses the task when the transaction fails.  There are two of them.

* `GetReadyTask` pops the task, and returns if `AssignTask` fails.
* `HandleDeadWorker` deletes the tasks of the worker from the maps, and passes
  over a task whose `RequeueTask` fails.

Every other transaction of the four operations may fail without harm.
`Spares` says that the faults of a run miss the two, and no task is lost
then.  The invariant is `Dispatchable`.  It takes a list of tasks that are in
the hands of the operation, which is empty between two operations.
-/

namespace DagScheduler

open Lib Program Store

/-- Every queued task of a running workflow is in the ready queue, and every
running task has a worker. -/
structure NoTaskLost (w : World) : Prop where
  queued : ∀ (t : String) (r : TaskStateRecord), w.store.taskState[t]? = some r →
    r.state = .queued → w.store.workflowStateOf r.workflowID = some .running →
    t ∈ w.coord.readyQueue
  running : ∀ t, w.store.stateOf t = some .running → t ∈ w.coord.runningTasks

/-- The faults miss `AssignTask` in `GetReadyTask` and `RequeueTask` in
`HandleDeadWorker`, if the call starts in `w`. -/
def Faults.Spares (fails : Faults) (w : World) : Call → Prop
  | .getReadyTask _ =>
      ∀ t rest, w.coord.readyQueue = t :: rest → t ∈ w.coord.taskSpecCache →
        fails w.ticks = none
  | .handleDeadWorker order workerID =>
      ∀ i < (w.coord.claimTasks order workerID).1.length, fails (w.ticks + i) = none
  | _ => True

/-- The invariant of the four operations, while the tasks of `hands` are in
the hands of one of them. -/
structure Dispatchable (hands : List String) (s : Store) (c : Coordinator) : Prop where
  keyed : s.Keyed
  queued : ∀ (t : String) (r : TaskStateRecord), s.taskState[t]? = some r →
    r.state = .queued → s.workflowStateOf r.workflowID = some .running →
    t ∈ c.readyQueue
  running : ∀ t, s.stateOf t = some .running → t ∈ c.runningTasks ∨ t ∈ hands
  cached : ∀ (t : String) (r : TaskStateRecord), s.taskState[t]? = some r →
    s.workflowStateOf r.workflowID = some .running → t ∈ c.taskSpecCache

theorem Dispatchable.noTaskLost {w : World} (h : Dispatchable [] w.store w.coord) :
    NoTaskLost w :=
  ⟨h.queued, fun t ht => (h.running t ht).resolve_right (by simp)⟩

theorem Inv.dispatchable {P : WorkflowSpec → Prop} {w : World} (h : Inv P w) :
    Dispatchable [] w.store w.coord :=
  ⟨h.sound.coherent.linked.keyed, h.agree.listed, fun t ht => .inl (h.running t ht),
    fun t r hr hrun => h.spec_of_owner (h.active t r hr hrun)⟩

/-! ## Steps -/

theorem Coordinator.mem_forget_of_ne {c : Coordinator} {t u : String} (hne : u ≠ t)
    (hu : u ∈ c.runningTasks) : u ∈ (c.forget t).runningTasks := by
  obtain ⟨k, hk⟩ := (Table.mem_iff_get _ _).mp hu
  refine (Table.mem_iff_get _ _).mpr ⟨k, ?_⟩
  rw [Coordinator.forget, Table.get_erase, if_neg (Ne.symm hne), hk]

namespace Dispatchable

variable {hands hands' : List String} {s s' : Store} {c c' : Coordinator}

/-- A step that starts no workflow, under which a task that is queued or
running afterwards is in its place, or was in the same state and keeps its
place. -/
theorem step (h : Dispatchable hands s c) (hshape : SameShape s s')
    (hstop : ∀ id, s'.workflowStateOf id = some .running →
      s.workflowStateOf id = some .running)
    (hcache : c'.taskSpecCache = c.taskSpecCache)
    (hq : ∀ t, s'.stateOf t = some .queued → t ∈ c'.readyQueue ∨
      s.stateOf t = some .queued ∧ (t ∈ c.readyQueue → t ∈ c'.readyQueue))
    (hr : ∀ t, s'.stateOf t = some .running → t ∈ c'.runningTasks ∨ t ∈ hands' ∨
      s.stateOf t = some .running ∧
        (t ∈ c.runningTasks ∨ t ∈ hands → t ∈ c'.runningTasks ∨ t ∈ hands')) :
    Dispatchable hands' s' c' := by
  refine ⟨hshape.keyed h.keyed, ?_, ?_, ?_⟩
  · intro t r' hr' hst hrun
    obtain ⟨r, hrec, _, hid, _⟩ := hshape.back hr'
    rcases hq t (stateOf_eq_some.mpr ⟨r', hr', hst⟩) with hin | ⟨hst', hkeep⟩
    · exact hin
    · rw [stateOf_of_get hrec] at hst'
      exact hkeep (h.queued t r hrec (Option.some.inj hst') (by rw [hid]; exact hstop _ hrun))
  · intro t ht
    rcases hr t ht with hin | hin | ⟨hst', hkeep⟩
    · exact .inl hin
    · exact .inr hin
    · exact hkeep (h.running t hst')
  · intro t r' hr' hrun
    obtain ⟨r, hrec, _, hid, _⟩ := hshape.back hr'
    rw [hcache]
    exact h.cached t r hrec (by rw [hid]; exact hstop _ hrun)

/-- The memory may change if the queue and the map of workers keep what they
hold. -/
theorem of_coord (h : Dispatchable hands s c) (hcache : c'.taskSpecCache = c.taskSpecCache)
    (hq : ∀ t, t ∈ c.readyQueue → s.stateOf t = some .queued → t ∈ c'.readyQueue)
    (hr : ∀ t, t ∈ c.runningTasks ∨ t ∈ hands → s.stateOf t = some .running →
      t ∈ c'.runningTasks ∨ t ∈ hands') : Dispatchable hands' s c' := by
  refine h.step (.refl s) (fun _ hrun => hrun) hcache ?_ ?_
  · exact fun t ht => .inr ⟨ht, fun hin => hq t hin ht⟩
  · exact fun t ht => .inr (.inr ⟨ht, fun hin => hr t hin ht⟩)

/-- A task moves to another state than `QUEUED` and `RUNNING`. -/
theorem setTask (h : Dispatchable hands s c) {t : String} {r r' : TaskStateRecord}
    (hr : s.taskState[t]? = some r) (hshape : r'.shape = r.shape)
    (hq : r'.state ≠ .queued) (hrun : r'.state ≠ .running) :
    Dispatchable hands (s.setTask t r') c := by
  refine h.step (sameShape_setTask hr hshape) (fun _ hrun => hrun) rfl ?_ ?_
  · intro u hu
    rw [stateOf_setTask] at hu
    split at hu
    · exact absurd (Option.some.inj hu) hq
    · exact .inr ⟨hu, fun hin => hin⟩
  · intro u hu
    rw [stateOf_setTask] at hu
    split at hu
    · exact absurd (Option.some.inj hu) hrun
    · exact .inr (.inr ⟨hu, fun hin => hin⟩)

/-- A task is queued in the store and in the memory, and leaves the hands of
the operation. -/
theorem requeue (h : Dispatchable hands s c) {t : String} {r r' : TaskStateRecord}
    (hr : s.taskState[t]? = some r) (hshape : r'.shape = r.shape)
    (hst : r'.state = .queued) (hcache : c'.taskSpecCache = c.taskSpecCache)
    (hq : ∀ u, u = t ∨ u ∈ c.readyQueue → u ∈ c'.readyQueue)
    (hrun : ∀ u, u ≠ t → u ∈ c.runningTasks ∨ u ∈ hands →
      u ∈ c'.runningTasks ∨ u ∈ hands') :
    Dispatchable hands' (s.setTask t r') c' := by
  refine h.step (sameShape_setTask hr hshape) (fun _ hrun => hrun) hcache ?_ ?_
  · intro u hu
    rw [stateOf_setTask] at hu
    split at hu
    · rename_i htu
      exact .inl (hq u (.inl htu.symm))
    · exact .inr ⟨hu, fun hin => hq u (.inr hin)⟩
  · intro u hu
    rw [stateOf_setTask] at hu
    split at hu
    · rw [hst] at hu
      cases hu
    · rename_i htu
      exact .inr (.inr ⟨hu, hrun u (Ne.symm htu)⟩)

/-- Tasks are skipped. -/
theorem skips (h : Dispatchable hands s c) {Q : String → Prop} (hs : Skips Q s s') :
    Dispatchable hands s' c := by
  have hback : ∀ t st, st ≠ .skipped → s'.stateOf t = some st → s.stateOf t = some st := by
    intro t st hne ht
    rcases hs.cases t with heq | ⟨r, now, _, _, _, hget⟩
    · rw [stateOf, heq] at ht
      exact ht
    · rw [stateOf_of_get hget] at ht
      exact absurd (Option.some.inj ht).symm hne
  refine h.step hs.sameShape ?_ rfl ?_ ?_
  · intro id hrun
    rw [workflowStateOf, hs.workflowState] at hrun
    exact hrun
  · exact fun t ht => .inr ⟨hback t _ (by simp) ht, fun hin => hin⟩
  · exact fun t ht => .inr (.inr ⟨hback t _ (by simp) ht, fun hin => hin⟩)

/-- Tasks that are not queued leave the queue. -/
theorem dropFromQueue (h : Dispatchable hands s c) {gone : List String}
    (hgone : ∀ t ∈ gone, s.stateOf t ≠ some .queued) :
    Dispatchable hands s (c.dropFromQueue gone) := by
  refine h.of_coord rfl ?_ fun t hin _ => hin
  intro t hin hst
  rw [Coordinator.mem_dropFromQueue]
  exact ⟨hin, fun hg => hgone t hg hst⟩

/-- A workflow gets a state other than `RUNNING`. -/
theorem setWorkflowState (h : Dispatchable hands s c) {id : String}
    {r : WorkflowStateRecord} (hst : r.state ≠ .running) :
    Dispatchable hands (s.setWorkflowState id r) c := by
  refine h.step ⟨rfl, fun _ => rfl⟩ ?_ rfl (fun t ht => .inr ⟨ht, fun hin => hin⟩)
    (fun t ht => .inr (.inr ⟨ht, fun hin => hin⟩))
  intro i hrun
  rw [workflowStateOf, get_setWorkflowState] at hrun
  split at hrun
  · exact absurd (Option.some.inj hrun) hst
  · exact hrun

/-- The completion of a task, with the update of the memory that follows
it. -/
theorem completion (h : Dispatchable hands s c) {now : Int64} {t output : String}
    {r : TaskStateRecord} {ready : List String} (hr : s.taskState[t]? = some r)
    (hc : Completion now t output r s s' ready) :
    Dispatchable hands s' ((c.forget t).enqueue ready) := by
  have hne : ∀ {u : String} {st : TaskState}, s'.stateOf u = some st → st ≠ .complete →
      u ≠ t := by
    rintro u st hu hst rfl
    rw [stateOf_of_get hc.task] at hu
    exact hst (Option.some.inj hu).symm
  refine h.step (hc.sameShape hr) ?_ rfl ?_ ?_
  · intro id hrun
    rw [workflowStateOf, hc.workflowState] at hrun
    exact hrun
  · intro u hu
    rcases hc.stateOf_other (hne hu (by simp)) with heq | hrel
    · exact .inr ⟨by rw [← heq]; exact hu, fun hin => List.mem_append_left _ hin⟩
    · exact .inl (List.mem_append_right _ ((hc.mem_ready u).mpr hrel))
  · intro u hu
    rcases hc.stateOf_other (hne hu (by simp)) with heq | hrel
    · refine .inr (.inr ⟨by rw [← heq]; exact hu, ?_⟩)
      exact fun hin => hin.imp_left (Coordinator.mem_forget_of_ne (hne hu (by simp)))
    · rw [hrel.2] at hu
      cases hu

end Dispatchable

/-! ## Operations -/

section Operations

variable {env : Env} {fails : Faults} {α : Type} {w : World}

theorem wp_viewFaulty {f : Store → α} {Q : α → World → Prop} (hQ : Q (f w.store) w) :
    (view f).wp (Action.handleFaulty env fails) (fun _ => True) Q w := ⟨trivial, hQ⟩

theorem wp_lockedFaulty {f : Coordinator → α × Coordinator} {Q : α → World → Prop}
    (hQ : Q (f w.coord).1 { w with coord := (f w.coord).2 }) :
    (locked f).wp (Action.handleFaulty env fails) (fun _ => True) Q w := ⟨trivial, hQ⟩

theorem wp_lockedReadFaulty {f : Coordinator → α} {Q : α → World → Prop}
    (hQ : Q (f w.coord) w) :
    (lockedRead f).wp (Action.handleFaulty env fails) (fun _ => True) Q w := ⟨trivial, hQ⟩

theorem wp_lockedWriteFaulty {f : Coordinator → Coordinator} {Q : Unit → World → Prop}
    (hQ : Q () { w with coord := f w.coord }) :
    (lockedWrite f).wp (Action.handleFaulty env fails) (fun _ => True) Q w :=
  ⟨trivial, hQ⟩

theorem wp_newUUIDFaulty {Q : String → World → Prop}
    (hQ : Q (env.uuid w.uuids) { w with uuids := w.uuids + 1 }) :
    newUUID.wp (Action.handleFaulty env fails) (fun _ => True) Q w := ⟨trivial, hQ⟩

/-- A transaction fails and leaves the store, or commits. -/
theorem wp_updateFaulty {op : StoreOp α} {Q : Except StoreError α → World → Prop}
    (hfault : ∀ e, fails w.ticks = some e → Q (.error e) (w.wrote w.store))
    (hcommit : ∀ res s', w.store.commit (op.tx env.marshals (env.now w.ticks)) = (res, s') →
      Q res (w.wrote s')) :
    (update op).wp (Action.handleFaulty env fails) (fun _ => True) Q w := by
  refine ⟨trivial, ?_⟩
  show Q (w.updateFaulty env fails op).1 (w.updateFaulty env fails op).2
  unfold World.updateFaulty
  split
  · rename_i e he
    exact hfault e he
  · exact hcommit _ _ rfl

theorem wp_tryUpdateFaulty {op : StoreOp α} {k : α → Program (Except CallError Unit)}
    {Q : Except CallError Unit → World → Prop}
    (hfault : ∀ e, Q (.error (.store e)) (w.wrote w.store))
    (herror : ∀ e s', w.store.commit (op.tx env.marshals (env.now w.ticks)) = (.error e, s') →
      Q (.error (.store e)) (w.wrote s'))
    (hok : ∀ a s', w.store.commit (op.tx env.marshals (env.now w.ticks)) = (.ok a, s') →
      (k a).wp (Action.handleFaulty env fails) (fun _ => True) Q (w.wrote s')) :
    (tryUpdate op k).wp (Action.handleFaulty env fails) (fun _ => True) Q w := by
  rw [tryUpdate, Prog.wp_bind]
  apply wp_updateFaulty
  · exact fun e _ => hfault e
  · intro res s' hcommit
    cases res with
    | error e => exact herror e s' hcommit
    | ok a => exact hok a s' hcommit

/-- A transaction on one record leaves the store, or rewrites the record. -/
theorem wp_modifyFaulty {op : StoreOp Unit} {t : String}
    {f : TaskStateRecord → TaskStateRecord} {Q : Except StoreError Unit → World → Prop}
    (htx : op.tx env.marshals (env.now w.ticks) = modifyTask t f) (hk : w.store.Keyed)
    (hsame : ∀ e, fails w.ticks = some e ∨ w.store.taskState[t]? = none →
      Q (.error e) (w.wrote w.store))
    (hset : ∀ r, w.store.taskState[t]? = some r →
      Q (.ok ()) (w.wrote (w.store.setTask t (f r)))) :
    (update op).wp (Action.handleFaulty env fails) (fun _ => True) Q w := by
  apply wp_updateFaulty fun e he => hsame e (.inl he)
  intro res s' hcommit
  rw [htx] at hcommit
  rcases commit_modifyTask_cases hk t f with ⟨r, hr, heq⟩ | ⟨hr, heq⟩
  · obtain ⟨rfl, rfl⟩ := Prod.mk.inj (heq.symm.trans hcommit)
    exact hset r hr
  · obtain ⟨rfl, rfl⟩ := Prod.mk.inj (heq.symm.trans hcommit)
    exact hsame _ (.inr hr)

/-- Ends with no task lost and none in the hands of the operation. -/
abbrev Keeping (env : Env) (fails : Faults) (p : Program α) (w : World) : Prop :=
  p.wp (Action.handleFaulty env fails) (fun _ => True)
    (fun _ w' => Dispatchable [] w'.store w'.coord) w

/-- The traversal writes `SKIPPED` into whatever it returns. -/
theorem wp_skipLoopFaulty (fuel : Nat) (queue visited skipped : List String) :
    ∀ {w : World}, Dispatchable [] w.store w.coord →
      (∀ u ∈ skipped, w.store.stateOf u = some .skipped) →
      (skipLoop fuel queue visited skipped).wp (Action.handleFaulty env fails)
        (fun _ => True) (fun result w' => Dispatchable [] w'.store w'.coord ∧
          ∀ skipped', result = .ok skipped' →
            ∀ u ∈ skipped', w'.store.stateOf u = some .skipped) w := by
  have hdone : ∀ {skipped : List String} {w : World}, Dispatchable [] w.store w.coord →
      (∀ u ∈ skipped, w.store.stateOf u = some .skipped) →
      Dispatchable [] w.store w.coord ∧ ∀ skipped',
        (.ok skipped : Except SkipError (List String)) = .ok skipped' →
          ∀ u ∈ skipped', w.store.stateOf u = some .skipped := by
    intro skipped w h hskipped
    refine ⟨h, fun skipped' heq => ?_⟩
    cases heq
    exact hskipped
  induction fuel generalizing queue visited skipped with
  | zero =>
    intro w h hskipped
    cases queue with
    | nil => exact hdone h hskipped
    | cons t queue => exact ⟨h, fun _ heq => nomatch heq⟩
  | succ fuel ih =>
    intro w h hskipped
    cases queue with
    | nil => exact hdone h hskipped
    | cons t queue =>
      rw [skipLoop]
      split
      · exact ih _ _ _ h hskipped
      · rw [Prog.wp_bind]
        apply wp_viewFaulty
        cases w.store.getTask t with
        | error e => exact ih _ _ _ h hskipped
        | ok task =>
          dsimp only
          split
          · exact ih _ _ _ h hskipped
          · rw [Prog.wp_bind]
            apply wp_modifyFaulty (t := t) rfl h.keyed
            · intro e _
              exact ih _ _ _ h hskipped
            · intro r hr
              refine ih _ _ _ (h.setTask hr rfl (by simp) (by simp)) ?_
              intro u hu
              rw [World.wrote_store, stateOf_setTask]
              split
              · rfl
              · rename_i htu
                rcases List.mem_append.mp hu with hin | hin
                · exact hskipped u hin
                · exact absurd (List.mem_singleton.mp hin).symm htu

theorem keeping_updateWorkflowState (id : String) {st : WorkflowState}
    (hst : st ≠ .running) (h : Dispatchable [] w.store w.coord) :
    Keeping env fails (update (.updateWorkflowState id st)) w := by
  apply wp_updateFaulty
  · exact fun _ _ => h
  · intro res s' hcommit
    rcases commit_updateWorkflowState_cases (s := w.store) (env.now w.ticks) id st with
      ⟨r, hr, hset⟩ | ⟨e, herr⟩
    · obtain ⟨_, rfl⟩ := Prod.mk.inj (hset.symm.trans hcommit)
      exact h.setWorkflowState (by rw [hr]; exact hst)
    · obtain ⟨_, rfl⟩ := Prod.mk.inj (herr.symm.trans hcommit)
      exact h

theorem keeping_checkWorkflowCompletion (id : String) (h : Dispatchable [] w.store w.coord) :
    Keeping env fails (checkWorkflowCompletion id) w := by
  unfold Keeping
  rw [checkWorkflowCompletion, Prog.wp_bind]
  apply wp_viewFaulty
  rw [Prog.wp_when]
  refine ⟨fun _ => ?_, fun _ => h⟩
  rw [Prog.wp_bind]
  apply wp_viewFaulty
  rw [Prog.wp_bind]
  exact keeping_updateWorkflowState id (by split <;> simp) h

/-- A task whose transaction has gone through leaves the map of workers. -/
theorem Dispatchable.forget {s : Store} {c : Coordinator} {t : String}
    (h : Dispatchable [] s c) (ht : s.stateOf t ≠ some .running) :
    Dispatchable [] s (c.forget t) := by
  refine h.of_coord rfl (fun _ hin _ => hin) ?_
  intro u hin hst
  refine hin.imp_left (Coordinator.mem_forget_of_ne ?_)
  rintro rfl
  exact ht hst

theorem keeping_completeTask (t e output : String) (h : Dispatchable [] w.store w.coord) :
    Keeping env fails (completeTask t e output) w := by
  unfold Keeping
  rw [completeTask, Prog.wp_bind]
  apply wp_lockedReadFaulty
  cases w.coord.assignedTasks[t]? with
  | none =>
    dsimp only
    rw [Prog.wp_bind]
    apply wp_viewFaulty
    cases w.store.getTask t with
    | error e => exact h
    | ok task =>
      dsimp only
      split
      · split <;> exact h
      · exact h
  | some e' =>
    dsimp only
    split
    · exact h
    · -- The memory changes only after the transaction has gone through.
      have hcases := commit_completeTask_cases h.keyed (env.now w.ticks) t e output
      have hfinish : ∀ {s' : Store} {ready : List String},
          Dispatchable [] s' ((w.coord.forget t).enqueue ready) →
          Keeping env fails (do
            lockedWrite fun c => (c.forget t).enqueue ready
            let workflowID ← taskWorkflowID t
            Prog.when (workflowID ≠ "") (checkWorkflowCompletion workflowID)
            return .ok () : Program (Except CallError Unit)) (w.wrote s') := by
        intro s' ready h'
        unfold Keeping
        rw [Prog.wp_bind]
        apply wp_lockedWriteFaulty
        rw [Prog.wp_bind]
        apply wp_lockedReadFaulty
        rw [Prog.wp_bind, Prog.wp_when]
        exact ⟨fun _ => keeping_checkWorkflowCompletion _ h', fun _ => h'⟩
      apply wp_tryUpdateFaulty
      · exact fun _ => h
      · intro e' s' hcommit
        rw [show (StoreOp.completeTask t e output).tx env.marshals (env.now w.ticks)
          = Store.completeTask (env.now w.ticks) t e output from rfl] at hcommit
        rw [hcommit] at hcases
        cases hcases <;> exact h
      · intro ready s' hcommit
        rw [show (StoreOp.completeTask t e output).tx env.marshals (env.now w.ticks)
          = Store.completeTask (env.now w.ticks) t e output from rfl] at hcommit
        rw [hcommit] at hcases
        cases hcases with
        | again hr _ hst =>
          refine hfinish ?_
          rw [Coordinator.enqueue_nil]
          exact h.forget (by rw [stateOf_of_get hr, hst]; simp)
        | done hr _ _ hc => exact hfinish (h.completion hr hc)

theorem keeping_applyFailurePolicy (id t : String) (policy : FailurePolicy)
    (h : Dispatchable [] w.store w.coord) :
    Keeping env fails (applyFailurePolicy id t policy) w := by
  have hbelow : ∀ policy', policy' = .skipDownstream ∨ policy' = .continueIndependent →
      Keeping env fails (applyFailurePolicy id t policy') w := by
    intro policy' hpol
    unfold Keeping
    rw [applyFailurePolicy_below hpol, Prog.wp_bind, skipDownstreamTasks, Prog.wp_bind]
    apply wp_viewFaulty
    cases w.store.getTask t with
    | error e => exact keeping_checkWorkflowCompletion id h
    | ok task =>
      refine Prog.wp_mono ?_ _ (wp_skipLoopFaulty _ _ _ _ h (by simp))
      rintro result w' ⟨h', hskipped⟩
      rcases result with (e | _) | skipped
      · exact keeping_checkWorkflowCompletion id h'
      · exact h'
      · rw [afterSkip, Prog.wp_bind, Prog.wp_when]
        refine ⟨fun _ => ?_, fun _ => keeping_checkWorkflowCompletion id h'⟩
        apply wp_lockedWriteFaulty
        apply keeping_checkWorkflowCompletion id
        refine h'.dropFromQueue fun u hu => ?_
        rw [hskipped skipped rfl u hu]
        simp
  cases policy with
  | failFast =>
    unfold Keeping
    rw [applyFailurePolicy, Prog.wp_bind]
    apply wp_updateFaulty
    · exact fun _ _ => h
    · intro res s' hcommit
      obtain ⟨s₁, cancelled, hcancel, hskips, hmem⟩ :=
        commit_cancelWorkflowTasks h.keyed (env.now w.ticks) id
      obtain ⟨rfl, rfl⟩ := Prod.mk.inj (hcancel.symm.trans hcommit)
      dsimp only
      rw [Prog.wp_bind]
      apply wp_lockedWriteFaulty
      rw [Prog.wp_bind]
      refine keeping_updateWorkflowState id (by simp) ((h.skips hskips).dropFromQueue ?_)
      intro u hu
      obtain ⟨hown, r, hr, hopen⟩ := (hmem u).mp hu
      obtain ⟨now, hget⟩ := hskips.hit u r hr hown hopen
      rw [stateOf_of_get hget]
      simp
  | skipDownstream => exact hbelow _ (.inl rfl)
  | continueIndependent => exact hbelow _ (.inr rfl)
  | unrecognized value hv => exact h

theorem keeping_failTask (t e errMsg : String) (h : Dispatchable [] w.store w.coord) :
    Keeping env fails (failTask t e errMsg) w := by
  unfold Keeping
  rw [failTask, Prog.wp_bind]
  apply wp_lockedReadFaulty
  split
  · exact h
  · rw [Prog.wp_bind]
    apply wp_viewFaulty
    cases w.store.getTask t with
    | error e => exact h
    | ok task =>
      dsimp only
      rw [Prog.wp_bind]
      apply wp_lockedReadFaulty
      split
      · rw [Prog.wp_bind]
        apply wp_newUUIDFaulty
        rw [tryUpdate, Prog.wp_bind]
        refine wp_modifyFaulty (t := t) (w := { w with uuids := w.uuids + 1 }) rfl h.keyed
          (fun _ _ => h) ?_
        · intro r hr
          dsimp only
          rw [Prog.wp_bind]
          apply wp_lockedWriteFaulty
          refine h.requeue hr rfl rfl rfl ?_ ?_
          · intro u hu
            rcases hu with rfl | hin
            · exact List.mem_append_right _ (List.mem_singleton_self _)
            · exact List.mem_append_left _ hin
          · exact fun u hne hin => hin.imp_left (Coordinator.mem_forget_of_ne hne)
      · rw [tryUpdate, Prog.wp_bind]
        apply wp_modifyFaulty (t := t) rfl h.keyed
        · exact fun _ _ => h
        · intro r hr
          have h' : Dispatchable [] (w.store.setTask t { r with
              state := .failed, error := errMsg, attemptCount := task.attemptCount + 1,
              lastUpdated := env.now w.ticks }) w.coord :=
            h.setTask hr rfl (by simp) (by simp)
          dsimp only
          rw [Prog.wp_bind]
          apply wp_lockedFaulty
          have hgone := h'.forget (t := t) (by rw [stateOf_setTask, if_pos rfl]; simp)
          rw [Prog.wp_bind, Prog.wp_when]
          exact ⟨fun _ => keeping_applyFailurePolicy _ t _ hgone, fun _ => hgone⟩

/-- While the loop runs, the tasks it has not queued yet are in its hands. -/
theorem wp_requeueAllFaulty (l : List String) :
    ∀ {w : World}, Dispatchable l w.store w.coord →
      (∀ i < l.length, fails (w.ticks + i) = none) → Keeping env fails (requeueAll l) w := by
  induction l with
  | nil => exact fun h _ => h
  | cons t l ih =>
    intro w h hspared
    have hspared' : ∀ i < l.length, fails (w.ticks + 1 + i) = none := by
      intro i hi
      rw [show w.ticks + 1 + i = w.ticks + (i + 1) by omega]
      exact hspared (i + 1) (by simpa using hi)
    have hnone : fails w.ticks = none := hspared 0 (by simp)
    unfold Keeping
    rw [requeueAll, Prog.wp_bind]
    apply wp_newUUIDFaulty
    rw [Prog.wp_bind]
    refine wp_modifyFaulty (t := t) (w := { w with uuids := w.uuids + 1 }) rfl h.keyed ?_ ?_
    · -- Only a task without a record is passed over.
      intro e hmiss
      refine ih (h.of_coord rfl (fun _ hin _ => hin) ?_) hspared'
      intro u hin hst
      refine hin.imp_right fun hin => ?_
      rcases List.mem_cons.mp hin with rfl | hin
      · obtain ⟨r, hr, _⟩ := stateOf_eq_some.mp hst
        rcases hmiss with hfault | habsent
        · exact absurd (hnone.symm.trans hfault) (by simp)
        · exact absurd (habsent.symm.trans hr) (by simp)
      · exact hin
    · intro r hr
      dsimp only
      rw [Prog.wp_bind]
      apply wp_lockedWriteFaulty
      refine ih (h.requeue hr rfl rfl rfl ?_ ?_) hspared'
      · intro u hu
        rcases hu with rfl | hin
        · exact List.mem_append_right _ (List.mem_singleton_self _)
        · exact List.mem_append_left _ hin
      · intro u hne hin
        exact hin.imp_right fun hin => (List.mem_cons.mp hin).resolve_left hne

theorem keeping_handleDeadWorker (order : RangeOrder String) (workerID : String)
    (h : Dispatchable [] w.store w.coord)
    (hspared : fails.Spares w (.handleDeadWorker order workerID)) :
    Keeping env fails (handleDeadWorker order workerID) w := by
  unfold Keeping
  rw [handleDeadWorker, Prog.wp_bind]
  apply wp_lockedFaulty
  rw [Prog.wp_bind]
  let l := (w.coord.claimTasks order workerID).1
  have hclaimed : Dispatchable l w.store (w.coord.claimTasks order workerID).2 := by
    refine h.of_coord (Coordinator.sameCaches_foldl_forget w.coord l).spec ?_ ?_
    · intro u hin _
      exact (Coordinator.foldl_forget_readyQueue w.coord l).symm ▸ hin
    · intro u hin _
      obtain ⟨k, hk⟩ := (Table.mem_iff_get _ _).mp (hin.resolve_right (by simp))
      by_cases hu : u ∈ l
      · exact .inr hu
      · refine .inl ((Table.mem_iff_get _ _).mpr ⟨k, ?_⟩)
        exact (Coordinator.get_foldl_forget_running w.coord l u).trans ((if_neg hu).trans hk)
  refine Prog.wp_mono ?_ _ (wp_requeueAllFaulty l
    (w := { w with coord := (w.coord.claimTasks order workerID).2 }) hclaimed hspared)
  intro _ w' h'
  rw [Prog.wp_bind]
  apply wp_lockedWriteFaulty
  exact ⟨h'.keyed, h'.queued, h'.running, h'.cached⟩

theorem keeping_getReadyTask (workerID : String) (h : Dispatchable [] w.store w.coord)
    (hspared : fails.Spares w (.getReadyTask workerID)) :
    Keeping env fails (getReadyTask workerID) w := by
  refine ⟨trivial, ?_⟩
  show Dispatchable [] (w.getReadyTaskFaulty env fails workerID).2.store
    (w.getReadyTaskFaulty env fails workerID).2.coord
  have heq : w.getReadyTaskFaulty env fails workerID = w.getReadyTask env workerID := by
    unfold World.getReadyTaskFaulty
    split
    · rename_i hq
      simp [World.getReadyTask, hq]
    · rename_i t rest hq
      refine if_neg fun hfault => ?_
      rw [hspared t rest hq hfault.1] at hfault
      exact absurd hfault.2 (by simp)
  rw [heq]
  have hcases : ReadyCases env w workerID (w.getReadyTask env workerID) :=
    World.getReadyTask_cases h.keyed workerID
  generalize w.getReadyTask env workerID = res at hcases
  cases hcases with
  | empty _ => exact h
  | @unknown t rest hq hspec =>
    -- A queued task of a running workflow is cached, so it is not dropped.
    refine ⟨h.keyed, ?_, h.running, h.cached⟩
    intro u r hr hst hrun
    have hin := h.queued u r hr hst hrun
    rw [hq] at hin
    rcases List.mem_cons.mp hin with rfl | hin
    · exact absurd (h.cached u r hr hrun) hspec
    · exact hin
  | @absent t rest _ hq _ habsent =>
    refine h.of_coord rfl ?_ fun _ hin _ => hin
    intro u hin hst
    rw [hq] at hin
    rcases List.mem_cons.mp hin with rfl | hin
    · rw [stateOf, habsent] at hst
      cases hst
    · exact hin
  | @assigned t rest _ r hq _ hr =>
    refine h.step (sameShape_setTask hr rfl) (fun _ hrun => hrun) rfl ?_ ?_
    · intro u hu
      rw [stateOf_setTask] at hu
      split at hu
      · cases hu
      · rename_i htu
        refine .inr ⟨hu, fun hin => ?_⟩
        rw [hq] at hin
        exact (List.mem_cons.mp hin).resolve_left (Ne.symm htu)
    · intro u _
      by_cases htu : t = u
      · exact .inl (by rw [htu]; exact Std.ExtTreeMap.mem_insert_self)
      · rename_i hu
        rw [stateOf_setTask, if_neg htu] at hu
        refine .inr (.inr ⟨hu, fun hin => hin.imp_left fun hin => ?_⟩)
        exact Std.ExtTreeMap.mem_insert.mpr (.inr hin)

/-- Each of the four operations keeps the invariant, if the faults spare it. -/
theorem Call.dispatchable (c : Call) (hop : c.onTasks = true)
    (h : Dispatchable [] w.store w.coord) (hspared : fails.Spares w c) :
    Dispatchable [] (c.execFaulty env fails w).store (c.execFaulty env fails w).coord := by
  have hprog : Keeping env fails c.prog w := by
    unfold Keeping
    cases c <;> rw [Call.prog, Prog.wp_bind]
    case getReadyTask workerID => exact keeping_getReadyTask workerID h hspared
    case completeTask t e output => exact keeping_completeTask t e output h
    case failTask t e errMsg => exact keeping_failTask t e errMsg h
    case handleDeadWorker order workerID =>
      exact keeping_handleDeadWorker order workerID h hspared
    all_goals cases hop
  exact Prog.wp_run hprog

end Operations

/-! ## Runs -/

/-- In every run of the four operations whose faults miss `AssignTask` in
`GetReadyTask` and `RequeueTask` in `HandleDeadWorker`, no task is lost after
any of them. -/
theorem no_task_lost (env : Env) {pre : List Call} (hids : NeverReused (submitted pre))
    (fails : Faults) {calls : List Call} (hops : ∀ c ∈ calls, c.onTasks = true)
    (hspared : ∀ (mid : List Call) (c : Call), mid ++ [c] <+: calls →
      fails.Spares (runFaulty env fails (runCalls env pre) mid) c) :
    ∀ mid, mid <+: calls → NoTaskLost (runFaulty env fails (runCalls env pre) mid) := by
  intro mid hmid
  suffices h : Dispatchable [] (runFaulty env fails (runCalls env pre) mid).store
      (runFaulty env fails (runCalls env pre) mid).coord from h.noTaskLost
  induction mid using List.reverseRecOn with
  | nil => exact (inv_runCalls env hids).dispatchable
  | append_singleton mid c ih =>
    rw [runFaulty_append]
    exact c.dispatchable (hops c (hmid.subset (by simp)))
      (ih ((List.prefix_append _ _).trans hmid)) (hspared mid c hmid)

/-- The transaction of `CompleteTask` fails, and the second report goes
through. -/
theorem no_task_lost_retriedReport :
    NoTaskLost (runFaulty .counting (fun n => if n = 5 then some .taskNotFound else none)
      (runCalls .counting [.submitWorkflow .asListed (.pair .failFast 3)])
      [.getReadyTask "k", .completeTask "a" "x" "out", .completeTask "a" "x" "out"]) := by
  refine no_task_lost .counting (neverReused_of_one rfl) _ (by decide) ?_ _
    (List.prefix_refl _)
  intro mid c hpre
  obtain ⟨post, hpost⟩ := hpre
  rcases mid with _ | ⟨c₁, mid⟩
  · obtain ⟨rfl, _⟩ := List.cons.inj hpost
    intro t rest _ _
    decide
  · -- The rest of the run consists of reports.
    have hc : c = .completeTask "a" "x" "out" := by
      have hrest : mid ++ [c] ++ post
          = [.completeTask "a" "x" "out", .completeTask "a" "x" "out"] :=
        (List.cons.inj hpost).2
      have hin : c ∈ mid ++ [c] ++ post := by simp
      rw [hrest] at hin
      simpa using hin
    subst hc
    trivial

/-- `AssignTask` fails, and the only queued task is in no queue. -/
theorem not_noTaskLost_assign :
    ¬ NoTaskLost (runFaulty .counting (fun n => if n = 4 then some .taskNotFound else none)
      (runCalls .counting [.submitWorkflow .asListed (.pair .failFast 3)])
      [.getReadyTask "k"]) := by
  intro h
  have hqueued : ∃ r, (runFaulty .counting
      (fun n => if n = 4 then some .taskNotFound else none)
      (runCalls .counting [.submitWorkflow .asListed (.pair .failFast 3)])
      [.getReadyTask "k"]).store.taskState["a"]? = some r ∧ r.state = .queued ∧
        r.workflowID = "w" :=
    ⟨_, rfl, by decide, by decide⟩
  obtain ⟨r, hr, hst, hid⟩ := hqueued
  have hin := h.queued "a" r hr hst (by rw [hid]; decide)
  revert hin
  decide

end DagScheduler
