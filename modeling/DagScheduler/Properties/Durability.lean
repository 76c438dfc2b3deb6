import DagScheduler.Coordinator.Continues
import DagScheduler.Coordinator.Steps
import DagScheduler.Store.Changes

/-!
# Results that are stored

A worker whose `CompleteTask` was answered forgets the result, so the coordinator
must never lose it: not by a later operation, not by a crash in the middle of one, and
not by a recovery that is itself interrupted.

An operation that runs to its end leaves a `COMPLETE` or `FAILED` record alone by its
effect.  An operation that is cut short has no effect to speak of, so its actions are
looked at one by one: of the transactions that would change such a record, `Call.Runs`
lets none through, because each of them needs to have seen the task open, assigned or
owned.
-/

namespace DagScheduler

open Lib Store

variable {env : Env} {P : WorkflowSpec → Prop} {w w' : World} {c : Call}
  {t : String} {r : TaskStateRecord}

/-! ## Operations that are cut short -/

/-- Nothing is said about the task in memory, or the operation is a restart, which
does not look at the old memory. -/
def Call.Overlooks (c : Call) (t : String) (w : World) : Prop :=
  c = .restart ∨ w.coord.assignedTasks[t]? = none ∧ w.coord.runningTasks[t]? = none

/-- The task has this record, and the call has no business with it. -/
structure OutOfReach (c : Call) (t : String) (r : TaskStateRecord) (w : World) : Prop where
  record : w.store.taskState[t]? = some r
  overlooked : c.Overlooks t w

/-- A transaction that the call can run leaves the record alone. -/
theorem Call.Runs.record_eq {J B : World → Prop} (hterm : r.state.terminal = true)
    (hnew : ∀ wf, c.submits = some wf → t ∉ wf.taskIDs)
    (hJ : ∀ w, J w → w.store.Keyed ∧ OutOfReach c t r w) {α : Type} {op : StoreOp α}
    {o : Option TaskStateRecord} (hruns : c.Runs env J B op)
    (hchange : op.Changes t (some r) o) : o = some r := by
  have hopen : r.state.terminal ≠ false := by simp [hterm]
  have hassigned : c ≠ .restart → ∀ e, ¬ Seen J (·.coord.assignedTasks[t]? = some e) := by
    rintro hc e ⟨w, hw, ha⟩
    rcases (hJ w hw).2.overlooked with hrestart | ⟨hnone, _⟩
    · exact hc hrestart
    · rw [hnone] at ha
      cases ha
  cases hchange with
  | same => rfl
  | created _ hcreates =>
    cases hruns with
    | initializeTasks _ =>
      obtain ⟨_, task, hin, heq, _⟩ := hcreates
      exact absurd (WorkflowSpec.mem_taskIDs.mpr ⟨task, hin, heq⟩) (hnew _ rfl)
    | _ => exact hcreates.elim
  | rewritten hrewrites =>
    cases hruns with
    | queueRoot hv hready =>
      obtain ⟨rfl, _⟩ := hrewrites
      exact absurd ((accepted_of_ok hv).mem_getReadyTasks.mp hready).1 (hnew _ rfl)
    | skip hseen =>
      obtain ⟨rfl, _⟩ := hrewrites
      obtain ⟨w, hw, r', hr', hst⟩ := hseen
      rw [(hJ w hw).2.record] at hr'
      cases hr'
      exact absurd hst hopen
    | complete hseen =>
      rcases hrewrites with ⟨rfl, _⟩ | ⟨now, n, rfl⟩
      · exact absurd hseen (hassigned (by simp) _)
      · refine congrArg some (iterate_unlocked_of_ne now ?_ n)
        exact fun hst => hopen (by rw [hst]; rfl)
    | fail hseen =>
      obtain ⟨rfl, _⟩ := hrewrites
      exact absurd hseen (hassigned (by simp) _)
    | retry hseen _ =>
      obtain ⟨rfl, _⟩ := hrewrites
      exact absurd hseen (hassigned (by simp) _)
    | reclaim hseen _ =>
      obtain ⟨rfl, _⟩ := hrewrites
      obtain ⟨w, hw, howner⟩ := hseen
      rcases (hJ w hw).2.overlooked with hrestart | ⟨_, hnone⟩
      · cases hrestart
      · rw [hnone] at howner
        cases howner
    | recover hseen _ =>
      obtain ⟨rfl, _⟩ := hrewrites
      obtain ⟨w, hw, hin⟩ := hseen
      have hst := (mem_getTasksInState (hJ w hw).1).mp hin
      rw [stateOf, (hJ w hw).2.record, Option.map_some, Option.some.injEq] at hst
      exact absurd (by rw [hst]; rfl) hopen
    | stop => exact absurd hrewrites.1 hopen
    | cancelTasks => exact absurd hrewrites.1 hopen
    | _ => exact hrewrites.elim

/-- The actions of the call leave the task where it is. -/
theorem OutOfReach.handle (hterm : r.state.terminal = true)
    (hnew : ∀ wf, c.submits = some wf → t ∉ wf.taskIDs) (hget : ∀ k, c ≠ .getReadyTask k)
    {β : Type} (e : Action β) (w : World)
    (huses : c.Uses env (fun w => Keeps P w ∧ OutOfReach c t r w) (fun _ => True) e)
    (hs : Keeps P w) (h : OutOfReach c t r w) : OutOfReach c t r (Action.handle env e w).2 := by
  cases e with
  | update op =>
    have hchange := op.commit_changes hs.coherent.linked.keyed env.marshals (env.now w.ticks) t
    rw [h.record] at hchange
    exact ⟨huses.record_eq hterm hnew (fun w hw => ⟨hw.1.coherent.linked.keyed, hw.2⟩) hchange,
      h.overlooked⟩
  | view f => exact h
  | newUUID => exact ⟨h.record, h.overlooked⟩
  | getReadyTask k => exact absurd huses (hget k)
  | locked f =>
    refine ⟨h.record, h.overlooked.imp_right fun hnone => ?_⟩
    rcases (huses.1 w.store w.coord).maps t with hsame | hgone
    · exact ⟨hsame.1.trans hnone.1, hsame.2.trans hnone.2⟩
    · exact hgone

/-! ## One step of a run -/

/-- A task that is over has no worker. -/
theorem Inv.not_assigned_of_over (h : Inv P w) (hr : w.store.taskState[t]? = some r)
    (hover : r.state = .complete ∨ r.state = .failed) (e : String) :
    w.coord.assignedTasks[t]? ≠ some e := by
  intro ha
  rcases h.state_of_assigned ha hr with hst | hst <;> simp [hst] at hover

/-- A task without a worker is in neither map. -/
theorem Inv.outOfReach (h : Inv P w) (hr : w.store.taskState[t]? = some r)
    (hfree : ∀ e, w.coord.assignedTasks[t]? ≠ some e) (c : Call) : OutOfReach c t r w := by
  have hnone : w.coord.assignedTasks[t]? = none := Option.eq_none_iff_forall_ne_some.mpr hfree
  refine ⟨hr, .inr ⟨hnone, Option.eq_none_iff_forall_ne_some.mpr fun k hk => ?_⟩⟩
  obtain ⟨e, ha⟩ := h.assigned_of_running hk
  rw [hnone] at ha
  cases ha

theorem TaskState.terminal_of_over {st : TaskState} (h : st = .complete ∨ st = .failed) :
    st.terminal = true := by
  rcases h with rfl | rfl <;> rfl

/-- The tasks of a fresh workflow have no record. -/
theorem Call.Admissible.not_mem_taskIDs (hs : w.store.Sound P) {P' : WorkflowSpec → Prop}
    (hadm : c.Admissible P' w) (hr : w.store.taskState[t]? = some r) (wf : WorkflowSpec)
    (hsub : c.submits = some wf) : t ∉ wf.taskIDs := by
  obtain ⟨other, hother, hin⟩ := hs.coherent.linked.owned t r hr
  exact fun ht => ((hadm wf hsub).2 _ other hother).2 hin ht

theorem Inv.record_exec (env : Env) (h : Inv P w) (hadm : c.Admissible P w)
    (hr : w.store.taskState[t]? = some r) (hterm : r.state.terminal = true)
    (hfree : ∀ e, w.coord.assignedTasks[t]? ≠ some e) :
    (c.exec env w).2.store.taskState[t]? = some r := by
  have heff : Effect env w c _ _ := (h.exec c hadm).1
  have hstep := heff.task h hadm t
  rw [hr] at hstep
  exact hstep.eq_of_terminal h hterm hfree

theorem Inv.record_execFor (h : Inv P w) (hadm : c.Admissible P w)
    (hr : w.store.taskState[t]? = some r) (hterm : r.state.terminal = true)
    (hfree : ∀ e, w.coord.assignedTasks[t]? ≠ some e) (n : Nat) :
    (c.execFor env n w).store.taskState[t]? = some r := by
  by_cases hget : ∃ k, c = .getReadyTask k
  · -- A single action is executed as a whole, or not at all.
    obtain ⟨k, rfl⟩ := hget
    have hexec : ∀ m, (Call.getReadyTask k).execFor env (m + 1) w
        = ((Call.getReadyTask k).exec env w).2 := fun m => by cases m <;> rfl
    cases n with
    | zero => exact hr
    | succ n =>
      rw [hexec]
      exact h.record_exec env hadm hr hterm hfree
  · have hkeep : ∀ n, OutOfReach c t r (c.execFor env n w) :=
      (Call.keeps_of_wp (OutOfReach.handle hterm (hadm.not_mem_taskIDs h.sound hr)
        (not_exists.mp hget)) (c.effect h hadm) h.sound (h.outOfReach hr hfree c)).2
    exact (hkeep n).record

/-- A restart leaves the record alone, also one that does not get to its end. -/
theorem Keeps.record_restart (hs : Keeps P w) (hr : w.store.taskState[t]? = some r)
    (hover : r.state = .complete ∨ r.state = .failed) :
    (Call.restart.exec env w).2.store.taskState[t]? = some r ∧
      ∀ n, (Call.restart.execFor env n w).store.taskState[t]? = some r := by
  have hkeep : OutOfReach .restart t r (Call.restart.exec env w).2 ∧
      ∀ n, OutOfReach .restart t r (Call.restart.execFor env n w) :=
    Call.keeps_of_wp (OutOfReach.handle (TaskState.terminal_of_over hover) (by simp [Call.submits])
      (by simp)) hs.wp_restart_prog hs ⟨hr, .inl rfl⟩
  exact ⟨hkeep.1.record, fun n => (hkeep.2 n).record⟩

/-! ## Whole runs -/

/-- What is `COMPLETE` or `FAILED` in some state of a run is so, with the same record, in
every later one. -/
theorem Continues.record_eq {calls more : List Call} {up up' : Bool}
    (hrun : CrashRun env calls up w) (hmore : Continues env up w more up' w')
    (hids : NeverReused (submitted (calls ++ more))) (hr : w.store.taskState[t]? = some r)
    (hover : r.state = .complete ∨ r.state = .failed) : w'.store.taskState[t]? = some r := by
  induction hmore with
  | refl => exact hr
  | @call more w c hmore ih =>
    rw [← List.append_assoc] at hids
    have h := (hmore.crashRun hrun).inv hids.of_append
    have hbefore := ih hids.of_append
    exact (h.mono (submitted_subset _ c)).record_exec env (admissible_next h.sound hids)
      hbefore (TaskState.terminal_of_over hover) (h.not_assigned_of_over hbefore hover)
  | @cut more w c n hmore ih =>
    rw [← List.append_assoc] at hids
    have h := (hmore.crashRun hrun).inv hids.of_append
    have hbefore := ih hids.of_append
    exact (h.mono (submitted_subset _ c)).record_execFor (admissible_next h.sound hids)
      hbefore (TaskState.terminal_of_over hover) (h.not_assigned_of_over hbefore hover) n
  | cutAgain n hmore ih =>
    rw [← List.append_assoc] at hids
    have hs : Keeps _ _ := (hmore.crashRun hrun).sound hids.of_append
    exact (hs.record_restart (ih hids.of_append) hover).2 n
  | recover hmore ih =>
    rw [← List.append_assoc] at hids
    have hs : Keeps _ _ := (hmore.crashRun hrun).sound hids.of_append
    exact (hs.record_restart (ih hids.of_append) hover).1

/-- A `CompleteTask` that returns `nil` leaves a `COMPLETE` record of its execution. -/
theorem Effect.complete_of_isNil {reply : Reply} {e output : String} (h : Inv P w)
    (heff : Effect env w (.completeTask t e output) reply w') (hnil : reply.isNil = true) :
    ∃ r, w'.store.taskState[t]? = some r ∧ r.state = .complete ∧ r.executionID = e := by
  cases heff with
  | @completeTask _ _ _ result _ heff =>
    cases heff with
    | ignored _ hiff =>
      cases result with
      | error err => cases hnil
      | ok u => exact hiff.mp rfl
    | accepted ha hr hc hchecked _ _ =>
      obtain ⟨r₀, hr₀, hexec, _, _⟩ := h.agree.assigned t e ha
      rw [hr] at hr₀
      cases hr₀
      exact ⟨_, (congrArg (·[t]?) hchecked.taskState).trans hc.task, rfl, hexec⟩

/-- A repeated report of the execution that completed a task is answered with `nil`. -/
theorem Effect.isNil_of_complete {reply : Reply} {e output : String}
    (heff : Effect env w (.completeTask t e output) reply w')
    (hr : w.store.taskState[t]? = some r) (hst : r.state = .complete)
    (hexec : r.executionID = e) : reply.isNil = true := by
  cases heff with
  | completeTask heff =>
    cases heff with
    | ignored _ hiff =>
      rw [hiff.mpr ⟨r, hr, hst, hexec⟩]
      rfl
    | accepted _ _ _ _ _ _ => rfl

/-- `GetReadyTask` makes the task it hands out `RUNNING`. -/
theorem Effect.running_of_assignment {k : String} {a : TaskAssignment}
    (heff : Effect env w (.getReadyTask k) (.assignment (some a)) w') :
    w'.store.stateOf a.taskId = some .running := by
  cases heff with
  | getReadyTask heff =>
    cases heff with
    | assigned _ _ _ hstore _ _ =>
      rw [hstore, stateOf, get_setTask, if_pos rfl]
      rfl

/-- A task that is over is not handed out. -/
theorem Inv.taskId_ne_of_over (h : Inv P w) (hr : w.store.taskState[t]? = some r)
    (hover : r.state = .complete ∨ r.state = .failed) {k : String} {a : TaskAssignment}
    (hreply : ((Call.getReadyTask k).exec env w).1 = .assignment (some a)) : a.taskId ≠ t := by
  rintro rfl
  have hadm : (Call.getReadyTask k).Admissible P w := fun _ hsub => nomatch hsub
  have heff : Effect env w (.getReadyTask k) _ _ := (h.exec _ hadm).1
  rw [hreply] at heff
  have hrunning := heff.running_of_assignment
  rw [stateOf, h.record_exec env hadm hr (TaskState.terminal_of_over hover)
    (h.not_assigned_of_over hr hover), Option.map_some, Option.some.injEq] at hrunning
  simp [hrunning] at hover

/-- A result whose report was answered with `nil` is there for good.  Whatever is called
and wherever the process crashes, the record of the task stays as it is, the task is
never handed out again, and a repeated report is answered with `nil` again. -/
theorem acknowledged_result_durable {calls more : List Call} {e output : String} {up : Bool}
    (hrun : CrashRun env calls true w)
    (hack : ((Call.completeTask t e output).exec env w).1.isNil = true)
    (hmore : Continues env true ((Call.completeTask t e output).exec env w).2 more up w')
    (hids : NeverReused (submitted (calls ++ [.completeTask t e output] ++ more))) :
    ∃ r, r.state = .complete ∧ r.executionID = e ∧
      ((Call.completeTask t e output).exec env w).2.store.taskState[t]? = some r ∧
      w'.store.taskState[t]? = some r ∧
      (up = true →
        (∀ k a, ((Call.getReadyTask k).exec env w').1 = .assignment (some a) → a.taskId ≠ t) ∧
        ∀ again, ((Call.completeTask t e again).exec env w').1.isNil = true) := by
  have hrun' := CrashRun.call (.completeTask t e output) hrun
  have hids' : NeverReused (submitted (calls ++ [.completeTask t e output])) :=
    .mono (List.prefix_append _ _) hids
  have hinv := hrun.inv hids'.of_append
  have heff : Effect env w (.completeTask t e output) _ _ :=
    ((hinv.mono (submitted_subset _ _)).exec _ (admissible_next hinv.sound hids')).1
  obtain ⟨r, hr, hst, hexec⟩ := heff.complete_of_isNil hinv hack
  have hlater : w'.store.taskState[t]? = some r :=
    hmore.record_eq hrun' hids hr (.inl hst)
  refine ⟨r, hst, hexec, hr, hlater, ?_⟩
  rintro rfl
  have hinv' := (hmore.crashRun hrun').inv hids
  constructor
  · exact fun k a hreply => hinv'.taskId_ne_of_over hlater (.inl hst) hreply
  · intro again
    exact (hinv'.exec (.completeTask t e again) fun _ hsub => nomatch hsub).1.isNil_of_complete
      hlater hst hexec

/-- A submission and an assignment, before the first result. -/
def startedRun : List Call :=
  [.submitWorkflow .asListed (.pair .skipDownstream 1), .getReadyTask "k"]

/-- The result, a cancellation that is killed after its first transaction, a restart that
is killed too, and a restart. -/
def crashedTwice : World :=
  let w := ((Call.completeTask "a" "x" "out").exec .counting (runCalls .counting startedRun)).2
  let w := (Call.cancelWorkflow "w").execFor .counting 1 w
  let w := Call.restart.execFor .counting 3 w
  (Call.restart.exec .counting w).2

theorem acknowledged_result_durable_crashedTwice :
    ∃ r, r.state = .complete ∧ r.executionID = "x" ∧
      crashedTwice.store.taskState["a"]? = some r ∧
      ((Call.completeTask "a" "x" "late").exec .counting crashedTwice).1.isNil = true := by
  have hack : ((Call.completeTask "a" "x" "out").exec .counting
      (runCalls .counting startedRun)).1.isNil = true := by decide
  obtain ⟨r, hst, hexec, _, hr, hup⟩ := acknowledged_result_durable
    (crashRun_runCalls .counting startedRun) hack
    (.recover (.cutAgain 3 (.cut (.cancelWorkflow "w") 1 .refl))) (neverReused_of_one rfl)
  exact ⟨r, hst, hexec, hr, (hup rfl).2 "late"⟩

end DagScheduler
