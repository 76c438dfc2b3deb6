import DagScheduler.Properties.Executions
import DagScheduler.Properties.Outcome

/-!
# Where records come from

Nothing stands in the store without a cause.

* A task record comes from a submission that was accepted
  (`exists_accepted_of_record`).
* A verdict, `COMPLETE` or `FAILED`, comes from one report that was accepted.  The
  record carries the execution ID and the text of that report, the ID was issued by
  the latest `GetReadyTask` for the task, and the dependencies of the task were
  complete.
* An assignment repeats the command, the environment and the timeout of the task as
  it was submitted, under an execution ID that no earlier assignment carries.

`handouts` and `returns` count how often a task was given to a worker and how often
it came back.  A task is given out at most once more than it came back, so two
workers never hold it at the same time.
-/

namespace DagScheduler

open Lib Store

variable {env : Env} {P P' : WorkflowSpec → Prop} {w w' : World} {c : Call}
  {calls : List Call} {t : String}

/-! ## Records -/

theorem AcceptedIn.mono {pre : List Call} {wf : WorkflowSpec} (hpre : pre <+: calls)
    (h : AcceptedIn env pre wf) : AcceptedIn env calls wf := by
  obtain ⟨orders, reply, hmem, hnil⟩ := h
  obtain ⟨post, rfl⟩ := hpre
  refine ⟨orders, reply, ?_, hnil⟩
  induction post using List.reverseRecOn with
  | nil => rwa [List.append_nil]
  | append_singleton post c ih =>
    rw [← List.append_assoc, history_append]
    exact List.mem_append_left _ ih

/-- A submission that creates a record returns nil. -/
theorem Effect.nil_of_created {orders : DagOrders} {wf : WorkflowSpec} {reply : Reply}
    (heff : Effect env w (.submitWorkflow orders wf) reply w') {r : TaskStateRecord}
    (hold : w.store.taskState[t]? = none) (hr : w'.store.taskState[t]? = some r) :
    reply.isNil = true := by
  cases heff with
  | submitWorkflow heff =>
    cases heff with
    | refused hstore _ _ =>
      rw [hstore, hold] at hr
      cases hr
    | halted _ hstore _ _ =>
      rw [hstore] at hr
      exact absurd (hold.symm.trans hr) (by simp)
    | launched _ => rfl

/-- Every task record comes from a submission that was accepted. -/
theorem exists_accepted_of_record (env : Env) (hids : NeverReused (submitted calls))
    {r : TaskStateRecord} (hr : (runCalls env calls).store.taskState[t]? = some r) :
    ∃ wf, AcceptedIn env calls wf ∧ t ∈ wf.taskIDs := by
  induction calls using List.reverseRecOn generalizing r with
  | nil => simp [runCalls] at hr
  | append_singleton calls c ih =>
    have h := inv_runCalls env hids.of_append
    have heff := effect_runCalls env hids
    have hadm := admissible_next h.sound hids
    cases hold : (runCalls env calls).store.taskState[t]? with
    | some r₀ =>
      obtain ⟨wf, hacc, hin⟩ := ih hids.of_append hold
      exact ⟨wf, hacc.mono (List.prefix_append _ _), hin⟩
    | none =>
      have hstep := heff.task h hadm t
      rw [hold, hr] at hstep
      cases hstep with
      | @created orders wf _ hin _ _ _ =>
        refine ⟨wf, ⟨orders, _, ?_, heff.nil_of_created hold hr⟩, hin⟩
        rw [history_append]
        exact List.mem_append_right _ List.mem_cons_self

/-! ## Verdicts -/

/-- The report that writes a verdict. -/
def TaskStateRecord.report (t : String) (r : TaskStateRecord) : Call :=
  if r.state = .complete then .completeTask t r.executionID r.output
  else .failTask t r.executionID r.error

theorem TaskStateRecord.report_reports (t : String) (r : TaskStateRecord) :
    (r.report t).Reports t r.executionID := by
  unfold report
  split <;> exact ⟨rfl, rfl⟩

/-- A verdict stood there before, or the call is the report that writes it. -/
theorem Effect.verdict_back (h : Inv P w) (hadm : c.Admissible P' w) {reply : Reply}
    (heff : Effect env w c reply w') {r : TaskStateRecord}
    (hr : w'.store.taskState[t]? = some r) (hst : r.state = .complete ∨ r.state = .failed) :
    w.store.taskState[t]? = some r ∨
      c = r.report t ∧ w.coord.assignedTasks[t]? = some r.executionID := by
  have hstep := heff.task h hadm t
  rw [hr] at hstep
  generalize ho : w.store.taskState[t]? = o at hstep
  have hexec : ∀ {r₀ : TaskStateRecord} {e : String}, o = some r₀ →
      w.coord.assignedTasks[t]? = some e → e = r₀.executionID := by
    intro r₀ e hr₀ ha
    obtain ⟨r₁, hr₁, he, _⟩ := h.agree.assigned t e ha
    rw [ho, hr₀] at hr₁
    cases hr₁
    exact he.symm
  cases hstep with
  | same => exact .inl rfl
  | created _ hnew _ _ => rcases hnew with hnew | hnew <;> simp [hnew] at hst
  | completed ha =>
    obtain rfl := hexec rfl ha
    exact .inr ⟨rfl, ha⟩
  | released _ hp =>
    rcases iterate_unlocked_pending _ hp _ with hq | hq <;> rw [hq] at hst <;> simp at hst
  | failed ha _ =>
    obtain rfl := hexec rfl ha
    exact .inr ⟨rfl, ha⟩
  | _ => simp at hst

/-- Every verdict was reported by the worker that held the task: the report was
accepted, carried the execution ID and the text of the record, named the execution
that was issued last, and came after the dependencies of the task were complete. -/
theorem verdict_reported (env : Env) (hids : NeverReused (submitted calls))
    {r : TaskStateRecord} (hr : (runCalls env calls).store.taskState[t]? = some r)
    (hst : r.state = .complete ∨ r.state = .failed) :
    ∃ pre, pre ++ [r.report t] <+: calls ∧ (replyTo env pre (r.report t)).isNil = true ∧
      IssuedLast env pre t r.executionID ∧
      ∃ wf, AcceptedIn env pre wf ∧ t ∈ wf.taskIDs ∧
        ∀ d ∈ wf.dependenciesOf t, (runCalls env pre).store.isComplete d = true := by
  induction calls using List.reverseRecOn with
  | nil => simp [runCalls] at hr
  | append_singleton calls c ih =>
    have h := inv_runCalls env hids.of_append
    have heff := effect_runCalls env hids
    rcases heff.verdict_back h (admissible_next h.sound hids) hr hst with hold | ⟨rfl, ha⟩
    · obtain ⟨pre, hpre, hrest⟩ := ih hids.of_append hold
      exact ⟨pre, hpre.trans (List.prefix_append _ _), hrest⟩
    · refine ⟨calls, List.prefix_rfl, ?_, issuedLast_runCalls env hids.of_append ha, ?_⟩
      · rw [replyTo, (heff.report_accepted (r.report_reports t) ha).1]
        rfl
      · obtain ⟨r₀, hr₀, _, _, hdeps, _⟩ := h.agree.assigned t _ ha
        obtain ⟨wf, hacc, hin⟩ := exists_accepted_of_record env hids.of_append hr₀
        refine ⟨wf, hacc, hin, fun d hd => hdeps d ?_⟩
        rw [(hacc.stored hids.of_append).depsOf h.sound.coherent.linked hin]
        exact hd

/-- The verdict on the first task of `halfwayRun`. -/
theorem verdict_reported_halfwayRun :
    ∃ pre, pre ++ [.completeTask "a" "x" "out"] <+: halfwayRun ∧
      (replyTo .counting pre (.completeTask "a" "x" "out")).isNil = true ∧
      IssuedLast .counting pre "a" "x" ∧
      ∃ wf, AcceptedIn .counting pre wf ∧ "a" ∈ wf.taskIDs ∧
        ∀ d ∈ wf.dependenciesOf "a", (runCalls .counting pre).store.isComplete d = true := by
  have hr : (runCalls .counting halfwayRun).store.taskState["a"]? = some
      { taskID := "a", workflowID := "w", state := .complete, executionID := "x"
        output := "out", lastUpdated := 5, downstreamTaskIDs := ["b", "b"] } := by decide
  exact verdict_reported .counting (neverReused_of_one rfl) hr (.inl rfl)

/-! ## Assignments -/

/-- What the worker is told is what was submitted for the task. -/
def TaskAssignment.Of (a : TaskAssignment) (task : TaskSpec) : Prop :=
  a.taskId = task.taskId ∧ a.command = task.command ∧ a.env = task.env ∧
    a.timeoutSeconds = task.timeoutSeconds

/-- An assignment carries the UUID that is drawn for it. -/
theorem Effect.executionId {workerID : String} {a : TaskAssignment}
    (heff : Effect env w (.getReadyTask workerID) (.assignment (some a)) w') :
    a.executionId = env.uuid w.uuids ∧ w'.uuids = w.uuids + 1 := by
  cases heff with
  | getReadyTask heff =>
    cases heff with
    | assigned _ _ _ _ _ huuids => exact ⟨rfl, huuids⟩

/-- A cached specification is the one of the workflow that has the task. -/
theorem Inv.cached_spec (h : Inv P w) {wf : WorkflowSpec} (hold : w.store.Holds wf)
    (ht : t ∈ wf.taskIDs) {spec : TaskSpec} (hspec : w.coord.taskSpecCache[t]? = some spec) :
    spec ∈ wf.tasks ∧ spec.taskId = t := by
  obtain ⟨id, hid⟩ := (Table.mem_iff_get _ _).mp
    (h.cached.spec t ((Table.mem_iff_get _ _).mpr ⟨spec, hspec⟩))
  obtain ⟨other, hother, hin, hfind, _⟩ := h.cached.owner t id hid
  have heq := h.sound.coherent.linked.disjoint _ _ _ _ hother hold.spec t hin ht
  rw [heq, hold.spec] at hother
  cases hother
  rw [hspec] at hfind
  exact WorkflowSpec.mem_of_findTask hfind.symm

theorem Effect.assignment_of (h : Inv P w) {workerID : String} {a : TaskAssignment}
    (heff : Effect env w (.getReadyTask workerID) (.assignment (some a)) w')
    {wf : WorkflowSpec} (hold : w.store.Holds wf) (ht : a.taskId ∈ wf.taskIDs) :
    ∃ task ∈ wf.tasks, a.Of task ∧ ∀ d ∈ task.dependencies, w.store.isComplete d = true := by
  have hl := h.sound.coherent.linked
  have hqueued := heff.queued_of_assignment h
  cases heff with
  | getReadyTask heff =>
    cases heff with
    | @assigned t _ spec r _ _ _ hspec hr _ _ _ =>
      obtain ⟨hmem, hid⟩ := h.cached_spec hold ht hspec
      refine ⟨spec, hmem, ⟨hid.symm, rfl, rfl, rfl⟩, fun d hd => ?_⟩
      rw [stateOf_of_get hr] at hqueued
      refine h.sound.coherent.counted.ready t r hr (by rw [Option.some.inj hqueued]; rfl) d ?_
      rw [hold.depsOf hl ht]
      have hdeps := WorkflowSpec.dependenciesOf_of_mem (hl.workflow _ _ hold.spec).2.2.nodup hmem
      rw [hid] at hdeps
      rw [hdeps]
      exact hd

/-- The generator has passed what an earlier call has drawn. -/
theorem uuids_mono (env : Env) {pre : List Call} (hpre : pre <+: calls)
    (hids : NeverReused (submitted calls)) :
    (runCalls env pre).uuids ≤ (runCalls env calls).uuids :=
  runCalls_stable (I := fun w => (runCalls env pre).uuids ≤ w.uuids)
    (fun _ _ _ _ _ _ _ _ heff hle => hle.trans heff.uuids_le) hpre hids (Nat.le_refl _)

/-- Every assignment tells the worker what was submitted, for a task of an accepted
workflow whose dependencies are complete, under a new execution ID. -/
theorem assignment_faithful (env : Env) (hids : NeverReused (submitted calls))
    {workerID : String} {a : TaskAssignment}
    (ha : replyTo env calls (.getReadyTask workerID) = .assignment (some a)) :
    (∃ wf, AcceptedIn env calls wf ∧ ∃ task ∈ wf.tasks, a.Of task ∧
      ∀ d ∈ task.dependencies, (runCalls env calls).store.isComplete d = true) ∧
    ∀ (pre : List Call) (other : String) (b : TaskAssignment),
      pre ++ [.getReadyTask other] <+: calls →
      replyTo env pre (.getReadyTask other) = .assignment (some b) →
      b.executionId ≠ a.executionId := by
  have hlast : ∀ {calls : List Call} {workerID : String} {a : TaskAssignment},
      NeverReused (submitted calls) →
      replyTo env calls (.getReadyTask workerID) = .assignment (some a) →
      Effect env (runCalls env calls) (.getReadyTask workerID) (.assignment (some a))
        (runCalls env (calls ++ [.getReadyTask workerID])) := by
    intro calls workerID a hids ha
    have hask : NeverReused (submitted (calls ++ [.getReadyTask workerID])) := by
      rw [submitted_append]
      simpa [Call.submits] using hids
    have heff := effect_runCalls env hask
    rw [replyTo] at ha
    rwa [ha] at heff
  have h := inv_runCalls env hids
  have heff := hlast hids ha
  refine ⟨?_, fun pre other b hpre hb hsame => ?_⟩
  · obtain ⟨r, hr, _⟩ := stateOf_eq_some.mp (heff.queued_of_assignment h)
    obtain ⟨wf, hacc, hin⟩ := exists_accepted_of_record env hids hr
    exact ⟨wf, hacc, heff.assignment_of h (hacc.stored hids) hin⟩
  · have hids' := hids.mono ((List.prefix_append _ _).trans hpre)
    obtain ⟨hb', hnext⟩ := (hlast hids' hb).executionId
    rw [hb', heff.executionId.1] at hsame
    have heq := env.uuid_injective hsame
    have hle := uuids_mono env hpre hids
    omega

/-- Two commands, the second with an environment and a time limit. -/
def WorkflowSpec.release : WorkflowSpec where
  workflowId := "w"
  tasks :=
    [{ taskId := "a", command := "make", maxRetries := 2 },
     { taskId := "b", dependencies := ["a"], command := "make install",
       env := [("DESTDIR", "/srv"), ("JOBS", "4")], timeoutSeconds := 30, maxRetries := 2 }]

/-- The first task is done, and the second one has failed once. -/
def releaseCalls : List Call :=
  [.submitWorkflow .asListed .release, .getReadyTask "k", .completeTask "a" "x" "built",
    .getReadyTask "l", .failTask "b" "xx" "disk full"]

/-- What the next worker is told. -/
def releaseAssignment : TaskAssignment :=
  ⟨"b", "xxxx", "make install", [("DESTDIR", "/srv"), ("JOBS", "4")], 30⟩

theorem assignment_faithful_afterFailure :
    (∃ wf, AcceptedIn .counting releaseCalls wf ∧ ∃ task ∈ wf.tasks, releaseAssignment.Of task ∧
      ∀ d ∈ task.dependencies, (runCalls .counting releaseCalls).store.isComplete d = true) ∧
    ∀ (pre : List Call) (other : String) (b : TaskAssignment),
      pre ++ [.getReadyTask other] <+: releaseCalls →
      replyTo .counting pre (.getReadyTask other) = .assignment (some b) →
      b.executionId ≠ releaseAssignment.executionId := by
  have hids : NeverReused (submitted releaseCalls) := neverReused_of_one rfl
  have ha : replyTo .counting releaseCalls (.getReadyTask "k")
      = .assignment (some releaseAssignment) :=
    rfl
  exact assignment_faithful .counting hids ha

/-! ## How often a task is handed out -/

/-- The reply gives the task `t` to a worker. -/
def Reply.gives (t : String) : Reply → Bool
  | .assignment (some a) => a.taskId = t
  | _ => false

/-- How often the run gave `t` to a worker. -/
def handouts (env : Env) (t : String) (calls : List Call) : Nat :=
  (history env calls).countP fun p => p.2.gives t

/-- The task had a worker, or was skipped under one, and is queued again. -/
def ComesBack (t : String) (w w' : World) : Prop :=
  (w.store.stateOf t = some .running ∨ w.store.stateOf t = some .skipped) ∧
    w'.store.stateOf t = some .queued

instance (t : String) (w w' : World) : Decidable (ComesBack t w w') :=
  inferInstanceAs (Decidable (_ ∧ _))

/-- How often `t` came back. -/
def returns (env : Env) (t : String) (calls : List Call) : Nat :=
  (List.range calls.length).countP fun n =>
    ComesBack t (runCalls env (calls.take n)) (runCalls env (calls.take (n + 1)))

theorem handouts_append (env : Env) (t : String) (calls : List Call) (c : Call) :
    handouts env t (calls ++ [c])
      = handouts env t calls + if (replyTo env calls c).gives t = true then 1 else 0 := by
  rw [handouts, history_append, List.countP_append, List.countP_singleton]
  rfl

theorem returns_append (env : Env) (t : String) (calls : List Call) (c : Call) :
    returns env t (calls ++ [c]) = returns env t calls
      + if ComesBack t (runCalls env calls) (runCalls env (calls ++ [c])) then 1 else 0 := by
  rw [returns, List.length_append, List.length_singleton, List.range_succ, List.countP_append,
    List.countP_singleton]
  congr 1
  · refine List.countP_congr fun n hn => ?_
    have hlt := List.mem_range.mp hn
    rw [List.take_append_of_le_length hlt.le, List.take_append_of_le_length hlt]
  · rw [List.take_left, List.take_of_length_le (by simp)]
    simp only [decide_eq_true_eq]

/-- A task that is handed out was queued and runs then. -/
theorem Effect.runs_of_gives (h : Inv P w) {reply : Reply} (heff : Effect env w c reply w')
    (hgives : reply.gives t = true) :
    w.store.stateOf t = some .queued ∧ w'.store.stateOf t = some .running := by
  cases heff with
  | getReadyTask heff =>
    cases heff with
    | empty _ => cases hgives
    | unknown _ _ => cases hgives
    | assigned hq _ _ hstore _ _ =>
      obtain rfl := of_decide_eq_true hgives
      refine ⟨h.agree.queued _ (by rw [hq]; exact List.mem_cons_self), ?_⟩
      rw [hstore, Store.stateOf_setTask, if_pos rfl]
  | _ => cases hgives

/-- The task waits or is queued, or is not known yet. -/
def Store.CanHandOut (s : Store) (t : String) : Prop :=
  s.stateOf t = none ∨ s.stateOf t = some .pending ∨ s.stateOf t = some .queued

instance (s : Store) (t : String) : Decidable (s.CanHandOut t) :=
  inferInstanceAs (Decidable (_ ∨ _))

/-- A task that can be handed out could be so before, or comes back. -/
theorem Effect.canHandOut_back (h : Inv P w) (hadm : c.Admissible P' w) {reply : Reply}
    (heff : Effect env w c reply w') (hcan : w'.store.CanHandOut t) :
    w.store.CanHandOut t ∨ ComesBack t w w' := by
  have hstep := heff.task h hadm t
  have hassigned : ∀ {r : TaskStateRecord} {e : String}, w.store.taskState[t]? = some r →
      w.coord.assignedTasks[t]? = some e → w'.store.stateOf t = some .queued →
      ComesBack t w w' := by
    intro r e hr ha hq
    rw [ComesBack, stateOf_of_get hr, Option.some.injEq, Option.some.injEq]
    exact ⟨h.state_of_assigned ha hr, hq⟩
  generalize ho : w.store.taskState[t]? = o at hstep hassigned
  generalize ho' : w'.store.taskState[t]? = o' at hstep
  have hst : w.store.stateOf t = o.map (·.state) := congrArg (Option.map _) ho
  have hst' : w'.store.stateOf t = o'.map (·.state) := congrArg (Option.map _) ho'
  unfold Store.CanHandOut at hcan ⊢
  cases hstep with
  | same => exact .inl (by rw [hst, ← hst']; exact hcan)
  | created _ _ _ _ => exact .inl (.inl hst)
  | assigned hq _ => exact .inl (.inr (.inr (by rw [hst, Option.map_some, hq])))
  | released _ hp => exact .inl (.inr (.inl (by rw [hst, Option.map_some, hp])))
  | retried ha _ _ => exact .inr (hassigned rfl ha hst')
  | reclaimed hw _ _ =>
    obtain ⟨e, ha⟩ := h.assigned_of_running hw
    exact .inr (hassigned rfl ha hst')
  | recovered hr _ _ => exact .inr ⟨.inl (by rw [hst, Option.map_some, hr]), hst'⟩
  | _ => simp [hst'] at hcan

/-- A task is given to a worker at most once more than it came back from one. -/
theorem handouts_le_returns (env : Env) (t : String) (hids : NeverReused (submitted calls)) :
    handouts env t calls ≤ returns env t calls + 1 := by
  -- A task that can still be handed out has one handout left.
  suffices hsum : handouts env t calls
      + (if (runCalls env calls).store.CanHandOut t then 1 else 0) ≤ returns env t calls + 1 from
    (Nat.le_add_right _ _).trans hsum
  induction calls using List.reverseRecOn with
  | nil => exact Nat.le_refl _
  | append_singleton calls c ih =>
    have h := inv_runCalls env hids.of_append
    have heff := effect_runCalls env hids
    have hback := heff.canHandOut_back h (admissible_next h.sound hids) (t := t)
    have hbefore := ih hids.of_append
    rw [handouts_append, returns_append]
    by_cases hgives : (replyTo env calls c).gives t = true
    · obtain ⟨hqueued, hruns⟩ := heff.runs_of_gives h hgives
      have hcan : (runCalls env calls).store.CanHandOut t := .inr (.inr hqueued)
      have hgone : ¬ (runCalls env (calls ++ [c])).store.CanHandOut t := by
        simp [Store.CanHandOut, hruns]
      rw [if_pos hgives, if_neg hgone]
      rw [if_pos hcan] at hbefore
      omega
    · rw [if_neg hgives]
      by_cases hcan : (runCalls env (calls ++ [c])).store.CanHandOut t
      · rw [if_pos hcan]
        rcases hback hcan with hold | hcomes
        · rw [if_pos hold] at hbefore
          omega
        · rw [if_pos hcomes]
          omega
      · rw [if_neg hcan]
        omega

/-- The task is handed out, its worker dies, and it is handed out again. -/
def twiceRun : List Call :=
  [.submitWorkflow .asListed (.pair .failFast 3), .getReadyTask "k",
    .handleDeadWorker (.asListed _) "k", .getReadyTask "l"]

theorem handouts_le_returns_twiceRun :
    handouts .counting "a" twiceRun = 2 ∧
      handouts .counting "a" twiceRun ≤ returns .counting "a" twiceRun + 1 := by
  have hids : NeverReused (submitted twiceRun) := neverReused_of_one rfl
  exact ⟨by decide, handouts_le_returns .counting "a" hids⟩

end DagScheduler
