import DagScheduler.Lib.Reading
import DagScheduler.Model.Service
import DagScheduler.Properties.Durability
import DagScheduler.Properties.Outcome
import DagScheduler.Properties.Watchdog
import DagScheduler.Properties.WorkflowFinality

/-!
# Status queries in the middle of other operations

A client polls `GetWorkflowStatus` until it sees a terminal state.  The query takes no
lock.  Its two views may fall between any two actions of the operations that run
meanwhile, and a whole operation may run between them.

The answer is final nevertheless.  An operation that writes the state of a workflow
does it with its last action (`Call.quietButLast`), so a query that sees a terminal
state sees it between two operations, or at the end of one.  There the state agrees
with the tasks (`Contained.concluded`), all of them are over, and nothing that any
later operation does, in its course or at its end, changes what a query reads.

This needs a workflow that nobody cancels, under one of the two policies that leave
running tasks alone: a late report of a task that was skipped writes the state again.
-/

namespace DagScheduler

open Lib Program Store

variable {env : Env} {P : WorkflowSpec → Prop} {w w' : World} {c : Call} {id : String}

/-! ## The state of a workflow is written last -/

/-- The transaction does not write the state of the workflow `id`. -/
def StoreOp.Quiet (id : String) {α : Type} : StoreOp α → Prop
  | .initWorkflowState i | .updateWorkflowState i _ => i ≠ id
  | _ => True

/-- The action does not write the state of the workflow `id`. -/
def Action.Quiet (id : String) {β : Type} : Action β → Prop
  | .update op => op.Quiet id
  | _ => True

theorem Action.Quiet.workflowState {β : Type} {e : Action β} (he : e.Quiet id)
    (hk : w.store.Keyed) :
    (Action.handle env e w).2.store.workflowState[id]? = w.store.workflowState[id]? := by
  cases e with
  | update op =>
    rcases op.commit_workflowState hk env.marshals (env.now w.ticks) id with hsame | ⟨_, _, hop⟩
    · exact hsame
    · cases op with
      | initWorkflowState i => exact absurd hop.1 he
      | updateWorkflowState i st => exact absurd hop.1 he
      | _ => exact hop.elim
  | view f => rfl
  | locked f => rfl
  | newUUID => rfl
  | getReadyTask k => exact congrArg (·[id]?) (World.getReadyTask_workflows hk k).1

section Programs

variable {h : Handler Action World} {J B : World → Prop}

theorem quietButLast_tryUpdate {α : Type} {op : StoreOp α}
    {k : α → Program (Except CallError Unit)} (hop : op.Quiet id)
    (hk : ∀ a, (k a).AdmitsButLast h J B (Action.Quiet id)) :
    (tryUpdate op k).AdmitsButLast h J B (Action.Quiet id) := by
  rw [tryUpdate]
  refine Prog.Admits.bind_butLast (Prog.admits_act hop) fun result => ?_
  cases result with
  | error e => trivial
  | ok a => exact hk a

theorem quietButLast_checkWorkflowCompletion (i : String) :
    (checkWorkflowCompletion i).AdmitsButLast h J B (Action.Quiet id) := by
  rw [checkWorkflowCompletion]
  refine Prog.Admits.bind_butLast (Prog.admits_act trivial) fun done => ?_
  refine Prog.admitsButLast_when ?_
  refine Prog.Admits.bind_butLast (Prog.admits_act trivial) fun statuses => ?_
  exact Prog.admitsButLast_act_bind fun _ => trivial

theorem quietButLast_completeTask (t e output : String) :
    (completeTask t e output).AdmitsButLast h J B (Action.Quiet id) := by
  rw [completeTask]
  refine Prog.Admits.bind_butLast (Prog.admits_act trivial) fun found => ?_
  cases found with
  | none =>
    refine Prog.Admits.bind_butLast (Prog.admits_act trivial) fun task => ?_
    cases task with
    | error e => trivial
    | ok task =>
      dsimp only
      split
      · split <;> trivial
      · trivial
  | some e' =>
    dsimp only
    split
    · trivial
    · refine quietButLast_tryUpdate trivial fun ready => ?_
      refine Prog.Admits.bind_butLast (Prog.admits_act trivial) fun _ => ?_
      refine Prog.Admits.bind_butLast (Prog.admits_act trivial) fun i => ?_
      exact (Prog.admitsButLast_when (quietButLast_checkWorkflowCompletion i)).bind_ended
        fun _ => trivial

theorem quietButLast_applyFailurePolicy (hans : Answers env h) (i u : String)
    (policy : FailurePolicy) :
    (applyFailurePolicy i u policy).AdmitsButLast h J B (Action.Quiet id) := by
  have hbelow : (skipDownstreamTasks u >>= afterSkip i).AdmitsButLast h J B (Action.Quiet id) := by
    have hskip : (skipDownstreamTasks u).Admits h J B (Action.Quiet id) :=
      admits_skipDownstreamTasks hans (fun _ => trivial) (fun _ _ => trivial) u
    refine hskip.bind_butLast fun result => ?_
    rcases result with (e | _) | skipped
    · exact quietButLast_checkWorkflowCompletion i
    · trivial
    · refine Prog.Admits.bind_butLast (Prog.admits_when (Prog.admits_act trivial)) fun _ => ?_
      exact quietButLast_checkWorkflowCompletion i
  cases policy with
  | failFast =>
    rw [applyFailurePolicy]
    refine Prog.Admits.bind_butLast (Prog.admits_act trivial) fun result => ?_
    cases result with
    | error e => trivial
    | ok cancelled =>
      refine Prog.Admits.bind_butLast (Prog.admits_act trivial) fun _ => ?_
      exact Prog.admitsButLast_act_bind fun _ => trivial
  | skipDownstream => exact hbelow
  | continueIndependent => exact hbelow
  | unrecognized value hv => trivial

theorem quietButLast_failTask (hans : Answers env h) (t e errMsg : String) :
    (failTask t e errMsg).AdmitsButLast h J B (Action.Quiet id) := by
  rw [failTask]
  refine Prog.Admits.bind_butLast (Prog.admits_act trivial) fun found => ?_
  split
  · trivial
  · refine Prog.Admits.bind_butLast (Prog.admits_act trivial) fun task => ?_
    cases task with
    | error e => trivial
    | ok task =>
      refine Prog.Admits.bind_butLast (Prog.admits_act trivial) fun maxRetries => ?_
      dsimp only
      split
      · refine Prog.Admits.bind_butLast (Prog.admits_act trivial) fun execID => ?_
        refine quietButLast_tryUpdate trivial fun _ => ?_
        exact Prog.Admits.bind_butLast (Prog.admits_act trivial) fun _ => trivial
      · refine quietButLast_tryUpdate trivial fun _ => ?_
        refine Prog.Admits.bind_butLast (Prog.admits_act trivial) fun found => ?_
        exact (Prog.admitsButLast_when (quietButLast_applyFailurePolicy hans _ _ _)).bind_ended
          fun _ => trivial

end Programs

/-- The calls that do not report on a task write the state of their own workflow only. -/
theorem Call.Uses.quiet {J B : World → Prop} (hc : c ≠ .cancelWorkflow id)
    (hnew : ∀ wf, c.submits = some wf → wf.workflowId ≠ id)
    (hcomplete : ∀ t e output, c ≠ .completeTask t e output)
    (hfail : ∀ t e errMsg, c ≠ .failTask t e errMsg) {β : Type} (e : Action β)
    (huses : c.Uses env J B e) : e.Quiet id := by
  cases e with
  | update op =>
    cases huses with
    | initWorkflowState _ => exact hnew _ rfl
    | conclude _ => exact absurd rfl (hcomplete _ _ _)
    | concludeFailed _ => exact absurd rfl (hfail _ _ _)
    | cancelState =>
      rintro rfl
      exact hc rfl
    | _ => trivial
  | _ => trivial

/-- An operation writes the state of a workflow last, if it does not submit or cancel
it. -/
theorem Call.quietButLast {J B : World → Prop} (hc : c ≠ .cancelWorkflow id)
    (hnew : ∀ wf, c.submits = some wf → wf.workflowId ≠ id) :
    c.prog.AdmitsButLast (Action.handle env) J B (Action.Quiet id) := by
  by_cases hcomplete : ∃ t e output, c = .completeTask t e output
  · obtain ⟨t, e, output, rfl⟩ := hcomplete
    exact (quietButLast_completeTask t e output).bind_ended fun _ => trivial
  by_cases hfail : ∃ t e errMsg, c = .failTask t e errMsg
  · obtain ⟨t, e, errMsg, rfl⟩ := hfail
    exact (quietButLast_failTask (answers_handle env) t e errMsg).bind_ended fun _ => trivial
  refine ((c.admits_prog (answers_handle env)).mono fun e huses => ?_).butLast
  refine huses.quiet hc hnew (fun t e output heq => hcomplete ⟨t, e, output, heq⟩) ?_
  exact fun t e errMsg heq => hfail ⟨t, e, errMsg, heq⟩

/-! ## What a query reads of a workflow that is over -/

/-- What a status query reads. -/
def World.report (w : World) (id : String) : Option WorkflowStateRecord × List TaskStatus :=
  (w.store.workflowState[id]?, w.store.getTaskStatusesForWorkflow id)

/-- Two states in which a query reads the same. -/
theorem World.workflowState_of_report {v w : World} (h : v.report id = w.report id) :
    v.store.workflowState[id]? = w.store.workflowState[id]? := congrArg Prod.fst h

theorem World.workflowStateOf_of_report {v w : World} (h : v.report id = w.report id) :
    v.store.workflowStateOf id = w.store.workflowStateOf id := by
  rw [workflowStateOf, workflowStateOf, workflowState_of_report h]

theorem World.statuses_of_report {v w : World} (h : v.report id = w.report id) :
    v.store.getTaskStatusesForWorkflow id = w.store.getTaskStatusesForWorkflow id :=
  congrArg Prod.snd h

/-- A workflow under one of the policies that leave running tasks alone, between two
operations.  Its specification is the only one with its ID. -/
structure Polled (P : WorkflowSpec → Prop) (wf : WorkflowSpec) (w : World) : Prop where
  inv : Inv P w
  holds : w.store.Holds wf
  contained : Contained wf w
  unique : ∀ other, P other → other.workflowId = wf.workflowId → other = wf

section Over

variable {wf : WorkflowSpec} (h : Polled P wf w) (hadm : c.Admissible P w)
  (hc : c ≠ .cancelWorkflow wf.workflowId)
  (hstopped : w.store.workflowStateOf wf.workflowId ≠ some .running)

include h

/-- No task of a workflow that is over has a worker. -/
theorem Polled.not_assigned (hover : w.store.AllOver wf.workflowId) {t : String}
    (ht : t ∈ wf.taskIDs) (e : String) : w.coord.assignedTasks[t]? ≠ some e := by
  intro ha
  obtain ⟨r, hr, hst⟩ := stateOf_eq_some.mp (h.contained.executing t ht e ha)
  have hterm := hover t r hr (h.inv.sound.coherent.linked.owner_eq h.holds.spec ht hr)
  rw [hst] at hterm
  cases hterm

include hadm in
theorem Polled.submits_ne (other : WorkflowSpec) (hsub : c.submits = some other) :
    other.workflowId ≠ wf.workflowId :=
  ((hadm other hsub).2 _ wf h.holds.spec).1.symm

include hadm hstopped in
/-- The records of the tasks stay as they are while an operation runs. -/
theorem Polled.statuses_execFor (n : Nat) :
    (c.execFor env n w).store.getTaskStatusesForWorkflow wf.workflowId
      = w.store.getTaskStatusesForWorkflow wf.workflowId := by
  have hl := h.inv.sound.coherent.linked
  have hover := (h.contained.concluded.stopped hstopped).1
  have hkeep : ∀ (t : String) (r : TaskStateRecord), w.store.taskState[t]? = some r →
      r.workflowID = wf.workflowId → (c.execFor env n w).store.taskState[t]? = some r := by
    intro t r hr hid
    have ht := (h.holds.mem_taskIDs hl).mp (ownerOf_eq_some.mpr ⟨r, hr, hid⟩)
    exact h.inv.record_execFor hadm hr (hover t r hr hid) (h.not_assigned hover ht) n
  have hsound : Keeps P w := h.inv.sound
  have hs : Keeps P (c.execFor env n w) := Prog.wp_runFor hsound (c.effect h.inv hadm) n
  have hsame : ∀ (t : String) (r : TaskStateRecord), r.workflowID = wf.workflowId →
      ((c.execFor env n w).store.taskState[t]? = some r ↔ w.store.taskState[t]? = some r) := by
    refine fun t r hid => ⟨fun hr => ?_, fun hr => hkeep t r hr hid⟩
    -- No other workflow has the ID, so the task belongs to this one and has a record.
    obtain ⟨other, hother, hin⟩ := hs.coherent.linked.owned t r hr
    have heq := h.unique other (hs.stored _ other hother)
      ((hs.coherent.linked.workflow _ _ hother).1.trans hid)
    rw [heq] at hin
    obtain ⟨r₀, hr₀, hid₀⟩ := ownerOf_eq_some.mp (h.holds.owner t hin)
    rw [hkeep t r₀ hr₀ hid₀] at hr
    rw [← hr]
    exact hr₀
  rw [getTaskStatusesForWorkflow, getTaskStatusesForWorkflow]
  exact congrArg (List.map _)
    (Table.filter_toList_congr (p := fun r : TaskStateRecord => r.workflowID = wf.workflowId) hsame)

include hadm in
/-- The specification stays stored while an operation runs. -/
theorem Polled.spec_execFor (n : Nat) :
    (c.execFor env n w).store.workflows[wf.workflowId]? = some wf := by
  refine (Call.keeps_of_wp (D := fun w => w.store.workflows[wf.workflowId]? = some wf)
    (fun e w huses hs hD => ?_) (c.effect h.inv hadm) h.inv.sound h.holds.spec).2 n
  cases e with
  | update op =>
    refine (op.commit_workflows hs.coherent.linked.keyed env.marshals (env.now w.ticks) ?_).trans hD
    cases huses with
    | storeWorkflow _ => exact h.submits_ne hadm _ rfl
    | _ => exact id
  | view f => exact hD
  | locked f => exact hD
  | newUUID => exact hD
  | getReadyTask k =>
    show (w.getReadyTask env k).2.store.workflows[wf.workflowId]? = some wf
    rw [(w.getReadyTask_workflows hs.coherent.linked.keyed k).2]
    exact hD

include hadm hc hstopped in
/-- No operation writes the state of a workflow that is over. -/
theorem Polled.workflowState_exec :
    (c.exec env w).2.store.workflowState[wf.workflowId]?
      = w.store.workflowState[wf.workflowId]? := by
  have hl := h.inv.sound.coherent.linked
  have hover := (h.contained.concluded.stopped hstopped).1
  have heff : Effect env w c _ _ := (h.inv.exec c hadm).1
  rcases heff.workflowRecord wf.workflowId with hsame | ⟨r, _, hwrite⟩
  · exact hsame
  · generalize r.state = st at hwrite
    cases hwrite with
    | started hid => exact absurd hid (h.submits_ne hadm _ rfl)
    | completed ha hown _ =>
      exact absurd ha (h.not_assigned hover ((h.holds.mem_taskIDs hl).mp hown) _)
    | failed ha hr hid _ _ _ =>
      have hown := ownerOf_eq_some.mpr ⟨_, hr, hid⟩
      exact absurd ha (h.not_assigned hover ((h.holds.mem_taskIDs hl).mp hown) _)
    | cancelled => exact absurd rfl hc

include hadm hc in
/-- In the course of an operation the state of the workflow is the old one, or the
operation is through. -/
theorem Polled.execFor_cases (n : Nat) :
    (c.execFor env n w).store.workflowState[wf.workflowId]?
        = w.store.workflowState[wf.workflowId]? ∨
      ∀ m, n ≤ m → c.execFor env m w = (c.exec env w).2 := by
  have hquiet : c.prog.AdmitsButLast (Action.handle env) (Keeps P) (fun _ => True)
      (Action.Quiet wf.workflowId) := Call.quietButLast hc (h.submits_ne hadm)
  exact hquiet.runFor_cases (·.store.workflowState[wf.workflowId]?)
    (fun e w he hs => Action.Quiet.workflowState he hs.coherent.linked.keyed)
    (c.effect h.inv hadm) h.inv.sound n

include hadm hc hstopped in
/-- A query reads the same while an operation runs. -/
theorem Polled.report_execFor (n : Nat) :
    (c.execFor env n w).report wf.workflowId = w.report wf.workflowId := by
  have hstate : (c.execFor env n w).store.workflowState[wf.workflowId]?
      = w.store.workflowState[wf.workflowId]? := by
    rcases h.execFor_cases hadm hc n with hsame | hend
    · exact hsame
    · rw [hend n (Nat.le_refl n)]
      exact h.workflowState_exec hadm hc hstopped
  exact Prod.ext hstate (h.statuses_execFor hadm hstopped n)

include hadm hc hstopped in
/-- A query reads the same after it. -/
theorem Polled.report_exec :
    (c.exec env w).2.report wf.workflowId = w.report wf.workflowId := by
  obtain ⟨n, hn⟩ := c.prog.exists_runFor_eq (h := Action.handle env) w
  rw [Call.exec, ← hn]
  exact h.report_execFor hadm hc hstopped n

end Over

/-! ## Moments of a run -/

/-- A moment: so many calls are through, and so many actions of the next one. -/
structure Moment where
  call : Nat
  action : Nat
deriving DecidableEq, Repr

/-- The first moment is the second one, or it comes before it. -/
def Moment.NotAfter (a b : Moment) : Prop :=
  a.call < b.call ∨ a.call = b.call ∧ a.action ≤ b.action

instance (a b : Moment) : Decidable (a.NotAfter b) :=
  inferInstanceAs (Decidable (_ ∨ _))

/-- The state after the first `i` of the calls in `post`. -/
def stage (env : Env) (before post : List Call) (i : Nat) : World :=
  runCalls env (before ++ post.take i)

/-- The state at a moment of the calls in `post`. -/
def stateAt (env : Env) (before post : List Call) (m : Moment) : World :=
  match post[m.call]? with
  | some c => c.execFor env m.action (stage env before post m.call)
  | none => stage env before post m.call

/-- The answer of a status query whose two views fall on two moments. -/
def statusAt (env : Env) (before post : List Call) (id : String) (m₁ m₂ : Moment) :
    Option (Except StoreError WorkflowStatus) :=
  (getWorkflowStatus id).readAt (Action.handle env)
    [stateAt env before post m₁, stateAt env before post m₂]

variable {before post : List Call}

theorem stage_succ {i : Nat} (hi : post[i]? = some c) :
    stage env before post (i + 1) = (c.exec env (stage env before post i)).2 := by
  rw [stage, List.take_add_one, hi, Option.toList_some, ← List.append_assoc, runCalls_append]
  rfl

theorem stage_succ_of_none {i : Nat} (hi : post[i]? = none) :
    stage env before post (i + 1) = stage env before post i := by
  rw [stage, List.take_add_one, hi, Option.toList_none, List.append_nil]
  rfl

/-- A query finds the workflow, and what it answers is what it reads. -/
theorem statusAt_eq_some {m₁ m₂ : Moment} {status : WorkflowStatus} :
    statusAt env before post id m₁ m₂ = some (.ok status) ↔
      ∃ r, (stateAt env before post m₁).store.workflowState[id]? = some r ∧
        status = .of id r ((stateAt env before post m₂).store.getTaskStatusesForWorkflow id) := by
  rw [statusAt, getWorkflowStatus]
  simp only [bind, Prog.bind, view, Prog.act, Prog.readAt, Action.handle, getWorkflowState]
  cases (stateAt env before post m₁).store.workflowState[id]? with
  | none => simp [pure, Prog.readAt]
  | some r => simp [pure, Prog.readAt, Action.handle, eq_comm]

theorem Moment.NotAfter.refl (m : Moment) : m.NotAfter m := .inr ⟨rfl, Nat.le_refl _⟩

theorem Moment.NotAfter.trans {a b c : Moment} (hab : a.NotAfter b) (hbc : b.NotAfter c) :
    a.NotAfter c := by
  unfold Moment.NotAfter at hab hbc ⊢
  omega

theorem Moment.NotAfter.call_le {a b : Moment} (h : a.NotAfter b) : a.call ≤ b.call := by
  rcases h with hlt | ⟨heq, _⟩
  · exact hlt.le
  · exact heq.le

/-- Specifications that were submitted are told apart by their IDs. -/
theorem NeverReused.eq_of_workflowId {calls : List Call} (hids : NeverReused (submitted calls))
    {wf other : WorkflowSpec} (hwf : wf ∈ submitted calls) (hother : other ∈ submitted calls)
    (hid : other.workflowId = wf.workflowId) : other = wf := by
  by_contra hne
  have hsymm : Std.Symm fun a b : WorkflowSpec =>
      a.workflowId ≠ b.workflowId ∧ a.taskIDs.Disjoint b.taskIDs :=
    ⟨fun _ _ hab => ⟨hab.1.symm, hab.2.symm⟩⟩
  exact (List.Pairwise.forall hids hother hwf hne).1 hid

section Runs

variable {pre : List Call} {orders : DagOrders} {wf : WorkflowSpec}
  (hids : NeverReused (submitted (pre ++ [Call.submitWorkflow orders wf] ++ post)))
  (hacc : ((Call.submitWorkflow orders wf).exec env (runCalls env pre)).1.isNil = true)
  (hpolicy : wf.failurePolicy = .skipDownstream ∨ wf.failurePolicy = .continueIndependent)
  (hcancel : .cancelWorkflow wf.workflowId ∉ post)
include hids hacc hpolicy hcancel

omit hacc hpolicy hcancel in
theorem neverReused_take (i : Nat) :
    NeverReused (submitted (pre ++ [Call.submitWorkflow orders wf] ++ post.take i)) :=
  hids.mono ((List.prefix_append_right_inj _).mpr (List.take_prefix i post))

/-- The workflow before the call number `i`. -/
theorem polled_stage (i : Nat) :
    Polled (· ∈ submitted (pre ++ [Call.submitWorkflow orders wf] ++ post.take (i + 1))) wf
      (stage env (pre ++ [Call.submitWorkflow orders wf]) post i) := by
  have hcut := neverReused_take hids
  have hmore : pre ++ [Call.submitWorkflow orders wf] ++ post.take i
      <+: pre ++ [Call.submitWorkflow orders wf] ++ post.take (i + 1) :=
    (List.prefix_append_right_inj _).mpr (List.take_prefix_take_left i.le_succ)
  obtain ⟨hold, hcont⟩ := contained_runCalls env (hcut i) hacc hpolicy
    fun hin => hcancel (List.mem_of_mem_take hin)
  refine ⟨(inv_runCalls env (hcut i)).mono fun _ => submitted_mono hmore, hold, hcont, ?_⟩
  refine fun other hother hid => (hcut (i + 1)).eq_of_workflowId ?_ hother hid
  simp [submitted, Call.submits]

omit hacc hpolicy hcancel in
theorem admissible_stage {i : Nat} (hi : post[i]? = some c) :
    c.Admissible (· ∈ submitted (pre ++ [Call.submitWorkflow orders wf] ++ post.take (i + 1)))
      (stage env (pre ++ [Call.submitWorkflow orders wf]) post i) := by
  have hnext := neverReused_take hids (i + 1)
  rw [List.take_add_one, hi, Option.toList_some, ← List.append_assoc] at hnext ⊢
  exact admissible_next (inv_runCalls env (neverReused_take hids i)).sound hnext

omit hids hacc hpolicy in
theorem ne_cancelWorkflow {i : Nat} (hi : post[i]? = some c) :
    c ≠ .cancelWorkflow wf.workflowId := by
  rintro rfl
  exact hcancel (List.mem_of_getElem? hi)

/-- A query reads the same after every later call. -/
theorem report_stage {i j : Nat} (hij : i ≤ j)
    (hstopped : (stage env (pre ++ [Call.submitWorkflow orders wf]) post i).store.workflowStateOf
      wf.workflowId ≠ some .running) :
    (stage env (pre ++ [Call.submitWorkflow orders wf]) post j).report wf.workflowId
      = (stage env (pre ++ [Call.submitWorkflow orders wf]) post i).report wf.workflowId := by
  induction j, hij using Nat.le_induction with
  | base => rfl
  | succ j hij ih =>
    cases hj : post[j]? with
    | none => rw [stage_succ_of_none hj, ih]
    | some c =>
      have hstate := World.workflowStateOf_of_report ih
      rw [stage_succ hj, ← ih]
      refine (polled_stage hids hacc hpolicy hcancel j).report_exec (admissible_stage hids hj)
        (ne_cancelWorkflow hcancel hj) ?_
      rw [hstate]
      exact hstopped

/-- A query reads the same at every later moment. -/
theorem report_stateAt {i : Nat} {m : Moment} (him : i ≤ m.call)
    (hstopped : (stage env (pre ++ [Call.submitWorkflow orders wf]) post i).store.workflowStateOf
      wf.workflowId ≠ some .running) :
    (stateAt env (pre ++ [Call.submitWorkflow orders wf]) post m).report wf.workflowId
      = (stage env (pre ++ [Call.submitWorkflow orders wf]) post i).report wf.workflowId := by
  have hstage := report_stage hids hacc hpolicy hcancel him hstopped
  rw [stateAt]
  cases hm : post[m.call]? with
  | none => exact hstage
  | some c =>
    have hstate := World.workflowStateOf_of_report hstage
    rw [← hstage]
    refine (polled_stage hids hacc hpolicy hcancel m.call).report_execFor
      (admissible_stage hids hm) (ne_cancelWorkflow hcancel hm) ?_ m.action
    rw [hstate]
    exact hstopped

/-- A terminal state that is seen at some moment is the state between two calls, and
all later queries read what is stored there. -/
theorem exists_stage_of_terminal {m : Moment} {r : WorkflowStateRecord}
    (hr : (stateAt env (pre ++ [Call.submitWorkflow orders wf]) post m).store.workflowState[
      wf.workflowId]? = some r) (hterm : isTerminalState r.state = true) :
    ∃ i, (stage env (pre ++ [Call.submitWorkflow orders wf]) post i).store.workflowStateOf
        wf.workflowId ≠ some .running ∧
      ∀ m' : Moment, m.NotAfter m' →
        (stateAt env (pre ++ [Call.submitWorkflow orders wf]) post m').report wf.workflowId
          = (stage env (pre ++ [Call.submitWorkflow orders wf]) post i).report wf.workflowId := by
  have hstop : ∀ {s : Store}, s.workflowState[wf.workflowId]? = some r →
      s.workflowStateOf wf.workflowId ≠ some .running := by
    intro s hs hrun
    rw [workflowStateOf, hs, Option.map_some, Option.some.injEq] at hrun
    rw [hrun] at hterm
    cases hterm
  rw [stateAt] at hr
  cases hm : post[m.call]? with
  | none =>
    rw [hm] at hr
    exact ⟨m.call, hstop hr, fun m' hlater =>
      report_stateAt hids hacc hpolicy hcancel hlater.call_le (hstop hr)⟩
  | some c =>
    rw [hm] at hr
    rcases (polled_stage hids hacc hpolicy hcancel m.call).execFor_cases
      (admissible_stage hids hm) (ne_cancelWorkflow hcancel hm) m.action with hsame | hend
    · dsimp only at hr
      rw [hsame] at hr
      exact ⟨m.call, hstop hr, fun m' hlater =>
        report_stateAt hids hacc hpolicy hcancel hlater.call_le (hstop hr)⟩
    · -- The call has come to its end when the state is seen.
      dsimp only at hr
      rw [hend m.action (Nat.le_refl _), ← stage_succ hm] at hr
      refine ⟨m.call + 1, hstop hr, fun m' hlater => ?_⟩
      rcases hlater with hlt | ⟨hcall, haction⟩
      · exact report_stateAt hids hacc hpolicy hcancel hlt (hstop hr)
      · rw [stateAt, ← hcall, hm]
        dsimp only
        rw [hend m'.action haction, stage_succ hm]

/-- The database is coherent at every moment. -/
theorem coherent_stateAt (m : Moment) :
    (stateAt env (pre ++ [Call.submitWorkflow orders wf]) post m).store.Coherent := by
  have hpolled : Polled _ wf (stage env (pre ++ [Call.submitWorkflow orders wf]) post m.call) :=
    polled_stage hids hacc hpolicy hcancel m.call
  have hinv := hpolled.inv
  rw [stateAt]
  cases hm : post[m.call]? with
  | none => exact hinv.sound.coherent
  | some c =>
    have hsound : Keeps _ _ := hinv.sound
    have hs : Keeps _ (c.execFor env m.action _) :=
      Prog.wp_runFor hsound (c.effect hinv (admissible_stage hids hm)) m.action
    exact hs.coherent

/-- The specification can be read at every moment. -/
theorem spec_stateAt (m : Moment) :
    (stateAt env (pre ++ [Call.submitWorkflow orders wf]) post m).store.workflows[wf.workflowId]?
      = some wf := by
  have hpolled : Polled _ wf (stage env (pre ++ [Call.submitWorkflow orders wf]) post m.call) :=
    polled_stage hids hacc hpolicy hcancel m.call
  rw [stateAt]
  cases hm : post[m.call]? with
  | none => exact hpolled.holds.spec
  | some c => exact hpolled.spec_execFor (admissible_stage hids hm) m.action

end Runs

/-! ## Polling -/

/-- The statuses are those of the records of the workflow. -/
theorem mem_getTaskStatusesForWorkflow {s : Store} {ts : TaskStatus} :
    ts ∈ s.getTaskStatusesForWorkflow id ↔ ∃ (t : String) (r : TaskStateRecord),
      s.taskState[t]? = some r ∧ r.workflowID = id ∧
        ts = ⟨r.taskID, r.state, r.attemptCount, r.output, r.error⟩ := by
  rw [getTaskStatusesForWorkflow, List.mem_map]
  constructor
  · rintro ⟨⟨t, r⟩, hin, rfl⟩
    rw [List.mem_filter, Table.mem_toList_iff, decide_eq_true_eq] at hin
    exact ⟨t, r, hin.1, hin.2, rfl⟩
  · rintro ⟨t, r, hr, hid, rfl⟩
    refine ⟨(t, r), List.mem_filter.mpr ⟨(Table.mem_toList_iff _ (t, r)).mpr hr, ?_⟩, rfl⟩
    exact decide_eq_true hid

/-- A query lists every task of the workflow once. -/
theorem Store.Holds.statuses_perm {s : Store} {wf : WorkflowSpec} (hold : s.Holds wf)
    (hl : s.Linked) :
    ((s.getTaskStatusesForWorkflow wf.workflowId).map (·.taskId)).Perm wf.taskIDs := by
  have hkeys : (s.getTaskStatusesForWorkflow wf.workflowId).map (·.taskId)
      = (s.taskState.toList.filter (·.2.workflowID = wf.workflowId)).map (·.1) := by
    rw [getTaskStatusesForWorkflow, List.map_map]
    refine List.map_congr_left fun e he => ?_
    exact (hl.keyed e.1 e.2 ((Table.mem_toList_iff _ e).mp (List.mem_filter.mp he).1)).1
  have hnodup : ((s.getTaskStatusesForWorkflow wf.workflowId).map (·.taskId)).Nodup := by
    rw [hkeys]
    exact (Table.nodup_toList s.taskState).sublist (List.filter_sublist.map _)
  rw [List.perm_ext_iff_of_nodup hnodup (hl.workflow _ _ hold.spec).2.2.nodup]
  intro t
  rw [← hold.mem_taskIDs hl, ownerOf_eq_some, List.mem_map]
  constructor
  · rintro ⟨ts, hts, rfl⟩
    obtain ⟨u, r, hr, hid, rfl⟩ := mem_getTaskStatusesForWorkflow.mp hts
    exact ⟨r, by rw [(hl.keyed u r hr).1]; exact hr, hid⟩
  · rintro ⟨r, hr, hid⟩
    exact ⟨_, mem_getTaskStatusesForWorkflow.mpr ⟨t, r, hr, hid, rfl⟩, (hl.keyed t r hr).1⟩

/-- The statuses of a workflow that is over. -/
theorem Polled.statuses {wf : WorkflowSpec} (h : Polled P wf w)
    (hstopped : w.store.workflowStateOf wf.workflowId ≠ some .running) :
    ((w.store.getTaskStatusesForWorkflow wf.workflowId).map (·.taskId)).Perm wf.taskIDs ∧
      (∀ ts ∈ w.store.getTaskStatusesForWorkflow wf.workflowId, ts.state.terminal = true) ∧
      (w.store.workflowStateOf wf.workflowId = some .failed ↔
        ∃ ts ∈ w.store.getTaskStatusesForWorkflow wf.workflowId, ts.state = .failed) := by
  obtain ⟨hover, hfailed, _⟩ := h.contained.concluded.stopped hstopped
  refine ⟨h.holds.statuses_perm h.inv.sound.coherent.linked, fun ts hts => ?_, ?_⟩
  · obtain ⟨t, r, hr, hid, rfl⟩ := mem_getTaskStatusesForWorkflow.mp hts
    exact hover t r hr hid
  · rw [hfailed, SomeFailed, ← any_failed_iff, List.any_eq_true]
    simp only [decide_eq_true_eq]

/-- The first answer with a terminal state is final.  It lists every task of the
workflow, all of them over, and says `FAILED` if and only if one of them has failed.
Every query that reads the state no earlier gets the same answer, wherever in the
course of the later operations its two views fall. -/
theorem status_final (env : Env) {pre post : List Call} {orders : DagOrders}
    {wf : WorkflowSpec}
    (hids : NeverReused (submitted (pre ++ [Call.submitWorkflow orders wf] ++ post)))
    (hacc : ((Call.submitWorkflow orders wf).exec env (runCalls env pre)).1.isNil = true)
    (hpolicy : wf.failurePolicy = .skipDownstream ∨
      wf.failurePolicy = .continueIndependent)
    (hcancel : .cancelWorkflow wf.workflowId ∉ post) {m₁ m₂ : Moment} (hm : m₁.NotAfter m₂)
    {status : WorkflowStatus}
    (hanswer : statusAt env (pre ++ [Call.submitWorkflow orders wf]) post wf.workflowId m₁ m₂
      = some (.ok status)) (hterm : isTerminalState status.state = true) :
    (status.taskStatuses.map (·.taskId)).Perm wf.taskIDs ∧
      (∀ ts ∈ status.taskStatuses, ts.state.terminal = true) ∧
      (status.state = .failed ↔ ∃ ts ∈ status.taskStatuses, ts.state = .failed) ∧
      ∀ n₁ n₂ : Moment, m₁.NotAfter n₁ → n₁.NotAfter n₂ →
        statusAt env (pre ++ [Call.submitWorkflow orders wf]) post wf.workflowId n₁ n₂
          = some (.ok status) := by
  obtain ⟨r, hr, rfl⟩ := statusAt_eq_some.mp hanswer
  obtain ⟨i, hstopped, hlater⟩ :=
    exists_stage_of_terminal hids hacc hpolicy hcancel hr hterm
  obtain ⟨hperm, hover, hfailed⟩ :=
    (polled_stage hids hacc hpolicy hcancel i).statuses hstopped
  have hstate := World.workflowState_of_report (hlater m₁ (.refl m₁))
  rw [hr] at hstate
  dsimp only [WorkflowStatus.of]
  rw [workflowStateOf, ← hstate, Option.map_some, Option.some.injEq] at hfailed
  rw [World.statuses_of_report (hlater m₂ hm)]
  refine ⟨hperm, hover, hfailed, fun n₁ n₂ hn₁ hn₂ => ?_⟩
  refine statusAt_eq_some.mpr ⟨r, ?_, ?_⟩
  · rw [World.workflowState_of_report (hlater n₁ hn₁), ← hstate]
  · rw [World.statuses_of_report (hlater n₂ (hn₁.trans hn₂))]
    rfl

/-- The first of two tasks fails, another request finds nothing, and the process is
restarted. -/
def failureAndRestart : List Call :=
  [.getReadyTask "k", .failTask "a" "x" "out of memory", .getReadyTask "k", .restart]

/-- What a client sees of it in the end. -/
def failureStatus : WorkflowStatus where
  workflowId := "w"
  state := .failed
  taskStatuses := [⟨"a", .failed, 1, "", "out of memory"⟩, ⟨"b", .skipped, 0, "", ""⟩]
  submittedAtUnixMs := 1
  completedAtUnixMs := 7

/-- A query that begins with the last action of the failure, and one in the middle of
the restart. -/
theorem status_final_midRestart :
    statusAt .counting ([] ++ [Call.submitWorkflow .asListed (.pair .skipDownstream 1)])
        failureAndRestart "w" ⟨1, 12⟩ ⟨2, 0⟩ = some (.ok failureStatus) ∧
      statusAt .counting ([] ++ [Call.submitWorkflow .asListed (.pair .skipDownstream 1)])
        failureAndRestart "w" ⟨3, 1⟩ ⟨3, 2⟩ = some (.ok failureStatus) := by
  have hanswer : statusAt .counting
      ([] ++ [Call.submitWorkflow .asListed (.pair .skipDownstream 1)]) failureAndRestart "w"
      ⟨1, 12⟩ ⟨2, 0⟩ = some (.ok failureStatus) := by
    rfl
  refine ⟨hanswer, ?_⟩
  obtain ⟨_, _, _, hlater⟩ := status_final .counting (neverReused_of_one rfl) (by decide)
    (.inl rfl) (by simp [failureAndRestart]) (by decide) hanswer rfl
  exact hlater ⟨3, 1⟩ ⟨3, 2⟩ (by decide) (by decide)

/-! ## The dashboard -/

theorem Store.Coherent.get_of_mem_states {s : Store} (hs : s.Coherent)
    {r : WorkflowStateRecord} (hr : r ∈ s.getAllWorkflowStates) :
    s.workflowState[r.workflowID]? = some r := by
  rw [getAllWorkflowStates, List.mem_map] at hr
  obtain ⟨e, he, rfl⟩ := hr
  rw [Table.mem_toList_iff] at he
  rw [(hs.tracked _ _ he).1]
  exact he

/-- The rows of the list, from the states that the views of the loop meet. -/
theorem readAt_summarizeAll {now : Int64} {states : List WorkflowStateRecord}
    {ws : List World} {rows : List WorkflowSummary}
    (hread : (summarizeAll now states).readAt (Action.handle env) ws = some rows) :
    ∀ row ∈ rows, ∃ r ∈ states, ∃ w ∈ ws,
      row = .of r (w.store.getTaskStatusesForWorkflow r.workflowID) now "" := by
  induction states generalizing ws rows with
  | nil =>
    cases ws with
    | nil =>
      cases hread
      exact fun row hrow => absurd hrow List.not_mem_nil
    | cons w ws => cases hread
  | cons r states ih =>
    rw [summarizeAll] at hread
    cases ws with
    | nil => cases hread
    | cons w ws =>
      obtain ⟨ws₁, ws₂, summaries, rfl, hrest, hrow⟩ := Prog.readAt_bind
        (p := summarizeAll now states) (f := fun summaries => pure
          (.of r (w.store.getTaskStatusesForWorkflow r.workflowID) now "" :: summaries)) hread
      cases ws₂ with
      | cons w' ws₂ => cases hrow
      | nil =>
        cases hrow
        intro row hrow
        rcases List.mem_cons.mp hrow with rfl | hin
        · exact ⟨r, List.mem_cons_self, w, List.mem_cons_self, rfl⟩
        · obtain ⟨r', hr', w', hw', heq⟩ := ih hrest row hin
          exact ⟨r', List.mem_cons_of_mem _ hr', w',
            List.mem_cons_of_mem _ (List.mem_append_left _ hw'), heq⟩

theorem readAt_handleAPIWorkflowList {sort : SliceSort submittedLater} {now : Int64}
    {ws : List World} {page : List WorkflowSummary}
    (hread : (handleAPIWorkflowList sort now).readAt (Action.handle env) ws = some page) :
    ∃ w₀ rest, ws = w₀ :: rest ∧ ∀ row ∈ page, ∃ r ∈ w₀.store.getAllWorkflowStates,
      ∃ w ∈ rest, row = .of r (w.store.getTaskStatusesForWorkflow r.workflowID) now "" := by
  rw [handleAPIWorkflowList] at hread
  cases ws with
  | nil => cases hread
  | cons w₀ rest =>
    obtain ⟨ws₁, ws₂, rows, rfl, hrows, hpage⟩ := Prog.readAt_bind
      (p := summarizeAll now w₀.store.getAllWorkflowStates)
      (f := fun rows => pure (sort.sort rows)) hread
    cases ws₂ with
    | cons w' ws₂ => cases hpage
    | nil =>
      cases hpage
      refine ⟨w₀, ws₁ ++ [], rfl, fun row hrow => ?_⟩
      rw [List.append_nil]
      exact readAt_summarizeAll hrows row ((sort.perm rows).mem_iff.mp hrow)

theorem WorkflowState.name_eq_failed {st : WorkflowState} :
    st.name = "WORKFLOW_FAILED" ↔ st = .failed := by
  cases st <;> simp [WorkflowState.name]

/-- A page that shows one of these two shows a terminal state. -/
theorem WorkflowState.terminal_of_name {st : WorkflowState}
    (h : st.name = "WORKFLOW_COMPLETE" ∨ st.name = "WORKFLOW_FAILED") :
    isTerminalState st = true := by
  cases st <;> simp [WorkflowState.name, isTerminalState] at h ⊢

/-- The two counters of a row. -/
theorem countTaskDoneAndFailed_eq (tasks : List TaskStatus) :
    countTaskDoneAndFailed tasks
      = (tasks.countP fun t => t.state = .complete ∨ t.state = .skipped,
        tasks.countP fun t => t.state = .failed) := by
  induction tasks using List.reverseRecOn with
  | nil => rfl
  | append_singleton tasks t ih =>
    rw [countTaskDoneAndFailed, List.foldl_append, ← countTaskDoneAndFailed, ih,
      List.countP_append, List.countP_append, List.countP_singleton, List.countP_singleton]
    cases hst : t.state <;> simp [hst]

/-- The counters of tasks that are over. -/
theorem countTaskDoneAndFailed_of_over {tasks : List TaskStatus}
    (hover : ∀ t ∈ tasks, t.state.terminal = true) :
    (countTaskDoneAndFailed tasks).1 + (countTaskDoneAndFailed tasks).2 = tasks.length ∧
      (0 < (countTaskDoneAndFailed tasks).2 ↔ ∃ t ∈ tasks, t.state = .failed) := by
  rw [countTaskDoneAndFailed_eq]
  dsimp only
  constructor
  · rw [List.length_eq_countP_add_countP (l := tasks)
      (fun t => decide (t.state = .complete ∨ t.state = .skipped))]
    refine congrArg _ (List.countP_congr fun t ht => ?_)
    have hterm := hover t ht
    cases hst : t.state <;> simp_all [TaskState.terminal]
  · rw [List.countP_pos_iff]
    simp only [decide_eq_true_eq]

/-- A row of the list that shows `COMPLETE` or `FAILED` is right, although each row is
put together from two views: it counts every task of the workflow, none of them as open,
and it shows `FAILED` if and only if it counts a failed task. -/
theorem dashboard_row_final (env : Env) {pre post : List Call} {orders : DagOrders}
    {wf : WorkflowSpec}
    (hids : NeverReused (submitted (pre ++ [Call.submitWorkflow orders wf] ++ post)))
    (hacc : ((Call.submitWorkflow orders wf).exec env (runCalls env pre)).1.isNil = true)
    (hpolicy : wf.failurePolicy = .skipDownstream ∨
      wf.failurePolicy = .continueIndependent)
    (hcancel : .cancelWorkflow wf.workflowId ∉ post) {ms : List Moment}
    (hms : ms.Pairwise Moment.NotAfter) {sort : SliceSort submittedLater} {now : Int64}
    {page : List WorkflowSummary}
    (hread : (handleAPIWorkflowList sort now).readAt (Action.handle env)
      (ms.map (stateAt env (pre ++ [Call.submitWorkflow orders wf]) post)) = some page)
    {row : WorkflowSummary} (hrow : row ∈ page) (hid : row.id = wf.workflowId)
    (hterm : row.state = "WORKFLOW_COMPLETE" ∨ row.state = "WORKFLOW_FAILED") :
    row.taskCount = wf.tasks.length ∧ row.doneCount + row.failedCount = row.taskCount ∧
      (row.state = "WORKFLOW_FAILED" ↔ 0 < row.failedCount) := by
  obtain ⟨w₀, rest, hws, hrows⟩ := readAt_handleAPIWorkflowList hread
  obtain ⟨m₀, ms', rfl, rfl, rfl⟩ := List.map_eq_cons_iff.mp hws
  obtain ⟨r, hr, w, hw, rfl⟩ := hrows row hrow
  obtain ⟨m, hm, rfl⟩ := List.mem_map.mp hw
  have hlater := (List.pairwise_cons.mp hms).1 m hm
  -- The first view lists the record of the workflow.
  have hrecord : (stateAt env (pre ++ [Call.submitWorkflow orders wf]) post m₀).store.workflowState[
      wf.workflowId]? = some r := by
    rw [← hid]
    exact (coherent_stateAt hids hacc hpolicy hcancel m₀).get_of_mem_states hr
  obtain ⟨i, hstopped, hsame⟩ := exists_stage_of_terminal hids hacc hpolicy hcancel hrecord
    (WorkflowState.terminal_of_name hterm)
  obtain ⟨hperm, hover, hfailed⟩ :=
    (polled_stage hids hacc hpolicy hcancel i).statuses hstopped
  obtain ⟨hsum, hpos⟩ := countTaskDoneAndFailed_of_over hover
  have hthere := World.workflowState_of_report (hsame m₀ (.refl m₀))
  rw [hrecord] at hthere
  dsimp only [WorkflowSummary.of] at hid ⊢
  rw [hid, World.statuses_of_report (hsame m hlater)]
  refine ⟨?_, hsum, ?_⟩
  · have hlength := hperm.length_eq
    rwa [List.length_map, WorkflowSpec.taskIDs, List.length_map] at hlength
  · rw [hpos, ← hfailed, workflowStateOf, ← hthere, Option.map_some, Option.some.injEq]
    exact WorkflowState.name_eq_failed

/-- A stable sort is one that `sort.Slice` may be. -/
def SliceSort.stable : SliceSort submittedLater where
  sort l := l.mergeSort fun a b => !submittedLater b a
  perm l := List.mergeSort_perm l _
  sorted l := by
    have hle : ∀ a b : WorkflowSummary,
        (!submittedLater b a) = true ↔ b.submittedAtMs.toInt ≤ a.submittedAtMs.toInt := by
      intro a b
      simp [submittedLater, Int64.lt_iff_toInt_lt]
    refine (List.pairwise_mergeSort ?_ ?_ l).imp fun hab => by simpa using hab
    · intro a b c hab hbc
      rw [hle] at hab hbc ⊢
      omega
    · intro a b
      rw [Bool.or_eq_true, hle, hle]
      omega

/-- The row of the list in the end. -/
def failureRow : WorkflowSummary where
  id := "w"
  state := "WORKFLOW_FAILED"
  submittedAtMs := 1
  completedAtMs := 7
  durationMs := 6
  taskCount := 2
  doneCount := 1
  failedCount := 1
  failurePolicy := ""

/-- The list is asked for at the end of the failure, and its row is put together in the
middle of the restart. -/
theorem dashboard_row_final_midRestart :
    (handleAPIWorkflowList .stable 9).readAt (Action.handle .counting)
        ([⟨1, 12⟩, ⟨3, 1⟩].map (stateAt .counting
          ([] ++ [Call.submitWorkflow .asListed (.pair .skipDownstream 1)]) failureAndRestart))
        = some [failureRow] ∧
      failureRow.doneCount + failureRow.failedCount = failureRow.taskCount := by
  have hread : (handleAPIWorkflowList .stable 9).readAt (Action.handle .counting)
      ([⟨1, 12⟩, ⟨3, 1⟩].map (stateAt .counting
        ([] ++ [Call.submitWorkflow .asListed (.pair .skipDownstream 1)]) failureAndRestart))
      = some [failureRow] := by
    have hsort : SliceSort.stable.sort [failureRow] = [failureRow] :=
      List.perm_singleton.mp (SliceSort.stable.perm _)
    rw [← hsort]
    rfl
  refine ⟨hread, ?_⟩
  exact (dashboard_row_final .counting (neverReused_of_one rfl) (by decide) (.inl rfl)
    (by simp [failureAndRestart]) (by decide) hread List.mem_cons_self rfl (.inr rfl)).2.1

/-! ## The page of one workflow -/

/-- The page that the handler answers with, from the three states that it reads. -/
theorem readAt_handleAPIWorkflowDetail {now : Int64} {w₁ w₂ w₃ : World} {page : WorkflowDetail} :
    (handleAPIWorkflowDetail now id).readAt (Action.handle env) [w₁, w₂, w₃] = some (.ok page) ↔
      id ≠ "" ∧ ∃ r, w₁.store.workflowState[id]? = some r ∧
        page = .of r (w₂.store.getTaskStatusesForWorkflow id)
          (w₃.store.getWorkflow id).toOption now := by
  rw [handleAPIWorkflowDetail]
  split
  · rename_i hid
    exact ⟨nofun, fun h => absurd hid h.1⟩
  · rename_i hid
    simp only [bind, Prog.bind, view, Prog.act, Prog.readAt, Action.handle, getWorkflowState]
    cases w₁.store.workflowState[id]? with
    | none => simp [pure, Prog.readAt]
    | some r => simp [pure, Prog.readAt, Action.handle, hid, eq_comm]

theorem TaskDetail.ofSpec_id (statusByID : Table String TaskStatus) (task : TaskSpec) :
    (TaskDetail.ofSpec statusByID task).id = task.taskId := by
  unfold TaskDetail.ofSpec
  split <;> rfl

/-- The row of a task shows the state in its status. -/
theorem TaskDetail.ofSpec_state {tasks : List TaskStatus}
    (hnodup : (tasks.map (·.taskId)).Nodup) {ts : TaskStatus} (hts : ts ∈ tasks)
    {task : TaskSpec} (hid : task.taskId = ts.taskId) :
    (TaskDetail.ofSpec (tasks.foldl (fun m ts => m.insert ts.taskId ts) ∅) task).state
      = ts.state.name := by
  have hfind : tasks.find? (fun x => x.taskId = task.taskId) = some ts := by
    cases hx : tasks.find? fun x => x.taskId = task.taskId with
    | none => exact absurd (List.find?_eq_none.mp hx ts hts) (by simp [hid])
    | some x =>
      have hxid : x.taskId = task.taskId := by simpa using List.find?_some hx
      rw [List.inj_on_of_nodup_map hnodup (List.mem_of_find?_eq_some hx) hts (hxid.trans hid)]
  unfold TaskDetail.ofSpec
  rw [Table.get_foldl_insert (fun ts : TaskStatus => ts.taskId) (fun ts => ts) _ _ hnodup, hfind]
  rfl

/-- The rows of the page show the states that were read, and no others. -/
theorem WorkflowDetail.exists_row_iff {wf : WorkflowSpec} {tasks : List TaskStatus}
    (hperm : (tasks.map (·.taskId)).Perm wf.taskIDs) (hnodup : wf.taskIDs.Nodup)
    (r : WorkflowStateRecord) (now : Int64) (name : String) :
    (∃ row ∈ (WorkflowDetail.of r tasks (some wf) now).tasks, row.state = name) ↔
      ∃ ts ∈ tasks, ts.state.name = name := by
  have hdistinct := hperm.nodup_iff.mpr hnodup
  simp only [WorkflowDetail.of, List.mem_map, exists_exists_and_eq_and]
  constructor
  · rintro ⟨task, htask, hname⟩
    have hin : task.taskId ∈ tasks.map (·.taskId) :=
      hperm.mem_iff.mpr (List.mem_map_of_mem htask)
    obtain ⟨ts, hts, hid⟩ := List.mem_map.mp hin
    rw [TaskDetail.ofSpec_state hdistinct hts hid.symm] at hname
    exact ⟨ts, hts, hname⟩
  · rintro ⟨ts, hts, hname⟩
    obtain ⟨task, htask, hid⟩ := List.mem_map.mp (hperm.mem_iff.mp (List.mem_map_of_mem hts))
    exact ⟨task, htask, (TaskDetail.ofSpec_state hdistinct hts hid).trans hname⟩

theorem TaskState.name_of_terminal {st : TaskState} (h : st.terminal = true) :
    st.name = "TASK_COMPLETE" ∨ st.name = "TASK_FAILED" ∨ st.name = "TASK_SKIPPED" := by
  cases st <;> simp_all [TaskState.terminal, TaskState.name]

theorem TaskState.name_eq_failed {st : TaskState} : st.name = "TASK_FAILED" ↔ st = .failed := by
  cases st <;> simp [TaskState.name]

/-- The page of a workflow that shows `COMPLETE` or `FAILED` is right, although it is put
together from three views: it has one row for every task, in the order of the
specification, all of them over, and it shows `FAILED` if and only if a row does.
Whoever asks no earlier gets the same page. -/
theorem detail_page_final (env : Env) {pre post : List Call} {orders : DagOrders}
    {wf : WorkflowSpec}
    (hids : NeverReused (submitted (pre ++ [Call.submitWorkflow orders wf] ++ post)))
    (hacc : ((Call.submitWorkflow orders wf).exec env (runCalls env pre)).1.isNil = true)
    (hpolicy : wf.failurePolicy = .skipDownstream ∨
      wf.failurePolicy = .continueIndependent)
    (hcancel : .cancelWorkflow wf.workflowId ∉ post) {m₁ m₂ m₃ : Moment} (hm : m₁.NotAfter m₂)
    {now : Int64} {page : WorkflowDetail}
    (hread : (handleAPIWorkflowDetail now wf.workflowId).readAt (Action.handle env)
      ([m₁, m₂, m₃].map (stateAt env (pre ++ [Call.submitWorkflow orders wf]) post))
      = some (.ok page))
    (hterm : page.summary.state = "WORKFLOW_COMPLETE" ∨ page.summary.state = "WORKFLOW_FAILED") :
    page.summary.failurePolicy = wf.failurePolicy.name ∧
      page.tasks.map (·.id) = wf.taskIDs ∧
      (∀ row ∈ page.tasks, row.state = "TASK_COMPLETE" ∨ row.state = "TASK_FAILED" ∨
        row.state = "TASK_SKIPPED") ∧
      (page.summary.state = "WORKFLOW_FAILED" ↔ ∃ row ∈ page.tasks, row.state = "TASK_FAILED") ∧
      ∀ n₁ n₂ n₃ : Moment, m₁.NotAfter n₁ → n₁.NotAfter n₂ →
        (handleAPIWorkflowDetail now wf.workflowId).readAt (Action.handle env)
          ([n₁, n₂, n₃].map (stateAt env (pre ++ [Call.submitWorkflow orders wf]) post))
          = some (.ok page) := by
  obtain ⟨hid, r, hr, rfl⟩ := readAt_handleAPIWorkflowDetail.mp hread
  have hspec : ∀ m, ((stateAt env (pre ++ [Call.submitWorkflow orders wf]) post m).store.getWorkflow
      wf.workflowId).toOption = some wf := by
    intro m
    rw [getWorkflow, spec_stateAt hids hacc hpolicy hcancel m]
    rfl
  rw [hspec m₃] at hterm ⊢
  obtain ⟨i, hstopped, hsame⟩ := exists_stage_of_terminal hids hacc hpolicy hcancel hr
    (WorkflowState.terminal_of_name hterm)
  have hpolled : Polled _ wf (stage env (pre ++ [Call.submitWorkflow orders wf]) post i) :=
    polled_stage hids hacc hpolicy hcancel i
  obtain ⟨hperm, hover, hfailed⟩ := hpolled.statuses hstopped
  have hnodup := (hpolled.inv.sound.coherent.linked.workflow _ _ hpolled.holds.spec).2.2.nodup
  have hthere := World.workflowState_of_report (hsame m₁ (.refl m₁))
  rw [hr] at hthere
  rw [World.statuses_of_report (hsame m₂ hm)]
  refine ⟨rfl, ?_, fun row hrow => ?_, ?_, fun n₁ n₂ n₃ hn₁ hn₂ => ?_⟩
  · rw [WorkflowDetail.of, List.map_map, WorkflowSpec.taskIDs]
    exact List.map_congr_left fun task _ => TaskDetail.ofSpec_id _ task
  · obtain ⟨ts, hts, hname⟩ :=
      (WorkflowDetail.exists_row_iff hperm hnodup r now row.state).mp ⟨row, hrow, rfl⟩
    rw [← hname]
    exact TaskState.name_of_terminal (hover ts hts)
  · rw [WorkflowDetail.exists_row_iff hperm hnodup]
    simp only [TaskState.name_eq_failed]
    rw [← hfailed, workflowStateOf, ← hthere, Option.map_some, Option.some.injEq]
    exact WorkflowState.name_eq_failed
  · refine readAt_handleAPIWorkflowDetail.mpr ⟨hid, r, ?_, ?_⟩
    · rw [World.workflowState_of_report (hsame n₁ hn₁), ← hthere]
    · rw [World.statuses_of_report (hsame n₂ (hn₁.trans hn₂)), hspec n₃]

end DagScheduler
