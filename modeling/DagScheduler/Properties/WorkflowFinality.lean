import DagScheduler.Properties.Finality

/-!
# Terminal workflow states

Three places of the coordinator write the state of a workflow: the completion
check after a result, the failure policy, and `CancelWorkflow`.  None of them
looks at the state that is there.  The state of a workflow that is over may
therefore change: a second `CancelWorkflow` stamps it again, and the late
result of a task that was running when the workflow ended runs the completion
check once more.

`Call.Rewrites` names the calls that write the state of a workflow.  The
states stay final in every run in which no such call meets a workflow that is
over.
-/

namespace DagScheduler

open Lib Store

/-- `isTerminalState` of the command line client. -/
def isTerminalState : WorkflowState → Bool
  | .complete | .failed | .cancelled => true
  | .running => false

/-- Once a workflow is over, its state and the time of its end stay as they
are until the end of the run. -/
def WorkflowFinal (env : Env) (calls : List Call) : Prop :=
  ∀ pre mid : List Call, pre ++ mid <+: calls →
    ∀ (id : String) (r : WorkflowStateRecord),
    (runCalls env pre).store.workflowState[id]? = some r →
    isTerminalState r.state = true →
    ∃ r', (runCalls env (pre ++ mid)).store.workflowState[id]? = some r' ∧
      r'.state = r.state ∧ r'.completedAtMs = r.completedAtMs

/-- The call writes the state of the workflow `id`: it submits or cancels it,
or it reports the result of a task after which no task of the workflow is
open, or a last failure under `FAIL_FAST`. -/
def Call.Rewrites (env : Env) (w : World) (id : String) : Call → Prop
  | .submitWorkflow orders wf => wf.workflowId = id ∧ ¬ RefusedAtOnce env orders wf
  | .completeTask t e _ =>
      w.coord.assignedTasks[t]? = some e ∧ w.store.ownerOf t = some id ∧
        ∀ u, u ≠ t → w.store.ownerOf u = some id → ¬ w.store.isOpen u
  | .failTask t e _ =>
      w.coord.assignedTasks[t]? = some e ∧ ∃ r wf, w.store.taskState[t]? = some r ∧
        r.workflowID = id ∧ ¬ r.attemptCount + 1 < w.coord.retryLimit t ∧
        w.store.workflows[id]? = some wf ∧
        (wf.failurePolicy = .failFast ∨
          (wf.failurePolicy = .skipDownstream ∨
            wf.failurePolicy = .continueIndependent) ∧
          ∀ u, u ≠ t → w.store.ownerOf u = some id → w.store.isOpen u →
            Ancestor w.store.depsOf t u)
  | .cancelWorkflow i => i = id
  | _ => False

variable {env : Env} {P P' : WorkflowSpec → Prop} {w w' : World} {c : Call}

/-- No task of a workflow is open after its last one. -/
theorem Store.AllOver.not_open {s : Store} {id t : String} (h : s.AllOver id)
    (hown : s.ownerOf t = some id) : ¬ s.isOpen t := by
  intro hopen
  obtain ⟨r, hr, hterm'⟩ := hopen
  rw [ownerOf_of_get hr] at hown
  have hterm := h t r hr (Option.some.inj hown)
  rw [hterm'] at hterm
  cases hterm

/-- A call that is not a submission and writes the state of a workflow is one
of `Call.Rewrites`. -/
theorem WorkflowWrite.rewrites (h : Inv P w) (hadm : c.Admissible P' w) {reply : Reply}
    (heff : Effect env w c reply w') (hc : c.submits = none) {id : String}
    {st : WorkflowState} (hwrite : WorkflowWrite w w' id c st) : c.Rewrites env w id := by
  -- A task that is open before and over afterwards is the one that the call
  -- reports on, or is skipped by it.
  have hafter : w'.store.AllOver id → ∀ u, w.store.ownerOf u = some id →
      w.store.isOpen u →
      (∃ e output, c = .completeTask u e output ∧ w.coord.assignedTasks[u]? = some e) ∨
        (∃ e errMsg, c = .failTask u e errMsg ∧ w.coord.assignedTasks[u]? = some e) ∨
        SkipsTask w w' u c := by
    intro hall u hown hopen
    have hown' : w'.store.ownerOf u = some id := by
      rw [(heff.sameShape h hadm hc).ownerOf]
      exact hown
    exact ((heff.task h hadm u).open_forward hopen).resolve_left (hall.not_open hown')
  cases hwrite with
  | started _ => cases hc
  | completed ha hown hends =>
    refine ⟨ha, hown, fun u hu hu' hopen => ?_⟩
    rcases hafter hends.1 u hu' hopen with ⟨_, _, heq, _⟩ | ⟨_, _, heq, _⟩ | hskips
    · cases heq
      exact hu rfl
    · cases heq
    · cases hskips
  | @failed t e errMsg r wf _ ha hr hid hlt hwf hends =>
    refine ⟨ha, r, wf, hr, hid, hlt, hwf, ?_⟩
    rcases hends with ⟨hpolicy, _⟩ | ⟨hpolicy, hends⟩
    · exact .inl hpolicy
    · refine .inr ⟨hpolicy, fun u hu hu' hopen => ?_⟩
      rcases hafter hends.1 u hu' hopen with ⟨_, _, heq, _⟩ | ⟨_, _, heq, _⟩ | hskips
      · cases heq
      · cases heq
        exact absurd rfl hu
      · cases hskips with
        | below _ _ hown hown' hwf' hwhy =>
          rw [hu'] at hown'
          cases hown'
          rw [hwf] at hwf'
          cases hwf'
          refine hwhy.resolve_left fun hfast => ?_
          rw [hfast] at hpolicy
          rcases hpolicy with hp | hp <;> cases hp
  | cancelled => exact rfl

/-- A call that does not rewrite the state of a workflow leaves its record
alone. -/
theorem workflowState_eq_of_not_rewrites {calls : List Call}
    (hids : NeverReused (submitted (calls ++ [c]))) {id : String}
    (hno : ¬ c.Rewrites env (runCalls env calls) id) :
    (runCalls env (calls ++ [c])).store.workflowState[id]?
      = (runCalls env calls).store.workflowState[id]? := by
  have h := inv_runCalls env hids.of_append
  have heff := effect_runCalls env hids
  rcases heff.workflowRecord id with heq | ⟨r, hr, hwrite⟩
  · exact heq
  · cases hc : c.submits with
    | none => exact absurd (hwrite.rewrites h (admissible_next h.sound hids) heff hc) hno
    | some wf =>
      generalize r.state = st at hwrite
      cases hwrite with
      | @started orders wf hid =>
        -- Only a submission that is refused at once is left.
        have hnow : RefusedAtOnce env orders wf := by
          by_contra hnow
          exact hno ⟨hid, hnow⟩
        obtain ⟨e, w', hrun, hstore, _⟩ :=
          run_submitWorkflow_refused hnow (runCalls env calls)
        rw [runCalls_append, Call.exec, Call.prog, Prog.run_bind, hrun]
        exact congrArg (fun s => s.workflowState[id]?) hstore
      | _ => cases hc

/-- Terminal workflow states are final in every run that reuses no ID and in
which no call rewrites the state of a workflow that is over. -/
theorem workflow_final (env : Env) {calls : List Call}
    (hids : NeverReused (submitted calls))
    (hok : ∀ (pre : List Call) (c : Call), pre ++ [c] <+: calls →
      ∀ (id : String) (r : WorkflowStateRecord),
      (runCalls env pre).store.workflowState[id]? = some r →
      isTerminalState r.state = true → ¬ c.Rewrites env (runCalls env pre) id) :
    WorkflowFinal env calls := by
  intro pre mid hpre id r hr hterm
  suffices hsame : (runCalls env (pre ++ mid)).store.workflowState[id]? = some r from
    ⟨r, hsame, rfl, rfl⟩
  -- One call after the other.
  induction mid using List.reverseRecOn with
  | nil =>
    rw [List.append_nil]
    exact hr
  | append_singleton mid c ih =>
    rw [← List.append_assoc] at hpre ⊢
    have hbefore := ih ((List.prefix_append _ _).trans hpre)
    rw [workflowState_eq_of_not_rewrites (hids.mono hpre) (hok _ c hpre id r hbefore hterm)]
    exact hbefore

/-- The worker of the cancelled task dies. -/
theorem workflow_final_cancelledRun :
    WorkflowFinal .counting (cancelledRun ++ [.handleDeadWorker (.asListed _) "k"]) := by
  refine workflow_final .counting (neverReused_of_one rfl) ?_
  intro pre c hpre id r hr hterm
  obtain ⟨post, hpost⟩ := hpre
  rcases pre with _ | ⟨c₁, _ | ⟨c₂, _ | ⟨c₃, rest⟩⟩⟩
  · -- Before the submission there is no workflow.
    simp [runCalls] at hr
  · simp only [cancelledRun, List.cons_append, List.nil_append, List.cons.injEq] at hpost
    obtain ⟨rfl, rfl, _⟩ := hpost
    exact fun hno => hno
  · -- Before the cancellation the workflow runs.
    simp only [cancelledRun, List.cons_append, List.nil_append, List.cons.injEq] at hpost
    obtain ⟨rfl, rfl, rfl, _⟩ := hpost
    intro hid
    have hid' : "w" = id := hid
    subst hid'
    have hrun : (runCalls .counting [.submitWorkflow .asListed (.pair .failFast 3),
        .getReadyTask "k"]).store.workflowState["w"]?
          = some { workflowID := "w", state := .running, submittedAtMs := 1 } := by decide
    rw [hrun] at hr
    cases hr
    cases hterm
  · have hc : c = .handleDeadWorker (.asListed _) "k" := by
      simp only [cancelledRun, List.cons_append, List.nil_append, List.cons.injEq] at hpost
      obtain ⟨_, _, _, hrest⟩ := hpost
      rcases rest with _ | ⟨c₄, rest⟩
      · exact (List.cons.inj hrest).1
      · simp at hrest
    subst hc
    exact fun hno => hno

/-- The worker of the cancelled task reports success, and the workflow turns
from `CANCELLED` to `COMPLETE`. -/
theorem not_workflowFinal_cancelledRun :
    ¬ WorkflowFinal .counting (cancelledRun ++ [.completeTask "a" "x" "out"]) := by
  intro h
  obtain ⟨r', hr', hst, _⟩ := h cancelledRun [.completeTask "a" "x" "out"]
    (List.prefix_refl _) "w"
    { workflowID := "w", state := .cancelled, submittedAtMs := 1, completedAtMs := 6 }
    (by decide) rfl
  have hafter : (runCalls .counting
      (cancelledRun ++ [.completeTask "a" "x" "out"])).store.workflowStateOf "w"
        = some .complete := by decide
  rw [workflowStateOf, hr', Option.map_some, hst] at hafter
  cases hafter

end DagScheduler
