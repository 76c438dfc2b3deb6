import DagScheduler.Coordinator.Steps

/-!
# Terminal states

`COMPLETE` and `FAILED` are final in every run that reuses no ID
(`TaskStep.eq_of_over`).  `SKIPPED` is not.  A task that is cancelled while
it runs stays in `assignedTasks` and `runningTasks`, so its worker may still
report a result, and its worker may still die.  The store does not look at
the state before it writes, and the task moves on.

`Call.Late` names these calls.  A run keeps terminal states final exactly when
it makes none of them.
-/

namespace DagScheduler

open Lib Store

/-- Once the state of a task is terminal, it stays as it is until the end of
the run. -/
def TerminalFinal (env : Env) (calls : List Call) : Prop :=
  ∀ pre mid : List Call, pre ++ mid <+: calls → ∀ (t : String) (st : TaskState),
    st.terminal = true → (runCalls env pre).store.stateOf t = some st →
    (runCalls env (pre ++ mid)).store.stateOf t = some st

/-- The call is about a task that was skipped while it ran: a result of its
current execution, or the death of its worker. -/
def Call.Late (w : World) : Call → Prop
  | .completeTask t e _ | .failTask t e _ =>
      w.coord.assignedTasks[t]? = some e ∧ w.store.stateOf t = some .skipped
  | .handleDeadWorker _ workerID =>
      ∃ t : String, w.coord.runningTasks[t]? = some workerID ∧
        w.store.stateOf t = some .skipped
  | _ => False

variable {env : Env} {P P' : WorkflowSpec → Prop} {w w' : World} {c : Call}

/-- A call that is not late leaves every terminal state as it is. -/
theorem TaskStep.stateOf_terminal (h : Inv P w) (hlate : ¬ c.Late w) {t : String}
    (hstep : TaskStep env w w' t c w.store.taskState[t]? w'.store.taskState[t]?)
    {st : TaskState} (hterm : st.terminal = true) (hst : w.store.stateOf t = some st) :
    w'.store.stateOf t = some st := by
  obtain ⟨r, hr, hrst⟩ := stateOf_eq_some.mp hst
  suffices hsame : w'.store.taskState[t]? = some r from
    stateOf_eq_some.mpr ⟨r, hsame, hrst⟩
  rw [hr] at hstep
  by_cases hover : r.state = .complete ∨ r.state = .failed
  · exact hstep.eq_of_over h hr hover
  · have hskipped : r.state = .skipped := by
      rw [hrst] at hover ⊢
      cases st with
      | skipped => rfl
      | complete | failed => simp at hover
      | pending | queued | running | unknown => cases hterm
    have hstate : w.store.stateOf t = some .skipped := by
      rw [stateOf_of_get hr, hskipped]
    generalize w'.store.taskState[t]? = o' at hstep
    cases hstep with
    | same => rfl
    | assigned hq _ => simp [hskipped] at hq
    | completed ha => exact absurd ⟨ha, hstate⟩ hlate
    | released _ hp => simp [hskipped] at hp
    | retried ha _ _ => exact absurd ⟨ha, hstate⟩ hlate
    | failed ha _ => exact absurd ⟨ha, hstate⟩ hlate
    | skippedBelow _ _ hopen _ _ _ _ => simp [hskipped, TaskState.terminal] at hopen
    | cancelled _ hopen => simp [hskipped, TaskState.terminal] at hopen
    | reclaimed hw _ _ => exact absurd ⟨t, hw, hstate⟩ hlate
    | recovered hrun _ _ => simp [hskipped] at hrun

/-- A late call takes a task out of `SKIPPED`. -/
theorem Effect.late {reply : Reply} (heff : Effect env w c reply w')
    (hlate : c.Late w) :
    ∃ t, w.store.stateOf t = some .skipped ∧ w'.store.stateOf t ≠ some .skipped := by
  cases heff with
  | submitWorkflow _ => exact hlate.elim
  | getReadyTask _ => exact hlate.elim
  | @completeTask t e output result _ heff =>
    obtain ⟨ha, hst⟩ := hlate
    refine ⟨t, hst, ?_⟩
    cases heff with
    | ignored hne _ => exact absurd ha hne
    | accepted _ _ hc hchk _ _ =>
      rw [stateOf, hchk.taskState, hc.task]
      simp
  | @failTask t e errMsg result _ heff =>
    obtain ⟨ha, hst⟩ := hlate
    refine ⟨t, hst, ?_⟩
    obtain ⟨_, r, now, _, ⟨_, _, hget⟩ | ⟨_, hget⟩⟩ := heff.of_assigned ha
    · rw [stateOf_of_get hget]
      simp
    · rw [stateOf_of_get hget]
      simp
  | cancelWorkflow _ => exact hlate.elim
  | @handleDeadWorker order workerID _ heff =>
    obtain ⟨t, hw, hst⟩ := hlate
    refine ⟨t, hst, ?_⟩
    obtain ⟨r, hr, _⟩ := stateOf_eq_some.mp hst
    obtain ⟨l, w₁, _, hmem, hreq, rfl⟩ := heff.claimed
    obtain ⟨n, now, _, _, hget⟩ := hreq.hit t r ((hmem t).mpr hw) hr
    rw [stateOf_of_get hget]
    simp
  | restart _ => exact hlate.elim

/-- A run that reuses no ID keeps terminal states final exactly when none of
its calls is late. -/
theorem terminal_final_iff (env : Env) {calls : List Call}
    (hids : NeverReused (submitted calls)) :
    TerminalFinal env calls ↔
      ∀ (pre : List Call) (c : Call), pre ++ [c] <+: calls →
        ¬ c.Late (runCalls env pre) := by
  constructor
  · intro hfinal pre c hpre hlate
    obtain ⟨t, hbefore, hafter⟩ := (effect_runCalls env (hids.mono hpre)).late hlate
    exact hafter (hfinal pre [c] hpre t .skipped rfl hbefore)
  · intro hok pre mid hpre t st hterm hst
    -- One call after the other.
    induction mid using List.reverseRecOn with
    | nil =>
      rw [List.append_nil]
      exact hst
    | append_singleton mid c ih =>
      rw [← List.append_assoc] at hpre ⊢
      have hids' := hids.mono hpre
      have h := inv_runCalls env hids'.of_append
      have hstep := (effect_runCalls env hids').task h (admissible_next h.sound hids') t
      exact hstep.stateOf_terminal h (hok _ c hpre) hterm
        (ih ((List.prefix_append _ _).trans hpre))

/-- A workflow is cancelled while its first task runs, and its second task
has not started. -/
def cancelledRun : List Call :=
  [.submitWorkflow .asListed (.pair .failFast 3), .getReadyTask "k", .cancelWorkflow "w"]

/-- After the cancellation a worker asks in vain and dies, a report on an execution that
is long over arrives, and the process is started again. -/
def afterCancel : List Call :=
  cancelledRun ++ [.getReadyTask "l", .handleDeadWorker (.asListed _) "l",
    .failTask "a" "old" "late", .restart, .getReadyTask "k"]

theorem terminal_final_iff_afterCancel : TerminalFinal .counting afterCancel := by
  apply (terminal_final_iff .counting (neverReused_of_one rfl)).mpr
  intro pre c hpre hlate
  obtain ⟨hget, htake⟩ := take_of_prefix hpre
  rw [← htake] at hlate
  generalize pre.length = n at hget hlate
  match n with
  | 0 | 1 | 2 | 3 | 6 | 7 =>
    cases hget
    exact hlate
  | 4 =>
    cases hget
    obtain ⟨t, hworker, _⟩ := hlate
    have hnone : ∀ e ∈ (runCalls .counting (afterCancel.take 4)).coord.runningTasks.toList,
        e.2 ≠ "l" := by decide
    exact hnone (t, "l") ((Table.mem_toList_iff _ (t, "l")).mpr hworker) rfl
  | 5 =>
    cases hget
    exact absurd hlate.1 (by decide)
  | n + 8 => cases hget

/-- The worker of the cancelled task reports success, and the task turns from
`SKIPPED` to `COMPLETE`. -/
theorem not_terminalFinal_cancelledRun :
    ¬ TerminalFinal .counting (cancelledRun ++ [.completeTask "a" "x" "out"]) := by
  intro h
  have hafter := h cancelledRun [.completeTask "a" "x" "out"] (List.prefix_refl _) "a"
    .skipped rfl (by decide)
  revert hafter
  decide

end DagScheduler
