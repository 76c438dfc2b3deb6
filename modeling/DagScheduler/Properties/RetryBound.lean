import DagScheduler.Coordinator.Steps
import DagScheduler.Properties.Dependencies

/-!
# The retry bound

`FailTask` counts an attempt in the record that it has read, and decides from
the count whether the task is tried again.  `RequeueTask` reads the record
once more and does not write the count back, so the store never holds more
than the first attempt: `attempts_runCalls` says that the count of a record
is 1 if the task is `FAILED` and 0 in all other states.

This leaves little of the retry bound.  A run keeps it exactly when every
failure that the coordinator accepts is one of a task that may fail only
once.
-/

namespace DagScheduler

open Lib Store

/-- The number of failures after which a task is given up. -/
def TaskSpec.effectiveLimit (task : TaskSpec) : Int32 :=
  if task.maxRetries > 0 then task.maxRetries else 3

theorem TaskSpec.effectiveLimit_pos (task : TaskSpec) : 0 < task.effectiveLimit := by
  unfold TaskSpec.effectiveLimit
  split
  · assumption
  · decide

/-- The call reports a failure of `t`. -/
def Call.failsTask (t : String) : Call → Bool
  | .failTask u _ _ => u = t
  | _ => false

/-- How often the run accepted a failure of `t`. -/
def acceptedFailures (env : Env) (t : String) (calls : List Call) : Nat :=
  (history env calls).countP fun p => p.1.failsTask t && p.2.isNil

theorem acceptedFailures_append (env : Env) (t : String) (calls : List Call) (c : Call) :
    acceptedFailures env t (calls ++ [c]) = acceptedFailures env t calls
      + if (c.failsTask t && (c.exec env (runCalls env calls)).1.isNil) = true
        then 1 else 0 := by
  unfold acceptedFailures
  rw [history_append, List.countP_append, List.countP_singleton]

/-- The bound on one run: after the `k`-th accepted failure of a task with
the limit `m` the record counts `k` attempts, the task is queued again if
`k < m` and is `FAILED` if `k = m`, and `k` never exceeds `m`. -/
def RetryBound (env : Env) (calls : List Call) : Prop :=
  ∀ wf ∈ submitted calls, ∀ task ∈ wf.tasks, ∀ (pre : List Call) (e errMsg : String),
    pre ++ [.failTask task.taskId e errMsg] <+: calls →
    ((Call.failTask task.taskId e errMsg).exec env (runCalls env pre)).1.isNil = true →
    ∃ r, (runCalls env (pre ++ [.failTask task.taskId e errMsg])).store.taskState[
        task.taskId]? = some r ∧
      ∃ k : Nat, k = acceptedFailures env task.taskId
          (pre ++ [.failTask task.taskId e errMsg]) ∧
        r.attemptCount.toInt = k ∧
        ((k : Int) < task.effectiveLimit.toInt → r.state = .queued) ∧
        ((k : Int) = task.effectiveLimit.toInt → r.state = .failed) ∧
        (k : Int) ≤ task.effectiveLimit.toInt

/-! ## What the store counts -/

/-- A record counts one attempt if its task is `FAILED`, and else none. -/
def Attempts (s : Store) : Prop :=
  ∀ (t : String) (r : TaskStateRecord), s.taskState[t]? = some r →
    r.attemptCount = if r.state = .failed then 1 else 0

theorem unlocked_attemptCount (now : Int64) (n : Nat) (ds : TaskStateRecord) :
    ((unlocked now)^[n] ds).attemptCount = ds.attemptCount := by
  induction n with
  | zero => rfl
  | succ n ih =>
    rw [Function.iterate_succ_apply', ← ih]
    unfold unlocked
    split <;> rfl

variable {env : Env} {P P' : WorkflowSpec → Prop} {w w' : World} {c : Call}

/-- The count of a record that is rewritten was 0. -/
theorem Attempts.zero_of_state {s : Store} (h : Attempts s) {t : String}
    {r : TaskStateRecord} (hr : s.taskState[t]? = some r) (hst : r.state ≠ .failed) :
    r.attemptCount = 0 := by
  rw [h t r hr, if_neg hst]

theorem Attempts.step (h : Inv P w) (hadm : c.Admissible P' w) {reply : Reply}
    (heff : Effect env w c reply w') (hold : Attempts w.store) : Attempts w'.store := by
  intro t r' hr'
  have hstep := heff.task h hadm t
  rw [hr'] at hstep
  generalize ho : w.store.taskState[t]? = o at hstep
  have hrunning : ∀ {r : TaskStateRecord} {e : String}, o = some r →
      w.coord.assignedTasks[t]? = some e → r.attemptCount = 0 := by
    intro r e hr ha
    rw [hr] at ho
    apply hold.zero_of_state ho
    rcases h.state_of_assigned ha ho with hst | hst <;> simp [hst]
  have hopen : ∀ {r : TaskStateRecord}, o = some r → r.state.terminal = false →
      r.attemptCount = 0 := by
    intro r hr hst
    rw [hr] at ho
    apply hold.zero_of_state ho
    intro hf
    rw [hf] at hst
    cases hst
  cases hstep with
  | same => exact hold t r' ho
  | created _ hst hcount _ => rcases hst with hst | hst <;> simp [hst, hcount]
  | assigned hst _ => simp [hopen rfl (by rw [hst]; rfl)]
  | completed ha => simp [hrunning rfl ha]
  | released _ hst =>
    rw [unlocked_attemptCount, hopen rfl (by rw [hst]; rfl)]
    rcases iterate_unlocked_pending _ hst _ with hq | hq <;> rw [hq] <;> rfl
  | retried ha _ _ => simp [hrunning rfl ha]
  | failed ha _ => simp [hrunning rfl ha]
  | skippedBelow _ _ hst _ _ _ _ => simp [hopen rfl hst]
  | cancelled _ hst => simp [hopen rfl hst]
  | reclaimed hw _ _ =>
    obtain ⟨e, ha⟩ := h.assigned_of_running hw
    simp [hrunning rfl ha]
  | recovered hst _ _ => simp [hopen rfl (by rw [hst]; rfl)]

theorem attempts_runCalls (env : Env) (calls : List Call)
    (hids : NeverReused (submitted calls)) : Attempts (runCalls env calls).store := by
  refine runCalls_induction (I := fun _ w => Attempts w.store) ?_ ?_ calls hids
  · intro t r hr
    simp at hr
  · intro calls c reply w w' hids h heff _ hold
    exact hold.step h (admissible_next h.sound hids) heff

/-! ## Failures under a limit of one -/

/-- The limit that `FailTask` reads for an assigned task is the one of its
specification. -/
theorem Inv.retryLimit_eq {specs : List WorkflowSpec} (h : Inv (· ∈ specs) w)
    (hids : NeverReused specs) {wf : WorkflowSpec} (hwf : wf ∈ specs) {task : TaskSpec}
    (htask : task ∈ wf.tasks) {e : String}
    (ha : w.coord.assignedTasks[task.taskId]? = some e) :
    w.coord.retryLimit task.taskId = task.effectiveLimit := by
  obtain ⟨r, stored, hr, _, _, _, hstored, _, _, hspec, _⟩ := h.assigned ha
  have hwf' := (h.sound.depsOf_task hids hwf htask hr).1
  rw [hstored] at hwf'
  cases hwf'
  have hwell := (h.sound.coherent.linked.workflow _ _ hstored).2.2
  rw [WorkflowSpec.findTask_of_mem hwell.nodup htask] at hspec
  unfold Coordinator.retryLimit TaskSpec.effectiveLimit
  rw [hspec]

/-- Only `FailTask` on `t` itself can make `t` fail, and nothing takes a
failure back. -/
theorem TaskStep.failed_iff (h : Inv P w) {t : String}
    (hstep : TaskStep env w w' t c w.store.taskState[t]? w'.store.taskState[t]?)
    (hc : c.failsTask t = false) :
    w'.store.stateOf t = some .failed ↔ w.store.stateOf t = some .failed := by
  constructor
  · intro hf
    rcases hstep.failed_back hf with hold | ⟨e, errMsg, rfl, _⟩
    · exact hold
    · simp [Call.failsTask] at hc
  · intro hf
    obtain ⟨r, hr, hst⟩ := stateOf_eq_some.mp hf
    rw [hr] at hstep
    have hsame := hstep.eq_of_over h hr (.inr hst)
    exact stateOf_eq_some.mpr ⟨r, hsame, hst⟩

/-- What an accepted failure does when the record counts no attempt and the
limit is one. -/
theorem FailEffect.of_limit_one {t e errMsg : String} {result : Except CallError Unit}
    (heff : FailEffect env w t e errMsg result w') (ha : w.coord.assignedTasks[t]? = some e)
    (hcount : ∀ r, w.store.taskState[t]? = some r → r.attemptCount = 0)
    (hlimit : w.coord.retryLimit t = 1) :
    result = .ok () ∧ w'.store.stateOf t = some .failed := by
  obtain ⟨hres, r, now, hr, ⟨hlt, _⟩ | ⟨_, hget⟩⟩ := heff.of_assigned ha
  · rw [hcount r hr, hlimit] at hlt
    exact absurd hlt (by decide)
  · exact ⟨hres, stateOf_eq_some.mpr ⟨_, hget, rfl⟩⟩

/-- Every failure that the run accepts is one of a task with the limit 1. -/
def FailsOnce (env : Env) (calls : List Call) : Prop :=
  ∀ wf ∈ submitted calls, ∀ task ∈ wf.tasks, ∀ (pre : List Call) (e errMsg : String),
    pre ++ [.failTask task.taskId e errMsg] <+: calls →
    (runCalls env pre).coord.assignedTasks[task.taskId]? = some e →
    task.effectiveLimit = 1

theorem FailsOnce.mono {pre calls : List Call} (hpre : pre <+: calls)
    (h : FailsOnce env calls) : FailsOnce env pre :=
  fun wf hwf task htask pre' e errMsg hpre' ha =>
    h wf (submitted_mono hpre hwf) task htask pre' e errMsg (hpre'.trans hpre) ha

/-- The task that an accepted failure is about. -/
theorem Inv.spec_of_assigned {specs : List WorkflowSpec} (h : Inv (· ∈ specs) w)
    {t e : String} (ha : w.coord.assignedTasks[t]? = some e) :
    ∃ wf ∈ specs, ∃ task ∈ wf.tasks, task.taskId = t := by
  obtain ⟨r, wf, _, _, _, _, hwf, ht, _⟩ := h.assigned ha
  obtain ⟨task, htask, hid⟩ := WorkflowSpec.mem_taskIDs.mp ht
  exact ⟨wf, h.sound.stored _ _ hwf, task, htask, hid⟩

/-- The run invariant: a task has failed once if it is `FAILED`, and else
never. -/
theorem acceptedFailures_eq (calls : List Call) (hids : NeverReused (submitted calls))
    (hok : FailsOnce env calls) (t : String) :
    acceptedFailures env t calls
      = if (runCalls env calls).store.stateOf t = some .failed then 1 else 0 := by
  induction calls using List.reverseRecOn with
  | nil => simp [acceptedFailures, history, historyFrom, runCalls, stateOf]
  | append_singleton calls c ih =>
    have hpre : calls <+: calls ++ [c] := List.prefix_append _ _
    have hids' := hids.of_append
    have h := inv_runCalls env hids'
    have heff := effect_runCalls env hids
    have hstep := heff.task h (admissible_next h.sound hids) t
    rw [acceptedFailures_append, ih hids' (hok.mono hpre)]
    generalize (c.exec env (runCalls env calls)).1 = reply at heff ⊢
    cases hc : c.failsTask t with
    | false => simp only [hstep.failed_iff h hc, Bool.false_and, Bool.false_eq_true,
        if_false, Nat.add_zero]
    | true =>
      cases heff with
      | @failTask u e errMsg result _ heff =>
        have hut : u = t := by simpa [Call.failsTask] using hc
        subst hut
        by_cases ha : (runCalls env calls).coord.assignedTasks[u]? = some e
        · obtain ⟨wf, hwf, task, htask, rfl⟩ := h.spec_of_assigned ha
          have hcount : ∀ r, (runCalls env calls).store.taskState[task.taskId]? = some r →
              r.state ≠ .failed ∧ r.attemptCount = 0 := by
            intro r hr
            have hst : r.state ≠ .failed := by
              rcases h.state_of_assigned ha hr with hst | hst <;> simp [hst]
            exact ⟨hst, (attempts_runCalls env calls hids').zero_of_state hr hst⟩
          have hlimit := h.retryLimit_eq hids' hwf htask ha
          rw [hok wf (submitted_mono hpre hwf) task htask calls e errMsg
            (List.prefix_refl _) ha] at hlimit
          obtain ⟨hres, hfailed⟩ :=
            heff.of_limit_one ha (fun r hr => (hcount r hr).2) hlimit
          have hbefore : (runCalls env calls).store.stateOf task.taskId ≠ some .failed := by
            intro hf
            obtain ⟨r, hr, hst⟩ := stateOf_eq_some.mp hf
            exact (hcount r hr).1 hst
          rw [if_neg hbefore, if_pos hfailed, hres]
          rfl
        · obtain ⟨hres, hsame⟩ := heff.of_not_assigned ha
          rw [hres, hsame]
          simp [Reply.isNil]
      | _ => simp [Call.failsTask] at hc

/-! ## The bound -/

theorem eq_one_of_not_lt {x : Int32} (hpos : 0 < x) (hle : ¬ 1 < x) : x = 1 := by
  rw [Int32.lt_iff_toInt_lt, Int32.toInt_zero] at hpos
  rw [Int32.lt_iff_toInt_lt, Int32.toInt_one] at hle
  apply Int32.toInt_inj.mp
  rw [Int32.toInt_one]
  omega

/-- A run that reuses no ID keeps the retry bound exactly when each failure
that it accepts is one of a task with the limit 1. -/
theorem retry_bound_iff (env : Env) {calls : List Call}
    (hids : NeverReused (submitted calls)) :
    RetryBound env calls ↔ FailsOnce env calls := by
  -- What both directions know of a failure report of the run.
  have hreport : ∀ wf ∈ submitted calls, ∀ task ∈ wf.tasks, ∀ (pre : List Call)
      (e errMsg : String), pre ++ [.failTask task.taskId e errMsg] <+: calls →
      ∃ result, ((Call.failTask task.taskId e errMsg).exec env (runCalls env pre)).1
          = .status result ∧
        FailEffect env (runCalls env pre) task.taskId e errMsg result
          (runCalls env (pre ++ [.failTask task.taskId e errMsg])) ∧
        ((runCalls env pre).coord.assignedTasks[task.taskId]? = some e →
          (runCalls env pre).coord.retryLimit task.taskId = task.effectiveLimit ∧
          ∀ r, (runCalls env pre).store.taskState[task.taskId]? = some r →
            r.attemptCount = 0) := by
    intro wf hwf task htask pre e errMsg hpre
    have hids' := hids.mono hpre
    have hpre' : pre <+: calls := (List.prefix_append _ _).trans hpre
    have h := inv_runCalls env hids'.of_append
    have heff := effect_runCalls env hids'
    generalize ((Call.failTask task.taskId e errMsg).exec env (runCalls env pre)).1
      = reply at heff ⊢
    cases heff with
    | failTask heff =>
      refine ⟨_, rfl, heff, fun ha => ⟨?_, fun r hr => ?_⟩⟩
      · exact (h.mono fun _ => submitted_mono hpre').retryLimit_eq hids hwf htask ha
      · apply (attempts_runCalls env pre hids'.of_append).zero_of_state hr
        rcases h.state_of_assigned ha hr with hst | hst <;> simp [hst]
  constructor
  · intro hbound wf hwf task htask pre e errMsg hpre ha
    obtain ⟨result, hreply, heff, hknown⟩ := hreport wf hwf task htask pre e errMsg hpre
    obtain ⟨hlimit, hcount⟩ := hknown ha
    obtain ⟨rfl, r, now, hr, ⟨_, _, hget⟩ | ⟨hlt, _⟩⟩ := heff.of_assigned ha
    · -- The count is not written, but the failure counts.
      exfalso
      obtain ⟨r', hr', k, hk, hcnt, _⟩ := hbound wf hwf task htask pre e errMsg hpre
        (by rw [hreply]; rfl)
      rw [acceptedFailures_append, hreply,
        if_pos (by simp [Call.failsTask, Reply.isNil])] at hk
      rw [hget] at hr'
      cases hr'
      dsimp only at hcnt
      rw [hcount r hr, Int32.toInt_zero] at hcnt
      omega
    · rw [hcount r hr, hlimit] at hlt
      exact eq_one_of_not_lt task.effectiveLimit_pos hlt
  · intro hok wf hwf task htask pre e errMsg hpre hnil
    obtain ⟨result, hreply, heff, hknown⟩ := hreport wf hwf task htask pre e errMsg hpre
    have hids' := hids.mono hpre
    have ha : (runCalls env pre).coord.assignedTasks[task.taskId]? = some e := by
      by_contra hne
      rw [hreply, (heff.of_not_assigned hne).1] at hnil
      cases hnil
    obtain ⟨hlimit, hcount⟩ := hknown ha
    have hone := hok wf hwf task htask pre e errMsg hpre ha
    rw [hone] at hlimit
    obtain ⟨_, hfailed⟩ := heff.of_limit_one ha hcount hlimit
    have hcounted := acceptedFailures_eq _ hids' (hok.mono hpre) task.taskId
    rw [if_pos hfailed] at hcounted
    obtain ⟨r, hr, hst⟩ := stateOf_eq_some.mp hfailed
    refine ⟨r, hr, 1, hcounted.symm, ?_, ?_, fun _ => hst, ?_⟩
    · rw [attempts_runCalls env _ hids' _ r hr, if_pos hst]
      rfl
    · rw [hone]
      exact fun hlt => absurd hlt (by decide)
    · rw [hone]
      decide

/-- A task with the limit `maxRetries` is submitted, runs, and fails. -/
def failedRun (maxRetries : Int32) : List Call :=
  [.submitWorkflow .asListed (.pair .failFast maxRetries), .getReadyTask "k",
    .failTask "a" "x" "boom"]

theorem retry_bound_iff_failedRun : RetryBound .counting (failedRun 1) := by
  apply (retry_bound_iff .counting (neverReused_of_one rfl)).mpr
  intro wf hwf task htask _ _ _ _ _
  rw [List.mem_singleton.mp hwf] at htask
  have hlimits : ∀ task ∈ (WorkflowSpec.pair .failFast 1).tasks,
      task.effectiveLimit = 1 := by decide
  exact hlimits task htask

/-- With the limit 3 the first failure leaves the count at 0. -/
theorem not_retryBound_failedRun : ¬ RetryBound .counting (failedRun 3) := by
  intro h
  obtain ⟨r, hr, k, hk, hcnt, _⟩ := h (.pair .failFast 3) (by decide)
    { taskId := "a", maxRetries := 3 } (by decide)
    [.submitWorkflow .asListed (.pair .failFast 3), .getReadyTask "k"] "x" "boom"
    (List.prefix_refl _) (by decide)
  have hone : k = 1 := hk.trans (by decide)
  have hstored : (runCalls .counting (failedRun 3)).store.taskState["a"]?.map
      (·.attemptCount) = some 0 := by decide
  have hzero : r.attemptCount = 0 := by
    have hr' : (runCalls .counting (failedRun 3)).store.taskState["a"]? = some r := hr
    rw [hr'] at hstored
    exact Option.some.inj hstored
  rw [hzero, Int32.toInt_zero] at hcnt
  omega

end DagScheduler
