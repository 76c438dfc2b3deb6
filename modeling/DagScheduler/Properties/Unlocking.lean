import DagScheduler.Coordinator.Flow
import DagScheduler.Properties.Progress

/-!
# Concurrent completions

Workflows have been submitted, and the steps of any `GetReadyTask` and
`CompleteTask` calls interleave.  `UnlockedOnce` asks that every task of a
workflow enters the ready queue once, when its dependencies are complete, that
it is handed out at most once, and that the workflow is stored as complete when
its tasks are.  It is read off the invariant `Flowing`.

A workflow without tasks is accepted, and no completion ever looks at it.  So
the last part needs a task.
-/

namespace DagScheduler

open Lib Store

/-! ## The property -/

/-- Every task of the workflow is unlocked once and in time, and the workflow
ends with its tasks.  `returned` says that all calls have returned. -/
structure UnlockedOnce (env : Env) (w₀ : World) (es : List (Event Call Action World))
    (w : World) (returned : Prop) (wf : WorkflowSpec) : Prop where
  inTime : ∀ t ∈ wf.taskIDs, ∀ ev ∈ es, 0 < appended env t ev → ev.before.store.DepsComplete t
  atMostOnce : ∀ t ∈ wf.taskIDs, entered env w₀ es t ≤ 1
  notLost : returned → ∀ t ∈ wf.taskIDs, w.store.DepsComplete t → entered env w₀ es t = 1
  assignedOnce : ∀ t ∈ wf.taskIDs, es.countP (handsOut env t) ≤ 1
  closed : returned → (∀ t ∈ wf.taskIDs, w.store.stateOf t = some .complete) →
    w.store.workflowStateOf wf.workflowId = some .complete

/-! ## After the submissions -/

/-- The call submits a workflow. -/
def Call.isSubmission : Call → Bool
  | .submitWorkflow _ _ => true
  | _ => false

/-- Nothing has started: tasks are queued or wait, as their dependencies say,
no task is assigned, and the workflows run. -/
structure Untried (s : Store) (c : Coordinator) : Prop where
  task : ∀ (t : String) (r : TaskStateRecord), s.taskState[t]? = some r →
    r.state = .queued ∨ r.state = .pending ∧ s.depsOf t ≠ []
  assigned : ∀ t, t ∉ c.assignedTasks
  running : ∀ (t : String) (r : TaskStateRecord), s.taskState[t]? = some r →
    s.workflowStateOf r.workflowID = some .running

/-- A submission leaves the records of other workflows as they are. -/
theorem Untried.kept {P P' : WorkflowSpec → Prop} {w w' : World} {env : Env} {c : Call}
    {reply : Reply} (hold : Untried w.store w.coord) (h : Inv P w) (h' : Inv P' w')
    (heff : Effect env w c reply w') (hadm : c.Admissible P' w)
    (hstates : ∀ (id : String) (wf : WorkflowSpec), w.store.workflows[id]? = some wf →
      w'.store.workflowState[id]? = w.store.workflowState[id]?)
    {t : String} {r : TaskStateRecord} (hr : w.store.taskState[t]? = some r)
    (hr' : w'.store.taskState[t]? = some r) :
    (r.state = .queued ∨ r.state = .pending ∧ w'.store.depsOf t ≠ []) ∧
      w'.store.workflowStateOf r.workflowID = some .running := by
  obtain ⟨wf, hwf, ht⟩ := h.sound.coherent.linked.owned t r hr
  have hwf' := heff.workflows_mono hadm hwf
  have hdeps : w'.store.depsOf t = w.store.depsOf t := by
    rw [h'.sound.coherent.linked.depsOf_eq hwf' ht hr',
      h.sound.coherent.linked.depsOf_eq hwf ht hr]
  rw [hdeps]
  refine ⟨hold.task t r hr, ?_⟩
  rw [workflowStateOf, hstates _ wf hwf]
  exact hold.running t r hr

theorem untried_runCalls (env : Env) (calls : List Call) (hids : NeverReused (submitted calls))
    (hsubmit : ∀ c ∈ calls, c.isSubmission = true) :
    Untried (runCalls env calls).store (runCalls env calls).coord := by
  revert hsubmit
  refine runCalls_induction (I := fun calls w => (∀ c ∈ calls, c.isSubmission = true) →
    Untried w.store w.coord) ?_ ?_ calls hids
  · intro _
    exact ⟨by simp, by simp, by simp⟩
  · intro calls c reply w w' hids h heff h' ih hsubmit
    have hold := ih fun c hc => hsubmit c (List.mem_append_left _ hc)
    have hadm := admissible_next h.sound hids
    have hthis : c.isSubmission = true := hsubmit c (by simp)
    have hkept := hold.kept h h' heff hadm
    cases heff with
    | @submitWorkflow orders wf result w' heff =>
      have hfresh := (hadm wf rfl).2
      cases heff with
      | refused hstore hcoord _ =>
        rw [hstore, hcoord]
        exact hold
      | halted _ hstore hcoord _ =>
        have hstates : ∀ (id : String) (other : WorkflowSpec), w.store.workflows[id]? = some other →
            w'.store.workflowState[id]? = w.store.workflowState[id]? := by
          intro id other hother
          rw [hstore, get_setWorkflowState, if_neg (Ne.symm (hfresh id other hother).1)]
        have htasks : w'.store.taskState = w.store.taskState := by rw [hstore]; rfl
        refine ⟨fun t r hr => ?_, hcoord ▸ hold.assigned, fun t r hr => ?_⟩
        · exact (hkept hstates (htasks ▸ hr) hr).1
        · exact (hkept hstates (htasks ▸ hr) hr).2
      | launched hl =>
        obtain ⟨now, hnow⟩ := hl.workflowState
        have hstates : ∀ (id : String) (other : WorkflowSpec), w.store.workflows[id]? = some other →
            w'.store.workflowState[id]? = w.store.workflowState[id]? := by
          intro id other hother
          rw [hnow, Table.get_insert_ne _ _ (Ne.symm (hfresh id other hother).1)]
        have hnew : w'.store.workflows[wf.workflowId]? = some wf := by
          rw [hl.workflows, Table.get_insert, if_pos rfl]
        -- A record belongs to the new workflow, or is an old one.
        have hall : ∀ (t : String) (r : TaskStateRecord), w'.store.taskState[t]? = some r →
            (r.state = .queued ∨ r.state = .pending ∧ w'.store.depsOf t ≠ []) ∧
              w'.store.workflowStateOf r.workflowID = some .running := by
          intro t r hr
          by_cases ht : t ∈ wf.taskIDs
          · obtain ⟨stamp, hget⟩ := hl.task t ht
            rw [h'.sound.coherent.linked.depsOf_eq hnew ht hr]
            rw [hget] at hr
            cases hr
            refine ⟨?_, ?_⟩
            · by_cases hdeps : wf.dependenciesOf t = []
              · exact .inl (if_pos hdeps)
              · exact .inr ⟨if_neg hdeps, hdeps⟩
            · rw [workflowStateOf, hnow, Table.get_insert, if_pos rfl]
              rfl
          · exact hkept hstates (hl.other t ht ▸ hr) hr
        obtain ⟨c, hcaches, hcoord⟩ := hl.coord
        refine ⟨fun t r hr => (hall t r hr).1, ?_, fun t r hr => (hall t r hr).2⟩
        rw [hcoord, Coordinator.enqueue_assignedTasks, hcaches.assignedTasks]
        exact hold.assigned
    | _ => cases hthis

/-! ## Runs -/

section Runs

variable {env : Env} {w₀ w : World} {es : List (Event Call Action World)}
  {ps : List (Call × Point)} {ts : List (Thread Call Action Reply)}
  {total taken : String → Nat}

theorem Untried.not_complete (h : Untried w.store w.coord) (t : String) :
    w.store.stateOf t ≠ some .complete := by
  intro hst
  obtain ⟨r, hr, hst⟩ := stateOf_eq_some.mp hst
  rcases h.task t r hr with hq | ⟨hp, _⟩
  · rw [hst] at hq
    cases hq
  · rw [hst] at hp
    cases hp

/-- The invariant holds after the submissions. -/
theorem Inv.flowing {P : WorkflowSpec → Prop} (h : Inv P w) (hu : Untried w.store w.coord) :
    Flowing w.store w.coord [] (w.coord.readyQueue.count ·) fun _ => 0 := by
  refine ⟨h.sound.coherent, ?_, ?_, ?_, h.agree.queued, by simp,
    fun t ht => absurd ht (hu.assigned t), by simp, fun _ => rfl, ?_, ?_, by simp⟩
  · intro t r hr
    obtain ⟨id, hid⟩ := (Table.mem_iff_get _ _).mp (h.active t r hr (hu.running t r hr))
    obtain ⟨wf, hwf, ht, hspec, _⟩ := h.cached.owner t id hid
    refine ⟨?_, ?_⟩
    · rw [Table.mem_iff_get, ← Option.isSome_iff_exists, hspec]
      exact WorkflowSpec.findTask_isSome_iff.mpr ht
    · rw [hid, h.sound.coherent.linked.owner_eq hwf ht hr]
  · intro t r hr
    rcases hu.task t r hr with hst | ⟨hst, _⟩ <;> rw [hst] <;> rfl
  · intro t ht hdeps
    obtain ⟨r, hr, hst⟩ := stateOf_eq_some.mp ht
    rcases hu.task t r hr with hq | ⟨_, hne⟩
    · rw [hst] at hq
      cases hq
    · obtain ⟨d, hd⟩ := List.exists_mem_of_ne_nil _ hne
      exact hu.not_complete d (of_decide_eq_true (hdeps d hd))
  · intro t r hr
    show w.coord.readyQueue.count t + 0 = _
    rcases hu.task t r hr with hst | ⟨hst, _⟩
    · rw [if_neg (by rw [hst]; decide)]
      exact List.count_eq_one_of_mem h.agree.nodup
        (h.agree.listed t r hr hst (hu.running t r hr))
    · rw [if_pos hst, Nat.add_zero, List.count_eq_zero]
      intro ht
      have hq := h.agree.queued t ht
      rw [stateOf_of_get hr, hst] at hq
      cases hq
  · intro id wf _ hne hfin
    obtain ⟨task, htask⟩ := List.exists_mem_of_ne_nil _ hne
    exact absurd (hfin task.taskId (WorkflowSpec.mem_taskIDs.mpr ⟨task, htask, rfl⟩))
      (hu.not_complete _)

/-- What the invariant says of one workflow with tasks. -/
theorem Flowing.unlockedOnce (h : Flowing w.store w.coord ps (entered env w₀ es)
      fun t => es.countP (handsOut env t))
    (htime : ∀ ev ∈ es, ∀ t, 0 < appended env t ev → ev.before.store.DepsComplete t)
    {wf : WorkflowSpec} (hold : w.store.Holds wf) (hne : wf.tasks ≠ []) {returned : Prop}
    (hdone : returned → ∀ q ∈ ps, q.2 = .done) :
    UnlockedOnce env w₀ es w returned wf := by
  have hrecord : ∀ t ∈ wf.taskIDs, ∃ r, w.store.taskState[t]? = some r := by
    intro t ht
    obtain ⟨r, hr, _⟩ := ownerOf_eq_some.mp (hold.owner t ht)
    exact ⟨r, hr⟩
  have hone : ∀ t ∈ wf.taskIDs, entered env w₀ es t ≤ 1 := by
    intro t ht
    obtain ⟨r, hr⟩ := hrecord t ht
    have honce := h.once t r hr
    split at honce <;> omega
  refine ⟨fun t _ ev hev => htime ev hev t, hone, ?_, ?_, ?_⟩
  · intro hret t ht hdeps
    obtain ⟨r, hr⟩ := hrecord t ht
    have honce := h.once t r hr
    have hway : onTheWay ps t = 0 := by
      rw [onTheWay, List.sum_eq_zero_iff]
      intro n hn
      obtain ⟨q, hq, rfl⟩ := List.mem_map.mp hn
      rw [hdone hret q hq]
      rfl
    have hpend : r.state ≠ .pending := by
      intro hst
      exact h.waiting t (by rw [stateOf_of_get hr, hst]) hdeps
    rwa [if_neg hpend, hway, Nat.add_zero] at honce
  · intro t ht
    have hbalance := h.balance t
    have hle := hone t ht
    omega
  · intro hret hfin
    rcases h.closing _ wf hold.spec hne hfin with hclosed | ⟨q, hq, hclosing⟩
    · exact hclosed
    · rw [hdone hret q hq] at hclosing
      exact hclosing.elim

/-- After any submissions, any interleaving of `GetReadyTask` and
`CompleteTask` calls unlocks each task of an accepted workflow once, and closes
the workflow, if it has a task. -/
theorem unlocked_once {calls : List Call} (hsubmit : ∀ c ∈ calls, c.isSubmission = true)
    (hids : NeverReused (submitted calls)) {wf : WorkflowSpec} (hacc : AcceptedIn env calls wf)
    (hne : wf.tasks ≠ [])
    (hrun : Interleaving (Action.handle env) Call.prog (runCalls env calls) es ts w)
    (hcalls : ∀ th ∈ ts, th.label.asksOrCompletes = true) :
    UnlockedOnce env (runCalls env calls) es w (∀ th ∈ ts, th.rest.isRet = true) wf := by
  have hinv := inv_runCalls env hids
  have hk := hinv.sound.coherent.linked.keyed
  obtain ⟨ps, hps, hfollow⟩ := hrun.run tracks_prog
    fun th hth => Call.concurrent_of_asksOrCompletes (hcalls th hth)
  have hlabels : ∀ l ∈ ps.map (·.1), l.asksOrCompletes = true := by
    rw [hfollow.labels]
    intro l hl
    obtain ⟨th, hth, rfl⟩ := List.mem_map.mp hl
    exact hcalls th hth
  obtain ⟨hflow, htime⟩ := flowing_run hps hk
    (hinv.flowing (untried_runCalls env calls hids hsubmit)) hlabels
  have hshape := run_sameShape hps hk
  have hstored := hacc.stored hids
  refine hflow.unlockedOnce htime ⟨hshape.workflows ▸ hstored.spec, fun t ht => ?_⟩ hne
    fun hret => done_of_returned hfollow hret
  rw [hshape.ownerOf]
  exact hstored.owner t ht

end Runs

/-- One workflow with two tasks has been submitted. -/
def submittedRun : List Call := [.submitWorkflow .asListed (.pair .failFast 1)]

/-- The first result is reported twice, and the steps of the two calls
alternate.  Two workers ask for the second task, and one of them gets it. -/
def alternating : List (Choice Call) :=
  [.spawn (.getReadyTask "k"), .run 0, .spawn (.completeTask "a" "x" "out"),
    .spawn (.completeTask "a" "x" "out"), .run 1, .run 2, .run 1, .run 2, .run 2, .run 1,
    .spawn (.getReadyTask "k"), .spawn (.getReadyTask "l"), .run 4, .run 3,
    .spawn (.completeTask "b" "xx" "out"), .run 5, .run 2, .run 1, .run 5, .run 5, .run 5,
    .run 1, .run 2, .run 1, .run 5, .run 1, .run 5, .run 5, .run 2, .run 2]

theorem unlocked_once_alternating :
    UnlockedOnce .counting (runCalls .counting submittedRun)
      (scheduleAfter submittedRun alternating).1 (scheduleAfter submittedRun alternating).2.2
      (∀ th ∈ (scheduleAfter submittedRun alternating).2.1, th.rest.isRet = true)
      (.pair .failFast 1) :=
  unlocked_once (by decide) (neverReused_of_one rfl)
    ⟨.asListed, .status (.ok ()), List.mem_cons_self, rfl⟩ (by decide)
    (interleaving_scheduleAfter submittedRun alternating) (by decide)

/-- A workflow without tasks. -/
def WorkflowSpec.empty : WorkflowSpec where
  workflowId := "w"
  tasks := []

/-- The workflow without tasks is accepted and is never stored as complete. -/
theorem not_unlockedOnce_empty :
    AcceptedIn .counting [.submitWorkflow .asListed .empty] .empty ∧
    Interleaving (Action.handle .counting) Call.prog
      (runCalls .counting [.submitWorkflow .asListed .empty])
      [] ([] : List (Thread Call Action Reply))
      (runCalls .counting [.submitWorkflow .asListed .empty]) ∧
    ¬ UnlockedOnce .counting (runCalls .counting [.submitWorkflow .asListed .empty]) []
      (runCalls .counting [.submitWorkflow .asListed .empty])
      (∀ th ∈ ([] : List (Thread Call Action Reply)), th.rest.isRet = true) .empty := by
  refine ⟨⟨.asListed, .status (.ok ()), List.mem_cons_self, rfl⟩, .start, fun h => ?_⟩
  have hstate : (runCalls .counting [.submitWorkflow .asListed .empty]).store.workflowStateOf "w"
      = some .running := by
    decide
  have hclosed := h.closed (by simp) (by simp [WorkflowSpec.empty, WorkflowSpec.taskIDs])
  rw [show WorkflowSpec.empty.workflowId = "w" from rfl, hstate] at hclosed
  cases hclosed

end DagScheduler
