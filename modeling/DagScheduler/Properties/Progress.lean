import DagScheduler.Coordinator.Alive

/-!
# No deadlock

A workflow that was accepted, has a task, and has one of the three failure
policies is never stored as `RUNNING` without a task that is queued or
running.  `alive_runCalls` carries `Alive` along every run that reuses no ID,
and `AcceptedIn.stored` finds the tasks of an accepted workflow in the store.
-/

namespace DagScheduler

open Lib Store

variable {env : Env} {P P' : WorkflowSpec → Prop} {w w' : World} {c : Call}

/-- The run accepted the workflow: a call that submitted it returned nil. -/
def AcceptedIn (env : Env) (calls : List Call) (wf : WorkflowSpec) : Prop :=
  ∃ (orders : DagOrders) (reply : Reply),
    (.submitWorkflow orders wf, reply) ∈ history env calls ∧ reply.isNil = true

/-- The workflow and its tasks are in the store. -/
structure Store.Holds (s : Store) (wf : WorkflowSpec) : Prop where
  spec : s.workflows[wf.workflowId]? = some wf
  owner : ∀ t ∈ wf.taskIDs, s.ownerOf t = some wf.workflowId

/-! ## Accepted workflows stay in the store -/

/-- A record stays with its workflow. -/
theorem TaskStep.owner_mono {t id : String}
    (hstep : TaskStep env w w' t c w.store.taskState[t]? w'.store.taskState[t]?)
    (ht : w.store.ownerOf t = some id) : w'.store.ownerOf t = some id := by
  cases hc : c.submits with
  | none =>
    have hshape := congrArg (Option.map (·.2.1)) (hstep.shape hc)
    rw [Option.map_map, Option.map_map] at hshape
    exact hshape.trans ht
  | some wf =>
    obtain ⟨r, hr, hid⟩ := ownerOf_eq_some.mp ht
    rw [hr] at hstep
    generalize ho : w'.store.taskState[t]? = o' at hstep
    cases hstep with
    | same => exact ownerOf_eq_some.mpr ⟨r, ho, hid⟩
    | _ => cases hc

/-- A stored specification stays. -/
theorem Effect.workflows_mono (hadm : c.Admissible P' w) {reply : Reply}
    (heff : Effect env w c reply w') {id : String} {wf : WorkflowSpec}
    (hwf : w.store.workflows[id]? = some wf) : w'.store.workflows[id]? = some wf := by
  cases hc : c.submits with
  | none =>
    rw [heff.workflows hc]
    exact hwf
  | some other =>
    have hne := ((hadm other hc).2 id wf hwf).1
    cases heff with
    | submitWorkflow heff =>
      cases hc
      cases heff with
      | refused hstore _ _ =>
        rw [hstore]
        exact hwf
      | halted _ hstore _ _ =>
        rw [hstore]
        exact (Table.get_insert_ne _ _ (Ne.symm hne)).trans hwf
      | launched hl =>
        rw [hl.workflows, Table.get_insert_ne _ _ (Ne.symm hne)]
        exact hwf
    | _ => cases hc

theorem Store.Holds.step (h : Inv P w) (hadm : c.Admissible P' w) {reply : Reply}
    (heff : Effect env w c reply w') {wf : WorkflowSpec} (hold : w.store.Holds wf) :
    w'.store.Holds wf :=
  ⟨heff.workflows_mono hadm hold.spec,
    fun t ht => (heff.task h hadm t).owner_mono (hold.owner t ht)⟩

theorem Launched.holds {wf : WorkflowSpec} {dag : DAG} {roots : List String}
    (hl : Launched wf dag roots w w') : w'.store.Holds wf := by
  refine ⟨by rw [hl.workflows, Table.get_insert, if_pos rfl], ?_⟩
  intro t ht
  obtain ⟨now, hget⟩ := hl.task t ht
  exact ownerOf_eq_some.mpr ⟨_, hget, rfl⟩

/-- A submission that returns nil has launched the workflow. -/
theorem Effect.launched {orders : DagOrders} {wf : WorkflowSpec} {reply : Reply}
    (heff : Effect env w (.submitWorkflow orders wf) reply w') (hnil : reply.isNil = true) :
    ∃ (dag : DAG) (roots : List String), Launched wf dag roots w w' := by
  cases heff with
  | submitWorkflow heff =>
    cases heff with
    | refused _ _ _ => cases hnil
    | halted _ _ _ _ => cases hnil
    | launched hl => exact ⟨_, _, hl⟩

/-- Induction over a run from the acceptance of a workflow on. -/
theorem AcceptedIn.induction {I : World → Prop} {calls : List Call} {wf : WorkflowSpec}
    (hlaunch : ∀ (P : WorkflowSpec → Prop) (dag : DAG) (roots : List String) (w w' : World),
      Launched wf dag roots w w' → Inv P w' → I w')
    (hstep : ∀ (P P' : WorkflowSpec → Prop) (c : Call) (reply : Reply) (w w' : World),
      Inv P w → c.Admissible P' w → Effect env w c reply w' → I w → I w')
    (hacc : AcceptedIn env calls wf) (hids : NeverReused (submitted calls)) :
    I (runCalls env calls) := by
  induction calls using List.reverseRecOn with
  | nil =>
    obtain ⟨_, _, hmem, _⟩ := hacc
    cases hmem
  | append_singleton calls c ih =>
    obtain ⟨orders, reply, hmem, hnil⟩ := hacc
    have h := inv_runCalls env hids.of_append
    have h' := inv_runCalls env hids
    have heff := effect_runCalls env hids
    rw [history_append, List.mem_append, List.mem_singleton] at hmem
    rcases hmem with hold | hnew
    · exact hstep _ _ c _ _ _ h (admissible_next h.sound hids) heff
        (ih ⟨orders, reply, hold, hnil⟩ hids.of_append)
    · obtain ⟨rfl, rfl⟩ := Prod.mk.inj hnew
      obtain ⟨dag, roots, hl⟩ := heff.launched hnil
      exact hlaunch _ dag roots _ _ hl h'

theorem AcceptedIn.stored {calls : List Call} {wf : WorkflowSpec}
    (hacc : AcceptedIn env calls wf) (hids : NeverReused (submitted calls)) :
    (runCalls env calls).store.Holds wf := by
  refine hacc.induction (I := fun w => w.store.Holds wf) ?_ ?_ hids
  · exact fun _ _ _ _ _ hl _ => hl.holds
  · intro P P' c reply w w' h hadm heff hold
    exact hold.step h hadm heff

/-- The tasks that belong to a stored workflow are those in its list. -/
theorem Store.Holds.mem_taskIDs {s : Store} {wf : WorkflowSpec} (hold : s.Holds wf)
    (hl : s.Linked) {t : String} :
    s.ownerOf t = some wf.workflowId ↔ t ∈ wf.taskIDs := by
  refine ⟨fun ht => ?_, hold.owner t⟩
  obtain ⟨r, hr, hown⟩ := ownerOf_eq_some.mp ht
  obtain ⟨stored, hstored, hin⟩ := hl.owned t r hr
  rw [hown, hold.spec] at hstored
  cases hstored
  exact hin

/-- A running workflow with tasks and a known policy has an active task. -/
theorem Store.Holds.exists_active {s : Store} {wf : WorkflowSpec} (hold : s.Holds wf)
    (hs : s.Coherent) (halive : s.Alive (·.failurePolicy.named = true))
    (hnamed : wf.failurePolicy.named = true) (hne : wf.tasks ≠ [])
    (hrun : s.workflowStateOf wf.workflowId = some .running) :
    ∃ t ∈ wf.taskIDs, s.stateOf t = some .queued ∨ s.stateOf t = some .running := by
  obtain ⟨task, htask⟩ := List.exists_mem_of_ne_nil _ hne
  have hlive := halive _ _ hold.spec hnamed hrun
    ⟨task.taskId, hold.owner _ (WorkflowSpec.mem_taskIDs.mpr ⟨task, htask, rfl⟩)⟩
  obtain ⟨t, ht, hactive⟩ := hlive.exists_active hs
  exact ⟨t, (hold.mem_taskIDs hs.linked).mp ht, hactive⟩

/-! ## Runs -/

/-- A call abandons no workflow whose policy names a constant. -/
theorem Call.not_abandons_of_named {id : String} {wf : WorkflowSpec}
    (hwf : w.store.workflows[id]? = some wf) (hnamed : wf.failurePolicy.named = true) :
    ¬ c.Abandons w id := by
  cases c with
  | failTask t e errMsg =>
    intro h
    obtain ⟨_, r, other, _, _, _, hother, hnot⟩ := h
    rw [hwf] at hother
    cases hother
    rw [hnamed] at hnot
    cases hnot
  | _ => exact fun h => h

/-- Running workflows with a known policy are alive after every call. -/
theorem alive_runCalls (env : Env) (calls : List Call)
    (hids : NeverReused (submitted calls)) :
    (runCalls env calls).store.Alive (·.failurePolicy.named = true) := by
  refine runCalls_induction (I := fun _ w => w.store.Alive _) ?_ ?_ calls hids
  · intro id wf hwf
    simp at hwf
  · intro calls c reply w w' hids h heff h' halive
    exact heff.alive h (admissible_next h.sound hids) h'.sound.coherent.linked
      (fun id wf hwf hnamed => Call.not_abandons_of_named hwf hnamed) halive

/-- After every call, an accepted workflow with tasks and a known policy that
is stored as `RUNNING` has a task that is queued or running. -/
theorem no_deadlock (env : Env) {calls : List Call}
    (hids : NeverReused (submitted calls)) {wf : WorkflowSpec}
    (hacc : AcceptedIn env calls wf) (hne : wf.tasks ≠ [])
    (hpolicy : wf.failurePolicy = .failFast ∨ wf.failurePolicy = .skipDownstream ∨
      wf.failurePolicy = .continueIndependent)
    (hrun : (runCalls env calls).store.workflowStateOf wf.workflowId = some .running) :
    ∃ task ∈ wf.tasks,
      (runCalls env calls).store.stateOf task.taskId = some .queued ∨
        (runCalls env calls).store.stateOf task.taskId = some .running := by
  have hs := (inv_runCalls env hids).sound.coherent
  have hnamed : wf.failurePolicy.named = true := by
    rcases hpolicy with hp | hp | hp <;> rw [hp] <;> rfl
  obtain ⟨t, ht, hactive⟩ := (hacc.stored hids).exists_active hs
    (alive_runCalls env calls hids) hnamed hne hrun
  obtain ⟨task, htask, rfl⟩ := WorkflowSpec.mem_taskIDs.mp ht
  exact ⟨task, htask, hactive⟩

/-- The first task has completed, and the second one has not been handed out. -/
def halfwayRun : List Call :=
  [.submitWorkflow .asListed (.pair .skipDownstream 1), .getReadyTask "k",
    .completeTask "a" "x" "out"]

theorem no_deadlock_halfwayRun :
    ∃ task ∈ (WorkflowSpec.pair .skipDownstream 1).tasks,
      (runCalls .counting halfwayRun).store.stateOf task.taskId = some .queued ∨
        (runCalls .counting halfwayRun).store.stateOf task.taskId = some .running := by
  have hids : NeverReused (submitted halfwayRun) := neverReused_of_one rfl
  refine no_deadlock .counting hids ⟨.asListed, .status (.ok ()), ?_, rfl⟩ (by decide)
    (.inr (.inl rfl)) (by decide)
  exact List.mem_cons_self

end DagScheduler
