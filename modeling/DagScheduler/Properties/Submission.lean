import DagScheduler.Coordinator.Grounded
import DagScheduler.Coordinator.Runs

/-!
# Submissions and what is stored already

`SubmitWorkflow` compares none of its IDs with those that are stored, and its
transactions are not undone when a later one fails.  Two properties of a
submission depend on that.

* `KeepsExisting`: the submission leaves every entry alone that was there
  before, and is refused if it reuses an ID.
* `AllOrNothing`: a submission that returns an error leaves no trace.

Both are settled at every state that a run with crashes can reach, whatever
IDs the run reuses.  `CrashRun.grounded` is all that is needed of such a
state: an ID that is mentioned anywhere is an ID with a stored specification,
so an overwritten entry never happens to have the value that is written.
-/

namespace DagScheduler

open Lib Store

/-- Every entry of the buckets and of the caches is still there, with its
value. -/
structure Undisturbed (w w' : World) : Prop where
  workflows : w.store.workflows.Extends w'.store.workflows
  workflowState : w.store.workflowState.Extends w'.store.workflowState
  taskState : w.store.taskState.Extends w'.store.taskState
  spec : w.coord.taskSpecCache.Extends w'.coord.taskSpecCache
  owner : w.coord.taskWorkflowMap.Extends w'.coord.taskWorkflowMap
  policy : w.coord.workflowFailurePolicy.Extends w'.coord.workflowFailurePolicy

/-- The specification reuses a stored workflow ID, or the ID of a task of
another workflow. -/
def Store.Reuses (s : Store) (wf : WorkflowSpec) : Prop :=
  wf.workflowId ∈ s.workflows ∨ ∃ t ∈ wf.taskIDs,
    (∃ r, s.taskState[t]? = some r ∧ r.workflowID ≠ wf.workflowId) ∨
    ∃ (id : String) (other : WorkflowSpec),
      s.workflows[id]? = some other ∧ id ≠ wf.workflowId ∧ t ∈ other.taskIDs

/-- `SubmitWorkflow` keeps what exists, and refuses a specification that
reuses an ID. -/
structure KeepsExisting (env : Env) (orders : DagOrders) (wf : WorkflowSpec)
    (w : World) : Prop where
  undisturbed :
    Undisturbed w ((submitWorkflow orders wf).run (Action.handle env) w).2
  refused : w.store.Reuses wf →
    ∃ e, ((submitWorkflow orders wf).run (Action.handle env) w).1 = .error e

/-- A `SubmitWorkflow` that returns an error changes neither the store nor
the memory. -/
def AllOrNothing (env : Env) (orders : DagOrders) (wf : WorkflowSpec)
    (w : World) : Prop :=
  ∀ e, ((submitWorkflow orders wf).run (Action.handle env) w).1 = .error e →
    ((submitWorkflow orders wf).run (Action.handle env) w).2.store = w.store ∧
      ((submitWorkflow orders wf).run (Action.handle env) w).2.coord = w.coord

/-- No ID of the workflow is in use, in the buckets or in the caches. -/
structure Unclaimed (wf : WorkflowSpec) (w : World) : Prop where
  fresh : w.store.Fresh wf
  workflowState : wf.workflowId ∉ w.store.workflowState
  taskState : w.store.Untouched wf
  owner : ∀ t ∈ wf.taskIDs, t ∉ w.coord.taskWorkflowMap

/-- Every task ID of the workflow is a key that the store accepts. -/
def WorkflowSpec.KeysValid (wf : WorkflowSpec) : Prop :=
  ∀ task ∈ wf.tasks, validKey task.taskId = true

instance (wf : WorkflowSpec) : Decidable wf.KeysValid :=
  inferInstanceAs (Decidable (∀ task ∈ wf.tasks, validKey task.taskId = true))

theorem WorkflowSpec.not_keysValid {wf : WorkflowSpec} (h : ¬ wf.KeysValid) :
    ∃ task ∈ wf.tasks, validKey task.taskId = false := by
  unfold KeysValid at h
  simpa using h

/-- The state record that a submission writes, if the clock reads `now`. -/
def WorkflowSpec.startedAt (wf : WorkflowSpec) (now : Int64) : WorkflowStateRecord :=
  { workflowID := wf.workflowId, state := .running, submittedAtMs := now }

/-- The entries that the first two transactions of a submission find are
absent, or those of the same workflow in its first millisecond. -/
structure Renewable (env : Env) (wf : WorkflowSpec) (w : World) : Prop where
  workflows : ∀ other, w.store.workflows[wf.workflowId]? = some other → other = wf
  workflowState : ∀ r, w.store.workflowState[wf.workflowId]? = some r →
    r = wf.startedAt (env.now (w.ticks + 1))

variable {env : Env} {orders : DagOrders} {wf : WorkflowSpec} {w w' : World}

/-! ## The three ways a submission ends -/

/-- A submission that `RefusedAtOnce` does not cover passed `ValidateAndSort`
and stores its specification. -/
theorem exists_dag_of_not_refused (h : ¬ RefusedAtOnce env orders wf) :
    ∃ dag, validateAndSort orders wf = .ok dag ∧ env.marshals wf = true ∧
      validKey wf.workflowId = true := by
  unfold RefusedAtOnce at h
  push Not at h
  obtain ⟨hdag, hm, hk⟩ := h
  cases hsort : validateAndSort orders wf with
  | error e => exact absurd hsort (hdag e)
  | ok dag => exact ⟨dag, rfl, hm, hk⟩

theorem not_refusedAtOnce (hok : (validateAndSort orders wf).isOk = true)
    (hm : env.marshals wf = true) (hk : validKey wf.workflowId = true) :
    ¬ RefusedAtOnce env orders wf := by
  rintro (⟨e, he⟩ | hno)
  · rw [he] at hok
    cases hok
  · exact hno ⟨hm, hk⟩

theorem Undisturbed.of_eq (hstore : w'.store = w.store) (hcoord : w'.coord = w.coord) :
    Undisturbed w w' := by
  constructor <;> intro k v hv
  · rw [hstore]; exact hv
  · rw [hstore]; exact hv
  · rw [hstore]; exact hv
  · rw [hcoord]; exact hv
  · rw [hcoord]; exact hv
  · rw [hcoord]; exact hv

/-- A submission that is halted after the workflow state. -/
theorem undisturbed_registered_iff {now : Int64}
    (hstore : w'.store = w.store.registered now wf) (hcoord : w'.coord = w.coord) :
    Undisturbed w w' ↔
      (∀ other, w.store.workflows[wf.workflowId]? = some other → other = wf) ∧
        ∀ r, w.store.workflowState[wf.workflowId]? = some r → r = wf.startedAt now := by
  have hw : w'.store.workflows = w.store.workflows.insert wf.workflowId wf := by
    rw [hstore]
    rfl
  have hs : w'.store.workflowState
      = w.store.workflowState.insert wf.workflowId (wf.startedAt now) := by
    rw [hstore]
    rfl
  rw [← Table.extends_insert_iff, ← Table.extends_insert_iff, ← hw, ← hs]
  constructor
  · intro h
    exact ⟨h.workflows, h.workflowState⟩
  · intro h
    refine ⟨h.1, h.2, ?_, ?_, ?_, ?_⟩ <;> intro k v hv
    · rw [hstore]; exact hv
    · rw [hcoord]; exact hv
    · rw [hcoord]; exact hv
    · rw [hcoord]; exact hv

/-- A launched workflow disturbs nothing if its IDs are not in use. -/
theorem Launched.undisturbed {dag : DAG} {roots : List String}
    (hg : Grounded [] w) (h : Launched wf dag roots w w') (hnew : Unclaimed wf w) :
    Undisturbed w w' := by
  obtain ⟨now, hstate⟩ := h.workflowState
  obtain ⟨c, hc, hcoord⟩ := h.coord
  have hid : wf.workflowId ∉ w.store.workflows := by
    intro hin
    obtain ⟨other, hother⟩ := (Table.mem_iff_get _ _).mp hin
    exact (hnew.fresh _ other hother).1 rfl
  have hcached : ∀ t ∈ wf.taskIDs, t ∉ w.coord.taskSpecCache :=
    fun t ht hin => hnew.owner t ht ((hg.memory.cached t).mp hin)
  refine ⟨?_, ?_, ?_, ?_, ?_, ?_⟩
  · rw [h.workflows, Table.extends_insert_iff, (Table.not_mem_iff_get _ _).mp hid]
    simp
  · rw [hstate, Table.extends_insert_iff,
      (Table.not_mem_iff_get _ _).mp hnew.workflowState]
    simp
  · intro t r hr
    rw [h.other t fun ht => by rw [hnew.taskState t ht] at hr; cases hr]
    exact hr
  · intro t spec hspec
    have ht : t ∉ wf.taskIDs :=
      fun ht => hcached t ht ((Table.mem_iff_get _ _).mpr ⟨spec, hspec⟩)
    rw [hcoord]
    exact (hc.spec t).trans ((if_neg ht).trans hspec)
  · intro t id hown
    have ht : t ∉ wf.taskIDs :=
      fun ht => hnew.owner t ht ((Table.mem_iff_get _ _).mpr ⟨id, hown⟩)
    rw [hcoord]
    exact (hc.owner t).trans ((if_neg ht).trans hown)
  · intro id policy hpolicy
    have hne : wf.workflowId ≠ id := by
      intro he
      subst he
      exact hid (hg.memory.policy _ ((Table.mem_iff_get _ _).mpr ⟨policy, hpolicy⟩))
    rw [hcoord]
    exact (hc.policy id).trans ((if_neg hne).trans hpolicy)

/-- A launched workflow that disturbs nothing and reuses no ID has IDs that
are not in use: what it writes names the workflow, and whatever names the
workflow already comes with its specification. -/
theorem Launched.unclaimed {dag : DAG} {roots : List String}
    (hg : Grounded [] w) (h : Launched wf dag roots w w') (hkeep : Undisturbed w w')
    (hnew : ¬ w.store.Reuses wf) : Unclaimed wf w := by
  unfold Store.Reuses at hnew
  push Not at hnew
  obtain ⟨hid, hother⟩ := hnew
  obtain ⟨now, hstate⟩ := h.workflowState
  obtain ⟨c, hc, hcoord⟩ := h.coord
  refine ⟨?_, ?_, ?_, ?_⟩
  · intro id other hwf
    have hne : id ≠ wf.workflowId := by
      intro he
      subst he
      exact hid ((Table.mem_iff_get _ _).mpr ⟨other, hwf⟩)
    exact ⟨hne, fun t ht htw => (hother t htw).2 id other hwf hne ht⟩
  · intro hin
    obtain ⟨r, hr⟩ := (Table.mem_iff_get _ _).mp hin
    have hsame := hkeep.workflowState
    rw [hstate, Table.extends_insert_iff] at hsame
    refine hid ((hg.store.tracked _ r hr).2 ?_)
    rw [hsame r hr]
  · intro t ht
    cases hr : w.store.taskState[t]? with
    | none => rfl
    | some r =>
      have hrec := (hother t ht).1 r hr
      exact absurd (hrec ▸ hg.store.owner t r hr) hid
  · intro t ht hin
    obtain ⟨id, hown⟩ := (Table.mem_iff_get _ _).mp hin
    have hsame := hkeep.owner t id hown
    rw [hcoord, show (c.enqueue roots).taskWorkflowMap = c.taskWorkflowMap from rfl,
      hc.owner, if_pos ht] at hsame
    cases hsame
    exact hid (hg.memory.owner t _ hown)

/-! ## Existing entries -/

/-- A submission keeps every existing entry, and is refused if it reuses an
ID, exactly if it is refused before its first write, or has a task ID that is
no key and would renew its own record, or uses no ID that is in use. -/
theorem keepsExisting_iff {calls : List Call} (hrun : CrashRun env calls true w)
    (orders : DagOrders) (wf : WorkflowSpec) :
    KeepsExisting env orders wf w ↔
      RefusedAtOnce env orders wf ∨ (¬ wf.KeysValid ∧ Renewable env wf w) ∨
        (wf.KeysValid ∧ Unclaimed wf w) := by
  have hg := hrun.grounded
  by_cases hnow : RefusedAtOnce env orders wf
  · obtain ⟨e, w', hsubmit, hstore, hcoord, _⟩ := run_submitWorkflow_refused hnow w
    refine iff_of_true ⟨?_, ?_⟩ (.inl hnow)
    · rw [hsubmit]
      exact .of_eq hstore hcoord
    · rw [hsubmit]
      exact fun _ => ⟨e, rfl⟩
  · obtain ⟨dag, hdag, hm, hk⟩ := exists_dag_of_not_refused hnow
    by_cases hkeys : wf.KeysValid
    · obtain ⟨w', hsubmit, hl⟩ :=
        run_submitWorkflow_launched hdag hm hk hkeys hg.store.keyed
      constructor
      · intro h
        have hkeep := h.undisturbed
        have hrefused := h.refused
        rw [hsubmit] at hkeep hrefused
        refine .inr (.inr ⟨hkeys, hl.unclaimed hg hkeep ?_⟩)
        intro hreuse
        obtain ⟨e, he⟩ := hrefused hreuse
        cases he
      · intro h
        have hnew : Unclaimed wf w := by
          rcases h with h | ⟨h, _⟩ | ⟨_, h⟩
          · exact absurd h hnow
          · exact absurd hkeys h
          · exact h
        refine ⟨by rw [hsubmit]; exact hl.undisturbed hg hnew, ?_⟩
        rintro (hin | ⟨t, ht, ⟨r, hr, _⟩ | ⟨id, other, hwf, _, hin⟩⟩)
        · obtain ⟨other, hwf⟩ := (Table.mem_iff_get _ _).mp hin
          exact absurd rfl (hnew.fresh _ other hwf).1
        · rw [hnew.taskState t ht] at hr
          cases hr
        · exact absurd ht ((hnew.fresh id other hwf).2 hin)
    · obtain ⟨e, w', hsubmit, hstore, hcoord, _⟩ :=
        run_submitWorkflow_halted hdag hm hk (WorkflowSpec.not_keysValid hkeys) w
      have hiff := undisturbed_registered_iff hstore hcoord
      constructor
      · intro h
        have hkeep := h.undisturbed
        rw [hsubmit] at hkeep
        exact .inr (.inl ⟨hkeys, (hiff.mp hkeep).1, (hiff.mp hkeep).2⟩)
      · intro h
        have hrenew : Renewable env wf w := by
          rcases h with h | ⟨_, h⟩ | ⟨h, _⟩
          · exact absurd h hnow
          · exact h
          · exact absurd h hkeys
        refine ⟨?_, ?_⟩
        · rw [hsubmit]
          exact hiff.mpr ⟨hrenew.workflows, hrenew.workflowState⟩
        · rw [hsubmit]
          exact fun _ => ⟨e, rfl⟩

/-- The first task of a workflow has been handed out. -/
def assignedRun : List Call :=
  [.submitWorkflow .asListed (.pair .failFast 1), .getReadyTask "k"]

theorem unclaimed_beside : Unclaimed .beside (runCalls .counting assignedRun) := by
  have hstored : ∀ e ∈ (runCalls .counting assignedRun).store.workflows.toList,
      e.1 ≠ "v" ∧ ∀ t ∈ e.2.taskIDs, t ∉ ["c"] := by decide
  have htasks : ∀ t ∈ WorkflowSpec.beside.taskIDs,
      (runCalls .counting assignedRun).store.taskState[t]? = none := by decide
  refine ⟨fun id other hother => ?_, by decide, htasks, by decide⟩
  obtain ⟨hid, hdisjoint⟩ :=
    hstored (id, other) ((Table.mem_toList_iff _ (id, other)).mpr hother)
  exact ⟨hid, fun t ht => hdisjoint t ht⟩

/-- Beside the running task, a workflow with other IDs keeps what exists, and the same
workflow again does not. -/
theorem keepsExisting_iff_assignedRun :
    KeepsExisting .counting .asListed .beside (runCalls .counting assignedRun) ∧
      ¬ KeepsExisting .counting .asListed (.pair .failFast 1)
        (runCalls .counting assignedRun) := by
  have hrun := crashRun_runCalls .counting assignedRun
  refine ⟨(keepsExisting_iff hrun .asListed .beside).mpr (.inr (.inr ⟨by decide,
    unclaimed_beside⟩)), fun h => ?_⟩
  rcases (keepsExisting_iff hrun .asListed (.pair .failFast 1)).mp h with
    hrefused | ⟨hkeys, _⟩ | ⟨_, hnew⟩
  · exact not_refusedAtOnce (by decide) (by decide) (by decide) hrefused
  · exact hkeys (by decide)
  · exact absurd (hnew.taskState "a" (by decide)) (by decide)

/-- The same workflow again is accepted, and its running task is queued
again. -/
theorem not_keepsExisting_assignedRun :
    ¬ KeepsExisting .counting .asListed (.pair .failFast 1)
      (runCalls .counting assignedRun) := by
  intro h
  have hkeep := h.undisturbed.taskState "a"
  revert hkeep
  decide

/-! ## Errors -/

/-- The first two transactions change nothing exactly if their entries are
there. -/
theorem registered_eq_iff {now : Int64} :
    w.store.registered now wf = w.store ↔
      w.store.workflows[wf.workflowId]? = some wf ∧
        w.store.workflowState[wf.workflowId]? = some (wf.startedAt now) := by
  constructor
  · intro h
    rw [← h]
    exact ⟨(Table.get_insert _ _ _ _).trans (if_pos rfl),
      (Table.get_insert _ _ _ _).trans (if_pos rfl)⟩
  · intro h
    obtain ⟨hwf, hstate⟩ := h
    have h₁ := Table.insert_self hwf
    have h₂ := Table.insert_self hstate
    unfold Store.registered setWorkflowState
    rw [h₁]
    exact congrArg (fun states => { w.store with workflowState := states }) h₂

/-- A failed submission leaves no trace exactly if it failed before its first
write, or no task ID can stop it, or its first two writes were there. -/
theorem allOrNothing_iff {calls : List Call} (hrun : CrashRun env calls true w)
    (orders : DagOrders) (wf : WorkflowSpec) :
    AllOrNothing env orders wf w ↔
      RefusedAtOnce env orders wf ∨ wf.KeysValid ∨
        (w.store.workflows[wf.workflowId]? = some wf ∧
          w.store.workflowState[wf.workflowId]?
            = some (wf.startedAt (env.now (w.ticks + 1)))) := by
  unfold AllOrNothing
  by_cases hnow : RefusedAtOnce env orders wf
  · obtain ⟨e, w', hsubmit, hstore, hcoord, _⟩ := run_submitWorkflow_refused hnow w
    refine iff_of_true ?_ (.inl hnow)
    rw [hsubmit]
    exact fun _ _ => ⟨hstore, hcoord⟩
  · obtain ⟨dag, hdag, hm, hk⟩ := exists_dag_of_not_refused hnow
    by_cases hkeys : wf.KeysValid
    · obtain ⟨w', hsubmit, _⟩ :=
        run_submitWorkflow_launched hdag hm hk hkeys hrun.grounded.store.keyed
      refine iff_of_true ?_ (.inr (.inl hkeys))
      rw [hsubmit]
      intro e he
      cases he
    · obtain ⟨e, w', hsubmit, hstore, hcoord, _⟩ :=
        run_submitWorkflow_halted hdag hm hk (WorkflowSpec.not_keysValid hkeys) w
      rw [hsubmit, ← registered_eq_iff]
      constructor
      · intro h
        exact .inr (.inr (hstore.symm.trans (h e rfl).1))
      · intro h e' _
        rcases h with h | h | h
        · exact absurd h hnow
        · exact absurd h hkeys
        · exact ⟨hstore.trans h, hcoord⟩

/-- A workflow whose only task has the empty ID. -/
def WorkflowSpec.unnamedTask : WorkflowSpec where
  workflowId := "w"
  tasks := [{ taskId := "" }]

/-- A workflow whose only task depends on itself. -/
def WorkflowSpec.looped : WorkflowSpec where
  workflowId := "v"
  tasks := [{ taskId := "c", dependencies := ["c"] }]

/-- Beside the running task, two submissions fail.  The one with a cycle leaves no trace,
and the one with an empty task ID leaves one. -/
theorem allOrNothing_iff_assignedRun :
    (((submitWorkflow .asListed .looped).run (Action.handle .counting)
        (runCalls .counting assignedRun)).1 = .error (.invalidDAG (.cyclicDAG "c")) ∧
      AllOrNothing .counting .asListed .looped (runCalls .counting assignedRun)) ∧
    ((submitWorkflow .asListed .unnamedTask).run (Action.handle .counting)
        (runCalls .counting assignedRun)).1 = .error (.store .keyRequired) ∧
      ¬ AllOrNothing .counting .asListed .unnamedTask (runCalls .counting assignedRun) := by
  have hrun := crashRun_runCalls .counting assignedRun
  refine ⟨⟨by decide, (allOrNothing_iff hrun .asListed .looped).mpr (.inl (.inl ⟨_, rfl⟩))⟩,
    by decide, fun h => ?_⟩
  rcases (allOrNothing_iff hrun .asListed .unnamedTask).mp h with hrefused | hkeys | ⟨hstored, _⟩
  · exact not_refusedAtOnce (by decide) (by decide) (by decide) hrefused
  · exact absurd (hkeys _ List.mem_cons_self) (by decide)
  · exact absurd hstored (by decide)

/-- `InitializeTasksForWorkflow` refuses the empty key, and the workflow stays
stored as `RUNNING`. -/
theorem not_allOrNothing_unnamedTask :
    ¬ AllOrNothing .counting .asListed .unnamedTask {} := by
  intro h
  have hstate := congrArg (fun s => s.workflowState["w"]?.isSome)
    (h (.store .keyRequired) (by decide)).1
  revert hstate
  decide

end DagScheduler
