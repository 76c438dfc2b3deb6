import DagScheduler.Properties.Outcome

/-!
# What a final failure leaves behind

`FailTask` gives a task up when its attempts are used, and the policy of the
workflow decides about the tasks that depend on it.  `FAIL_FAST` skips all
tasks of the workflow, `SKIP_DOWNSTREAM` and `CONTINUE_INDEPENDENT` those
below the failed one.  The switch of `applyFailurePolicy` has no default, and
no check of `SubmitWorkflow` looks at the value, so a workflow with any other
policy keeps waiting for a task that has failed.

* `StrandsNone` is what should hold after the failure of `t`.
* `QuietBelow` is the part of it that later calls could undo: with a policy
  that has a case, nothing below a failed task is open after any call.  A
  task below `t` never gets a worker, since `t` is not complete, so no late
  result can open it again.
-/

namespace DagScheduler

open Lib Store

/-- What the failure of the task `t` of `wf` leaves in `w'`, from `w`. -/
structure StrandsNone (wf : WorkflowSpec) (t : String) (w w' : World) : Prop where
  below : ∀ u, Ancestor wf.dependenciesOf t u → ¬ w'.store.isOpen u
  failFast : wf.failurePolicy = .failFast → w.store.stateOf t ≠ some .failed →
    w'.store.AllOver wf.workflowId ∧
      w'.store.workflowStateOf wf.workflowId = some .failed
  queue : w'.coord.readyQueue
    = w.coord.readyQueue.filter fun u => w'.store.stateOf u = w.store.stateOf u
  otherTasks : ∀ u, w.store.ownerOf u ≠ some wf.workflowId →
    w'.store.taskState[u]? = w.store.taskState[u]?
  otherWorkflows : ∀ id, id ≠ wf.workflowId →
    w'.store.workflowState[id]? = w.store.workflowState[id]?
  specs : w'.store.workflows = w.store.workflows

/-- Nothing below a failed task of the workflow is open. -/
def QuietBelow (wf : WorkflowSpec) (w : World) : Prop :=
  ∀ t u, Ancestor wf.dependenciesOf t u → w.store.stateOf t = some .failed →
    ¬ w.store.isOpen u

variable {env : Env} {P P' : WorkflowSpec → Prop} {w w' : World} {c : Call}

/-- A task with an ancestor is a task of the workflow. -/
theorem WorkflowSpec.mem_of_ancestor {wf : WorkflowSpec} {a u : String}
    (hanc : Ancestor wf.dependenciesOf a u) : u ∈ wf.taskIDs := by
  obtain ⟨d, hd⟩ := hanc.exists_dep
  by_contra hu
  rw [WorkflowSpec.dependenciesOf_of_not_mem hu] at hd
  cases hd

/-! ## Tasks that are given up -/

theorem Store.Skips.not_open {Q : String → Prop} {s s' : Store} (h : Skips Q s s')
    {u : String} (hQ : Q u) : ¬ s'.isOpen u := by
  intro hopen
  obtain ⟨r', hr', hterm⟩ := hopen
  rcases h.cases u with heq | ⟨r, now, _, _, _, hget⟩
  · rw [heq] at hr'
    obtain ⟨now, hget⟩ := h.hit u r' hr' hQ hterm
    rw [heq, hr'] at hget
    have hst := congrArg TaskStateRecord.state (Option.some.inj hget)
    rw [hst] at hterm
    cases hterm
  · rw [hget] at hr'
    cases hr'
    cases hterm

/-- The queue after tasks were given up: those whose state has not changed. -/
theorem GivesUp.queue {Q : String → Prop} {s s' : Store} {c c' : Coordinator}
    (h : GivesUp Q s c s' c') (hqueued : ∀ u ∈ c.readyQueue, s.stateOf u = some .queued) :
    c'.readyQueue = c.readyQueue.filter fun u => s'.stateOf u = s.stateOf u := by
  obtain ⟨gone, hgone, rfl⟩ := h.coord
  rw [Coordinator.dropFromQueue]
  apply List.filter_congr
  intro u hu
  obtain ⟨r, hr, hst⟩ := stateOf_eq_some.mp (hqueued u hu)
  have hopen : r.state.terminal = false := by
    rw [hst]
    rfl
  rw [decide_eq_decide, hgone]
  by_cases hQ : Q u
  · obtain ⟨now, hget⟩ := h.store.hit u r hr hQ hopen
    rw [stateOf_of_get hget, stateOf_of_get hr, hst]
    simp [hQ, isOpen, hr, hopen]
  · rw [stateOf, h.store.miss u r hr fun hc => hQ hc.1, stateOf_of_get hr]
    simp [hQ]

/-! ## One call of `FailTask` -/

/-- A task below `a` gets no worker before `a` is complete. -/
theorem Inv.complete_above (h : Inv P w) {a u e : String}
    (hu : w.coord.assignedTasks[u]? = some e) (hanc : Ancestor w.store.depsOf a u) :
    w.store.isComplete a = true := by
  obtain ⟨_, _, _, _, hdeps, _⟩ := h.agree.assigned u e hu
  cases hanc with
  | single hd => exact hdeps a hd
  | @tail d _ hanc hd =>
    obtain ⟨r, hr, hst⟩ := isComplete_iff.mp (hdeps d hd)
    exact h.sound.coherent.counted.ancestor_complete hanc r hr (by rw [hst]; rfl)

namespace PolicyEffect

variable {id t : String} {s : Store} {c : Coordinator} {policy : FailurePolicy}

/-- The tasks whose state the policy changes leave the queue. -/
theorem queue (h : PolicyEffect id t s c w' policy)
    (hqueued : ∀ u ∈ c.readyQueue, s.stateOf u = some .queued) :
    w'.coord.readyQueue
      = c.readyQueue.filter fun u => w'.store.stateOf u = s.stateOf u := by
  cases h with
  | failFast hg hclose =>
    simp only [stateOf, hclose.taskState]
    exact hg.queue hqueued
  | below _ hg hchk =>
    simp only [stateOf, hchk.taskState]
    exact hg.queue hqueued
  | unrecognized hstore hcoord =>
    rw [hstore, hcoord]
    exact (List.filter_eq_self.mpr (by simp)).symm

/-- A policy that has a case leaves nothing open below the failed task. -/
theorem not_open (h : PolicyEffect id t s c w' policy) (hnamed : policy.named = true)
    {u : String} (hown : s.ownerOf u = some id) (hanc : Ancestor s.depsOf t u) :
    ¬ w'.store.isOpen u := by
  cases h with
  | failFast hg hclose =>
    unfold isOpen
    rw [hclose.taskState]
    exact hg.store.not_open hown
  | below _ hg hchk =>
    unfold isOpen
    rw [hchk.taskState]
    exact hg.store.not_open hanc
  | unrecognized _ _ => cases hnamed

/-- A policy without a case changes nothing. -/
theorem store_of_unrecognized (h : PolicyEffect id t s c w' policy)
    (hnamed : policy.named = false) : w'.store = s := by
  cases h with
  | failFast _ _ => cases hnamed
  | below hpolicy _ _ => rcases hpolicy with rfl | rfl <;> cases hnamed
  | unrecognized hstore _ => exact hstore

theorem ended_of_failFast (h : PolicyEffect id t s c w' .failFast) :
    w'.store.AllOver id ∧ w'.store.workflowStateOf id = some .failed := by
  cases h with
  | failFast hg hclose =>
    obtain ⟨r, hr, _, hst⟩ := hclose.this
    refine ⟨?_, by rw [workflowStateOf, hr, Option.map_some, hst]⟩
    intro u ru hru hown
    rw [hclose.taskState] at hru
    have hbefore : s.ownerOf u = some id := by
      rw [← hg.store.sameShape.ownerOf, ownerOf_of_get hru, hown]
    rw [← Bool.not_eq_false]
    exact fun hopen => hg.store.not_open hbefore ⟨ru, hru, hopen⟩
  | below hpolicy _ _ => simp at hpolicy

end PolicyEffect

section Call

variable {t e errMsg : String} {result : Except CallError Unit} {wf : WorkflowSpec}
  (h : Inv P w) (heff : FailEffect env w t e errMsg result w')
  (hold : w.store.Holds wf) (ht : t ∈ wf.taskIDs)
  (hfailed : w'.store.stateOf t = some .failed)
include h heff hold ht hfailed

/-- A call that leaves `t` failed was refused, or the policy of the workflow
was applied to the failure. -/
theorem FailEffect.final :
    w' = w ∨ ∃ (r r' : TaskStateRecord), w.store.taskState[t]? = some r ∧
      r'.shape = r.shape ∧ r'.state = .failed ∧ w.coord.assignedTasks[t]? = some e ∧
      PolicyEffect wf.workflowId t (w.store.setTask t r') (w.coord.forget t) w'
        wf.failurePolicy := by
  cases heff with
  | stale _ => exact .inl rfl
  | retried _ _ _ hstore _ _ =>
    rw [hstore, Store.stateOf_setTask, if_pos rfl] at hfailed
    cases hfailed
  | @failed r wf' now _ ha hr _ hwf hpol _ =>
    have hid := h.sound.coherent.linked.owner_eq hold.spec ht hr
    rw [hid, hold.spec] at hwf
    cases hwf
    refine .inr ⟨r, { r with
      state := .failed, error := errMsg, attemptCount := r.attemptCount + 1,
      lastUpdated := now }, hr, rfl, rfl, ha, ?_⟩
    rw [← hid]
    exact hpol

theorem FailEffect.queue_of_failed : w'.coord.readyQueue
    = w.coord.readyQueue.filter fun u => w'.store.stateOf u = w.store.stateOf u := by
  rcases heff.final h hold ht hfailed with rfl | ⟨r, r', hr, _, _, ha, hpol⟩
  · exact (List.filter_eq_self.mpr (by simp)).symm
  · -- The failed task has a worker, so it is not in the queue.
    have hsame : ∀ u ∈ w.coord.readyQueue,
        (w.store.setTask t r').stateOf u = w.store.stateOf u := by
      intro u hu
      have hne : t ≠ u := by
        rintro rfl
        have hq := h.agree.queued t hu
        rw [stateOf_of_get hr] at hq
        rcases h.state_of_assigned ha hr with hst | hst <;> simp [hst] at hq
      rw [stateOf_setTask, if_neg hne]
    refine (hpol.queue fun u hu => ?_).trans (List.filter_congr fun u hu => ?_)
    · rw [hsame u hu]
      exact h.agree.queued u hu
    · rw [hsame u hu]

/-- A policy that has a case leaves nothing open below a task that fails. -/
theorem FailEffect.not_open_below (hnamed : wf.failurePolicy.named = true)
    (hnew : w' ≠ w) {u : String} (hanc : Ancestor wf.dependenciesOf t u) :
    ¬ w'.store.isOpen u := by
  have hl := h.sound.coherent.linked
  have hu := WorkflowSpec.mem_of_ancestor hanc
  rcases heff.final h hold ht hfailed with rfl | ⟨r, r', hr, hsame, _, _, hpol⟩
  · exact absurd rfl hnew
  · have hshape := sameShape_setTask hr hsame
    refine hpol.not_open hnamed ?_ ?_
    · rw [hshape.ownerOf]
      exact hold.owner u hu
    · rw [hshape.depsOf]
      exact (hold.ancestor_iff hl hu).mpr hanc

/-- A policy without a case leaves the other tasks as they are. -/
theorem FailEffect.open_iff_of_unrecognized (hnot : wf.failurePolicy.named = false)
    {u : String} (hne : t ≠ u) : w'.store.isOpen u ↔ w.store.isOpen u := by
  rcases heff.final h hold ht hfailed with rfl | ⟨_, _, _, _, _, _, hpol⟩
  · exact Iff.rfl
  · rw [hpol.store_of_unrecognized hnot, isOpen, isOpen, get_setTask, if_neg hne]

/-- The other parts of `StrandsNone` hold under every policy. -/
theorem FailEffect.strandsNone
    (hbelow : ∀ u, Ancestor wf.dependenciesOf t u → ¬ w'.store.isOpen u) :
    StrandsNone wf t w w' := by
  have heffect : Effect env w (.failTask t e errMsg) (.status result) w' := .failTask heff
  refine ⟨hbelow, ?_, heff.queue_of_failed h hold ht hfailed, ?_, ?_,
    heffect.workflows rfl⟩
  · intro hff hnew
    rcases heff.final h hold ht hfailed with rfl | ⟨_, _, _, _, _, _, hpol⟩
    · exact absurd hfailed hnew
    · rw [hff] at hpol
      exact hpol.ended_of_failFast
  · intro u hother
    have hstep := heff.task h (t := u)
    generalize ho : w.store.taskState[u]? = o at hstep
    generalize w'.store.taskState[u]? = o' at hstep
    cases hstep with
    | same => rfl
    | retried _ _ _ => exact absurd (hold.owner t ht) hother
    | failed _ _ => exact absurd (hold.owner t ht) hother
    | skippedBelow _ _ _ _ hown _ _ =>
      rw [hold.owner t ht] at hown
      exact absurd ((ownerOf_of_get ho).trans hown.symm) hother
  · intro id hid
    rcases heffect.workflowRecord id with heq | ⟨_, _, hwrite⟩
    · exact heq
    · cases hwrite with
      | failed _ hr hown _ _ _ =>
        have howner := h.sound.coherent.linked.owner_eq hold.spec ht hr
        exact absurd (hown.symm.trans howner) hid

end Call

/-! ## Runs -/

theorem QuietBelow.step {wf : WorkflowSpec} (hquiet : QuietBelow wf w) (h : Inv P w)
    (hadm : c.Admissible P' w) {reply : Reply} (heff : Effect env w c reply w')
    (hold : w.store.Holds wf) (hnamed : wf.failurePolicy.named = true) :
    QuietBelow wf w' := by
  intro t u hanc hfailed
  have hs := h.sound.coherent
  have hu := WorkflowSpec.mem_of_ancestor hanc
  have hstep := heff.task h hadm
  by_cases hbefore : w.store.stateOf t = some .failed
  · -- What is below `t` is over and has no worker, so its record stays.
    intro hopen
    obtain ⟨r, hr, _⟩ := ownerOf_eq_some.mp (hold.owner u hu)
    have hterm : r.state.terminal = true := by
      rw [← Bool.not_eq_false]
      exact fun ho => hquiet t u hanc hbefore ⟨r, hr, ho⟩
    have hkept := hstep u
    rw [hr] at hkept
    have heq := hkept.eq_of_terminal h hterm fun e he => ?_
    · obtain ⟨r', hr', hopen'⟩ := hopen
      rw [heq] at hr'
      cases hr'
      rw [hterm] at hopen'
      cases hopen'
    · have hdone := h.complete_above he ((hold.ancestor_iff hs.linked hu).mpr hanc)
      rw [isComplete, hbefore] at hdone
      simp at hdone
  · rcases (hstep t).failed_back hfailed with hbad | ⟨e, errMsg, rfl, _⟩
    · exact absurd hbad hbefore
    · have ht := (hs.linked.workflow _ _ hold.spec).2.2.ancestor_mem hanc
      have hnew : w' ≠ w := by
        rintro rfl
        exact hbefore hfailed
      cases heff with
      | failTask heff => exact heff.not_open_below h hold ht hfailed hnamed hnew hanc

theorem Launched.quietBelow {wf : WorkflowSpec} {dag : DAG} {roots : List String}
    (hla : Launched wf dag roots w w') : QuietBelow wf w' := by
  intro t u hanc hfailed
  rw [hla.stateOf (hla.wellFormed.ancestor_mem hanc)] at hfailed
  split at hfailed <;> cases hfailed

/-- The run lemma. -/
theorem quietBelow_runCalls (env : Env) {calls : List Call} {wf : WorkflowSpec}
    (hids : NeverReused (submitted calls)) (hacc : AcceptedIn env calls wf)
    (hnamed : wf.failurePolicy.named = true) : QuietBelow wf (runCalls env calls) := by
  refine (hacc.induction (I := fun w => w.store.Holds wf ∧ QuietBelow wf w) ?_ ?_ hids).2
  · intro P dag roots w w' hla _
    exact ⟨hla.holds, hla.quietBelow⟩
  · intro P P' c reply w w' h hadm heff hw
    exact ⟨hw.1.step h hadm heff, hw.2.step h hadm heff hw.1 hnamed⟩

/-- After every run that reuses no ID, a `FailTask` that leaves a task of an
accepted workflow failed strands none of its dependents, unless the policy of
the workflow has no case and one of them was open. -/
theorem failure_strandsNone_iff (env : Env) {calls : List Call} {wf : WorkflowSpec}
    {t e errMsg : String} (hids : NeverReused (submitted calls))
    (hacc : AcceptedIn env calls wf) (ht : t ∈ wf.taskIDs)
    (hfailed : (runCalls env (calls ++ [.failTask t e errMsg])).store.stateOf t
      = some .failed) :
    StrandsNone wf t (runCalls env calls)
        (runCalls env (calls ++ [.failTask t e errMsg])) ↔
      wf.failurePolicy.named = true ∨
        ∀ u, Ancestor wf.dependenciesOf t u → ¬ (runCalls env calls).store.isOpen u := by
  have hids' : NeverReused (submitted (calls ++ [.failTask t e errMsg])) := by
    rw [submitted_append]
    simpa [Call.submits] using hids
  have h := inv_runCalls env hids
  have hold := hacc.stored hids
  have hacc' : AcceptedIn env (calls ++ [.failTask t e errMsg]) wf := by
    obtain ⟨orders, reply, hmem, hnil⟩ := hacc
    refine ⟨orders, reply, ?_, hnil⟩
    rw [history_append]
    exact List.mem_append_left _ hmem
  have heffect := effect_runCalls env hids'
  have hquiet := fun hnamed => quietBelow_runCalls env hids' hacc' hnamed
  generalize ((Call.failTask t e errMsg).exec env (runCalls env calls)).1 = reply at heffect
  generalize runCalls env (calls ++ [.failTask t e errMsg]) = w' at *
  cases heffect with
  | failTask heff =>
    cases hnamed : wf.failurePolicy.named with
    | true =>
      refine ⟨fun _ => .inl rfl, fun _ => ?_⟩
      exact heff.strandsNone h hold ht hfailed
        fun u hanc => hquiet hnamed t u hanc hfailed
    | false =>
      have hopen : ∀ u, Ancestor wf.dependenciesOf t u →
          (w'.store.isOpen u ↔ (runCalls env calls).store.isOpen u) := by
        intro u hanc
        apply heff.open_iff_of_unrecognized h hold ht hfailed hnamed
        rintro rfl
        have hwell := (h.sound.coherent.linked.workflow _ _ hold.spec).2.2
        exact Ancestor.irrefl (hwell.ends t) hanc
      constructor
      · intro hnone
        exact .inr fun u hanc hu => hnone.below u hanc ((hopen u hanc).mpr hu)
      · intro hwhy
        have hclosed := hwhy.resolve_left (by simp)
        exact heff.strandsNone h hold ht hfailed
          fun u hanc hu => hclosed u hanc ((hopen u hanc).mp hu)

/-- The first task of a workflow fails for good, and the second depends on
it. -/
def lastFailureRun (policy : FailurePolicy) : List Call :=
  [.submitWorkflow .asListed (.pair policy 1), .getReadyTask "k"]

theorem failure_strandsNone_iff_failFast :
    StrandsNone (.pair .failFast 1) "a" (runCalls .counting (lastFailureRun .failFast))
      (runCalls .counting (lastFailureRun .failFast ++ [.failTask "a" "x" "boom"])) :=
  (failure_strandsNone_iff .counting (neverReused_of_one rfl)
    ⟨.asListed, .status (.ok ()), List.mem_cons_self, rfl⟩ (by decide) (by decide)).mpr
    (.inl rfl)

/-- The policy value 3 has no case in the switch, and the second task waits for
ever. -/
theorem not_strandsNone_unrecognized :
    (runCalls .counting (lastFailureRun (.unrecognized 3 (by decide)) ++
      [.failTask "a" "x" "boom"])).store.stateOf "a" = some .failed ∧
    ¬ StrandsNone (.pair (.unrecognized 3 (by decide)) 1) "a"
      (runCalls .counting (lastFailureRun (.unrecognized 3 (by decide))))
      (runCalls .counting (lastFailureRun (.unrecognized 3 (by decide)) ++
        [.failTask "a" "x" "boom"])) := by
  refine ⟨by decide, fun h => ?_⟩
  have hpending : (runCalls .counting (lastFailureRun (.unrecognized 3 (by decide)) ++
      [.failTask "a" "x" "boom"])).store.stateOf "b" = some .pending := by decide
  obtain ⟨r, hr, hst⟩ := stateOf_eq_some.mp hpending
  have hdep : "a" ∈ (WorkflowSpec.pair (.unrecognized 3 (by decide)) 1).dependenciesOf "b" := by
    decide
  exact h.below "b" (.single hdep) ⟨r, hr, by rw [hst]; rfl⟩

end DagScheduler
