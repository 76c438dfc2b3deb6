import DagScheduler.Properties.Progress

/-!
# The outcome does not depend on the schedule

Under `SKIP_DOWNSTREAM` and `CONTINUE_INDEPENDENT` a failure reaches exactly
the tasks that depend on the failed one.  `Contained` states this for one
workflow: a skipped task has a failed ancestor, everything below a failed
task is skipped, and the stored state of the workflow is `COMPLETE` or
`FAILED` only when the tasks say so.  It holds from the submission on, as
long as nobody cancels the workflow.

When no task of the workflow is queued or running, the workflow cannot be
`RUNNING` (`Live.exists_active`), so all its tasks are over.  The lemmas on
`Lib.Settled` then read every state off the verdicts, whatever the order of
the calls was.
-/

namespace DagScheduler

open Lib Store

/-- How the work of a task ends, fixed in advance. -/
inductive Verdict where
  | succeed
  | fail
deriving DecidableEq, Repr

theorem Verdict.ne_succeed {v : Verdict} : v ≠ .succeed ↔ v = .fail := by
  cases v <;> simp

/-- Only tasks that are meant to succeed are complete, and only tasks that
are meant to fail have failed. -/
structure Store.Obeys (s : Store) (wf : WorkflowSpec) (v : String → Verdict) : Prop where
  complete : ∀ t ∈ wf.taskIDs, s.stateOf t = some .complete → v t = .succeed
  failed : ∀ t ∈ wf.taskIDs, s.stateOf t = some .failed → v t = .fail

/-- The states of the tasks and of the workflow are those that the verdicts
ask for. -/
structure Store.Decided (s : Store) (wf : WorkflowSpec) (v : String → Verdict) :
    Prop where
  skipped : ∀ t ∈ wf.taskIDs, s.stateOf t = some .skipped ↔
    ∃ a, Ancestor wf.dependenciesOf a t ∧ v a = .fail
  failed : ∀ t ∈ wf.taskIDs, s.stateOf t = some .failed ↔
    v t = .fail ∧ ¬ ∃ a, Ancestor wf.dependenciesOf a t ∧ v a = .fail
  complete : ∀ t ∈ wf.taskIDs, s.stateOf t = some .complete ↔
    v t = .succeed ∧ ¬ ∃ a, Ancestor wf.dependenciesOf a t ∧ v a = .fail
  workflowFailed : s.workflowStateOf wf.workflowId = some .failed ↔
    ∃ t ∈ wf.taskIDs, v t = .fail
  workflowComplete : s.workflowStateOf wf.workflowId = some .complete ↔
    ¬ ∃ t ∈ wf.taskIDs, v t = .fail

/-- The stored state of a workflow that nobody cancels agrees with the states
of its tasks. -/
inductive Store.Concluded (s : Store) (id : String) : Prop where
  | running : s.workflowStateOf id = some .running → Concluded s id
  | complete : s.workflowStateOf id = some .complete → s.AllOver id →
      ¬ s.SomeFailed id → Concluded s id
  | failed : s.workflowStateOf id = some .failed → s.AllOver id →
      s.SomeFailed id → Concluded s id

/-- A failure in `wf` has reached what depends on it, and nothing else. -/
structure Contained (wf : WorkflowSpec) (w : World) : Prop where
  blamed : ∀ t ∈ wf.taskIDs, w.store.stateOf t = some .skipped →
    ∃ a, Ancestor wf.dependenciesOf a t ∧ w.store.stateOf a = some .failed
  spread : ∀ t ∈ wf.taskIDs, ∀ a, Ancestor wf.dependenciesOf a t →
    w.store.stateOf a = some .failed → w.store.stateOf t = some .skipped
  executing : ∀ t ∈ wf.taskIDs, ∀ e, w.coord.assignedTasks[t]? = some e →
    w.store.stateOf t = some .running
  concluded : w.store.Concluded wf.workflowId

/-! ## The tasks of a stored workflow -/

namespace Store.Holds

variable {s : Store} {wf : WorkflowSpec} (hold : s.Holds wf) (hl : s.Linked)
include hold hl

theorem depsOf {t : String} (ht : t ∈ wf.taskIDs) : s.depsOf t = wf.dependenciesOf t := by
  obtain ⟨r, hr, _⟩ := ownerOf_eq_some.mp (hold.owner t ht)
  exact hl.depsOf_eq hold.spec ht hr

/-- The ancestors of a task can be read off the specification. -/
theorem ancestor_iff {a t : String} (ht : t ∈ wf.taskIDs) :
    Ancestor s.depsOf a t ↔ Ancestor wf.dependenciesOf a t := by
  have hclosed := (hl.workflow _ _ hold.spec).2.2.closed
  constructor
  · apply Ancestor.congr (N := (· ∈ wf.taskIDs)) _ _ ht
    · intro u hu d hd
      rw [hold.depsOf hl hu] at hd
      exact hclosed u d hd
    · exact fun u hu => (hold.depsOf hl hu).symm
  · exact Ancestor.congr (N := (· ∈ wf.taskIDs)) (fun u _ d hd => hclosed u d hd)
      (fun u hu => hold.depsOf hl hu) ht

/-- A failed task of the workflow is a failed task of its list. -/
theorem someFailed_iff :
    s.SomeFailed wf.workflowId ↔ ∃ t, t ∈ wf.taskIDs ∧ s.stateOf t = some .failed := by
  constructor
  · intro h
    obtain ⟨t, r, hr, hown, hst⟩ := h
    exact ⟨t, (hold.mem_taskIDs hl).mp (ownerOf_eq_some.mpr ⟨r, hr, hown⟩),
      stateOf_eq_some.mpr ⟨r, hr, hst⟩⟩
  · intro h
    obtain ⟨t, ht, hst⟩ := h
    obtain ⟨r, hr, hfailed⟩ := stateOf_eq_some.mp hst
    have hown := hold.owner t ht
    rw [ownerOf_of_get hr] at hown
    exact ⟨t, r, hr, Option.some.inj hown, hfailed⟩

end Store.Holds

/-- An ancestor in an accepted workflow is one of its tasks. -/
theorem WorkflowSpec.WellFormed.ancestor_mem {wf : WorkflowSpec} (h : wf.WellFormed)
    {a t : String} (hanc : Ancestor wf.dependenciesOf a t) : a ∈ wf.taskIDs := by
  induction hanc with
  | single hd => exact h.closed _ _ hd
  | tail _ _ ih => exact ih

/-! ## One call -/

variable {env : Env} {P P' : WorkflowSpec → Prop} {w w' : World} {c : Call}

/-- A new workflow has no failure. -/
theorem Launched.contained {wf : WorkflowSpec} {dag : DAG} {roots : List String}
    (hla : Launched wf dag roots w w') (h' : Inv P w') : Contained wf w' := by
  have hstate : ∀ t ∈ wf.taskIDs, w'.store.stateOf t = some .queued ∨
      w'.store.stateOf t = some .pending := by
    intro t ht
    rw [hla.stateOf ht]
    split
    · exact .inl rfl
    · exact .inr rfl
  refine ⟨?_, ?_, ?_, ?_⟩
  · intro t ht hst
    rcases hstate t ht with hx | hx <;> rw [hx] at hst <;> cases hst
  · intro t _ a hanc hst
    rcases hstate a (hla.wellFormed.ancestor_mem hanc) with hx | hx <;>
      rw [hx] at hst <;> cases hst
  · intro t ht e ha
    obtain ⟨r, hr, _, hst, _⟩ := h'.agree.assigned t e ha
    have hx := hstate t ht
    rw [stateOf_of_get hr] at hx
    rcases hst with hst | hst <;> simp [hst] at hx
  · obtain ⟨now, hstates⟩ := hla.workflowState
    apply Store.Concluded.running
    rw [workflowStateOf, hstates, Table.get_insert, if_pos rfl]
    rfl

/-- Only the failure of an ancestor skips a task of the workflow. -/
theorem Store.Holds.skipped_below {wf : WorkflowSpec} (hold : w.store.Holds wf)
    (hl : w.store.Linked)
    (hpolicy : wf.failurePolicy = .skipDownstream ∨
      wf.failurePolicy = .continueIndependent)
    (hcancel : c ≠ .cancelWorkflow wf.workflowId) {t : String} (ht : t ∈ wf.taskIDs)
    (hskip : SkipsTask w w' t c) :
    ∃ u e, Ancestor wf.dependenciesOf u t ∧ w.coord.assignedTasks[u]? = some e ∧
      w'.store.stateOf u = some .failed := by
  cases hskip with
  | below ha hf _ hown hwf hwhy =>
    rw [hold.owner t ht] at hown
    cases hown
    rw [hold.spec] at hwf
    cases hwf
    have hanc := hwhy.resolve_left (by rcases hpolicy with hp | hp <;> simp [hp])
    exact ⟨_, _, (hold.ancestor_iff hl ht).mp hanc, ha, hf⟩
  | cancelled hown =>
    rw [hold.owner t ht] at hown
    cases hown
    exact absurd rfl hcancel

section Steps

variable {wf : WorkflowSpec} (hcont : Contained wf w) (h : Inv P w)
  (hadm : c.Admissible P' w) {reply : Reply} (heff : Effect env w c reply w')
include hcont h hadm heff

/-- A task of the workflow that is over keeps its record. -/
theorem Contained.kept {t : String} (ht : t ∈ wf.taskIDs) {r : TaskStateRecord}
    (hr : w.store.taskState[t]? = some r) (hterm : r.state.terminal = true) :
    w'.store.taskState[t]? = some r := by
  have hstep := heff.task h hadm t
  rw [hr] at hstep
  apply hstep.eq_of_terminal h hterm
  intro e ha
  have hrun := hcont.executing t ht e ha
  rw [stateOf_of_get hr] at hrun
  rw [Option.some.inj hrun] at hterm
  cases hterm

theorem Contained.stateOf_kept {t : String} (ht : t ∈ wf.taskIDs) {st : TaskState}
    (hst : w.store.stateOf t = some st) (hterm : st.terminal = true) :
    w'.store.stateOf t = some st := by
  obtain ⟨r, hr, hrst⟩ := stateOf_eq_some.mp hst
  exact stateOf_eq_some.mpr
    ⟨r, hcont.kept h hadm heff ht hr (by rw [hrst]; exact hterm), hrst⟩

variable (hold : w.store.Holds wf)
  (hpolicy : wf.failurePolicy = .skipDownstream ∨ wf.failurePolicy = .continueIndependent)
include hold hpolicy

/-- The tasks below a task that has just failed. -/
theorem Contained.spread_step {a e errMsg : String} (hcall : c = .failTask a e errMsg)
    (ha : w.coord.assignedTasks[a]? = some e) (hf : w'.store.stateOf a = some .failed)
    {t : String} (ht : t ∈ wf.taskIDs) (hanc : Ancestor wf.dependenciesOf a t) :
    w'.store.stateOf t = some .skipped := by
  subst hcall
  have hs := h.sound.coherent
  have hin := (hs.linked.workflow _ _ hold.spec).2.2.ancestor_mem hanc
  have hanc' := (hold.ancestor_iff hs.linked ht).mpr hanc
  obtain ⟨ra, hra, hst⟩ := stateOf_eq_some.mp (hcont.executing a hin e ha)
  have hid : ra.workflowID = wf.workflowId := hs.linked.owner_eq hold.spec hin hra
  obtain ⟨rt, hrt, _⟩ := ownerOf_eq_some.mp (hold.owner t ht)
  -- As `a` is not complete, `t` is waiting or skipped.
  have hblocked : rt.state.unblocked = false := by
    rw [← Bool.not_eq_true]
    intro hu
    obtain ⟨r, hr, hcomplete⟩ :=
      isComplete_iff.mp (hs.counted.ancestor_complete hanc' rt hrt hu)
    rw [hra] at hr
    cases hr
    rw [hst] at hcomplete
    cases hcomplete
  have hat : a ≠ t := by
    rintro rfl
    rw [hra] at hrt
    cases hrt
    rw [hst] at hblocked
    cases hblocked
  cases hstate : rt.state with
  | unknown => exact absurd hstate (hs.counted.known t rt hrt)
  | skipped =>
    exact hcont.stateOf_kept h hadm heff ht (stateOf_eq_some.mpr ⟨rt, hrt, hstate⟩) rfl
  | pending =>
    cases heff with
    | failTask heff =>
      exact heff.skips_below ha hra (by rw [hid]; exact hold.spec) hpolicy hf hat hanc'
        ⟨rt, hrt, by rw [hstate]; rfl⟩
  | queued | running | complete | failed =>
    rw [hstate] at hblocked
    cases hblocked

variable (hcancel : c ≠ .cancelWorkflow wf.workflowId)
include hcancel

/-- What is stored about the workflow stays right. -/
theorem Contained.concluded_step (hl' : w'.store.Linked) (hold' : w'.store.Holds wf) :
    w'.store.Concluded wf.workflowId := by
  have hl := h.sound.coherent.linked
  have hover : w.store.AllOver wf.workflowId → w'.store.AllOver wf.workflowId := by
    intro hall t r' hr' hown
    have ht := (hold'.mem_taskIDs hl').mp (ownerOf_eq_some.mpr ⟨r', hr', hown⟩)
    obtain ⟨r, hr, hid⟩ := ownerOf_eq_some.mp (hold.owner t ht)
    have hterm := hall t r hr hid
    rw [hcont.kept h hadm heff ht hr hterm] at hr'
    cases hr'
    exact hterm
  have hfailed : w.store.AllOver wf.workflowId →
      (w'.store.SomeFailed wf.workflowId ↔ w.store.SomeFailed wf.workflowId) := by
    intro hall
    rw [hold.someFailed_iff hl, hold'.someFailed_iff hl']
    refine exists_congr fun t => and_congr_right fun ht => ?_
    obtain ⟨r, hr, hid⟩ := ownerOf_eq_some.mp (hold.owner t ht)
    rw [stateOf_of_get hr,
      stateOf_of_get (hcont.kept h hadm heff ht hr (hall t r hr hid))]
  have hstep := heff.workflow wf.workflowId
  generalize ho : w.store.workflowStateOf wf.workflowId = o at hstep
  generalize ho' : w'.store.workflowStateOf wf.workflowId = o' at hstep
  cases hstep with
  | same =>
    cases hcont.concluded with
    | running hrun => exact .running (by rw [ho', ← ho, hrun])
    | complete hcomp hall hnone =>
      exact .complete (by rw [ho', ← ho, hcomp]) (hover hall)
        fun hsome => hnone ((hfailed hall).mp hsome)
    | failed hfail hall hsome =>
      exact .failed (by rw [ho', ← ho, hfail]) (hover hall) ((hfailed hall).mpr hsome)
  | started hid => exact absurd hid.symm ((hadm _ rfl).2 _ _ hold.spec).1
  | completed hall hnone => exact .complete ho' hall hnone
  | failed hall hsome => exact .failed ho' hall hsome
  | stopped _ hwf hff =>
    rw [hold.spec] at hwf
    cases hwf
    rcases hpolicy with hp | hp <;> rw [hp] at hff <;> cases hff
  | cancelled => exact absurd rfl hcancel

/-- The step lemma. -/
theorem Contained.step (h' : Inv P' w') : Contained wf w' := by
  have hs := h.sound.coherent
  have hwell := (hs.linked.workflow _ _ hold.spec).2.2
  have hstep := heff.task h hadm
  refine ⟨?_, ?_, ?_, ?_⟩
  · intro t ht hst
    rcases (hstep t).skipped_back hst with hskipped | ⟨_, hskip⟩
    · obtain ⟨a, hanc, hf⟩ := hcont.blamed t ht hskipped
      exact ⟨a, hanc,
        hcont.stateOf_kept h hadm heff (hwell.ancestor_mem hanc) hf rfl⟩
    · obtain ⟨u, _, hanc, _, hf⟩ :=
        hold.skipped_below hs.linked hpolicy hcancel ht hskip
      exact ⟨u, hanc, hf⟩
  · intro t ht a hanc hf
    rcases (hstep a).failed_back hf with hfailed | ⟨e, errMsg, hcall, ha⟩
    · exact hcont.stateOf_kept h hadm heff ht (hcont.spread t ht a hanc hfailed) rfl
    · exact hcont.spread_step h hadm heff hold hpolicy hcall ha hf ht hanc
  · intro t ht e ha'
    rcases heff.assigned_back h ha' with ha | ⟨_, _, hrun, _⟩
    · obtain ⟨r', hr', _, hrunning | hskipped, _⟩ := h'.agree.assigned t e ha'
      · exact stateOf_eq_some.mpr ⟨r', hr', hrunning⟩
      · have hrun := hcont.executing t ht e ha
        rcases (hstep t).skipped_back (stateOf_eq_some.mpr ⟨r', hr', hskipped⟩) with
          hold' | ⟨_, hskip⟩
        · rw [hrun] at hold'
          cases hold'
        · -- A running task has no ancestor that still runs.
          obtain ⟨u, eu, hanc, hau, _⟩ :=
            hold.skipped_below hs.linked hpolicy hcancel ht hskip
          obtain ⟨rt, hrt, hst⟩ := stateOf_eq_some.mp hrun
          have hdone := hs.counted.ancestor_complete
            ((hold.ancestor_iff hs.linked ht).mpr hanc) rt hrt (by rw [hst]; rfl)
          rw [isComplete, hcont.executing u (hwell.ancestor_mem hanc) eu hau] at hdone
          simp at hdone
    · exact hrun
  · exact hcont.concluded_step h hadm heff hold hpolicy hcancel h'.sound.coherent.linked
      (hold.step h hadm heff)

end Steps

/-! ## Runs -/

/-- The run lemma: an accepted workflow stays contained while nobody cancels
it. -/
theorem contained_runCalls (env : Env) {pre post : List Call} {orders : DagOrders}
    {wf : WorkflowSpec}
    (hids : NeverReused (submitted (pre ++ [Call.submitWorkflow orders wf] ++ post)))
    (hacc : ((Call.submitWorkflow orders wf).exec env (runCalls env pre)).1.isNil = true)
    (hpolicy : wf.failurePolicy = .skipDownstream ∨
      wf.failurePolicy = .continueIndependent)
    (hcancel : .cancelWorkflow wf.workflowId ∉ post) :
    (runCalls env (pre ++ [Call.submitWorkflow orders wf] ++ post)).store.Holds wf ∧
      Contained wf (runCalls env (pre ++ [Call.submitWorkflow orders wf] ++ post)) := by
  induction post using List.reverseRecOn with
  | nil =>
    rw [List.append_nil] at hids ⊢
    obtain ⟨dag, roots, hl⟩ := (effect_runCalls env hids).launched hacc
    exact ⟨hl.holds, hl.contained (inv_runCalls env hids)⟩
  | append_singleton post c ih =>
    rw [← List.append_assoc] at hids ⊢
    rw [List.mem_append, not_or, List.mem_singleton] at hcancel
    have h := inv_runCalls env hids.of_append
    obtain ⟨hold, hcont⟩ := ih hids.of_append hcancel.1
    have hadm := admissible_next h.sound hids
    have heff := effect_runCalls env hids
    exact ⟨hold.step h hadm heff, hcont.step h hadm heff hold hpolicy
      (Ne.symm hcancel.2) (inv_runCalls env hids)⟩

/-! ## A workflow that has come to rest -/

/-- What the stored state of a workflow says once it is not `RUNNING`. -/
theorem Store.Concluded.stopped {s : Store} {id : String} (h : s.Concluded id)
    (hstopped : s.workflowStateOf id ≠ some .running) :
    s.AllOver id ∧ (s.workflowStateOf id = some .failed ↔ s.SomeFailed id) ∧
      (s.workflowStateOf id = some .complete ↔ ¬ s.SomeFailed id) := by
  cases h with
  | running hrun => exact absurd hrun hstopped
  | complete hst hall hnone => exact ⟨hall, by simp [hst, hnone], by simp [hst, hnone]⟩
  | failed hst hall hsome => exact ⟨hall, by simp [hst, hsome], by simp [hst, hsome]⟩

/-- The states of the tasks, when all of them are over. -/
theorem Contained.settled {wf : WorkflowSpec} {w : World} (hcont : Contained wf w)
    (hold : w.store.Holds wf) (hwell : wf.WellFormed)
    (hover : w.store.AllOver wf.workflowId) :
    Settled wf.dependenciesOf (· ∈ wf.taskIDs) (w.store.stateOf · = some .complete)
      (w.store.stateOf · = some .failed) (w.store.stateOf · = some .skipped) := by
  refine ⟨fun _ _ _ hanc => hwell.ancestor_mem hanc, ?_, hcont.blamed, hcont.spread,
    ?_, ?_, ?_⟩
  · intro t ht
    obtain ⟨r, hr, hid⟩ := ownerOf_eq_some.mp (hold.owner t ht)
    have hterm := hover t r hr hid
    rw [stateOf_of_get hr]
    cases hst : r.state <;> simp [hst, TaskState.terminal] at hterm ⊢
  · intro t hd hsk
    rw [hd] at hsk
    cases hsk
  · intro t hf hsk
    rw [hf] at hsk
    cases hsk
  · intro t hd hf
    rw [hd] at hf
    cases hf

/-- When an accepted workflow has come to rest, the states of its tasks and
its own state are determined by the verdicts. -/
theorem schedule_independence (env : Env) {pre post : List Call} {orders : DagOrders}
    {wf : WorkflowSpec}
    (hids : NeverReused (submitted (pre ++ [.submitWorkflow orders wf] ++ post)))
    (hacc : ((Call.submitWorkflow orders wf).exec env (runCalls env pre)).1.isNil = true)
    (hne : wf.tasks ≠ [])
    (hpolicy : wf.failurePolicy = .skipDownstream ∨
      wf.failurePolicy = .continueIndependent)
    (hcancel : .cancelWorkflow wf.workflowId ∉ post) (v : String → Verdict)
    (hobeys : (runCalls env (pre ++ [.submitWorkflow orders wf] ++ post)).store.Obeys wf v)
    (hquiet : ∀ t ∈ wf.taskIDs,
      (runCalls env (pre ++ [.submitWorkflow orders wf] ++ post)).store.stateOf t
          ≠ some .queued ∧
        (runCalls env (pre ++ [.submitWorkflow orders wf] ++ post)).store.stateOf t
          ≠ some .running) :
    (runCalls env (pre ++ [.submitWorkflow orders wf] ++ post)).store.Decided wf v := by
  obtain ⟨hold, hcont⟩ := contained_runCalls env hids hacc hpolicy hcancel
  have hs := (inv_runCalls env hids).sound.coherent
  have halive := alive_runCalls env _ hids
  generalize runCalls env (pre ++ [.submitWorkflow orders wf] ++ post) = w at *
  have hwell := (hs.linked.workflow _ _ hold.spec).2.2
  have hstopped : w.store.workflowStateOf wf.workflowId ≠ some .running := by
    intro hrun
    have hnamed : wf.failurePolicy.named = true := by
      rcases hpolicy with hp | hp <;> rw [hp] <;> rfl
    obtain ⟨t, ht, hactive⟩ := hold.exists_active hs halive hnamed hne hrun
    exact hactive.elim (hquiet t ht).1 (hquiet t ht).2
  obtain ⟨hover, hfailed, hcomplete⟩ := hcont.concluded.stopped hstopped
  have hsettled := hcont.settled hold hwell hover
  have hrespected : Respected (· ∈ wf.taskIDs) (w.store.stateOf · = some .complete)
      (w.store.stateOf · = some .failed) (v · = .succeed) :=
    ⟨hobeys.complete, fun t ht hf => Verdict.ne_succeed.mpr (hobeys.failed t ht hf)⟩
  have hsome : w.store.SomeFailed wf.workflowId ↔ ∃ t ∈ wf.taskIDs, v t = .fail := by
    rw [hold.someFailed_iff hs.linked, hsettled.exists_failed_iff hrespected]
    simp only [← ne_eq, Verdict.ne_succeed]
  refine ⟨?_, ?_, ?_, ?_, ?_⟩
  · intro t ht
    rw [hsettled.skipped_iff hrespected ht]
    simp only [← ne_eq, Verdict.ne_succeed]
  · intro t ht
    rw [hsettled.failed_iff hrespected ht]
    simp only [← ne_eq, Verdict.ne_succeed]
  · intro t ht
    rw [hsettled.done_iff hrespected ht]
    simp only [← ne_eq, Verdict.ne_succeed]
  · rw [← hsome]
    exact hfailed
  · rw [← hsome]
    exact hcomplete

/-- The first task fails for good, so the second one is skipped. -/
theorem schedule_independence_failed :
    (runCalls .counting ([] ++ [.submitWorkflow .asListed (.pair .skipDownstream 1)] ++
      [.getReadyTask "k", .failTask "a" "x" "out of memory"])).store.Decided
        (.pair .skipDownstream 1) (fun t => if t = "a" then .fail else .succeed) := by
  have hids : NeverReused (submitted ([] ++
      [.submitWorkflow .asListed (.pair .skipDownstream 1)] ++
      [.getReadyTask "k", .failTask "a" "x" "out of memory"])) := neverReused_of_one rfl
  refine schedule_independence .counting hids (by decide) (by decide) (.inl rfl)
    (by simp) _ ⟨?_, ?_⟩ ?_
  · decide
  · decide
  · decide

end DagScheduler
