import DagScheduler.Coordinator.Steps

/-!
# Running workflows have work

`Live s id` says why the workflow `id` cannot hang: a waiting task waits for
a task that is not complete, it waits for no task that is over without being
complete, and some task is not over.  As the dependencies have no cycle, some
task is then queued or running (`Live.exists_active`).

`Alive Q` asks `Live` of every running workflow that has tasks and that `Q`
holds of.  `Effect.alive` says that a call keeps `Alive Q` unless it abandons
a workflow of `Q`: where the policy names no constant, `applyFailurePolicy`
does nothing after a failure, and the workflow hangs.  The proof splits on
whether the call reports on a task of the workflow.  If it does not, every
new state can be traced back to the old one.
-/

namespace DagScheduler

open Lib Store

namespace Store

/-- The workflow `id` has work left, and its waiting tasks can still start. -/
structure Live (s : Store) (id : String) : Prop where
  waits : ∀ t, s.ownerOf t = some id → s.stateOf t = some .pending →
    ∃ d ∈ s.depsOf t, s.isComplete d = false
  clear : ∀ t, s.ownerOf t = some id → s.stateOf t = some .pending →
    ∀ d ∈ s.depsOf t, s.stateOf d ≠ some .failed ∧ s.stateOf d ≠ some .skipped
  work : ∃ t, s.ownerOf t = some id ∧ s.isOpen t

/-- Every running workflow of `Q` that has tasks has work left. -/
def Alive (Q : WorkflowSpec → Prop) (s : Store) : Prop :=
  ∀ (id : String) (wf : WorkflowSpec), s.workflows[id]? = some wf → Q wf →
    s.workflowStateOf id = some .running → (∃ t, s.ownerOf t = some id) → s.Live id

/-- A workflow with work left has a task that is queued or running. -/
theorem Live.exists_active {s : Store} (hs : s.Coherent) {id : String}
    (h : s.Live id) :
    ∃ t, s.ownerOf t = some id ∧
      (s.stateOf t = some .queued ∨ s.stateOf t = some .running) := by
  have hphase : ∀ t, s.ownerOf t = some id → s.stateOf t = some .pending ∨
      (s.stateOf t = some .queued ∨ s.stateOf t = some .running) ∨
      s.isComplete t = true ∨
      (s.stateOf t = some .failed ∨ s.stateOf t = some .skipped) := by
    intro t ht
    obtain ⟨r, hr, _⟩ := ownerOf_eq_some.mp ht
    have hknown := hs.counted.known t r hr
    rw [isComplete, stateOf_of_get hr]
    cases hst : r.state <;> simp [hst] at hknown ⊢
  obtain ⟨t, ht, r, hr, hopen⟩ := h.work
  rcases hphase t ht with hp | hactive | hdone | hdead
  · refine Lib.exists_active (fun u => s.ownerOf u = some id)
      (fun u => s.stateOf u = some .pending)
      (fun u => s.stateOf u = some .queued ∨ s.stateOf u = some .running)
      (fun u => s.isComplete u = true)
      (fun u => s.stateOf u = some .failed ∨ s.stateOf u = some .skipped)
      ?_ hphase ?_ ?_ ht (hs.linked.ends t) hp
    · intro u hu d hd
      rw [← hu]
      exact hs.linked.ancestor_owner (.single hd)
    · intro u hu hup d hd hdead
      exact hdead.elim (h.clear u hu hup d hd).1 (h.clear u hu hup d hd).2
    · intro u hu hup
      obtain ⟨d, hd, hnot⟩ := h.waits u hu hup
      exact ⟨d, hd, by simp [hnot]⟩
  · exact ⟨t, ht, hactive⟩
  · rw [isComplete, decide_eq_true_eq, stateOf_of_get hr] at hdone
    rw [Option.some.inj hdone] at hopen
    cases hopen
  · rw [stateOf_of_get hr] at hdead
    rcases hdead with hst | hst <;> rw [Option.some.inj hst] at hopen <;> cases hopen

/-- A store in which the tasks of the workflow have the same records. -/
theorem Live.congr {s s' : Store} (hl : s.Linked) {id : String} (h : s.Live id)
    (hsame : ∀ (t : String) (r : TaskStateRecord), s.taskState[t]? = some r →
      r.workflowID = id → s'.taskState[t]? = some r)
    (hback : ∀ t, s'.ownerOf t = some id → s.ownerOf t = some id)
    (hdeps : ∀ t, s.ownerOf t = some id → s'.depsOf t = s.depsOf t) : s'.Live id := by
  have hget : ∀ t, s.ownerOf t = some id → s'.taskState[t]? = s.taskState[t]? := by
    intro t ht
    obtain ⟨r, hr, hid⟩ := ownerOf_eq_some.mp ht
    rw [hsame t r hr hid, hr]
  have hdep : ∀ t d, s.ownerOf t = some id → d ∈ s.depsOf t →
      s.ownerOf d = some id := by
    intro t d ht hd
    rw [← ht]
    exact hl.ancestor_owner (.single hd)
  refine ⟨?_, ?_, ?_⟩
  · intro t ht hp
    have ht := hback t ht
    rw [stateOf, hget t ht] at hp
    rw [hdeps t ht]
    obtain ⟨d, hd, hnot⟩ := h.waits t ht hp
    refine ⟨d, hd, ?_⟩
    rw [isComplete, stateOf, hget d (hdep t d ht hd)]
    exact hnot
  · intro t ht hp d hd
    have ht := hback t ht
    rw [stateOf, hget t ht] at hp
    rw [hdeps t ht] at hd
    rw [stateOf, hget d (hdep t d ht hd)]
    exact h.clear t ht hp d hd
  · obtain ⟨t, ht, r, hr, hopen⟩ := h.work
    refine ⟨t, ?_, r, ?_, hopen⟩
    · rw [ownerOf, hget t ht]
      exact ht
    · rw [hget t ht]
      exact hr

end Store

/-- The call reports on a task of the workflow `id`, or cancels it. -/
def Call.Touches (w : World) (id : String) : Call → Prop
  | .completeTask t e _ | .failTask t e _ =>
      w.coord.assignedTasks[t]? = some e ∧ w.store.ownerOf t = some id
  | .cancelWorkflow i => i = id
  | _ => False

/-- The call is the last failure of a task of the workflow `id`, whose policy
names no constant. -/
def Call.Abandons (w : World) (id : String) : Call → Prop
  | .failTask t e _ => w.coord.assignedTasks[t]? = some e ∧
      ∃ r wf, w.store.taskState[t]? = some r ∧ r.workflowID = id ∧
        ¬ r.attemptCount + 1 < w.coord.retryLimit t ∧
        w.store.workflows[id]? = some wf ∧ wf.failurePolicy.named = false
  | _ => False

variable {env : Env} {P P' Q : WorkflowSpec → Prop} {w w' : World} {c : Call}

theorem SkipsTask.touches {t id : String} (h : SkipsTask w w' t c)
    (ht : w.store.ownerOf t = some id) : c.Touches w id := by
  cases h with
  | below ha _ hu ht' _ _ =>
    rw [ht] at ht'
    exact ⟨ha, hu.trans ht'.symm⟩
  | cancelled ht' =>
    rw [ht] at ht'
    exact (Option.some.inj ht').symm

section Steps

variable {id : String} (hlive : w.store.Live id)
  (hshape : SameShape w.store w'.store)
  (hstep : ∀ t, TaskStep env w w' t c w.store.taskState[t]? w'.store.taskState[t]?)
  (hc : c.submits = none)
include hlive hshape hstep hc

/-- A call that does not touch the workflow. -/
theorem Store.Live.untouched (hl : w.store.Linked) (hno : ¬ c.Touches w id) :
    w'.store.Live id := by
  have hdep : ∀ t d, w.store.ownerOf t = some id → d ∈ w.store.depsOf t →
      w.store.ownerOf d = some id := by
    intro t d ht hd
    rw [← ht]
    exact hl.ancestor_owner (.single hd)
  refine ⟨?_, ?_, ?_⟩
  · intro t ht hp
    rw [hshape.ownerOf] at ht
    rw [hshape.depsOf]
    obtain ⟨d, hd, hnot⟩ := hlive.waits t ht ((hstep t).pending_back hc hp)
    refine ⟨d, hd, ?_⟩
    rw [← Bool.not_eq_true]
    intro hdone
    rw [isComplete, decide_eq_true_eq] at hdone
    rcases (hstep d).complete_back hdone with hold | ⟨e, output, rfl, ha⟩
    · simp [isComplete, hold] at hnot
    · exact hno ⟨ha, hdep t d ht hd⟩
  · intro t ht hp d hd
    rw [hshape.ownerOf] at ht
    rw [hshape.depsOf] at hd
    obtain ⟨hfailed, hskipped⟩ := hlive.clear t ht ((hstep t).pending_back hc hp) d hd
    refine ⟨fun hf => ?_, fun hs => ?_⟩
    · rcases (hstep d).failed_back hf with hold | ⟨e, errMsg, rfl, ha⟩
      · exact hfailed hold
      · exact hno ⟨ha, hdep t d ht hd⟩
    · rcases (hstep d).skipped_back hs with hold | ⟨_, hskip⟩
      · exact hskipped hold
      · exact hno (hskip.touches (hdep t d ht hd))
  · obtain ⟨t, ht, hopen⟩ := hlive.work
    refine ⟨t, by rw [hshape.ownerOf]; exact ht, ?_⟩
    rcases (hstep t).open_forward hopen with hopen' | ⟨e, output, rfl, ha⟩ |
      ⟨e, errMsg, rfl, ha⟩ | hskip
    · exact hopen'
    · exact absurd ⟨ha, ht⟩ hno
    · exact absurd ⟨ha, ht⟩ hno
    · exact absurd (hskip.touches ht) hno

omit hlive hshape hstep hc in
/-- A workflow that still runs after the completion check has an open task. -/
theorem Store.Checked.exists_open {s s' : Store} (hchk : Checked id s s')
    (hrun : s'.workflowStateOf id = some .running) :
    ∃ u, s'.ownerOf u = some id ∧ s'.isOpen u := by
  cases hchk with
  | stillOpen hopen =>
    unfold AllOver at hopen
    push Not at hopen
    obtain ⟨u, ru, hru, hown, hterm⟩ := hopen
    exact ⟨u, ownerOf_eq_some.mpr ⟨ru, hru, hown⟩, ru, hru, by simpa using hterm⟩
  | failed _ _ hclose =>
    rw [hclose.stateOf_self] at hrun
    cases hrun
  | complete _ _ hclose =>
    rw [hclose.stateOf_self] at hrun
    cases hrun

/-- The completion of a task of the workflow, when the workflow still runs
after it. -/
theorem CompleteEffect.live (h : Inv P w) {t e output : String}
    {result : Except CallError Unit} (heff : CompleteEffect w t e output result w')
    (hcall : c = .completeTask t e output)
    (ha : w.coord.assignedTasks[t]? = some e) (ht : w.store.ownerOf t = some id)
    (hrun : w'.store.workflowStateOf id = some .running) : w'.store.Live id := by
  subst hcall
  have hs := h.sound.coherent
  cases heff with
  | ignored hne _ => exact absurd ha hne
  | @accepted r now s ready _ _ hr hcomp hchk _ _ =>
    have hnc : r.state ≠ .complete := by
      rcases h.state_of_assigned ha hr with hst | hst <;> simp [hst]
    have hid : r.workflowID = id := by
      rw [ownerOf_of_get hr] at ht
      exact Option.some.inj ht
    have hopen := (hid ▸ hchk).exists_open hrun
    refine ⟨?_, ?_, hopen⟩
    · intro u hu hp
      rw [hshape.ownerOf] at hu
      rw [hshape.depsOf]
      have hpu := (hstep u).pending_back rfl hp
      have hisc : w'.store.isComplete = s.isComplete := by
        funext x
        rw [isComplete, isComplete, stateOf, stateOf, hchk.taskState]
      rw [hisc]
      by_cases hdep : t ∈ w.store.depsOf u
      · -- The counter of `u` has dropped, and is not 0, since `u` still waits.
        obtain ⟨ru, hru, hpru⟩ := stateOf_eq_some.mp hpu
        have hut : u ≠ t := by
          rintro rfl
          rw [hr] at hru
          cases hru
          rcases h.state_of_assigned ha hr with hst | hst <;> simp [hst] at hpru
        obtain ⟨x, hx, hget⟩ := hcomp.get_waiting hs hr hnc hut hru hpru hdep
        rw [stateOf, hchk.taskState, hget] at hp
        have hne : x ≠ 0 := by
          rintro rfl
          simp at hp
        have hpos : outstanding w.store.depsOf s.isComplete u ≠ 0 := by
          intro hzero
          rw [hzero] at hx
          exact hne (Int32.toInt_inj.mp (by rw [hx, Int32.toInt_zero]; rfl))
        exact outstanding_pos_iff.mp (Nat.pos_of_ne_zero hpos)
      · obtain ⟨d, hd, hnot⟩ := hlive.waits u hu hpu
        refine ⟨d, hd, ?_⟩
        rw [hcomp.isComplete_other fun hdt => hdep (hdt ▸ hd)]
        exact hnot
    · intro u hu hp d hd
      rw [hshape.ownerOf] at hu
      rw [hshape.depsOf] at hd
      obtain ⟨hfailed, hskipped⟩ := hlive.clear u hu ((hstep u).pending_back rfl hp) d hd
      refine ⟨fun hf => ?_, fun hsk => ?_⟩
      · rcases (hstep d).failed_back hf with hold | ⟨_, _, hcall, _⟩
        · exact hfailed hold
        · cases hcall
      · rcases (hstep d).skipped_back hsk with hold | ⟨_, hskip⟩
        · exact hskipped hold
        · cases hskip

/-- The waiting tasks after a failure, from what the failure did to the tasks
that they wait for. -/
private theorem live_of_failure {t e errMsg : String} (hcall : c = .failTask t e errMsg)
    (hopen : ∃ u, w'.store.ownerOf u = some id ∧ w'.store.isOpen u)
    (hclear : ∀ u d, w'.store.stateOf u = some .pending → d ∈ w.store.depsOf u →
      (w'.store.stateOf d = some .failed → w.store.stateOf d = some .failed) ∧
      (w'.store.stateOf d = some .skipped → w.store.stateOf d = some .skipped)) :
    w'.store.Live id := by
  subst hcall
  refine ⟨?_, ?_, hopen⟩
  · intro u hu hp
    rw [hshape.ownerOf] at hu
    rw [hshape.depsOf]
    obtain ⟨d, hd, hnot⟩ := hlive.waits u hu ((hstep u).pending_back rfl hp)
    refine ⟨d, hd, ?_⟩
    rw [← Bool.not_eq_true]
    intro hdone
    rw [isComplete, decide_eq_true_eq] at hdone
    rcases (hstep d).complete_back hdone with hold | ⟨_, _, hcall, _⟩
    · simp [isComplete, hold] at hnot
    · cases hcall
  · intro u hu hp d hd
    rw [hshape.ownerOf] at hu
    rw [hshape.depsOf] at hd
    obtain ⟨hfailed, hskipped⟩ := hlive.clear u hu ((hstep u).pending_back rfl hp) d hd
    obtain ⟨hf, hs⟩ := hclear u d hp hd
    exact ⟨fun h => hfailed (hf h), fun h => hskipped (hs h)⟩

omit hlive hshape hstep hc in
/-- A task that still waits after a failure does not depend on the failed task, or it
would have been skipped. -/
theorem GivesUp.not_ancestor_of_pending (h : Inv P w) {t e u : String}
    (ha : w.coord.assignedTasks[t]? = some e) {r r' : TaskStateRecord}
    (hr : w.store.taskState[t]? = some r) (hshape' : SameShape w.store (w.store.setTask t r'))
    {c₁ c₂ : Coordinator} {s : Store}
    (hg : GivesUp (Ancestor (w.store.setTask t r').depsOf t) (w.store.setTask t r') c₁ s c₂)
    (hchk : Checked id s w'.store) (hbefore : w.store.stateOf u = some .pending)
    (hp : w'.store.stateOf u = some .pending) : ¬ Ancestor w.store.depsOf t u := by
  intro hanc
  obtain ⟨ru, hru, hpru⟩ := stateOf_eq_some.mp hbefore
  have hut : t ≠ u := by
    rintro rfl
    rw [hr] at hru
    cases hru
    rcases h.state_of_assigned ha hr with hst | hst <;> simp [hst] at hpru
  obtain ⟨now, hskip⟩ := hg.store.hit u ru (by rw [get_setTask, if_neg hut]; exact hru)
    (by rw [hshape'.depsOf]; exact hanc) (by rw [hpru]; rfl)
  rw [stateOf, hchk.taskState, hskip] at hp
  simp at hp

/-- The failure of a task of the workflow, when the workflow still runs after
it and is not abandoned. -/
theorem FailEffect.live (h : Inv P w) {t e errMsg : String}
    {result : Except CallError Unit} (heff : FailEffect env w t e errMsg result w')
    (hcall : c = .failTask t e errMsg)
    (ha : w.coord.assignedTasks[t]? = some e) (ht : w.store.ownerOf t = some id)
    (hrun : w'.store.workflowStateOf id = some .running) (hkept : ¬ c.Abandons w id) :
    w'.store.Live id := by
  cases heff with
  | stale hne => exact absurd ha hne
  | @retried r now _ _ hr _ hstore _ _ =>
    have hstate : ∀ d, w'.store.stateOf d = if t = d then some .queued
        else w.store.stateOf d := by
      intro d
      rw [hstore, Store.stateOf_setTask]
    refine live_of_failure hlive hshape hstep hc hcall ?_ ?_
    · refine ⟨t, by rw [hshape.ownerOf]; exact ht, ?_⟩
      rw [hstore]
      exact ⟨_, by rw [get_setTask, if_pos rfl], rfl⟩
    · intro u d _ _
      rw [hstate]
      split
      · simp
      · exact ⟨fun hx => hx, fun hx => hx⟩
  | @failed r wf now _ _ hr hlast hwf hpol _ =>
    have hid : r.workflowID = id := by
      rw [ownerOf_of_get hr] at ht
      exact Option.some.inj ht
    subst hid
    have hshape₁ : SameShape w.store (w.store.setTask t { r with
        state := .failed, error := errMsg, attemptCount := r.attemptCount + 1,
        lastUpdated := now }) := sameShape_setTask hr rfl
    generalize hpolicy : wf.failurePolicy = policy at hpol
    cases hpol with
    | failFast _ hclose =>
      rw [hclose.stateOf_self] at hrun
      cases hrun
    | unrecognized _ _ =>
      refine absurd ?_ hkept
      rw [hcall]
      exact ⟨ha, r, wf, hr, rfl, hlast, hwf, by rw [hpolicy]; rfl⟩
    | @below _ s' hbelow hg hchk =>
      have hnever : policy ≠ .failFast := by
        rcases hbelow with rfl | rfl <;> simp
      have hnot : ∀ u, w'.store.stateOf u = some .pending →
          ¬ Ancestor w.store.depsOf t u := fun u hp =>
        hg.not_ancestor_of_pending h ha hr hshape₁ hchk ((hstep u).pending_back hc hp) hp
      refine live_of_failure hlive hshape hstep hc hcall (hchk.exists_open hrun) ?_
      subst hcall
      intro u d hp hd
      refine ⟨fun hf => ?_, fun hs => ?_⟩
      · rcases (hstep d).failed_back hf with hold | ⟨_, _, hcall, _⟩
        · exact hold
        · cases hcall
          exact absurd (.single hd) (hnot u hp)
      · rcases (hstep d).skipped_back hs with hold | ⟨_, hskip⟩
        · exact hold
        · cases hskip with
          | below _ _ hown hownd hwf' hwhy =>
            rw [ownerOf_of_get hr] at hown
            rw [← Option.some.inj hown, hwf] at hwf'
            cases hwf'
            rcases hwhy with hff | hanc
            · exact absurd (hpolicy.symm.trans hff) hnever
            · exact absurd (hanc.tail hd) (hnot u hp)

end Steps

/-- A restart, which may start from any memory. -/
theorem RestartEffect.alive (hl : w.store.Linked) (heff : RestartEffect env w w')
    (halive : w.store.Alive Q) : w'.store.Alive Q := by
  have hshape : SameShape w.store w'.store := heff.sameShape
  have hstates : w'.store.workflowState = w.store.workflowState := heff.workflowState
  intro id wf hwf hQ hrun hstored
  rw [hshape.workflows] at hwf
  rw [workflowStateOf, hstates] at hrun
  obtain ⟨t, ht⟩ := hstored
  rw [hshape.ownerOf] at ht
  have hlive := halive id wf hwf hQ hrun ⟨t, ht⟩
  exact hlive.untouched hshape (fun t => heff.task t hl.keyed) rfl hl fun h => h

/-! ## Every call -/

/-- A call other than a submission. -/
theorem Effect.live (h : Inv P w) (hadm : c.Admissible P' w) {reply : Reply}
    (heff : Effect env w c reply w') (hc : c.submits = none) {id : String}
    (hkept : ¬ c.Abandons w id) (hrun : w'.store.workflowStateOf id = some .running)
    (hlive : w.store.Live id) : w'.store.Live id := by
  have hshape := heff.sameShape h hadm hc
  have hstep := heff.task h hadm
  by_cases htouch : c.Touches w id
  · cases heff with
    | completeTask heff =>
      exact heff.live hlive hshape hstep hc h rfl htouch.1 htouch.2 hrun
    | failTask heff =>
      exact heff.live hlive hshape hstep hc h rfl htouch.1 htouch.2 hrun hkept
    | cancelWorkflow heff =>
      have hid : _ = id := htouch
      subst hid
      cases heff with
      | cancelled _ _ hclose _ =>
        rw [hclose.stateOf_self] at hrun
        cases hrun
      | refused _ hstore _ _ =>
        rw [hstore]
        exact hlive
    | submitWorkflow _ => cases hc
    | getReadyTask _ => exact htouch.elim
    | handleDeadWorker _ => exact htouch.elim
    | restart _ => exact htouch.elim
  · exact hlive.untouched hshape hstep hc h.sound.coherent.linked htouch

/-- The workflows that were there before a submission. -/
theorem Store.Alive.extended (h : Inv P w) {wf : WorkflowSpec} (hf : w.store.Fresh wf)
    (hworkflows : w'.store.workflows = w.store.workflows.insert wf.workflowId wf)
    {st : WorkflowStateRecord}
    (hstates : w'.store.workflowState = w.store.workflowState.insert wf.workflowId st)
    (hother : ∀ t : String, t ∉ wf.taskIDs →
      w'.store.taskState[t]? = w.store.taskState[t]?)
    (hnew : ∀ (t : String) (r : TaskStateRecord), t ∈ wf.taskIDs →
      w'.store.taskState[t]? = some r → r.workflowID = wf.workflowId)
    (halive : w.store.Alive Q)
    (hlive : (∃ t, w'.store.ownerOf t = some wf.workflowId) →
      w'.store.Live wf.workflowId) : w'.store.Alive Q := by
  have hl := h.sound.coherent.linked
  intro id other hwf hQ hrun hstored
  by_cases hid : id = wf.workflowId
  · rw [hid] at hstored ⊢
    exact hlive hstored
  · have hkept : ∀ {t : String} {r : TaskStateRecord}, w.store.taskState[t]? = some r →
        w'.store.taskState[t]? = some r := by
      intro t r hr
      rw [hother t fun hin => by rw [hf.untouched hl t hin] at hr; cases hr]
      exact hr
    have hback : ∀ t, w'.store.ownerOf t = some id → w.store.ownerOf t = some id := by
      intro t ht
      obtain ⟨r, hr, hown⟩ := ownerOf_eq_some.mp ht
      have hin : t ∉ wf.taskIDs := fun hin => hid (hown ▸ hnew t r hin hr)
      rw [hother t hin] at hr
      exact ownerOf_eq_some.mpr ⟨r, hr, hown⟩
    have hlive : w.store.Live id := by
      apply halive id other
      · rw [hworkflows, Table.get_insert_ne _ _ (Ne.symm hid)] at hwf
        exact hwf
      · exact hQ
      · rw [workflowStateOf, hstates, Table.get_insert_ne _ _ (Ne.symm hid)] at hrun
        exact hrun
      · obtain ⟨t, ht⟩ := hstored
        exact ⟨t, hback t ht⟩
    refine hlive.congr hl (fun t r hr _ => hkept hr) hback ?_
    intro t ht
    obtain ⟨r, hr, _⟩ := ownerOf_eq_some.mp ht
    exact hf.depsOf_eq hl hworkflows hr (hkept hr)

/-- A new workflow has work, and nothing in it is over. -/
theorem Launched.live {wf : WorkflowSpec} {dag : DAG} {roots : List String}
    (hla : Launched wf dag roots w w') (hl : w'.store.Linked)
    (hstored : ∃ t, w'.store.ownerOf t = some wf.workflowId) :
    w'.store.Live wf.workflowId := by
  have hwf : w'.store.workflows[wf.workflowId]? = some wf := by
    rw [hla.workflows, Table.get_insert, if_pos rfl]
  have hmem : ∀ t, w'.store.ownerOf t = some wf.workflowId → t ∈ wf.taskIDs := by
    intro t ht
    obtain ⟨r, hr, hown⟩ := ownerOf_eq_some.mp ht
    obtain ⟨other, hother, hin⟩ := hl.owned t r hr
    rw [hown, hwf] at hother
    cases hother
    exact hin
  have hdeps : ∀ t ∈ wf.taskIDs, w'.store.depsOf t = wf.dependenciesOf t := by
    intro t ht
    obtain ⟨now, hget⟩ := hla.task t ht
    exact hl.depsOf_eq hwf ht hget
  -- A dependency of a task is a task of the workflow, and has just started.
  have hdep : ∀ t ∈ wf.taskIDs, ∀ d ∈ w'.store.depsOf t,
      w'.store.stateOf d = some .queued ∨ w'.store.stateOf d = some .pending := by
    intro t ht d hd
    rw [hdeps t ht] at hd
    rw [hla.stateOf (hla.wellFormed.closed t d hd)]
    split
    · exact .inl rfl
    · exact .inr rfl
  refine ⟨?_, ?_, ?_⟩
  · intro t ht hp
    have hin := hmem t ht
    rw [hla.stateOf hin] at hp
    have hne : wf.dependenciesOf t ≠ [] := by
      intro hnil
      rw [if_pos hnil] at hp
      cases hp
    obtain ⟨d, hd⟩ := List.exists_mem_of_ne_nil _ hne
    rw [← hdeps t hin] at hd
    refine ⟨d, hd, ?_⟩
    rcases hdep t hin d hd with hst | hst <;> simp [isComplete, hst]
  · intro t ht _ d hd
    rcases hdep t (hmem t ht) d hd with hst | hst <;> simp [hst]
  · obtain ⟨t, ht⟩ := hstored
    obtain ⟨r, hr, hst⟩ := stateOf_eq_some.mp (hla.stateOf (hmem t ht))
    refine ⟨t, ht, r, hr, ?_⟩
    rw [hst]
    split <;> rfl

/-- A call that abandons no workflow of `Q` keeps them alive. -/
theorem Effect.alive (h : Inv P w) (hadm : c.Admissible P' w) {reply : Reply}
    (heff : Effect env w c reply w') (hl : w'.store.Linked)
    (hkept : ∀ (id : String) (wf : WorkflowSpec), w.store.workflows[id]? = some wf →
      Q wf → ¬ c.Abandons w id)
    (halive : w.store.Alive Q) : w'.store.Alive Q := by
  cases hc : c.submits with
  | none =>
    intro id wf hwf hQ hrun hstored
    have hshape := heff.sameShape h hadm hc
    rw [hshape.workflows] at hwf
    have hwstep := heff.workflow id
    rw [hrun] at hwstep
    refine heff.live h hadm hc (hkept id wf hwf hQ) hrun
      (halive id wf hwf hQ (hwstep.running_back hc) ?_)
    obtain ⟨t, ht⟩ := hstored
    rw [hshape.ownerOf] at ht
    exact ⟨t, ht⟩
  | some wf =>
    cases heff with
    | submitWorkflow heff =>
      cases hc
      have hf := (hadm wf rfl).2
      cases heff with
      | refused hstore _ _ =>
        rw [hstore]
        exact halive
      | @halted _ now _ _ hstore _ _ =>
        refine Store.Alive.extended h hf (by rw [hstore]; rfl) (by rw [hstore]; rfl)
          (fun t _ => by rw [hstore]; rfl) ?_ halive ?_
        · intro t r ht hr
          rw [hstore] at hr
          have hnone := hf.untouched h.sound.coherent.linked t ht
          exact absurd (hnone.symm.trans hr) (by simp)
        · intro hstored
          obtain ⟨t, ht⟩ := hstored
          obtain ⟨r, hr, hown⟩ := ownerOf_eq_some.mp ht
          rw [hstore] at hr
          exact absurd hown (hf.owner_ne h.sound.coherent.linked hr)
      | @launched dag roots _ hla =>
        obtain ⟨now, hstates⟩ := hla.workflowState
        refine Store.Alive.extended h hf hla.workflows hstates hla.other ?_ halive
          (hla.live hl)
        intro t r ht hr
        obtain ⟨stamp, hget⟩ := hla.task t ht
        rw [hget] at hr
        cases hr
        rfl
    | _ => cases hc

end DagScheduler
