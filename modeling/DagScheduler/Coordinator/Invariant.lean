import DagScheduler.Coordinator.Startup

/-!
# The invariant of every run

`Inv` holds between any two operations of a run whose submissions reuse no
ID, with or without crashes.

* The lemmas on `Agree` follow the parts that the effects are made of: a
  task leaves the maps, a task changes its state outside of the queue, tasks
  are queued again, tasks are given up, a workflow is closed, a task is
  completed, a task is assigned.
* `Call.effect` puts the effects of the operations together: `Effect` is
  what one call does.  `Effect.inv` says that it keeps `Inv`.
* `CrashRun.sound` and `CrashRun.inv` are the run lemmas.  A cut run keeps
  the store sound, because `Sound` is the invariant between two actions, and
  a restart rebuilds the memory from a sound store.
-/

namespace DagScheduler

open Lib Program Store

/-! ## The parts of an effect -/

namespace Agree

variable {s s' : Store} {c : Coordinator}

/-- Tasks may leave the maps. -/
theorem forget (h : Agree s c) (l : List String) :
    Agree s (l.foldl Coordinator.forget c) := by
  refine ⟨by simpa using h.nodup, ?_, ?_, ?_, ?_⟩
  · rw [Coordinator.foldl_forget_readyQueue]
    exact h.queued
  · rw [Coordinator.foldl_forget_readyQueue]
    exact h.listed
  · intro t
    rw [Std.ExtTreeMap.mem_iff_isSome_getElem?, Std.ExtTreeMap.mem_iff_isSome_getElem?,
      Coordinator.get_foldl_forget_running, Coordinator.get_foldl_forget_assigned]
    have hk := h.keys t
    rw [Std.ExtTreeMap.mem_iff_isSome_getElem?, Std.ExtTreeMap.mem_iff_isSome_getElem?]
      at hk
    split
    · rfl
    · exact hk
  · intro t e ht
    rw [Coordinator.get_foldl_forget_assigned] at ht
    split at ht
    · cases ht
    · rw [Coordinator.foldl_forget_taskWorkflowMap]
      exact h.assigned t e ht

/-- The store and the queue may change, as long as the assigned tasks keep
their executions, completed tasks stay completed, and the new queue agrees
with the new store. -/
theorem step (h : Agree s c) {c' : Coordinator}
    (hrun : c'.runningTasks = c.runningTasks)
    (hass : c'.assignedTasks = c.assignedTasks)
    (hmap : c'.taskWorkflowMap = c.taskWorkflowMap) (hdeps : s'.depsOf = s.depsOf)
    (hmono : ∀ u, s.isComplete u = true → s'.isComplete u = true)
    (hassigned : ∀ (u : String) (r : TaskStateRecord), u ∈ c.assignedTasks →
      s.taskState[u]? = some r → ∃ r', s'.taskState[u]? = some r' ∧
        r'.executionID = r.executionID ∧
        (r'.state = r.state ∨ r'.state = .skipped))
    (hnodup : c'.readyQueue.Nodup)
    (hqueued : ∀ u ∈ c'.readyQueue, s'.stateOf u = some .queued)
    (hlisted : ∀ (u : String) (r' : TaskStateRecord), s'.taskState[u]? = some r' →
      r'.state = .queued → s'.workflowStateOf r'.workflowID = some .running →
      u ∈ c'.readyQueue) :
    Agree s' c' := by
  refine ⟨hnodup, hqueued, hlisted, ?_, ?_⟩
  · rw [hrun, hass]
    exact h.keys
  · rw [hass, hmap]
    intro u e hu
    obtain ⟨r, hr, he, hst, hd, hin⟩ := h.assigned u e hu
    obtain ⟨r', hr', he', hst'⟩ :=
      hassigned u r ((Table.mem_iff_get _ _).mpr ⟨e, hu⟩) hr
    refine ⟨r', hr', he'.trans he, ?_, hd.mono hdeps hmono, hin⟩
    rcases hst' with hst' | hst'
    · rw [hst']
      exact hst
    · exact .inr hst'

/-- A queued task is not assigned. -/
theorem not_queued_of_assigned (h : Agree s c) {t : String}
    (ht : t ∈ c.assignedTasks) : t ∉ c.readyQueue := by
  intro hin
  obtain ⟨e, he⟩ := (Table.mem_iff_get _ _).mp ht
  obtain ⟨r, hr, _, hst, _⟩ := h.assigned t e he
  have hq := h.queued t hin
  rw [stateOf_of_get hr] at hq
  rcases hst with hst | hst <;> simp [hst] at hq

/-- A task that is neither queued nor assigned may take a state other than
`QUEUED`. -/
theorem setTask (h : Agree s c) {t : String} {r r' : TaskStateRecord}
    (hr : s.taskState[t]? = some r) (hshape : r'.shape = r.shape)
    (hnc : r.state ≠ .complete) (hnq : r'.state ≠ .queued)
    (hq : t ∉ c.readyQueue) (ha : t ∉ c.assignedTasks) :
    Agree (s.setTask t r') c := by
  have hother : ∀ u, u ≠ t → (s.setTask t r').taskState[u]? = s.taskState[u]? :=
    fun u hu => by rw [get_setTask, if_neg (Ne.symm hu)]
  apply h.step rfl rfl rfl (sameShape_setTask hr hshape).depsOf
  · intro u hu
    obtain ⟨ru, hru, hc⟩ := isComplete_iff.mp hu
    have hut : u ≠ t := by
      rintro rfl
      rw [hr] at hru
      cases hru
      exact hnc hc
    exact isComplete_iff.mpr ⟨ru, (hother u hut).trans hru, hc⟩
  · intro u ru hu hru
    have hut : u ≠ t := fun he => ha (he ▸ hu)
    exact ⟨ru, (hother u hut).trans hru, rfl, .inl rfl⟩
  · exact h.nodup
  · intro u hu
    have hut : u ≠ t := fun he => hq (he ▸ hu)
    rw [stateOf, hother u hut]
    exact h.queued u hu
  · intro u ru hru hst hrun
    by_cases hut : u = t
    · subst hut
      rw [get_setTask, if_pos rfl] at hru
      cases hru
      exact absurd hst hnq
    · exact h.listed u ru ((hother u hut).symm.trans hru) hst hrun

/-- Open tasks are given up and leave the queue. -/
theorem givesUp (h : Agree s c) {Q : String → Prop} {c' : Coordinator}
    (hg : GivesUp Q s c s' c') : Agree s' c' := by
  obtain ⟨hskips, gone, hgone, rfl⟩ := hg
  have hkept : ∀ u r, s.taskState[u]? = some r → u ∉ gone →
      s'.taskState[u]? = some r := by
    intro u r hr hu
    exact hskips.miss u r hr fun hc => hu ((hgone u).mpr ⟨hc.1, r, hr, hc.2⟩)
  refine h.step rfl rfl rfl hskips.sameShape.depsOf ?_ ?_ ?_ ?_ ?_
  · intro u hu
    obtain ⟨r, hr, hc⟩ := isComplete_iff.mp hu
    refine isComplete_iff.mpr ⟨r, hskips.miss u r hr ?_, hc⟩
    rintro ⟨_, hopen⟩
    rw [hc] at hopen
    cases hopen
  · intro u r _ hr
    by_cases hc : Q u ∧ r.state.terminal = false
    · obtain ⟨now, hnow⟩ := hskips.hit u r hr hc.1 hc.2
      exact ⟨_, hnow, rfl, .inr rfl⟩
    · exact ⟨r, hskips.miss u r hr hc, rfl, .inl rfl⟩
  · exact h.nodup.filter _
  · intro u hu
    rw [Coordinator.mem_dropFromQueue] at hu
    obtain ⟨r, hr, hst⟩ := stateOf_eq_some.mp (h.queued u hu.1)
    exact stateOf_eq_some.mpr ⟨r, hkept u r hr hu.2, hst⟩
  · intro u r' hr' hst hrun
    obtain ⟨r, hr, _⟩ := hskips.sameShape.back hr'
    by_cases hu : u ∈ gone
    · obtain ⟨hQ, r₀, hr₀, hopen⟩ := (hgone u).mp hu
      rw [hr] at hr₀
      cases hr₀
      obtain ⟨now, hnow⟩ := hskips.hit u r hr hQ hopen
      rw [hr'] at hnow
      cases hnow
      cases hst
    · rw [hkept u r hr hu] at hr'
      cases hr'
      rw [workflowStateOf, hskips.workflowState] at hrun
      rw [Coordinator.mem_dropFromQueue]
      exact ⟨h.listed u r' hr hst hrun, hu⟩

/-- A workflow may stop running. -/
theorem stops (h : Agree s c) (htasks : s'.taskState = s.taskState)
    (hworkflows : s'.workflows = s.workflows)
    (hrun : ∀ id, s'.workflowStateOf id = some .running →
      s.workflowStateOf id = some .running) : Agree s' c := by
  have hdeps : s'.depsOf = s.depsOf := by
    funext t
    simp [Store.depsOf, specOf, ownerOf, htasks, hworkflows]
  apply h.step rfl rfl rfl hdeps
  · intro u hu
    rw [isComplete, stateOf, htasks]
    exact hu
  · intro u r _ hr
    exact ⟨r, by rw [htasks]; exact hr, rfl, .inl rfl⟩
  · exact h.nodup
  · intro u hu
    rw [stateOf, htasks]
    exact h.queued u hu
  · intro u r hr hst hwf
    rw [htasks] at hr
    exact h.listed u r hr hst (hrun _ hwf)

/-- Tasks that are neither queued nor assigned are queued again. -/
theorem requeues {env : Env} {l : List String} {w w' : World}
    (h : Agree w.store w.coord) (hreq : Requeues env l w w') (hnd : l.Nodup)
    (hl : ∀ u ∈ l, u ∉ w.coord.readyQueue ∧ u ∉ w.coord.assignedTasks ∧
      ∃ r, w.store.taskState[u]? = some r ∧ r.state ≠ .complete) :
    Agree w'.store w'.coord := by
  rw [hreq.coord]
  refine h.step rfl rfl rfl hreq.sameShape.depsOf ?_ ?_ ?_ ?_ ?_
  · intro u hu
    obtain ⟨r, hr, hc⟩ := isComplete_iff.mp hu
    have hul : u ∉ l := by
      intro hul
      obtain ⟨_, _, r₀, hr₀, hnc⟩ := hl u hul
      rw [hr] at hr₀
      cases hr₀
      exact hnc hc
    exact isComplete_iff.mpr ⟨r, (hreq.miss u hul).trans hr, hc⟩
  · intro u r hu hr
    have hul : u ∉ l := fun hul => (hl u hul).2.1 hu
    exact ⟨r, (hreq.miss u hul).trans hr, rfl, .inl rfl⟩
  · rw [Coordinator.enqueue_readyQueue, List.nodup_append]
    refine ⟨h.nodup, hnd, ?_⟩
    intro a ha b hb hab
    exact (hl b hb).1 (hab ▸ ha)
  · intro u hu
    rcases List.mem_append.mp hu with hin | hin
    · have hul : u ∉ l := fun hul => (hl u hul).1 hin
      rw [stateOf, hreq.miss u hul]
      exact h.queued u hin
    · obtain ⟨_, _, r, hr, _⟩ := hl u hin
      obtain ⟨n, now, _, _, hget⟩ := hreq.hit u r hin hr
      exact stateOf_eq_some.mpr ⟨_, hget, rfl⟩
  · intro u r' hr' hst hrun
    rw [Coordinator.enqueue_readyQueue, List.mem_append]
    by_cases hul : u ∈ l
    · exact .inr hul
    · rw [hreq.miss u hul] at hr'
      rw [workflowStateOf, hreq.workflowState] at hrun
      exact .inl (h.listed u r' hr' hst hrun)

/-- A task outside of the queue and the maps is completed, and the tasks
that it releases enter the queue. -/
theorem completion (h : Agree s c) {now : Int64}
    {t output : String} {r : TaskStateRecord} {ready : List String}
    (hc : Completion now t output r s s' ready) (hr : s.taskState[t]? = some r)
    (hq : t ∉ c.readyQueue) (ha : t ∉ c.assignedTasks) :
    Agree s' (c.enqueue ready) := by
  have hkept : ∀ u ru, u ≠ t → s.taskState[u]? = some ru → ru.state ≠ .pending →
      s'.taskState[u]? = some ru :=
    fun u ru hu hru hne => hc.get_other hu hru (.inl hne)
  refine h.step rfl rfl rfl (hc.sameShape hr).depsOf hc.isComplete_mono
    ?_ ?_ ?_ ?_
  · intro u ru hu hru
    have hut : u ≠ t := fun he => ha (he ▸ hu)
    obtain ⟨e, he⟩ := (Table.mem_iff_get _ _).mp hu
    obtain ⟨r₀, hr₀, _, hst, _⟩ := h.assigned u e he
    rw [hru] at hr₀
    cases hr₀
    refine ⟨ru, hkept u ru hut hru ?_, rfl, .inl rfl⟩
    rcases hst with hst | hst <;> simp [hst]
  · rw [Coordinator.enqueue_readyQueue, List.nodup_append]
    refine ⟨h.nodup, hc.nodup_ready, ?_⟩
    intro a ha' b hb hab
    have hp := ((hc.mem_ready b).mp hb).1
    rw [← hab, h.queued a ha'] at hp
    cases hp
  · intro u hu
    rcases List.mem_append.mp hu with hin | hin
    · have hut : u ≠ t := fun he => hq (he ▸ hin)
      obtain ⟨ru, hru, hst⟩ := stateOf_eq_some.mp (h.queued u hin)
      exact stateOf_eq_some.mpr ⟨ru, hkept u ru hut hru (by simp [hst]), hst⟩
    · exact ((hc.mem_ready u).mp hin).2
  · intro u r' hr' hst hrun
    rw [Coordinator.enqueue_readyQueue, List.mem_append]
    have hut : u ≠ t := by
      rintro rfl
      rw [hc.task] at hr'
      cases hr'
      cases hst
    obtain ⟨ru, hru, _⟩ := (hc.sameShape hr).back hr'
    by_cases hp : ru.state = .pending
    · refine .inr ((hc.mem_ready u).mpr ⟨?_, ?_⟩)
      · rw [stateOf_of_get hru, hp]
      · rw [stateOf_of_get hr', hst]
    · rw [hkept u ru hut hru hp] at hr'
      cases hr'
      rw [workflowStateOf, hc.workflowState] at hrun
      exact .inl (h.listed u r' hru hst hrun)

end Agree

/-! ## Closing a workflow -/

namespace Store

variable {id : String} {st : WorkflowState} {s s' : Store}

theorem Closes.sameShape (h : Closes id st s s') : SameShape s s' := by
  refine ⟨h.workflows, ?_⟩
  rw [h.taskState]
  exact fun _ => rfl

theorem Closes.stateOf_self (h : Closes id st s s') :
    s'.workflowStateOf id = some st := by
  obtain ⟨r, hr, _, hst⟩ := h.this
  simp [workflowStateOf, hr, hst]

theorem Closes.stateOf_other (h : Closes id st s s') {i : String} (hi : i ≠ id) :
    s'.workflowStateOf i = s.workflowStateOf i := by
  rw [workflowStateOf, workflowStateOf, h.other i hi]

/-- Closing a workflow starts none. -/
theorem Closes.running (h : Closes id st s s') (hst : st ≠ .running) (i : String)
    (hrun : s'.workflowStateOf i = some .running) :
    i ≠ id ∧ s.workflowStateOf i = some .running := by
  have hi : i ≠ id := by
    rintro rfl
    rw [h.stateOf_self] at hrun
    exact hst (Option.some.inj hrun)
  exact ⟨hi, h.stateOf_other hi ▸ hrun⟩

theorem Checked.taskState (h : Checked id s s') : s'.taskState = s.taskState := by
  cases h with
  | stillOpen _ => rfl
  | failed _ _ h => exact h.taskState
  | complete _ _ h => exact h.taskState

theorem Checked.workflows (h : Checked id s s') : s'.workflows = s.workflows := by
  cases h with
  | stillOpen _ => rfl
  | failed _ _ h => exact h.workflows
  | complete _ _ h => exact h.workflows

theorem Checked.sameShape (h : Checked id s s') : SameShape s s' := by
  refine ⟨h.workflows, ?_⟩
  rw [h.taskState]
  exact fun _ => rfl

theorem Checked.running (h : Checked id s s') (i : String)
    (hrun : s'.workflowStateOf i = some .running) :
    s.workflowStateOf i = some .running := by
  cases h with
  | stillOpen _ => exact hrun
  | failed _ _ h => exact (h.running (by simp) i hrun).2
  | complete _ _ h => exact (h.running (by simp) i hrun).2

end Store

/-! ## Every effect keeps the invariant -/

/-- Every task that is stored as `RUNNING` has a worker. -/
def RunningKnown (s : Store) (c : Coordinator) : Prop :=
  ∀ t, s.stateOf t = some .running → t ∈ c.runningTasks

namespace RunningKnown

variable {s s' : Store} {c : Coordinator}

/-- No task starts to run. -/
theorem mono (h : RunningKnown s c)
    (hrun : ∀ t, s'.stateOf t = some .running → s.stateOf t = some .running) :
    RunningKnown s' c :=
  fun t ht => h t (hrun t ht)

/-- A task leaves the map, and is not stored as `RUNNING` any more. -/
theorem forget (h : RunningKnown s c) {l : List String}
    (hl : ∀ t ∈ l, s'.stateOf t ≠ some .running)
    (hrun : ∀ t, t ∉ l → s'.stateOf t = some .running →
      s.stateOf t = some .running) :
    RunningKnown s' (l.foldl Coordinator.forget c) := by
  intro t ht
  have hin : t ∉ l := fun hin => hl t hin ht
  obtain ⟨worker, hw⟩ := (Table.mem_iff_get _ _).mp (h t (hrun t hin ht))
  rw [Table.mem_iff_get]
  exact ⟨worker, by rw [Coordinator.get_foldl_forget_running, if_neg hin, hw]⟩

theorem skips (h : RunningKnown s c) {Q : String → Prop} (hs : Skips Q s s') :
    RunningKnown s' c := by
  apply h.mono
  intro t ht
  obtain ⟨r', hr', hst⟩ := stateOf_eq_some.mp ht
  obtain ⟨r, hr, _⟩ := hs.sameShape.back hr'
  by_cases hc : Q t ∧ r.state.terminal = false
  · obtain ⟨now, hnow⟩ := hs.hit t r hr hc.1 hc.2
    rw [hr'] at hnow
    cases hnow
    cases hst
  · rw [hs.miss t r hr hc] at hr'
    exact stateOf_eq_some.mpr ⟨r, hr, Option.some.inj hr' ▸ hst⟩

end RunningKnown

theorem Store.stateOf_congr {s s' : Store} (h : s'.taskState = s.taskState)
    (t : String) : s'.stateOf t = s.stateOf t := by
  rw [stateOf, stateOf, h]

variable {env : Env} {P : WorkflowSpec → Prop} {w w' : World}

/-- The part of `Inv` that is about caches and workflows survives whatever
keeps the shapes, the caches, and the workflows that do not run. -/
theorem Inv.step (h : Inv P w) (hs' : w'.store.Sound P)
    (hagree : Agree w'.store w'.coord) (hrunning : RunningKnown w'.store w'.coord)
    (hshape : SameShape w.store w'.store)
    (hcaches : Coordinator.SameCaches w.coord w'.coord)
    (hstop : ∀ id, w'.store.workflowStateOf id = some .running →
      w.store.workflowStateOf id = some .running) : Inv P w' := by
  refine ⟨hs', hagree, hrunning, ⟨?_, ?_⟩, ?_⟩
  · rw [hcaches.owner, hcaches.spec, hcaches.policy, hshape.workflows]
    exact h.cached.owner
  · rw [hcaches.owner, hcaches.spec]
    exact h.cached.spec
  · intro t r' hr' hrun
    obtain ⟨r, hr, _, hid, _⟩ := hshape.back hr'
    rw [hcaches.owner]
    exact h.active t r hr (by rw [hid]; exact hstop _ hrun)

theorem CompleteEffect.inv (h : Inv P w) {t e output : String}
    {result : Except CallError Unit} (heff : CompleteEffect w t e output result w')
    (hs' : w'.store.Sound P) : Inv P w' := by
  cases heff with
  | ignored _ _ => exact h
  | @accepted r now s ready _ ha hr hc hchk hcoord _ =>
    have hmem : t ∈ w.coord.assignedTasks := (Table.mem_iff_get _ _).mpr ⟨e, ha⟩
    have hforgot : t ∉ (List.foldl Coordinator.forget w.coord [t]).assignedTasks := by
      rw [Table.not_mem_iff_get, Coordinator.get_foldl_forget_assigned, if_pos (by simp)]
    have hagree := ((h.agree.forget [t]).completion hc hr
      (h.agree.not_queued_of_assigned hmem) hforgot).stops
      hchk.taskState hchk.workflows hchk.running
    have hstate := Store.stateOf_congr hchk.taskState
    have hrunning : RunningKnown w'.store
        (List.foldl Coordinator.forget w.coord [t]) := by
      apply RunningKnown.forget (s := w.store) h.running
      · intro u hu
        rw [List.mem_singleton.mp hu, hstate, stateOf_of_get hc.task]
        simp
      · intro u hu hrun
        rw [hstate] at hrun
        rcases hc.stateOf_other (by simpa using hu) with heq | ⟨_, hq⟩
        · rw [← heq, hrun]
        · rw [hq] at hrun
          cases hrun
    rw [← show List.foldl Coordinator.forget w.coord [t] = w.coord.forget t from rfl]
      at hcoord
    refine h.step hs' (by rw [hcoord]; exact hagree) (by rw [hcoord]; exact hrunning)
      ((hc.sameShape hr).trans hchk.sameShape) (by rw [hcoord]; exact ⟨rfl, rfl, rfl⟩) ?_
    intro id hrun
    have := hchk.running id hrun
    rw [workflowStateOf, hc.workflowState] at this
    exact this

/-- A task that leaves the maps is not assigned any more. -/
theorem Coordinator.not_mem_forget (c : Coordinator) (t : String) :
    t ∉ (c.forget t).assignedTasks := by
  simp [Coordinator.forget]

/-- Assigned tasks leave the maps and are queued again. -/
theorem Inv.requeued (h : Inv P w) {l : List String} (hnd : l.Nodup)
    (hl : ∀ u ∈ l, u ∈ w.coord.assignedTasks)
    (hreq : Requeues env l { w with coord := l.foldl Coordinator.forget w.coord } w')
    (hs' : w'.store.Sound P) : Inv P w' := by
  have hagree := (h.agree.forget l).requeues hreq hnd (by
    intro u hu
    obtain ⟨e, he⟩ := (Table.mem_iff_get _ _).mp (hl u hu)
    obtain ⟨r, hr, _, hst, _⟩ := h.agree.assigned u e he
    refine ⟨?_, ?_, r, hr, ?_⟩
    · rw [Coordinator.foldl_forget_readyQueue]
      exact h.agree.not_queued_of_assigned (hl u hu)
    · rw [Table.not_mem_iff_get, Coordinator.get_foldl_forget_assigned, if_pos hu]
    · rcases hst with hst | hst <;> simp [hst])
  have hrunning : RunningKnown w'.store (l.foldl Coordinator.forget w.coord) := by
    apply RunningKnown.forget (s := w.store) h.running
    · intro u hu hrun
      obtain ⟨e, he⟩ := (Table.mem_iff_get _ _).mp (hl u hu)
      obtain ⟨r, hr, _⟩ := h.agree.assigned u e he
      obtain ⟨n, now, _, _, hget⟩ := hreq.hit u r hu hr
      rw [stateOf_of_get hget] at hrun
      cases hrun
    · intro u hu hrun
      rw [stateOf, hreq.miss u hu] at hrun
      exact hrun
  have hcaches := Coordinator.sameCaches_foldl_forget w.coord l
  refine h.step hs' hagree (by rw [hreq.coord]; exact hrunning) hreq.sameShape ?_ ?_
  · rw [hreq.coord]
    exact ⟨hcaches.spec, hcaches.owner, hcaches.policy⟩
  · intro id hrun
    rw [workflowStateOf, hreq.workflowState] at hrun
    exact hrun

/-- Open tasks are given up, from a store and a memory that agree, and then
a workflow may stop. -/
theorem Inv.gaveUp (h : Inv P w) (hs' : w'.store.Sound P) {s s' : Store}
    {c : Coordinator} (hagree : Agree s c) (hrunning : RunningKnown s c)
    (hshape : SameShape w.store s) (hws : s.workflowState = w.store.workflowState)
    (hcaches : Coordinator.SameCaches w.coord c) {Q : String → Prop}
    (hg : GivesUp Q s c s' w'.coord) (htasks : w'.store.taskState = s'.taskState)
    (hworkflows : w'.store.workflows = s'.workflows)
    (hstop : ∀ i, w'.store.workflowStateOf i = some .running →
      s'.workflowStateOf i = some .running) : Inv P w' := by
  obtain ⟨gone, _, hcoord⟩ := hg.coord
  have hshape' : SameShape s' w'.store := ⟨hworkflows, fun u => by rw [htasks]⟩
  refine h.step hs' ((hagree.givesUp hg).stops htasks hworkflows hstop) ?_
    ((hshape.trans hg.store.sameShape).trans hshape') ?_ ?_
  · refine (RunningKnown.skips (c := w'.coord) ?_ hg.store).mono fun u hu => ?_
    · rw [hcoord]
      exact hrunning
    · rw [Store.stateOf_congr htasks] at hu
      exact hu
  · rw [hcoord]
    exact ⟨hcaches.spec, hcaches.owner, hcaches.policy⟩
  · intro i hrun
    have hrun' := hstop i hrun
    rw [workflowStateOf, hg.store.workflowState, hws] at hrun'
    exact hrun'

/-- What the policy does keeps the invariant, from a store and a memory that
agree. -/
theorem PolicyEffect.inv (h : Inv P w) {id t : String} {s : Store}
    {c : Coordinator} {policy : FailurePolicy}
    (heff : PolicyEffect id t s c w' policy) (hs' : w'.store.Sound P)
    (hagree : Agree s c) (hrunning : RunningKnown s c) (hshape : SameShape w.store s)
    (hws : s.workflowState = w.store.workflowState)
    (hcaches : Coordinator.SameCaches w.coord c) : Inv P w' := by
  cases heff with
  | failFast hg hclose =>
    exact h.gaveUp hs' hagree hrunning hshape hws hcaches hg hclose.taskState
      hclose.workflows fun i hrun => (hclose.running (by simp) i hrun).2
  | below _ hg hchk =>
    exact h.gaveUp hs' hagree hrunning hshape hws hcaches hg hchk.taskState
      hchk.workflows hchk.running
  | unrecognized hstore hcoord =>
    refine h.step hs' ?_ ?_ ?_ ?_ ?_
    · rw [hstore, hcoord]
      exact hagree
    · rw [hstore, hcoord]
      exact hrunning
    · rw [hstore]
      exact hshape
    · rw [hcoord]
      exact hcaches
    · intro i hrun
      rw [hstore, workflowStateOf, hws] at hrun
      exact hrun

theorem FailEffect.inv (h : Inv P w) {t e errMsg : String}
    {result : Except CallError Unit} (heff : FailEffect env w t e errMsg result w')
    (hs' : w'.store.Sound P) : Inv P w' := by
  cases heff with
  | stale _ => exact h
  | @retried r now _ ha hr _ hstore hcoord huuids =>
    have hmem : t ∈ w.coord.assignedTasks := (Table.mem_iff_get _ _).mpr ⟨e, ha⟩
    have hreq : Requeues env [t]
        { w with coord := List.foldl Coordinator.forget w.coord [t] } w' := ?_
    · exact h.requeued (by simp) (by simpa using hmem) hreq hs'
    refine ⟨?_, ?_, ?_, ?_, ?_, hcoord, ?_⟩
    · rw [hstore]
      rfl
    · rw [hstore]
      rfl
    · intro u hu
      have hne : t ≠ u := by
        rintro rfl
        rw [hr] at hu
        cases hu
      rw [hstore, get_setTask, if_neg hne]
      exact hu
    · intro u ru hu hru
      rw [List.mem_singleton.mp hu, hr] at hru
      cases hru
      refine ⟨w.uuids, now, le_rfl, by rw [huuids]; simp, ?_⟩
      rw [hstore, get_setTask, if_pos (List.mem_singleton.mp hu).symm]
    · intro u hu
      have hne : t ≠ u := fun he => hu (by simp [he])
      rw [hstore, get_setTask, if_neg hne]
    · rw [huuids]
      exact Nat.le_succ _
  | @failed r wf now _ ha hr _ _ hpol _ =>
    have hmem : t ∈ w.coord.assignedTasks := (Table.mem_iff_get _ _).mpr ⟨e, ha⟩
    obtain ⟨r₀, hr₀, _, hst, _⟩ := h.agree.assigned t e ha
    rw [hr] at hr₀
    cases hr₀
    have hnc : r.state ≠ .complete := by
      rcases hst with hst | hst <;> simp [hst]
    refine hpol.inv h hs' ?_ ?_ (sameShape_setTask hr rfl) rfl ⟨rfl, rfl, rfl⟩
    · exact (h.agree.forget [t]).setTask hr rfl hnc (by simp)
        (h.agree.not_queued_of_assigned hmem) (w.coord.not_mem_forget t)
    · refine RunningKnown.forget (s := w.store) (l := [t]) h.running ?_ ?_
      · intro u hu
        rw [Store.stateOf_setTask, if_pos (List.mem_singleton.mp hu).symm]
        simp
      · intro u hu hrun
        rw [Store.stateOf_setTask, if_neg fun he => hu (by simp [he])] at hrun
        exact hrun

/-- A call that touches neither the store nor the memory. -/
theorem Inv.unchanged (h : Inv P w) (hs' : w'.store.Sound P) (hstore : w'.store = w.store)
    (hcoord : w'.coord = w.coord) : Inv P w' := by
  refine h.step hs' ?_ ?_ ?_ ?_ ?_
  · rw [hstore, hcoord]
    exact h.agree
  · rw [hstore, hcoord]
    exact h.running
  · rw [hstore]
    exact .refl _
  · rw [hcoord]
    exact ⟨rfl, rfl, rfl⟩
  · rw [hstore]
    exact fun _ hrun => hrun

theorem CancelEffect.inv (h : Inv P w) {id : String}
    {result : Except CallError Unit} (heff : CancelEffect w id result w')
    (hs' : w'.store.Sound P) : Inv P w' := by
  cases heff with
  | cancelled _ hg hclose _ =>
    exact h.gaveUp hs' h.agree h.running (.refl _) rfl ⟨rfl, rfl, rfl⟩ hg
      hclose.taskState hclose.workflows fun i hrun => (hclose.running (by simp) i hrun).2
  | refused _ hstore hcoord _ => exact h.unchanged hs' hstore hcoord

theorem DeadWorkerEffect.inv (h : Inv P w) {workerID : String}
    (heff : DeadWorkerEffect env workerID w w') (hs' : w'.store.Sound P) :
    Inv P w' := by
  obtain ⟨l, w₁, hnd, hmem, hreq, rfl⟩ := heff.claimed
  have h₁ : Inv P w₁ := by
    refine h.requeued hnd ?_ hreq hs'
    intro u hu
    rw [← h.agree.keys]
    exact (Table.mem_iff_get _ _).mpr ⟨workerID, (hmem u).mp hu⟩
  have hagree := h₁.agree
  exact ⟨hs', ⟨hagree.nodup, hagree.queued, hagree.listed, hagree.keys,
    hagree.assigned⟩, h₁.running, ⟨h₁.cached.owner, h₁.cached.spec⟩, h₁.active⟩

/-- A task that is cached has a specification. -/
theorem Inv.spec_of_owner (h : Inv P w) {t : String}
    (ht : t ∈ w.coord.taskWorkflowMap) : t ∈ w.coord.taskSpecCache := by
  obtain ⟨id, hid⟩ := (Table.mem_iff_get _ _).mp ht
  obtain ⟨wf, _, htw, hspec, _⟩ := h.cached.owner t id hid
  rw [Std.ExtTreeMap.mem_iff_isSome_getElem?, hspec, WorkflowSpec.findTask_isSome_iff]
  exact htw

/-- The head of the queue is handed out. -/
theorem Inv.handedOut (h : Inv P w) (hs' : w'.store.Sound P) {t workerID : String}
    {rest : List String} {spec : TaskSpec} {r : TaskStateRecord} {now : Int64}
    (hq : w.coord.readyQueue = t :: rest) (hspec : w.coord.taskSpecCache[t]? = some spec)
    (hr : w.store.taskState[t]? = some r)
    (hstore : w'.store = w.store.setTask t { r with
      state := .running, executionID := env.uuid w.uuids, lastUpdated := now })
    (hcoord : w'.coord = { w.coord with
      readyQueue := rest
      runningTasks := w.coord.runningTasks.insert t workerID
      assignedTasks := w.coord.assignedTasks.insert t (env.uuid w.uuids) }) : Inv P w' := by
  have hnd := h.agree.nodup
  rw [hq, List.nodup_cons] at hnd
  have htq : t ∈ w.coord.readyQueue := by
    rw [hq]
    exact List.mem_cons_self
  obtain ⟨r₀, hr₀, hst⟩ := stateOf_eq_some.mp (h.agree.queued t htq)
  rw [hr] at hr₀
  cases hr₀
  have hshape : SameShape w.store w'.store := hstore ▸ sameShape_setTask hr rfl
  have hother : ∀ u, u ≠ t → w'.store.taskState[u]? = w.store.taskState[u]? := by
    intro u hu
    rw [hstore, get_setTask, if_neg (Ne.symm hu)]
  have htask : w'.store.taskState[t]? = some { r with
      state := .running, executionID := env.uuid w.uuids, lastUpdated := now } := by
    rw [hstore, get_setTask, if_pos rfl]
  have hmono : ∀ u, w.store.isComplete u = true → w'.store.isComplete u = true := by
    intro u hu
    obtain ⟨ru, hru, hc⟩ := isComplete_iff.mp hu
    have hut : u ≠ t := by
      rintro rfl
      rw [hr] at hru
      cases hru
      rw [hst] at hc
      cases hc
    exact isComplete_iff.mpr ⟨ru, (hother u hut).trans hru, hc⟩
  refine h.step hs' ?_ ?_ hshape (by rw [hcoord]; exact ⟨rfl, rfl, rfl⟩) ?_
  · rw [hcoord]
    refine ⟨hnd.2, ?_, ?_, ?_, ?_⟩
    · intro u hu
      have hut : u ≠ t := fun he => hnd.1 (he ▸ hu)
      rw [stateOf, hother u hut]
      exact h.agree.queued u (by rw [hq]; exact List.mem_cons_of_mem t hu)
    · intro u ru hru hstu hrun
      have hut : u ≠ t := by
        rintro rfl
        rw [htask] at hru
        cases hru
        cases hstu
      rw [hother u hut] at hru
      rw [hstore] at hrun
      have hin := h.agree.listed u ru hru hstu hrun
      rw [hq] at hin
      exact (List.mem_cons.mp hin).resolve_left hut
    · intro u
      simp only [Std.ExtTreeMap.mem_insert, h.agree.keys u]
    · intro u e hu
      rw [Table.get_insert] at hu
      split at hu
      · rename_i htu
        subst htu
        cases hu
        have hdeps := h.sound.coherent.counted.ready t r hr (by rw [hst]; rfl)
        exact ⟨_, htask, rfl, .inl rfl, hdeps.mono hshape.depsOf hmono,
          h.cached.spec t ((Table.mem_iff_get _ _).mpr ⟨spec, hspec⟩)⟩
      · rename_i htu
        obtain ⟨ru, hru, he, hstu, hdeps, hmap⟩ := h.agree.assigned u e hu
        exact ⟨ru, (hother u (Ne.symm htu)).trans hru, he, hstu,
          hdeps.mono hshape.depsOf hmono, hmap⟩
  · intro u hu
    rw [hcoord, Std.ExtTreeMap.mem_insert]
    by_cases hut : u = t
    · exact .inl (by simp [hut])
    · rw [stateOf, hother u hut] at hu
      exact .inr (h.running u hu)
  · intro id hrun
    rw [hstore] at hrun
    exact hrun

theorem ReadyEffect.inv (h : Inv P w) {workerID : String}
    {a : Option TaskAssignment} (heff : ReadyEffect env w workerID a w')
    (hs' : w'.store.Sound P) : Inv P w' := by
  cases heff with
  | empty _ => exact h
  | @unknown t rest hq hunknown =>
    have hnd := h.agree.nodup
    rw [hq, List.nodup_cons] at hnd
    refine h.step hs' ⟨hnd.2, ?_, ?_, h.agree.keys, h.agree.assigned⟩ h.running
      (.refl _) ⟨rfl, rfl, rfl⟩ fun _ hrun => hrun
    · intro u hu
      exact h.agree.queued u (by rw [hq]; exact List.mem_cons_of_mem t hu)
    · -- A task of a running workflow is cached, so it is not the dropped one.
      intro u r hr hst hrun
      have hin := h.agree.listed u r hr hst hrun
      rw [hq] at hin
      rcases List.mem_cons.mp hin with rfl | hin
      · exact absurd (h.spec_of_owner (h.active u r hr hrun)) hunknown
      · exact hin
  | assigned hq hspec hr hstore hcoord _ => exact h.handedOut hs' hq hspec hr hstore hcoord

/-- No task is stored as `RUNNING` after a restart. -/
theorem RestartEffect.not_running (hk : w.store.Keyed) (heff : RestartEffect env w w')
    (u : String) : w'.store.stateOf u ≠ some .running := by
  intro hu
  by_cases hin : u ∈ w.store.getTasksInState .running
  · obtain ⟨r, hr, _⟩ := stateOf_eq_some.mp ((mem_getTasksInState hk).mp hin)
    obtain ⟨n, now, _, _, hget⟩ := heff.hit u r hin hr
    rw [stateOf_of_get hget] at hu
    cases hu
  · rw [stateOf, heff.miss u hin] at hu
    exact hin ((mem_getTasksInState hk).mpr hu)

/-- A restart builds the invariant from a sound store alone. -/
theorem RestartEffect.inv (hs : w.store.Sound P) (heff : RestartEffect env w w')
    (hs' : w'.store.Sound P) : Inv P w' := by
  have hkeyed := hs.coherent.linked.keyed
  obtain ⟨hcached, hq, hr, ha, hactive⟩ := load_spec hs.coherent
  have hloaded : Agree w.store (({} : Coordinator).load w.store) := by
    refine ⟨?_, ?_, ?_, ?_, ?_⟩
    · rw [hq]
      exact nodup_getTasksInState hkeyed _
    · rw [hq]
      exact fun t ht => (mem_getTasksInState hkeyed).mp ht
    · rw [hq]
      intro t r hr hst _
      exact (mem_getTasksInState hkeyed).mpr (stateOf_eq_some.mpr ⟨r, hr, hst⟩)
    · rw [hr, ha]
      simp
    · rw [ha]
      intro t e ht
      simp at ht
  have hagree := Agree.requeues hloaded heff (nodup_getTasksInState hkeyed _) (by
    intro u hu
    have hrun := (mem_getTasksInState hkeyed).mp hu
    obtain ⟨r, hr, hst⟩ := stateOf_eq_some.mp hrun
    refine ⟨?_, ?_, r, hr, by simp [hst]⟩
    · intro hin
      have hqd := hloaded.queued u hin
      rw [hrun] at hqd
      cases hqd
    · rw [ha]
      simp)
  refine ⟨hs', hagree, ?_, ?_, ?_⟩
  · exact fun u hu => absurd hu (heff.not_running hkeyed u)
  · rw [heff.coord]
    refine Cached.mono (s := w.store) ⟨hcached.owner, hcached.spec⟩ ?_
    rw [heff.workflows]
    exact fun _ _ hwf => hwf
  · intro t r' hr' hrun
    obtain ⟨r, hr, _, hid, _⟩ := heff.sameShape.back hr'
    rw [workflowStateOf, heff.workflowState, ← hid] at hrun
    rw [heff.coord]
    exact hactive t r hr hrun

/-! ## Submissions -/

/-- A stored task does not belong to a fresh workflow. -/
theorem Store.Fresh.owner_ne {s : Store} (hl : s.Linked) {wf : WorkflowSpec}
    (hf : s.Fresh wf) {t : String} {r : TaskStateRecord}
    (hr : s.taskState[t]? = some r) : r.workflowID ≠ wf.workflowId := by
  obtain ⟨other, hother, _⟩ := hl.owned t r hr
  exact (hf _ _ hother).1

/-- A new workflow leaves the dependencies of the old tasks alone. -/
theorem Store.Fresh.depsOf_eq {s s' : Store} (hl : s.Linked) {wf : WorkflowSpec}
    (hf : s.Fresh wf) (hw : s'.workflows = s.workflows.insert wf.workflowId wf)
    {t : String} {r : TaskStateRecord} (hr : s.taskState[t]? = some r)
    (hr' : s'.taskState[t]? = some r) : s'.depsOf t = s.depsOf t := by
  have hne := hf.owner_ne hl hr
  simp only [Store.depsOf, specOf, ownerOf_of_get hr, ownerOf_of_get hr', hw,
    Option.bind_some, Table.get_insert_ne _ _ (Ne.symm hne)]

/-- A new workflow keeps the invariant, if the old tasks keep their records
and only new tasks enter the queue and the caches. -/
theorem Inv.extended (h : Inv P w) (hs' : w'.store.Sound P) {wf : WorkflowSpec}
    (hf : w.store.Fresh wf)
    (hworkflows : w'.store.workflows = w.store.workflows.insert wf.workflowId wf)
    {st : WorkflowStateRecord}
    (hstates : w'.store.workflowState = w.store.workflowState.insert wf.workflowId st)
    (hother : ∀ t : String, t ∉ wf.taskIDs →
      w'.store.taskState[t]? = w.store.taskState[t]?)
    (hnew : ∀ (t : String) (r : TaskStateRecord), t ∈ wf.taskIDs →
      w'.store.taskState[t]? = some r → r.state = .pending ∨ r.state = .queued)
    {roots : List String} (hnd : roots.Nodup)
    (hroots : ∀ t, t ∈ roots ↔ t ∈ wf.taskIDs ∧ w'.store.stateOf t = some .queued)
    (hqueue : w'.coord.readyQueue = w.coord.readyQueue ++ roots)
    (hrun : w'.coord.runningTasks = w.coord.runningTasks)
    (hass : w'.coord.assignedTasks = w.coord.assignedTasks)
    (hcached : Cached w'.store w'.coord)
    (howner : ∀ t, t ∈ w.coord.taskWorkflowMap ∨
      t ∈ wf.taskIDs ∧ t ∈ w'.store.taskState → t ∈ w'.coord.taskWorkflowMap) :
    Inv P w' := by
  have hl := h.sound.coherent.linked
  have hold : ∀ {t : String} {r : TaskStateRecord}, w.store.taskState[t]? = some r →
      w'.store.taskState[t]? = some r := by
    intro t r hr
    have hin : t ∉ wf.taskIDs := by
      intro hin
      rw [hf.untouched hl t hin] at hr
      cases hr
    rw [hother t hin]
    exact hr
  have hrunOld : ∀ {t : String} {r : TaskStateRecord},
      w.store.taskState[t]? = some r →
      w'.store.workflowStateOf r.workflowID = some .running →
      w.store.workflowStateOf r.workflowID = some .running := by
    intro t r hr hrun
    rw [workflowStateOf, hstates,
      Table.get_insert_ne _ _ (Ne.symm (hf.owner_ne hl hr))] at hrun
    exact hrun
  refine ⟨hs', ⟨?_, ?_, ?_, ?_, ?_⟩, ?_, hcached, ?_⟩
  · rw [hqueue, List.nodup_append]
    refine ⟨h.agree.nodup, hnd, ?_⟩
    intro a ha b hb hab
    obtain ⟨r, hr, _⟩ := stateOf_eq_some.mp (h.agree.queued a ha)
    rw [hab, hf.untouched hl b ((hroots b).mp hb).1] at hr
    cases hr
  · rw [hqueue]
    intro t ht
    rcases List.mem_append.mp ht with hin | hin
    · obtain ⟨r, hr, hst⟩ := stateOf_eq_some.mp (h.agree.queued t hin)
      exact stateOf_eq_some.mpr ⟨r, hold hr, hst⟩
    · exact ((hroots t).mp hin).2
  · rw [hqueue]
    intro t r hr hst hrunning
    rw [List.mem_append]
    by_cases hin : t ∈ wf.taskIDs
    · exact .inr ((hroots t).mpr ⟨hin, stateOf_eq_some.mpr ⟨r, hr, hst⟩⟩)
    · rw [hother t hin] at hr
      exact .inl (h.agree.listed t r hr hst (hrunOld hr hrunning))
  · rw [hrun, hass]
    exact h.agree.keys
  · rw [hass]
    intro t e ht
    obtain ⟨r, hr, he, hst, hdeps, hmap⟩ := h.agree.assigned t e ht
    refine ⟨r, hold hr, he, hst, ?_, howner t (.inl hmap)⟩
    intro d hd
    rw [hf.depsOf_eq hl hworkflows hr (hold hr)] at hd
    obtain ⟨rd, hrd, hc⟩ := isComplete_iff.mp (hdeps d hd)
    exact isComplete_iff.mpr ⟨rd, hold hrd, hc⟩
  · rw [hrun]
    intro t ht
    by_cases hin : t ∈ wf.taskIDs
    · obtain ⟨r, hr, hst⟩ := stateOf_eq_some.mp ht
      rcases hnew t r hin hr with hp | hp <;> simp [hst] at hp
    · rw [stateOf, hother t hin] at ht
      exact h.running t ht
  · intro t r hr hrunning
    by_cases hin : t ∈ wf.taskIDs
    · exact howner t (.inr ⟨hin, (Table.mem_iff_get _ _).mpr ⟨r, hr⟩⟩)
    · rw [hother t hin] at hr
      exact howner t (.inl (h.active t r hr (hrunOld hr hrunning)))

theorem SubmitEffect.inv (h : Inv P w) {wf : WorkflowSpec}
    (hf : w.store.Fresh wf) {result : Except CallError Unit}
    (heff : SubmitEffect w wf result w') (hs' : w'.store.Sound P) : Inv P w' := by
  have hl := h.sound.coherent.linked
  have hmono : w'.store.workflows = w.store.workflows.insert wf.workflowId wf →
      ∀ (id : String) (other : WorkflowSpec), w.store.workflows[id]? = some other →
        w'.store.workflows[id]? = some other := by
    intro hw id other hother
    rw [hw, Table.get_insert_ne _ _ (Ne.symm (hf id other hother).1), hother]
  cases heff with
  | refused hstore hcoord _ => exact h.unchanged hs' hstore hcoord
  | @halted _ now _ _ hstore hcoord _ =>
    have huntouched : ∀ t ∈ wf.taskIDs, w'.store.taskState[t]? = none := by
      intro t ht
      rw [hstore]
      exact hf.untouched hl t ht
    have hworkflows : w'.store.workflows
        = w.store.workflows.insert wf.workflowId wf := by rw [hstore]; rfl
    refine h.extended hs' hf hworkflows (by rw [hstore]; rfl)
      (fun t _ => by rw [hstore]; rfl) ?_ List.nodup_nil ?_ (by simp [hcoord])
      (by rw [hcoord]) (by rw [hcoord]) ?_ ?_
    · intro t r ht hr
      rw [huntouched t ht] at hr
      cases hr
    · intro t
      simp only [List.not_mem_nil, false_iff, not_and]
      intro ht hq
      rw [stateOf, huntouched t ht] at hq
      cases hq
    · rw [hcoord]
      exact h.cached.mono (hmono hworkflows)
    · rw [hcoord]
      rintro t (ht | ⟨ht, hin⟩)
      · exact ht
      · obtain ⟨r, hr⟩ := (Table.mem_iff_get _ _).mp hin
        rw [huntouched t ht] at hr
        cases hr
  | @launched dag roots _ hl =>
    obtain ⟨c, hcaches, hcoord⟩ := hl.coord
    obtain ⟨now, hstates⟩ := hl.workflowState
    refine h.extended hs' hf hl.workflows hstates hl.other ?_ hl.nodup_roots ?_
      (by rw [hcoord, Coordinator.enqueue_readyQueue, hcaches.readyQueue])
      (by rw [hcoord, Coordinator.enqueue_runningTasks, hcaches.runningTasks])
      (by rw [hcoord, Coordinator.enqueue_assignedTasks, hcaches.assignedTasks]) ?_ ?_
    · intro t r ht hr
      obtain ⟨stamp, hget⟩ := hl.task t ht
      rw [hget] at hr
      cases hr
      dsimp only
      split
      · exact .inr rfl
      · exact .inl rfl
    · intro t
      rw [hl.mem_roots]
      refine and_congr_right fun ht => ?_
      obtain ⟨stamp, hget⟩ := hl.task t ht
      rw [stateOf_of_get hget]
      by_cases hd : wf.dependenciesOf t = [] <;> simp [hd]
    · rw [hcoord]
      have hwf : w'.store.workflows[wf.workflowId]? = some wf := by
        rw [hl.workflows, Table.get_insert, if_pos rfl]
      have hnew := (h.cached.mono (hmono hl.workflows)).caches hcaches hwf
      exact ⟨hnew.owner, hnew.spec⟩
    · rw [hcoord, Coordinator.enqueue_taskWorkflowMap]
      intro t ht
      rw [hcaches.mem_owner]
      rcases ht with ht | ⟨ht, _⟩
      · exact .inr ht
      · exact .inl ht

/-! ## Runs -/

/-- What one call does. -/
inductive Effect (env : Env) (w : World) : Call → Reply → World → Prop where
  | submitWorkflow {orders : DagOrders} {wf : WorkflowSpec}
      {result : Except CallError Unit} {w' : World} :
      SubmitEffect w wf result w' →
      Effect env w (.submitWorkflow orders wf) (.status result) w'
  | getReadyTask {workerID : String} {a : Option TaskAssignment} {w' : World} :
      ReadyEffect env w workerID a w' →
      Effect env w (.getReadyTask workerID) (.assignment a) w'
  | completeTask {t e output : String} {result : Except CallError Unit}
      {w' : World} : CompleteEffect w t e output result w' →
      Effect env w (.completeTask t e output) (.status result) w'
  | failTask {t e errMsg : String} {result : Except CallError Unit} {w' : World} :
      FailEffect env w t e errMsg result w' →
      Effect env w (.failTask t e errMsg) (.status result) w'
  | cancelWorkflow {id : String} {result : Except CallError Unit} {w' : World} :
      CancelEffect w id result w' →
      Effect env w (.cancelWorkflow id) (.status result) w'
  | handleDeadWorker {order : RangeOrder String} {workerID : String} {w' : World} :
      DeadWorkerEffect env workerID w w' →
      Effect env w (.handleDeadWorker order workerID) (.status (.ok ())) w'
  | restart {w' : World} : RestartEffect env w w' →
      Effect env w .restart .restarted w'

/-- The call submits nothing, or a workflow that `P` holds of and whose IDs
are fresh. -/
def Call.Admissible (P : WorkflowSpec → Prop) (w : World) (c : Call) : Prop :=
  ∀ wf, c.submits = some wf → P wf ∧ w.store.Fresh wf

/-- Every call has its effect, and keeps the store sound on the way. -/
theorem Call.effect (h : Inv P w) (c : Call) (hadm : c.Admissible P w) :
    c.prog.wp (Action.handle env) (Keeps P) (Effect env w c) w := by
  cases c with
  | submitWorkflow orders wf =>
    obtain ⟨hP, hf⟩ := hadm wf rfl
    rw [Call.prog, Prog.wp_bind]
    exact Prog.wp_mono (fun _ _ => .submitWorkflow) _
      (wp_submitWorkflow h.sound orders hP hf)
  | getReadyTask workerID =>
    rw [Call.prog, Prog.wp_bind]
    exact Prog.wp_mono (fun _ _ => .getReadyTask) _ (wp_getReadyTask h workerID)
  | completeTask t e output =>
    rw [Call.prog, Prog.wp_bind]
    exact Prog.wp_mono (fun _ _ => .completeTask) _ (wp_completeTask h t e output)
  | failTask t e errMsg =>
    rw [Call.prog, Prog.wp_bind]
    exact Prog.wp_mono (fun _ _ => .failTask) _ (wp_failTask h t e errMsg)
  | cancelWorkflow id =>
    rw [Call.prog, Prog.wp_bind]
    exact Prog.wp_mono (fun _ _ => .cancelWorkflow) _ (wp_cancelWorkflow h id)
  | handleDeadWorker order workerID =>
    rw [Call.prog, Prog.wp_bind]
    refine Prog.wp_mono ?_ _ (wp_handleDeadWorker h order workerID)
    rintro _ w' ⟨rfl, heff⟩
    exact .handleDeadWorker heff
  | restart =>
    rw [Call.prog, Prog.wp_bind]
    exact Prog.wp_mono (fun _ _ => .restart) _ (wp_restart h.sound)

/-- Every effect keeps the invariant. -/
theorem Effect.inv (h : Inv P w) {c : Call} (hadm : c.Admissible P w)
    {reply : Reply} (heff : Effect env w c reply w') (hs' : w'.store.Sound P) :
    Inv P w' := by
  cases heff with
  | submitWorkflow heff => exact heff.inv h (hadm _ rfl).2 hs'
  | getReadyTask heff => exact heff.inv h hs'
  | completeTask heff => exact heff.inv h hs'
  | failTask heff => exact heff.inv h hs'
  | cancelWorkflow heff => exact heff.inv h hs'
  | handleDeadWorker heff => exact heff.inv h hs'
  | restart heff => exact heff.inv h.sound hs'

end DagScheduler
