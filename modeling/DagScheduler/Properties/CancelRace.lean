import DagScheduler.Coordinator.Moves
import DagScheduler.Coordinator.Runs

/-!
# Cancellation against completion

The steps of one `CancelWorkflow` and of any number of `CompleteTask` calls
interleave.  When all have returned, the ready queue should hold no task of
the cancelled workflow: `Drained`.

`CompleteTask` makes tasks ready in its transaction and appends them to the
queue in a later section.  `CancelWorkflow` skips the open tasks in its
transaction and filters the queue in a later section.  If the filter falls
between the two steps of a completion, the append comes too late for it, and
a cancelled task is back in the queue.  This is the only way it can happen.

The invariant follows the cancelling call.  Before its transaction, every
task that is in the queue or on its way there is `QUEUED`.  Between the
transaction and the filter those of the workflow are in its list of cancelled
tasks.  After the filter there are none.
-/

namespace DagScheduler

open Lib Store

/-! ## The property -/

/-- No task of the workflow is queued, and none is handed out by any
`GetReadyTask` calls that follow. -/
structure Drained (env : Env) (id : String) (w : World) : Prop where
  queue : ∀ t ∈ w.coord.readyQueue, w.store.ownerOf t ≠ some id
  later : ∀ (workers : List String) (k : String) (a : TaskAssignment),
    (Call.getReadyTask k, Reply.assignment (some a)) ∈
      historyFrom env w (workers.map .getReadyTask) →
    w.store.ownerOf a.taskId ≠ some id

/-- The last step of some thread is a completion that made a task ready, so
that the task is not in the queue yet. -/
def Unpublished (env : Env) (es : List (Event Call Action World)) : Prop :=
  ∃ i ev, lastOf i es = some ev ∧ ev.action.completes.isSome = true ∧
    ∃ u, Released ev.before.store (ev.after (Action.handle env)).store u

/-- An empty queue for the workflow stays so while tasks are handed out. -/
theorem drained_of_queue (env : Env) {id : String} {w : World} (hk : w.store.Keyed)
    (hqueue : ∀ t ∈ w.coord.readyQueue, w.store.ownerOf t ≠ some id) : Drained env id w := by
  refine ⟨hqueue, ?_⟩
  intro workers
  induction workers generalizing w with
  | nil =>
    intro k a h
    cases h
  | cons k' workers ih =>
    intro k a h
    have hcases : ReadyCases env w k' (w.getReadyTask env k') := w.getReadyTask_cases hk k'
    have hexec : (Call.getReadyTask k').exec env w
        = (.assignment (w.getReadyTask env k').1, (w.getReadyTask env k').2) := rfl
    rw [List.map_cons, historyFrom, hexec] at h
    have hshape : SameShape w.store (w.getReadyTask env k').2.store :=
      (Moves.ready hcases).sameShape
    have hrest : ∀ t ∈ (w.getReadyTask env k').2.coord.readyQueue, t ∈ w.coord.readyQueue := by
      generalize w.getReadyTask env k' = out at hcases
      cases hcases with
      | empty _ => exact fun t ht => ht
      | _ hq => exact fun t ht => hq ▸ List.mem_cons_of_mem _ ht
    rcases List.mem_cons.mp h with heq | hlater
    · -- The task that is handed out was the head of the queue.
      have hassign : (w.getReadyTask env k').1 = some a := by
        injection heq with _ hreply
        injection hreply with ha
        exact ha.symm
      generalize w.getReadyTask env k' = out at hcases hassign
      cases hcases with
      | assigned hq _ _ =>
        cases hassign
        exact hqueue _ (hq ▸ List.mem_cons_self)
      | _ => cases hassign
    · rw [← hshape.ownerOf]
      refine ih (hshape.keyed hk) ?_ k a hlater
      intro t ht
      rw [hshape.ownerOf]
      exact hqueue t (hrest t ht)

/-! ## The invariant -/

/-- The task is in the queue or on its way there. -/
def Waiting (c : Coordinator) (ps : List (Call × Point)) (t : String) : Prop :=
  t ∈ c.readyQueue ∨ ∃ q ∈ ps, t ∈ q.2.unpublished

/-- The task has been assigned, and is not going back to the queue. -/
def Store.Started (s : Store) (t : String) : Prop :=
  s.stateOf t = some .running ∨ s.stateOf t = some .skipped ∨ s.stateOf t = some .complete

/-- No task of the workflow waits for its dependencies. -/
def Store.NoPending (s : Store) (id : String) : Prop :=
  ∀ t, s.ownerOf t = some id → s.stateOf t ≠ some .pending

/-- What holds while the cancelling call is at the point. -/
def Phase (id : String) (s : Store) (waiting : String → Prop) : Point → Prop
  | .cancelTasks _ => ∀ t, waiting t → s.stateOf t = some .queued
  | .cancelDrop _ cancelled =>
      s.NoPending id ∧ ∀ t, waiting t → s.ownerOf t = some id → t ∈ cancelled
  | _ => s.NoPending id ∧ ∀ t, waiting t → s.ownerOf t ≠ some id

/-- Where the cancelling call is.  A call that has not been started is at its
first point. -/
def cancelPoint (id : String) (i : Nat) (ps : List (Call × Point)) : Point :=
  (ps[i]?.map (·.2)).getD (.cancelTasks id)

/-- The invariant between two steps. -/
structure Racing (id : String) (i : Nat) (s : Store) (c : Coordinator)
    (ps : List (Call × Point)) : Prop where
  assigned : ∀ t, t ∈ c.assignedTasks → s.Started t
  committing : ∀ q ∈ ps, ∀ t e output, q.2 = .completeCommit t e output → s.Started t
  phase : Phase id s (Waiting c ps) (cancelPoint id i ps)

/-- The points of `CancelWorkflow`. -/
def Point.cancelling (id : String) : Point → Bool
  | .done => true
  | .cancelTasks i | .cancelDrop i _ | .cancelClose i => i = id
  | _ => false

theorem Point.cancelling_of {id : String} {p : Point} (h : p.Of (.cancelWorkflow id)) :
    p.cancelling id = true := by
  cases p <;> simp_all [Point.Of, Point.cancelling]

/-! ## Steps of a completion -/

section Steps

variable {id : String} {i : Nat} {s s' : Store} {c c' : Coordinator}
  {ps : List (Call × Point)} {p p' : Point}

/-- The phase after a step that leaves the cancelling call where it is. -/
theorem Phase.mono {waiting waiting' : String → Prop} (h : Phase id s waiting p)
    (hwaiting : ∀ t, waiting' t → waiting t ∨ Released s s' t)
    (hqueued : ∀ t, s.stateOf t = some .queued → s'.stateOf t = some .queued)
    (hpending : ∀ t, s'.stateOf t = some .pending → s.stateOf t = some .pending)
    (howner : ∀ t, s'.ownerOf t = s.ownerOf t) : Phase id s' waiting' p := by
  have hnone : s.NoPending id → s'.NoPending id := by
    intro hno t ht hp
    rw [howner] at ht
    exact hno t ht (hpending t hp)
  have hold : s.NoPending id → ∀ t, waiting' t → s'.ownerOf t = some id → waiting t := by
    intro hno t ht how
    rw [howner] at how
    rcases hwaiting t ht with ht | hrel
    · exact ht
    · exact absurd hrel.1 (hno t how)
  have hafter : (s.NoPending id ∧ ∀ t, waiting t → s.ownerOf t ≠ some id) →
      s'.NoPending id ∧ ∀ t, waiting' t → s'.ownerOf t ≠ some id := by
    intro h
    obtain ⟨hno, hw⟩ := h
    exact ⟨hnone hno, fun t ht how => hw t (hold hno t ht how) (howner t ▸ how)⟩
  cases p with
  | cancelTasks _ =>
    intro t ht
    rcases hwaiting t ht with ht | hrel
    · exact hqueued t (h t ht)
    · exact hrel.2
  | cancelDrop _ cancelled =>
    obtain ⟨hno, hw⟩ := h
    exact ⟨hnone hno, fun t ht how => hw t (hold hno t ht how) (howner t ▸ how)⟩
  | _ => exact hafter h

/-- A completion of a started task moves no other started or queued task back. -/
theorem Store.Completion.started {now : Int64} {t output : String} {r : TaskStateRecord}
    {ready : List String} (hc : Completion now t output r s s' ready) {u : String}
    (hu : s.Started u) : s'.Started u := by
  by_cases hut : u = t
  · subst hut
    exact .inr (.inr (stateOf_of_get hc.task))
  · rcases hc.stateOf_other hut with heq | hrel
    · rw [Started, heq]
      exact hu
    · rcases hu with hu | hu | hu <;> rw [hrel.1] at hu <;> cases hu

theorem cancelPoint_set_ne {j : Nat} (hj : j ≠ i) (q : Call × Point) :
    cancelPoint id i (ps.set j q) = cancelPoint id i ps := by
  rw [cancelPoint, cancelPoint, List.getElem?_set_ne hj]

theorem cancelPoint_set {q q' : Call × Point} (hq : ps[i]? = some q) :
    cancelPoint id i (ps.set i q') = q'.2 := by
  rw [cancelPoint, List.getElem?_set_self (List.getElem?_eq_some_iff.mp hq).1]
  rfl

/-- What waits after a step waited before, or the thread that moved has it. -/
theorem Waiting.of_set {j : Nat} {l : Call} {t : String}
    (h : Waiting c' (ps.set j (l, p')) t) :
    t ∈ c'.readyQueue ∨ t ∈ p'.unpublished ∨ ∃ q ∈ ps, t ∈ q.2.unpublished := by
  rcases h with h | ⟨q, hq, ht⟩
  · exact .inl h
  · rcases List.mem_or_eq_of_mem_set hq with hq | rfl
    · exact .inr (.inr ⟨q, hq, ht⟩)
    · exact .inr (.inl ht)

/-- The invariant after a step of another call. -/
theorem Racing.set (h : Racing id i s c ps) {j : Nat} (hj : j ≠ i) (l : Call)
    (hstarted : ∀ t, s.Started t → s'.Started t)
    (hassigned : ∀ t, t ∈ c'.assignedTasks → t ∈ c.assignedTasks)
    (hcommit : ∀ t e output, p' = .completeCommit t e output → s'.Started t)
    (hwaiting : ∀ t, t ∈ c'.readyQueue ∨ t ∈ p'.unpublished →
      Waiting c ps t ∨ Released s s' t)
    (hqueued : ∀ t, s.stateOf t = some .queued → s'.stateOf t = some .queued)
    (hpending : ∀ t, s'.stateOf t = some .pending → s.stateOf t = some .pending)
    (howner : ∀ t, s'.ownerOf t = s.ownerOf t) : Racing id i s' c' (ps.set j (l, p')) := by
  refine ⟨fun t ht => hstarted t (h.assigned t (hassigned t ht)), ?_, ?_⟩
  · intro q hq t e output hpoint
    rcases List.mem_or_eq_of_mem_set hq with hq | rfl
    · exact hstarted t (h.committing q hq t e output hpoint)
    · exact hcommit t e output hpoint
  · rw [cancelPoint_set_ne hj]
    refine h.phase.mono ?_ hqueued hpending howner
    intro t ht
    rcases ht.of_set with ht | ht | ht
    · exact hwaiting t (.inl ht)
    · exact hwaiting t (.inr ht)
    · exact .inl (.inr ht)

/-- A step that only looks, or that closes a workflow. -/
theorem Racing.quiet (h : Racing id i s c ps) {j : Nat} (hj : j ≠ i) (l : Call)
    (htasks : s'.taskState = s.taskState)
    (hcommit : ∀ t e output, p' = .completeCommit t e output → s.Started t)
    (hready : p'.unpublished = []) : Racing id i s' c (ps.set j (l, p')) := by
  have hstate : ∀ t, s'.stateOf t = s.stateOf t := by
    intro t
    rw [stateOf, htasks, stateOf]
  have howner : ∀ t, s'.ownerOf t = s.ownerOf t := by
    intro t
    rw [ownerOf, htasks, ownerOf]
  have hstarted : ∀ t, s.Started t → s'.Started t := by
    intro t ht
    rw [Started, hstate]
    exact ht
  refine h.set hj l hstarted (fun _ ht => ht)
    (fun t e output hp => hstarted t (hcommit t e output hp)) ?_
    (fun t ht => (hstate t).trans ht) (fun t ht => (hstate t).symm.trans ht) howner
  intro t ht
  rw [hready] at ht
  rcases ht with ht | ht
  · exact .inl (.inl ht)
  · cases ht

variable {env : Env} {w w' : World} {ev : Event Call Action World}

/-- A step of `CompleteTask` keeps the invariant. -/
theorem Racing.complete (h : Racing id i w.store w.coord ps)
    (hstep : StepOf env ps w ev p p' w') (hcomp : p.completing = true) (hne : ev.thread ≠ i) :
    Racing id i w'.store w'.coord (ps.set ev.thread (ev.label, p')) := by
  have hq := List.mem_of_getElem? hstep.point
  cases hstep.moves with
  | reads hr =>
    refine h.quiet hne _ rfl ?_ hr.unpublished
    rintro t e output rfl
    cases hr with
    | completeOurs ha => exact h.assigned t ((Table.mem_iff_get _ _).mpr ⟨e, ha⟩)
    | skipStart hskip => cases hskip
    | skipRead hskip => cases hskip
  | draws hd => cases hd <;> cases hcomp
  | writes hw =>
    cases hw with
    | completeRefused _ => exact h.quiet hne _ rfl (by simp) rfl
    | completeAgain _ _ _ => exact h.quiet hne _ rfl (by simp) rfl
    | close _ => exact h.quiet hne _ rfl (by simp) rfl
    | closeRefused _ => exact h.quiet hne _ rfl (by simp) rfl
    | @complete t e output r s' ready hr _ _ hc =>
      have hstarted := h.committing _ hq t e output rfl
      refine h.set hne _ (fun u hu => hc.started hu) (fun _ hu => hu) (by simp) ?_ ?_ ?_
        (hc.sameShape hr).ownerOf
      · intro u hu
        rcases hu with hu | hu
        · exact .inl (.inl hu)
        · exact .inr ((hc.mem_ready u).mp hu)
      · -- The completed task was not queued.
        intro u hu
        have hut : u ≠ t := by
          rintro rfl
          rcases hstarted with hst | hst | hst <;> rw [hu] at hst <;> cases hst
        rcases hc.stateOf_other hut with heq | hrel
        · exact heq.trans hu
        · exact hrel.2
      · intro u hu
        have hut : u ≠ t := by
          rintro rfl
          rw [World.wrote_store, stateOf_of_get hc.task] at hu
          cases hu
        rcases hc.stateOf_other hut with heq | hrel
        · exact heq.symm.trans hu
        · exact hrel.1
    | _ => cases hcomp
  | locks hl =>
    cases hl with
    | @complete t ready =>
      refine h.set hne _ (fun _ hu => hu) ?_ (by simp) ?_ (fun _ hu => hu) (fun _ hu => hu)
        (fun _ => rfl)
      · exact fun u hu => (Std.ExtTreeMap.mem_erase.mp hu).2
      · intro u hu
        rcases hu with hu | hu
        · rcases List.mem_append.mp hu with hu | hu
          · exact .inl (.inl hu)
          · exact .inl (.inr ⟨_, hq, hu⟩)
        · cases hu
    | _ => cases hcomp
  | ready _ => cases hcomp

/-! ## Steps of the cancellation -/

/-- Giving up tasks makes open ones `SKIPPED` and leaves the others. -/
theorem Store.Skips.stateOf_cases {P : String → Prop} (hskips : Skips P s s') (t : String) :
    s'.stateOf t = s.stateOf t ∨ s'.stateOf t = some .skipped := by
  cases hr : s.taskState[t]? with
  | none => exact .inl (by rw [stateOf, stateOf, hr, hskips.absent t hr])
  | some r =>
    by_cases hc : P t ∧ r.state.terminal = false
    · obtain ⟨now, hnow⟩ := hskips.hit t r hr hc.1 hc.2
      exact .inr (stateOf_of_get hnow)
    · exact .inl (by rw [stateOf_of_get hr, stateOf_of_get (hskips.miss t r hr hc)])

theorem Store.Skips.started {P : String → Prop} (hskips : Skips P s s') {t : String}
    (ht : s.Started t) : s'.Started t := by
  rcases hskips.stateOf_cases t with heq | hskipped
  · rw [Started, heq]
    exact ht
  · exact .inr (.inl hskipped)

/-- After the transaction of `CancelWorkflow` no task of the workflow waits. -/
theorem Store.Skips.noPending (hskips : Skips (fun u => s.ownerOf u = some id) s s') :
    s'.NoPending id := by
  intro t ht hp
  rw [hskips.sameShape.ownerOf] at ht
  obtain ⟨r, hr, _⟩ := ownerOf_eq_some.mp ht
  by_cases hopen : r.state.terminal = false
  · obtain ⟨now, hnow⟩ := hskips.hit t r hr ht hopen
    rw [stateOf_of_get hnow] at hp
    cases hp
  · rw [stateOf_of_get (hskips.miss t r hr fun hc => hopen hc.2)] at hp
    injection hp with hst
    rw [hst] at hopen
    exact hopen rfl

theorem Store.isOpen_of_queued {t : String} (h : s.stateOf t = some .queued) : s.isOpen t := by
  obtain ⟨r, hr, hst⟩ := stateOf_eq_some.mp h
  exact ⟨r, hr, by rw [hst]; rfl⟩

/-- A step of `CancelWorkflow` keeps the invariant, if nothing is unpublished
when it filters the queue. -/
theorem Racing.cancel (h : Racing id i w.store w.coord ps)
    (hstep : StepOf env ps w ev p p' w') (hcancel : p.cancelling id = true)
    (hi : ev.thread = i)
    (hfilter : ev.action.isSection = true → ∀ q ∈ ps, q.2.unpublished = []) :
    Racing id i w'.store w'.coord (ps.set ev.thread (ev.label, p')) := by
  have hpoint := hstep.point
  rw [hi] at hpoint ⊢
  have hphase := h.phase
  rw [cancelPoint, hpoint] at hphase
  -- The cancelling call commits no completion, so only the phase changes.
  suffices hgoal : (∀ t, w.store.Started t → w'.store.Started t) ∧
      w'.coord.assignedTasks = w.coord.assignedTasks ∧
      (∀ t e output, p' ≠ .completeCommit t e output) ∧
      Phase id w'.store (Waiting w'.coord (ps.set i (ev.label, p'))) p' by
    obtain ⟨hstarted, hassigned, hcommit, hnew⟩ := hgoal
    refine ⟨?_, ?_, ?_⟩
    · rw [hassigned]
      exact fun t ht => hstarted t (h.assigned t ht)
    · intro q hq t e output hp
      rcases List.mem_or_eq_of_mem_set hq with hq | rfl
      · exact hstarted t (h.committing q hq t e output hp)
      · exact absurd hp (hcommit t e output)
    · rw [cancelPoint_set hpoint]
      exact hnew
  obtain ⟨next, hmove⟩ := hstep.action
  cases hstep.moves with
  | reads hr => cases hr <;> cases hcancel
  | draws hd => cases hd <;> cases hcancel
  | ready _ => cases hcancel
  | writes hw =>
    cases hw with
    | @cancel j cancelled s' hskips hmem =>
      obtain rfl : j = id := of_decide_eq_true hcancel
      refine ⟨fun t ht => hskips.started ht, rfl, by simp, hskips.noPending, ?_⟩
      intro t ht how
      rw [World.wrote_store, hskips.sameShape.ownerOf] at how
      refine (hmem t).mpr ⟨how, isOpen_of_queued (hphase t ?_)⟩
      rcases ht.of_set with ht | ht | ht
      · exact .inl ht
      · cases ht
      · exact .inr ht
    | cancelClose _ | cancelCloseRefused _ =>
      refine ⟨fun t ht => ht, rfl, by simp, hphase.1, ?_⟩
      intro t ht
      rcases ht.of_set with ht | ht | ht
      · exact hphase.2 t (.inl ht)
      · cases ht
      · exact hphase.2 t (.inr ht)
    | _ => cases hcancel
  | locks hl =>
    cases hl with
    | @cancel j cancelled =>
      have hsection : ev.action.isSection = true := by
        rcases ev with ⟨_, _, act, _, _⟩
        cases hmove
        rfl
      have hnone := hfilter hsection
      refine ⟨fun t ht => ht, rfl, by simp, hphase.1, ?_⟩
      intro t ht how
      rcases ht.of_set with ht | ht | ⟨q, hq, ht⟩
      · obtain ⟨hin, hout⟩ := (Coordinator.mem_dropFromQueue _ _).mp ht
        exact hout (hphase.2 t (.inl hin) how)
      · cases ht
      · rw [hnone q hq] at ht
        cases ht
    | _ => cases hcancel

end Steps

/-! ## Runs -/

section Runs

variable {env : Env} {w₀ w : World} {es : List (Event Call Action World)}
  {ps : List (Call × Point)} {ts : List (Thread Call Action Reply)} {id : String} {i : Nat}

/-- The last step of a call that has tasks to append is its completion. -/
theorem run_unpublished (hrun : coordinator.Run (Action.handle env) w₀ es ps w)
    (hk : w₀.store.Keyed) {q : Call × Point} (hq : q ∈ ps) {u : String}
    (hu : u ∈ q.2.unpublished) : Unpublished env es := by
  suffices h : ∀ (j : Nat) (l : Call) (p : Point) (u : String), ps[j]? = some (l, p) →
      u ∈ p.unpublished → ∃ ev, lastOf j es = some ev ∧ ev.action.completes.isSome = true ∧
        Released ev.before.store (ev.after (Action.handle env)).store u by
    obtain ⟨j, hj⟩ := List.mem_iff_getElem?.mp hq
    obtain ⟨ev, hlast, hcompletes, hrel⟩ := h j q.1 q.2 u hj hu
    exact ⟨j, ev, hlast, hcompletes, u, hrel⟩
  refine run_invariant (I := fun es ps _ => ∀ (j : Nat) (l : Call) (p : Point) (u : String),
    ps[j]? = some (l, p) → u ∈ p.unpublished →
      ∃ ev, lastOf j es = some ev ∧ ev.action.completes.isSome = true ∧
        Released ev.before.store (ev.after (Action.handle env)).store u) hk (by simp) ?_ ?_ hrun
  · intro es ps w c _ ih j l p u hj hu
    rw [List.getElem?_append] at hj
    split at hj
    · exact ih j l p u hj hu
    · rw [List.getElem?_singleton] at hj
      split at hj
      · cases hj
        cases c <;> cases hu
      · cases hj
  · intro es ps w ev p p' w' _ hstep ih j l p'' u hj hu
    by_cases hij : ev.thread = j
    · subst hij
      rw [List.getElem?_set_self (List.getElem?_eq_some_iff.mp hstep.point).1] at hj
      cases hj
      obtain ⟨hrel, t, e, output, rfl⟩ := hstep.moves.unpublished hu
      refine ⟨ev, lastOf_append_self rfl, ?_, ?_⟩
      · obtain ⟨next, hmove⟩ := hstep.action
        rcases ev with ⟨_, _, act, _, _⟩
        cases hmove
        rfl
      · rw [hstep.before, hstep.after]
        exact hrel
    · rw [List.getElem?_set_ne hij] at hj
      rw [lastOf_append_ne hij]
      exact ih j l p'' u hj hu

/-- Between two operations the queue and the assigned tasks are as the
invariant wants them. -/
theorem Inv.racing {P : WorkflowSpec → Prop} (h : Inv P w) (id : String) (i : Nat) :
    Racing id i w.store w.coord [] := by
  refine ⟨?_, by simp, ?_⟩
  · intro t ht
    obtain ⟨e, he⟩ := (Table.mem_iff_get _ _).mp ht
    obtain ⟨r, hr, _, hst, _⟩ := h.agree.assigned t e he
    rcases hst with hst | hst
    · exact .inl (by rw [stateOf_of_get hr, hst])
    · exact .inr (.inl (by rw [stateOf_of_get hr, hst]))
  · intro t ht
    rcases ht with ht | ⟨q, hq, _⟩
    · exact h.agree.queued t ht
    · cases hq

/-- One thread cancels the workflow, and the others complete tasks. -/
def Against (id : String) (i : Nat) (ls : List Call) : Prop :=
  ∀ j l, ls[j]? = some l →
    (j = i → l = .cancelWorkflow id) ∧ (j ≠ i → ∃ t e output, l = .completeTask t e output)

theorem Against.of_append {ls : List Call} {l : Call} (h : Against id i (ls ++ [l])) :
    Against id i ls := by
  intro j l' hj
  refine h j l' ?_
  rw [List.getElem?_append_left (List.getElem?_eq_some_iff.mp hj).1]
  exact hj

theorem Against.set {ps : List (Call × Point)} {j : Nat} {l : Call} {p p' : Point}
    (hj : ps[j]? = some (l, p)) (h : Against id i ((ps.set j (l, p')).map (·.1))) :
    Against id i (ps.map (·.1)) := by
  rw [labels_set hj] at h
  exact h

/-- A call that is started is at a point with nothing to publish. -/
theorem Racing.spawn (h : Racing id i w.store w.coord ps) {c : Call}
    (hagainst : Against id i (ps.map (·.1) ++ [c])) :
    Racing id i w.store w.coord (ps ++ [(c, coordinator.init c)]) := by
  refine ⟨h.assigned, ?_, ?_⟩
  · intro q hq t e output hp
    rcases List.mem_append.mp hq with hq | hq
    · exact h.committing q hq t e output hp
    · rw [List.mem_singleton.mp hq] at hp
      cases c <;> cases hp
  · have hpoint : cancelPoint id i (ps ++ [(c, coordinator.init c)]) = cancelPoint id i ps := by
      rw [cancelPoint, cancelPoint, List.getElem?_append]
      split
      · rfl
      · rename_i hlen
        rw [List.getElem?_eq_none (Nat.le_of_not_lt hlen), List.getElem?_singleton]
        split
        · rename_i hzero
          -- The thread that is started is the cancelling one.
          have hlast : (ps.map (·.1) ++ [c])[i]? = some c := by
            have hi : i = (ps.map (·.1)).length := by
              rw [List.length_map]
              omega
            rw [hi, List.getElem?_concat_length]
          rw [(hagainst i c hlast).1 rfl]
          rfl
        · rfl
    rw [hpoint]
    refine h.phase.mono ?_ (fun _ ht => ht) (fun _ ht => ht) (fun _ => rfl)
    intro t ht
    rcases ht with ht | ⟨q, hq, ht⟩
    · exact .inl (.inl ht)
    · rcases List.mem_append.mp hq with hq | hq
      · exact .inl (.inr ⟨q, hq, ht⟩)
      · rw [List.mem_singleton.mp hq] at ht
        cases c <;> cases ht

theorem racing_run (hrun : coordinator.Run (Action.handle env) w₀ es ps w)
    (hk : w₀.store.Keyed) (h₀ : Racing id i w₀.store w₀.coord [])
    (hagainst : Against id i (ps.map (·.1)))
    (hfilter : ∀ pre ev, pre ++ [ev] <+: es → ev.thread = i → ev.action.isSection = true →
      ¬ Unpublished env pre) :
    Racing id i w.store w.coord ps := by
  revert hagainst hfilter
  refine run_invariant (I := fun es ps w => Against id i (ps.map (·.1)) →
    (∀ pre ev, pre ++ [ev] <+: es → ev.thread = i → ev.action.isSection = true →
      ¬ Unpublished env pre) → Racing id i w.store w.coord ps) hk ?_ ?_ ?_ hrun
  · exact fun _ _ => h₀
  · intro es ps w c _ ih hagainst hfilter
    rw [List.map_append] at hagainst
    exact (ih hagainst.of_append hfilter).spawn hagainst
  · intro es ps w ev p p' w' hps hstep ih hagainst hfilter
    have hagainst := Against.set hstep.point hagainst
    have hracing := ih hagainst fun pre e hpre => hfilter pre e
      (hpre.trans (List.prefix_append es [ev]))
    have hof := run_of hps hk _ (List.mem_of_getElem? hstep.point)
    have hlabel : (ps.map (·.1))[ev.thread]? = some ev.label := by
      rw [List.getElem?_map, hstep.point]
      rfl
    by_cases hi : ev.thread = i
    · have hcancel := (hagainst _ _ hlabel).1 hi
      rw [hcancel] at hof
      refine hracing.cancel hstep (Point.cancelling_of hof) hi ?_
      intro hsection q hq
      by_contra hne
      obtain ⟨u, hu⟩ := List.exists_mem_of_ne_nil _ hne
      exact hfilter es ev (List.prefix_rfl) hi hsection (run_unpublished hps hk hq hu)
    · obtain ⟨t, e, output, hcomplete⟩ := (hagainst _ _ hlabel).2 hi
      rw [hcomplete] at hof
      exact hracing.complete hstep (Point.completing_of hof) hi

/-- From any state that operations, crashes and restarts reach, one
`CancelWorkflow` and any `CompleteTask` calls leave no task of the workflow in
the queue when all of them have returned, if no completion has tasks to append
when the cancellation filters the queue. -/
theorem drained {calls : List Call} (hstart : CrashRun env calls true w₀)
    (hids : NeverReused (submitted calls))
    (hrun : Interleaving (Action.handle env) Call.prog w₀ es ts w)
    (hcancel : ∃ rest, ts[i]? = some ⟨.cancelWorkflow id, rest⟩)
    (hcomplete : ∀ j th, j ≠ i → ts[j]? = some th →
      ∃ t e output, th.label = .completeTask t e output)
    (hreturned : ∀ th ∈ ts, th.rest.isRet = true)
    (hfilter : ∀ pre ev, pre ++ [ev] <+: es → ev.thread = i → ev.action.isSection = true →
      ¬ Unpublished env pre) :
    Drained env id w := by
  have hinv := hstart.inv hids
  have hk := hinv.sound.coherent.linked.keyed
  obtain ⟨rest, hi⟩ := hcancel
  have hconcurrent : ∀ th ∈ ts, th.label.concurrent = true := by
    intro th hth
    obtain ⟨j, hj⟩ := List.mem_iff_getElem?.mp hth
    by_cases hji : j = i
    · subst hji
      rw [hi] at hj
      cases hj
      rfl
    · obtain ⟨t, e, output, hl⟩ := hcomplete j th hji hj
      rw [hl]
      rfl
  obtain ⟨ps, hps, hfollow⟩ := hrun.run tracks_prog hconcurrent
  have hagainst : Against id i (ps.map (·.1)) := by
    intro j l hj
    rw [hfollow.labels, List.getElem?_map, Option.map_eq_some_iff] at hj
    obtain ⟨th, hth, rfl⟩ := hj
    refine ⟨?_, fun hji => hcomplete j th hji hth⟩
    rintro rfl
    rw [hi] at hth
    cases hth
    rfl
  have hracing := racing_run hps hk (hinv.racing id i) hagainst hfilter
  refine drained_of_queue env ((run_sameShape hps hk).keyed hk) fun t ht => ?_
  -- The cancelling call has returned, so its point is the last one.
  obtain ⟨p, hp, _⟩ := hfollow.point hi
  have hdone : p = .done := done_of_returned hfollow hreturned _ (List.mem_of_getElem? hp)
  have hphase := hracing.phase
  rw [cancelPoint, hp, hdone] at hphase
  exact hphase.2 t (.inl ht)

end Runs

/-- The first of two tasks runs, and nothing has been cancelled. -/
def runningRun : List Call :=
  [.submitWorkflow .asListed (.pair .failFast 1), .getReadyTask "k"]

/-- The completion of the first task appends the second one to the queue
before the cancellation filters it. -/
def appendFirst : List (Choice Call) :=
  [.spawn (.cancelWorkflow "w"), .spawn (.completeTask "a" "x" "out"), .run 1, .run 1,
    .run 0, .run 1, .run 0, .run 0, .run 1, .run 1, .run 1, .run 1]

theorem drained_appendFirst :
    Drained .counting "w" (scheduleAfter runningRun appendFirst).2.2 := by
  refine drained (i := 0) (crashRun_runCalls _ _) (neverReused_of_one rfl)
    (interleaving_scheduleAfter runningRun appendFirst) ⟨_, rfl⟩ ?_ (by decide) ?_
  · intro j th hj hth
    match j with
    | 0 => exact absurd rfl hj
    | 1 =>
      cases hth
      exact ⟨_, _, _, rfl⟩
    | n + 2 => cases hth
  · intro pre ev hpre hthread hsection hun
    obtain ⟨hev, htake⟩ := take_of_prefix hpre
    -- The filter is the step after the first four.
    have hfour : pre.length = 4 := by
      by_contra hne
      have honly : ∀ n < 10, n ≠ 4 → ((scheduleAfter runningRun appendFirst).1[n]?).any
          (fun ev => ev.thread = 0 && ev.action.isSection) = false := by
        decide
      have hlt : pre.length < 10 := (List.getElem?_eq_some_iff.mp hev).1
      have hfalse := honly pre.length hlt hne
      rw [hev, Option.any_some, hthread, hsection] at hfalse
      cases hfalse
    rw [hfour] at htake
    rw [← htake] at hun
    -- Among them only the second thread completes, and that is not its last step.
    obtain ⟨j, last, hlast, hcompletes, _⟩ := hun
    obtain ⟨hin, hj⟩ := mem_of_lastOf hlast
    have hone : ∀ e ∈ (scheduleAfter runningRun appendFirst).1.take 4,
        e.action.completes.isSome = true → e.thread = 1 := by
      decide
    rw [← hj, hone last hin hcompletes] at hlast
    have hnot : (lastOf 1 ((scheduleAfter runningRun appendFirst).1.take 4)).any
        (·.action.completes.isSome) = false := by
      decide
    rw [hlast, Option.any_some, hcompletes] at hnot
    cases hnot

/-- The cancellation runs between the two steps of the completion. -/
def appendLast : List (Choice Call) :=
  [.spawn (.cancelWorkflow "w"), .spawn (.completeTask "a" "x" "out"), .run 1, .run 1,
    .run 0, .run 0, .run 0, .run 1, .run 1, .run 1, .run 1, .run 1]

/-- The second task is back in the queue after it has been cancelled. -/
theorem not_drained_appendLast :
    (runCalls .counting runningRun).store.getTasksInState .skipped = [] ∧
    Interleaving (Action.handle .counting) Call.prog (runCalls .counting runningRun)
      (scheduleAfter runningRun appendLast).1 (scheduleAfter runningRun appendLast).2.1
      (scheduleAfter runningRun appendLast).2.2 ∧
    (scheduleAfter runningRun appendLast).2.1.map (·.label)
      = [.cancelWorkflow "w", .completeTask "a" "x" "out"] ∧
    (∀ th ∈ (scheduleAfter runningRun appendLast).2.1, th.rest.isRet = true) ∧
    ¬ Drained .counting "w" (scheduleAfter runningRun appendLast).2.2 := by
  refine ⟨by decide, interleaving_scheduleAfter _ _, rfl, by decide, fun h => ?_⟩
  exact h.queue "b" (by decide) (by decide)

end DagScheduler
