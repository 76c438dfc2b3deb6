import DagScheduler.Lib.Board
import DagScheduler.Properties.Isolation
import DagScheduler.Properties.Outcome
import DagScheduler.Properties.Tracking

/-!
# The coordinator plays on a board

`Lib.Board` says what a scheduler is for.  Here the coordinator is one: for every
accepted workflow, each call makes certain moves on the board of the workflow
(`Call.moves`), all of them are allowed, and what is stored is what the board shows
after them (`Shows`).  Nothing is left out.  The workflow may have any policy, it may
be cancelled, workers may die, and the process may be restarted.  A worker whose task
has been given up still holds it on the board, as it does in `assignedTasks`.

The lemmas on `Shows` follow the parts of a move: a task is taken, leaves the hands of
a worker, or is skipped, and the workflow is closed.  `Shows.step` puts them together
for the effects of the calls.

What holds of every legal log then holds of every history.  A reply that hands a task
out or accepts a report on it comes after the accepted completions of all tasks above
it.
-/

namespace DagScheduler

open Lib Store

/-! ## Boards and stores -/

/-- The stored state of a task in some phase. -/
def TaskState.ofPhase : Board.Phase → TaskState
  | .waiting => .pending
  | .ready => .queued
  | .running => .running
  | .done => .complete
  | .failed => .failed
  | .skipped => .skipped

/-- The stored state of a workflow. -/
def WorkflowState.ofConclusion : Board.Conclusion → WorkflowState
  | .running => .running
  | .complete => .complete
  | .failed => .failed
  | .cancelled => .cancelled

/-- What `applyFailurePolicy` gives up. -/
def FailurePolicy.spread : FailurePolicy → Board.Spread
  | .failFast => .everything
  | .skipDownstream | .continueIndependent => .below
  | .unrecognized _ _ => .nothing

/-- The work of a workflow. -/
def WorkflowSpec.plan (wf : WorkflowSpec) : Board.Plan String where
  tasks := wf.taskIDs
  deps := wf.dependenciesOf
  spread := wf.failurePolicy.spread

/-- The store and the map `assignedTasks` are as the board shows the workflow. -/
structure Shows (wf : WorkflowSpec) (s : Store) (assignedTasks : Table String String)
    (b : Board String) : Prop where
  task : ∀ t ∈ wf.taskIDs, s.stateOf t = some (.ofPhase (b.phase t))
  held : ∀ t ∈ wf.taskIDs, t ∈ b.held ↔ ∃ e, assignedTasks[t]? = some e
  workflow : s.workflowStateOf wf.workflowId = some (.ofConclusion b.conclusion)

theorem TaskState.ofPhase_inj {p q : Board.Phase} : TaskState.ofPhase p = .ofPhase q ↔ p = q := by
  cases p <;> cases q <;> simp [TaskState.ofPhase]

theorem TaskState.terminal_ofPhase (p : Board.Phase) :
    (TaskState.ofPhase p).terminal = p.ended := by
  cases p <;> rfl

/-- After the completion of `t` a task that waited is queued exactly when nothing of it
is outstanding. -/
theorem Store.Completion.stateOf_waiting {now : Int64} {t output : String}
    {r : TaskStateRecord} {s s' : Store} {ready : List String}
    (hc : Completion now t output r s s' ready) (hs : s.Coherent)
    (hr : s.taskState[t]? = some r) (hne : r.state ≠ .complete) (hdeps : s.DepsComplete t)
    {u : String} (hut : u ≠ t) (hu : s.stateOf u = some .pending) (hwait : ¬ s.DepsComplete u) :
    (s'.DepsComplete u → s'.stateOf u = some .queued) ∧
      (¬ s'.DepsComplete u → s'.stateOf u = some .pending) := by
  obtain ⟨ru, hru, hp⟩ := stateOf_eq_some.mp hu
  refine ⟨fun hfree => ?_, fun hblocked => ?_⟩
  · rw [DepsComplete, (hc.sameShape hr).depsOf] at hfree
    -- Something was outstanding before, and this can only have been `t`.
    have hdep : t ∈ s.depsOf u := by
      by_contra hnot
      refine hwait fun d hd => ?_
      rw [← hc.isComplete_other fun hdt => hnot (hdt ▸ hd)]
      exact hfree d hd
    obtain ⟨x, hx, hget⟩ := hc.get_waiting hs hr hne hut hru hp hdep
    rw [outstanding_eq_zero_iff.mpr hfree] at hx
    have hzero : x = 0 := Int32.toInt_inj.mp (by rw [hx, Int32.toInt_zero]; rfl)
    rw [stateOf_of_get hget, if_pos hzero]
  · rcases hc.stateOf_other hut with heq | hrel
    · exact heq.trans hu
    · obtain ⟨r', hr', hst⟩ := stateOf_eq_some.mp hrel.2
      exact absurd ((hs.completion hc hr hne hdeps).counted.ready u r' hr' (by rw [hst]; rfl))
        hblocked

/-- A rewriting of records keeps a workflow in the store. -/
theorem Store.Holds.of_shape {s s' : Store} {wf : WorkflowSpec} (hold : s.Holds wf)
    (hshape : SameShape s s') : s'.Holds wf := by
  refine ⟨by rw [hshape.workflows]; exact hold.spec, fun t ht => ?_⟩
  rw [hshape.ownerOf]
  exact hold.owner t ht

namespace Shows

variable {wf : WorkflowSpec} {s s' : Store} {m : Table String String} {b : Board String}
  (h : Shows wf s m b)
include h

/-- The record behind a place on the board. -/
theorem record {t : String} (ht : t ∈ wf.taskIDs) :
    ∃ r, s.taskState[t]? = some r ∧ r.state = .ofPhase (b.phase t) :=
  stateOf_eq_some.mp (h.task t ht)

theorem phase_iff {t : String} (ht : t ∈ wf.taskIDs) (p : Board.Phase) :
    s.stateOf t = some (.ofPhase p) ↔ b.phase t = p := by
  rw [h.task t ht, Option.some.injEq, TaskState.ofPhase_inj]

/-! ## The parts of a move -/

theorem take {t e : String} {r : TaskStateRecord} (hr : r.state = .running) :
    Shows wf (s.setTask t r) (m.insert t e) (b.take t) := by
  refine ⟨fun u hu => ?_, fun u hu => ?_, h.workflow⟩
  · rw [stateOf_setTask, Board.take_phase]
    by_cases hut : u = t
    · rw [if_pos hut.symm, if_pos hut, hr]
      rfl
    · rw [if_neg (Ne.symm hut), if_neg hut]
      exact h.task u hu
  · rw [Board.mem_take_held, Table.get_insert]
    by_cases hut : u = t
    · simp [hut]
    · rw [if_neg (Ne.symm hut), or_iff_right hut]
      exact h.held u hu

theorem leave {t : String} {r : TaskStateRecord} {p : Board.Phase} (hr : r.state = .ofPhase p) :
    Shows wf (s.setTask t r) (m.erase t) (b.leave t p) := by
  refine ⟨fun u hu => ?_, fun u hu => ?_, h.workflow⟩
  · rw [stateOf_setTask, Board.leave_phase]
    by_cases hut : u = t
    · rw [if_pos hut.symm, if_pos hut, hr]
    · rw [if_neg (Ne.symm hut), if_neg hut]
      exact h.task u hu
  · rw [Board.mem_leave_held, Table.get_erase]
    by_cases hut : u = t
    · simp [hut]
    · rw [if_neg (Ne.symm hut), and_iff_left hut]
      exact h.held u hu

theorem skip {Q Q' : String → Prop} (hskip : Skips Q s s')
    (hQ : ∀ t ∈ wf.taskIDs, Q t ↔ Q' t) : Shows wf s' m (b.skip Q') := by
  refine ⟨fun t ht => ?_, h.held, ?_⟩
  · obtain ⟨r, hr, hst⟩ := h.record ht
    have hterm : r.state.terminal = (b.phase t).ended := by
      rw [hst, TaskState.terminal_ofPhase]
    rw [Board.skip_phase]
    split
    · rename_i hopen
      obtain ⟨now, hget⟩ := hskip.hit t r hr ((hQ t ht).mpr hopen.1) (hterm.trans hopen.2)
      exact stateOf_of_get hget
    · rename_i hkept
      rw [stateOf_of_get (hskip.miss t r hr ?_), hst]
      rw [hQ t ht, hterm]
      exact hkept
  · rw [workflowStateOf, hskip.workflowState]
    exact h.workflow

theorem close {c : Board.Conclusion} (hclose : Closes wf.workflowId (.ofConclusion c) s s') :
    Shows wf s' m (b.close c) := by
  refine ⟨fun t ht => ?_, h.held, ?_⟩
  · rw [stateOf, hclose.taskState]
    exact h.task t ht
  · obtain ⟨r, hr, _, hst⟩ := hclose.this
    rw [workflowStateOf, hr, Option.map_some, hst]
    rfl

/-- `checkWorkflowCompletion` concludes the workflow. -/
theorem conclude (hold : s.Holds wf) (hl : s.Linked) (hchk : Checked wf.workflowId s s') :
    Shows wf s' m (b.conclude wf.plan) := by
  have hover : s.AllOver wf.workflowId ↔ ∀ t ∈ wf.taskIDs, (b.phase t).ended = true := by
    constructor
    · intro hall t ht
      obtain ⟨r, hr, hst⟩ := h.record ht
      have hown := hold.owner t ht
      rw [ownerOf_of_get hr] at hown
      rw [← TaskState.terminal_ofPhase, ← hst]
      exact hall t r hr (Option.some.inj hown)
    · intro hall t r hr hid
      have ht := (hold.mem_taskIDs hl).mp (ownerOf_eq_some.mpr ⟨r, hr, hid⟩)
      have hst := h.task t ht
      rw [stateOf_of_get hr] at hst
      rw [Option.some.inj hst, TaskState.terminal_ofPhase]
      exact hall t ht
  have hfailed : s.SomeFailed wf.workflowId ↔ ∃ t ∈ wf.taskIDs, b.phase t = .failed := by
    rw [hold.someFailed_iff hl]
    exact exists_congr fun t => and_congr_right fun ht => h.phase_iff ht .failed
  cases hchk with
  | stillOpen hopen =>
    rw [Board.conclude_of_open b fun hall => hopen (hover.mpr hall)]
    exact h
  | failed hall hsome hclose =>
    rw [Board.conclude_of_failed b (hover.mp hall) (hfailed.mp hsome)]
    exact h.close hclose
  | complete hall hnone hclose =>
    rw [Board.conclude_of_complete b (hover.mp hall) fun hsome => hnone (hfailed.mpr hsome)]
    exact h.close hclose

/-- `applyFailurePolicy` after the failure of `t`. -/
theorem fallout (hold : s.Holds wf) (hl : s.Linked) {id t : String} {c : Coordinator}
    {w' : World} (hid : id = wf.workflowId) (hm : c.assignedTasks = m)
    (hpol : PolicyEffect id t s c w' wf.failurePolicy) :
    Shows wf w'.store w'.coord.assignedTasks (b.fallout wf.plan t) := by
  subst hid
  unfold Board.fallout
  rw [WorkflowSpec.plan]
  generalize wf.failurePolicy = policy at hpol
  cases hpol with
  | failFast hg hclose =>
    obtain ⟨gone, _, hcoord⟩ := hg.coord
    rw [hcoord, Coordinator.dropFromQueue_assignedTasks, hm]
    refine Shows.close (c := .failed) (h.skip hg.store fun u hu => ?_) hclose
    exact iff_of_true (hold.owner u hu) trivial
  | below hbelow hg hchk =>
    obtain ⟨gone, _, hcoord⟩ := hg.coord
    rw [hcoord, Coordinator.dropFromQueue_assignedTasks, hm]
    have hskip := h.skip hg.store fun u hu => hold.ancestor_iff hl hu
    have hshape := hg.store.sameShape
    rcases hbelow with rfl | rfl <;>
      exact hskip.conclude (hold.of_shape hshape) (hshape.linked hl) hchk
  | unrecognized hstore hcoord =>
    rw [hstore, hcoord, hm]
    exact h

/-- The transaction of `CompleteTask` finishes the task and releases what waited for it. -/
theorem release {now : Int64} {t output : String} {r : TaskStateRecord} {ready : List String}
    (hb : b.Sound wf.plan) (hs : s.Coherent) (hold : s.Holds wf)
    (hc : Completion now t output r s s' ready) (hr : s.taskState[t]? = some r)
    (hne : r.state ≠ .complete) (hdeps : s.DepsComplete t) :
    Shows wf s' (m.erase t) ((b.leave t .done).release wf.plan) := by
  have hclosed := (hs.linked.workflow _ _ hold.spec).2.2.closed
  -- The dependencies before and after the completion.
  have hbefore : ∀ {u}, u ∈ wf.taskIDs → (s.DepsComplete u ↔
      ∀ d ∈ wf.plan.deps u, b.phase d = .done) := by
    intro u hu
    rw [DepsComplete, hold.depsOf hs.linked hu]
    refine forall₂_congr fun d hd => ?_
    rw [isComplete, decide_eq_true_eq]
    exact h.phase_iff (hclosed u d hd) .done
  have hafter : ∀ {u}, u ∈ wf.taskIDs → (s'.DepsComplete u ↔
      ∀ d ∈ wf.plan.deps u, (b.leave t .done).phase d = .done) := by
    intro u hu
    rw [DepsComplete, (hc.sameShape hr).depsOf, hold.depsOf hs.linked hu]
    refine forall₂_congr fun d hd => ?_
    by_cases hdt : d = t
    · subst hdt
      simp [hc.isComplete_task, Board.leave_done]
    · rw [hc.isComplete_other hdt, Board.leave_phase, if_neg hdt, isComplete, decide_eq_true_eq]
      exact h.phase_iff (hclosed u d hd) .done
  have hleft := h.leave (t := t) (r := { r with state := .complete }) (p := .done) rfl
  refine ⟨fun u hu => ?_, hleft.held, ?_⟩
  · rw [Board.release_phase]
    by_cases hut : u = t
    · subst hut
      have hphase : (b.leave u .done).phase u = .done := by rw [Board.leave_phase, if_pos rfl]
      rw [stateOf_of_get hc.task, hphase, if_neg (by simp)]
      rfl
    have hphase : (b.leave t .done).phase u = b.phase u := by rw [Board.leave_phase, if_neg hut]
    rw [hphase]
    by_cases hwait : b.phase u = .waiting
    · obtain ⟨d, hd, hnd⟩ := hb.waiting u hwait
      obtain ⟨hfree, hblocked⟩ := hc.stateOf_waiting hs hr hne hdeps hut
        ((h.phase_iff hu .waiting).mpr hwait) fun hall => hnd ((hbefore hu).mp hall d hd)
      split
      · rename_i hall
        exact hfree ((hafter hu).mpr hall.2)
      · rename_i hnot
        rw [hwait]
        exact hblocked fun hall => hnot ⟨hwait, (hafter hu).mp hall⟩
    · rw [if_neg fun hc => hwait hc.1, ← h.task u hu]
      rcases hc.stateOf_other hut with heq | hrel
      · exact heq
      · exact absurd ((h.phase_iff hu .waiting).mp hrel.1) hwait
  · rw [workflowStateOf, hc.workflowState]
    exact h.workflow

end Shows

section Requeue

variable {env : Env} {wf : WorkflowSpec} {w w' : World} {m m' : Table String String}
  {b : Board String} (h : Shows wf w.store m b) {l : List String} (hreq : Requeues env l w w')
include h hreq

/-- The states of tasks that go back to the queue. -/
theorem Shows.stateOf_requeued {t : String} (ht : t ∈ wf.taskIDs) :
    w'.store.stateOf t = some (if t ∈ l then .queued else .ofPhase (b.phase t)) := by
  obtain ⟨r, hr, hst⟩ := h.record ht
  split
  · rename_i hin
    obtain ⟨n, now, _, _, hget⟩ := hreq.hit t r hin hr
    exact stateOf_of_get hget
  · rename_i hout
    rw [stateOf, hreq.miss t hout]
    exact h.task t ht

theorem Shows.workflow_requeued :
    w'.store.workflowStateOf wf.workflowId = some (.ofConclusion b.conclusion) := by
  rw [workflowStateOf, hreq.workflowState]
  exact h.workflow

/-- The tasks of a worker come back. -/
theorem Shows.giveBack {l' : List String} (hl : ∀ t ∈ wf.taskIDs, t ∈ l' ↔ t ∈ l)
    (hm : ∀ t : String, m'[t]? = if t ∈ l then none else m[t]?) :
    Shows wf w'.store m' (b.replay wf.plan (l'.map .giveBack)) := by
  obtain ⟨hphase, hheld, hconc⟩ := Board.replay_giveBack wf.plan b l'
  refine ⟨fun t ht => ?_, fun t ht => ?_, ?_⟩
  · rw [h.stateOf_requeued hreq ht, hphase]
    simp only [hl t ht]
    split <;> rfl
  · rw [hheld, hm, h.held t ht, hl t ht]
    split <;> simp_all
  · rw [hconc]
    exact h.workflow_requeued hreq

/-- All running tasks come back, and all workers are forgotten. -/
theorem Shows.recover (hl : ∀ t, t ∈ l ↔ w.store.stateOf t = some .running)
    (hm : ∀ t : String, m'[t]? = none) : Shows wf w'.store m' b.recover := by
  refine ⟨fun t ht => ?_, fun t _ => ?_, h.workflow_requeued hreq⟩
  · have hrun : t ∈ l ↔ b.phase t = .running := (hl t).trans (h.phase_iff ht .running)
    rw [h.stateOf_requeued hreq ht, Board.recover_phase]
    simp only [hrun]
    split <;> rfl
  · rw [hm t]
    simp [Board.recover]

end Requeue

/-! ## The moves of a call -/

/-- What a call does to the board of a workflow, from the worlds around it and from its
reply. -/
def Call.moves (wf : WorkflowSpec) (w : World) (reply : Reply) (w' : World) :
    Call → List (Board.Move String)
  | .submitWorkflow _ _ => []
  | .getReadyTask _ =>
      match reply with
      | .assignment (some a) => if a.taskId ∈ wf.taskIDs then [.start a.taskId] else []
      | _ => []
  | .completeTask t e _ =>
      if t ∈ wf.taskIDs ∧ w.coord.assignedTasks[t]? = some e then [.finish t] else []
  | .failTask t e _ =>
      if t ∈ wf.taskIDs ∧ w.coord.assignedTasks[t]? = some e then
        if w'.store.stateOf t = some .failed then [.fail t] else [.giveBack t]
      else []
  | .cancelWorkflow id => if id = wf.workflowId then [.cancel] else []
  | .handleDeadWorker order workerID =>
      ((w.coord.claimTasks order workerID).1.filter (· ∈ wf.taskIDs)).map .giveBack
  | .restart => [.recover]

/-- The moves of a run of calls from the state `w`. -/
def boardLog (env : Env) (wf : WorkflowSpec) : World → List Call → List (Board.Move String)
  | _, [] => []
  | w, c :: calls =>
      c.moves wf w (c.exec env w).1 (c.exec env w).2 ++
        boardLog env wf (c.exec env w).2 calls

theorem boardLog_append (env : Env) (wf : WorkflowSpec) (pre post : List Call) (c : Call) :
    boardLog env wf (runCalls env pre) (post ++ [c])
      = boardLog env wf (runCalls env pre) post ++
        c.moves wf (runCalls env (pre ++ post)) (c.exec env (runCalls env (pre ++ post))).1
          (runCalls env (pre ++ post ++ [c])) := by
  induction post generalizing pre with
  | nil =>
    rw [List.append_nil, runCalls_append, List.nil_append, boardLog, boardLog, boardLog,
      List.append_nil, List.nil_append]
  | cons d post ih =>
    have hnext := ih (pre ++ [d])
    rw [runCalls_append] at hnext
    rw [List.cons_append, boardLog, hnext, boardLog, List.append_assoc]
    simp only [List.append_assoc, List.singleton_append]

section Step

variable {env : Env} {P P' : WorkflowSpec → Prop} {w w' : World} {c : Call} {reply : Reply}
  {wf : WorkflowSpec} {b : Board String}

/-- A call that is not about the workflow makes no move. -/
theorem Effect.moves_eq_nil (heff : Effect env w c reply w')
    (hold : w.store.Holds wf) (hno : ¬ c.Concerns w wf.workflowId) :
    c.moves wf w reply w' = [] := by
  cases heff with
  | submitWorkflow _ => rfl
  | getReadyTask heff =>
    cases heff with
    | empty _ => rfl
    | unknown _ _ => rfl
    | @assigned t _ _ _ _ _ hq _ _ _ _ _ =>
      exact if_neg fun ht => hno ⟨t, _, hq, hold.owner t ht⟩
  | completeTask _ => exact if_neg fun ht => hno ⟨ht.2, hold.owner _ ht.1⟩
  | failTask _ => exact if_neg fun ht => hno ⟨ht.2, hold.owner _ ht.1⟩
  | cancelWorkflow _ => exact if_neg hno
  | @handleDeadWorker order k _ _ =>
    have hnone : (w.coord.claimTasks order k).1.filter (· ∈ wf.taskIDs) = [] := by
      rw [List.filter_eq_nil_iff]
      intro t ht hin
      exact hno ⟨t, (Coordinator.mem_claimTasks order).mp ht, hold.owner t (of_decide_eq_true hin)⟩
    rw [Call.moves, hnone, List.map_nil]
  | restart _ => exact absurd trivial hno

/-- What belongs to the workflow is as it was. -/
theorem Shows.frame (hshow : Shows wf w.store w.coord.assignedTasks b) (h : Inv P w)
    (hadm : c.Admissible P' w) (heff : Effect env w c reply w') (hold : w.store.Holds wf)
    (hno : ¬ c.Concerns w wf.workflowId) : Shows wf w'.store w'.coord.assignedTasks b := by
  refine ⟨fun t ht => ?_, fun t ht => ?_, ?_⟩
  · rw [stateOf, heff.record_eq h hadm hno (hold.owner t ht)]
    exact hshow.task t ht
  · rw [(heff.maps_eq hno (hold.owner t ht)).2]
    exact hshow.held t ht
  · rw [workflowStateOf, heff.workflowState_eq hno]
    exact hshow.workflow

/-- The moves are allowed, and lead to what the world holds. -/
structure Plays (wf : WorkflowSpec) (b : Board String) (moves : List (Board.Move String))
    (w' : World) : Prop where
  legal : b.Legal wf.plan moves
  shows : Shows wf w'.store w'.coord.assignedTasks (b.replay wf.plan moves)

/-- One move. -/
theorem plays_one {move : Board.Move String} (hallowed : b.Allowed wf.plan move)
    (hshow : Shows wf w'.store w'.coord.assignedTasks (b.play wf.plan move)) :
    Plays wf b [move] w' := ⟨⟨hallowed, trivial⟩, hshow⟩

variable (hshow : Shows wf w.store w.coord.assignedTasks b) (h : Inv P w)
  (hold : w.store.Holds wf)
include hshow h hold

theorem Shows.step_getReadyTask {k : String} {a : Option TaskAssignment}
    (heff : ReadyEffect env w k a w') (hc : (Call.getReadyTask k).Concerns w wf.workflowId) :
    Plays wf b ((Call.getReadyTask k).moves wf w (.assignment a) w') w' := by
  cases heff with
  | empty _ => exact ⟨trivial, hshow⟩
  | unknown _ _ => exact ⟨trivial, hshow⟩
  | @assigned t _ _ _ _ _ hq _ hr hstore hcoord _ =>
    obtain ⟨u, rest, hqueue, hown⟩ := hc
    obtain ⟨rfl, _⟩ := List.cons.inj (hq.symm.trans hqueue)
    have ht := (hold.mem_taskIDs h.sound.coherent.linked).mp hown
    have hqueued := h.agree.queued t (by rw [hq]; exact List.mem_cons_self)
    show Plays wf b (if t ∈ wf.taskIDs then [.start t] else []) w'
    rw [if_pos ht]
    refine plays_one ⟨ht, (hshow.phase_iff ht .ready).mp hqueued⟩ ?_
    rw [hstore, hcoord]
    exact hshow.take rfl

theorem Shows.step_completeTask (hb : b.Sound wf.plan) {t e output : String}
    {result : Except CallError Unit} (heff : CompleteEffect w t e output result w')
    (hc : (Call.completeTask t e output).Concerns w wf.workflowId) :
    Plays wf b ((Call.completeTask t e output).moves wf w reply w') w' := by
  have hl := h.sound.coherent.linked
  have ht := (hold.mem_taskIDs hl).mp hc.2
  rw [Call.moves, if_pos ⟨ht, hc.1⟩]
  cases heff with
  | ignored hno _ => exact absurd hc.1 hno
  | @accepted r now s ready _ ha hr hcomp hchk hcoord _ =>
    obtain ⟨r', wf', hr', _, hst, hdeps, _⟩ := h.assigned ha
    rw [hr] at hr'
    cases hr'
    have hne : r.state ≠ .complete := by
      rcases hst with hst | hst <;> simp [hst]
    have hid : r.workflowID = wf.workflowId := hl.owner_eq hold.spec ht hr
    have hshape := hcomp.sameShape hr
    refine plays_one ⟨ht, (hshow.held t ht).mpr ⟨e, ha⟩⟩ ?_
    rw [hcoord]
    rw [hid] at hchk
    exact (hshow.release hb h.sound.coherent hold hcomp hr hne hdeps).conclude
      (hold.of_shape hshape) (hshape.linked hl) hchk

theorem Shows.step_failTask {t e errMsg : String} {result : Except CallError Unit}
    (heff : FailEffect env w t e errMsg result w')
    (hc : (Call.failTask t e errMsg).Concerns w wf.workflowId) :
    Plays wf b ((Call.failTask t e errMsg).moves wf w reply w') w' := by
  have hl := h.sound.coherent.linked
  have ht := (hold.mem_taskIDs hl).mp hc.2
  have hheld : t ∈ b.held := (hshow.held t ht).mpr ⟨e, hc.1⟩
  have hstate := (heff.of_assigned hc.1).2
  rw [Call.moves, if_pos ⟨ht, hc.1⟩]
  cases heff with
  | stale hno => exact absurd hc.1 hno
  | retried ha hr _ hstore hcoord _ =>
    have hnot : w'.store.stateOf t ≠ some .failed := by
      rw [hstore, stateOf_setTask, if_pos rfl]
      simp
    rw [if_neg hnot]
    refine plays_one ⟨ht, hheld⟩ ?_
    rw [hstore, hcoord]
    exact hshow.leave rfl
  | @failed r wf' now _ ha hr hlast hwf hpol _ =>
    have hid : r.workflowID = wf.workflowId := hl.owner_eq hold.spec ht hr
    rw [hid, hold.spec] at hwf
    cases hwf
    have hfailed : w'.store.stateOf t = some .failed := by
      obtain ⟨r', now', hr', hcases⟩ := hstate
      rw [hr] at hr'
      cases hr'
      exact stateOf_of_get (hcases.resolve_left fun hretry => hlast hretry.1).2
    rw [if_pos hfailed]
    have hshape : SameShape w.store (w.store.setTask t { r with
        state := .failed, error := errMsg, attemptCount := r.attemptCount + 1
        lastUpdated := now }) := sameShape_setTask hr rfl
    refine plays_one ⟨ht, hheld⟩ ?_
    exact (hshow.leave (p := .failed) rfl).fallout (hold.of_shape hshape) (hshape.linked hl)
      hid rfl hpol

theorem Shows.step_cancelWorkflow {result : Except CallError Unit}
    (heff : CancelEffect w wf.workflowId result w') :
    Plays wf b ((Call.cancelWorkflow wf.workflowId).moves wf w reply w') w' := by
  rw [Call.moves, if_pos rfl]
  cases heff with
  | refused hkey _ _ _ =>
    rw [(h.sound.coherent.linked.workflow _ _ hold.spec).2.1] at hkey
    cases hkey
  | cancelled _ hg hclose _ =>
    obtain ⟨gone, _, hcoord⟩ := hg.coord
    refine plays_one trivial ?_
    rw [hcoord, Coordinator.dropFromQueue_assignedTasks]
    refine Shows.close (c := .cancelled) (hshow.skip hg.store fun u hu => ?_) hclose
    exact iff_of_true (hold.owner u hu) trivial

omit hold in
theorem Shows.step_handleDeadWorker {order : RangeOrder String} {k : String}
    (heff : DeadWorkerEffect env k w w') :
    Plays wf b ((Call.handleDeadWorker order k).moves wf w reply w') w' := by
  obtain ⟨l, w₁, _, hmem, hreq, rfl⟩ := heff.claimed
  have hclaimed : ∀ t, t ∈ (w.coord.claimTasks order k).1 ↔ t ∈ l :=
    fun t => (Coordinator.mem_claimTasks order).trans (hmem t).symm
  have hassigned : w₁.coord.assignedTasks
      = (l.foldl Coordinator.forget w.coord).assignedTasks := by rw [hreq.coord]; rfl
  refine ⟨Board.legal_giveBack ?_ ?_ ?_, ?_⟩
  · exact ((order.nodup_visit (Table.nodup_keys _)).filter _).filter _
  · intro t ht
    exact of_decide_eq_true (List.mem_filter.mp ht).2
  · intro t ht
    rw [List.mem_filter, decide_eq_true_eq] at ht
    refine (hshow.held t ht.2).mpr ((Table.mem_iff_get _ _).mp ((h.agree.keys t).mp ?_))
    exact (Table.mem_iff_get _ _).mpr ⟨k, (Coordinator.mem_claimTasks order).mp ht.1⟩
  · refine Shows.giveBack (w := { w with coord := l.foldl Coordinator.forget w.coord }) hshow hreq
      (fun t ht => ?_) fun t => ?_
    · rw [List.mem_filter, hclaimed]
      simp [ht]
    · dsimp only
      rw [hassigned, Coordinator.get_foldl_forget_assigned]

omit hold in
theorem Shows.step_restart (heff : RestartEffect env w w') :
    Plays wf b (Call.restart.moves wf w reply w') w' := by
  have hs := h.sound.coherent
  refine plays_one trivial ?_
  refine Shows.recover (w := { w with coord := ({} : Coordinator).load w.store }) hshow heff
    (fun t => mem_getTasksInState hs.linked.keyed) fun t => ?_
  rw [heff.coord]
  show (({} : Coordinator).load w.store).assignedTasks[t]? = none
  rw [(load_spec hs).2.2.2.1]
  simp

/-- The step lemma. -/
theorem Shows.step (hb : b.Sound wf.plan) (hadm : c.Admissible P' w)
    (heff : Effect env w c reply w') : Plays wf b (c.moves wf w reply w') w' := by
  by_cases hc : c.Concerns w wf.workflowId
  · cases heff with
    | @submitWorkflow orders wf' _ _ _ =>
      -- The ID of a new workflow is not in the store.
      exact absurd hc.symm ((hadm wf' rfl).2 _ _ hold.spec).1
    | getReadyTask heff => exact hshow.step_getReadyTask h hold heff hc
    | completeTask heff => exact hshow.step_completeTask h hold hb heff hc
    | failTask heff => exact hshow.step_failTask h hold heff hc
    | cancelWorkflow heff =>
      cases hc
      exact hshow.step_cancelWorkflow h hold heff
    | handleDeadWorker heff => exact hshow.step_handleDeadWorker h heff
    | restart heff => exact hshow.step_restart h heff
  · rw [heff.moves_eq_nil hold hc]
    exact ⟨trivial, hshow.frame h hadm heff hold hc⟩

end Step

/-! ## Runs -/

/-- A new workflow is shown by a fresh board. -/
theorem Launched.shows {P : WorkflowSpec → Prop} {wf : WorkflowSpec} {dag : DAG}
    {roots : List String} {w w' : World} (hla : Launched wf dag roots w w') (h' : Inv P w') :
    Shows wf w'.store w'.coord.assignedTasks (.fresh wf.plan) := by
  refine ⟨fun t ht => ?_, fun t ht => ?_, ?_⟩
  · have hphase : (Board.fresh wf.plan).phase t
        = if wf.dependenciesOf t = [] then .ready else .waiting := rfl
    rw [hla.stateOf ht, hphase]
    split <;> rfl
  · refine iff_of_false (Set.notMem_empty t) ?_
    rintro ⟨e, he⟩
    obtain ⟨r, hr, _, hst, _⟩ := h'.agree.assigned t e he
    have hx := hla.stateOf ht
    rw [stateOf_of_get hr] at hx
    rcases hst with hst | hst <;> rw [hst] at hx <;> split at hx <;> cases hx
  · obtain ⟨now, hstates⟩ := hla.workflowState
    rw [workflowStateOf, hstates, Table.get_insert, if_pos rfl]
    rfl

/-- The run lemma. -/
theorem plays_runCalls (env : Env) {pre post : List Call} {orders : DagOrders}
    {wf : WorkflowSpec}
    (hids : NeverReused (submitted (pre ++ [Call.submitWorkflow orders wf] ++ post)))
    (hacc : ((Call.submitWorkflow orders wf).exec env (runCalls env pre)).1.isNil = true) :
    (runCalls env (pre ++ [Call.submitWorkflow orders wf] ++ post)).store.Holds wf ∧
      Plays wf (.fresh wf.plan)
        (boardLog env wf (runCalls env (pre ++ [Call.submitWorkflow orders wf])) post)
        (runCalls env (pre ++ [Call.submitWorkflow orders wf] ++ post)) := by
  induction post using List.reverseRecOn with
  | nil =>
    rw [List.append_nil] at hids ⊢
    obtain ⟨dag, roots, hl⟩ := (effect_runCalls env hids).launched hacc
    exact ⟨hl.holds, trivial, hl.shows (inv_runCalls env hids)⟩
  | append_singleton post c ih =>
    rw [← List.append_assoc] at hids ⊢
    have h := inv_runCalls env hids.of_append
    have hadm := admissible_next h.sound hids
    have heff := effect_runCalls env hids
    obtain ⟨hold, hlegal, hshow⟩ := ih hids.of_append
    have hstep := hshow.step h hold ((Board.sound_fresh wf.plan).replay hlegal) hadm heff
    rw [boardLog_append]
    refine ⟨hold.step h hadm heff, (Board.legal_append _).mpr ⟨hlegal, hstep.legal⟩, ?_⟩
    rw [Board.replay_append]
    exact hstep.shows

/-- The coordinator schedules every accepted workflow as its board says.  All moves that
its calls make are allowed, and the states of the tasks, the state of the workflow and
the tasks in the hands of workers are those after the moves. -/
theorem runCalls_replays_board (env : Env) {pre post : List Call} {orders : DagOrders}
    {wf : WorkflowSpec}
    (hids : NeverReused (submitted (pre ++ [Call.submitWorkflow orders wf] ++ post)))
    (hacc : ((Call.submitWorkflow orders wf).exec env (runCalls env pre)).1.isNil = true) :
    Plays wf (.fresh wf.plan)
      (boardLog env wf (runCalls env (pre ++ [Call.submitWorkflow orders wf])) post)
      (runCalls env (pre ++ [Call.submitWorkflow orders wf] ++ post)) :=
  (plays_runCalls env hids hacc).2

/-- A task is handed out and completed, its successor is handed out and fails once, and
the process is restarted. -/
theorem runCalls_replays_board_pair :
    boardLog .counting (.pair .failFast 3)
        (runCalls .counting ([] ++ [Call.submitWorkflow .asListed (.pair .failFast 3)]))
        [Call.getReadyTask "k", .completeTask "a" "x" "done", .getReadyTask "k",
          .failTask "b" "xx" "out of memory", .restart]
      = [.start "a", .finish "a", .start "b", .giveBack "b", .recover] ∧
    Plays (.pair .failFast 3) (.fresh (WorkflowSpec.pair .failFast 3).plan)
      (boardLog .counting (.pair .failFast 3)
        (runCalls .counting ([] ++ [Call.submitWorkflow .asListed (.pair .failFast 3)]))
        [Call.getReadyTask "k", .completeTask "a" "x" "done", .getReadyTask "k",
          .failTask "b" "xx" "out of memory", .restart])
      (runCalls .counting ([] ++ [Call.submitWorkflow .asListed (.pair .failFast 3)] ++
        [Call.getReadyTask "k", .completeTask "a" "x" "done", .getReadyTask "k",
          .failTask "b" "xx" "out of memory", .restart])) :=
  ⟨by decide, runCalls_replays_board .counting (neverReused_of_one rfl) (by decide)⟩

/-! ## The order of a history -/

/-- The reply hands the task out, or accepts a report on it. -/
def Reply.vouchesFor (t : String) (reply : Reply) : Call → Bool
  | .getReadyTask _ =>
      match reply with
      | .assignment (some a) => a.taskId = t
      | _ => false
  | .completeTask u _ _ | .failTask u _ _ => u = t && reply.isNil
  | _ => false

/-- Where an accepted workflow was submitted. -/
theorem AcceptedIn.split {env : Env} {calls : List Call} {wf : WorkflowSpec}
    (hacc : AcceptedIn env calls wf) : ∃ pre orders post,
      calls = pre ++ [Call.submitWorkflow orders wf] ++ post ∧
      ((Call.submitWorkflow orders wf).exec env (runCalls env pre)).1.isNil = true := by
  induction calls using List.reverseRecOn with
  | nil =>
    obtain ⟨_, _, hmem, _⟩ := hacc
    cases hmem
  | append_singleton calls c ih =>
    obtain ⟨orders, reply, hmem, hnil⟩ := hacc
    rw [history_append, List.mem_append, List.mem_singleton] at hmem
    rcases hmem with hold | hnew
    · obtain ⟨pre, orders, post, rfl, hacc⟩ := ih ⟨orders, reply, hold, hnil⟩
      exact ⟨pre, orders, post ++ [c], by rw [List.append_assoc], hacc⟩
    · obtain ⟨rfl, rfl⟩ := Prod.mk.inj hnew
      exact ⟨calls, orders, [], by rw [List.append_nil], hnil⟩

/-- Only an accepted report finishes a task. -/
theorem Effect.completes_of_finish {env : Env} {wf : WorkflowSpec} {w w' : World} {c : Call}
    {reply : Reply} (heff : Effect env w c reply w') {t : String}
    (ht : .finish t ∈ c.moves wf w reply w') :
    ∃ e output, c = .completeTask t e output ∧ reply.isNil = true := by
  cases heff with
  | submitWorkflow _ => cases ht
  | getReadyTask heff =>
    cases heff with
    | empty _ => cases ht
    | unknown _ _ => cases ht
    | assigned _ _ _ _ _ _ =>
      rw [Call.moves] at ht
      split at ht <;> simp at ht
  | @completeTask u e output _ _ heff =>
    rw [Call.moves] at ht
    split at ht
    · rename_i hassigned
      cases List.mem_singleton.mp ht
      refine ⟨e, output, rfl, ?_⟩
      cases heff with
      | ignored hno _ => exact absurd hassigned.2 hno
      | accepted _ _ _ _ _ _ => rfl
    · cases ht
  | failTask _ =>
    rw [Call.moves] at ht
    split at ht
    · split at ht <;> simp at ht
    · cases ht
  | cancelWorkflow _ =>
    rw [Call.moves] at ht
    split at ht <;> simp at ht
  | handleDeadWorker _ => simp [Call.moves] at ht
  | restart _ => simp [Call.moves] at ht

/-- A finished task has been reported complete. -/
theorem exists_completion_of_finish (env : Env) {pre post : List Call} {wf : WorkflowSpec}
    (hids : NeverReused (submitted (pre ++ post))) {t : String}
    (ht : .finish t ∈ boardLog env wf (runCalls env pre) post) :
    ∃ e output reply, (.completeTask t e output, reply) ∈ history env (pre ++ post) ∧
      reply.isNil = true := by
  induction post using List.reverseRecOn with
  | nil => cases ht
  | append_singleton post c ih =>
    rw [← List.append_assoc] at hids ⊢
    have heff := effect_runCalls env hids
    rw [boardLog_append, List.mem_append] at ht
    rw [history_append]
    rcases ht with hold | hnew
    · obtain ⟨e, output, reply, hmem, hnil⟩ := ih hids.of_append hold
      exact ⟨e, output, reply, List.mem_append_left _ hmem, hnil⟩
    · obtain ⟨e, output, rfl, hnil⟩ := heff.completes_of_finish hnew
      exact ⟨e, output, _, List.mem_append_right _ List.mem_cons_self, hnil⟩

/-- What a reply vouches for is in a worker's hands or past waiting. -/
theorem Shows.unblocked_of_vouches {env : Env} {P : WorkflowSpec → Prop} {wf : WorkflowSpec}
    {w w' : World} {b : Board String} {c : Call} {reply : Reply}
    (hshow : Shows wf w.store w.coord.assignedTasks b) (h : Inv P w)
    (heff : Effect env w c reply w') {t : String} (ht : t ∈ wf.taskIDs)
    (hv : reply.vouchesFor t c = true) : (b.phase t).unblocked = true ∨ t ∈ b.held := by
  cases heff with
  | getReadyTask heff =>
    cases heff with
    | empty _ => cases hv
    | unknown _ _ => cases hv
    | @assigned u _ _ _ _ _ hq _ _ _ _ _ =>
      cases of_decide_eq_true hv
      have hqueued := h.agree.queued u (by rw [hq]; exact List.mem_cons_self)
      rw [(hshow.phase_iff ht .ready).mp hqueued]
      exact .inl rfl
  | @completeTask _ _ _ result _ heff =>
    rw [Reply.vouchesFor, Bool.and_eq_true, decide_eq_true_eq] at hv
    obtain ⟨rfl, hnil⟩ := hv
    cases heff with
    | ignored _ hiff =>
      -- The report repeats one that was accepted before.
      cases result with
      | error _ => cases hnil
      | ok _ =>
        obtain ⟨r, hr, hst, _⟩ := hiff.mp rfl
        rw [(hshow.phase_iff ht .done).mp (stateOf_eq_some.mpr ⟨r, hr, hst⟩)]
        exact .inl rfl
    | accepted ha _ _ _ _ _ => exact .inr ((hshow.held _ ht).mpr ⟨_, ha⟩)
  | failTask heff =>
    rw [Reply.vouchesFor, Bool.and_eq_true, decide_eq_true_eq] at hv
    obtain ⟨rfl, hnil⟩ := hv
    cases heff with
    | stale _ => cases hnil
    | retried ha _ _ _ _ _ => exact .inr ((hshow.held _ ht).mpr ⟨_, ha⟩)
    | failed ha _ _ _ _ _ => exact .inr ((hshow.held _ ht).mpr ⟨_, ha⟩)
  | _ => cases hv

/-- A reply that hands a task out or accepts a report on it comes after accepted
completions of all tasks above it. -/
theorem vouched_after_ancestors (env : Env) {calls : List Call} {c : Call}
    (hids : NeverReused (submitted (calls ++ [c]))) {wf : WorkflowSpec}
    (hacc : AcceptedIn env calls wf) {t : String} (ht : t ∈ wf.taskIDs)
    (hv : (c.exec env (runCalls env calls)).1.vouchesFor t c = true) {a : String}
    (hanc : Ancestor wf.dependenciesOf a t) :
    ∃ e output reply, (.completeTask a e output, reply) ∈ history env calls ∧
      reply.isNil = true := by
  obtain ⟨pre, orders, post, rfl, hnil⟩ := hacc.split
  obtain ⟨hold, hlegal, hshow⟩ := plays_runCalls env hids.of_append hnil
  have hsound := (Board.sound_fresh wf.plan).replay hlegal
  have h := inv_runCalls env hids.of_append
  have hblocked := hshow.unblocked_of_vouches h (effect_runCalls env hids) ht hv
  have hdone := hsound.ancestor_done hblocked hanc
  exact exists_completion_of_finish env hids.of_append (hlegal.done_iff.mp hdone)

/-- The second task is handed out after the first one has been reported complete. -/
theorem vouched_after_ancestors_halfwayRun :
    ∃ e output reply, (.completeTask "a" e output, reply) ∈ history .counting halfwayRun ∧
      reply.isNil = true := by
  have hids : NeverReused (submitted (halfwayRun ++ [.getReadyTask "k"])) :=
    neverReused_of_one rfl
  have hacc : AcceptedIn .counting halfwayRun (.pair .skipDownstream 1) :=
    ⟨.asListed, .status (.ok ()), List.mem_cons_self, rfl⟩
  have hanc : Ancestor (WorkflowSpec.pair .skipDownstream 1).dependenciesOf "a" "b" :=
    .single (show "a" ∈ (WorkflowSpec.pair .skipDownstream 1).dependenciesOf "b" by decide)
  exact vouched_after_ancestors .counting hids hacc (by decide) (by decide) hanc

end DagScheduler
