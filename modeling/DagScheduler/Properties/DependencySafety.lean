import DagScheduler.Coordinator.Moves
import DagScheduler.Coordinator.Runs

/-!
# Dependencies under concurrency

The steps of any number of `CompleteTask`, `FailTask`, `HandleDeadWorker` and
`GetReadyTask` calls interleave.  `DependencySafe` asks that the completion of
a task counts down once, and that a task is handed out only after its
dependencies.

The transactions that requeue, fail, skip and assign a task do not look at
its state.  A result and the death of its worker can therefore meet so that
`RequeueTask` overwrites `COMPLETE`.  This is the only way it goes wrong: if
no such transaction finds its task complete, every interleaving is safe.

The invariant `Poised` says that every task that is queued, assigned, or in
the hands of a running call has complete dependencies.  Completions stay, so
a step only has to account for the tasks that it moves.
-/

namespace DagScheduler

open Lib Store

/-! ## The property -/

/-- The task whose record an action overwrites, whatever its state is. -/
def Action.target (w : World) {β : Type} : Action β → Option String
  | .update (.requeueTask t _) => some t
  | .update (.failTask t _ _) => some t
  | .update (.updateTaskState t _) => some t
  | .update (.assignTask t _) => some t
  | .getReadyTask _ => w.coord.readyQueue.head?.filter (· ∈ w.coord.taskSpecCache)
  | _ => none

/-- The counter of a task. -/
def Store.inDegreeOf (s : Store) (t : String) : Option Int32 :=
  s.taskState[t]?.map (·.inDegree)

/-- The event completes `t` and counts down. -/
def Decrements (env : Env) (t : String) (ev : Event Call Action World) : Prop :=
  ev.action.completes = some t ∧
    ∃ u, (ev.after (Action.handle env)).store.inDegreeOf u ≠ ev.before.store.inDegreeOf u

/-- The event overwrites a complete task. -/
def overwrites (ev : Event Call Action World) : Bool :=
  (ev.action.target ev.before).any (ev.before.store.isComplete ·)

/-- A task counts down once, and not at all if it was complete from the start,
and a task is handed out only while its dependencies are complete. -/
structure DependencySafe (env : Env) (w₀ : World) (es : List (Event Call Action World)) :
    Prop where
  once : ∀ t, es.Pairwise fun a b => ¬ (Decrements env t a ∧ Decrements env t b)
  before : ∀ t, w₀.store.isComplete t = true → ∀ ev ∈ es, ¬ Decrements env t ev
  ready : ∀ ev ∈ es, ∀ a, ev.action.assignment env ev.before = some a →
    ev.before.store.DepsComplete a.taskId

/-! ## The invariant -/

/-- The tasks that a call may write to or put into the queue. -/
def Point.hands : Point → List String
  | .completeCommit t _ _ => [t]
  | .completePublish _ ready => ready
  | .failRead t _ _ | .failLimit t _ _ _ | .failDraw t _ | .failRequeue t _ _
  | .failPublish t _ | .failCommit t _ _ _ => [t]
  | .deadDraw _ t rest | .deadRequeue _ t _ rest | .deadPublish _ t rest => t :: rest
  | _ => []

/-- The invariant between two steps. -/
structure Poised (s : Store) (c : Coordinator) (ps : List (Call × Point)) : Prop where
  coherent : s.Coherent
  queued : ∀ t ∈ c.readyQueue, s.DepsComplete t
  assigned : ∀ t, t ∈ c.assignedTasks → s.DepsComplete t
  running : ∀ t, t ∈ c.runningTasks → s.DepsComplete t
  hands : ∀ q ∈ ps, ∀ t ∈ q.2.hands, s.DepsComplete t

theorem Point.hands_deadNext (k : String) (l : List String) : (Point.deadNext k l).hands = l := by
  cases l <;> rfl

theorem Point.Skipping.hands {id : String} {p : Point} (h : p.Skipping id) : p.hands = [] := by
  cases h <;> rfl

theorem Point.hands_policy (id t : String) (policy : FailurePolicy) :
    (Point.policy id t policy).hands = [] := by
  cases policy <;> rfl

/-! ## Where the tasks of a step come from -/

theorem Reads.held {s : Store} {c : Coordinator} {p p' : Point} (h : Reads s c p p')
    {t : String} (ht : t ∈ p'.hands) : t ∈ p.hands ∨ t ∈ c.assignedTasks := by
  cases h with
  | completeOurs ha =>
    rw [List.mem_singleton.mp ht]
    exact .inr ((Table.mem_iff_get _ _).mpr ⟨_, ha⟩)
  | failOurs ha =>
    rw [List.mem_singleton.mp ht]
    exact .inr ((Table.mem_iff_get _ _).mpr ⟨_, ha⟩)
  | failRead _ => exact .inl ht
  | failRetry _ => exact .inl ht
  | failLast _ => exact .inl ht
  | skipStart hp =>
    rw [hp.hands] at ht
    cases ht
  | skipRead hp =>
    rw [hp.hands] at ht
    cases ht
  | _ => cases ht

theorem Draws.held {newID : String} {p p' : Point} (h : Draws newID p p') :
    p'.hands = p.hands := by
  cases h <;> rfl

theorem Coordinator.mem_forget_assigned {c : Coordinator} {t u : String}
    (h : u ∈ (c.forget t).assignedTasks) : u ∈ c.assignedTasks :=
  (Std.ExtTreeMap.mem_erase.mp h).2

theorem Coordinator.mem_forget_running {c : Coordinator} {t u : String}
    (h : u ∈ (c.forget t).runningTasks) : u ∈ c.runningTasks :=
  (Std.ExtTreeMap.mem_erase.mp h).2

/-- A section under the mutex never assigns a task. -/
theorem Locks.maps {c c' : Coordinator} {p p' : Point} (h : Locks c p p' c') (t : String) :
    (t ∈ c'.assignedTasks → t ∈ c.assignedTasks) ∧
      (t ∈ c'.runningTasks → t ∈ c.runningTasks) := by
  cases h with
  | complete => exact ⟨Coordinator.mem_forget_assigned, Coordinator.mem_forget_running⟩
  | retry => exact ⟨Coordinator.mem_forget_assigned, Coordinator.mem_forget_running⟩
  | fail => exact ⟨Coordinator.mem_forget_assigned, Coordinator.mem_forget_running⟩
  | @claim order k =>
    constructor
    · intro h
      obtain ⟨e, he⟩ := (Table.mem_iff_get _ _).mp h
      rw [Coordinator.claimTasks, Coordinator.get_foldl_forget_assigned] at he
      split at he
      · cases he
      · exact (Table.mem_iff_get _ _).mpr ⟨e, he⟩
    · intro h
      obtain ⟨e, he⟩ := (Table.mem_iff_get _ _).mp h
      rw [Coordinator.claimTasks, Coordinator.get_foldl_forget_running] at he
      split at he
      · cases he
      · exact (Table.mem_iff_get _ _).mpr ⟨e, he⟩
  | _ => exact ⟨fun h => h, fun h => h⟩

/-- What a section appends to the queue was in its hands. -/
theorem Locks.queued {c c' : Coordinator} {p p' : Point} (h : Locks c p p' c') {t : String}
    (ht : t ∈ c'.readyQueue) : t ∈ c.readyQueue ∨ t ∈ p.hands := by
  cases h with
  | complete => exact List.mem_append.mp ht
  | retry => exact List.mem_append.mp ht
  | fail => exact .inl ht
  | claim =>
    rw [Coordinator.claimTasks, Coordinator.foldl_forget_readyQueue] at ht
    exact .inl ht
  | requeue =>
    rcases List.mem_append.mp ht with ht | ht
    · exact .inl ht
    · rw [List.mem_singleton.mp ht]
      exact .inr List.mem_cons_self
  | remove => exact .inl ht
  | stop => exact .inl (List.mem_filter.mp ht).1
  | skip => exact .inl (List.mem_filter.mp ht).1
  | cancel => exact .inl (List.mem_filter.mp ht).1

/-- What a section takes into its hands was running. -/
theorem Locks.hands {c c' : Coordinator} {p p' : Point} (h : Locks c p p' c') {t : String}
    (ht : t ∈ p'.hands) : t ∈ p.hands ∨ t ∈ c.runningTasks := by
  cases h with
  | fail =>
    split at ht
    · rw [Point.hands_policy] at ht
      cases ht
    · cases ht
  | claim =>
    rw [Point.hands_deadNext, Coordinator.claimTasks] at ht
    have hrun := of_decide_eq_true (List.mem_filter.mp ht).2
    exact .inr ((Table.mem_iff_get _ _).mpr ⟨_, hrun⟩)
  | requeue =>
    rw [Point.hands_deadNext] at ht
    exact .inl (List.mem_cons_of_mem _ ht)
  | _ => cases ht

/-! ## What a transaction does -/

/-- The task whose record the step of a point overwrites. -/
def Point.target : Point → Option String
  | .failRequeue t _ _ | .failCommit t _ _ _ | .skipWrite _ _ t _ _ _
  | .deadRequeue _ t _ _ => some t
  | _ => none

theorem Point.target_of_move {p : Point} {β : Type} {act : Action β} {next : β → Point}
    (hmove : p.move = some ⟨act, next⟩) {t : String} (ht : p.target = some t) (w : World) :
    act.target w = some t := by
  cases p with
  | failRequeue _ _ _ => cases hmove; exact ht
  | failCommit _ _ _ _ => cases hmove; exact ht
  | skipWrite _ _ _ _ _ _ => cases hmove; exact ht
  | deadRequeue _ _ _ _ => cases hmove; exact ht
  | _ => cases ht

section Writes

variable {now : Int64} {s s' : Store} {p p' : Point}

/-- A transaction that overwrites no complete task keeps every completion. -/
theorem Writes.isComplete_mono (h : Writes now s p p' s')
    (hover : ∀ t, p.target = some t → s.isComplete t = false) {u : String}
    (hu : s.isComplete u = true) : s'.isComplete u = true := by
  cases h with
  | complete hr _ _ hc => exact hc.isComplete_mono u hu
  | retry _ => exact isComplete_setTask _ (hover _ rfl) hu
  | fail _ => exact isComplete_setTask _ (hover _ rfl) hu
  | skip _ _ => exact isComplete_setTask _ (hover _ rfl) hu
  | requeue _ => exact isComplete_setTask _ (hover _ rfl) hu
  | stop hskips => exact (hskips.isComplete u).trans hu
  | cancel hskips _ => exact (hskips.isComplete u).trans hu
  | _ => exact hu

theorem Writes.coherent (h : Writes now s p p' s') (hs : s.Coherent)
    (hhands : ∀ t ∈ p.hands, s.DepsComplete t)
    (hover : ∀ t, p.target = some t → s.isComplete t = false) : s'.Coherent := by
  cases h with
  | complete hr _ hne hc => exact hs.completion hc hr hne (hhands _ List.mem_cons_self)
  | @close id failed _ => exact hs.nextWorkflowState now id (by cases failed <;> decide)
  | cancelClose _ => exact hs.nextWorkflowState now _ (by decide)
  | retry hr => exact hs.overwrite hr rfl (hover _ rfl) (hhands _ List.mem_cons_self) (.inl rfl)
  | requeue hr =>
    exact hs.overwrite hr rfl (hover _ rfl) (hhands _ List.mem_cons_self) (.inl rfl)
  | fail hr =>
    exact hs.overwrite hr rfl (hover _ rfl) (hhands _ List.mem_cons_self) (.inr (.inr rfl))
  | @skip _ t _ _ _ _ r _ hr _ =>
    have hold := hover t rfl
    rw [isComplete_of_get hr, decide_eq_false_iff_not] at hold
    exact hs.setTask hr rfl hold (by simp) (by simp) (by simp)
      (by simp [TaskState.unblocked])
  | stop hskips => exact hs.skips hskips
  | cancel hskips _ => exact hs.skips hskips
  | _ => exact hs

/-- What a transaction puts into the hands of its call is released by it. -/
theorem Writes.hands (h : Writes now s p p' s') {t : String} (ht : t ∈ p'.hands) :
    t ∈ p.hands ∨ Released s s' t := by
  cases h with
  | complete _ _ _ hc => exact .inr ((hc.mem_ready t).mp ht)
  | retry _ => exact .inl ht
  | requeue _ => exact .inl ht
  | requeueAbsent _ =>
    rw [Point.hands_deadNext] at ht
    exact .inl (List.mem_cons_of_mem _ ht)
  | skip _ hp =>
    rw [hp.hands] at ht
    cases ht
  | skipAbsent _ hp =>
    rw [hp.hands] at ht
    cases ht
  | _ => cases ht

end Writes

/-! ## One step -/

section Step

variable {env : Env} {w w' : World} {ps : List (Call × Point)}
  {ev : Event Call Action World} {p p' : Point}

/-- A step that does not overwrite a complete task meets the condition of its
point. -/
theorem StepOf.not_complete (h : StepOf env ps w ev p p' w') (hover : overwrites ev = false)
    {t : String} (ht : p.target = some t) : w.store.isComplete t = false := by
  obtain ⟨next, hmove⟩ := h.action
  rw [overwrites, Point.target_of_move hmove ht, h.before] at hover
  exact hover

/-- `GetReadyTask` assigns the head of the queue, which is not complete. -/
theorem StepOf.head_not_complete {k t : String} (h : StepOf env ps w ev (.getReady k) p' w')
    (hover : overwrites ev = false) {rest : List String}
    (hq : w.coord.readyQueue = t :: rest) (ht : t ∈ w.coord.taskSpecCache) :
    w.store.isComplete t = false := by
  obtain ⟨next, hmove⟩ := h.action
  have htarget : ev.action.target w = some t := by
    rcases ev with ⟨i, c, act, before, returned⟩
    cases hmove
    simp [Action.target, hq, ht]
  rw [overwrites, h.before, htarget] at hover
  exact hover

theorem StepOf.isComplete_mono (h : StepOf env ps w ev p p' w') (hover : overwrites ev = false)
    {u : String} (hu : w.store.isComplete u = true) : w'.store.isComplete u = true := by
  cases h.moves with
  | writes hw => exact hw.isComplete_mono (fun t ht => h.not_complete hover ht) hu
  | ready hready =>
    cases hready with
    | assigned hq hspec hr =>
      refine isComplete_setTask _ ?_ hu
      exact h.head_not_complete hover hq ((Table.mem_iff_get _ _).mpr ⟨_, hspec⟩)
    | _ => exact hu
  | _ => exact hu

/-- The invariant after a step: the tasks of the other calls stay ready. -/
theorem Poised.set (h : Poised w.store w.coord ps) {s' : Store} {c' : Coordinator} {l : Call}
    {i : Nat} (hcoh : s'.Coherent) (hdeps : ∀ t, w.store.DepsComplete t → s'.DepsComplete t)
    (hqueued : ∀ t ∈ c'.readyQueue, s'.DepsComplete t)
    (hassigned : ∀ t, t ∈ c'.assignedTasks → s'.DepsComplete t)
    (hrunning : ∀ t, t ∈ c'.runningTasks → s'.DepsComplete t)
    (hhands : ∀ t ∈ p'.hands, s'.DepsComplete t) : Poised s' c' (ps.set i (l, p')) := by
  refine ⟨hcoh, hqueued, hassigned, hrunning, ?_⟩
  intro q hq t ht
  rcases List.mem_or_eq_of_mem_set hq with hq | rfl
  · exact hdeps t (h.hands q hq t ht)
  · exact hhands t ht

theorem Poised.step (h : Poised w.store w.coord ps) (hstep : StepOf env ps w ev p p' w')
    (hover : overwrites ev = false) :
    Poised w'.store w'.coord (ps.set ev.thread (ev.label, p')) := by
  have hdeps : ∀ t, w.store.DepsComplete t → w'.store.DepsComplete t := fun t ht =>
    ht.mono hstep.moves.sameShape.depsOf fun u hu => hstep.isComplete_mono hover hu
  have hown : ∀ t ∈ p.hands, w.store.DepsComplete t :=
    h.hands _ (List.mem_of_getElem? hstep.point)
  cases hstep.moves with
  | reads hr =>
    refine h.set h.coherent hdeps h.queued h.assigned h.running ?_
    intro t ht
    rcases hr.held ht with ht | ht
    · exact hown t ht
    · exact h.assigned t ht
  | draws hd =>
    refine h.set h.coherent hdeps h.queued h.assigned h.running ?_
    rw [hd.held]
    exact hown
  | writes hw =>
    have hcoh := hw.coherent h.coherent hown fun t ht => hstep.not_complete hover ht
    refine h.set hcoh hdeps (fun t ht => hdeps t (h.queued t ht))
      (fun t ht => hdeps t (h.assigned t ht)) (fun t ht => hdeps t (h.running t ht)) ?_
    intro t ht
    rcases hw.hands ht with ht | hrel
    · exact hdeps t (hown t ht)
    · -- A released task is queued, and a coherent store has its dependencies.
      obtain ⟨r, hr, hst⟩ := stateOf_eq_some.mp hrel.2
      exact hcoh.counted.ready t r hr (by rw [hst]; rfl)
  | locks hl =>
    refine h.set h.coherent hdeps ?_ (fun t ht => h.assigned t ((hl.maps t).1 ht))
      (fun t ht => h.running t ((hl.maps t).2 ht)) ?_
    · intro t ht
      rcases hl.queued ht with ht | ht
      · exact h.queued t ht
      · exact hown t ht
    · intro t ht
      rcases hl.hands ht with ht | ht
      · exact hown t ht
      · exact h.running t ht
  | ready hready =>
    cases hready with
    | empty _ =>
      exact h.set h.coherent hdeps h.queued h.assigned h.running (by simp [Point.hands])
    | unknown hq _ =>
      refine h.set h.coherent hdeps ?_ h.assigned h.running (by simp [Point.hands])
      exact fun t ht => h.queued t (hq ▸ List.mem_cons_of_mem _ ht)
    | absent hq _ _ =>
      refine h.set h.coherent hdeps ?_ h.assigned h.running (by simp [Point.hands])
      exact fun t ht => h.queued t (hq ▸ List.mem_cons_of_mem _ ht)
    | @assigned t rest spec r hq hspec hr =>
      have hhead : w.store.DepsComplete t := h.queued t (hq ▸ List.mem_cons_self)
      have hold : w.store.isComplete t = false :=
        hstep.head_not_complete hover hq ((Table.mem_iff_get _ _).mpr ⟨_, hspec⟩)
      refine h.set (h.coherent.overwrite hr rfl hold hhead (.inr (.inl rfl))) hdeps ?_ ?_ ?_
        (by simp [Point.hands])
      · exact fun u hu => hdeps u (h.queued u (hq ▸ List.mem_cons_of_mem _ hu))
      · intro u hu
        rcases Std.ExtTreeMap.mem_insert.mp hu with htu | hu
        · rw [← Std.LawfulEqCmp.compare_eq_iff_eq.mp htu]
          exact hdeps t hhead
        · exact hdeps u (h.assigned u hu)
      · intro u hu
        rcases Std.ExtTreeMap.mem_insert.mp hu with htu | hu
        · rw [← Std.LawfulEqCmp.compare_eq_iff_eq.mp htu]
          exact hdeps t hhead
        · exact hdeps u (h.running u hu)

/-- Only the transaction of `CompleteTask` completes a task. -/
theorem StepOf.point_of_completes (h : StepOf env ps w ev p p' w') {t : String}
    (ht : ev.action.completes = some t) : ∃ e output, p = .completeCommit t e output := by
  obtain ⟨next, hmove⟩ := h.action
  rcases ev with ⟨i, c, act, before, returned⟩
  cases p with
  | completeCommit t' e output =>
    cases hmove
    cases ht
    exact ⟨e, output, rfl⟩
  | _ => cases hmove <;> cases ht

/-- A step that counts down completes its task, which was not complete. -/
theorem StepOf.decrements (h : StepOf env ps w ev p p' w') {t : String}
    (hd : Decrements env t ev) :
    w.store.isComplete t = false ∧ w'.store.isComplete t = true := by
  obtain ⟨hcompletes, u, hu⟩ := hd
  rw [h.after, h.before] at hu
  obtain ⟨e, output, rfl⟩ := h.point_of_completes hcompletes
  cases h.moves with
  | reads hr => cases hr
  | draws hd => cases hd
  | locks hl => cases hl
  | writes hw =>
    cases hw with
    | completeRefused _ => exact absurd rfl hu
    | completeAgain _ _ _ => exact absurd rfl hu
    | complete hr _ hne hc =>
      refine ⟨?_, hc.isComplete_task⟩
      rw [isComplete_of_get hr, decide_eq_false_iff_not]
      exact hne

/-- A task that is handed out was at the head of the queue. -/
theorem StepOf.assignment (h : StepOf env ps w ev p p' w') {a : TaskAssignment}
    (ha : ev.action.assignment env w = some a) : a.taskId ∈ w.coord.readyQueue := by
  rw [h.assignment_eq] at ha
  cases p with
  | getReady k =>
    have hcases : ReadyCases env w k (w.getReadyTask env k) := w.getReadyTask_cases h.keyed k
    dsimp only at ha
    generalize w.getReadyTask env k = out at hcases ha
    cases hcases with
    | assigned hq _ _ =>
      cases ha
      rw [hq]
      exact List.mem_cons_self
    | _ => cases ha
  | _ => cases ha

end Step

/-! ## Runs -/

section Runs

variable {env : Env} {w₀ w : World} {es : List (Event Call Action World)}
  {ps : List (Call × Point)} {ts : List (Thread Call Action Reply)}

/-- Between two operations every queued or assigned task has complete
dependencies. -/
theorem Inv.poised {P : WorkflowSpec → Prop} (h : Inv P w) : Poised w.store w.coord [] := by
  have hassigned : ∀ t, t ∈ w.coord.assignedTasks → w.store.DepsComplete t := by
    intro t ht
    obtain ⟨e, he⟩ := (Table.mem_iff_get _ _).mp ht
    obtain ⟨_, _, _, _, hdeps, _⟩ := h.agree.assigned t e he
    exact hdeps
  refine ⟨h.sound.coherent, ?_, hassigned, ?_, by simp⟩
  · intro t ht
    obtain ⟨r, hr, hst⟩ := stateOf_eq_some.mp (h.agree.queued t ht)
    exact h.sound.coherent.counted.ready t r hr (by rw [hst]; rfl)
  · exact fun t ht => hassigned t ((h.agree.keys t).mp ht)

theorem hands_init (c : Call) : (coordinator.init c).hands = [] := by
  cases c <;> rfl

/-- Along a run of points that overwrites no complete task, the invariant
holds, and every task that was complete or has counted down is complete. -/
theorem poised_run (hrun : coordinator.Run (Action.handle env) w₀ es ps w)
    (h₀ : Poised w₀.store w₀.coord []) (hover : ∀ ev ∈ es, overwrites ev = false) :
    Poised w.store w.coord ps ∧ DependencySafe env w₀ es ∧
      (∀ t, w₀.store.isComplete t = true → w.store.isComplete t = true) ∧
      ∀ t, ∀ ev ∈ es, Decrements env t ev → w.store.isComplete t = true := by
  revert hover
  refine run_invariant (I := fun es ps w => (∀ ev ∈ es, overwrites ev = false) →
    Poised w.store w.coord ps ∧ DependencySafe env w₀ es ∧
      (∀ t, w₀.store.isComplete t = true → w.store.isComplete t = true) ∧
      ∀ t, ∀ ev ∈ es, Decrements env t ev → w.store.isComplete t = true)
    h₀.coherent.linked.keyed ?_ ?_ ?_ hrun
  · intro _
    exact ⟨h₀, ⟨fun _ => .nil, by simp, by simp⟩, fun _ h => h, by simp⟩
  · intro es ps w c _ ih hover
    obtain ⟨hp, hrest⟩ := ih hover
    refine ⟨⟨hp.coherent, hp.queued, hp.assigned, hp.running, ?_⟩, hrest⟩
    intro q hq t ht
    rcases List.mem_append.mp hq with hq | hq
    · exact hp.hands q hq t ht
    · rw [List.mem_singleton.mp hq, hands_init] at ht
      cases ht
  · intro es ps w ev p p' w' _ hstep ih hover
    have hev : overwrites ev = false := hover ev (by simp)
    obtain ⟨hp, hsafe, hfirst, hcount⟩ :=
      ih fun e he => hover e (List.mem_append_left _ he)
    refine ⟨hp.step hstep hev, ⟨?_, ?_, ?_⟩, ?_, ?_⟩
    · intro t
      rw [List.pairwise_append]
      refine ⟨hsafe.once t, List.pairwise_singleton _ _, ?_⟩
      intro a ha b hb hboth
      rw [List.mem_singleton.mp hb] at hboth
      have hdone := hcount t a ha hboth.1
      rw [(hstep.decrements hboth.2).1] at hdone
      cases hdone
    · intro t ht a ha hdec
      rcases List.mem_append.mp ha with ha | ha
      · exact hsafe.before t ht a ha hdec
      · rw [List.mem_singleton.mp ha] at hdec
        have hdone := hfirst t ht
        rw [(hstep.decrements hdec).1] at hdone
        cases hdone
    · intro a ha x hx
      rcases List.mem_append.mp ha with ha | ha
      · exact hsafe.ready a ha x hx
      · rw [List.mem_singleton.mp ha, hstep.before] at hx ⊢
        exact hp.queued _ (hstep.assignment hx)
    · exact fun t ht => hstep.isComplete_mono hev (hfirst t ht)
    · intro t a ha hdec
      rcases List.mem_append.mp ha with ha | ha
      · exact hstep.isComplete_mono hev (hcount t a ha hdec)
      · rw [List.mem_singleton.mp ha] at hdec
        exact (hstep.decrements hdec).2

/-- From any state that operations, crashes and restarts reach, any
interleaving of operations on tasks that overwrites no complete task counts
every completion once and hands out no task too early. -/
theorem dependency_safe {calls : List Call} (hstart : CrashRun env calls true w₀)
    (hids : NeverReused (submitted calls))
    (hrun : Interleaving (Action.handle env) Call.prog w₀ es ts w)
    (hops : ∀ th ∈ ts, th.label.onTasks = true)
    (hover : ∀ ev ∈ es, overwrites ev = false) : DependencySafe env w₀ es := by
  obtain ⟨ps, hps, _⟩ := hrun.run tracks_prog fun th hth => Call.concurrent_of_onTasks (hops th hth)
  exact (poised_run hps (hstart.inv hids).poised hover).2.1

end Runs

/-- The first of two tasks has been handed out to the worker `k`. -/
def handedOutRun : List Call :=
  [.submitWorkflow .asListed (.pair .failFast 1), .getReadyTask "k"]

/-- The worker is declared dead after its result has been stored. -/
def deathAfterResult : List (Choice Call) :=
  [.spawn (.completeTask "a" "x" "out"), .run 0, .run 0, .run 0,
    .spawn (.handleDeadWorker (.asListed _) "k"), .run 1, .run 0,
    .spawn (.getReadyTask "l"), .run 2]

theorem dependency_safe_deathAfterResult :
    DependencySafe .counting (runCalls .counting handedOutRun)
      (scheduleAfter handedOutRun deathAfterResult).1 :=
  dependency_safe (crashRun_runCalls _ _) (neverReused_of_one rfl)
    (interleaving_scheduleAfter _ _) (by decide) (by decide)

/-- The worker is declared dead after its result has been checked and before
it is stored.  The task is requeued when it is complete already. -/
def deathDuringResult : List (Choice Call) :=
  [.spawn (.completeTask "a" "x" "out"), .spawn (.handleDeadWorker (.asListed _) "k"),
    .run 0, .run 1, .run 0, .run 1, .run 1, .run 0, .spawn (.getReadyTask "l"), .run 2]

/-- The second task is handed out while the first one is queued again. -/
theorem not_dependencySafe_deathDuringResult :
    (∀ th ∈ (scheduleAfter handedOutRun deathDuringResult).2.1, th.label.onTasks = true) ∧
    Interleaving (Action.handle .counting) Call.prog (runCalls .counting handedOutRun)
      (scheduleAfter handedOutRun deathDuringResult).1
      (scheduleAfter handedOutRun deathDuringResult).2.1
      (scheduleAfter handedOutRun deathDuringResult).2.2 ∧
    ¬ DependencySafe .counting (runCalls .counting handedOutRun)
      (scheduleAfter handedOutRun deathDuringResult).1 := by
  refine ⟨by decide, interleaving_scheduleAfter _ _, fun h => ?_⟩
  have hfound : ((scheduleAfter handedOutRun deathDuringResult).1.any fun ev =>
      (ev.action.assignment .counting ev.before).any fun a =>
        !(ev.before.store.depsOf a.taskId).all ev.before.store.isComplete) = true := by
    decide
  obtain ⟨ev, hev, hany⟩ := List.any_eq_true.mp hfound
  obtain ⟨a, ha, hnot⟩ := (Option.any_eq_true _ _).mp hany
  have hdeps := List.all_eq_true.mpr (h.ready ev hev a ha)
  rw [hdeps] at hnot
  cases hnot

end DagScheduler
