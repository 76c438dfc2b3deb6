import DagScheduler.Coordinator.Uses
import DagScheduler.Lib.Reading
import DagScheduler.Model.Faults
import DagScheduler.Model.Service
import DagScheduler.Properties.Unchecked
import DagScheduler.Store.Changes

/-!
# Where a result comes from

The operations run concurrently, any transaction may fail, the process may be restarted
in the middle of them, and clients may reuse IDs.  Much of what holds of operations one
at a time is then lost.  This is not: whatever is recorded about an execution can be
traced to calls that were made.

* The two maps of the coordinator list the same tasks.  Every entry was put there by a
  `GetReadyTask` that answered the worker with this task and this execution, and no
  execution is handed out twice.
* A `COMPLETE` record carries the execution and the output of a `CompleteTask`, and a
  `FAILED` record the error of a `FailTask`.  The execution that the report names was
  handed out before.

`assignmentLog` lists what the `GetReadyTask`s of a run have answered.
-/

namespace DagScheduler

open Lib Store

variable {env : Env} {fails : Faults}

/-- The worker and the assignment that it gets, if the action hands out a task. -/
def Action.handout (env : Env) (fails : Faults) (w : World) :
    {β : Type} → Action β → Option (String × TaskAssignment)
  | _, .getReadyTask workerID => (w.getReadyTaskFaulty env fails workerID).1.map (workerID, ·)
  | _, _ => none

/-- The assignments of a run, oldest first. -/
def assignmentLog (env : Env) (fails : Faults) (es : List (Event Call Action World)) :
    List (String × TaskAssignment) :=
  es.filterMap fun ev => ev.action.handout env fails ev.before

/-- The task was handed out to the worker under this execution. -/
def HandedOut (env : Env) (fails : Faults) (es : List (Event Call Action World))
    (t e workerID : String) : Prop :=
  ∃ a, (workerID, a) ∈ assignmentLog env fails es ∧ a.taskId = t ∧ a.executionId = e

/-- The call is part of the run. -/
def Made (es : List (Event Call Action World)) (c : Call) : Prop := ∃ ev ∈ es, ev.label = c

/-- All that is recorded about executions can be traced to events. -/
structure Traced (env : Env) (fails : Faults) (es : List (Event Call Action World))
    (w : World) : Prop where
  keyed : w.store.SelfKeyed
  assigned : ∀ t e : String, w.coord.assignedTasks[t]? = some e →
    ∃ k, w.coord.runningTasks[t]? = some k ∧ HandedOut env fails es t e k
  running : ∀ t k : String, w.coord.runningTasks[t]? = some k →
    ∃ e, w.coord.assignedTasks[t]? = some e
  completed : ∀ (t : String) (r : TaskStateRecord), w.store.taskState[t]? = some r →
    r.state = .complete → Made es (.completeTask t r.executionID r.output) ∧
      ∃ k, HandedOut env fails es t r.executionID k
  failed : ∀ (t : String) (r : TaskStateRecord), w.store.taskState[t]? = some r →
    r.state = .failed → ∃ e, Made es (.failTask t e r.error) ∧
      ∃ k, HandedOut env fails es t e k

/-! ## One transaction -/

section Transactions

variable {J B : World → Prop} {c : Call} {α : Type} {op : StoreOp α} {t : String}
  {o : Option TaskStateRecord} {r : TaskStateRecord}

/-- The counter of a task that waits does not finish it. -/
theorem iterate_unlocked_eq_of_over {x : TaskStateRecord} {now : Int64} {n : Nat}
    (hover : ((unlocked now)^[n] x).state = .complete ∨ ((unlocked now)^[n] x).state = .failed) :
    (unlocked now)^[n] x = x := by
  by_cases hp : x.state = .pending
  · rcases iterate_unlocked_pending now hp n with hst | hst <;> simp [hst] at hover
  · exact iterate_unlocked_of_ne now hp n

/-- Only `CompleteTask` makes a record `COMPLETE`, and only `FailTask` makes it
`FAILED`.  Both have seen the execution of the caller. -/
theorem Call.Runs.of_over (hruns : c.Runs env J B op) (hchange : op.Changes t o (some r))
    (hover : r.state = .complete ∨ r.state = .failed) :
    o = some r ∨ ∃ e, Seen J (·.coord.assignedTasks[t]? = some e) ∧
      (r.state = .complete ∧ e = r.executionID ∧ c = .completeTask t e r.output ∨
        r.state = .failed ∧ c = .failTask t e r.error) := by
  cases hchange with
  | same => exact .inl rfl
  | created _ hcreates =>
    cases hruns with
    | initializeTasks _ =>
      obtain ⟨_, _, _, _, rfl⟩ := hcreates
      simp [initialRecord] at hover
    | _ => exact hcreates.elim
  | @rewritten x _ hrewrites =>
    cases hruns with
    | complete hseen =>
      rcases hrewrites with ⟨rfl, rfl, now, rfl⟩ | ⟨now, n, rfl⟩
      · exact .inr ⟨_, hseen, .inl ⟨rfl, rfl, rfl⟩⟩
      · exact .inl (congrArg some (iterate_unlocked_eq_of_over hover).symm)
    | fail hseen =>
      obtain ⟨rfl, now, rfl⟩ := hrewrites
      exact .inr ⟨_, hseen, .inr ⟨rfl, rfl⟩⟩
    | queueRoot _ _ | skip _ | retry _ _ | reclaim _ _ | recover _ _ | stop | cancelTasks =>
      obtain ⟨_, now, rfl⟩ := hrewrites
      simp at hover
    | _ => exact hrewrites.elim

end Transactions

/-! ## One action -/

/-- A fault in `GetReadyTask` costs the head of the queue, and a UUID. -/
theorem World.getReadyTaskFaulty_cases (env : Env) (fails : Faults) (w : World)
    (workerID : String) :
    w.getReadyTaskFaulty env fails workerID = w.getReadyTask env workerID ∨
      ∃ rest, w.getReadyTaskFaulty env fails workerID = (none,
        { w with
          coord := { w.coord with readyQueue := rest }
          ticks := w.ticks + 1
          uuids := w.uuids + 1 }) := by
  unfold World.getReadyTaskFaulty
  cases hq : w.coord.readyQueue with
  | nil => exact .inl (by simp [World.getReadyTask, hq])
  | cons t rest =>
    dsimp only
    split
    · exact .inr ⟨rest, rfl⟩
    · exact .inl rfl

theorem answers_handleFaulty (env : Env) (fails : Faults) :
    Answers env (Action.handleFaulty env fails) :=
  ⟨fun _ _ => rfl, fun _ _ => rfl, fun _ => rfl⟩

section Actions

variable {es : List (Event Call Action World)} {w : World}

/-- What is said about a state depends on the records and the two maps. -/
theorem Traced.of_eq {w' : World} (h : Traced env fails es w) (hstore : w'.store = w.store)
    (hassigned : w'.coord.assignedTasks = w.coord.assignedTasks)
    (hrunning : w'.coord.runningTasks = w.coord.runningTasks) : Traced env fails es w' := by
  obtain ⟨hk, ha, hr, hc, hf⟩ := h
  rw [← hstore] at hk hc hf
  rw [← hassigned, ← hrunning] at ha hr
  exact ⟨hk, ha, hr, hc, hf⟩

theorem Traced.update {c : Call} {α : Type} {op : StoreOp α}
    (hruns : c.Runs env (Traced env fails es) (fun _ => True) op) (hmade : Made es c)
    (h : Traced env fails es w) : Traced env fails es (w.update env op).2 := by
  have hback := fun (t : String) (r : TaskStateRecord)
      (hr : (w.update env op).2.store.taskState[t]? = some r)
      (hover : r.state = .complete ∨ r.state = .failed) =>
    hruns.of_over (hr ▸ op.commit_changes h.keyed.tasks env.marshals (env.now w.ticks) t) hover
  refine ⟨h.keyed.commit op env.marshals (env.now w.ticks), h.assigned, h.running, ?_, ?_⟩
  · intro t r hr hst
    rcases hback t r hr (.inl hst) with hold | ⟨e, ⟨w₁, hw₁, hseen⟩, hcase⟩
    · exact h.completed t r hold hst
    · obtain ⟨k, _, hhanded⟩ := hw₁.assigned t e hseen
      rcases hcase with ⟨_, rfl, rfl⟩ | ⟨hfailed, _⟩
      · exact ⟨hmade, k, hhanded⟩
      · rw [hst] at hfailed
        cases hfailed
  · intro t r hr hst
    rcases hback t r hr (.inr hst) with hold | ⟨e, ⟨w₁, hw₁, hseen⟩, hcase⟩
    · exact h.failed t r hold hst
    · obtain ⟨k, _, hhanded⟩ := hw₁.assigned t e hseen
      rcases hcase with ⟨hcomplete, _⟩ | ⟨_, rfl⟩
      · rw [hst] at hcomplete
        cases hcomplete
      · exact ⟨e, hmade, k, hhanded⟩

theorem Traced.locked {m : Coordinator} (hsec : Section w.store w.coord m)
    (h : Traced env fails es w) : Traced env fails es { w with coord := m } := by
  refine ⟨h.keyed, fun t e ha => ?_, fun t k hk => ?_, h.completed, h.failed⟩
  · rcases hsec.maps t with ⟨hsame, hsame'⟩ | ⟨hnone, _⟩
    · obtain ⟨k, hk, hhanded⟩ := h.assigned t e (hsame ▸ ha)
      exact ⟨k, hsame'.trans hk, hhanded⟩
    · exact absurd (hnone.symm.trans ha) (by simp)
  · rcases hsec.maps t with ⟨hsame, hsame'⟩ | ⟨_, hnone⟩
    · obtain ⟨e, he⟩ := h.running t k (hsame' ▸ hk)
      exact ⟨e, hsame.trans he⟩
    · exact absurd (hnone.symm.trans hk) (by simp)

/-- `GetReadyTask`, whose answer is one of the assignments of the run. -/
theorem Traced.getReadyTask {workerID : String}
    (hes : ∀ a, (w.getReadyTaskFaulty env fails workerID).1 = some a →
      (workerID, a) ∈ assignmentLog env fails es)
    (h : Traced env fails es w) :
    Traced env fails es (w.getReadyTaskFaulty env fails workerID).2 := by
  rcases w.getReadyTaskFaulty_cases env fails workerID with heq | ⟨rest, heq⟩
  · rw [heq] at hes ⊢
    have hcases : ReadyCases env w workerID (w.getReadyTask env workerID) :=
      w.getReadyTask_cases h.keyed.tasks workerID
    have hkeyed : (w.getReadyTask env workerID).2.store.SelfKeyed :=
      h.keyed.handle (.getReadyTask workerID)
    generalize w.getReadyTask env workerID = out at hcases hes hkeyed ⊢
    cases hcases with
    | empty _ => exact h
    | unknown _ _ => exact h.of_eq rfl rfl rfl
    | absent _ _ _ => exact h.of_eq rfl rfl rfl
    | @assigned u rest spec r _ _ hr =>
      refine ⟨hkeyed, fun t e ha => ?_, fun t k hk => ?_, fun t r' hr' hst => ?_,
        fun t r' hr' hst => ?_⟩
      · dsimp only at ha ⊢
        rw [Table.get_insert] at ha ⊢
        split at ha
        · rename_i htu
          cases ha
          rw [if_pos htu]
          exact ⟨workerID, rfl, _, hes _ rfl, htu, rfl⟩
        · rename_i htu
          rw [if_neg htu]
          exact h.assigned t e ha
      · dsimp only at hk ⊢
        rw [Table.get_insert] at hk ⊢
        split at hk
        · rename_i htu
          rw [if_pos htu]
          exact ⟨_, rfl⟩
        · rename_i htu
          rw [if_neg htu]
          exact h.running t k hk
      · rw [get_setTask] at hr'
        split at hr'
        · cases hr'
          cases hst
        · exact h.completed t r' hr' hst
      · rw [get_setTask] at hr'
        split at hr'
        · cases hr'
          cases hst
        · exact h.failed t r' hr' hst
  · rw [heq]
    exact h.of_eq rfl rfl rfl

/-- The step lemma. -/
theorem Traced.step {ev : Event Call Action World} (hev : ev ∈ es)
    (huses : ev.label.Uses env (Traced env fails es) (fun _ => True) ev.action)
    (h : Traced env fails es ev.before) :
    Traced env fails es (ev.after (Action.handleFaulty env fails)) := by
  obtain ⟨i, c, action, w, returned⟩ := ev
  have hmade : Made es c := ⟨_, hev, rfl⟩
  cases action with
  | update op =>
    show Traced env fails es (w.updateFaulty env fails op).2
    unfold World.updateFaulty
    split
    · exact h.of_eq rfl rfl rfl
    · exact h.update huses hmade
  | view f => exact h
  | locked f => exact h.locked (huses.1 w.store w.coord)
  | newUUID => exact h.of_eq rfl rfl rfl
  | getReadyTask workerID =>
    refine Traced.getReadyTask (fun a ha => ?_) h
    refine List.mem_filterMap.mpr ⟨_, hev, ?_⟩
    show (w.getReadyTaskFaulty env fails workerID).1.map (workerID, ·) = some (workerID, a)
    rw [ha]
    rfl

end Actions

/-! ## Whole runs -/

variable {es : List (Event Call Action World)} {ts : List (Thread Call Action Reply)} {w : World}

theorem traced_empty (env : Env) (fails : Faults) (es : List (Event Call Action World)) :
    Traced env fails es {} := by
  refine ⟨⟨fun t r hr => ?_, fun id r hr => ?_⟩, fun t e ha => ?_, fun t k hk => ?_,
    fun t r hr _ => ?_, fun t r hr _ => ?_⟩
  all_goals simp at *

/-- The run lemma. -/
theorem traced_of_interleaving
    (hrun : Interleaving (Action.handleFaulty env fails) Call.prog {} es ts w) :
    Traced env fails es w :=
  (hrun.invariant (fun _ hev huses h => h.step hev huses)
    (fun c => c.admits_prog (answers_handleFaulty env fails)) (List.Subset.refl es)
    (traced_empty env fails es)).1

/-- The two maps list the same tasks. -/
theorem Traced.mem_runningTasks (h : Traced env fails es w) (t : String) :
    t ∈ w.coord.runningTasks ↔ t ∈ w.coord.assignedTasks := by
  rw [Table.mem_iff_get, Table.mem_iff_get]
  constructor
  · exact fun ⟨k, hk⟩ => h.running t k hk
  · rintro ⟨e, he⟩
    obtain ⟨k, hk, _⟩ := h.assigned t e he
    exact ⟨k, hk⟩

/-- A snapshot of the metrics counts as many running tasks as assigned ones, whatever
happens before its second read. -/
theorem snapshotMetrics_counts
    (hrun : Interleaving (Action.handleFaulty env fails) Call.prog {} es ts w) {v : World}
    {snapshot : MetricsSnapshot}
    (hread : snapshotMetrics.readAt (Action.handleFaulty env fails) [w, v] = some snapshot) :
    snapshot.runningTaskCount = snapshot.assignedTaskCount := by
  have hkeys : w.coord.runningTasks.keys.Perm w.coord.assignedTasks.keys := by
    rw [List.perm_ext_iff_of_nodup (Table.nodup_keys _) (Table.nodup_keys _)]
    intro t
    rw [Std.ExtTreeMap.mem_keys, Std.ExtTreeMap.mem_keys]
    exact (traced_of_interleaving hrun).mem_runningTasks t
  have hsize := hkeys.length_eq
  rw [Std.ExtTreeMap.length_keys, Std.ExtTreeMap.length_keys] at hsize
  cases hread
  exact hsize

end DagScheduler
