import DagScheduler.Coordinator.Moves
import DagScheduler.Coordinator.Runs

/-!
# Stale failure reports under concurrency

`FailTask` checks its execution ID under the mutex, and then reads and writes
the store and the maps in later steps.  `Fenced` asks that these steps still
meet the execution that was checked, and that no task is in the ready queue
twice.

The later writes take no execution ID, so they hit whatever is there.  If the
worker is declared dead in between, the report may requeue or fail an
execution that it knows nothing about.  `Alone` is the condition that rules
this out: while a report on a task is on its way, no other report on the task
passes the check, and its worker is not declared dead.  Stale reports, which the
check refuses, may come at any time.

Two invariants carry the proof.  Every task has at most one token: a place in
the queue, an entry in the map of assigned tasks, or a place in the hands of a
call that is about to queue it.  And a report that is on its way still finds
the entry or the execution that it checked.
-/

namespace DagScheduler

open Lib Store

/-! ## The property -/

/-- The stored execution ID of a task. -/
def Store.executionOf (s : Store) (t : String) : Option String :=
  s.taskState[t]?.map (·.executionID)

/-- The task leaves a map of running tasks or enters the queue. -/
def Withdraws (c c' : Coordinator) (t : String) : Prop :=
  t ∈ c.runningTasks ∧ t ∉ c'.runningTasks ∨ t ∈ c.assignedTasks ∧ t ∉ c'.assignedTasks ∨
    c.readyQueue.count t < c'.readyQueue.count t

/-- A failure report on the execution `e` of `t` touches the record and the
memory of `t` only while `e` is current, and the queue has no duplicates. -/
structure Fenced (env : Env) (es : List (Event Call Action World)) : Prop where
  record : ∀ ev ∈ es, ∀ t e errMsg, ev.label = .failTask t e errMsg →
    (ev.after (Action.handle env)).store.taskState[t]? ≠ ev.before.store.taskState[t]? →
    ev.before.store.executionOf t = some e
  memory : ∀ ev ∈ es, ∀ t e errMsg, ev.label = .failTask t e errMsg →
    Withdraws ev.before.coord (ev.after (Action.handle env)).coord t →
    ev.before.coord.assignedTasks[t]? = some e
  nodup : ∀ ev ∈ es, (ev.after (Action.handle env)).coord.readyQueue.Nodup

/-- The call reports the end of the execution `e` of the task. -/
def Call.reports (t e : String) : Call → Bool
  | .completeTask u e' _ | .failTask u e' _ => u = t ∧ e' = e
  | _ => false

/-- The step belongs to a report on the task that passes the check: its first
step found the execution that it names. -/
def Passes (pre : List (Event Call Action World)) (ev : Event Call Action World)
    (t : String) : Prop :=
  ∃ e first, ev.label.reports t e = true ∧ firstOf ev.thread (pre ++ [ev]) = some first ∧
    first.before.coord.assignedTasks[t]? = some e

/-- The step is the first one of a `HandleDeadWorker` for the worker that has
the task. -/
def Claims (pre : List (Event Call Action World)) (ev : Event Call Action World)
    (t : String) : Prop :=
  ∃ order k, ev.label = .handleDeadWorker order k ∧ lastOf ev.thread pre = none ∧
    ev.before.coord.runningTasks[t]? = some k

/-- While another call reports a failure of a task, the step is not one of a
report on the task that passes the check, and does not declare its worker
dead. -/
def Alone (pre : List (Event Call Action World)) (ev : Event Call Action World) : Prop :=
  ∀ i t e errMsg, i ≠ ev.thread → InProgress pre i (.failTask t e errMsg) →
    ¬ Passes pre ev t ∧ ¬ Claims pre ev t

/-! ## Tokens -/

/-- The tasks that a call is about to queue. -/
def Point.carried : Point → List String
  | .completePublish _ ready => ready
  | .deadDraw _ t rest | .deadRequeue _ t _ rest | .deadPublish _ t rest => t :: rest
  | _ => []

/-- One if the task has an entry, and zero if not. -/
def entries (m : Table String String) (t : String) : Nat := if t ∈ m then 1 else 0

/-- The tokens of a task in the memory and in the hands of one call. -/
def ownTokens (c : Coordinator) (p : Point) (t : String) : Nat :=
  c.readyQueue.count t + entries c.assignedTasks t + p.carried.count t

/-- The tokens of a task in the memory and in the hands of all calls. -/
def tokens (c : Coordinator) (ps : List (Call × Point)) (t : String) : Nat :=
  c.readyQueue.count t + entries c.assignedTasks t
    + (ps.map fun q => q.2.carried.count t).sum

theorem entries_of_mem {m : Table String String} {t : String} (h : t ∈ m) : entries m t = 1 :=
  if_pos h

theorem entries_of_not_mem {m : Table String String} {t : String} (h : t ∉ m) :
    entries m t = 0 :=
  if_neg h

theorem entries_le_one (m : Table String String) (t : String) : entries m t ≤ 1 := by
  unfold entries
  split <;> decide

theorem entries_mono {m m' : Table String String} {t : String} (h : t ∈ m' → t ∈ m) :
    entries m' t ≤ entries m t := by
  by_cases hin : t ∈ m'
  · rw [entries_of_mem hin, entries_of_mem (h hin)]
  · rw [entries_of_not_mem hin]
    exact Nat.zero_le _

theorem entries_erase_self (m : Table String String) (t : String) :
    entries (m.erase t) t = 0 :=
  entries_of_not_mem fun h => (Std.ExtTreeMap.mem_erase.mp h).1 (Std.ReflCmp.compare_self)

theorem entries_erase_le (m : Table String String) (u t : String) :
    entries (m.erase u) t ≤ entries m t :=
  entries_mono fun h => (Std.ExtTreeMap.mem_erase.mp h).2

theorem entries_insert_ne (m : Table String String) {u t : String} (v : String) (h : u ≠ t) :
    entries (m.insert u v) t = entries m t := by
  have hiff : t ∈ m.insert u v ↔ t ∈ m := by
    rw [Table.mem_iff_get, Table.mem_iff_get, Table.get_insert_ne _ _ h]
  by_cases hin : t ∈ m
  · rw [entries_of_mem hin, entries_of_mem (hiff.mpr hin)]
  · rw [entries_of_not_mem hin, entries_of_not_mem (mt hiff.mp hin)]

theorem Point.carried_deadNext (k : String) (l : List String) :
    (Point.deadNext k l).carried = l := by
  cases l <;> rfl

theorem Point.Skipping.carried {id : String} {p : Point} (h : p.Skipping id) :
    p.carried = [] := by
  cases h <;> rfl

theorem Point.carried_policy (id t : String) (policy : FailurePolicy) :
    (Point.policy id t policy).carried = [] := by
  cases policy <;> rfl

section Tokens

variable {c c' : Coordinator} {ps : List (Call × Point)} {p p' : Point}

theorem tokens_set {i : Nat} {l : Call} (hp : ps[i]? = some (l, p)) (c c' : Coordinator)
    (l' : Call) (p' : Point) (t : String) :
    tokens c' (ps.set i (l', p')) t + ownTokens c p t = tokens c ps t + ownTokens c' p' t := by
  have hsum := sum_map_set (fun q : Call × Point => q.2.carried.count t) hp (l', p')
  unfold tokens ownTokens
  dsimp only at hsum ⊢
  omega

theorem ownTokens_le_tokens {i : Nat} {l : Call} (hp : ps[i]? = some (l, p)) (t : String) :
    ownTokens c p t ≤ tokens c ps t := by
  have hsum := sum_map_set (fun q : Call × Point => q.2.carried.count t) hp (l, .done)
  unfold tokens ownTokens
  dsimp only [Point.carried] at hsum ⊢
  simp only [List.count_nil] at hsum
  omega

theorem Reads.carried {s : Store} (h : Reads s c p p') : p.carried = [] ∧ p'.carried = [] := by
  cases h with
  | skipStart hskip => exact ⟨rfl, hskip.carried⟩
  | skipRead hskip => exact ⟨rfl, hskip.carried⟩
  | _ => exact ⟨rfl, rfl⟩

theorem Draws.carried {newID : String} (h : Draws newID p p') : p'.carried = p.carried := by
  cases h <;> rfl

/-- A transaction hands out tokens only for the tasks that it releases. -/
theorem Writes.carried {now : Int64} {s s' : Store} (h : Writes now s p p' s') (t : String) :
    p'.carried.count t ≤ p.carried.count t ∨
      Released s s' t ∧ p'.carried.count t ≤ p.carried.count t + 1 := by
  cases h with
  | complete _ _ _ hc =>
    by_cases ht : Released s s' t
    · refine .inr ⟨ht, ?_⟩
      exact (List.nodup_iff_count_le_one.mp hc.nodup_ready t).trans (Nat.le_add_left 1 _)
    · refine .inl ?_
      have hcount := List.count_eq_zero_of_not_mem (mt (hc.mem_ready t).mp ht)
      exact (le_of_eq hcount).trans (Nat.zero_le _)
  | skip _ hskip => exact .inl (by rw [hskip.carried]; exact Nat.zero_le _)
  | skipAbsent _ hskip => exact .inl (by rw [hskip.carried]; exact Nat.zero_le _)
  | requeue _ => exact .inl (Nat.le_refl _)
  | requeueAbsent _ =>
    rw [Point.carried_deadNext]
    exact .inl (List.count_le_count_cons)
  | _ => exact .inl (Nat.zero_le _)

/-- The tasks that `HandleDeadWorker` claims, each once. -/
theorem count_claimTasks (c : Coordinator) (order : RangeOrder String) (k t : String) :
    (c.claimTasks order k).1.count t ≤ 1 ∧
      (t ∈ (c.claimTasks order k).1 ↔ c.runningTasks[t]? = some k) := by
  unfold Coordinator.claimTasks
  constructor
  · refine List.nodup_iff_count_le_one.mp (List.Nodup.filter _ ?_) t
    exact order.nodup_visit (Table.nodup_keys _)
  · rw [List.mem_filter, decide_eq_true_eq, RangeOrder.mem_visit]
    constructor
    · exact fun h => h.2
    · intro h
      exact ⟨Std.ExtTreeMap.mem_keys.mpr ((Table.mem_iff_get _ _).mpr ⟨_, h⟩), h⟩

/-- A section under the mutex only passes tokens on. -/
theorem Locks.ownTokens_le (h : Locks c p p' c')
    (hkeys : ∀ t, t ∈ c.runningTasks → t ∈ c.assignedTasks)
    (hheld : ∀ t e, p = .failPublish t e → t ∈ c.assignedTasks) (t : String) :
    ownTokens c' p' t ≤ ownTokens c p t := by
  -- The sections that drop tasks from the queue.
  have hdrop : ∀ l : List String, (c.dropFromQueue l).readyQueue.count t ≤ c.readyQueue.count t :=
    fun l => List.filter_sublist.count_le t
  have happend : ∀ l : List String, (c.enqueue l).readyQueue.count t
      = c.readyQueue.count t + l.count t := fun l => List.count_append
  unfold ownTokens
  cases h with
  | @complete u ready =>
    have hentries := entries_erase_le c.assignedTasks u t
    have hqueue := happend ready
    show (c.enqueue ready).readyQueue.count t + entries (c.assignedTasks.erase u) t + 0
      ≤ c.readyQueue.count t + entries c.assignedTasks t + ready.count t
    omega
  | @retry u e =>
    have hqueue := happend [u]
    show (c.enqueue [u]).readyQueue.count t + entries (c.assignedTasks.erase u) t + 0
      ≤ c.readyQueue.count t + entries c.assignedTasks t + 0
    by_cases hut : u = t
    · subst hut
      rw [entries_erase_self, entries_of_mem (hheld u e rfl)]
      rw [List.count_singleton_self] at hqueue
      omega
    · rw [List.count_singleton, if_neg (by simpa using hut)] at hqueue
      have hentries := entries_erase_le c.assignedTasks u t
      omega
  | @fail u e =>
    have hentries := entries_erase_le c.assignedTasks u t
    have hcarried : (if c.taskWorkflowMap.getD u "" ≠ "" then
        Point.policy (c.taskWorkflowMap.getD u "") u
          (c.workflowFailurePolicy.getD (c.taskWorkflowMap.getD u "") .failFast)
        else .done).carried.count t = 0 := by
      split
      · rw [Point.carried_policy]
        rfl
      · rfl
    rw [hcarried]
    show c.readyQueue.count t + entries (c.assignedTasks.erase u) t + 0
      ≤ c.readyQueue.count t + entries c.assignedTasks t + 0
    omega
  | @stop id l => exact Nat.add_le_add_right (Nat.add_le_add_right (hdrop l) _) _
  | @skip id l => exact Nat.add_le_add_right (Nat.add_le_add_right (hdrop l) _) _
  | @cancel id l => exact Nat.add_le_add_right (Nat.add_le_add_right (hdrop l) _) _
  | remove => exact Nat.le_refl _
  | @requeue k u rest =>
    have hqueue := happend [u]
    rw [Point.carried_deadNext]
    show (c.enqueue [u]).readyQueue.count t + entries c.assignedTasks t + rest.count t
      ≤ c.readyQueue.count t + entries c.assignedTasks t + (u :: rest).count t
    have hcons : (u :: rest).count t = [u].count t + rest.count t :=
      (List.count_append : ([u] ++ rest).count t = _)
    omega
  | @claim order k =>
    obtain ⟨hone, hmem⟩ := count_claimTasks c order k t
    have hqueue : (c.claimTasks order k).2.readyQueue = c.readyQueue :=
      Coordinator.foldl_forget_readyQueue _ _
    have hassigned : (c.claimTasks order k).2.assignedTasks[t]?
        = if t ∈ (c.claimTasks order k).1 then none else c.assignedTasks[t]? :=
      Coordinator.get_foldl_forget_assigned _ _ _
    rw [Point.carried_deadNext, hqueue]
    show _ ≤ c.readyQueue.count t + entries c.assignedTasks t + 0
    by_cases hin : t ∈ (c.claimTasks order k).1
    · rw [if_pos hin] at hassigned
      rw [entries_of_not_mem ((Table.not_mem_iff_get _ _).mpr hassigned),
        entries_of_mem (hkeys t ((Table.mem_iff_get _ _).mpr ⟨k, hmem.mp hin⟩))]
      omega
    · rw [if_neg hin] at hassigned
      have hentries : entries (c.claimTasks order k).2.assignedTasks t
          ≤ entries c.assignedTasks t := by
        refine entries_mono fun h => ?_
        rw [Table.mem_iff_get, hassigned, ← Table.mem_iff_get] at h
        exact h
      rw [List.count_eq_zero_of_not_mem hin]
      omega

/-- `GetReadyTask` turns a place in the queue into an entry. -/
theorem ReadyCases.ownTokens_le {env : Env} {w w' : World} {k : String}
    {a : Option TaskAssignment} (h : ReadyCases env w k (a, w')) (t : String) :
    ownTokens w'.coord .done t ≤ ownTokens w.coord (.getReady k) t := by
  have hrest : ∀ {u : String} {rest : List String}, w.coord.readyQueue = u :: rest →
      w.coord.readyQueue.count t = [u].count t + rest.count t := by
    intro u rest hq
    rw [hq]
    exact (List.count_append : ([u] ++ rest).count t = _)
  unfold ownTokens
  cases h with
  | empty _ => exact Nat.le_refl _
  | @unknown u rest hq _ =>
    have hcount := hrest hq
    show rest.count t + entries w.coord.assignedTasks t + 0
      ≤ w.coord.readyQueue.count t + entries w.coord.assignedTasks t + 0
    omega
  | @absent u rest _ hq _ _ =>
    have hcount := hrest hq
    show rest.count t + entries w.coord.assignedTasks t + 0
      ≤ w.coord.readyQueue.count t + entries w.coord.assignedTasks t + 0
    omega
  | @assigned u rest _ _ hq _ _ =>
    have hcount := hrest hq
    show rest.count t + entries (w.coord.assignedTasks.insert u (env.uuid w.uuids)) t + 0
      ≤ w.coord.readyQueue.count t + entries w.coord.assignedTasks t + 0
    by_cases hut : u = t
    · subst hut
      have hone := entries_le_one (w.coord.assignedTasks.insert u (env.uuid w.uuids)) u
      rw [List.count_singleton_self] at hcount
      omega
    · rw [entries_insert_ne _ _ hut]
      omega

/-- A step passes the tokens of a task on, or releases the task. -/
theorem Moves.ownTokens_le {env : Env} {w w' : World} (h : Moves env w p p' w')
    (hkeys : ∀ t, t ∈ w.coord.runningTasks → t ∈ w.coord.assignedTasks)
    (hheld : ∀ t e, p = .failPublish t e → t ∈ w.coord.assignedTasks) (t : String) :
    ownTokens w'.coord p' t ≤ ownTokens w.coord p t ∨
      Released w.store w'.store t ∧ ownTokens w'.coord p' t ≤ ownTokens w.coord p t + 1 := by
  cases h with
  | reads hr =>
    obtain ⟨hp, hp'⟩ := hr.carried
    rw [ownTokens, ownTokens, hp, hp']
    exact .inl (Nat.le_refl _)
  | draws hd =>
    rw [ownTokens, ownTokens, hd.carried]
    exact .inl (Nat.le_refl _)
  | locks hl => exact .inl (hl.ownTokens_le hkeys hheld t)
  | ready hready => exact .inl (hready.ownTokens_le t)
  | writes hw =>
    rcases hw.carried t with hle | ⟨hrel, hle⟩
    · exact .inl (Nat.add_le_add_left hle _)
    · exact .inr ⟨hrel, Nat.add_le_add_left hle _⟩

end Tokens

/-! ## Reports on their way -/

/-- How far a failure report has come. -/
inductive Stage where
  | idle
  | holding
  | requeued
  | failed
  | policy
deriving DecidableEq

/-- The stage of a report at a point. -/
def Point.stage : Point → Stage
  | .failRead _ _ _ | .failLimit _ _ _ _ | .failDraw _ _ | .failRequeue _ _ _
  | .failCommit _ _ _ _ => .holding
  | .failPublish _ _ => .requeued
  | .failForget _ _ => .failed
  | .stopCancel _ | .stopDrop _ _ | .skipStart _ _ | .skipRead _ _ _ _ _ _
  | .skipWrite _ _ _ _ _ _ | .skipDrop _ _ | .checkComplete _ | .checkStatuses _
  | .close _ _ => .policy
  | _ => .idle

/-- What a report on the execution `e` of `t` still finds. -/
def Window (s : Store) (c : Coordinator) (held : Nat) (t e : String) : Stage → Prop
  | .idle => True
  | .holding => c.assignedTasks[t]? = some e ∧ s.executionOf t = some e
  | .requeued => c.assignedTasks[t]? = some e
  | .failed => c.assignedTasks[t]? = some e ∧ s.executionOf t = some e ∧
      s.stateOf t ≠ some .pending
  | .policy => s.executionOf t = some e ∧ held = 0 ∧ s.stateOf t ≠ some .pending

/-- The invariant between two steps. -/
structure Guarded (s : Store) (c : Coordinator) (ps : List (Call × Point)) : Prop where
  keys : ∀ t, t ∈ c.runningTasks ↔ t ∈ c.assignedTasks
  once : ∀ t, tokens c ps t ≤ 1
  pending : ∀ t, s.stateOf t = some .pending → tokens c ps t = 0
  current : ∀ t e : String, c.assignedTasks[t]? = some e →
    s.executionOf t = some e ∨ ∃ q ∈ ps, ∃ e', q.2 = .failPublish t e'
  window : ∀ q ∈ ps, ∀ t e errMsg, q.1 = .failTask t e errMsg →
    Window s c (tokens c ps t) t e q.2.stage

/-! ## What a step does to one task -/

section Steps

variable {now : Int64} {s s' : Store} {c c' : Coordinator} {p p' : Point}

theorem Store.executionOf_setTask (s : Store) (t u : String) (r : TaskStateRecord) :
    (s.setTask t r).executionOf u = if t = u then some r.executionID else s.executionOf u := by
  rw [executionOf, get_setTask]
  split <;> rfl

/-- Rewriting a record under the same execution. -/
theorem Store.executionOf_setTask_same {t : String} {r r' : TaskStateRecord}
    (hr : s.taskState[t]? = some r) (hid : r'.executionID = r.executionID) (u : String) :
    (s.setTask t r').executionOf u = s.executionOf u := by
  rw [executionOf_setTask]
  split
  · rename_i htu
    rw [← htu, executionOf, hr, hid]
    rfl
  · rfl

theorem iterate_unlocked_executionID (now : Int64) (n : Nat) (ds : TaskStateRecord) :
    ((unlocked now)^[n] ds).executionID = ds.executionID := by
  induction n with
  | zero => rfl
  | succ n ih =>
    rw [Function.iterate_succ_apply', unlocked]
    split
    · exact ih
    · exact ih

theorem Store.Completion.executionOf {t output : String} {r : TaskStateRecord}
    {ready : List String} (hc : Completion now t output r s s' ready)
    (hr : s.taskState[t]? = some r) (u : String) : s'.executionOf u = s.executionOf u := by
  unfold Store.executionOf
  by_cases hut : u = t
  · rw [hut, hc.task, hr]
    rfl
  · rw [hc.other u hut, Option.map_map]
    exact congrArg (Option.map · _) (funext (iterate_unlocked_executionID now _))

theorem Store.Skips.executionOf {P : String → Prop} (hskips : Skips P s s') (u : String) :
    s'.executionOf u = s.executionOf u := by
  unfold Store.executionOf
  cases hr : s.taskState[u]? with
  | none => rw [hskips.absent u hr]
  | some r =>
    by_cases hc : P u ∧ r.state.terminal = false
    · obtain ⟨stamp, hhit⟩ := hskips.hit u r hr hc.1 hc.2
      rw [hhit]
      rfl
    · rw [hskips.miss u r hr hc]

/-- Only the two kinds of requeueing give a task another execution. -/
theorem Writes.executionOf (h : Writes now s p p' s') (t : String) :
    s'.executionOf t = s.executionOf t ∨ (∃ e newID, p = .failRequeue t e newID) ∨
      ∃ k newID rest, p = .deadRequeue k t newID rest := by
  cases h with
  | complete hr _ _ hc => exact .inl (hc.executionOf hr t)
  | fail hr =>
    refine .inl (executionOf_setTask_same hr ?_ t)
    rfl
  | skip hr _ =>
    refine .inl (executionOf_setTask_same hr ?_ t)
    rfl
  | stop hskips => exact .inl (hskips.executionOf t)
  | cancel hskips _ => exact .inl (hskips.executionOf t)
  | @retry u e newID r hr =>
    by_cases hut : u = t
    · exact .inr (.inl ⟨e, newID, by rw [hut]⟩)
    · exact .inl (by rw [executionOf_setTask, if_neg hut])
  | @requeue k u newID rest r hr =>
    by_cases hut : u = t
    · exact .inr (.inr ⟨k, newID, rest, by rw [hut]⟩)
    · exact .inl (by rw [executionOf_setTask, if_neg hut])
  | _ => exact .inl rfl

/-- No transaction makes a task wait again. -/
theorem Writes.pending (h : Writes now s p p' s') {t : String}
    (ht : s'.stateOf t = some .pending) : s.stateOf t = some .pending := by
  have hset : ∀ {u : String} {r' : TaskStateRecord}, r'.state ≠ .pending →
      (s.setTask u r').stateOf t = some .pending → s.stateOf t = some .pending := by
    intro u r' hst hp
    rw [stateOf, get_setTask] at hp
    split at hp
    · injection hp with hp
      exact absurd hp hst
    · exact hp
  have hskip : ∀ {P : String → Prop}, Skips P s s' → s.stateOf t = some .pending := by
    intro P hskips
    cases hr : s.taskState[t]? with
    | none =>
      rw [stateOf, hskips.absent t hr] at ht
      cases ht
    | some r =>
      by_cases hc : P t ∧ r.state.terminal = false
      · obtain ⟨stamp, hhit⟩ := hskips.hit t r hr hc.1 hc.2
        rw [stateOf_of_get hhit] at ht
        cases ht
      · rw [stateOf_of_get (hskips.miss t r hr hc)] at ht
        rw [stateOf_of_get hr]
        exact ht
  cases h with
  | @complete u e output r _ ready hr _ _ hc =>
    by_cases hut : t = u
    · rw [hut, stateOf_of_get hc.task] at ht
      cases ht
    · rcases hc.stateOf_other hut with heq | hrel
      · exact heq.symm.trans ht
      · exact hrel.1
  | retry _ => exact hset (by simp) ht
  | fail _ => exact hset (by simp) ht
  | skip _ _ => exact hset (by simp) ht
  | requeue _ => exact hset (by simp) ht
  | stop hskips => exact hskip hskips
  | cancel hskips _ => exact hskip hskips
  | _ => exact ht

/-- The sections that delete the entry of a task. -/
theorem Locks.assigned (h : Locks c p p' c') (t : String) :
    c'.assignedTasks[t]? = c.assignedTasks[t]? ∨
      c'.assignedTasks[t]? = none ∧ ((∃ ready, p = .completePublish t ready) ∨
        (∃ e, p = .failPublish t e) ∨ (∃ e, p = .failForget t e) ∨
        ∃ order k, p = .deadClaim order k ∧ c.runningTasks[t]? = some k) := by
  have herase : ∀ {u : String}, u ≠ t → (c.assignedTasks.erase u)[t]? = c.assignedTasks[t]? :=
    fun hut => by rw [Table.get_erase, if_neg hut]
  have hself : (c.assignedTasks.erase t)[t]? = none := by rw [Table.get_erase, if_pos rfl]
  cases h with
  | @complete u ready =>
    by_cases hut : u = t
    · subst hut
      exact .inr ⟨hself, .inl ⟨ready, rfl⟩⟩
    · exact .inl (herase hut)
  | @retry u e =>
    by_cases hut : u = t
    · subst hut
      exact .inr ⟨hself, .inr (.inl ⟨e, rfl⟩)⟩
    · exact .inl (herase hut)
  | @fail u e =>
    by_cases hut : u = t
    · subst hut
      exact .inr ⟨hself, .inr (.inr (.inl ⟨e, rfl⟩))⟩
    · exact .inl (herase hut)
  | @claim order k =>
    have hget : (c.claimTasks order k).2.assignedTasks[t]?
        = if t ∈ (c.claimTasks order k).1 then none else c.assignedTasks[t]? :=
      Coordinator.get_foldl_forget_assigned _ _ _
    by_cases hin : t ∈ (c.claimTasks order k).1
    · rw [if_pos hin] at hget
      exact .inr ⟨hget, .inr (.inr (.inr ⟨order, k, rfl, (count_claimTasks c order k t).2.mp hin⟩))⟩
    · rw [if_neg hin] at hget
      exact .inl hget
  | _ => exact .inl rfl

/-- The two maps keep the same keys. -/
theorem Locks.keys (h : Locks c p p' c') (hkeys : ∀ t, t ∈ c.runningTasks ↔ t ∈ c.assignedTasks)
    (t : String) : t ∈ c'.runningTasks ↔ t ∈ c'.assignedTasks := by
  have hforget : ∀ u, t ∈ (c.forget u).runningTasks ↔ t ∈ (c.forget u).assignedTasks := by
    intro u
    show t ∈ c.runningTasks.erase u ↔ t ∈ c.assignedTasks.erase u
    rw [Std.ExtTreeMap.mem_erase, Std.ExtTreeMap.mem_erase, hkeys]
  cases h with
  | complete => exact hforget _
  | retry => exact hforget _
  | fail => exact hforget _
  | @claim order k =>
    rw [Table.mem_iff_get, Table.mem_iff_get, Coordinator.claimTasks,
      Coordinator.get_foldl_forget_running, Coordinator.get_foldl_forget_assigned]
    split
    · simp
    · rw [← Table.mem_iff_get, ← Table.mem_iff_get]
      exact hkeys t
  | _ => exact hkeys t

variable {env : Env} {w w' : World}

theorem Moves.keys (h : Moves env w p p' w')
    (hkeys : ∀ t, t ∈ w.coord.runningTasks ↔ t ∈ w.coord.assignedTasks) (t : String) :
    t ∈ w'.coord.runningTasks ↔ t ∈ w'.coord.assignedTasks := by
  cases h with
  | locks hl => exact hl.keys hkeys t
  | ready hready =>
    cases hready with
    | assigned _ _ _ =>
      show t ∈ w.coord.runningTasks.insert _ _ ↔ t ∈ w.coord.assignedTasks.insert _ _
      rw [Std.ExtTreeMap.mem_insert, Std.ExtTreeMap.mem_insert, hkeys]
    | _ => exact hkeys t
  | _ => exact hkeys t

theorem Moves.pending (h : Moves env w p p' w') {t : String}
    (ht : w'.store.stateOf t = some .pending) : w.store.stateOf t = some .pending := by
  cases h with
  | writes hw => exact hw.pending ht
  | ready hready =>
    cases hready with
    | assigned _ _ _ =>
      rw [stateOf, get_setTask] at ht
      split at ht
      · cases ht
      · exact ht
    | _ => exact ht
  | _ => exact ht

/-- At this point a report is refused, or has been. -/
def Point.Refused (c : Coordinator) : Point → Prop
  | .completeCheck t e _ | .failCheck t e _ => c.assignedTasks[t]? ≠ some e
  | .completeLookup _ _ => True
  | _ => False

/-- The step of a call that does not report on the task, or is refused, and that
does not carry it and does not claim it leaves its execution and its entry
alone. -/
theorem Moves.frame (h : Moves env w p p' w') {l : Call} (hof : p.Of l) {t : String}
    (hreports : ∀ e, l.reports t e = true → p.Refused w.coord) (hqueue : t ∉ w.coord.readyQueue)
    (hcarried : t ∉ p.carried)
    (hclaim : ∀ order k, p = .deadClaim order k → w.coord.runningTasks[t]? ≠ some k) :
    w'.store.executionOf t = w.store.executionOf t ∧
      w'.coord.assignedTasks[t]? = w.coord.assignedTasks[t]? := by
  cases h with
  | reads _ => exact ⟨rfl, rfl⟩
  | draws _ => exact ⟨rfl, rfl⟩
  | writes hw =>
    refine ⟨?_, rfl⟩
    rcases hw.executionOf t with heq | ⟨e, newID, rfl⟩ | ⟨k, newID, rest, rfl⟩
    · exact heq
    · obtain ⟨errMsg, rfl⟩ := hof
      exact (hreports e (by simp [Call.reports])).elim
    · exact absurd List.mem_cons_self hcarried
  | locks hl =>
    refine ⟨rfl, ?_⟩
    rcases hl.assigned t with heq | ⟨_, hpoint⟩
    · exact heq
    · rcases hpoint with ⟨ready, rfl⟩ | ⟨e, rfl⟩ | ⟨e, rfl⟩ | ⟨order, k, hp, hrun⟩
      · obtain ⟨e, output, rfl⟩ := hof
        exact (hreports e (by simp [Call.reports])).elim
      · obtain ⟨errMsg, rfl⟩ := hof
        exact (hreports e (by simp [Call.reports])).elim
      · obtain ⟨errMsg, rfl⟩ := hof
        exact (hreports e (by simp [Call.reports])).elim
      · exact absurd hrun (hclaim order k hp)
  | ready hready =>
    cases hready with
    | @assigned u rest _ r hq _ _ =>
      have hut : u ≠ t := by
        rintro rfl
        exact hqueue (hq ▸ List.mem_cons_self)
      exact ⟨by rw [executionOf_setTask, if_neg hut], Table.get_insert_ne _ _ hut⟩
    | _ => exact ⟨rfl, rfl⟩

end Steps

/-! ## One step keeps the invariant -/

section Guard

variable {env : Env} {w w' : World} {ps : List (Call × Point)}
  {ev : Event Call Action World} {p p' : Point}

/-- A report that has begun and not ended. -/
def Reporting (ps : List (Call × Point)) (i : Nat) (t e : String) : Prop :=
  ∃ errMsg p, ps[i]? = some (.failTask t e errMsg, p) ∧ p.stage ≠ .idle

/-- The step leaves the tasks alone that other calls report on. -/
def Considerate (ps : List (Call × Point)) (w : World) (ev : Event Call Action World)
    (p : Point) : Prop :=
  ∀ i t e, i ≠ ev.thread → Reporting ps i t e →
    (∀ e', ev.label.reports t e' = true → p.Refused w.coord) ∧
      ∀ order k, p = .deadClaim order k → w.coord.runningTasks[t]? ≠ some k

theorem Guarded.held (h : Guarded w.store w.coord ps) (hof : ∀ q ∈ ps, q.2.Of q.1)
    (hstep : StepOf env ps w ev p p' w') :
    ∀ t e, p = .failPublish t e → t ∈ w.coord.assignedTasks := by
  rintro t e rfl
  have hq := List.mem_of_getElem? hstep.point
  obtain ⟨errMsg, hl⟩ := hof _ hq
  have hwindow : w.coord.assignedTasks[t]? = some e := h.window _ hq t e errMsg hl
  exact (Table.mem_iff_get _ _).mpr ⟨e, hwindow⟩

/-- The tokens after a step. -/
theorem Guarded.tokens_step (h : Guarded w.store w.coord ps) (hof : ∀ q ∈ ps, q.2.Of q.1)
    (hstep : StepOf env ps w ev p p' w') (t : String) :
    tokens w'.coord (ps.set ev.thread (ev.label, p')) t ≤ tokens w.coord ps t ∨
      Released w.store w'.store t ∧
        tokens w'.coord (ps.set ev.thread (ev.label, p')) t ≤ tokens w.coord ps t + 1 := by
  have hset := tokens_set hstep.point w.coord w'.coord ev.label p' t
  rcases hstep.moves.ownTokens_le (fun t => (h.keys t).mp) (h.held hof hstep) t
    with hle | ⟨hrel, hle⟩
  · exact .inl (by omega)
  · exact .inr ⟨hrel, by omega⟩

theorem Guarded.once_step (h : Guarded w.store w.coord ps) (hof : ∀ q ∈ ps, q.2.Of q.1)
    (hstep : StepOf env ps w ev p p' w') (t : String) :
    tokens w'.coord (ps.set ev.thread (ev.label, p')) t ≤ 1 := by
  rcases h.tokens_step hof hstep t with hle | ⟨hrel, hle⟩
  · exact hle.trans (h.once t)
  · rw [h.pending t hrel.1] at hle
    exact hle

theorem Guarded.pending_step (h : Guarded w.store w.coord ps) (hof : ∀ q ∈ ps, q.2.Of q.1)
    (hstep : StepOf env ps w ev p p' w') {t : String}
    (ht : w'.store.stateOf t = some .pending) :
    tokens w'.coord (ps.set ev.thread (ev.label, p')) t = 0 := by
  rcases h.tokens_step hof hstep t with hle | ⟨hrel, _⟩
  · rw [h.pending t (hstep.moves.pending ht)] at hle
    exact Nat.le_zero.mp hle
  · rw [hrel.2] at ht
    cases ht

/-- A task with an entry is not in the queue, and no call carries it. -/
theorem Guarded.only_assigned (h : Guarded w.store w.coord ps) {i : Nat} {l : Call}
    (hp : ps[i]? = some (l, p)) {t e : String} (ht : w.coord.assignedTasks[t]? = some e) :
    t ∉ w.coord.readyQueue ∧ t ∉ p.carried := by
  have hle := (ownTokens_le_tokens hp t).trans (h.once t)
  rw [ownTokens, entries_of_mem ((Table.mem_iff_get _ _).mpr ⟨e, ht⟩)] at hle
  constructor
  · exact List.count_eq_zero.mp (by omega)
  · exact List.count_eq_zero.mp (by omega)

/-- A task without tokens is not in the queue, and no call carries it. -/
theorem not_mem_of_no_tokens {c : Coordinator} {i : Nat} {l : Call} (hp : ps[i]? = some (l, p))
    {t : String} (ht : tokens c ps t = 0) :
    t ∉ c.readyQueue ∧ t ∉ p.carried ∧ t ∉ c.assignedTasks := by
  have hle := ownTokens_le_tokens (c := c) hp t
  rw [ownTokens, ht] at hle
  refine ⟨List.count_eq_zero.mp (by omega), List.count_eq_zero.mp (by omega), ?_⟩
  intro hin
  rw [entries_of_mem hin] at hle
  omega

/-- The entry of a task was its only token. -/
theorem Guarded.tokens_forget (h : Guarded w.store w.coord ps) {i : Nat} {l : Call}
    (hp : ps[i]? = some (l, p)) (hcarried : p.carried = []) {t e : String}
    (ht : w.coord.assignedTasks[t]? = some e) (l' : Call) {q : Point} (hq : q.carried = []) :
    tokens (w.coord.forget t) (ps.set i (l', q)) t = 0 := by
  have hset := tokens_set hp w.coord (w.coord.forget t) l' q t
  have hle := ownTokens_le_tokens (c := w.coord) hp t
  have honce := h.once t
  have hbefore : ownTokens w.coord p t = w.coord.readyQueue.count t + 1 := by
    rw [ownTokens, entries_of_mem ((Table.mem_iff_get _ _).mpr ⟨e, ht⟩), hcarried]
    rfl
  have hafter : ownTokens (w.coord.forget t) q t = w.coord.readyQueue.count t := by
    rw [ownTokens, hq]
    exact congrArg (w.coord.readyQueue.count t + ·) (entries_erase_self _ t)
  omega

/-- A thread that is not the one that moves stays in the list. -/
theorem mem_set_of_ne {q : Call × Point} (hq : q ∈ ps)
    (hpoint : ps[ev.thread]? = some (ev.label, p)) (hne : q.2 ≠ p) (x : Call × Point) :
    q ∈ ps.set ev.thread x := by
  obtain ⟨j, hj⟩ := List.mem_iff_getElem?.mp hq
  refine List.mem_of_getElem? (i := j) ?_
  rw [List.getElem?_set_ne, hj]
  rintro rfl
  rw [hpoint] at hj
  cases hj
  exact hne rfl

theorem Guarded.current_step (h : Guarded w.store w.coord ps)
    (hstep : StepOf env ps w ev p p' w') {t e : String}
    (ht : w'.coord.assignedTasks[t]? = some e) :
    w'.store.executionOf t = some e ∨
      ∃ q ∈ ps.set ev.thread (ev.label, p'), ∃ e', q.2 = .failPublish t e' := by
  -- An old entry under an old execution, unless the moving call was publishing.
  have hold : w.coord.assignedTasks[t]? = some e →
      w'.store.executionOf t = w.store.executionOf t → (∀ e', p ≠ .failPublish t e') →
      w'.store.executionOf t = some e ∨
        ∃ q ∈ ps.set ev.thread (ev.label, p'), ∃ e', q.2 = .failPublish t e' := by
    intro hassigned hexec hpoint
    rcases h.current t e hassigned with hcur | ⟨q, hq, e', hq'⟩
    · exact .inl (hexec.trans hcur)
    · exact .inr ⟨q, mem_set_of_ne hq hstep.point (fun heq => hpoint e' (heq ▸ hq')) _, e', hq'⟩
  cases hstep.moves with
  | reads hr =>
    refine hold ht rfl ?_
    rintro e' rfl
    cases hr
  | draws hd =>
    refine hold ht rfl ?_
    rintro e' rfl
    cases hd
  | writes hw =>
    rcases hw.executionOf t with heq | ⟨e₁, newID, rfl⟩ | ⟨k, newID, rest, rfl⟩
    · refine hold ht heq ?_
      rintro e' rfl
      cases hw
    · cases hw with
      | retry _ =>
        refine .inr ⟨_, List.mem_set (List.getElem?_eq_some_iff.mp hstep.point).1 _, e₁, rfl⟩
      | retryAbsent _ => exact hold ht rfl (by simp)
    · -- The task is carried, so it has no entry.
      exact absurd List.mem_cons_self (h.only_assigned hstep.point ht).2
  | locks hl =>
    rcases hl.assigned t with heq | ⟨hnone, _⟩
    · refine hold (heq ▸ ht) rfl ?_
      rintro e' rfl
      cases hl
      have hself : (w.coord.assignedTasks.erase t)[t]? = none := by
        rw [Table.get_erase, if_pos rfl]
      have htrue : (w.coord.assignedTasks.erase t)[t]? = some e := ht
      rw [hself] at htrue
      cases htrue
    · have htrue : _ = some e := ht
      rw [hnone] at htrue
      cases htrue
  | ready hready =>
    cases hready with
    | @assigned u rest spec r hq _ hr =>
      by_cases hut : u = t
      · subst hut
        have hget : (w.coord.assignedTasks.insert u (env.uuid w.uuids))[u]? = some e := ht
        rw [Table.get_insert, if_pos rfl] at hget
        refine .inl ?_
        rw [executionOf_setTask, if_pos rfl]
        exact hget
      · have hget : (w.coord.assignedTasks.insert u (env.uuid w.uuids))[t]? = some e := ht
        rw [Table.get_insert_ne _ _ hut] at hget
        exact hold hget (by rw [executionOf_setTask, if_neg hut]) (by simp)
    | _ => exact hold ht rfl (by simp)

/-- A task without tokens that does not wait gets none. -/
theorem Guarded.no_tokens_step (h : Guarded w.store w.coord ps) (hof : ∀ q ∈ ps, q.2.Of q.1)
    (hstep : StepOf env ps w ev p p' w') {t : String} (hnone : tokens w.coord ps t = 0)
    (hpending : w.store.stateOf t ≠ some .pending) :
    tokens w'.coord (ps.set ev.thread (ev.label, p')) t = 0 := by
  rcases h.tokens_step hof hstep t with hle | ⟨hrel, _⟩
  · rw [hnone] at hle
    exact Nat.le_zero.mp hle
  · exact absurd hrel.1 hpending

/-- The step of a considerate call leaves the other reports what they need. -/
theorem Guarded.window_other (h : Guarded w.store w.coord ps) (hof : ∀ q ∈ ps, q.2.Of q.1)
    (hstep : StepOf env ps w ev p p' w') (hcons : Considerate ps w ev p) {j : Nat}
    {t e errMsg : String} {q : Point} (hj : j ≠ ev.thread)
    (hq : ps[j]? = some (.failTask t e errMsg, q)) :
    Window w'.store w'.coord (tokens w'.coord (ps.set ev.thread (ev.label, p')) t) t e
      q.stage := by
  by_cases hidle : q.stage = .idle
  · rw [hidle]
    trivial
  obtain ⟨hreports, hclaim⟩ := hcons j t e hj ⟨errMsg, q, hq, hidle⟩
  have hwindow := h.window _ (List.mem_of_getElem? hq) t e errMsg rfl
  have hown := hof _ (List.mem_of_getElem? hstep.point)
  have hpending : w.store.stateOf t ≠ some .pending → w'.store.stateOf t ≠ some .pending :=
    fun hne hp => hne (hstep.moves.pending hp)
  -- The step does not touch a task with an entry, nor one without tokens.
  have hentry : w.coord.assignedTasks[t]? = some e →
      w'.store.executionOf t = w.store.executionOf t ∧
        w'.coord.assignedTasks[t]? = w.coord.assignedTasks[t]? := by
    intro ha
    obtain ⟨hqueue, hcarried⟩ := h.only_assigned hstep.point ha
    exact hstep.moves.frame hown hreports hqueue hcarried hclaim
  dsimp only at hwindow
  cases hstage : q.stage with
  | idle => trivial
  | holding =>
    rw [hstage] at hwindow
    obtain ⟨hexec, hassigned⟩ := hentry hwindow.1
    exact ⟨hassigned.trans hwindow.1, hexec.trans hwindow.2⟩
  | requeued =>
    rw [hstage] at hwindow
    exact (hentry hwindow).2.trans hwindow
  | failed =>
    rw [hstage] at hwindow
    obtain ⟨hexec, hassigned⟩ := hentry hwindow.1
    exact ⟨hassigned.trans hwindow.1, hexec.trans hwindow.2.1, hpending hwindow.2.2⟩
  | policy =>
    rw [hstage] at hwindow
    obtain ⟨hcur, hnone, hne⟩ := hwindow
    obtain ⟨hqueue, hcarried, _⟩ := not_mem_of_no_tokens hstep.point hnone
    have hexec := (hstep.moves.frame hown hreports hqueue hcarried hclaim).1
    exact ⟨hexec.trans hcur, h.no_tokens_step hof hstep hnone hne, hpending hne⟩

theorem Point.Skipping.stage {id : String} {p : Point} (h : p.Skipping id) :
    p.stage = .policy ∨ p.stage = .idle := by
  cases h with
  | stuck => exact .inr rfl
  | _ => exact .inl rfl

theorem Point.stage_deadNext (k : String) (l : List String) :
    (Point.deadNext k l).stage = .idle := by
  cases l <;> rfl

theorem Point.stage_policy (id t : String) (policy : FailurePolicy) :
    (Point.policy id t policy).stage = .policy ∨ (Point.policy id t policy).stage = .idle := by
  cases policy with
  | unrecognized _ _ => exact .inr rfl
  | _ => exact .inl rfl

/-- In the policy of a failed task the report only has to keep its execution. -/
theorem Guarded.window_policy (h : Guarded w.store w.coord ps) (hof : ∀ q ∈ ps, q.2.Of q.1)
    (hstep : StepOf env ps w ev p p' w') {t e errMsg : String}
    (hl : ev.label = .failTask t e errMsg) (hp : p.stage = .policy)
    (hexec : w'.store.executionOf t = w.store.executionOf t)
    (hp' : p'.stage = .policy ∨ p'.stage = .idle) :
    Window w'.store w'.coord (tokens w'.coord (ps.set ev.thread (ev.label, p')) t) t e
      p'.stage := by
  rcases hp' with hp' | hp'
  · have hwindow := h.window _ (List.mem_of_getElem? hstep.point) t e errMsg hl
    dsimp only at hwindow
    rw [hp] at hwindow
    obtain ⟨hcur, hnone, hne⟩ := hwindow
    rw [hp']
    exact ⟨hexec.trans hcur, h.no_tokens_step hof hstep hnone hne,
      fun hpend => hne (hstep.moves.pending hpend)⟩
  · rw [hp']
    trivial

/-- A report that passes its check holds the current execution.  Nobody else is
about to publish the task, since this call reports on it. -/
theorem Guarded.current_of_check (h : Guarded w.store w.coord ps) (hof : ∀ q ∈ ps, q.2.Of q.1)
    {t e errMsg : String} (hpoint : ps[ev.thread]? = some (ev.label, .failCheck t e errMsg))
    (hcons : Considerate ps w ev (.failCheck t e errMsg)) (hl : ev.label = .failTask t e errMsg)
    (ha : w.coord.assignedTasks[t]? = some e) : w.store.executionOf t = some e := by
  rcases h.current t e ha with hcur | ⟨q, hin, e', hpub⟩
  · exact hcur
  · obtain ⟨j, hj⟩ := List.mem_iff_getElem?.mp hin
    obtain ⟨errMsg', hlabel⟩ : ∃ m, q.1 = .failTask t e' m := by
      have hq := hof q hin
      rw [hpub] at hq
      exact hq
    have hne : j ≠ ev.thread := by
      rintro rfl
      rw [hpoint] at hj
      cases hj
      cases hpub
    have hreporting : Reporting ps j t e' := by
      refine ⟨errMsg', q.2, ?_, by simp [hpub, Point.stage]⟩
      rw [hj, ← hlabel]
    exact absurd ha ((hcons j t e' hne hreporting).1 e (by simp [hl, Call.reports]))

section Self

variable (h : Guarded w.store w.coord ps) (hof : ∀ q ∈ ps, q.2.Of q.1) {t e errMsg : String}
  (hl : ev.label = .failTask t e errMsg)
include h hof hl

/-- A report keeps what it needs when it reads. -/
theorem Guarded.window_reads (hstep : StepOf env ps w ev p p' w) (hcons : Considerate ps w ev p)
    (hr : Reads w.store w.coord p p') :
    Window w.store w.coord (tokens w.coord (ps.set ev.thread (ev.label, p')) t) t e p'.stage := by
  have hq := List.mem_of_getElem? hstep.point
  have hown := hof _ hq
  have hwindow := h.window _ hq t e errMsg hl
  dsimp only at hown hwindow
  rw [hl] at hown
  cases hr with
  | failOurs ha =>
    cases hown
    exact ⟨ha, h.current_of_check hof hstep.point hcons hl ha⟩
  | failRead _ => exact hwindow
  | failRetry _ => exact hwindow
  | failLast _ => exact hwindow
  | checkDone _ => exact h.window_policy hof hstep hl rfl rfl (.inl rfl)
  | checkStatuses => exact h.window_policy hof hstep hl rfl rfl (.inl rfl)
  | skipStart hskip => exact h.window_policy hof hstep hl rfl rfl hskip.stage
  | skipRead hskip => exact h.window_policy hof hstep hl rfl rfl hskip.stage
  | completeOwner _ _ =>
    obtain ⟨_, _, hno⟩ := hown
    cases hno
  | _ => trivial

/-- It keeps it in its transactions. -/
theorem Guarded.window_writes {s' : Store} (hstep : StepOf env ps w ev p p' (w.wrote s'))
    (hw : Writes (env.now w.ticks) w.store p p' s') :
    Window s' w.coord (tokens w.coord (ps.set ev.thread (ev.label, p')) t) t e p'.stage := by
  have hq := List.mem_of_getElem? hstep.point
  have hown := hof _ hq
  have hwindow := h.window _ hq t e errMsg hl
  dsimp only at hown hwindow
  rw [hl] at hown
  cases hw with
  | retry _ => exact hwindow.1
  | fail hr =>
    cases hown
    refine ⟨hwindow.1, (executionOf_setTask_same hr ?_ t).trans hwindow.2, ?_⟩
    · rfl
    · rw [stateOf, get_setTask, if_pos rfl]
      simp
  | stop hskips =>
    exact h.window_policy hof hstep hl rfl (hskips.executionOf t) (.inl rfl)
  | skip hr hskip =>
    refine h.window_policy hof hstep hl rfl (executionOf_setTask_same hr ?_ t) hskip.stage
    rfl
  | skipAbsent _ hskip => exact h.window_policy hof hstep hl rfl rfl hskip.stage
  | requeueAbsent _ =>
    rw [Point.stage_deadNext]
    trivial
  | _ => trivial

/-- It keeps it in its sections under the mutex. -/
theorem Guarded.window_locks {c' : Coordinator}
    (hstep : StepOf env ps w ev p p' { w with coord := c' }) (hlock : Locks w.coord p p' c') :
    Window w.store c' (tokens c' (ps.set ev.thread (ev.label, p')) t) t e p'.stage := by
  have hq := List.mem_of_getElem? hstep.point
  have hown := hof _ hq
  have hwindow := h.window _ hq t e errMsg hl
  dsimp only at hown hwindow
  rw [hl] at hown
  cases hlock with
  | fail =>
    obtain ⟨_, heq⟩ := hown
    cases heq
    have hcase : ∀ q : Point, q.carried = [] → q.stage = .policy ∨ q.stage = .idle →
        Window w.store (w.coord.forget t)
          (tokens (w.coord.forget t) (ps.set ev.thread (ev.label, q)) t) t e q.stage := by
      intro q hcarried hstage
      have hnone := h.tokens_forget hstep.point rfl hwindow.1 ev.label hcarried
      rcases hstage with hstage | hstage
      · rw [hstage]
        exact ⟨hwindow.2.1, hnone, hwindow.2.2⟩
      · rw [hstage]
        trivial
    split
    · exact hcase _ (Point.carried_policy _ _ _) (Point.stage_policy _ _ _)
    · exact hcase _ rfl (.inr rfl)
  | stop => exact h.window_policy hof hstep hl rfl rfl (.inl rfl)
  | skip => exact h.window_policy hof hstep hl rfl rfl (.inl rfl)
  | claim =>
    rw [Point.stage_deadNext]
    trivial
  | requeue =>
    rw [Point.stage_deadNext]
    trivial
  | _ => trivial

/-- A report keeps what it needs by its own steps. -/
theorem Guarded.window_self (hstep : StepOf env ps w ev p p' w') (hcons : Considerate ps w ev p) :
    Window w'.store w'.coord (tokens w'.coord (ps.set ev.thread (ev.label, p')) t) t e
      p'.stage := by
  cases hstep.moves with
  | reads hr => exact h.window_reads hof hl hstep hcons hr
  | draws hd =>
    cases hd with
    | fail => exact h.window _ (List.mem_of_getElem? hstep.point) t e errMsg hl
    | dead => trivial
  | writes hw => exact h.window_writes hof hl hstep hw
  | locks hlock => exact h.window_locks hof hl hstep hlock
  | ready _ => trivial

end Self

theorem Guarded.step (h : Guarded w.store w.coord ps) (hof : ∀ q ∈ ps, q.2.Of q.1)
    (hstep : StepOf env ps w ev p p' w') (hcons : Considerate ps w ev p) :
    Guarded w'.store w'.coord (ps.set ev.thread (ev.label, p')) := by
  refine ⟨hstep.moves.keys h.keys, h.once_step hof hstep,
    fun t ht => h.pending_step hof hstep ht, fun t e ht => h.current_step hstep ht, ?_⟩
  intro q hq t e errMsg hl
  obtain ⟨j, hj⟩ := List.mem_iff_getElem?.mp hq
  by_cases hji : j = ev.thread
  · rw [hji, List.getElem?_set_self (List.getElem?_eq_some_iff.mp hstep.point).1] at hj
    cases hj
    exact h.window_self hof hl hstep hcons
  · rw [List.getElem?_set_ne (Ne.symm hji)] at hj
    obtain ⟨l, q⟩ := q
    cases hl
    exact h.window_other hof hstep hcons hji hj

/-- A report writes the record of its task only while it holds it, and in the
policy of the failed task. -/
theorem StepOf.stage_of_record (hstep : StepOf env ps w ev p p' w') (hof : p.Of ev.label)
    {t e errMsg : String} (hl : ev.label = .failTask t e errMsg)
    (hchanged : w'.store.taskState[t]? ≠ w.store.taskState[t]?) :
    p.stage = .holding ∨ p.stage = .policy := by
  rw [hl] at hof
  cases hstep.moves with
  | reads _ => exact absurd rfl hchanged
  | draws _ => exact absurd rfl hchanged
  | locks _ => exact absurd rfl hchanged
  | ready _ => cases hof
  | writes hw =>
    cases hw with
    | retry _ => exact .inl rfl
    | fail _ => exact .inl rfl
    | stop _ => exact .inr rfl
    | skip _ _ => exact .inr rfl
    | complete _ _ _ _ => cases hof
    | requeue _ =>
      obtain ⟨_, hno⟩ := hof
      cases hno
    | cancel _ _ => cases hof
    | _ => exact absurd rfl hchanged

theorem not_withdraws_self (c : Coordinator) (t : String) : ¬ Withdraws c c t := by
  intro h
  rcases h with h | h | h
  · exact h.2 h.1
  · exact h.2 h.1
  · exact Nat.lt_irrefl _ h

theorem not_withdraws_drop (c : Coordinator) (l : List String) (t : String) :
    ¬ Withdraws c (c.dropFromQueue l) t := by
  intro h
  rcases h with h | h | h
  · exact h.2 h.1
  · exact h.2 h.1
  · exact absurd (List.filter_sublist.count_le t) (Nat.not_le.mpr h)

/-- A report touches the memory of its task only right after its transaction. -/
theorem StepOf.stage_of_memory (hstep : StepOf env ps w ev p p' w') (hof : p.Of ev.label)
    {t e errMsg : String} (hl : ev.label = .failTask t e errMsg)
    (hwithdraws : Withdraws w.coord w'.coord t) :
    p.stage = .requeued ∨ p.stage = .failed := by
  rw [hl] at hof
  cases hstep.moves with
  | reads _ => exact absurd hwithdraws (not_withdraws_self _ _)
  | draws _ => exact absurd hwithdraws (not_withdraws_self _ _)
  | writes _ => exact absurd hwithdraws (not_withdraws_self _ _)
  | ready _ => cases hof
  | locks hlock =>
    cases hlock with
    | retry => exact .inl rfl
    | fail => exact .inr rfl
    | stop => exact absurd hwithdraws (not_withdraws_drop _ _ _)
    | skip => exact absurd hwithdraws (not_withdraws_drop _ _ _)
    | complete =>
      obtain ⟨_, _, hno⟩ := hof
      cases hno
    | claim => cases hof
    | requeue =>
      obtain ⟨_, hno⟩ := hof
      cases hno
    | remove =>
      obtain ⟨_, hno⟩ := hof
      cases hno
    | cancel => cases hof

end Guard

/-! ## Runs -/

section Runs

variable {env : Env} {w₀ w w' : World} {es : List (Event Call Action World)}
  {ps : List (Call × Point)} {ts : List (Thread Call Action Reply)}
  {ev : Event Call Action World} {p p' : Point}

/-- Between two operations every task has at most one token. -/
theorem Inv.guarded {P : WorkflowSpec → Prop} (h : Inv P w) : Guarded w.store w.coord [] := by
  have hassigned : ∀ t, t ∈ w.coord.assignedTasks →
      w.store.stateOf t = some .running ∨ w.store.stateOf t = some .skipped := by
    intro t ht
    obtain ⟨e, he⟩ := (Table.mem_iff_get _ _).mp ht
    obtain ⟨r, hr, _, hst, _⟩ := h.agree.assigned t e he
    rcases hst with hst | hst
    · exact .inl (by rw [stateOf_of_get hr, hst])
    · exact .inr (by rw [stateOf_of_get hr, hst])
  have htokens : ∀ t, tokens w.coord [] t
      = w.coord.readyQueue.count t + entries w.coord.assignedTasks t := fun t => rfl
  refine ⟨h.agree.keys, ?_, ?_, ?_, by simp⟩
  · intro t
    rw [htokens]
    have hcount := List.nodup_iff_count_le_one.mp h.agree.nodup t
    by_cases hin : t ∈ w.coord.assignedTasks
    · -- A queued task is not assigned.
      have hout : t ∉ w.coord.readyQueue := by
        intro hq
        have hst := h.agree.queued t hq
        rcases hassigned t hin with ha | ha <;> rw [ha] at hst <;> cases hst
      rw [List.count_eq_zero_of_not_mem hout, entries_of_mem hin]
    · rw [entries_of_not_mem hin]
      exact hcount
  · intro t ht
    rw [htokens]
    have hout : t ∉ w.coord.readyQueue := by
      intro hq
      rw [h.agree.queued t hq] at ht
      cases ht
    have hfree : t ∉ w.coord.assignedTasks := by
      intro hin
      rcases hassigned t hin with ha | ha <;> rw [ha] at ht <;> cases ht
    rw [List.count_eq_zero_of_not_mem hout, entries_of_not_mem hfree]
  · intro t e ht
    obtain ⟨r, hr, he, _⟩ := h.agree.assigned t e ht
    exact .inl (by rw [executionOf, hr, ← he]; rfl)

/-- A call that is started carries nothing. -/
theorem Guarded.spawn (h : Guarded w.store w.coord ps) (c : Call) :
    Guarded w.store w.coord (ps ++ [(c, coordinator.init c)]) := by
  have htokens : ∀ t, tokens w.coord (ps ++ [(c, coordinator.init c)]) t
      = tokens w.coord ps t := by
    intro t
    have hzero : (coordinator.init c).carried.count t = 0 := by
      cases c <;> rfl
    rw [tokens, List.map_append, List.sum_append, List.map_singleton, List.sum_singleton, hzero]
    rfl
  refine ⟨h.keys, ?_, ?_, ?_, ?_⟩
  · intro t
    rw [htokens]
    exact h.once t
  · intro t ht
    rw [htokens]
    exact h.pending t ht
  · intro t e ht
    rcases h.current t e ht with hcur | ⟨q, hq, hpub⟩
    · exact .inl hcur
    · exact .inr ⟨q, List.mem_append_left _ hq, hpub⟩
  · intro q hq t e errMsg hl
    rw [htokens]
    rcases List.mem_append.mp hq with hq | hq
    · exact h.window q hq t e errMsg hl
    · rw [List.mem_singleton.mp hq] at hl ⊢
      cases hl
      trivial

/-- The check of a report is still to come, or has refused it. -/
def Point.unchecked : Point → Bool
  | .completeCheck _ _ _ | .failCheck _ _ _ | .completeLookup _ _ | .done => true
  | _ => false

/-- A step from an unchecked point to a checked one is the check of a report that
names the execution of the task. -/
theorem Moves.passes (h : Moves env w p p' w') {l : Call} (hof : p.Of l) {t e : String}
    (hl : l.reports t e = true) (hp : p.unchecked = true) (hp' : p'.unchecked = false) :
    p.first = true ∧ w.coord.assignedTasks[t]? = some e := by
  cases h with
  | reads hr =>
    cases hr with
    | completeOurs ha | failOurs ha =>
      cases hof
      obtain ⟨rfl, rfl⟩ := of_decide_eq_true hl
      exact ⟨rfl, ha⟩
    | completeOther _ _ | completeAbsent _ | completeLookup | failOther _ => cases hp'
    | _ => cases hp
  | draws hd => cases hd <;> cases hp
  | writes hw => cases hw <;> cases hp
  | locks hlock => cases hlock <;> cases hp
  | ready _ => cases hp

/-- The step from a first point is the first of its thread. -/
theorem StepOf.firstOf_eq (hstep : StepOf env ps w ev p p' w')
    (hrun : coordinator.Run (Action.handle env) w₀ es ps w) (hk : w₀.store.Keyed)
    (hp : p.first = true) : firstOf ev.thread (es ++ [ev]) = some ev := by
  have hnone := firstOf_of_lastOf_none (run_first hrun hk _ _ _ hstep.point hp)
  rw [firstOf_append_none hnone, if_pos rfl]

/-- A report that is through its check has passed it with its first step. -/
theorem run_passed (hrun : coordinator.Run (Action.handle env) w₀ es ps w)
    (hk : w₀.store.Keyed) : ∀ (i : Nat) (l : Call) (p : Point), ps[i]? = some (l, p) →
      ∀ t e, l.reports t e = true → p.unchecked = false →
        ∃ first, firstOf i es = some first ∧ first.before.coord.assignedTasks[t]? = some e := by
  refine run_invariant (I := fun es ps _ => ∀ (i : Nat) (l : Call) (p : Point),
    ps[i]? = some (l, p) → ∀ t e, l.reports t e = true → p.unchecked = false →
      ∃ first, firstOf i es = some first ∧ first.before.coord.assignedTasks[t]? = some e)
    hk (by simp) ?_ ?_ hrun
  · intro es ps w c _ ih i l p hp t e hl hchecked
    rw [List.getElem?_append] at hp
    split at hp
    · exact ih i l p hp t e hl hchecked
    · have hnew := List.mem_of_getElem? hp
      cases List.mem_singleton.mp hnew
      cases c <;> first | cases hl | cases hchecked
  · intro es ps w ev p p' w' hps hstep ih i l q hq t e hl hchecked
    by_cases hi : ev.thread = i
    · subst hi
      rw [List.getElem?_set_self (List.getElem?_eq_some_iff.mp hstep.point).1] at hq
      cases hq
      cases hp : p.unchecked with
      | false =>
        obtain ⟨first, hfirst, ha⟩ := ih _ _ _ hstep.point t e hl hp
        exact ⟨first, firstOf_append hfirst ev, ha⟩
      | true =>
        have hof := run_of hps hk _ (List.mem_of_getElem? hstep.point)
        obtain ⟨hfirst, ha⟩ := hstep.moves.passes hof hl hp hchecked
        exact ⟨ev, hstep.firstOf_eq hps hk hfirst, hstep.before ▸ ha⟩
    · rw [List.getElem?_set_ne hi] at hq
      obtain ⟨first, hfirst, ha⟩ := ih i l q hq t e hl hchecked
      exact ⟨first, firstOf_append hfirst ev, ha⟩

/-- A step that leaves the reports of others alone is considerate. -/
theorem considerate_of_alone (hrun : coordinator.Run (Action.handle env) w₀ es ps w)
    (hk : w₀.store.Keyed) (hstep : StepOf env ps w ev p p' w') (halone : Alone es ev) :
    Considerate ps w ev p := by
  intro i t e hi hreporting
  obtain ⟨errMsg, q, hq, hstage⟩ := hreporting
  have hprogress : InProgress es i (.failTask t e errMsg) := by
    refine hrun.inProgress hq ?_ ?_
    · rintro rfl
      exact hstage rfl
    · rw [Option.isSome_iff_ne_none]
      intro hnone
      rw [Point.move_eq_none.mp hnone] at hstage
      exact hstage rfl
  obtain ⟨hpasses, hclaims⟩ := halone i t e errMsg hi hprogress
  have hof := run_of hrun hk _ (List.mem_of_getElem? hstep.point)
  refine ⟨fun e' hl => ?_, ?_⟩
  · cases hp : p.unchecked with
    | false =>
      obtain ⟨first, hfirst, ha⟩ := run_passed hrun hk _ _ _ hstep.point t e' hl hp
      exact absurd ⟨e', first, hl, firstOf_append hfirst ev, ha⟩ hpasses
    | true =>
      -- The first step of a report is refused, or it passes.
      have hcheck : p.first = true → w.coord.assignedTasks[t]? ≠ some e' := fun hfirst ha =>
        hpasses ⟨e', ev, hl, hstep.firstOf_eq hrun hk hfirst, hstep.before ▸ ha⟩
      cases p with
      | completeCheck u x output | failCheck u x output =>
        rw [show ev.label = _ from hof] at hl
        obtain ⟨rfl, rfl⟩ := of_decide_eq_true hl
        exact hcheck rfl
      | completeLookup u x => trivial
      | done =>
        obtain ⟨next, hmove⟩ := hstep.action
        cases hmove
      | _ => cases hp
  · rintro order k rfl hrunning
    refine hclaims ⟨order, k, hof, run_first hrun hk _ _ _ hstep.point rfl, ?_⟩
    rw [hstep.before]
    exact hrunning

theorem guarded_run (hrun : coordinator.Run (Action.handle env) w₀ es ps w)
    (hk : w₀.store.Keyed) (h₀ : Guarded w₀.store w₀.coord [])
    (halone : ∀ pre ev, pre ++ [ev] <+: es → Alone pre ev) :
    Guarded w.store w.coord ps ∧ Fenced env es := by
  revert halone
  refine run_invariant (I := fun es ps w => (∀ pre ev, pre ++ [ev] <+: es → Alone pre ev) →
    Guarded w.store w.coord ps ∧ Fenced env es) hk ?_ ?_ ?_ hrun
  · exact fun _ => ⟨h₀, ⟨by simp, by simp, by simp⟩⟩
  · intro es ps w c _ ih halone
    obtain ⟨hguard, hfenced⟩ := ih halone
    exact ⟨hguard.spawn c, hfenced⟩
  · intro es ps w ev p p' w' hps hstep ih halone
    obtain ⟨hguard, hfenced⟩ := ih fun pre e hpre =>
      halone pre e (hpre.trans (List.prefix_append es [ev]))
    have hof := run_of hps hk
    have hown := hof _ (List.mem_of_getElem? hstep.point)
    have hnew := hguard.step hof hstep
      (considerate_of_alone hps hk hstep (halone es ev List.prefix_rfl))
    have hwindow : ∀ t e errMsg, ev.label = .failTask t e errMsg →
        Window w.store w.coord (tokens w.coord ps t) t e p.stage :=
      hguard.window _ (List.mem_of_getElem? hstep.point)
    refine ⟨hnew, ⟨?_, ?_, ?_⟩⟩
    · intro a ha t e errMsg hl hchanged
      rcases List.mem_append.mp ha with ha | ha
      · exact hfenced.record a ha t e errMsg hl hchanged
      · rw [List.mem_singleton.mp ha] at hl hchanged ⊢
        rw [hstep.before, hstep.after] at hchanged
        rw [hstep.before]
        have hw := hwindow t e errMsg hl
        rcases hstep.stage_of_record hown hl hchanged with hstage | hstage
        · rw [hstage] at hw
          exact hw.2
        · rw [hstage] at hw
          exact hw.1
    · intro a ha t e errMsg hl hwithdraws
      rcases List.mem_append.mp ha with ha | ha
      · exact hfenced.memory a ha t e errMsg hl hwithdraws
      · rw [List.mem_singleton.mp ha] at hl hwithdraws ⊢
        rw [hstep.before, hstep.after] at hwithdraws
        rw [hstep.before]
        have hw := hwindow t e errMsg hl
        rcases hstep.stage_of_memory hown hl hwithdraws with hstage | hstage
        · rw [hstage] at hw
          exact hw
        · rw [hstage] at hw
          exact hw.1
    · intro a ha
      rcases List.mem_append.mp ha with ha | ha
      · exact hfenced.nodup a ha
      · rw [List.mem_singleton.mp ha, hstep.after, List.nodup_iff_count_le_one]
        intro t
        have hle := hnew.once t
        rw [tokens] at hle
        omega

/-- From any state that operations, crashes and restarts reach, in any
interleaving of operations on tasks in which nobody interferes with a failure
report, the reports are fenced. -/
theorem failures_fenced {calls : List Call} (hstart : CrashRun env calls true w₀)
    (hids : NeverReused (submitted calls))
    (hrun : Interleaving (Action.handle env) Call.prog w₀ es ts w)
    (hops : ∀ th ∈ ts, th.label.onTasks = true)
    (halone : ∀ pre ev, pre ++ [ev] <+: es → Alone pre ev) : Fenced env es := by
  obtain ⟨ps, hps, _⟩ := hrun.run tracks_prog fun th hth => Call.concurrent_of_onTasks (hops th hth)
  have hinv := hstart.inv hids
  exact (guarded_run hps hinv.sound.coherent.linked.keyed hinv.guarded halone).2

end Runs

/-- The call is a failure report. -/
def Call.isFailure : Call → Bool
  | .failTask _ _ _ => true
  | _ => false

/-- The call asks for a task, or it reports on an execution that no state of the
events knows. -/
def Call.isHarmless (es : List (Event Call Action World)) : Call → Bool
  | .getReadyTask _ => true
  | .completeTask t e _ | .failTask t e _ =>
      es.all fun ev => ev.before.coord.assignedTasks[t]? ≠ some e
  | _ => false

/-- The first of two tasks has been handed out, and it may be retried. -/
def retriableRun : List Call :=
  [.submitWorkflow .asListed (.pair .failFast 3), .getReadyTask "k"]

/-- Two workers ask for tasks while the first one reports a failure.  Two late
reports on an execution that is long over come in between. -/
def reportAmongOthers : List (Choice Call) :=
  [.spawn (.failTask "a" "x" "err"), .spawn (.getReadyTask "k"), .spawn (.getReadyTask "l"),
    .spawn (.failTask "a" "old" "late"), .spawn (.completeTask "a" "old" "out"),
    .run 0, .run 3, .run 1, .run 0, .run 4, .run 0, .run 0, .run 0, .run 0, .run 2]

theorem failures_fenced_reportAmongOthers :
    Fenced .counting (scheduleAfter retriableRun reportAmongOthers).1 := by
  refine failures_fenced (crashRun_runCalls _ _) (neverReused_of_one rfl)
    (interleaving_scheduleAfter retriableRun reportAmongOthers) (by decide) ?_
  intro pre ev hpre i t e errMsg hi hprogress
  -- The only failure report that goes on is the first thread.
  have hreport : ∀ a ∈ (scheduleAfter retriableRun reportAmongOthers).1,
      a.label.isFailure = true → a.returned = false → a.thread = 0 := by
    decide
  have hother : ∀ a ∈ (scheduleAfter retriableRun reportAmongOthers).1, a.thread ≠ 0 →
      a.label.isHarmless (scheduleAfter retriableRun reportAmongOthers).1 = true := by
    decide
  obtain ⟨last, hlast, hlabel, hgoing⟩ := hprogress
  obtain ⟨hin, rfl⟩ := mem_of_lastOf hlast
  have hzero : last.thread = 0 :=
    hreport last (hpre.subset (List.mem_append_left _ hin)) (by rw [hlabel]; rfl) hgoing
  have hev := hother ev (hpre.subset (by simp)) (hzero ▸ Ne.symm hi)
  refine ⟨?_, ?_⟩
  · rintro ⟨e', first, hreports, hfirst, ha⟩
    have hfirst' := hpre.subset (List.mem_of_find?_eq_some hfirst)
    cases hcall : ev.label with
    | completeTask u x output | failTask u x output =>
      rw [hcall] at hreports hev
      obtain ⟨rfl, rfl⟩ := of_decide_eq_true hreports
      exact of_decide_eq_true (List.all_eq_true.mp hev first hfirst') ha
    | _ =>
      rw [hcall] at hreports
      cases hreports
  · rintro ⟨order, worker, hdead, _⟩
    rw [hdead] at hev
    cases hev

/-- The worker is declared dead while its failure report is on the way, and the
task is handed out again. -/
def deathDuringReport : List (Choice Call) :=
  [.spawn (.failTask "a" "x" "err"), .spawn (.handleDeadWorker (.asListed _) "k"),
    .spawn (.getReadyTask "l"), .run 0, .run 1, .run 1, .run 1, .run 1, .run 2,
    .run 0, .run 0, .run 0, .run 0]

/-- The report requeues the newer execution. -/
theorem not_fenced_deathDuringReport :
    (∀ th ∈ (scheduleAfter retriableRun deathDuringReport).2.1, th.label.onTasks = true) ∧
    Interleaving (Action.handle .counting) Call.prog (runCalls .counting retriableRun)
      (scheduleAfter retriableRun deathDuringReport).1
      (scheduleAfter retriableRun deathDuringReport).2.1
      (scheduleAfter retriableRun deathDuringReport).2.2 ∧
    ¬ Fenced .counting (scheduleAfter retriableRun deathDuringReport).1 := by
  refine ⟨by decide, interleaving_scheduleAfter _ _, fun h => ?_⟩
  have hfound : ((scheduleAfter retriableRun deathDuringReport).1.any fun ev =>
      match ev.label with
      | .failTask t e _ =>
          (ev.after (Action.handle .counting)).store.taskState[t]? ≠ ev.before.store.taskState[t]? ∧
            ev.before.store.executionOf t ≠ some e
      | _ => false) = true := by
    decide
  obtain ⟨ev, hev, hbad⟩ := List.any_eq_true.mp hfound
  split at hbad
  · rename_i t e errMsg hlabel
    obtain ⟨hchanged, hexec⟩ := of_decide_eq_true hbad
    exact hexec (h.record ev hev t e errMsg hlabel hchanged)
  · cases hbad

end DagScheduler
