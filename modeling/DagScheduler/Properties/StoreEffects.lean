import DagScheduler.Coordinator.Runs

/-!
# Two operations on any bucket

`CompleteTask` and `SkipDownstreamTasks` of the store rewrite records that they
have read from the same bucket a moment before.  Here they run on a bucket with
any contents: counters that fit no graph, downstream lists with repetitions,
cycles and IDs without a record.  All that is asked of the bucket is that its
keys are ones that `Put` has accepted.
-/

namespace DagScheduler

open Lib

namespace Store

/-! ## `CompleteTask` -/

/-- The task that the entry `j` of the list queues, if it does.  `s` is the
bucket before the loop over the list, which works through the entries in
order. -/
def queuedBy (now : Int64) (s : Store) (ids : List String) (j : Nat) : Option String :=
  ids[j]?.filter fun d =>
    Released (s.unlockAll now (ids.take j)) (s.unlockAll now (ids.take (j + 1))) d

/-- What a completion of `t`, whose record is `r`, does to the bucket. -/
structure CompletionEffect (now : Int64) (t output : String) (r : TaskStateRecord)
    (s s' : Store) (ready : List String) : Prop where
  task : s'.taskState[t]? = some
    { r with state := .complete, output := output, lastUpdated := now }
  /-- A waiting task loses as many units of its counter as the list names it. -/
  waiting : ∀ (d : String) (x : TaskStateRecord), s.taskState[d]? = some x →
    x.state = .pending → d ∈ r.downstreamTaskIDs → -2 ^ 31 < x.inDegree.toInt →
    (x.inDegree.toInt ≤ r.downstreamTaskIDs.count d → s'.taskState[d]? = some
      { x with state := .queued, inDegree := 0, lastUpdated := now }) ∧
    (r.downstreamTaskIDs.count d < x.inDegree.toInt → ∃ n : Int32,
      n.toInt = x.inDegree.toInt - r.downstreamTaskIDs.count d ∧
      s'.taskState[d]? = some { x with inDegree := n, lastUpdated := now })
  other : ∀ u : String, u ≠ t →
    (s.stateOf u ≠ some .pending ∨ u ∉ r.downstreamTaskIDs) →
    s'.taskState[u]? = s.taskState[u]?
  listed : ∀ u, u ∈ ready ↔ s.stateOf u = some .pending ∧ s'.stateOf u = some .queued
  once : ready.Nodup
  order : ready = (List.range r.downstreamTaskIDs.length).filterMap
    (queuedBy now (s.setTask t
      { r with state := .complete, output := output, lastUpdated := now })
      r.downstreamTaskIDs)
  workflows : s'.workflows = s.workflows ∧ s'.workflowState = s.workflowState

theorem queuedBy_zero (now : Int64) (s : Store) (d : String) (ids : List String) :
    (queuedBy now s (d :: ids) 0).toList
      = if Released s (s.unlockAll now [d]) d then [d] else [] := by
  have hstart : s.unlockAll now [] = s := rfl
  rw [queuedBy, List.getElem?_cons_zero, List.take_zero, hstart, zero_add, List.take_succ_cons,
    List.take_zero, Option.filter_some]
  by_cases h : Released s (s.unlockAll now [d]) d <;> simp [h]

theorem queuedBy_succ (now : Int64) (s : Store) (d : String) (ids : List String) (j : Nat) :
    queuedBy now s (d :: ids) (j + 1) = queuedBy now (s.unlockAll now [d]) ids j := by
  rw [queuedBy, queuedBy, List.getElem?_cons_succ, List.take_succ_cons, List.take_succ_cons]
  rfl

/-- The answer of the loop lists the tasks by the entry that queued them. -/
theorem readyOrder_eq (now : Int64) (ids : List String) (s : Store) :
    readyOrder now ids s = (List.range ids.length).filterMap (queuedBy now s ids) := by
  induction ids generalizing s with
  | nil => rfl
  | cons d ids ih =>
    rw [readyOrder, ih, List.length_cons, List.range_succ_eq_map, List.filterMap_cons,
      List.filterMap_map, ← queuedBy_zero now s d ids]
    have hrest : (queuedBy now s (d :: ids)) ∘ Nat.succ = queuedBy now (s.unlockAll now [d]) ids :=
      funext fun j => queuedBy_succ now s d ids j
    rw [hrest]
    cases queuedBy now s (d :: ids) 0 <;> rfl

/-- `CompleteTask` on a task that is not complete, under its execution. -/
theorem completeTask_effect {s : Store} (hkeys : s.ValidKeys) {t e : String}
    {r : TaskStateRecord} (hr : s.taskState[t]? = some r) (he : r.executionID = e)
    (hst : r.state ≠ .complete) (hself : t ∉ r.downstreamTaskIDs) (now : Int64)
    (output : String) :
    ∃ s' ready, s.commit (completeTask now t e output) = (.ok ready, s') ∧
      CompletionEffect now t output r s s' ready := by
  obtain ⟨s', ready, hcommit, hc⟩ := commit_completeTask hkeys hr he hst now output
  refine ⟨s', ready, hcommit, hc.task, ?_, ?_, hc.mem_ready, hc.nodup_ready, ?_,
    hc.workflows, hc.workflowState⟩
  · intro d x hx hp hin hmin
    have hne : d ≠ t := fun h => hself (h ▸ hin)
    have hpos : 0 < r.downstreamTaskIDs.count d := List.count_pos_iff.mpr hin
    have hother := hc.other d hne
    rw [hx, Option.map_some] at hother
    refine ⟨fun hle => ?_, fun hlt => ?_⟩
    · rw [hother, iterate_unlocked_of_le now hp hpos hle hmin]
    · obtain ⟨n, hn, hrec⟩ := iterate_unlocked now hp hpos hlt.le
      have hnz : n ≠ 0 := by
        rintro rfl
        rw [Int32.toInt_zero] at hn
        omega
      refine ⟨n, hn, ?_⟩
      rw [hother, hrec, if_neg hnz, ← hp]
  · intro u hne hquiet
    rw [hc.other u hne]
    rcases hquiet with hstate | hnot
    · cases hu : s.taskState[u]? with
      | none => rfl
      | some x =>
        rw [stateOf_of_get hu] at hstate
        rw [Option.map_some, iterate_unlocked_of_ne now fun hp => hstate (by rw [hp])]
    · rw [List.count_eq_zero_of_not_mem hnot, Function.iterate_zero, Option.map_id_fun, id]
  · have heq := commit_completeTask_eq hkeys hr he hst now output rfl
    rw [hcommit, readyOrder_eq] at heq
    exact Except.ok.inj (congrArg Prod.fst heq)

/-- The bucket after the first task of a workflow of two has been handed out. -/
def handedOut : Store :=
  (runCalls .counting [.submitWorkflow .asListed (.pair .failFast 1), .getReadyTask "k"]).store

theorem validKeys_handedOut : handedOut.ValidKeys :=
  (inv_runCalls .counting (neverReused_of_one rfl)).sound.coherent.linked.keyed.validKeys

/-- The completion of the first task queues the second one, which names the
first one twice. -/
theorem completeTask_handedOut : ∃ r s', handedOut.taskState["a"]? = some r ∧
    handedOut.commit (completeTask 7 "a" "x" "out") = (.ok ["b"], s') ∧
    CompletionEffect 7 "a" "out" r handedOut s' ["b"] := by
  have hready : (handedOut.commit (completeTask 7 "a" "x" "out")).1 = .ok ["b"] := by decide
  have hid : handedOut.taskState["a"]?.map (·.executionID) = some "x" := by decide
  have hstate : handedOut.stateOf "a" ≠ some .complete := by decide
  have hself : ∀ r ∈ handedOut.taskState["a"]?, "a" ∉ r.downstreamTaskIDs := by decide
  cases hr : handedOut.taskState["a"]? with
  | none =>
    rw [hr] at hid
    cases hid
  | some r =>
    rw [hr] at hid
    rw [stateOf_of_get hr] at hstate
    obtain ⟨s', ready, hcommit, heff⟩ := completeTask_effect validKeys_handedOut hr
      (Option.some.inj hid) (fun h => hstate (by rw [h])) (hself r hr) 7 "out"
    rw [hcommit] at hready
    cases hready
    exact ⟨r, s', rfl, hcommit, heff⟩

end Store

/-! ## `SkipDownstreamTasks` -/

open Store

/-- `SkipDownstreamTasks` comes to its end, gives up exactly the tasks below the
failed one that are not over, and answers them.  The number of rounds that the
model allows plays no part in it: any larger one gives the same.  The traversal
ends as well when other calls act between its transactions, as long as these
leave the downstream lists alone. -/
theorem skipDownstreamTasks_exact (env : Env) {w : World} (hkeys : w.store.ValidKeys)
    {f : String} {r : TaskStateRecord} (hr : w.store.taskState[f]? = some r) :
    ∃ skipped w', (skipDownstreamTasks f).run (Action.handle env) w = (.ok skipped, w') ∧
      SkippedBelow (w.store.Below f) w skipped w' ∧
      (∀ k, (skipLoop (r.downstreamTaskIDs.length + w.store.edgeCount + k)
        r.downstreamTaskIDs [] []).run (Action.handle env) w = (.ok skipped, w')) ∧
      ∀ ws : List World, (∀ v ∈ ws, SameShape w.store v.store) →
        (skipDownstreamTasks f).readAt (Action.handle env) ws ≠ some (.error .diverged) := by
  have hfuel : r.downstreamTaskIDs.length + w.store.edgesLeft []
      ≤ r.downstreamTaskIDs.length + w.store.edgeCount := by
    rw [edgesLeft_nil]
  have hloop : (skipLoop (r.downstreamTaskIDs.length + w.store.edgeCount)
      r.downstreamTaskIDs [] []).wp (Action.handle env) (fun _ => True)
      (fun result w' => ∃ skipped, result = .ok skipped ∧
        SkippedBelow (w.store.Below f) w skipped w') w :=
    wp_skipLoop hkeys (fun _ _ _ => trivial) _ (skipInv_start hr) rfl rfl hfuel
  obtain ⟨skipped, hok, hbelow⟩ := Prog.wp_run hloop
  have hrun : (skipLoop (r.downstreamTaskIDs.length + w.store.edgeCount)
      r.downstreamTaskIDs [] []).run (Action.handle env) w = (.ok skipped, _) :=
    Prod.ext hok rfl
  refine ⟨skipped, _, ?_, hbelow, fun k => ?_, fun ws hws => readAt_skipDownstreamTasks_ne hws⟩
  · have hget : w.store.getTask f = .ok r := by simp [getTask, hr]
    have hview : (Program.view fun s => (s.getTask f, s.edgeCount)).run (Action.handle env) w
        = ((w.store.getTask f, w.store.edgeCount), w) := rfl
    rw [skipDownstreamTasks, Prog.run_bind, hview, hget]
    exact hrun
  · rw [run_skipLoop_more hkeys _ k (skipInv_start hr) hfuel]
    exact hrun

/-- A bucket in which two tasks list each other, one of them twice, together
with an ID that has no record. -/
def tangled : Store where
  taskState := ((∅ : Table String TaskStateRecord).insert "a"
      { taskID := "a", workflowID := "w", state := .failed,
        downstreamTaskIDs := ["b", "b", "c"] }).insert "b"
      { taskID := "b", workflowID := "w", state := .pending, downstreamTaskIDs := ["a"] }

theorem validKeys_tangled : tangled.ValidKeys := by
  intro t r hr
  rw [tangled, Table.get_insert] at hr
  split at hr
  · rename_i ht
    subst ht
    decide
  · rw [Table.get_insert] at hr
    split at hr
    · rename_i ht
      subst ht
      decide
    · simp at hr

theorem skipDownstreamTasks_tangled :
    ∃ w', (skipDownstreamTasks "a").run (Action.handle .counting) { store := tangled }
        = (.ok ["b"], w') ∧
      SkippedBelow (tangled.Below "a") { store := tangled } ["b"] w' := by
  have hres : ((skipDownstreamTasks "a").run (Action.handle .counting)
      { store := tangled }).1 = .ok ["b"] := by decide
  have hsome : tangled.taskState["a"]?.isSome = true := by decide
  obtain ⟨r, hr⟩ := Option.isSome_iff_exists.mp hsome
  obtain ⟨skipped, w', hrun, hbelow, -, -⟩ := skipDownstreamTasks_exact .counting
    (w := { store := tangled }) validKeys_tangled hr
  rw [hrun] at hres
  cases hres
  exact ⟨w', hrun, hbelow⟩

end DagScheduler
