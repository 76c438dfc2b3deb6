import DagScheduler.Lib.Loop
import DagScheduler.Model.Store

/-!
# What each transaction leaves behind

One lemma for each transaction of the store says what it answers and how it
leaves every record.  Later modules cite these lemmas and do not unfold a
transaction again.

* `commit_modifyTask` covers the four transactions that rewrite one record.
* `commit_completeTask` covers the completion of a task.  `Completion` is
  its effect: the task is `COMPLETE`, and a waiting task has lost as many
  units of its counter as the downstream list names it.
* `commit_cancelWorkflowTasks` covers the scan that skips a workflow.
* `isWorkflowComplete_iff`, `any_failed_iff` and `mem_getTasksInState` read
  the views.

`ValidKeys` is what the writes need: every key is one that `Put` accepts.  A
bucket of bbolt has no other keys.  `Keyed` adds that every record is stored
under its own task ID.
-/

namespace DagScheduler

open Lib

namespace Store

/-- `Put` accepts every key. -/
def ValidKeys (s : Store) : Prop :=
  ∀ t r, s.taskState[t]? = some r → validKey t = true

/-- Every record is stored under its own task ID, which `Put` accepts. -/
def Keyed (s : Store) : Prop :=
  ∀ t r, s.taskState[t]? = some r → r.taskID = t ∧ validKey t = true

theorem Keyed.validKeys {s : Store} (hk : s.Keyed) : s.ValidKeys :=
  fun t r hr => (hk t r hr).2

/-- Put one record, with no check of the key. -/
def setTask (s : Store) (t : String) (r : TaskStateRecord) : Store :=
  { s with taskState := s.taskState.insert t r }

/-- The state of a task, if it has a record. -/
def stateOf (s : Store) (t : String) : Option TaskState :=
  s.taskState[t]?.map (·.state)

/-- The state of a workflow, if it has a record. -/
def workflowStateOf (s : Store) (id : String) : Option WorkflowState :=
  s.workflowState[id]?.map (·.state)

@[simp] theorem setTask_workflows (s : Store) (t : String) (r : TaskStateRecord) :
    (s.setTask t r).workflows = s.workflows := rfl

@[simp] theorem setTask_workflowState (s : Store) (t : String)
    (r : TaskStateRecord) : (s.setTask t r).workflowState = s.workflowState := rfl

theorem get_setTask (s : Store) (t u : String) (r : TaskStateRecord) :
    (s.setTask t r).taskState[u]? = if t = u then some r else s.taskState[u]? :=
  Table.get_insert _ _ _ _

theorem stateOf_eq_some {s : Store} {t : String} {st : TaskState} :
    s.stateOf t = some st ↔ ∃ r, s.taskState[t]? = some r ∧ r.state = st := by
  simp [stateOf]

theorem stateOf_of_get {s : Store} {t : String} {r : TaskStateRecord}
    (h : s.taskState[t]? = some r) : s.stateOf t = some r.state := by
  simp [stateOf, h]

/-! ## Commit and the key check -/

theorem commit_of_ok {α : Type} {tx : Tx α} {s s' : Store} {a : α}
    (h : tx.run s = .ok (a, s')) : s.commit tx = (.ok a, s') := by
  simp [commit, h]

theorem commit_of_error {α : Type} {tx : Tx α} {s : Store} {e : StoreError}
    (h : tx.run s = .error e) : s.commit tx = (.error e, s) := by
  simp [commit, h]

/-- A transaction that starts by reading the store. -/
theorem run_get_bind {α : Type} (f : Store → Tx α) (s : Store) :
    (get >>= f).run s = (f s).run s := rfl

theorem validKey_iff {key : String} :
    validKey key = true ↔ key ≠ "" ∧ key.utf8ByteSize ≤ maxKeySize := by
  simp [validKey]

theorem checkKey_of_valid {key : String} (h : validKey key = true) :
    checkKey key = pure () := by
  obtain ⟨hne, hle⟩ := validKey_iff.mp h
  rw [checkKey, if_neg hne, if_neg (by omega)]

theorem checkKey_of_invalid {key : String} (h : validKey key = false) :
    ∃ e, checkKey key = throw e := by
  unfold checkKey
  by_cases hne : key = ""
  · exact ⟨.keyRequired, if_pos hne⟩
  · by_cases hle : maxKeySize < key.utf8ByteSize
    · exact ⟨.keyTooLarge, by rw [if_neg hne, if_pos hle]⟩
    · have hv : validKey key = true := validKey_iff.mpr ⟨hne, by omega⟩
      rw [h] at hv
      cases hv

theorem putTask_run {t : String} (h : validKey t = true) (r : TaskStateRecord)
    (s : Store) : (putTask t r).run s = .ok ((), s.setTask t r) := by
  rw [putTask, checkKey_of_valid h]
  rfl

/-! ## Workflow specifications and workflow states -/

/-- `StoreWorkflow` succeeds on a specification that marshals and whose ID
is a key. -/
theorem commit_storeWorkflow {marshals : WorkflowSpec → Bool} {wf : WorkflowSpec}
    (hm : marshals wf = true) (hk : validKey wf.workflowId = true) (s : Store) :
    s.commit (storeWorkflow marshals wf)
      = (.ok (), { s with workflows := s.workflows.insert wf.workflowId wf }) := by
  apply commit_of_ok
  rw [storeWorkflow, if_pos hm, checkKey_of_valid hk]
  rfl

/-- In all other cases it fails, and the store is as before. -/
theorem commit_storeWorkflow_refused {marshals : WorkflowSpec → Bool}
    {wf : WorkflowSpec}
    (h : ¬ (marshals wf = true ∧ validKey wf.workflowId = true)) (s : Store) :
    ∃ e, s.commit (storeWorkflow marshals wf) = (.error e, s) := by
  by_cases hm : marshals wf = true
  · have hk : validKey wf.workflowId = false := by
      rw [← Bool.not_eq_true]
      exact fun hk => h ⟨hm, hk⟩
    obtain ⟨e, he⟩ := checkKey_of_invalid hk
    refine ⟨e, commit_of_error ?_⟩
    rw [storeWorkflow, if_pos hm, he]
    rfl
  · refine ⟨.marshal, commit_of_error ?_⟩
    rw [storeWorkflow, if_neg hm]
    rfl

/-- Put one workflow state record, with no check of the key. -/
def setWorkflowState (s : Store) (id : String) (r : WorkflowStateRecord) : Store :=
  { s with workflowState := s.workflowState.insert id r }

@[simp] theorem setWorkflowState_workflows (s : Store) (id : String)
    (r : WorkflowStateRecord) :
    (s.setWorkflowState id r).workflows = s.workflows := rfl

@[simp] theorem setWorkflowState_taskState (s : Store) (id : String)
    (r : WorkflowStateRecord) :
    (s.setWorkflowState id r).taskState = s.taskState := rfl

theorem get_setWorkflowState (s : Store) (id i : String) (r : WorkflowStateRecord) :
    (s.setWorkflowState id r).workflowState[i]?
      = if id = i then some r else s.workflowState[i]? :=
  Table.get_insert _ _ _ _

theorem commit_putWorkflowState {id : String} (hk : validKey id = true)
    (r : WorkflowStateRecord) (s : Store) :
    s.commit (putWorkflowState id r) = (.ok (), s.setWorkflowState id r) := by
  apply commit_of_ok
  rw [putWorkflowState, checkKey_of_valid hk]
  rfl

theorem commit_initWorkflowState {id : String} (hk : validKey id = true)
    (now : Int64) (s : Store) :
    s.commit (initWorkflowState now id)
      = (.ok (), s.setWorkflowState id
          { workflowID := id, state := .running, submittedAtMs := now }) :=
  commit_putWorkflowState hk _ s

theorem commit_putWorkflowState_refused {id : String} (hk : validKey id = false)
    (r : WorkflowStateRecord) (s : Store) :
    ∃ e, s.commit (putWorkflowState id r) = (.error e, s) := by
  obtain ⟨e, he⟩ := checkKey_of_invalid hk
  refine ⟨e, commit_of_error ?_⟩
  rw [putWorkflowState, he]
  rfl

theorem commit_initWorkflowState_refused {id : String} (hk : validKey id = false)
    (now : Int64) (s : Store) :
    ∃ e, s.commit (initWorkflowState now id) = (.error e, s) :=
  commit_putWorkflowState_refused hk _ s

theorem updateWorkflowState_run (now : Int64) (id : String) (st : WorkflowState)
    (s : Store) :
    (updateWorkflowState now id st).run s
      = (putWorkflowState id
          (nextWorkflowState now id s.workflowState[id]? st)).run s := by
  rw [updateWorkflowState, StateT.run_bind, StateT.run_get]
  rfl

theorem commit_updateWorkflowState {id : String} (hk : validKey id = true)
    (now : Int64) (st : WorkflowState) (s : Store) :
    s.commit (updateWorkflowState now id st)
      = (.ok (), s.setWorkflowState id
          (nextWorkflowState now id s.workflowState[id]? st)) := by
  apply commit_of_ok
  rw [updateWorkflowState_run, putWorkflowState, checkKey_of_valid hk]
  rfl

theorem commit_updateWorkflowState_refused {id : String}
    (hk : validKey id = false) (now : Int64) (st : WorkflowState) (s : Store) :
    ∃ e, s.commit (updateWorkflowState now id st) = (.error e, s) := by
  obtain ⟨e, he⟩ := checkKey_of_invalid hk
  refine ⟨e, commit_of_error ?_⟩
  rw [updateWorkflowState_run, putWorkflowState, he]
  rfl

@[simp] theorem nextWorkflowState_state (now : Int64) (id : String)
    (found : Option WorkflowStateRecord) (st : WorkflowState) :
    (nextWorkflowState now id found st).state = st := by
  unfold nextWorkflowState
  split <;> rfl

theorem nextWorkflowState_workflowID (now : Int64) (id : String)
    (found : Option WorkflowStateRecord) (st : WorkflowState)
    (h : ∀ r, found = some r → r.workflowID = id) :
    (nextWorkflowState now id found st).workflowID = id := by
  cases found with
  | none =>
    unfold nextWorkflowState
    split <;> rfl
  | some r =>
    unfold nextWorkflowState
    split
    · exact h r rfl
    · exact h r rfl

/-! ## Transactions on one record -/

theorem commit_modifyTask_of_valid {s : Store} {t : String} {r : TaskStateRecord}
    (hv : validKey t = true) (hr : s.taskState[t]? = some r)
    (f : TaskStateRecord → TaskStateRecord) :
    s.commit (modifyTask t f) = (.ok (), s.setTask t (f r)) := by
  apply commit_of_ok
  have h : (modifyTask t f).run s = (putTask t (f r)).run s := by
    simp [modifyTask, hr]
  rw [h, putTask_run hv]

theorem commit_modifyTask {s : Store} {t : String} {r : TaskStateRecord}
    (hk : s.Keyed) (hr : s.taskState[t]? = some r)
    (f : TaskStateRecord → TaskStateRecord) :
    s.commit (modifyTask t f) = (.ok (), s.setTask t (f r)) :=
  commit_modifyTask_of_valid (hk t r hr).2 hr f

theorem commit_modifyTask_absent {s : Store} {t : String}
    (hr : s.taskState[t]? = none) (f : TaskStateRecord → TaskStateRecord) :
    s.commit (modifyTask t f) = (.error .taskNotFound, s) := by
  apply commit_of_error
  have h : (modifyTask t f).run s = (throw .taskNotFound : Tx Unit).run s := by
    simp [modifyTask, hr]
  rw [h]
  rfl

/-! ## The records of a new workflow -/

/-- `InitializeTasksForWorkflow` writes one record per task, when every task
ID is a key. -/
theorem commit_initializeTasks {tasks : List TaskSpec}
    (hk : ∀ task ∈ tasks, validKey task.taskId = true) (now : Int64) (id : String)
    (inDegrees : Table String Int32) (downstream : Table String (List String))
    (s : Store) :
    s.commit (initializeTasksForWorkflow now id tasks inDegrees downstream)
      = (.ok (), { s with
          taskState := tasks.foldl (fun m task => m.insert task.taskId
            (initialRecord now id inDegrees downstream task)) s.taskState }) := by
  apply commit_of_ok
  rw [initializeTasksForWorkflow]
  induction tasks generalizing s with
  | nil => rfl
  | cons task tasks ih =>
    change (putTask task.taskId _ >>= fun _ => tasks.forM _).run s = _
    rw [StateT.run_bind, putTask_run (hk task (by simp))]
    exact ih (fun other h => hk other (by simp [h])) _

/-- One task ID that is no key makes the whole transaction fail. -/
theorem commit_initializeTasks_refused {tasks : List TaskSpec}
    (hk : ∃ task ∈ tasks, validKey task.taskId = false) (now : Int64) (id : String)
    (inDegrees : Table String Int32) (downstream : Table String (List String))
    (s : Store) :
    ∃ e, s.commit (initializeTasksForWorkflow now id tasks inDegrees downstream)
      = (.error e, s) := by
  suffices h : ∀ s' : Store, ∃ e,
      (initializeTasksForWorkflow now id tasks inDegrees downstream).run s'
        = .error e by
    obtain ⟨e, he⟩ := h s
    exact ⟨e, commit_of_error he⟩
  rw [initializeTasksForWorkflow]
  obtain ⟨bad, hbad, hinvalid⟩ := hk
  induction tasks with
  | nil => cases hbad
  | cons task tasks ih =>
    intro s'
    change ∃ e, (putTask task.taskId _ >>= fun _ => tasks.forM _).run s' = .error e
    rw [StateT.run_bind]
    cases hv : validKey task.taskId with
    | false =>
      obtain ⟨e, he⟩ := checkKey_of_invalid hv
      refine ⟨e, ?_⟩
      rw [putTask, he]
      rfl
    | true =>
      rw [putTask_run hv]
      rcases List.mem_cons.mp hbad with rfl | hin
      · rw [hinvalid] at hv
        cases hv
      · exact ih hin _

/-! ## The completion of a task -/

/-- What the downstream loop does to one record: only a waiting task is
decremented. -/
def unlocked (now : Int64) (ds : TaskStateRecord) : TaskStateRecord :=
  if ds.state = .pending then decrement now ds else ds

theorem toInt_sub_one {x : Int32} (h : 0 < x.toInt) :
    (x - 1).toInt = x.toInt - 1 := by
  have hlt := Int32.toInt_lt x
  rw [Int32.toInt_sub, Int32.toInt_one]
  exact Int.bmod_eq_of_le (by omega) (by omega)

/-- A decrement of a positive counter. -/
theorem decrement_of_pos {ds : TaskStateRecord} (h : 0 < ds.inDegree.toInt)
    (now : Int64) :
    decrement now ds = { ds with
      inDegree := ds.inDegree - 1
      state := if ds.inDegree - 1 = 0 then .queued else ds.state
      lastUpdated := now } := by
  have hge : ¬ ds.inDegree - 1 < 0 := by
    rw [Int32.lt_iff_toInt_lt, toInt_sub_one h, Int32.toInt_zero]
    omega
  simp [decrement, hge]

/-- A waiting task that is named `n` times, and whose counter is at least
`n`, loses `n`.  It is queued exactly when nothing is left. -/
theorem iterate_unlocked {ds : TaskStateRecord} (now : Int64)
    (hp : ds.state = .pending) {n : Nat} (hn : 0 < n)
    (hle : (n : Int) ≤ ds.inDegree.toInt) :
    ∃ x : Int32, x.toInt = ds.inDegree.toInt - n ∧
      (unlocked now)^[n] ds = { ds with
        inDegree := x
        state := if x = 0 then .queued else .pending
        lastUpdated := now } := by
  induction n with
  | zero => cases hn
  | succ n ih =>
    rw [Function.iterate_succ_apply']
    rcases Nat.eq_zero_or_pos n with rfl | hpos
    · have h0 : 0 < ds.inDegree.toInt := by omega
      refine ⟨ds.inDegree - 1, ?_, ?_⟩
      · rw [toInt_sub_one h0]
        omega
      · rw [Function.iterate_zero, id, unlocked, if_pos hp, decrement_of_pos h0, hp]
    · obtain ⟨x, hx, hrec⟩ := ih hpos (by omega)
      have h0 : 0 < x.toInt := by omega
      have hne : x ≠ 0 := by
        rintro rfl
        rw [Int32.toInt_zero] at h0
        omega
      refine ⟨x - 1, ?_, ?_⟩
      · rw [toInt_sub_one h0]
        omega
      · rw [hrec, if_neg hne, unlocked, if_pos rfl, decrement_of_pos h0]

/-- A decrement of a counter that is not positive queues the task.  Only the
least counter wraps around. -/
theorem decrement_of_nonpos {ds : TaskStateRecord} (h : ds.inDegree.toInt ≤ 0)
    (hmin : -2 ^ 31 < ds.inDegree.toInt) (now : Int64) :
    decrement now ds = { ds with inDegree := 0, state := .queued, lastUpdated := now } := by
  have hsub : (ds.inDegree - 1).toInt = ds.inDegree.toInt - 1 := by
    rw [Int32.toInt_sub, Int32.toInt_one]
    exact Int.bmod_eq_of_le (by omega) (by omega)
  have hlt : ds.inDegree - 1 < 0 := by
    rw [Int32.lt_iff_toInt_lt, hsub, Int32.toInt_zero]
    omega
  simp [decrement, hlt]

theorem unlocked_of_ne {ds : TaskStateRecord} (now : Int64)
    (h : ds.state ≠ .pending) : unlocked now ds = ds := if_neg h

theorem iterate_unlocked_of_ne {ds : TaskStateRecord} (now : Int64)
    (h : ds.state ≠ .pending) (n : Nat) : (unlocked now)^[n] ds = ds :=
  Function.iterate_fixed (unlocked_of_ne now h) n

/-- A waiting task that is named `n` times, more often than its counter says,
is queued. -/
theorem iterate_unlocked_of_le {ds : TaskStateRecord} (now : Int64)
    (hp : ds.state = .pending) {n : Nat} (hn : 0 < n) (hle : ds.inDegree.toInt ≤ n)
    (hmin : -2 ^ 31 < ds.inDegree.toInt) :
    (unlocked now)^[n] ds = { ds with inDegree := 0, state := .queued, lastUpdated := now } := by
  -- the first round for a counter that is not positive, else round `inDegree`
  have hqueue : ∃ m, 0 < m ∧ m ≤ n ∧ (unlocked now)^[m] ds
      = { ds with inDegree := 0, state := .queued, lastUpdated := now } := by
    by_cases hpos : 0 < ds.inDegree.toInt
    · refine ⟨ds.inDegree.toInt.toNat, by omega, by omega, ?_⟩
      obtain ⟨x, hx, hrec⟩ := iterate_unlocked now hp (n := ds.inDegree.toInt.toNat)
        (by omega) (by omega)
      have hzero : x = 0 := by
        apply Int32.toInt_inj.mp
        rw [hx, Int32.toInt_zero]
        omega
      rw [hrec, hzero, if_pos rfl]
    · refine ⟨1, Nat.one_pos, hn, ?_⟩
      rw [Function.iterate_one, unlocked, if_pos hp, decrement_of_nonpos (by omega) hmin]
  obtain ⟨m, -, hmn, hm⟩ := hqueue
  obtain ⟨k, rfl⟩ := Nat.exists_eq_add_of_le' hmn
  rw [Function.iterate_add_apply, hm, iterate_unlocked_of_ne now (by simp)]

theorem decrement_state (now : Int64) (ds : TaskStateRecord) :
    (decrement now ds).state
      = if (decrement now ds).inDegree = 0 then .queued else ds.state := by
  unfold decrement
  rfl

/-- The store after the downstream loop has run over `ids`. -/
def unlockAll (now : Int64) (ids : List String) (s : Store) : Store :=
  { s with
    taskState := ids.foldl (fun m id => m.modifyAt id (unlocked now)) s.taskState }

theorem get_unlockAll (now : Int64) (ids : List String) (s : Store) (u : String) :
    (s.unlockAll now ids).taskState[u]?
      = s.taskState[u]?.map (unlocked now)^[ids.count u] :=
  Table.get_foldl_modifyAt _ _ _ _

theorem ValidKeys.unlockAll {s : Store} (hk : s.ValidKeys) (now : Int64)
    (ids : List String) : (s.unlockAll now ids).ValidKeys := by
  intro t r hr
  rw [get_unlockAll, Option.map_eq_some_iff] at hr
  obtain ⟨old, hold, -⟩ := hr
  exact hk t old hold

/-- The loop leaves a task alone that is not waiting. -/
theorem stateOf_unlockAll_of_ne {s : Store} {u : String}
    (h : s.stateOf u ≠ some .pending) (now : Int64) (ids : List String) :
    (s.unlockAll now ids).stateOf u = s.stateOf u := by
  unfold stateOf at h ⊢
  rw [get_unlockAll]
  cases hu : s.taskState[u]? with
  | none => rfl
  | some ds =>
    rw [hu] at h
    have hne : ds.state ≠ .pending := by simpa using h
    simp [iterate_unlocked_of_ne now hne]

/-- A task that waits in `s` and is queued in `s'`. -/
def Released (s s' : Store) (u : String) : Prop :=
  s.stateOf u = some .pending ∧ s'.stateOf u = some .queued

instance (s s' : Store) (u : String) : Decidable (Released s s' u) :=
  inferInstanceAs (Decidable (_ ∧ _))

theorem not_released_self (s : Store) (u : String) : ¬ Released s s u := by
  rintro ⟨hp, hq⟩
  rw [hp] at hq
  cases hq

theorem stateOf_unlockAll_other {s : Store} {u : String} {ids : List String}
    (h : u ∉ ids) (now : Int64) :
    (s.unlockAll now ids).stateOf u = s.stateOf u := by
  rw [stateOf, get_unlockAll, List.count_eq_zero_of_not_mem h, Function.iterate_zero,
    Option.map_id_fun, id, stateOf]

/-- One round of the loop leaves a waiting task waiting or queues it. -/
theorem stateOf_unlockAll_singleton {s : Store} {u : String}
    (hp : s.stateOf u = some .pending) (now : Int64) :
    (s.unlockAll now [u]).stateOf u = some .pending ∨
      (s.unlockAll now [u]).stateOf u = some .queued := by
  obtain ⟨r, hr, hrp⟩ := stateOf_eq_some.mp hp
  rw [stateOf, get_unlockAll, hr]
  simp only [List.count_singleton_self, Function.iterate_one, Option.map_some,
    unlocked, if_pos hrp]
  rw [decrement_state, hrp]
  split
  · exact .inr rfl
  · exact .inl rfl

/-- A task that leaves `PENDING` does so in the first round or later. -/
theorem released_unlockAll_cons (now : Int64) (d : String) (ids : List String)
    (s : Store) (u : String) :
    Released s (s.unlockAll now (d :: ids)) u ↔
      Released s (s.unlockAll now [d]) u ∨
        Released (s.unlockAll now [d]) ((s.unlockAll now [d]).unlockAll now ids) u := by
  have hsplit : s.unlockAll now (d :: ids)
      = (s.unlockAll now [d]).unlockAll now ids := rfl
  rw [hsplit]
  by_cases hp : s.stateOf u = some .pending
  · by_cases hq : (s.unlockAll now [d]).stateOf u = some .queued
    · have hstay := stateOf_unlockAll_of_ne (by rw [hq]; simp) now ids
        (s := s.unlockAll now [d]) (u := u)
      simp [Released, hp, hq, hstay]
    · have hstill : (s.unlockAll now [d]).stateOf u = some .pending := by
        by_cases hu : u = d
        · subst hu
          exact (stateOf_unlockAll_singleton hp now).resolve_right hq
        · rw [stateOf_unlockAll_other (by simpa using hu)]
          exact hp
      simp [Released, hp, hstill]
  · have hstay : (s.unlockAll now [d]).stateOf u = s.stateOf u :=
      stateOf_unlockAll_of_ne hp now [d]
    simp [Released, hp, hstay]

/-- One round of the loop.  The task is listed if the round queues it. -/
theorem unlockDownstream_run {s : Store} (hk : s.ValidKeys) (now : Int64)
    (ready : List String) (d : String) :
    (unlockDownstream now ready d).run s
      = .ok (if Released s (s.unlockAll now [d]) d then ready ++ [d] else ready,
          s.unlockAll now [d]) := by
  have hafter : ∀ ds, s.taskState[d]? = some ds →
      s.unlockAll now [d] = s.setTask d (unlocked now ds) := by
    intro ds hds
    simp [unlockAll, setTask, Table.modifyAt, hds]
  cases hd : s.taskState[d]? with
  | none =>
    have hsame : s.unlockAll now [d] = s := by
      simp [unlockAll, Table.modifyAt, hd]
    rw [unlockDownstream, run_get_bind, hd, hsame, if_neg (not_released_self s d)]
    rfl
  | some ds =>
    rw [hafter ds hd]
    by_cases hp : ds.state = .pending
    · have hrun : (unlockDownstream now ready d).run s
          = .ok (if (decrement now ds).inDegree = 0 then ready ++ [d] else ready,
              s.setTask d (decrement now ds)) := by
        rw [unlockDownstream, run_get_bind, hd]
        dsimp only
        rw [if_neg (by simp [hp]), StateT.run_bind, putTask_run (hk d ds hd)]
        rfl
      have hqueued : Released s (s.setTask d (decrement now ds)) d ↔
          (decrement now ds).inDegree = 0 := by
        rw [Released, stateOf_of_get hd, hp, stateOf, get_setTask, if_pos rfl,
          Option.map_some, decrement_state, hp]
        simp
      rw [hrun, unlocked, if_pos hp]
      simp only [hqueued]
    · have hsame : s.setTask d (unlocked now ds) = s := by
        rw [unlocked_of_ne now hp, setTask, Table.insert_self hd]
      rw [unlockDownstream, run_get_bind, hd, hsame, if_neg (not_released_self s d)]
      dsimp only
      rw [if_pos hp]
      rfl

/-- The tasks that the loop over `ids` queues, in the order in which it queues
them. -/
def readyOrder (now : Int64) : List String → Store → List String
  | [], _ => []
  | d :: ids, s =>
    (if Released s (s.unlockAll now [d]) d then [d] else [])
      ++ readyOrder now ids (s.unlockAll now [d])

/-- The whole loop. -/
theorem unlockLoop_run {s : Store} (hk : s.ValidKeys) (now : Int64) (ids : List String)
    (ready : List String) :
    (ids.foldlM (unlockDownstream now) ready).run s
      = .ok (ready ++ readyOrder now ids s, s.unlockAll now ids) := by
  induction ids generalizing s ready with
  | nil =>
    rw [readyOrder, List.append_nil]
    rfl
  | cons d ids ih =>
    have hround : (if Released s (s.unlockAll now [d]) d then ready ++ [d] else ready)
        = ready ++ if Released s (s.unlockAll now [d]) d then [d] else [] := by
      split
      · rfl
      · rw [List.append_nil]
    rw [List.foldlM_cons, StateT.run_bind, unlockDownstream_run hk, hround, readyOrder,
      ← List.append_assoc]
    exact ih (hk.unlockAll now [d]) _

/-- What one round adds to the list. -/
private theorem mem_round (now : Int64) (d : String) (s : Store) (u : String) :
    u ∈ (if Released s (s.unlockAll now [d]) d then [d] else []) ↔
      Released s (s.unlockAll now [d]) u := by
  by_cases hu : u = d
  · subst hu
    split <;> simp_all
  · have hnot : ¬ Released s (s.unlockAll now [d]) u := by
      rintro ⟨hp, hq⟩
      rw [stateOf_unlockAll_other (by simpa using hu), hp] at hq
      cases hq
    split <;> simp [hu, hnot]

/-- The loop lists the tasks that it queues. -/
theorem mem_readyOrder (now : Int64) (ids : List String) (s : Store) (u : String) :
    u ∈ readyOrder now ids s ↔ Released s (s.unlockAll now ids) u := by
  induction ids generalizing s with
  | nil =>
    have hsame : s.unlockAll now [] = s := rfl
    simp [readyOrder, hsame, not_released_self]
  | cons d ids ih =>
    rw [readyOrder, List.mem_append, mem_round, ih, released_unlockAll_cons now d ids]

/-- Each of them once. -/
theorem nodup_readyOrder (now : Int64) (ids : List String) (s : Store) :
    (readyOrder now ids s).Nodup := by
  induction ids generalizing s with
  | nil => exact List.nodup_nil
  | cons d ids ih =>
    rw [readyOrder, List.nodup_append]
    refine ⟨?_, ih _, ?_⟩
    · split
      · exact List.nodup_singleton d
      · exact List.nodup_nil
    · intro a ha b hb hab
      subst hab
      have hqueued := ((mem_round now d s a).mp ha).2
      have hpending := ((mem_readyOrder now ids _ a).mp hb).1
      rw [hqueued] at hpending
      cases hpending

/-- The effect of the completion of `t`, whose record is `r`. -/
structure Completion (now : Int64) (t output : String) (r : TaskStateRecord)
    (s s' : Store) (ready : List String) : Prop where
  workflows : s'.workflows = s.workflows
  workflowState : s'.workflowState = s.workflowState
  task : s'.taskState[t]? = some
    { r with state := .complete, output := output, lastUpdated := now }
  other : ∀ u, u ≠ t → s'.taskState[u]?
    = s.taskState[u]?.map (unlocked now)^[r.downstreamTaskIDs.count u]
  mem_ready : ∀ u, u ∈ ready ↔ Released s s' u
  nodup_ready : ready.Nodup

/-- `CompleteTask` on a task that runs under the given execution, as one
equation. -/
theorem commit_completeTask_eq {s : Store} {t e : String} {r : TaskStateRecord}
    (hk : s.ValidKeys) (hr : s.taskState[t]? = some r) (he : r.executionID = e)
    (hs : r.state ≠ .complete) (now : Int64) (output : String) {done : TaskStateRecord}
    (hdone : done = { r with state := .complete, output := output, lastUpdated := now }) :
    s.commit (completeTask now t e output)
      = (.ok (readyOrder now r.downstreamTaskIDs (s.setTask t done)),
          (s.setTask t done).unlockAll now r.downstreamTaskIDs) := by
  have hkd : (s.setTask t done).ValidKeys := by
    intro u x hx
    rw [get_setTask] at hx
    split at hx
    · rename_i htu
      exact htu ▸ hk t r hr
    · exact hk u x hx
  apply commit_of_ok
  rw [completeTask, run_get_bind, hr]
  dsimp only
  rw [if_neg (by simp [he]), if_neg hs, StateT.run_bind, putTask_run (hk t r hr), ← hdone]
  exact (unlockLoop_run hkd now r.downstreamTaskIDs []).trans (by rw [List.nil_append])

/-- `CompleteTask` on a task that runs under the given execution. -/
theorem commit_completeTask {s : Store} {t e : String} {r : TaskStateRecord}
    (hk : s.ValidKeys) (hr : s.taskState[t]? = some r) (he : r.executionID = e)
    (hs : r.state ≠ .complete) (now : Int64) (output : String) :
    ∃ s' ready, s.commit (completeTask now t e output) = (.ok ready, s') ∧
      Completion now t output r s s' ready := by
  let done : TaskStateRecord :=
    { r with state := .complete, output := output, lastUpdated := now }
  have hdone : (s.setTask t done).stateOf t = some .complete := by
    simp [stateOf, get_setTask, done]
  refine ⟨_, _, commit_completeTask_eq hk hr he hs now output rfl,
    ⟨rfl, rfl, ?_, ?_, ?_, nodup_readyOrder _ _ _⟩⟩
  · rw [get_unlockAll, get_setTask, if_pos rfl, Option.map_some,
      iterate_unlocked_of_ne now (by simp)]
  · intro u hu
    rw [get_unlockAll, get_setTask, if_neg (Ne.symm hu)]
  · intro u
    rw [mem_readyOrder]
    by_cases hu : t = u
    · subst hu
      rw [Released, Released, stateOf_unlockAll_of_ne (by rw [hdone]; simp), hdone]
      simp
    · have hsame : (s.setTask t done).stateOf u = s.stateOf u := by
        simp [stateOf, get_setTask, hu]
      rw [Released, Released, hsame]

theorem commit_completeTask_again {s : Store} {t e : String} {r : TaskStateRecord}
    (hr : s.taskState[t]? = some r) (he : r.executionID = e)
    (hs : r.state = .complete) (now : Int64) (output : String) :
    s.commit (completeTask now t e output) = (.ok [], s) := by
  apply commit_of_ok
  rw [completeTask, run_get_bind, hr]
  dsimp only
  rw [if_neg (by simp [he]), if_pos hs]
  rfl

theorem commit_completeTask_absent {s : Store} {t : String}
    (hr : s.taskState[t]? = none) (e : String) (now : Int64) (output : String) :
    s.commit (completeTask now t e output) = (.error .taskNotFound, s) := by
  apply commit_of_error
  rw [completeTask, run_get_bind, hr]
  rfl

/-- A call with another execution ID is refused. -/
theorem commit_completeTask_stale {s : Store} {t e : String} {r : TaskStateRecord}
    (hr : s.taskState[t]? = some r) (he : r.executionID ≠ e) (now : Int64)
    (output : String) :
    s.commit (completeTask now t e output) = (.error .staleExecution, s) := by
  apply commit_of_error
  rw [completeTask, run_get_bind, hr]
  dsimp only
  rw [if_pos he]
  rfl

/-! ## Tasks that are given up -/

/-- The task has a record, and its state is not terminal. -/
def isOpen (s : Store) (u : String) : Prop :=
  ∃ r, s.taskState[u]? = some r ∧ r.state.terminal = false

/-- The workflow of a task, if the task has a record. -/
def ownerOf (s : Store) (u : String) : Option String :=
  s.taskState[u]?.map (·.workflowID)

theorem ownerOf_of_get {s : Store} {u : String} {r : TaskStateRecord}
    (h : s.taskState[u]? = some r) : s.ownerOf u = some r.workflowID := by
  simp [ownerOf, h]

theorem ownerOf_eq_some {s : Store} {u id : String} :
    s.ownerOf u = some id ↔ ∃ r, s.taskState[u]? = some r ∧ r.workflowID = id := by
  simp [ownerOf]

/-- The open tasks of `P` become `SKIPPED`, and nothing else changes. -/
structure Skips (P : String → Prop) (s s' : Store) : Prop where
  workflows : s'.workflows = s.workflows
  workflowState : s'.workflowState = s.workflowState
  absent : ∀ u : String, s.taskState[u]? = none → s'.taskState[u]? = none
  hit : ∀ (u : String) (r : TaskStateRecord), s.taskState[u]? = some r → P u →
    r.state.terminal = false → ∃ now, s'.taskState[u]?
      = some { r with state := .skipped, lastUpdated := now }
  miss : ∀ (u : String) (r : TaskStateRecord), s.taskState[u]? = some r →
    ¬ (P u ∧ r.state.terminal = false) → s'.taskState[u]? = some r

/-- The entries that the scan of `CancelWorkflowTasks` rewrites. -/
def cancels (id : String) (entry : String × TaskStateRecord) : Bool :=
  entry.2.workflowID = id ∧ entry.2.state.terminal = false

private theorem cancelLoop_run (now : Int64) (id : String)
    (entries : List (String × TaskStateRecord))
    (hk : ∀ e ∈ entries, validKey e.1 = true) (acc : List String) (s : Store) :
    (entries.foldlM (cancelTask now id) acc).run s
      = .ok (acc ++ (entries.filter (cancels id)).map (·.2.taskID),
          { s with
            taskState := (entries.filter (cancels id)).foldl
              (fun m e => m.insert e.1
                { e.2 with state := .skipped, lastUpdated := now })
              s.taskState }) := by
  induction entries generalizing acc s with
  | nil =>
    simp
    rfl
  | cons e entries ih =>
    rw [List.foldlM_cons, StateT.run_bind, cancelTask]
    have hrest := ih fun x hx => hk x (by simp [hx])
    by_cases hc : cancels id e = true
    · have hcond : ¬ (e.2.workflowID ≠ id ∨ e.2.state.terminal = true) := by
        simpa [cancels] using hc
      rw [if_neg hcond, StateT.run_bind, putTask_run (hk e (by simp)),
        List.filter_cons_of_pos hc]
      refine (hrest (acc ++ [e.2.taskID]) _).trans ?_
      rw [List.append_assoc]
      rfl
    · have hcond : e.2.workflowID ≠ id ∨ e.2.state.terminal = true := by
        by_cases hid : e.2.workflowID = id
        · exact .inr (by simpa [cancels, hid] using hc)
        · exact .inl hid
      rw [if_pos hcond, List.filter_cons_of_neg hc]
      exact hrest acc s

/-- `CancelWorkflowTasks` skips the open tasks of the workflow, and lists
them. -/
theorem commit_cancelWorkflowTasks {s : Store} (hk : s.Keyed) (now : Int64)
    (id : String) :
    ∃ s' cancelled, s.commit (cancelWorkflowTasks now id) = (.ok cancelled, s') ∧
      Skips (fun u => s.ownerOf u = some id) s s' ∧
      ∀ u, u ∈ cancelled ↔ s.ownerOf u = some id ∧ s.isOpen u := by
  let hits := s.taskState.toList.filter (cancels id)
  have hentry : ∀ e, e ∈ hits ↔ s.taskState[e.1]? = some e.2 ∧
      e.2.workflowID = id ∧ e.2.state.terminal = false := by
    intro e
    rw [List.mem_filter, Table.mem_toList_iff]
    simp [cancels]
  have hrun := cancelLoop_run now id s.taskState.toList
    (fun e he => (hk e.1 e.2 ((Table.mem_toList_iff _ e).mp he)).2) [] s
  refine ⟨_, _, commit_of_ok ((run_get_bind _ s).trans hrun), ?_, ?_⟩
  · have hd : (hits.map (·.1)).Nodup :=
      (Table.nodup_toList s.taskState).sublist (List.filter_sublist.map _)
    have hget := Table.get_foldl_insert (fun e : String × TaskStateRecord => e.1)
      (fun e => { e.2 with state := .skipped, lastUpdated := now }) hits
      s.taskState hd
    refine ⟨rfl, rfl, ?_, ?_, ?_⟩
    · intro u hu
      refine (hget u).trans ?_
      rw [List.find?_eq_none.mpr, Option.map_none, Option.none_or]
      · exact hu
      · intro e he heu
        have heq : e.1 = u := by simpa using heu
        have hsome := ((hentry e).mp he).1
        rw [heq, hu] at hsome
        cases hsome
    · intro u r hr hown hopen
      have hid : r.workflowID = id := by
        simpa [ownerOf_of_get hr] using hown
      refine ⟨now, (hget u).trans ?_⟩
      have hfind : hits.find? (fun e => e.1 = u) = some (u, r) := by
        rw [← Table.find_of_nodup hd ((hentry (u, r)).mpr ⟨hr, hid, hopen⟩)]
      rw [hfind, Option.map_some, Option.some_or]
    · intro u r hr hnot
      refine (hget u).trans ?_
      rw [List.find?_eq_none.mpr, Option.map_none, Option.none_or]
      · exact hr
      · intro e he heu
        have heq : e.1 = u := by simpa using heu
        obtain ⟨hsome, hid, hopen⟩ := (hentry e).mp he
        rw [heq, hr] at hsome
        cases hsome
        exact hnot ⟨by rw [ownerOf_of_get hr, hid], hopen⟩
  · intro u
    rw [List.nil_append, List.mem_map]
    constructor
    · rintro ⟨e, he, rfl⟩
      obtain ⟨hr, hid, hopen⟩ := (hentry e).mp he
      rw [(hk _ _ hr).1]
      exact ⟨ownerOf_eq_some.mpr ⟨e.2, hr, hid⟩, e.2, hr, hopen⟩
    · rintro ⟨hown, r, hr, hopen⟩
      rw [ownerOf_of_get hr] at hown
      exact ⟨(u, r), (hentry (u, r)).mpr ⟨hr, by simpa using hown, hopen⟩,
        (hk u r hr).1⟩

/-! ## What a transaction can do to a keyed store -/

section Cases

variable {s : Store} (hk : s.Keyed)
include hk

theorem commit_modifyTask_cases (t : String) (f : TaskStateRecord → TaskStateRecord) :
    (∃ r, s.taskState[t]? = some r ∧
      s.commit (modifyTask t f) = (.ok (), s.setTask t (f r))) ∨
    s.taskState[t]? = none ∧ s.commit (modifyTask t f) = (.error .taskNotFound, s) := by
  cases hr : s.taskState[t]? with
  | none => exact .inr ⟨rfl, commit_modifyTask_absent hr f⟩
  | some r => exact .inl ⟨r, rfl, commit_modifyTask hk hr f⟩

/-- The ways `CompleteTask` can end: the answer and the store after it. -/
inductive CompleteCases (now : Int64) (t e output : String) (s : Store) :
    Except StoreError (List String) × Store → Prop where
  | absent : s.taskState[t]? = none →
      CompleteCases now t e output s (.error .taskNotFound, s)
  | stale {r : TaskStateRecord} : s.taskState[t]? = some r → r.executionID ≠ e →
      CompleteCases now t e output s (.error .staleExecution, s)
  | again {r : TaskStateRecord} : s.taskState[t]? = some r → r.executionID = e →
      r.state = .complete → CompleteCases now t e output s (.ok [], s)
  | done {r : TaskStateRecord} {s' : Store} {ready : List String} :
      s.taskState[t]? = some r → r.executionID = e → r.state ≠ .complete →
      Completion now t output r s s' ready →
      CompleteCases now t e output s (.ok ready, s')

theorem commit_completeTask_cases (now : Int64) (t e output : String) :
    CompleteCases now t e output s (s.commit (completeTask now t e output)) := by
  cases hr : s.taskState[t]? with
  | none =>
    rw [commit_completeTask_absent hr]
    exact .absent hr
  | some r =>
    by_cases he : r.executionID = e
    · by_cases hst : r.state = .complete
      · rw [commit_completeTask_again hr he hst]
        exact .again hr he hst
      · obtain ⟨s', ready, hcommit, hc⟩ := commit_completeTask hk.validKeys hr he hst now output
        rw [hcommit]
        exact .done hr he hst hc
    · rw [commit_completeTask_stale hr he]
      exact .stale hr he

omit hk in
theorem commit_updateWorkflowState_cases (now : Int64) (id : String) (st : WorkflowState) :
    (∃ r, r.state = st ∧
      s.commit (updateWorkflowState now id st) = (.ok (), s.setWorkflowState id r)) ∨
    ∃ e, s.commit (updateWorkflowState now id st) = (.error e, s) := by
  cases hv : validKey id with
  | true => exact .inl ⟨_, nextWorkflowState_state _ _ _ _, commit_updateWorkflowState hv _ _ _⟩
  | false => exact .inr (commit_updateWorkflowState_refused hv _ _ _)

end Cases

/-! ## Views -/

theorem isWorkflowComplete_iff {s : Store} {id : String} :
    s.isWorkflowComplete id = true ↔
      ∀ (u : String) (r : TaskStateRecord), s.taskState[u]? = some r →
        r.workflowID = id → r.state.terminal = true := by
  rw [isWorkflowComplete, List.all_eq_true]
  constructor
  · intro h u r hr hid
    have := h (u, r) ((Table.mem_toList_iff _ (u, r)).mpr hr)
    simpa [hid] using this
  · intro h e he
    have hr := (Table.mem_toList_iff _ e).mp he
    by_cases hid : e.2.workflowID = id
    · simp [h e.1 e.2 hr hid]
    · simp [hid]

/-- Some task of the workflow is `FAILED`. -/
theorem any_failed_iff {s : Store} {id : String} :
    (s.getTaskStatusesForWorkflow id).any (·.state = .failed) = true ↔
      ∃ (u : String) (r : TaskStateRecord), s.taskState[u]? = some r ∧
        r.workflowID = id ∧ r.state = .failed := by
  simp only [getTaskStatusesForWorkflow, List.any_map, List.any_eq_true,
    List.mem_filter, Prod.exists, Function.comp_apply, decide_eq_true_eq]
  constructor
  · rintro ⟨u, r, ⟨hmem, hid⟩, hf⟩
    exact ⟨u, r, (Table.mem_toList_iff _ (u, r)).mp hmem, hid, hf⟩
  · rintro ⟨u, r, hr, hid, hf⟩
    exact ⟨u, r, ⟨(Table.mem_toList_iff _ (u, r)).mpr hr, hid⟩, hf⟩

theorem mem_getTasksInState {s : Store} (hk : s.Keyed) {st : TaskState}
    {u : String} : u ∈ s.getTasksInState st ↔ s.stateOf u = some st := by
  rw [getTasksInState, List.mem_map, stateOf_eq_some]
  constructor
  · rintro ⟨e, he, rfl⟩
    rw [List.mem_filter, Table.mem_toList_iff] at he
    refine ⟨e.2, ?_, by simpa using he.2⟩
    rw [(hk _ _ he.1).1]
    exact he.1
  · rintro ⟨r, hr, hst⟩
    refine ⟨(u, r), ?_, (hk u r hr).1⟩
    rw [List.mem_filter, Table.mem_toList_iff]
    exact ⟨hr, by simpa using hst⟩

theorem nodup_getTasksInState {s : Store} (hk : s.Keyed) (st : TaskState) :
    (s.getTasksInState st).Nodup := by
  have hfst : s.getTasksInState st
      = (s.taskState.toList.filter (·.2.state = st)).map (·.1) := by
    apply List.map_congr_left
    intro e he
    rw [List.mem_filter, Table.mem_toList_iff] at he
    exact (hk _ _ he.1).1
  rw [hfst]
  exact (Table.nodup_toList s.taskState).sublist (List.filter_sublist.map _)

end Store

end DagScheduler
