import DagScheduler.Dag.Search
import DagScheduler.Model.Run

/-!
# Which workflows are accepted

`ValidateAndSort` accepts exactly the workflows whose tasks form a directed
acyclic graph, and reports the first thing that is wrong with any other one.
The maps of an accepted workflow count every dependency, in both directions,
and the tasks that are ready at the start are those that depend on nothing.
-/

namespace DagScheduler

open Lib

/-! ## The verdict -/

/-- Every dependency names a task of the workflow. -/
def WorkflowSpec.Closed (wf : WorkflowSpec) : Prop :=
  ∀ task ∈ wf.tasks, ∀ d ∈ task.dependencies, d ∈ wf.taskIDs

/-- Some task depends on itself, directly or not. -/
def WorkflowSpec.Cyclic (wf : WorkflowSpec) : Prop :=
  ∃ t, Ancestor wf.dependenciesOf t t

/-- The result of `ValidateAndSort` says what is wrong with the workflow. -/
structure VerdictOn (wf : WorkflowSpec) (result : Except DagError DAG) : Prop where
  terminates : result ≠ .error .diverged
  duplicate : result = .error .duplicateTaskID ↔ ¬ wf.taskIDs.Nodup
  missing : wf.taskIDs.Nodup →
    ((∃ t d, result = .error (.missingDependency t d)) ↔ ¬ wf.Closed)
  cyclic : wf.taskIDs.Nodup → wf.Closed →
    ((∃ t, result = .error (.cyclicDAG t)) ↔ wf.Cyclic)
  accepted : wf.taskIDs.Nodup → wf.Closed → ¬ wf.Cyclic → ∃ dag, result = .ok dag

open WorkflowSpec

section Verdict

variable {wf : WorkflowSpec} {orders : DagOrders}

/-- What an error of `ValidateAndSort` says about the workflow. -/
inductive Fault (wf : WorkflowSpec) : DagError → Prop where
  | duplicate : ¬ wf.taskIDs.Nodup → Fault wf .duplicateTaskID
  | missing {t d : String} : wf.taskIDs.Nodup → ¬ wf.Closed → Fault wf (.missingDependency t d)
  | cyclic {t : String} : wf.taskIDs.Nodup → wf.Closed → wf.Cyclic → Fault wf (.cyclicDAG t)

theorem addTasks_error {tasks : List TaskSpec} {dag : DAG} {e : DagError}
    (h : tasks.foldlM DAG.addTask dag = .error e) : e = .duplicateTaskID := by
  obtain ⟨dag', task, -, herr⟩ := foldlM_error h
  unfold DAG.addTask at herr
  split at herr
  · cases herr
    rfl
  · cases herr

/-- The check of a task fails on a dependency that names no task. -/
theorem checkDependencies_error (hd : wf.taskIDs.Nodup) {t : String} {e : DagError}
    (h : wf.taskMaps.checkDependencies t = .error e) :
    ∃ d, e = .missingDependency t d ∧ ¬ wf.Closed := by
  obtain ⟨d, hdep, herr⟩ := forM_error h
  rw [taskMaps_dependencies hd] at hdep
  split at herr
  · cases herr
  · rename_i hno
    cases herr
    rw [mem_taskMaps_tasks hd] at hno
    refine ⟨d, rfl, fun hclosed => hno ?_⟩
    by_cases ht : t ∈ wf.taskIDs
    · obtain ⟨task, htask, rfl⟩ := mem_taskIDs.mp ht
      rw [dependenciesOf_of_mem hd htask] at hdep
      exact hclosed task htask d hdep
    · rw [dependenciesOf_of_not_mem ht] at hdep
      cases hdep

/-- The checks of all tasks succeed exactly on a closed workflow. -/
theorem closed_of_checks (hd : wf.taskIDs.Nodup)
    (h : ∀ t ∈ wf.taskMaps.dependencies, wf.taskMaps.checkDependencies t = .ok ()) :
    wf.Closed := by
  intro task htask d hdep
  have hok := h task.taskId
    ((mem_taskMaps_dependencies hd _).mpr (mem_taskIDs.mpr ⟨task, htask, rfl⟩))
  rw [DAG.checkDependencies, forM_eq_ok_iff, taskMaps_dependencies hd,
    dependenciesOf_of_mem hd htask] at hok
  have hone := hok d hdep
  split at hone
  · rename_i hmem
    exact (mem_taskMaps_tasks hd d).mp hmem
  · cases hone

/-- An error is the right one. -/
theorem fault_of_error {e : DagError} (h : validateAndSort orders wf = .error e) :
    Fault wf e := by
  unfold validateAndSort at h
  rw [bind_eq_error_iff] at h
  rcases h with hadd | ⟨built, hbuilt, h⟩
  · have he := addTasks_error hadd
    subst he
    refine .duplicate fun hd => ?_
    rw [DAG.addTasks_ok.mpr ⟨hd, by simp, rfl⟩] at hadd
    cases hadd
  · obtain ⟨hd, -, rfl⟩ := DAG.addTasks_ok.mp hbuilt
    rw [bind_eq_error_iff] at h
    rcases h with hcheck | ⟨_, hcheck, h⟩
    · obtain ⟨t, -, herr⟩ := forM_error hcheck
      obtain ⟨d, rfl, hopen⟩ := checkDependencies_error hd herr
      exact .missing hd hopen
    · have hclosed := closed_of_checks hd fun t ht => by
        apply (forM_eq_ok_iff _).mp hcheck
        rw [RangeOrder.mem_visit, Std.ExtTreeMap.mem_keys]
        exact ht
      rw [bind_eq_error_iff] at h
      rcases h with hcycle | ⟨_, -, hret⟩
      · have hmaps : ∀ u ∈ (wf.linkedMaps orders.link).tasks,
            ∀ d ∈ (wf.linkedMaps orders.link).depsOf u, d ∈ (wf.linkedMaps orders.link).tasks := by
          intro u hu d hdep
          rw [mem_linkedMaps_tasks hd] at hu ⊢
          rw [depsOf_linkedMaps hd] at hdep
          obtain ⟨task, htask, rfl⟩ := mem_taskIDs.mp hu
          rw [dependenciesOf_of_mem hd htask] at hdep
          exact hclosed task htask d hdep
        obtain ⟨t, rfl, hself⟩ := DAG.hasCycle_error hmaps hcycle
        rw [depsOf_linkedMaps hd] at hself
        exact .cyclic hd hclosed ⟨t, hself⟩
      · cases hret

/-- Nothing is wrong with an accepted workflow. -/
theorem sane_of_ok {dag : DAG} (h : validateAndSort orders wf = .ok dag) :
    wf.taskIDs.Nodup ∧ wf.Closed ∧ ¬ wf.Cyclic := by
  have hacc := accepted_of_ok h
  refine ⟨hacc.nodup, fun task htask d hdep => ?_, ?_⟩
  · refine hacc.closed task.taskId d ?_
    rw [dependenciesOf_of_mem hacc.nodup htask]
    exact hdep
  · rintro ⟨t, hself⟩
    exact Ancestor.irrefl (hacc.ends t) hself

/-- `ValidateAndSort` ends, and its result is right, for every workflow and
every order in which the maps are visited. -/
theorem validateAndSort_verdict (orders : DagOrders) (wf : WorkflowSpec) :
    VerdictOn wf (validateAndSort orders wf) := by
  cases hres : validateAndSort orders wf with
  | ok dag =>
    obtain ⟨hd, hclosed, hcyclic⟩ := sane_of_ok hres
    exact ⟨by simp, by simp [hd], fun _ => by simp [hclosed], fun _ _ => by simp [hcyclic],
      fun _ _ _ => ⟨dag, rfl⟩⟩
  | error e =>
    cases fault_of_error hres with
    | duplicate hd =>
      exact ⟨by simp, by simp [hd], fun h => absurd h hd, fun h => absurd h hd,
        fun h => absurd h hd⟩
    | missing hd hopen =>
      exact ⟨by simp, by simp [hd], fun _ => by simp [hopen], fun _ h => absurd h hopen,
        fun _ h => absurd h hopen⟩
    | cyclic hd hclosed hcyclic =>
      exact ⟨by simp, by simp [hd], fun _ => by simp [hclosed], fun _ _ => by simp [hcyclic],
        fun _ _ h => absurd hcyclic h⟩

end Verdict

/-! ## The maps -/

/-- The maps of an accepted workflow. -/
structure ExactMaps (wf : WorkflowSpec) (dag : DAG) : Prop where
  downstream : ∀ d ∈ wf.taskIDs, ∀ task ∈ wf.tasks,
    (dag.downstream.getD d []).count task.taskId = task.dependencies.count d
  inDegree : ∀ task ∈ wf.tasks, ∃ n, dag.inDegree[task.taskId]? = some n ∧
    n.toInt = task.dependencies.length ∧
    n.toInt = (dag.downstream.toList.map fun entry => entry.2.count task.taskId).sum
  ready : ∀ (order : RangeOrder String) (t : String), t ∈ dag.getReadyTasks order ↔
    ∃ task ∈ wf.tasks, task.taskId = t ∧ task.dependencies = []
  once : ∀ order : RangeOrder String, (dag.getReadyTasks order).Nodup
  nonempty : wf.tasks ≠ [] → ∀ order : RangeOrder String, dag.getReadyTasks order ≠ []

/-- The entries of a list, counted over distinct keys that cover it. -/
theorem sum_count_of_subset {keys l : List String} (hkeys : keys.Nodup)
    (hl : ∀ d ∈ l, d ∈ keys) : (keys.map fun d => l.count d).sum = l.length := by
  rw [← List.sum_toFinset _ hkeys, ← List.sum_toFinset_count_eq_length l]
  refine (Finset.sum_subset (fun d hd => ?_) fun d _ hd => ?_).symm
  · rw [List.mem_toFinset] at hd ⊢
    exact hl d hd
  · rw [List.mem_toFinset] at hd
    exact List.count_eq_zero_of_not_mem hd

section Maps

variable {wf : WorkflowSpec} {dag : DAG} {task : TaskSpec}

/-- The occurrences of a task over all downstream lists. -/
theorem Accepted.sum_downstream (hacc : Accepted wf dag) (htask : task ∈ wf.tasks) :
    (dag.downstream.toList.map fun entry => entry.2.count task.taskId).sum
      = task.dependencies.length := by
  have hcount : ∀ d, (dag.downstream.getD d []).count task.taskId = task.dependencies.count d := by
    intro d
    rw [hacc.downstream, dependenciesOf_of_mem hacc.nodup htask]
  have hlists : (dag.downstream.toList.map fun entry => entry.2.count task.taskId)
      = dag.downstream.keys.map fun d => task.dependencies.count d := by
    rw [← Std.ExtTreeMap.map_fst_toList_eq_keys, List.map_map]
    refine List.map_congr_left fun entry hentry => ?_
    rw [Table.mem_toList_iff] at hentry
    rw [Function.comp_apply, ← hcount, Table.getD_eq, hentry, Option.getD_some]
  rw [hlists]
  refine sum_count_of_subset (Table.nodup_keys _) fun d hdep => ?_
  rw [Std.ExtTreeMap.mem_keys, Table.mem_iff_get]
  cases hget : dag.downstream[d]? with
  | some l => exact ⟨l, rfl⟩
  | none =>
    have hzero := hcount d
    rw [Table.getD_eq, hget, Option.getD_none, List.count_nil, eq_comm,
      List.count_eq_zero] at hzero
    exact absurd hdep hzero

theorem Accepted.mem_ready_iff (hacc : Accepted wf dag)
    (hbound : ∀ task ∈ wf.tasks, task.dependencies.length < 2 ^ 31) (order : RangeOrder String)
    (t : String) : t ∈ dag.getReadyTasks order ↔
      ∃ task ∈ wf.tasks, task.taskId = t ∧ task.dependencies = [] := by
  rw [hacc.mem_getReadyTasks, mem_taskIDs]
  constructor
  · rintro ⟨⟨task, htask, rfl⟩, hzero⟩
    rw [dependenciesOf_of_mem hacc.nodup htask] at hzero
    refine ⟨task, htask, rfl, List.length_eq_zero_iff.mp ?_⟩
    have hlen := congrArg Int32.toInt hzero
    rw [Int32.toInt_ofNat_of_lt (hbound task htask)] at hlen
    exact Int.ofNat.inj hlen
  · rintro ⟨task, htask, rfl, hnil⟩
    refine ⟨⟨task, htask, rfl⟩, ?_⟩
    rw [dependenciesOf_of_mem hacc.nodup htask, hnil]
    rfl

/-- Below every task there is one that depends on nothing. -/
theorem Accepted.exists_root (hacc : Accepted wf dag) (htask : task ∈ wf.tasks) :
    ∃ root ∈ wf.tasks, root.dependencies = [] := by
  obtain ⟨t, ht, hfront, -⟩ := exists_frontier (· ∈ wf.taskIDs) (hacc.ends task.taskId)
    (mem_taskIDs.mpr ⟨task, htask, rfl⟩)
  obtain ⟨root, hroot, rfl⟩ := mem_taskIDs.mp ht
  refine ⟨root, hroot, List.eq_nil_iff_forall_not_mem.mpr fun d hdep => ?_⟩
  rw [← dependenciesOf_of_mem hacc.nodup hroot] at hdep
  exact hfront d hdep (hacc.closed root.taskId d hdep)

/-- The maps of an accepted workflow are exact, in whatever order they were
built. -/
theorem exactMaps_of_ok {orders : DagOrders} (h : validateAndSort orders wf = .ok dag)
    (hbound : ∀ task ∈ wf.tasks, task.dependencies.length < 2 ^ 31) : ExactMaps wf dag := by
  have hacc := accepted_of_ok h
  refine ⟨fun d _ task htask => ?_, fun task htask => ?_, hacc.mem_ready_iff hbound,
    Accepted.nodup_getReadyTasks, fun hne order hnil => ?_⟩
  · rw [hacc.downstream, dependenciesOf_of_mem hacc.nodup htask]
  · obtain ⟨n, hn⟩ := (Table.mem_iff_get _ _).mp
      ((hacc.mem_inDegree task.taskId).mpr (mem_taskIDs.mpr ⟨task, htask, rfl⟩))
    have hval : n = Int32.ofNat task.dependencies.length := by
      have hget := hacc.inDegree task.taskId
      rw [Table.getD_eq, hn, Option.getD_some, dependenciesOf_of_mem hacc.nodup htask] at hget
      exact hget
    refine ⟨n, hn, ?_, ?_⟩
    · rw [hval, Int32.toInt_ofNat_of_lt (hbound task htask)]
    · rw [hval, Int32.toInt_ofNat_of_lt (hbound task htask), hacc.sum_downstream htask]
  · obtain ⟨task, htask⟩ := List.exists_mem_of_ne_nil _ hne
    obtain ⟨root, hroot, hnone⟩ := hacc.exists_root htask
    have hin := (hacc.mem_ready_iff hbound order root.taskId).mpr ⟨root, hroot, rfl, hnone⟩
    rw [hnil] at hin
    cases hin

/-- The workflow in which a task names its only dependency twice. -/
theorem exactMaps_pair : ∃ dag, validateAndSort .asListed (.pair .failFast 1) = .ok dag ∧
    ExactMaps (.pair .failFast 1) dag := by
  have hok : (validateAndSort .asListed (.pair .failFast 1)).isOk = true := by decide
  cases h : validateAndSort .asListed (.pair .failFast 1) with
  | error e =>
    rw [h] at hok
    cases hok
  | ok dag => exact ⟨dag, rfl, exactMaps_of_ok h (by decide)⟩

end Maps

end DagScheduler
