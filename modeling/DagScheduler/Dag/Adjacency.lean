import DagScheduler.Lib.Dependency
import DagScheduler.Lib.Loop
import DagScheduler.Model.Dag

/-!
# The tables that the resolver builds

What `validateAndSort` puts into its four maps, for every workflow and every
order of the map ranges.

* `addTasks_ok`: the first loop succeeds only on distinct task IDs, and then
  the maps hold each task with its dependencies.
* `linkTasks_downstream` and `linkTasks_inDegree`: the second loop counts
  each dependency once in each direction, repetitions included.
* `WorkflowSpec.dependenciesOf` is the dependency list of a task ID, read
  off the message.
-/

namespace DagScheduler

open Lib

/-- The task of a workflow with a given ID. -/
def WorkflowSpec.findTask (wf : WorkflowSpec) (taskID : String) :
    Option TaskSpec :=
  wf.tasks.find? fun task => task.taskId = taskID

/-- The dependency list of a task ID. -/
def WorkflowSpec.dependenciesOf (wf : WorkflowSpec) (taskID : String) :
    List String :=
  ((wf.findTask taskID).map (·.dependencies)).getD []

namespace WorkflowSpec

variable {wf : WorkflowSpec} {taskID : String} {task : TaskSpec}

theorem mem_of_findTask (h : wf.findTask taskID = some task) :
    task ∈ wf.tasks ∧ task.taskId = taskID :=
  ⟨List.mem_of_find?_eq_some h, by simpa using List.find?_some h⟩

theorem findTask_isSome_iff : (wf.findTask taskID).isSome ↔ taskID ∈ wf.taskIDs := by
  rw [findTask, List.find?_isSome, mem_taskIDs]
  simp

theorem findTask_of_mem (hd : wf.taskIDs.Nodup) (h : task ∈ wf.tasks) :
    wf.findTask task.taskId = some task := by
  obtain ⟨found, hfound⟩ := Option.isSome_iff_exists.mp
    (findTask_isSome_iff.mpr (mem_taskIDs.mpr ⟨task, h, rfl⟩))
  obtain ⟨hmem, hid⟩ := mem_of_findTask hfound
  rw [hfound, List.inj_on_of_nodup_map hd hmem h hid]

theorem dependenciesOf_of_mem (hd : wf.taskIDs.Nodup) (h : task ∈ wf.tasks) :
    wf.dependenciesOf task.taskId = task.dependencies := by
  simp [dependenciesOf, findTask_of_mem hd h]

theorem dependenciesOf_of_not_mem (h : taskID ∉ wf.taskIDs) :
    wf.dependenciesOf taskID = [] := by
  have hnone : wf.findTask taskID = none := by
    rw [← Option.not_isSome_iff_eq_none, findTask_isSome_iff]
    exact h
  simp [dependenciesOf, hnone]

end WorkflowSpec

namespace DAG

/-! ## The task map -/

/-- The maps after the tasks of a list have been added. -/
def withTasks (dag : DAG) (tasks : List TaskSpec) : DAG :=
  { tasks := tasks.foldl (fun m task => m.insert task.taskId task) dag.tasks
    inDegree := tasks.foldl (fun m task => m.insert task.taskId 0) dag.inDegree
    dependencies :=
      tasks.foldl (fun m task => m.insert task.taskId task.dependencies)
        dag.dependencies
    downstream := tasks.foldl (fun m task => m.insert task.taskId []) dag.downstream }

theorem addTask_eq_ok_iff {dag dag' : DAG} {task : TaskSpec} :
    dag.addTask task = .ok dag' ↔
      task.taskId ∉ dag.tasks ∧ dag' = dag.withTasks [task] := by
  unfold addTask
  split
  · rename_i h
    simp [h]
  · rename_i h
    simp only [Except.ok.injEq, h, not_false_eq_true, true_and]
    exact eq_comm

theorem mem_withTasks {dag : DAG} {tasks : List TaskSpec} {k : String} :
    k ∈ (dag.withTasks tasks).tasks ↔
      (∃ task ∈ tasks, task.taskId = k) ∨ k ∈ dag.tasks := by
  induction tasks generalizing dag with
  | nil => simp [withTasks]
  | cons task tasks ih =>
    have h : dag.withTasks (task :: tasks)
        = (dag.withTasks [task]).withTasks tasks := rfl
    rw [h, ih]
    simp only [withTasks, List.foldl_cons, List.foldl_nil,
      Std.ExtTreeMap.mem_insert, Std.LawfulEqCmp.compare_eq_iff_eq,
      List.mem_cons, exists_eq_or_imp]
    exact or_left_comm.trans or_assoc.symm

/-- The first loop succeeds exactly on distinct new task IDs, and then adds
all of the tasks. -/
theorem addTasks_ok {dag dag' : DAG} {tasks : List TaskSpec} :
    tasks.foldlM addTask dag = .ok dag' ↔
      (tasks.map (·.taskId)).Nodup ∧ (∀ task ∈ tasks, task.taskId ∉ dag.tasks) ∧
        dag' = dag.withTasks tasks := by
  induction tasks generalizing dag with
  | nil =>
    simp only [List.foldlM_nil, pure, Except.pure, Except.ok.injEq,
      List.map_nil, List.nodup_nil, List.not_mem_nil, false_implies,
      implies_true, true_and]
    exact eq_comm
  | cons task tasks ih =>
    rw [List.foldlM_cons, bind_eq_ok_iff]
    constructor
    · rintro ⟨mid, hmid, hrest⟩
      obtain ⟨hnew, rfl⟩ := addTask_eq_ok_iff.mp hmid
      obtain ⟨hnodup, hfresh, hdag⟩ := ih.mp hrest
      refine ⟨?_, ?_, hdag⟩
      · rw [List.map_cons, List.nodup_cons]
        refine ⟨?_, hnodup⟩
        intro hmem
        obtain ⟨other, hother, hid⟩ := List.mem_map.mp hmem
        exact hfresh other hother
          (mem_withTasks.mpr (.inl ⟨task, by simp, hid.symm⟩))
      · intro other hother
        rcases List.mem_cons.mp hother with rfl | hin
        · exact hnew
        · exact fun hmem => hfresh other hin (mem_withTasks.mpr (.inr hmem))
    · rintro ⟨hnodup, hfresh, hdag⟩
      rw [List.map_cons, List.nodup_cons] at hnodup
      refine ⟨dag.withTasks [task],
        addTask_eq_ok_iff.mpr ⟨hfresh task (by simp), rfl⟩,
        ih.mpr ⟨hnodup.2, ?_, hdag⟩⟩
      intro other hother hmem
      rcases mem_withTasks.mp hmem with ⟨t, ht, hid⟩ | hold
      · rw [List.mem_singleton.mp ht] at hid
        exact hnodup.1 (List.mem_map.mpr ⟨other, hother, hid.symm⟩)
      · exact hfresh other (by simp [hother]) hold

/-! ## The edges -/

@[simp] theorem addEdge_dependencies (dag : DAG) (taskID dep : String) :
    (addEdge taskID dag dep).dependencies = dag.dependencies := rfl

@[simp] theorem addEdge_tasks (dag : DAG) (taskID dep : String) :
    (addEdge taskID dag dep).tasks = dag.tasks := rfl

theorem foldl_addEdge_static (taskID : String) (deps : List String) (dag : DAG) :
    (deps.foldl (addEdge taskID) dag).dependencies = dag.dependencies ∧
      (deps.foldl (addEdge taskID) dag).tasks = dag.tasks := by
  induction deps generalizing dag with
  | nil => exact ⟨rfl, rfl⟩
  | cons dep deps ih => exact ih (addEdge taskID dag dep)

@[simp] theorem linkTask_dependencies (dag : DAG) (taskID : String) :
    (dag.linkTask taskID).dependencies = dag.dependencies :=
  (foldl_addEdge_static taskID _ dag).1

@[simp] theorem linkTask_tasks (dag : DAG) (taskID : String) :
    (dag.linkTask taskID).tasks = dag.tasks :=
  (foldl_addEdge_static taskID _ dag).2

theorem foldl_linkTask_static (taskIDs : List String) (dag : DAG) :
    (taskIDs.foldl linkTask dag).dependencies = dag.dependencies ∧
      (taskIDs.foldl linkTask dag).tasks = dag.tasks := by
  induction taskIDs generalizing dag with
  | nil => exact ⟨rfl, rfl⟩
  | cons taskID taskIDs ih =>
    have h := ih (dag.linkTask taskID)
    rw [linkTask_dependencies, linkTask_tasks] at h
    exact h

private theorem foldl_addEdge_count (u t d : String) (deps : List String)
    (dag : DAG) :
    ((deps.foldl (addEdge u) dag).downstream.getD d []).count t
      = (dag.downstream.getD d []).count t
        + if u = t then deps.count d else 0 := by
  induction deps generalizing dag with
  | nil => simp
  | cons dep deps ih =>
    rw [List.foldl_cons, ih]
    have hstep : ((addEdge u dag dep).downstream.getD d []).count t
        = (dag.downstream.getD d []).count t
          + if u = t ∧ dep = d then 1 else 0 := by
      simp only [addEdge, Table.getD_eq, Table.get_insert]
      by_cases hd : dep = d
      · subst hd
        by_cases ht : u = t <;> simp [ht]
      · simp [hd]
    rw [hstep]
    by_cases ht : u = t
    · by_cases hd : dep = d
      · simp [ht, hd]
        omega
      · simp [ht, hd]
    · simp [ht]

/-- The second loop lists `t` downstream of `d` once for each time that `t`
names `d`. -/
theorem linkTasks_downstream (taskIDs : List String) (dag : DAG) (t d : String) :
    ((taskIDs.foldl linkTask dag).downstream.getD d []).count t
      = (dag.downstream.getD d []).count t
        + taskIDs.count t * (dag.dependencies.getD t []).count d := by
  induction taskIDs generalizing dag with
  | nil => simp
  | cons u taskIDs ih =>
    rw [List.foldl_cons, ih, linkTask_dependencies, linkTask,
      foldl_addEdge_count]
    by_cases h : u = t
    · subst h
      rw [if_pos rfl, List.count_cons_self, Nat.succ_mul]
      omega
    · rw [if_neg h, List.count_cons_of_ne h, Nat.add_zero]

private theorem foldl_addEdge_inDegree (u t : String) (deps : List String)
    (dag : DAG) :
    (deps.foldl (addEdge u) dag).inDegree.getD t 0
      = dag.inDegree.getD t 0 + if u = t then Int32.ofNat deps.length else 0 := by
  induction deps generalizing dag with
  | nil => by_cases h : u = t <;> simp [h]
  | cons dep deps ih =>
    rw [List.foldl_cons, ih]
    simp only [addEdge, Table.getD_eq, Table.get_insert]
    by_cases h : u = t
    · subst h
      simp only [if_pos, Option.getD_some, List.length_cons, Int32.ofNat_add]
      rw [Int32.add_assoc, Int32.add_comm 1]
      rfl
    · simp [h]

/-- The second loop raises the in-degree of `t` by the length of its
dependency list. -/
theorem linkTasks_inDegree (taskIDs : List String) (dag : DAG) (t : String) :
    (taskIDs.foldl linkTask dag).inDegree.getD t 0
      = dag.inDegree.getD t 0
        + Int32.ofNat (taskIDs.count t * (dag.dependencies.getD t []).length) := by
  induction taskIDs generalizing dag with
  | nil => simp
  | cons u taskIDs ih =>
    rw [List.foldl_cons, ih, linkTask_dependencies, linkTask,
      foldl_addEdge_inDegree]
    by_cases h : u = t
    · subst h
      rw [if_pos rfl, List.count_cons_self, Nat.succ_mul, Int32.ofNat_add,
        Int32.add_assoc, Int32.add_comm (Int32.ofNat _)]
    · rw [if_neg h, List.count_cons_of_ne h, Int32.add_zero]

private theorem foldl_addEdge_mem (u : String) (deps : List String) (dag : DAG)
    (hu : u ∈ dag.inDegree) (k : String) :
    k ∈ (deps.foldl (addEdge u) dag).inDegree ↔ k ∈ dag.inDegree := by
  induction deps generalizing dag with
  | nil => rfl
  | cons dep deps ih =>
    have hmem : ∀ j, j ∈ (addEdge u dag dep).inDegree ↔ j ∈ dag.inDegree := by
      intro j
      simp only [addEdge, Std.ExtTreeMap.mem_insert,
        Std.LawfulEqCmp.compare_eq_iff_eq]
      constructor
      · rintro (rfl | h)
        · exact hu
        · exact h
      · exact .inr
    rw [List.foldl_cons, ih _ ((hmem u).mpr hu), hmem]

/-- The second loop adds no key to the in-degree map. -/
theorem linkTasks_mem_inDegree (taskIDs : List String) (dag : DAG)
    (h : ∀ u ∈ taskIDs, u ∈ dag.inDegree) (k : String) :
    k ∈ (taskIDs.foldl linkTask dag).inDegree ↔ k ∈ dag.inDegree := by
  induction taskIDs generalizing dag with
  | nil => rfl
  | cons u taskIDs ih =>
    have hu : u ∈ dag.inDegree := h u (by simp)
    have hlink := foldl_addEdge_mem u (dag.dependencies.getD u []) dag hu
    rw [List.foldl_cons, ih, linkTask, hlink]
    intro v hv
    rw [linkTask, hlink]
    exact h v (by simp [hv])

end DAG

end DagScheduler
