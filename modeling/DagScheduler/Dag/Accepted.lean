import DagScheduler.Dag.Adjacency

/-!
# What an accepted workflow looks like

`validateAndSort` answers a `DAG` only for a workflow with distinct task
IDs, with dependencies inside the workflow, and without a cycle.  The last
fact comes from the depth-first search.  Its invariant is about the black
tasks alone: the descent along the dependencies of a black task ends.  A
task turns black when all of its dependencies are black, so the invariant is
one application of `Acc.intro`, and the gray tasks only matter for the roots,
where a task that is no longer white must be black.

`Accepted` collects what the other modules use of an accepted workflow, and
`WorkflowSpec.WellFormed` is what remains of it once the maps are gone.
-/

namespace DagScheduler

open Lib

namespace DAG

/-- The dependency list that the search follows. -/
def depsOf (dag : DAG) (taskID : String) : List String :=
  dag.dependencies.getD taskID []

/-- The colour that the search reads. -/
abbrev colorOf (color : Table String Color) (taskID : String) : Color :=
  color.getD taskID .white

theorem colorOf_insert (color : Table String Color) (t u : String) (c : Color) :
    colorOf (color.insert t c) u = if t = u then c else colorOf color u := by
  simp only [colorOf, Table.getD_eq, Table.get_insert]
  split <;> rfl

/-- The descent from every black task ends. -/
def BlackEnds (dag : DAG) (color : Table String Color) : Prop :=
  ∀ u, colorOf color u = .black → Acc (Precedes dag.depsOf) u

/-- What a visit may do to the colours: black tasks stay black, and no new
gray task is left behind. -/
structure Darkens (color color' : Table String Color) : Prop where
  black : ∀ u, colorOf color u = .black → colorOf color' u = .black
  gray : ∀ u, colorOf color' u = .gray → colorOf color u = .gray

theorem Darkens.refl (color : Table String Color) : Darkens color color :=
  ⟨fun _ h => h, fun _ h => h⟩

theorem Darkens.trans {a b c : Table String Color} (hab : Darkens a b)
    (hbc : Darkens b c) : Darkens a c :=
  ⟨fun u h => hbc.black u (hab.black u h), fun u h => hab.gray u (hbc.gray u h)⟩

/-- A visit of a list of tasks, given what one visit does.  All of the tasks
are black afterwards. -/
private theorem foldlM_visit {dag : DAG} {fuel : Nat}
    (hvisit : ∀ {color color' : Table String Color} {t : String},
      dag.BlackEnds color → visit dag fuel color t = .ok color' →
      dag.BlackEnds color' ∧ Darkens color color' ∧ colorOf color' t = .black)
    (ts : List String) {color color' : Table String Color}
    (hblack : dag.BlackEnds color)
    (h : ts.foldlM (visit dag fuel) color = .ok color') :
    dag.BlackEnds color' ∧ Darkens color color' ∧
      ∀ t ∈ ts, colorOf color' t = .black := by
  induction ts generalizing color with
  | nil =>
    have heq : color = color' := by simpa [pure, Except.pure] using h
    subst heq
    exact ⟨hblack, Darkens.refl color, by simp⟩
  | cons t ts ih =>
    rw [List.foldlM_cons, bind_eq_ok_iff] at h
    obtain ⟨mid, hmid, hrest⟩ := h
    obtain ⟨hblackMid, hdark, ht⟩ := hvisit hblack hmid
    obtain ⟨hblack', hdark', hts⟩ := ih hblackMid hrest
    refine ⟨hblack', hdark.trans hdark', ?_⟩
    intro u hu
    rcases List.mem_cons.mp hu with rfl | hin
    · exact hdark'.black _ ht
    · exact hts u hin

/-- A visit that returns leaves its task black, and the descent from every
black task ends. -/
theorem visit_ok {dag : DAG} (fuel : Nat) :
    ∀ {color color' : Table String Color} {t : String},
      dag.BlackEnds color → visit dag fuel color t = .ok color' →
      dag.BlackEnds color' ∧ Darkens color color' ∧ colorOf color' t = .black := by
  induction fuel with
  | zero =>
    intro color color' t _ h
    simp [visit] at h
  | succ fuel ih =>
    intro color color' t hblack h
    rw [visit] at h
    split at h
    · cases h
    · rename_i hc
      cases h
      exact ⟨hblack, Darkens.refl color, hc⟩
    · rename_i hc
      rw [bind_eq_ok_iff] at h
      obtain ⟨mid, hmid, heq⟩ := h
      have hmid' : mid.insert t .black = color' := by
        simpa [pure, Except.pure] using heq
      subst hmid'
      have hgray : dag.BlackEnds (color.insert t .gray) := by
        intro u hu
        rw [colorOf_insert] at hu
        split at hu
        · cases hu
        · exact hblack u hu
      obtain ⟨hblackMid, hdark, hdeps⟩ := foldlM_visit ih _ hgray hmid
      refine ⟨?_, ⟨?_, ?_⟩, ?_⟩
      · -- `t` turns black after all of its dependencies.
        intro u hu
        rw [colorOf_insert] at hu
        split at hu
        · rename_i htu
          subst htu
          exact Acc.intro _ fun d hd => hblackMid d (hdeps d hd)
        · exact hblackMid u hu
      · intro u hu
        rw [colorOf_insert]
        split
        · rfl
        · rename_i htu
          apply hdark.black
          rw [colorOf_insert, if_neg htu]
          exact hu
      · intro u hu
        rw [colorOf_insert] at hu
        split at hu
        · cases hu
        · rename_i htu
          have hg := hdark.gray u hu
          rw [colorOf_insert, if_neg htu] at hg
          exact hg
      · rw [colorOf_insert, if_pos rfl]

theorem colorOf_white (keys : List String) (color : Table String Color)
    (h : ∀ u, colorOf color u = .white) (u : String) :
    colorOf (keys.foldl (·.insert · .white) color) u = .white := by
  induction keys generalizing color with
  | nil => exact h u
  | cons k keys ih =>
    apply ih
    intro v
    rw [colorOf_insert, h v, ite_self]

/-- The roots loop of `hasCycle`: no task is gray between two roots, so a
root that is not white is black. -/
private theorem roots_ok {dag : DAG} {fuel : Nat} (ts : List String)
    {color color' : Table String Color} (hblack : dag.BlackEnds color)
    (hnogray : ∀ u, colorOf color u ≠ .gray)
    (h : ts.foldlM
      (fun color t =>
        if color.getD t .white = .white then visit dag fuel color t
        else .ok color) color = .ok color') :
    dag.BlackEnds color' ∧ Darkens color color' ∧
      ∀ t ∈ ts, colorOf color' t = .black := by
  induction ts generalizing color with
  | nil =>
    have heq : color = color' := by simpa [pure, Except.pure] using h
    subst heq
    exact ⟨hblack, Darkens.refl color, by simp⟩
  | cons t ts ih =>
    rw [List.foldlM_cons, bind_eq_ok_iff] at h
    obtain ⟨mid, hmid, hrest⟩ := h
    have hroot : dag.BlackEnds mid ∧ Darkens color mid ∧ colorOf mid t = .black := by
      split at hmid
      · exact visit_ok fuel hblack hmid
      · rename_i hw
        cases hmid
        refine ⟨hblack, Darkens.refl color, ?_⟩
        cases hc : colorOf color t with
        | white => exact absurd hc hw
        | gray => exact absurd hc (hnogray t)
        | black => rfl
    obtain ⟨hblackMid, hdark, ht⟩ := hroot
    obtain ⟨hblack', hdark', hts⟩ :=
      ih hblackMid (fun u hu => hnogray u (hdark.gray u hu)) hrest
    refine ⟨hblack', hdark.trans hdark', ?_⟩
    intro u hu
    rcases List.mem_cons.mp hu with rfl | hin
    · exact hdark'.black _ ht
    · exact hts u hin

/-- If `hasCycle` finds nothing, the descent from every task ends. -/
theorem hasCycle_ok {order : RangeOrder String} {dag : DAG}
    (h : dag.hasCycle order = .ok ()) {t : String} (ht : t ∈ dag.tasks) :
    Acc (Precedes dag.depsOf) t := by
  unfold hasCycle at h
  rw [bind_eq_ok_iff] at h
  obtain ⟨color, hcolor, _⟩ := h
  have hwhite := colorOf_white dag.tasks.keys ∅
    (fun u => by simp [colorOf, Table.getD_eq])
  obtain ⟨hblack, _, hall⟩ := roots_ok _
    (fun u hu => by rw [hwhite u] at hu; cases hu)
    (fun u hu => by rw [hwhite u] at hu; cases hu) hcolor
  apply hblack
  apply hall
  rw [RangeOrder.mem_visit, Std.ExtTreeMap.mem_keys]
  exact ht

end DAG

/-- What `validateAndSort` guarantees of the workflow it accepts and of the
maps it answers. -/
structure Accepted (wf : WorkflowSpec) (dag : DAG) : Prop where
  nodup : wf.taskIDs.Nodup
  tasks : ∀ t, dag.tasks[t]? = wf.findTask t
  closed : ∀ t, ∀ d ∈ wf.dependenciesOf t, d ∈ wf.taskIDs
  downstream : ∀ d t,
    (dag.downstream.getD d []).count t = (wf.dependenciesOf t).count d
  inDegree : ∀ t,
    dag.inDegree.getD t 0 = Int32.ofNat (wf.dependenciesOf t).length
  mem_inDegree : ∀ t, t ∈ dag.inDegree ↔ t ∈ wf.taskIDs
  ends : ∀ t, Acc (Precedes wf.dependenciesOf) t

/-! ## The maps of the first loop -/

namespace WorkflowSpec

variable {wf : WorkflowSpec}

/-- The maps after the first loop of `validateAndSort`. -/
abbrev taskMaps (wf : WorkflowSpec) : DAG := ({} : DAG).withTasks wf.tasks

private theorem get_foldl_tasks {V : Type} (val : TaskSpec → V)
    (hd : wf.taskIDs.Nodup) (t : String) :
    (wf.tasks.foldl (fun m task => m.insert task.taskId (val task))
      (∅ : Table String V))[t]? = (wf.findTask t).map val := by
  rw [Table.get_foldl_insert (fun task : TaskSpec => task.taskId) val wf.tasks ∅ hd,
    findTask]
  cases wf.tasks.find? (fun x => x.taskId = t) <;> simp

private theorem mem_foldl_tasks {V : Type} (val : TaskSpec → V)
    (hd : wf.taskIDs.Nodup) (t : String) :
    t ∈ wf.tasks.foldl (fun m task => m.insert task.taskId (val task))
      (∅ : Table String V) ↔ t ∈ wf.taskIDs := by
  rw [Std.ExtTreeMap.mem_iff_isSome_getElem?, get_foldl_tasks val hd,
    Option.isSome_map, findTask_isSome_iff]

theorem taskMaps_tasks (hd : wf.taskIDs.Nodup) (t : String) :
    wf.taskMaps.tasks[t]? = wf.findTask t :=
  (get_foldl_tasks id hd t).trans (by simp)

theorem mem_taskMaps_tasks (hd : wf.taskIDs.Nodup) (t : String) :
    t ∈ wf.taskMaps.tasks ↔ t ∈ wf.taskIDs :=
  mem_foldl_tasks id hd t

theorem taskMaps_dependencies (hd : wf.taskIDs.Nodup) (t : String) :
    wf.taskMaps.dependencies.getD t [] = wf.dependenciesOf t := by
  rw [Table.getD_eq]
  exact congrArg (·.getD []) (get_foldl_tasks (·.dependencies) hd t)

theorem mem_taskMaps_dependencies (hd : wf.taskIDs.Nodup) (t : String) :
    t ∈ wf.taskMaps.dependencies ↔ t ∈ wf.taskIDs :=
  mem_foldl_tasks (·.dependencies) hd t

theorem mem_taskMaps_inDegree (hd : wf.taskIDs.Nodup) (t : String) :
    t ∈ wf.taskMaps.inDegree ↔ t ∈ wf.taskIDs :=
  mem_foldl_tasks (fun _ => (0 : Int32)) hd t

private theorem getD_foldl_const {V : Type} (v : V) (hd : wf.taskIDs.Nodup)
    (t : String) :
    (wf.tasks.foldl (fun m task => m.insert task.taskId v)
      (∅ : Table String V)).getD t v = v := by
  rw [Table.getD_eq, get_foldl_tasks (fun _ => v) hd]
  cases wf.findTask t <;> rfl

theorem taskMaps_downstream (hd : wf.taskIDs.Nodup) (t : String) :
    wf.taskMaps.downstream.getD t [] = [] := getD_foldl_const [] hd t

theorem taskMaps_inDegree (hd : wf.taskIDs.Nodup) (t : String) :
    wf.taskMaps.inDegree.getD t 0 = 0 := getD_foldl_const 0 hd t

/-- The keys that the linking loop visits, each once. -/
theorem count_link_keys (order : RangeOrder String) (hd : wf.taskIDs.Nodup)
    (t : String) :
    (order.visit wf.taskMaps.dependencies.keys).count t
      = if t ∈ wf.taskIDs then 1 else 0 := by
  have hmem : t ∈ order.visit wf.taskMaps.dependencies.keys ↔ t ∈ wf.taskIDs := by
    rw [RangeOrder.mem_visit, Std.ExtTreeMap.mem_keys, mem_taskMaps_dependencies hd]
  split
  · rename_i ht
    exact List.count_eq_one_of_mem (order.nodup_visit (Table.nodup_keys _))
      (hmem.mpr ht)
  · rename_i ht
    exact List.count_eq_zero_of_not_mem fun h => ht (hmem.mp h)

end WorkflowSpec

open WorkflowSpec

/-- What the three checks of `validateAndSort` leave: the task IDs are
distinct, every dependency list passes, and the linked maps have no cycle. -/
theorem validateAndSort_ok {orders : DagOrders} {wf : WorkflowSpec} {dag : DAG}
    (h : validateAndSort orders wf = .ok dag) :
    wf.taskIDs.Nodup ∧
      (∀ t ∈ wf.taskMaps.dependencies, wf.taskMaps.checkDependencies t = .ok ()) ∧
      dag = (orders.link.visit wf.taskMaps.dependencies.keys).foldl
        DAG.linkTask wf.taskMaps ∧
      dag.hasCycle orders.search = .ok () := by
  unfold validateAndSort at h
  rw [bind_eq_ok_iff] at h
  obtain ⟨built, hbuilt, h⟩ := h
  obtain ⟨hd, _, rfl⟩ := DAG.addTasks_ok.mp hbuilt
  rw [bind_eq_ok_iff] at h
  obtain ⟨_, hcheck, h⟩ := h
  rw [bind_eq_ok_iff] at h
  obtain ⟨_, hcycle, h⟩ := h
  simp only [pure, Except.pure, Except.ok.injEq] at h
  subst h
  refine ⟨hd, ?_, rfl, hcycle⟩
  intro t ht
  apply (forM_eq_ok_iff _).mp hcheck
  rw [RangeOrder.mem_visit, Std.ExtTreeMap.mem_keys]
  exact ht

/-- The maps after both loops of `validateAndSort`. -/
abbrev WorkflowSpec.linkedMaps (wf : WorkflowSpec) (order : RangeOrder String) : DAG :=
  (order.visit wf.taskMaps.dependencies.keys).foldl DAG.linkTask wf.taskMaps

theorem WorkflowSpec.depsOf_linkedMaps {wf : WorkflowSpec} (hd : wf.taskIDs.Nodup)
    (order : RangeOrder String) : (wf.linkedMaps order).depsOf = wf.dependenciesOf := by
  funext t
  rw [DAG.depsOf, (DAG.foldl_linkTask_static _ _).1, taskMaps_dependencies hd]

theorem WorkflowSpec.mem_linkedMaps_tasks {wf : WorkflowSpec} (hd : wf.taskIDs.Nodup)
    (order : RangeOrder String) (t : String) :
    t ∈ (wf.linkedMaps order).tasks ↔ t ∈ wf.taskIDs := by
  rw [(DAG.foldl_linkTask_static _ _).2, mem_taskMaps_tasks hd]

/-- Every workflow that `validateAndSort` accepts is `Accepted`, in whatever
order the maps are visited. -/
theorem accepted_of_ok {orders : DagOrders} {wf : WorkflowSpec} {dag : DAG}
    (h : validateAndSort orders wf = .ok dag) : Accepted wf dag := by
  obtain ⟨hd, hcheck, hdag, hcycle⟩ := validateAndSort_ok h
  have hstatic := DAG.foldl_linkTask_static
    (orders.link.visit wf.taskMaps.dependencies.keys) wf.taskMaps
  rw [← hdag] at hstatic
  refine ⟨hd, ?_, ?_, ?_, ?_, ?_, ?_⟩
  · intro t
    rw [hstatic.2, taskMaps_tasks hd]
  · intro t d hdep
    by_cases ht : t ∈ wf.taskIDs
    · have hok := hcheck t ((mem_taskMaps_dependencies hd t).mpr ht)
      rw [DAG.checkDependencies, forM_eq_ok_iff, taskMaps_dependencies hd] at hok
      have hdepOk := hok d hdep
      split at hdepOk
      · rename_i hmem
        exact (mem_taskMaps_tasks hd d).mp hmem
      · cases hdepOk
    · rw [dependenciesOf_of_not_mem ht] at hdep
      cases hdep
  · intro d t
    rw [hdag, DAG.linkTasks_downstream, taskMaps_downstream hd,
      taskMaps_dependencies hd, count_link_keys _ hd]
    by_cases ht : t ∈ wf.taskIDs
    · simp [ht]
    · simp [dependenciesOf_of_not_mem ht]
  · intro t
    rw [hdag, DAG.linkTasks_inDegree, taskMaps_inDegree hd,
      taskMaps_dependencies hd, count_link_keys _ hd, Int32.zero_add]
    by_cases ht : t ∈ wf.taskIDs
    · simp [ht]
    · simp [dependenciesOf_of_not_mem ht]
  · intro t
    rw [hdag, DAG.linkTasks_mem_inDegree, mem_taskMaps_inDegree hd]
    intro u hu
    rw [RangeOrder.mem_visit, Std.ExtTreeMap.mem_keys,
      mem_taskMaps_dependencies hd] at hu
    exact (mem_taskMaps_inDegree hd u).mpr hu
  · intro t
    by_cases ht : t ∈ wf.taskIDs
    · rw [hdag] at hcycle
      rw [← depsOf_linkedMaps hd orders.link]
      exact DAG.hasCycle_ok hcycle ((mem_linkedMaps_tasks hd orders.link t).mpr ht)
    · apply Acc.intro
      intro d hdt
      rw [Precedes, dependenciesOf_of_not_mem ht] at hdt
      cases hdt

/-- The part of `Accepted` that is about the workflow alone, with the bound
on the dependency lists that the message format gives. -/
structure WorkflowSpec.WellFormed (wf : WorkflowSpec) : Prop where
  nodup : wf.taskIDs.Nodup
  closed : ∀ t, ∀ d ∈ wf.dependenciesOf t, d ∈ wf.taskIDs
  ends : ∀ t, Acc (Precedes wf.dependenciesOf) t
  bounded : ∀ t, (wf.dependenciesOf t).length < 2 ^ 31

namespace Accepted

variable {wf : WorkflowSpec} {dag : DAG} (hacc : Accepted wf dag)
include hacc

theorem wellFormed
    (hbound : ∀ task ∈ wf.tasks, task.dependencies.length < 2 ^ 31) :
    wf.WellFormed := by
  refine ⟨hacc.nodup, hacc.closed, hacc.ends, ?_⟩
  intro t
  by_cases ht : t ∈ wf.taskIDs
  · obtain ⟨task, htask, rfl⟩ := mem_taskIDs.mp ht
    rw [dependenciesOf_of_mem hacc.nodup htask]
    exact hbound task htask
  · rw [dependenciesOf_of_not_mem ht]
    simp

/-- The ready tasks are the tasks whose in-degree counter is 0. -/
theorem mem_getReadyTasks {order : RangeOrder String} {t : String} :
    t ∈ dag.getReadyTasks order ↔
      t ∈ wf.taskIDs ∧ Int32.ofNat (wf.dependenciesOf t).length = 0 := by
  rw [DAG.getReadyTasks, List.mem_filter, RangeOrder.mem_visit,
    Std.ExtTreeMap.mem_keys, hacc.mem_inDegree, hacc.inDegree]
  simp

omit hacc in
/-- No ready task is listed twice. -/
theorem nodup_getReadyTasks (order : RangeOrder String) :
    (dag.getReadyTasks order).Nodup :=
  (order.nodup_visit (Table.nodup_keys _)).filter _

end Accepted

end DagScheduler
