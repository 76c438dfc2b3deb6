import DagScheduler.Dag.Accepted

/-!
# What the search reports

The other half of the depth-first search: an error of `hasCycle` names a task
that lies on a cycle, and the search always ends.

A visit starts below a chain of gray tasks, each of which waits for the next
one, and the last one waits for the task of the visit.  So a visit that meets
a gray task has closed a cycle.  A visit that returns leaves the gray tasks as
they were.  Every level of the recursion paints one more task gray, so the
number of tasks that are not gray bounds its depth.
-/

namespace DagScheduler

open Lib

namespace DAG

variable {dag : DAG}

/-- The tasks that are not gray. -/
def notGray (dag : DAG) (color : Table String Color) : Finset String :=
  dag.tasks.keys.toFinset.filter fun u => colorOf color u ≠ .gray

/-- The two colourings have the same gray tasks. -/
def SameGray (color color' : Table String Color) : Prop :=
  ∀ u, colorOf color' u = .gray ↔ colorOf color u = .gray

theorem SameGray.notGray {color color' : Table String Color} (h : SameGray color color') :
    dag.notGray color' = dag.notGray color := by
  unfold DAG.notGray
  congr 1
  funext u
  rw [ne_eq, ne_eq, h u]

/-- Every gray task waits, directly or not, for `t`. -/
def GrayAbove (dag : DAG) (color : Table String Color) (t : String) : Prop :=
  ∀ u, colorOf color u = .gray → Ancestor dag.depsOf t u

/-- A part of the search has gone well, or it has found a cycle. -/
def Explores (dag : DAG) (color : Table String Color) :
    Except DagError (Table String Color) → Prop
  | .ok color' => SameGray color color'
  | .error e => ∃ t, e = .cyclicDAG t ∧ Ancestor dag.depsOf t t

/-- A list of visits, given what one visit does. -/
theorem explores_foldlM {f : Table String Color → String → Except DagError (Table String Color)}
    {color : Table String Color} (ts : List String)
    (hf : ∀ color', SameGray color color' → ∀ t ∈ ts, dag.Explores color' (f color' t)) :
    dag.Explores color (ts.foldlM f color) := by
  suffices h : ∀ color', SameGray color color' → dag.Explores color (ts.foldlM f color') from
    h color fun _ => Iff.rfl
  induction ts with
  | nil => exact fun color' hsame => hsame
  | cons t ts ih =>
    intro color' hsame
    have hone := hf color' hsame t List.mem_cons_self
    rw [List.foldlM_cons]
    cases hres : f color' t with
    | error e =>
      rw [hres] at hone
      exact hone
    | ok mid =>
      rw [hres] at hone
      exact ih (fun c hc u hu => hf c hc u (List.mem_cons_of_mem t hu)) mid
        fun u => (hone u).trans (hsame u)

theorem card_notGray_insert {color : Table String Color} {t : String} (ht : t ∈ dag.tasks)
    (hw : colorOf color t ≠ .gray) :
    (dag.notGray (color.insert t .gray)).card < (dag.notGray color).card := by
  apply Finset.card_lt_card
  rw [Finset.ssubset_iff_of_subset]
  · refine ⟨t, ?_, ?_⟩
    · rw [notGray, Finset.mem_filter, List.mem_toFinset, Std.ExtTreeMap.mem_keys]
      exact ⟨ht, hw⟩
    · rw [notGray, Finset.mem_filter, colorOf_insert, if_pos rfl]
      exact fun h => h.2 rfl
  · intro u hu
    rw [notGray, Finset.mem_filter, colorOf_insert] at hu
    rw [notGray, Finset.mem_filter]
    refine ⟨hu.1, fun hgray => hu.2 ?_⟩
    rw [hgray, ite_self]

/-- A visit with enough fuel returns or finds a cycle. -/
theorem explores_visit (hclosed : ∀ u ∈ dag.tasks, ∀ d ∈ dag.depsOf u, d ∈ dag.tasks)
    (fuel : Nat) {color : Table String Color} {t : String} (ht : t ∈ dag.tasks)
    (habove : dag.GrayAbove color t) (hfuel : (dag.notGray color).card < fuel) :
    dag.Explores color (visit dag fuel color t) := by
  induction fuel generalizing color t with
  | zero => exact absurd hfuel (Nat.not_lt_zero _)
  | succ fuel ih =>
    rw [visit]
    split
    · rename_i hgray
      exact ⟨t, rfl, habove t hgray⟩
    · exact fun _ => Iff.rfl
    · rename_i hwhite
      have hnot : colorOf color t ≠ .gray := by
        rw [colorOf, hwhite]
        simp
      have hfold : dag.Explores (color.insert t .gray)
          ((dag.depsOf t).foldlM (visit dag fuel) (color.insert t .gray)) := by
        refine explores_foldlM _ fun color' hsame d hd => ih (hclosed t ht d hd) ?_ ?_
        · -- the gray tasks are `t` and those that wait for `t`, and `t` waits for `d`
          intro u hu
          rw [hsame u, colorOf_insert] at hu
          split at hu
          · rename_i htu
            subst htu
            exact .single hd
          · exact .head hd (habove u hu)
        · rw [hsame.notGray]
          have hless := card_notGray_insert ht hnot
          omega
      rw [depsOf] at hfold
      generalize (dag.dependencies.getD t []).foldlM (visit dag fuel) (color.insert t .gray)
        = res at hfold ⊢
      cases res with
      | error e => exact hfold
      | ok mid =>
        intro u
        rw [colorOf_insert]
        split
        · rename_i htu
          subst htu
          simp [hnot]
        · rename_i htu
          rw [hfold u, colorOf_insert, if_neg htu]

/-- The roots loop of `hasCycle`. -/
theorem explores_roots (hclosed : ∀ u ∈ dag.tasks, ∀ d ∈ dag.depsOf u, d ∈ dag.tasks)
    {fuel : Nat} (hfuel : dag.tasks.keys.length < fuel) (ts : List String)
    (hts : ∀ t ∈ ts, t ∈ dag.tasks) {color : Table String Color}
    (hnogray : ∀ u, colorOf color u ≠ .gray) :
    dag.Explores color (ts.foldlM
      (fun color t =>
        if color.getD t .white = .white then visit dag fuel color t
        else .ok color) color) := by
  refine explores_foldlM ts fun color' hsame t ht => ?_
  split
  · refine explores_visit hclosed _ (hts t ht) (fun u hu => ?_) ?_
    · exact absurd ((hsame u).mp hu) (hnogray u)
    · have hcard : (dag.notGray color').card ≤ dag.tasks.keys.toFinset.card :=
        Finset.card_filter_le _ _
      have hlen := dag.tasks.keys.toFinset_card_le
      omega
  · exact fun _ => Iff.rfl

/-- `hasCycle` returns, and an error names a task on a cycle. -/
theorem hasCycle_error (hclosed : ∀ u ∈ dag.tasks, ∀ d ∈ dag.depsOf u, d ∈ dag.tasks)
    {order : RangeOrder String} {e : DagError} (h : dag.hasCycle order = .error e) :
    ∃ t, e = .cyclicDAG t ∧ Ancestor dag.depsOf t t := by
  have hwhite := colorOf_white dag.tasks.keys ∅ (fun u => by simp [colorOf, Table.getD_eq])
  have hsearch := explores_roots hclosed (Nat.lt_succ_self _) (order.visit dag.tasks.keys)
    (fun t ht => by
      rw [RangeOrder.mem_visit, Std.ExtTreeMap.mem_keys] at ht
      exact ht)
    (fun u hu => by rw [hwhite u] at hu; cases hu)
  unfold hasCycle at h
  rw [bind_eq_error_iff] at h
  rcases h with herr | ⟨_, -, hret⟩
  · rw [herr] at hsearch
    exact hsearch
  · cases hret

end DAG

end DagScheduler
