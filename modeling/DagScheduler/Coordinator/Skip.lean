import DagScheduler.Coordinator.Rules
import DagScheduler.Lib.Reading

/-!
# The traversal below a failed task

`SkipDownstreamTasks` walks the stored downstream lists breadth first, one
transaction per task.  Whatever the lists look like, it gives up exactly the
open tasks that are listed below the failed task (`wp_skipDownstreamTasks_of_valid`).
On a coherent store these are the open strict descendants
(`wp_skipDownstreamTasks`).

`SkipInv` is the invariant of the loop.  Everything that is queued or visited
is below the failed task, what a visited task lists is queued or visited, and
the store is the one before the traversal with the open visited tasks skipped.
`edgesLeft` is the number of downstream entries of the tasks that are not
visited yet.  It pays for every entry that still enters the queue, so the fuel
of the model never runs out.  `SkipInv.round` is one round of the loop, and
what holds of the whole loop is an induction over it.

The fuel lasts also if other calls act between the transactions of the
traversal (`readAt_skipDownstreamTasks_ne`).  They may write any state into any
record, but no call except a submission changes the downstream lists.
-/

namespace DagScheduler

open Lib Program

namespace Store

/-- The downstream entries of the tasks that are not visited. -/
def edgesLeft (s : Store) (visited : List String) : Nat :=
  ((s.taskState.toList.filter (·.1 ∉ visited)).map
    (·.2.downstreamTaskIDs.length)).sum

theorem edgesLeft_nil (s : Store) : s.edgesLeft [] = s.edgeCount := by
  simp [edgesLeft, edgeCount]

/-- Visiting a task takes its entries off. -/
theorem edgesLeft_cons {s : Store} {u : String} {r : TaskStateRecord}
    {visited : List String} (hr : s.taskState[u]? = some r) (hu : u ∉ visited) :
    s.edgesLeft visited
      = r.downstreamTaskIDs.length + s.edgesLeft (u :: visited) :=
  Table.sum_filter_cons (Table.nodup_toList s.taskState)
    (e := (u, r)) ((Table.mem_toList_iff _ (u, r)).mpr hr) hu
    (fun x => x.downstreamTaskIDs.length)

theorem edgesLeft_cons_le (s : Store) (u : String) (visited : List String) :
    s.edgesLeft (u :: visited) ≤ s.edgesLeft visited := by
  refine List.Sublist.sum_le_sum (List.Sublist.map _ ?_) fun n _ => Nat.zero_le n
  refine List.monotone_filter_right _ fun e he => ?_
  simp only [List.mem_cons, not_or, decide_eq_true_eq] at he ⊢
  exact he.2

/-! ## One more task -/

theorem Skips.none (s : Store) : Skips (· ∈ ([] : List String)) s s :=
  ⟨rfl, rfl, fun _ h => h, fun _ _ _ h => by simp at h, fun _ _ h _ => h⟩

theorem Skips.congr {P P' : String → Prop} {s s' : Store} (h : Skips P s s')
    (hP : ∀ u, P u ↔ P' u) : Skips P' s s' := by
  have heq : P = P' := funext fun u => propext (hP u)
  exact heq ▸ h

/-- A task that is over already counts as given up. -/
theorem Skips.cons_over {s s' : Store} {visited : List String}
    (h : Skips (· ∈ visited) s s') {u : String} {r : TaskStateRecord}
    (hr : s.taskState[u]? = some r) (hover : r.state.terminal = true) :
    Skips (· ∈ u :: visited) s s' := by
  refine ⟨h.workflows, h.workflowState, h.absent, ?_, ?_⟩
  · intro v rv hrv hv hopen
    rcases List.mem_cons.mp hv with rfl | hin
    · rw [hr] at hrv
      cases hrv
      rw [hover] at hopen
      cases hopen
    · exact h.hit v rv hrv hin hopen
  · intro v rv hrv hnot
    apply h.miss v rv hrv
    rintro ⟨hin, hopen⟩
    exact hnot ⟨List.mem_cons_of_mem u hin, hopen⟩

/-- A task without a record counts as given up, too. -/
theorem Skips.cons_absent {s s' : Store} {visited : List String}
    (h : Skips (· ∈ visited) s s') {u : String} (hu : s.taskState[u]? = Option.none) :
    Skips (· ∈ u :: visited) s s' := by
  have hne : ∀ {v : String} {rv : TaskStateRecord}, s.taskState[v]? = some rv → v ≠ u := by
    rintro v rv hrv rfl
    rw [hu] at hrv
    cases hrv
  refine ⟨h.workflows, h.workflowState, h.absent, fun v rv hrv hv hopen => ?_,
    fun v rv hrv hnot => ?_⟩
  · exact h.hit v rv hrv ((List.mem_cons.mp hv).resolve_left (hne hrv)) hopen
  · apply h.miss v rv hrv
    rintro ⟨hin, hopen⟩
    exact hnot ⟨List.mem_cons_of_mem u hin, hopen⟩

/-- One more task is given up. -/
theorem Skips.cons {s s' : Store} {visited : List String}
    (h : Skips (· ∈ visited) s s') {u : String} {r : TaskStateRecord}
    (hr : s.taskState[u]? = some r) (hopen : r.state.terminal = false)
    (now : Int64) :
    Skips (· ∈ u :: visited) s
      (s'.setTask u { r with state := .skipped, lastUpdated := now }) := by
  refine ⟨h.workflows, h.workflowState, ?_, ?_, ?_⟩
  · intro v hv
    rw [get_setTask]
    split
    · rename_i huv
      rw [← huv, hr] at hv
      cases hv
    · exact h.absent v hv
  · intro v rv hrv hv hvopen
    rw [get_setTask]
    by_cases huv : u = v
    · subst huv
      rw [hr] at hrv
      cases hrv
      exact ⟨now, if_pos rfl⟩
    · rw [if_neg huv]
      exact h.hit v rv hrv ((List.mem_cons.mp hv).resolve_left (Ne.symm huv)) hvopen
  · intro v rv hrv hnot
    rw [get_setTask]
    split
    · rename_i huv
      subst huv
      rw [hr] at hrv
      cases hrv
      exact absurd ⟨List.mem_cons_self, hopen⟩ hnot
    · apply h.miss v rv hrv
      rintro ⟨hin, hvopen⟩
      exact hnot ⟨List.mem_cons_of_mem u hin, hvopen⟩

/-! ## The loop -/

/-- The record of `a` lists `b` downstream. -/
def Lists (s : Store) (a b : String) : Prop :=
  ∃ r, s.taskState[a]? = some r ∧ b ∈ r.downstreamTaskIDs

/-- `u` is listed below `f`, directly or through other records. -/
def Below (s : Store) (f u : String) : Prop := Relation.TransGen s.Lists f u

/-- On a linked store the lists are the dependencies the other way round. -/
theorem Linked.below_iff {s : Store} (hl : s.Linked) {f u : String} :
    s.Below f u ↔ Ancestor s.depsOf f u := by
  have hlists : s.Lists = Precedes s.depsOf := by
    funext a b
    refine propext ⟨?_, fun hdep => ?_⟩
    · rintro ⟨r, hr, hin⟩
      exact (hl.mem_downstream hr).mp hin
    · obtain ⟨_, ra, _, _, hra, _⟩ := hl.dep_stored hdep
      exact ⟨ra, hra, (hl.mem_downstream hra).mpr hdep⟩
  rw [Below, hlists, Ancestor]

/-- The invariant of the traversal below `f`, which started on `s₀`. -/
structure SkipInv (s₀ : Store) (f : String) (queue visited skipped : List String)
    (s : Store) : Prop where
  store : Skips (· ∈ visited) s₀ s
  reached : ∀ u, u ∈ queue ∨ u ∈ visited → s₀.Below f u
  start : ∀ u, s₀.Lists f u → u ∈ queue ∨ u ∈ visited
  closed : ∀ v ∈ visited, ∀ u, s₀.Lists v u → u ∈ queue ∨ u ∈ visited
  nodup : skipped.Nodup
  skipped : ∀ u, u ∈ skipped ↔ u ∈ visited ∧ s₀.isOpen u

namespace SkipInv

variable {s₀ s : Store} {f u : String} {queue visited skipped : List String}

/-- Once the queue is empty, the visited tasks are those below `f`. -/
theorem visited_iff (h : SkipInv s₀ f [] visited skipped s) (u : String) :
    u ∈ visited ↔ s₀.Below f u := by
  constructor
  · exact fun hu => h.reached u (.inr hu)
  · intro hu
    induction hu with
    | single hlist => exact (h.start _ hlist).resolve_left (by simp)
    | tail _ hlist ih => exact (h.closed _ ih _ hlist).resolve_left (by simp)

/-- A task that was visited before is passed over. -/
theorem drop (h : SkipInv s₀ f (u :: queue) visited skipped s) (hu : u ∈ visited) :
    SkipInv s₀ f queue visited skipped s := by
  have hmem : ∀ v, v ∈ u :: queue ∨ v ∈ visited → v ∈ queue ∨ v ∈ visited := by
    rintro v (hv | hv)
    · rcases List.mem_cons.mp hv with rfl | hin
      · exact .inr hu
      · exact .inl hin
    · exact .inr hv
  refine ⟨h.store, ?_, fun v hv => hmem v (h.start v hv),
    fun v hv x hx => hmem x (h.closed v hv x hx), h.nodup, h.skipped⟩
  rintro v (hv | hv)
  · exact h.reached v (.inl (List.mem_cons_of_mem u hv))
  · exact h.reached v (.inr hv)

/-- A visit puts what the task lists into the queue.  The store and the list of
skipped tasks come from the three cases below. -/
theorem visit (h : SkipInv s₀ f (u :: queue) visited skipped s) {entries : List String}
    (hentries : ∀ v, v ∈ entries ↔ s₀.Lists u v) {s' : Store} {skipped' : List String}
    (hstore : Skips (· ∈ u :: visited) s₀ s')
    (hskipped : ∀ v, v ∈ skipped' ↔ v ∈ u :: visited ∧ s₀.isOpen v)
    (hnodup : skipped'.Nodup) :
    SkipInv s₀ f (queue ++ entries) (u :: visited) skipped' s' := by
  have hbelow : s₀.Below f u := h.reached u (.inl List.mem_cons_self)
  have hmem : ∀ v, v ∈ u :: queue ∨ v ∈ visited →
      v ∈ queue ++ entries ∨ v ∈ u :: visited := by
    rintro v (hv | hv)
    · rcases List.mem_cons.mp hv with rfl | hin
      · exact .inr List.mem_cons_self
      · exact .inl (List.mem_append_left _ hin)
    · exact .inr (List.mem_cons_of_mem u hv)
  refine ⟨hstore, ?_, fun v hv => hmem v (h.start v hv), ?_, hnodup, hskipped⟩
  · rintro v (hv | hv)
    · rcases List.mem_append.mp hv with hin | hin
      · exact h.reached v (.inl (List.mem_cons_of_mem u hin))
      · exact hbelow.tail ((hentries v).mp hin)
    · rcases List.mem_cons.mp hv with rfl | hin
      · exact hbelow
      · exact h.reached v (.inr hin)
  · intro v hv x hx
    rcases List.mem_cons.mp hv with rfl | hin
    · exact .inl (List.mem_append_right _ ((hentries x).mpr hx))
    · exact hmem x (h.closed v hin x hx)

/-- A visit that skips nothing. -/
theorem visit_over (h : SkipInv s₀ f (u :: queue) visited skipped s) {entries : List String}
    (hentries : ∀ v, v ∈ entries ↔ s₀.Lists u v) (hover : ¬ s₀.isOpen u)
    (hstore : Skips (· ∈ u :: visited) s₀ s) :
    SkipInv s₀ f (queue ++ entries) (u :: visited) skipped s := by
  refine h.visit hentries hstore (fun v => ?_) h.nodup
  rw [h.skipped, List.mem_cons]
  constructor
  · rintro ⟨hv, hopen⟩
    exact ⟨.inr hv, hopen⟩
  · rintro ⟨rfl | hv, hopen⟩
    · exact absurd hopen hover
    · exact ⟨hv, hopen⟩

/-- A visit that skips the task. -/
theorem visit_open (h : SkipInv s₀ f (u :: queue) visited skipped s) (hu : u ∉ visited)
    {r : TaskStateRecord} (hr : s₀.taskState[u]? = some r) (hopen : r.state.terminal = false)
    (now : Int64) :
    SkipInv s₀ f (queue ++ r.downstreamTaskIDs) (u :: visited) (skipped ++ [u])
      (s.setTask u { r with state := .skipped, lastUpdated := now }) := by
  refine h.visit (fun v => ?_) (h.store.cons hr hopen now) (fun v => ?_) ?_
  · exact ⟨fun hv => ⟨r, hr, hv⟩, fun ⟨r', hr', hv⟩ => by
      rw [hr] at hr'
      cases hr'
      exact hv⟩
  · rw [List.mem_append, h.skipped, List.mem_singleton, List.mem_cons]
    constructor
    · rintro (⟨hv, hvo⟩ | rfl)
      · exact ⟨.inr hv, hvo⟩
      · exact ⟨.inl rfl, r, hr, hopen⟩
    · rintro ⟨rfl | hv, hvo⟩
      · exact .inr rfl
      · exact .inl ⟨hv, hvo⟩
  · rw [List.nodup_append]
    refine ⟨h.nodup, List.nodup_singleton u, fun a ha b hb hab => ?_⟩
    rw [List.mem_singleton.mp hb] at hab
    exact hu (hab ▸ ((h.skipped a).mp ha).1)

end SkipInv

end Store

open Store

/-- The invariant before the first round. -/
theorem Store.skipInv_start {s : Store} {f : String} {r : TaskStateRecord}
    (hr : s.taskState[f]? = some r) : SkipInv s f r.downstreamTaskIDs [] [] s := by
  have hlists : ∀ u, s.Lists f u ↔ u ∈ r.downstreamTaskIDs := by
    refine fun u => ⟨?_, fun hu => ⟨r, hr, hu⟩⟩
    rintro ⟨r', hr', hu⟩
    rw [hr] at hr'
    cases hr'
    exact hu
  refine ⟨Skips.none _, ?_, fun u hu => .inl ((hlists u).mp hu), by simp, List.nodup_nil, by simp⟩
  rintro u (hu | hu)
  · exact .single ((hlists u).mpr hu)
  · cases hu

variable {env : Env} {P : WorkflowSpec → Prop}

/-- One round of the loop.  It takes one entry off the queue and pays for the
entries that it adds. -/
theorem Store.SkipInv.round (env : Env) {w₀ w : World} (hkeys : w₀.store.ValidKeys) {f u : String}
    {queue visited skipped : List String}
    (h : SkipInv w₀.store f (u :: queue) visited skipped w.store) :
    ∃ queue' visited' skipped' w', SkipInv w₀.store f queue' visited' skipped' w'.store ∧
      w'.coord = w.coord ∧ w'.uuids = w.uuids ∧
      queue'.length + w₀.store.edgesLeft visited'
        ≤ queue.length + w₀.store.edgesLeft visited ∧
      ∀ (fuel : Nat) (J : World → Prop) (Q : Except SkipError (List String) → World → Prop),
        J w → J w' →
        (skipLoop fuel queue' visited' skipped').wp (Action.handle env) J Q w' →
        (skipLoop (fuel + 1) (u :: queue) visited skipped).wp (Action.handle env) J Q w := by
  by_cases hu : u ∈ visited
  · refine ⟨queue, visited, skipped, w, h.drop hu, rfl, rfl, le_rfl, fun fuel J Q _ _ hQ => ?_⟩
    rw [skipLoop, if_pos hu]
    exact hQ
  cases hr : w₀.store.taskState[u]? with
  | none =>
    have hnone : w.store.taskState[u]? = none := h.store.absent u hr
    have hnot : ¬ w₀.store.isOpen u := by
      rintro ⟨r, hr', -⟩
      rw [hr] at hr'
      cases hr'
    have hentries : ∀ v, v ∈ ([] : List String) ↔ w₀.store.Lists u v := by
      refine fun v => ⟨fun hv => absurd hv List.not_mem_nil, ?_⟩
      rintro ⟨r, hr', -⟩
      rw [hr] at hr'
      cases hr'
    have hinv := h.visit_over hentries hnot (h.store.cons_absent hr)
    rw [List.append_nil] at hinv
    refine ⟨queue, u :: visited, skipped, w, hinv, rfl, rfl, ?_, fun fuel J Q hw _ hQ => ?_⟩
    · exact Nat.add_le_add_left (edgesLeft_cons_le _ _ _) _
    · rw [skipLoop, if_neg hu, Prog.wp_bind]
      apply wp_view hw
      simp only [getTask, hnone]
      exact hQ
  | some r =>
    have hrw : w.store.taskState[u]? = some r := h.store.miss u r hr fun hc => hu hc.1
    have hget : w.store.getTask u = .ok r := by simp [getTask, hrw]
    have hpaid : (queue ++ r.downstreamTaskIDs).length + w₀.store.edgesLeft (u :: visited)
        ≤ queue.length + w₀.store.edgesLeft visited := by
      rw [edgesLeft_cons hr hu, List.length_append]
      omega
    by_cases hover : r.state.terminal = true
    · have hnot : ¬ w₀.store.isOpen u := by
        rintro ⟨r', hr', hopen⟩
        rw [hr] at hr'
        cases hr'
        rw [hover] at hopen
        cases hopen
      refine ⟨queue ++ r.downstreamTaskIDs, u :: visited, skipped, w, ?_, rfl, rfl, hpaid,
        fun fuel J Q hw _ hQ => ?_⟩
      · refine h.visit_over (fun v => ?_) hnot (h.store.cons_over hr hover)
        exact ⟨fun hv => ⟨r, hr, hv⟩, fun ⟨r', hr', hv⟩ => by
          rw [hr] at hr'
          cases hr'
          exact hv⟩
      · rw [skipLoop, if_neg hu, Prog.wp_bind]
        apply wp_view hw
        rw [hget]
        dsimp only
        rw [if_pos hover]
        exact hQ
    · have hopen : r.state.terminal = false := by simpa using hover
      refine ⟨queue ++ r.downstreamTaskIDs, u :: visited, skipped ++ [u], w.wrote _,
        h.visit_open hu hr hopen (env.now w.ticks), rfl, rfl, hpaid,
        fun fuel J Q hw hw' hQ => ?_⟩
      rw [skipLoop, if_neg hu, Prog.wp_bind]
      apply wp_view hw
      rw [hget]
      dsimp only
      rw [if_neg hover, Prog.wp_bind]
      exact wp_update (.updateTaskState u .skipped)
        (commit_modifyTask_of_valid (hkeys u r hr) hrw _) hw' hQ

/-- The open tasks of `Q` have been given up, and are listed. -/
structure SkippedBelow (Q : String → Prop) (w : World) (skipped : List String)
    (w' : World) : Prop where
  store : Skips Q w.store w'.store
  nodup : skipped.Nodup
  skipped : ∀ u, u ∈ skipped ↔ Q u ∧ w.store.isOpen u
  coord : w'.coord = w.coord
  uuids : w'.uuids = w.uuids

/-- The traversal is through. -/
theorem Store.SkipInv.skippedBelow {w₀ w : World} {f : String} {visited skipped : List String}
    (h : SkipInv w₀.store f [] visited skipped w.store) (hcoord : w.coord = w₀.coord)
    (huuids : w.uuids = w₀.uuids) : SkippedBelow (w₀.store.Below f) w₀ skipped w := by
  refine ⟨h.store.congr h.visited_iff, h.nodup, fun u => ?_, hcoord, huuids⟩
  rw [h.skipped, h.visited_iff]

/-- The whole loop comes to its end.  `J` may be anything that skipping tasks does
not break. -/
theorem wp_skipLoop {w₀ : World} (hkeys : w₀.store.ValidKeys) {J : World → Prop}
    (hJ : ∀ (w : World) (visited : List String), Skips (· ∈ visited) w₀.store w.store → J w)
    {f : String} (fuel : Nat) {queue visited skipped : List String} {w : World}
    (h : SkipInv w₀.store f queue visited skipped w.store) (hcoord : w.coord = w₀.coord)
    (huuids : w.uuids = w₀.uuids)
    (hfuel : queue.length + w₀.store.edgesLeft visited ≤ fuel) :
    (skipLoop fuel queue visited skipped).wp (Action.handle env) J
      (fun result w' => ∃ skipped', result = .ok skipped' ∧
        SkippedBelow (w₀.store.Below f) w₀ skipped' w') w := by
  induction fuel generalizing queue visited skipped w with
  | zero =>
    cases queue with
    | nil => exact ⟨skipped, rfl, h.skippedBelow hcoord huuids⟩
    | cons u queue => simp at hfuel
  | succ fuel ih =>
    cases queue with
    | nil => exact ⟨skipped, rfl, h.skippedBelow hcoord huuids⟩
    | cons u queue =>
      rw [List.length_cons] at hfuel
      obtain ⟨queue', visited', skipped', w', hinv, hc, hu, hless, hround⟩ := h.round env hkeys
      refine hround fuel J _ (hJ w _ h.store) (hJ w' _ hinv.store) ?_
      exact ih hinv (hc.trans hcoord) (hu.trans huuids) (by omega)

/-- More fuel makes no difference: the queue is empty before it runs out. -/
theorem run_skipLoop_more {w₀ : World} (hkeys : w₀.store.ValidKeys) {f : String} (fuel k : Nat)
    {queue visited skipped : List String} {w : World}
    (h : SkipInv w₀.store f queue visited skipped w.store)
    (hfuel : queue.length + w₀.store.edgesLeft visited ≤ fuel) :
    (skipLoop (fuel + k) queue visited skipped).run (Action.handle env) w
      = (skipLoop fuel queue visited skipped).run (Action.handle env) w := by
  induction fuel generalizing queue visited skipped w with
  | zero =>
    cases queue with
    | nil => cases k <;> rfl
    | cons u queue => simp at hfuel
  | succ fuel ih =>
    cases queue with
    | nil => rw [Nat.succ_add]; rfl
    | cons u queue =>
      rw [List.length_cons] at hfuel
      obtain ⟨queue', visited', skipped', w', hinv, -, -, hless, hround⟩ := h.round env hkeys
      have hrun : ∀ n, (skipLoop (n + 1) (u :: queue) visited skipped).run (Action.handle env) w
          = (skipLoop n queue' visited' skipped').run (Action.handle env) w' := by
        intro n
        have hwp := hround n (fun _ => True)
          (fun a v => (a, v) = (skipLoop n queue' visited' skipped').run (Action.handle env) w')
          trivial trivial (Prog.wp_of_true rfl)
        exact Prog.wp_run hwp
      rw [Nat.succ_add, hrun, hrun]
      exact ih hinv (by omega)

/-- `SkipDownstreamTasks` on any store: it gives up exactly the open tasks that
are listed below the failed task, and lists them. -/
theorem wp_skipDownstreamTasks_of_valid {w : World} (hkeys : w.store.ValidKeys)
    {J : World → Prop}
    (hJ : ∀ (w' : World) (visited : List String), Skips (· ∈ visited) w.store w'.store → J w')
    {f : String} {r : TaskStateRecord} (hr : w.store.taskState[f]? = some r) :
    (skipDownstreamTasks f).wp (Action.handle env) J
      (fun result w' => ∃ skipped, result = .ok skipped ∧
        SkippedBelow (w.store.Below f) w skipped w') w := by
  have hget : w.store.getTask f = .ok r := by simp [getTask, hr]
  rw [skipDownstreamTasks, Prog.wp_bind]
  apply wp_view (hJ w [] (Skips.none _))
  rw [hget]
  refine wp_skipLoop hkeys hJ _ (skipInv_start hr) rfl rfl ?_
  rw [edgesLeft_nil]

/-- `SkipDownstreamTasks` gives up exactly the open strict descendants of
the failed task, and lists them. -/
theorem wp_skipDownstreamTasks {w : World} (hs : Keeps P w) {f : String}
    {r : TaskStateRecord} (hr : w.store.taskState[f]? = some r) :
    (skipDownstreamTasks f).wp (Action.handle env) (Keeps P)
      (fun result w' => ∃ skipped, result = .ok skipped ∧
        SkippedBelow (Ancestor w.store.depsOf f) w skipped w') w := by
  have hl := hs.coherent.linked
  have hbelow : w.store.Below f = Ancestor w.store.depsOf f :=
    funext fun u => propext hl.below_iff
  rw [← hbelow]
  refine wp_skipDownstreamTasks_of_valid hl.keyed.validKeys (fun w' visited hskips => ?_) hr
  exact hs.of_workflows (hs.coherent.skips hskips) hskips.workflows

/-! ## Other calls between the transactions -/

/-- A transaction of a reader meets the first state, and the rest the others. -/
theorem readAt_view_bind {α β : Type} (f : Store → β) (k : β → Program α) (v : World)
    (ws : List World) : (Program.view f >>= k).readAt (Action.handle env) (v :: ws)
      = (k (f v.store)).readAt (Action.handle env) ws := rfl

theorem readAt_update_bind {α β : Type} (op : StoreOp β) (k : Except StoreError β → Program α)
    (v : World) (ws : List World) : (Program.update op >>= k).readAt (Action.handle env) (v :: ws)
      = (k (v.update env op).1).readAt (Action.handle env) ws := rfl

/-- Lists that stay as they are pay for the loop, whoever else writes into the
records between its rounds. -/
theorem readAt_skipLoop_ne {s : Store} (fuel : Nat) {queue visited skipped : List String}
    {ws : List World} (hws : ∀ v ∈ ws, SameShape s v.store)
    (hfuel : queue.length + s.edgesLeft visited ≤ fuel) :
    (skipLoop fuel queue visited skipped).readAt (Action.handle env) ws
      ≠ some (.error .diverged) := by
  induction fuel generalizing queue visited skipped ws with
  | zero =>
    cases queue with
    | nil => cases ws <;> exact fun h => nomatch h
    | cons u queue => simp at hfuel
  | succ fuel ih =>
    cases queue with
    | nil => cases ws <;> exact fun h => nomatch h
    | cons u queue =>
      rw [List.length_cons] at hfuel
      rw [skipLoop]
      by_cases hu : u ∈ visited
      · rw [if_pos hu]
        exact ih hws (by omega)
      rw [if_neg hu]
      cases ws with
      | nil => exact fun h => nomatch h
      | cons v ws =>
        rw [List.forall_mem_cons] at hws
        rw [readAt_view_bind, getTask]
        cases hv : v.store.taskState[u]? with
        | none =>
          have hless := s.edgesLeft_cons_le u visited
          exact ih hws.2 (by omega)
        | some task =>
          -- The record has been rewritten, with the list that it had.
          obtain ⟨r, hr, _, _, hlist⟩ := hws.1.back hv
          have hpaid : (queue ++ task.downstreamTaskIDs).length + s.edgesLeft (u :: visited)
              ≤ fuel := by
            rw [edgesLeft_cons hr hu, hlist] at hfuel
            rw [List.length_append]
            omega
          dsimp only
          split
          · exact ih hws.2 hpaid
          · cases ws with
            | nil => exact fun h => nomatch h
            | cons v' ws =>
              rw [List.forall_mem_cons] at hws
              rw [readAt_update_bind]
              cases (v'.update env (.updateTaskState u .skipped)).1 with
              | error e => exact ih hws.2.2 hpaid
              | ok _ => exact ih hws.2.2 hpaid

/-- Calls that leave the downstream lists alone cannot keep the traversal from its
end, wherever they fall between its transactions. -/
theorem readAt_skipDownstreamTasks_ne {s : Store} {f : String} {ws : List World}
    (hws : ∀ v ∈ ws, SameShape s v.store) :
    (skipDownstreamTasks f).readAt (Action.handle env) ws ≠ some (.error .diverged) := by
  rw [skipDownstreamTasks]
  cases ws with
  | nil => exact fun h => nomatch h
  | cons v ws =>
    rw [List.forall_mem_cons] at hws
    rw [readAt_view_bind]
    cases v.store.getTask f with
    | error e => cases ws <;> exact fun h => nomatch h
    | ok task =>
      refine readAt_skipLoop_ne (s := v.store) _ (fun v' hv' => ?_) ?_
      · exact hws.1.symm.trans (hws.2 v' hv')
      · rw [edgesLeft_nil]

end DagScheduler
