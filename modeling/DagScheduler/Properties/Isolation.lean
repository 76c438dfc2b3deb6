import DagScheduler.Properties.Fairness

/-!
# Workflows do not disturb each other

All workflows share one store, one queue and two maps.  `World.share` is the part
of them that belongs to one workflow: its specification, its state, the records of
its tasks, its places in the queue in their order, and its entries of the maps.
`Call.Concerns` says when a call is about a workflow.  Every other call leaves the
share as it is, and so does every run of such calls.

The traversals of a failure and the counters of a completion follow the stored
downstream lists, so this needs that no such list leaves its workflow (`Linked`).
-/

namespace DagScheduler

open Lib Store

variable {env : Env} {P P' : WorkflowSpec → Prop} {w w' : World} {c : Call} {id : String}

/-- What belongs to one workflow. -/
@[ext]
structure WorkflowShare where
  spec : Option WorkflowSpec
  state : Option WorkflowStateRecord
  tasks : String → Option TaskStateRecord
  queue : List String
  workers : String → Option String
  executions : String → Option String

/-- The share of the workflow `id`. -/
def World.share (w : World) (id : String) : WorkflowShare where
  spec := w.store.workflows[id]?
  state := w.store.workflowState[id]?
  tasks t := if w.store.ownerOf t = some id then w.store.taskState[t]? else none
  queue := w.coord.readyQueue.filter fun t => w.store.ownerOf t = some id
  workers t := if w.store.ownerOf t = some id then w.coord.runningTasks[t]? else none
  executions t := if w.store.ownerOf t = some id then w.coord.assignedTasks[t]? else none

/-- The call is about the workflow `id`: it submits, cancels or resumes it, asks while
one of its tasks is first in the queue, reports on one of its tasks, or reclaims one. -/
def Call.Concerns (w : World) (id : String) : Call → Prop
  | .submitWorkflow _ wf => wf.workflowId = id
  | .getReadyTask _ => ∃ t rest, w.coord.readyQueue = t :: rest ∧ w.store.ownerOf t = some id
  | .completeTask t e _ | .failTask t e _ =>
      w.coord.assignedTasks[t]? = some e ∧ w.store.ownerOf t = some id
  | .cancelWorkflow i => i = id
  | .handleDeadWorker _ workerID =>
      ∃ t, w.coord.runningTasks[t]? = some workerID ∧ w.store.ownerOf t = some id
  | .restart => True

/-! ## The records -/

/-- A completion changes tasks of its own workflow only. -/
theorem CompleteEffect.record_eq (h : Inv P w) {t e output : String}
    {result : Except CallError Unit} (heff : CompleteEffect w t e output result w')
    (hno : ¬ (w.coord.assignedTasks[t]? = some e ∧ w.store.ownerOf t = some id)) {u : String}
    (hu : w.store.ownerOf u = some id) : w'.store.taskState[u]? = w.store.taskState[u]? := by
  cases heff with
  | ignored _ _ => rfl
  | @accepted r now s ready _ ha hr hc hchk _ _ =>
    have hl := h.sound.coherent.linked
    have hne : u ≠ t := by
      rintro rfl
      exact hno ⟨ha, hu⟩
    have hcount : r.downstreamTaskIDs.count u = 0 := by
      rw [hl.downstream t r hr, List.count_eq_zero]
      intro hdep
      rw [← hl.ancestor_owner (.single hdep)] at hu
      exact hno ⟨ha, hu⟩
    rw [hchk.taskState, hc.other u hne, hcount]
    simp

/-- A task of another workflow is handed out. -/
theorem ReadyEffect.record_eq {workerID : String} {a : Option TaskAssignment}
    (heff : ReadyEffect env w workerID a w')
    (hno : ¬ (Call.getReadyTask workerID).Concerns w id) {u : String}
    (hu : w.store.ownerOf u = some id) : w'.store.taskState[u]? = w.store.taskState[u]? := by
  cases heff with
  | empty _ => rfl
  | unknown _ _ => rfl
  | @assigned t _ _ _ _ _ hq _ _ hstore _ _ =>
    have hne : t ≠ u := by
      rintro rfl
      exact hno ⟨t, _, hq, hu⟩
    rw [hstore, get_setTask, if_neg hne]

/-- The records of a workflow that the call is not about. -/
theorem Effect.record_eq (h : Inv P w) (hadm : c.Admissible P' w) {reply : Reply}
    (heff : Effect env w c reply w') (hno : ¬ c.Concerns w id) {u : String}
    (hu : w.store.ownerOf u = some id) : w'.store.taskState[u]? = w.store.taskState[u]? := by
  have hstep := heff.task h hadm u
  obtain ⟨r, hr, hid⟩ := ownerOf_eq_some.mp hu
  rw [hr] at hstep
  generalize ho' : w'.store.taskState[u]? = o' at hstep
  cases hstep with
  | same => exact hr.symm
  | assigned _ _ =>
    cases heff with
    | getReadyTask heff => exact ho' ▸ heff.record_eq hno hu
  | completed ha => exact absurd ⟨ha, hu⟩ hno
  | released _ _ =>
    cases heff with
    | completeTask heff => exact ho' ▸ heff.record_eq h hno hu
  | retried ha _ _ => exact absurd ⟨ha, hu⟩ hno
  | failed ha _ => exact absurd ⟨ha, hu⟩ hno
  | skippedBelow _ ha _ _ hown _ _ => exact absurd ⟨ha, hid ▸ hown⟩ hno
  | cancelled hown _ => exact absurd (hown.symm.trans hid) hno
  | reclaimed hw _ _ => exact absurd ⟨u, hw, hu⟩ hno
  | recovered _ _ _ => exact absurd trivial hno

/-- No task joins or leaves a workflow that the call is not about. -/
theorem Effect.owner_iff (h : Inv P w) (hadm : c.Admissible P' w) {reply : Reply}
    (heff : Effect env w c reply w') (hno : ¬ c.Concerns w id) (u : String) :
    w'.store.ownerOf u = some id ↔ w.store.ownerOf u = some id := by
  cases hc : c.submits with
  | none => rw [(heff.sameShape h hadm hc).ownerOf]
  | some wf =>
    refine ⟨fun hu => ?_, fun hu => ?_⟩
    · cases heff with
      | submitWorkflow heff =>
        cases hc
        cases heff with
        | refused hstore _ _ => rwa [hstore] at hu
        | halted _ hstore _ _ =>
          rw [hstore] at hu
          exact hu
        | launched hl =>
          by_cases hin : u ∈ wf.taskIDs
          · obtain ⟨now, hget⟩ := hl.task u hin
            rw [ownerOf_of_get hget] at hu
            exact absurd (Option.some.inj hu) hno
          · rw [ownerOf, hl.other u hin] at hu
            exact hu
      | _ => cases hc
    · rw [ownerOf, heff.record_eq h hadm hno hu]
      exact hu

/-! ## The memory -/

/-- Tasks of other workflows leave the two maps. -/
theorem Coordinator.maps_of_forget {c c' : Coordinator} {l : List String} {u : String}
    (hu : u ∉ l) (hrunning : c'.runningTasks = (l.foldl Coordinator.forget c).runningTasks)
    (hassigned : c'.assignedTasks = (l.foldl Coordinator.forget c).assignedTasks) :
    c'.runningTasks[u]? = c.runningTasks[u]? ∧ c'.assignedTasks[u]? = c.assignedTasks[u]? := by
  rw [hrunning, hassigned, get_foldl_forget_running, get_foldl_forget_assigned, if_neg hu,
    if_neg hu]
  exact ⟨rfl, rfl⟩

/-- The entries of a workflow that the call is not about. -/
theorem Effect.maps_eq {reply : Reply} (heff : Effect env w c reply w')
    (hno : ¬ c.Concerns w id) {u : String} (hu : w.store.ownerOf u = some id) :
    w'.coord.runningTasks[u]? = w.coord.runningTasks[u]? ∧
      w'.coord.assignedTasks[u]? = w.coord.assignedTasks[u]? := by
  cases heff with
  | submitWorkflow heff =>
    cases heff with
    | refused _ hcoord _ => rw [hcoord]; exact ⟨rfl, rfl⟩
    | halted _ _ hcoord _ => rw [hcoord]; exact ⟨rfl, rfl⟩
    | launched hl =>
      obtain ⟨d, hcaches, hcoord⟩ := hl.coord
      rw [hcoord]
      exact ⟨congrArg (·[u]?) hcaches.runningTasks, congrArg (·[u]?) hcaches.assignedTasks⟩
  | getReadyTask heff =>
    cases heff with
    | empty _ => exact ⟨rfl, rfl⟩
    | unknown _ _ => exact ⟨rfl, rfl⟩
    | @assigned t _ _ _ _ _ hq _ _ _ hcoord _ =>
      have hne : t ≠ u := by
        rintro rfl
        exact hno ⟨t, _, hq, hu⟩
      rw [hcoord]
      exact ⟨Table.get_insert_ne _ _ hne, Table.get_insert_ne _ _ hne⟩
  | @completeTask t e _ _ _ heff =>
    cases heff with
    | ignored _ _ => exact ⟨rfl, rfl⟩
    | accepted ha _ _ _ hcoord _ =>
      refine Coordinator.maps_of_forget (l := [t]) ?_ (by rw [hcoord]; rfl) (by rw [hcoord]; rfl)
      exact fun hin => hno ⟨ha, List.mem_singleton.mp hin ▸ hu⟩
  | @failTask t e _ _ _ heff =>
    cases heff with
    | stale _ => exact ⟨rfl, rfl⟩
    | retried ha _ _ _ hcoord _ =>
      refine Coordinator.maps_of_forget (l := [t]) ?_ (by rw [hcoord]; rfl) (by rw [hcoord]; rfl)
      exact fun hin => hno ⟨ha, List.mem_singleton.mp hin ▸ hu⟩
    | failed ha _ _ _ hpol _ =>
      obtain ⟨gone, hcoord⟩ := hpol.coord
      refine Coordinator.maps_of_forget (l := [t]) ?_ (by rw [hcoord]; rfl) (by rw [hcoord]; rfl)
      exact fun hin => hno ⟨ha, List.mem_singleton.mp hin ▸ hu⟩
  | cancelWorkflow heff =>
    cases heff with
    | cancelled _ hg _ _ =>
      obtain ⟨gone, _, hcoord⟩ := hg.coord
      rw [hcoord]
      exact ⟨rfl, rfl⟩
    | refused _ _ hcoord _ => rw [hcoord]; exact ⟨rfl, rfl⟩
  | handleDeadWorker heff =>
    obtain ⟨l, w₁, _, hmem, hreq, rfl⟩ := heff.claimed
    refine Coordinator.maps_of_forget (l := l) ?_ (by dsimp only; rw [hreq.coord]; rfl)
      (by dsimp only; rw [hreq.coord]; rfl)
    exact fun hin => hno ⟨u, (hmem u).mp hin, hu⟩
  | restart _ => exact absurd trivial hno

/-- The places of a workflow in the queue, in their order. -/
theorem Effect.queue_share (h : Inv P w) (hadm : c.Admissible P' w) {reply : Reply}
    (heff : Effect env w c reply w') (h' : Agree w'.store w'.coord)
    (hno : ¬ c.Concerns w id) :
    (w'.coord.readyQueue.filter fun t => w'.store.ownerOf t = some id)
      = w.coord.readyQueue.filter fun t => w.store.ownerOf t = some id := by
  have hr : c ≠ .restart := by
    rintro rfl
    exact hno trivial
  have hstate : ∀ u, w.store.ownerOf u = some id →
      w'.store.stateOf u = w.store.stateOf u := by
    intro u hu
    rw [stateOf, heff.record_eq h hadm hno hu]
    rfl
  simp only [heff.owner_iff h hadm hno]
  cases heff.queue h hadm hr with
  | @takes t hasks hqueue _ =>
    have hnot : w.store.ownerOf t ≠ some id := by
      intro ht
      cases c with
      | getReadyTask k => exact hno ⟨t, _, hqueue, ht⟩
      | _ => cases hasks
    rw [hqueue, List.filter_cons_of_neg (by simpa using hnot)]
  | moves keep added hqueue hdropped hnew _ =>
    have hadded : added.filter (fun t => w.store.ownerOf t = some id) = [] := by
      rw [List.filter_eq_nil_iff]
      intro t ht hown
      have hown' := of_decide_eq_true hown
      -- A task that enters the queue was not queued before.
      refine hnew t ht ((hstate t hown').symm.trans (h'.queued t ?_))
      rw [hqueue]
      exact List.mem_append_right _ ht
    rw [hqueue, List.filter_append, hadded, List.append_nil, List.filter_filter]
    refine List.filter_congr fun t ht => ?_
    by_cases hown : w.store.ownerOf t = some id
    · have hkeep : keep t = true := by
        by_contra hdrop
        have hskip := hdropped t ht (by simpa using hdrop)
        rw [hstate t hown, h.agree.queued t ht] at hskip
        cases hskip
      simp [hkeep]
    · simp [hown]

/-! ## The share -/

theorem Effect.spec_eq {reply : Reply} (heff : Effect env w c reply w')
    (hno : ¬ c.Concerns w id) : w'.store.workflows[id]? = w.store.workflows[id]? := by
  cases hc : c.submits with
  | none => rw [heff.workflows hc]
  | some wf =>
    cases heff with
    | submitWorkflow heff =>
      cases heff with
      | refused hstore _ _ => rw [hstore]
      | halted _ hstore _ _ =>
        rw [hstore]
        exact Table.get_insert_ne _ _ hno
      | launched hl =>
        rw [hl.workflows]
        exact Table.get_insert_ne _ _ hno
    | _ => cases hc

theorem Effect.workflowState_eq {reply : Reply} (heff : Effect env w c reply w')
    (hno : ¬ c.Concerns w id) :
    w'.store.workflowState[id]? = w.store.workflowState[id]? := by
  rcases heff.workflowRecord id with heq | ⟨r, _, hwrite⟩
  · exact heq
  · generalize r.state = st at hwrite
    cases hwrite with
    | started hid => exact absurd hid hno
    | completed ha ht _ => exact absurd ⟨ha, ht⟩ hno
    | failed ha hr hid _ _ _ => exact absurd ⟨ha, ownerOf_eq_some.mpr ⟨_, hr, hid⟩⟩ hno
    | cancelled => exact absurd rfl hno

theorem Effect.share_eq (h : Inv P w) (hadm : c.Admissible P' w) {reply : Reply}
    (heff : Effect env w c reply w') (h' : Agree w'.store w'.coord)
    (hno : ¬ c.Concerns w id) : w'.share id = w.share id := by
  have hsame : ∀ {V : Type} {f g : String → Option V},
      (∀ u, w.store.ownerOf u = some id → f u = g u) →
      (fun u => if w'.store.ownerOf u = some id then f u else none)
        = fun u => if w.store.ownerOf u = some id then g u else none := by
    intro V f g hfg
    funext u
    simp only [heff.owner_iff h hadm hno]
    split
    · exact hfg u (by assumption)
    · rfl
  exact WorkflowShare.ext (heff.spec_eq hno) (heff.workflowState_eq hno)
    (hsame fun u hu => heff.record_eq h hadm hno hu) (heff.queue_share h hadm h' hno)
    (hsame fun u hu => (heff.maps_eq hno hu).1) (hsame fun u hu => (heff.maps_eq hno hu).2)

/-- A run of calls that are not about a workflow leaves its share as it is. -/
theorem share_undisturbed (env : Env) {pre post : List Call}
    (hids : NeverReused (submitted (pre ++ post)))
    (hno : ∀ (mid : List Call) (c : Call), mid ++ [c] <+: post →
      ¬ c.Concerns (runCalls env (pre ++ mid)) id) :
    (runCalls env (pre ++ post)).share id = (runCalls env pre).share id := by
  induction post using List.reverseRecOn with
  | nil => rw [List.append_nil]
  | append_singleton post c ih =>
    rw [← List.append_assoc] at hids ⊢
    have h := inv_runCalls env hids.of_append
    rw [(effect_runCalls env hids).share_eq h (admissible_next h.sound hids)
      (inv_runCalls env hids).agree (hno post c (List.prefix_refl _))]
    exact ih hids.of_append fun mid d hmid =>
      hno mid d (hmid.trans (List.prefix_append _ _))

/-- Another workflow is submitted and cancelled. -/
theorem share_undisturbed_beside :
    (runCalls .counting ([.submitWorkflow .asListed (.pair .failFast 3)] ++
      [.submitWorkflow .asListed .beside, .cancelWorkflow "v"])).share "w"
        = (runCalls .counting [.submitWorkflow .asListed (.pair .failFast 3)]).share "w" := by
  refine share_undisturbed .counting ?_ ?_
  · refine List.pairwise_pair.mpr ⟨by decide, fun t ha hb => ?_⟩
    simp only [WorkflowSpec.taskIDs, WorkflowSpec.pair, WorkflowSpec.beside, List.map_cons,
      List.map_nil, List.mem_cons, List.not_mem_nil, or_false] at ha hb
    rcases ha with rfl | rfl <;> simp at hb
  · intro mid c hmid
    obtain ⟨rest, hrest⟩ := hmid
    rcases mid with _ | ⟨c₁, _ | ⟨c₂, mid⟩⟩
    · simp only [List.nil_append, List.cons_append, List.cons.injEq] at hrest
      rw [hrest.1]
      exact (by decide : ¬ "v" = "w")
    · simp only [List.nil_append, List.cons_append, List.cons.injEq] at hrest
      rw [hrest.2.1]
      exact (by decide : ¬ "v" = "w")
    · simp at hrest

end DagScheduler
