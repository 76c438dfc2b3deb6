import DagScheduler.Properties.Stranding

/-!
# The ready queue is fair

Tasks enter the ready queue at its end, and `GetReadyTask` takes the first one.
Between two restarts a task in the queue is therefore handed out after as many
requests as there are tasks in front of it, unless its workflow gives it up before.
No task overtakes it, whatever the workers report meanwhile.

`Effect.queue` says what a call does to the queue: it takes the first task, or it
takes out tasks that it skips and appends tasks that were not queued.
-/

namespace DagScheduler

open Lib Store

variable {env : Env} {P P' : WorkflowSpec → Prop} {w w' : World} {c : Call}

/-- The call asks for a task. -/
def Call.asks : Call → Bool
  | .getReadyTask _ => true
  | _ => false

/-- The call hands out the task `t`. -/
def HandsOut (t : String) (c : Call) (reply : Reply) : Prop :=
  ∃ workerID a, c = .getReadyTask workerID ∧ reply = .assignment (some a) ∧ a.taskId = t

/-- What a call does to the ready queue. -/
inductive QueueStep (w w' : World) (c : Call) (reply : Reply) : Prop where
  | takes {t : String} (asks : c.asks = true)
      (queue : w.coord.readyQueue = t :: w'.coord.readyQueue)
      (known : t ∈ w.coord.taskSpecCache → HandsOut t c reply)
  | moves (keep : String → Bool) (added : List String)
      (queue : w'.coord.readyQueue = w.coord.readyQueue.filter keep ++ added)
      (dropped : ∀ t ∈ w.coord.readyQueue, keep t = false →
        w'.store.stateOf t = some .skipped)
      (added_new : ∀ t ∈ added, w.store.stateOf t ≠ some .queued)
      (asks : c.asks = true → w.coord.readyQueue = [])

namespace QueueStep

variable {reply : Reply}

/-- The queue stays as it is. -/
theorem same (hcoord : w'.coord.readyQueue = w.coord.readyQueue)
    (hasks : c.asks = true → w.coord.readyQueue = []) : QueueStep w w' c reply :=
  .moves (fun _ => true) [] (by simp [hcoord]) (by simp) (by simp) hasks

/-- Tasks that were not queued enter the queue. -/
theorem enqueue {added : List String}
    (hqueue : w'.coord.readyQueue = w.coord.readyQueue ++ added)
    (hnew : ∀ t ∈ added, w.store.stateOf t ≠ some .queued) (hasks : c.asks = false) :
    QueueStep w w' c reply :=
  .moves (fun _ => true) added (by simp [hqueue]) (by simp) hnew (by simp [hasks])

/-- Tasks that are given up leave the queue. -/
theorem drop {gone : List String}
    (hqueue : w'.coord.readyQueue = w.coord.readyQueue.filter (· ∉ gone))
    (hgone : ∀ t ∈ w.coord.readyQueue, t ∈ gone → w'.store.stateOf t = some .skipped)
    (hasks : c.asks = false) : QueueStep w w' c reply := by
  refine .moves (· ∉ gone) [] (by simp [hqueue]) (fun t ht hno => ?_) (by simp) (by simp [hasks])
  exact hgone t ht (by simpa using hno)

end QueueStep

theorem ReadyEffect.queueStep {workerID : String} {a : Option TaskAssignment}
    (heff : ReadyEffect env w workerID a w') :
    QueueStep w w' (.getReadyTask workerID) (.assignment a) := by
  cases heff with
  | empty hq => exact .same rfl fun _ => hq
  | unknown hq hno => exact .takes rfl hq fun hin => absurd hin hno
  | assigned hq _ _ _ hcoord _ =>
    exact .takes rfl (by rw [hcoord]; exact hq) fun _ => ⟨_, _, rfl, rfl, rfl⟩

theorem CompleteEffect.queueStep {t e output : String} {result : Except CallError Unit}
    (heff : CompleteEffect w t e output result w') :
    QueueStep w w' (.completeTask t e output) (.status result) := by
  cases heff with
  | ignored _ _ => exact .same rfl (by simp [Call.asks])
  | accepted _ _ hc _ hcoord _ =>
    refine .enqueue (by rw [hcoord]; rfl) (fun u hu => ?_) rfl
    rw [((hc.mem_ready u).mp hu).1]
    simp

/-- A task that is given up is skipped, also if another store follows with the same
records. -/
theorem GivesUp.queueStep {Q : String → Prop} {s s' : Store} {reply : Reply} {d : Coordinator}
    (hg : GivesUp Q s d s' w'.coord) (hqueue : d.readyQueue = w.coord.readyQueue)
    (htasks : w'.store.taskState = s'.taskState) (hasks : c.asks = false) :
    QueueStep w w' c reply := by
  obtain ⟨gone, hgone, hcoord⟩ := hg.coord
  have hkept : w'.coord.readyQueue = w.coord.readyQueue.filter (· ∉ gone) := by
    rw [hcoord, Coordinator.dropFromQueue, hqueue]
  refine .drop hkept ?_ hasks
  intro t _ hin
  obtain ⟨hQ, r, hr, hopen⟩ := (hgone t).mp hin
  obtain ⟨now, hget⟩ := hg.store.hit t r hr hQ hopen
  rw [Store.stateOf, htasks, hget]
  rfl

/-- Every policy leaves the maps alone, and at most takes tasks out of the queue. -/
theorem PolicyEffect.coord {id t : String} {s : Store} {c : Coordinator}
    {policy : FailurePolicy} (h : PolicyEffect id t s c w' policy) :
    ∃ gone, w'.coord = c.dropFromQueue gone := by
  cases h with
  | failFast hg _ =>
    obtain ⟨gone, _, hcoord⟩ := hg.coord
    exact ⟨gone, hcoord⟩
  | below _ hg _ =>
    obtain ⟨gone, _, hcoord⟩ := hg.coord
    exact ⟨gone, hcoord⟩
  | unrecognized _ hcoord => exact ⟨[], by rw [hcoord, Coordinator.dropFromQueue_nil]⟩

theorem FailEffect.queueStep (h : Inv P w) {t e errMsg : String}
    {result : Except CallError Unit} (heff : FailEffect env w t e errMsg result w') :
    QueueStep w w' (.failTask t e errMsg) (.status result) := by
  cases heff with
  | stale _ => exact .same rfl (by simp [Call.asks])
  | retried ha hr _ _ hcoord _ =>
    refine .enqueue (by rw [hcoord]; rfl) (fun u hu => ?_) rfl
    rw [List.mem_singleton.mp hu, stateOf_of_get hr]
    rcases h.state_of_assigned ha hr with hst | hst <;> simp [hst]
  | @failed _ wf _ _ _ _ _ _ hpol _ =>
    generalize wf.failurePolicy = policy at hpol
    cases hpol with
    | failFast hg hclose => exact hg.queueStep rfl hclose.taskState rfl
    | below _ hg hchk => exact hg.queueStep rfl hchk.taskState rfl
    | unrecognized _ hcoord => exact .same (by rw [hcoord]; rfl) (by simp [Call.asks])

theorem DeadWorkerEffect.queueStep (h : Inv P w) {order : RangeOrder String}
    {workerID : String} (heff : DeadWorkerEffect env workerID w w') :
    QueueStep w w' (.handleDeadWorker order workerID) (.status (.ok ())) := by
  obtain ⟨l, w₁, _, hmem, hreq, rfl⟩ := heff.claimed
  have hadded : w₁.coord.readyQueue = w.coord.readyQueue ++ l := by
    rw [hreq.coord, Coordinator.enqueue_readyQueue, Coordinator.foldl_forget_readyQueue]
  refine .enqueue hadded (fun u hu => ?_) rfl
  · obtain ⟨e, ha⟩ := h.assigned_of_running ((hmem u).mp hu)
    obtain ⟨r, hr, _, hst, _⟩ := h.agree.assigned u e ha
    rw [stateOf_of_get hr]
    rcases hst with hst | hst <;> simp [hst]

theorem SubmitEffect.queueStep (h : Inv P w) {orders : DagOrders} {wf : WorkflowSpec}
    (hf : w.store.Fresh wf) {result : Except CallError Unit}
    (heff : SubmitEffect w wf result w') :
    QueueStep w w' (.submitWorkflow orders wf) (.status result) := by
  cases heff with
  | refused _ hcoord _ => exact .same (by rw [hcoord]) (by simp [Call.asks])
  | halted _ _ hcoord _ => exact .same (by rw [hcoord]) (by simp [Call.asks])
  | @launched dag roots _ hl =>
    obtain ⟨d, hcaches, hcoord⟩ := hl.coord
    have hadded : w'.coord.readyQueue = w.coord.readyQueue ++ roots := by
      rw [hcoord, Coordinator.enqueue_readyQueue, hcaches.readyQueue]
    refine .enqueue hadded (fun u hu => ?_) rfl
    · rw [Store.stateOf, hf.untouched h.sound.coherent.linked u ((hl.mem_roots u).mp hu).1]
      simp

/-- What a call other than a restart does to the queue. -/
theorem Effect.queue (h : Inv P w) (hadm : c.Admissible P' w) {reply : Reply}
    (heff : Effect env w c reply w') (hr : c ≠ .restart) : QueueStep w w' c reply := by
  cases heff with
  | submitWorkflow heff => exact heff.queueStep h (hadm _ rfl).2
  | getReadyTask heff => exact heff.queueStep
  | completeTask heff => exact heff.queueStep
  | failTask heff => exact heff.queueStep h
  | cancelWorkflow heff =>
    cases heff with
    | cancelled _ hg hclose _ => exact hg.queueStep rfl hclose.taskState rfl
    | refused _ _ hcoord _ => exact .same (by rw [hcoord]) (by simp [Call.asks])
  | handleDeadWorker heff => exact heff.queueStep h
  | restart _ => exact absurd rfl hr

/-! ## The place in the queue -/

/-- A task in the queue is handed out or skipped, or moves forward by one place if
the call asks for a task, and not backward otherwise. -/
theorem QueueStep.place {reply : Reply} (hstep : QueueStep w w' c reply) {t : String}
    {front back : List String} (hq : w.coord.readyQueue = front ++ t :: back)
    (hknown : t ∈ w.coord.taskSpecCache) :
    HandsOut t c reply ∨ w'.store.stateOf t = some .skipped ∨
      ∃ front' back', w'.coord.readyQueue = front' ++ t :: back' ∧
        front'.length + (if c.asks = true then 1 else 0) ≤ front.length := by
  cases hstep with
  | @takes u hasks hqueue hout =>
    rw [hq] at hqueue
    cases front with
    | nil =>
      obtain ⟨rfl, _⟩ := List.cons.inj hqueue
      exact .inl (hout hknown)
    | cons v front =>
      obtain ⟨_, hrest⟩ := List.cons.inj hqueue
      exact .inr (.inr ⟨front, back, hrest.symm, by rw [if_pos hasks, List.length_cons]⟩)
  | moves keep added hqueue hdropped _ hasks =>
    rw [hq] at hqueue
    by_cases hkeep : keep t = true
    · refine .inr (.inr ⟨front.filter keep, back.filter keep ++ added, ?_, ?_⟩)
      · rw [hqueue, List.filter_append, List.filter_cons_of_pos hkeep]
        simp
      · rw [if_neg fun ha => by simp [hasks ha] at hq]
        exact List.length_filter_le _ _
    · exact .inr (.inl (hdropped t (by rw [hq]; simp) (by simpa using hkeep)))

/-- Only a restart forgets a specification. -/
theorem Effect.known_mono {reply : Reply} (heff : Effect env w c reply w')
    (hr : c ≠ .restart) {t : String} (ht : t ∈ w.coord.taskSpecCache) :
    t ∈ w'.coord.taskSpecCache := by
  cases hc : c.submits with
  | none =>
    rw [(heff.sameCaches hc hr).spec]
    exact ht
  | some wf =>
    cases heff with
    | submitWorkflow heff =>
      cases heff with
      | refused _ hcoord _ => exact hcoord ▸ ht
      | halted _ _ hcoord _ => exact hcoord ▸ ht
      | launched hl =>
        obtain ⟨d, hcaches, hcoord⟩ := hl.coord
        rw [hcoord, Coordinator.enqueue, Std.ExtTreeMap.mem_iff_isSome_getElem?, hcaches.spec]
        split
        · rename_i hin
          exact WorkflowSpec.findTask_isSome_iff.mpr hin
        · exact Std.ExtTreeMap.mem_iff_isSome_getElem?.mp ht
    | _ => cases hc

/-- The tasks of a running workflow are known. -/
theorem Inv.known (h : Inv P w) {t id : String} (hown : w.store.ownerOf t = some id)
    (hrun : w.store.workflowStateOf id = some .running) : t ∈ w.coord.taskSpecCache := by
  obtain ⟨r, hr, rfl⟩ := ownerOf_eq_some.mp hown
  obtain ⟨id, hid⟩ := (Table.mem_iff_get _ _).mp (h.active t r hr hrun)
  obtain ⟨wf, _, hin, hspec, _⟩ := h.cached.owner t id hid
  rw [Std.ExtTreeMap.mem_iff_isSome_getElem?, hspec]
  exact WorkflowSpec.findTask_isSome_iff.mpr hin

/-- A task with `front` before it in the queue is handed out or skipped before more
requests than `front` has tasks. -/
theorem handed_out_or_skipped (env : Env) {pre post : List Call}
    (hids : NeverReused (submitted (pre ++ post))) (hrestart : .restart ∉ post) {t : String}
    {front back : List String}
    (hq : (runCalls env pre).coord.readyQueue = front ++ t :: back)
    (hknown : t ∈ (runCalls env pre).coord.taskSpecCache)
    (hasks : front.length < post.countP Call.asks) :
    ∃ mid c, mid ++ [c] <+: post ∧
      (HandsOut t c (c.exec env (runCalls env (pre ++ mid))).1 ∨
        (runCalls env (pre ++ mid ++ [c])).store.stateOf t = some .skipped) := by
  induction post generalizing pre front back with
  | nil => cases hasks
  | cons c post ih =>
    have hcons : pre ++ c :: post = pre ++ [c] ++ post := by simp
    rw [hcons] at hids
    have hids' : NeverReused (submitted (pre ++ [c])) := hids.mono (List.prefix_append _ _)
    have hr : c ≠ .restart := fun heq => hrestart (heq ▸ List.mem_cons_self)
    have h := inv_runCalls env hids'.of_append
    have heff := effect_runCalls env hids'
    rcases (heff.queue h (admissible_next h.sound hids') hr).place hq hknown with
      hout | hskipped | ⟨front', back', hq', hlen⟩
    · exact ⟨[], c, by simp, .inl (by simpa using hout)⟩
    · exact ⟨[], c, by simp, .inr (by simpa using hskipped)⟩
    · rw [List.countP_cons] at hasks
      obtain ⟨mid, d, hmid, hdone⟩ := ih hids (fun hin => hrestart (List.mem_cons_of_mem c hin))
        hq' (heff.known_mono hr hknown) (by omega)
      refine ⟨c :: mid, d, by simpa using hmid, ?_⟩
      rw [← List.append_cons pre c mid] at hdone
      exact hdone

/-- A queued task of a running workflow, with `n` tasks in front of it, is handed out
within the next `n + 1` requests, or is skipped before. -/
theorem queue_fair (env : Env) {pre post : List Call}
    (hids : NeverReused (submitted (pre ++ post))) (hrestart : .restart ∉ post)
    {t id : String} (hown : (runCalls env pre).store.ownerOf t = some id)
    (hrun : (runCalls env pre).store.workflowStateOf id = some .running)
    (hqueued : (runCalls env pre).store.stateOf t = some .queued)
    (hasks : (runCalls env pre).coord.readyQueue.idxOf t < post.countP Call.asks) :
    ∃ mid c, mid ++ [c] <+: post ∧
      (HandsOut t c (c.exec env (runCalls env (pre ++ mid))).1 ∨
        (runCalls env (pre ++ mid ++ [c])).store.stateOf t = some .skipped) := by
  have h := inv_runCalls env (hids.mono (List.prefix_append _ _))
  obtain ⟨r, hr, hst⟩ := stateOf_eq_some.mp hqueued
  have hin : t ∈ (runCalls env pre).coord.readyQueue := by
    refine h.agree.listed t r hr hst ?_
    rw [ownerOf_of_get hr] at hown
    rw [Option.some.inj hown]
    exact hrun
  have hlt := List.idxOf_lt_length_of_mem hin
  have hsplit : (runCalls env pre).coord.readyQueue
      = (runCalls env pre).coord.readyQueue.take ((runCalls env pre).coord.readyQueue.idxOf t)
        ++ t :: (runCalls env pre).coord.readyQueue.drop
          ((runCalls env pre).coord.readyQueue.idxOf t + 1) := by
    conv_lhs => rw [← List.take_append_drop
      ((runCalls env pre).coord.readyQueue.idxOf t) (runCalls env pre).coord.readyQueue]
    rw [List.drop_eq_getElem_cons hlt, List.getElem_idxOf]
  refine handed_out_or_skipped env hids hrestart hsplit (h.known hown hrun) ?_
  · rw [List.length_take, Nat.min_eq_left hlt.le]
    exact hasks

/-- Three tasks are ready, and the first one fails and goes to the end of the queue. -/
def rootsFailing : List Call :=
  [.submitWorkflow .asListed (.roots .failFast 3), .getReadyTask "k", .failTask "a" "x" "err"]

/-- The task that has failed waits behind the other two.  It gets its turn with the third
request, although a worker dies in between. -/
theorem queue_fair_rootsFailing :
    (runCalls .counting rootsFailing).coord.readyQueue = ["b", "c", "a"] ∧
    ∃ mid c, mid ++ [c] <+: [.getReadyTask "k", .getReadyTask "l",
        .handleDeadWorker (.asListed _) "l", .getReadyTask "k"] ∧
      (HandsOut "a" c (c.exec .counting (runCalls .counting (rootsFailing ++ mid))).1 ∨
        (runCalls .counting (rootsFailing ++ mid ++ [c])).store.stateOf "a" = some .skipped) := by
  have hown : (runCalls .counting rootsFailing).store.ownerOf "a" = some "w" := by decide
  have hqueue : (runCalls .counting rootsFailing).coord.readyQueue = ["b", "c", "a"] := by decide
  refine ⟨hqueue, queue_fair .counting (neverReused_of_one rfl) (by simp) hown (by decide)
    (by decide) ?_⟩
  rw [hqueue]
  decide

end DagScheduler
