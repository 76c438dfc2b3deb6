import DagScheduler.Properties.Fairness
import DagScheduler.Properties.Progress
import DagScheduler.Properties.RetryBound
import DagScheduler.Properties.WorkflowFinality

/-!
# Work runs out

A worker that asks for a task, reports on it and asks again finishes every
workflow.  The measure is the `backlog`: the tasks that wait, and the tasks in the
queue.  A round takes one task out of the queue.  A success moves as many tasks from
waiting to the queue as it releases, and a last failure only takes tasks out, so a
round that finds a task makes the backlog smaller by one.  When the queue is empty
and no task has a worker, no workflow is left that can run.

A failure is a last one only where the limit is one.  The count of attempts is not
written back when a task is queued again, so a task with a larger limit could fail
and come back forever.
-/

namespace DagScheduler

open Lib Store

variable {env : Env} {P P' : WorkflowSpec → Prop} {w w' : World} {c : Call}

/-! ## The backlog -/

/-- The tasks that wait for a dependency. -/
def Store.pending (s : Store) : Finset String :=
  s.taskState.keys.toFinset.filter fun t => s.stateOf t = some .pending

theorem Store.mem_pending {s : Store} {t : String} :
    t ∈ s.pending ↔ s.stateOf t = some .pending := by
  rw [pending, Finset.mem_filter, List.mem_toFinset, Std.ExtTreeMap.mem_keys, and_iff_right_iff_imp]
  intro ht
  obtain ⟨r, hr, _⟩ := stateOf_eq_some.mp ht
  exact (Table.mem_iff_get _ _).mpr ⟨r, hr⟩

/-- The tasks that are still to be handed out. -/
def World.backlog (w : World) : Nat := w.store.pending.card + w.coord.readyQueue.length

/-- Only a submission makes a task wait. -/
theorem Effect.pending_subset (h : Inv P w) (hadm : c.Admissible P' w) {reply : Reply}
    (heff : Effect env w c reply w') (hc : c.submits = none) :
    w'.store.pending ⊆ w.store.pending := by
  intro t ht
  rw [mem_pending] at ht ⊢
  exact (heff.task h hadm t).pending_back hc ht

/-- A call that queues no task does not raise the backlog. -/
theorem Effect.backlog_le (h : Inv P w) (hadm : c.Admissible P' w) {reply : Reply}
    (heff : Effect env w c reply w') (hc : c.submits = none)
    (hqueue : w'.coord.readyQueue.Sublist w.coord.readyQueue) : w'.backlog ≤ w.backlog :=
  Nat.add_le_add (Finset.card_le_card (heff.pending_subset h hadm hc)) hqueue.length_le

/-- A completion queues tasks that were waiting. -/
theorem CompleteEffect.backlog_le {t e output : String} {result : Except CallError Unit}
    (heff : CompleteEffect w t e output result w') : w'.backlog ≤ w.backlog := by
  cases heff with
  | ignored _ _ => exact Nat.le_refl _
  | @accepted r now s ready _ _ hr hc hchk hcoord _ =>
    have hqueue : w'.coord.readyQueue = w.coord.readyQueue ++ ready := by
      rw [hcoord]
      rfl
    have hstate : ∀ u, w'.store.stateOf u = s.stateOf u := Store.stateOf_congr hchk.taskState
    -- What waits afterwards and what was released waited before.
    have hsub : w'.store.pending ∪ ready.toFinset ⊆ w.store.pending := by
      intro u hu
      rw [Finset.mem_union, List.mem_toFinset, mem_pending, hstate] at hu
      rw [mem_pending]
      rcases hu with hu | hu
      · have hne : u ≠ t := by
          rintro rfl
          rw [stateOf_of_get hc.task] at hu
          cases hu
        rcases hc.stateOf_other hne with heq | ⟨hp, _⟩
        · rw [← heq, hu]
        · exact hp
      · exact ((hc.mem_ready u).mp hu).1
    have hdisj : Disjoint w'.store.pending ready.toFinset := by
      rw [Finset.disjoint_left]
      intro u hu hready
      rw [mem_pending, hstate] at hu
      rw [List.mem_toFinset, hc.mem_ready] at hready
      rw [hready.2] at hu
      cases hu
    have hcard := Finset.card_le_card hsub
    rw [Finset.card_union_of_disjoint hdisj, List.toFinset_card_of_nodup hc.nodup_ready] at hcard
    rw [World.backlog, World.backlog, hqueue, List.length_append]
    omega

/-! ## One report -/

/-- The call reports a success on the task, or a failure after which it is not tried
again. -/
inductive Settles (specs : List WorkflowSpec) (a : TaskAssignment) : Call → Prop where
  | success (output : String) :
      Settles specs a (.completeTask a.taskId a.executionId output)
  | lastFailure (errMsg : String) :
      (∀ wf ∈ specs, ∀ task ∈ wf.tasks, task.taskId = a.taskId → task.effectiveLimit = 1) →
      Settles specs a (.failTask a.taskId a.executionId errMsg)

/-- No task has a worker. -/
def World.Idle (w : World) : Prop := ∀ t : String, w.coord.assignedTasks[t]? = none

/-- The one task that has a worker is `a`. -/
def World.BusyWith (a : TaskAssignment) (w : World) : Prop :=
  ∀ t : String, w.coord.assignedTasks[t]? = if a.taskId = t then some a.executionId else none

theorem World.BusyWith.self {a : TaskAssignment} (h : w.BusyWith a) :
    w.coord.assignedTasks[a.taskId]? = some a.executionId := by rw [h, if_pos rfl]

theorem World.BusyWith.forget {a : TaskAssignment} (h : w.BusyWith a)
    (hassigned : w'.coord.assignedTasks = (w.coord.forget a.taskId).assignedTasks) :
    w'.Idle := by
  intro t
  rw [hassigned, Coordinator.forget, Table.get_erase, h]
  split <;> rfl

/-- A failure at the limit is the last one. -/
theorem FailEffect.of_last {t e errMsg : String} {result : Except CallError Unit}
    (heff : FailEffect env w t e errMsg result w') (ha : w.coord.assignedTasks[t]? = some e)
    (hatt : Attempts w.store) (h : Inv P w) (hlimit : w.coord.retryLimit t = 1) :
    ∃ gone, w'.coord = (w.coord.forget t).dropFromQueue gone := by
  cases heff with
  | stale hne => exact absurd ha hne
  | retried _ hr hlt _ _ _ =>
    have hzero := hatt.zero_of_state hr (by
      rcases h.state_of_assigned ha hr with hst | hst <;> simp [hst])
    rw [hzero, hlimit] at hlt
    exact absurd hlt (by decide)
  | failed _ _ _ _ hpol _ => exact hpol.coord

/-- A report that settles the only task with a worker leaves no worker busy, and
does not raise the backlog. -/
theorem Settles.step {specs : List WorkflowSpec} {a : TaskAssignment}
    (hset : Settles specs a c) (h : Inv (· ∈ specs) w) (hids : NeverReused specs)
    (hatt : Attempts w.store) (hbusy : w.BusyWith a) {reply : Reply}
    (heff : Effect env w c reply w') : w'.Idle ∧ w'.backlog ≤ w.backlog := by
  cases hset with
  | success output =>
    cases heff with
    | completeTask heff =>
      refine ⟨?_, heff.backlog_le⟩
      cases heff with
      | ignored hne _ => exact absurd hbusy.self hne
      | accepted _ _ _ _ hcoord _ => exact hbusy.forget (by rw [hcoord]; rfl)
  | lastFailure errMsg hlimit =>
    obtain ⟨wf, hwf, task, htask, hid⟩ := h.spec_of_assigned hbusy.self
    have hone : w.coord.retryLimit a.taskId = 1 := by
      rw [← hlimit wf hwf task htask hid, ← hid]
      exact h.retryLimit_eq hids hwf htask (hid ▸ hbusy.self)
    cases heff with
    | failTask heff =>
      obtain ⟨gone, hcoord⟩ := heff.of_last hbusy.self hatt h hone
      refine ⟨hbusy.forget (by rw [hcoord]; rfl), ?_⟩
      have hadm : (Call.failTask a.taskId a.executionId errMsg).Admissible (fun _ => True) w :=
        fun wf hwf => by cases hwf
      refine Effect.backlog_le h hadm (.failTask heff) rfl ?_
      rw [hcoord]
      exact List.filter_sublist

/-! ## How a workflow ends -/

/-- The workflow ended with a verdict, and all its tasks are over. -/
def Store.Ended (s : Store) (id : String) : Prop :=
  s.AllOver id ∧ (s.workflowStateOf id = some .complete ∨ s.workflowStateOf id = some .failed)

/-- A failure that stops a workflow under `FAIL_FAST` leaves none of its tasks open. -/
theorem FailEffect.ended_of_stopped {t e errMsg id : String} {wf : WorkflowSpec}
    {result : Except CallError Unit} (heff : FailEffect env w t e errMsg result w')
    (hown : w.store.ownerOf t = some id) (hwf : w.store.workflows[id]? = some wf)
    (hpolicy : wf.failurePolicy = .failFast)
    (hnew : w'.store.workflowState ≠ w.store.workflowState) : w'.store.Ended id := by
  cases heff with
  | stale _ => exact absurd rfl hnew
  | retried _ _ _ hstore _ _ => exact absurd (by rw [hstore]; rfl) hnew
  | failed _ hr _ hwf' hpol _ =>
    rw [ownerOf_of_get hr, Option.some.injEq] at hown
    rw [hown, hwf] at hwf'
    cases hwf'
    rw [hpolicy, hown] at hpol
    exact ⟨hpol.ended_of_failFast.1, .inr hpol.ended_of_failFast.2⟩

/-- Tasks that are over stay so, if every task with a worker is stored as `RUNNING`. -/
theorem Effect.allOver (h : Inv P w) (hadm : c.Admissible P' w) {reply : Reply}
    (heff : Effect env w c reply w') (hc : c.submits = none)
    (hquiet : ∀ t e : String, w.coord.assignedTasks[t]? = some e →
      w.store.stateOf t = some .running)
    {id : String} (hover : w.store.AllOver id) : w'.store.AllOver id := by
  intro u r' hr' hid
  obtain ⟨r, hr, hshape⟩ := (heff.sameShape h hadm hc).back hr'
  have hterm := hover u r hr (hshape.2.1.trans hid)
  have hstep := heff.task h hadm u
  rw [hr, hr'] at hstep
  have hsame := hstep.eq_of_terminal h hterm fun e ha => by
    have hrun := hquiet u e ha
    rw [stateOf_of_get hr] at hrun
    rw [Option.some.inj hrun] at hterm
    cases hterm
  rw [Option.some.inj hsame]
  exact hterm

/-- The workflow runs, or it has ended. -/
def Store.RunsOrEnded (s : Store) (id : String) : Prop :=
  s.workflowStateOf id = some .running ∨ s.Ended id

theorem Effect.runsOrEnded (h : Inv P w) (hadm : c.Admissible P' w) {reply : Reply}
    (heff : Effect env w c reply w') (hc : c.onTasks = true)
    (hquiet : ∀ t e : String, w.coord.assignedTasks[t]? = some e →
      w.store.stateOf t = some .running)
    {id : String} (hw : w.store.RunsOrEnded id) : w'.store.RunsOrEnded id := by
  have hsub : c.submits = none := by cases c <;> first | rfl | cases hc
  have hstep := heff.workflow id
  have hkeep : w.store.AllOver id → w'.store.AllOver id := heff.allOver h hadm hsub hquiet
  unfold RunsOrEnded at hw ⊢
  generalize ho : w.store.workflowStateOf id = o at hstep hw
  generalize ho' : w'.store.workflowStateOf id = o' at hstep
  cases hstep with
  | same => exact hw.imp_right fun hend => ⟨hkeep hend.1, by rw [ho', ← ho]; exact hend.2⟩
  | started _ => cases hsub
  | completed hall _ => exact .inr ⟨hall, .inl ho'⟩
  | failed hall _ => exact .inr ⟨hall, .inr ho'⟩
  | stopped hown hwf hpolicy =>
    rcases hw with hrun | hend
    · cases heff with
      | failTask heff =>
        refine .inr (heff.ended_of_stopped hown hwf hpolicy fun hsame => ?_)
        rw [workflowStateOf, hsame, ← workflowStateOf, ho, hrun] at ho'
        cases ho'
    · exact .inr ⟨hkeep hend.1, .inr ho'⟩
  | cancelled => cases hc

/-! ## One round -/

/-- A worker asks for a task, and reports on it if it gets one. -/
def askAndReport (env : Env) (report : TaskAssignment → Call) (workerID : String)
    (w : World) : List Call :=
  match ((Call.getReadyTask workerID).exec env w).1 with
  | .assignment (some a) => [.getReadyTask workerID, report a]
  | _ => [.getReadyTask workerID]

/-- The run `calls`, and then `n` rounds. -/
def serve (env : Env) (report : TaskAssignment → Call) (worker : Nat → String)
    (calls : List Call) : Nat → List Call
  | 0 => calls
  | n + 1 =>
      let served := serve env report worker calls n
      served ++ askAndReport env report (worker n) (runCalls env served)

theorem prefix_serve (env : Env) (report : TaskAssignment → Call) (worker : Nat → String)
    (calls : List Call) (n : Nat) : calls <+: serve env report worker calls n := by
  induction n with
  | zero => exact List.prefix_refl _
  | succ n ih => exact ih.trans (List.prefix_append _ _)

theorem Settles.submits {specs : List WorkflowSpec} {a : TaskAssignment}
    (h : Settles specs a c) : c.submits = none := by cases h <;> rfl

theorem Settles.onTasks {specs : List WorkflowSpec} {a : TaskAssignment}
    (h : Settles specs a c) : c.onTasks = true := by cases h <;> rfl

theorem submitted_append_of_none (calls : List Call) (hc : c.submits = none) :
    submitted (calls ++ [c]) = submitted calls := by
  rw [submitted_append, hc, Option.toList_none, List.append_nil]

/-- A worker that gets a task is busy with it, and the task has left the queue. -/
theorem ReadyEffect.busyWith {workerID : String} {a : TaskAssignment}
    (heff : ReadyEffect env w workerID (some a) w') (hidle : w.Idle) :
    w'.BusyWith a ∧ w'.store.stateOf a.taskId = some .running ∧
      w'.coord.readyQueue.length < w.coord.readyQueue.length := by
  cases heff with
  | assigned hq _ _ hstore hcoord _ =>
    refine ⟨fun t => ?_, ?_, ?_⟩
    · rw [hcoord, Table.get_insert, hidle]
    · rw [hstore, Store.stateOf_setTask, if_pos rfl]
    · rw [hcoord, hq]
      exact Nat.lt_succ_self _

/-- A worker that gets nothing has found the queue empty, or has taken a task out of
it that the coordinator does not know. -/
theorem ReadyEffect.of_none {workerID : String}
    (heff : ReadyEffect env w workerID none w') :
    w'.coord.assignedTasks = w.coord.assignedTasks ∧
      (w.coord.readyQueue = [] → w'.coord.readyQueue = []) ∧
      (w.coord.readyQueue ≠ [] →
        w'.coord.readyQueue.length < w.coord.readyQueue.length) := by
  cases heff with
  | empty hq => exact ⟨rfl, fun _ => hq, fun hne => absurd hq hne⟩
  | unknown hq _ =>
    rw [hq]
    exact ⟨rfl, fun hnil => absurd hnil (List.cons_ne_nil _ _), fun _ => Nat.lt_succ_self _⟩

section Round

variable {calls : List Call} {report : TaskAssignment → Call}
  (hids : NeverReused (submitted calls))
  (hreport : ∀ a, Settles (submitted calls) a (report a))
  (hidle : (runCalls env calls).Idle)
include hids hreport hidle

/-- A round that finds a task makes the backlog smaller. -/
theorem round_step (workerID : String) :
    let served := calls ++ askAndReport env report workerID (runCalls env calls)
    submitted served = submitted calls ∧ (runCalls env served).Idle ∧
      ((runCalls env calls).coord.readyQueue = [] →
        (runCalls env served).coord.readyQueue = []) ∧
      ((runCalls env calls).coord.readyQueue ≠ [] →
        (runCalls env served).backlog < (runCalls env calls).backlog) ∧
      ∀ id, (runCalls env calls).store.RunsOrEnded id →
        (runCalls env served).store.RunsOrEnded id := by
  have hask := submitted_append_of_none calls (c := .getReadyTask workerID) rfl
  have hids₁ : NeverReused (submitted (calls ++ [.getReadyTask workerID])) := by rwa [hask]
  have h := inv_runCalls env hids
  have h₁ := inv_runCalls env hids₁
  have hadm := admissible_next h.sound hids₁
  have heff := effect_runCalls env hids₁
  have hpending := Finset.card_le_card (heff.pending_subset h hadm rfl)
  have hends : ∀ id, (runCalls env calls).store.RunsOrEnded id →
      (runCalls env (calls ++ [.getReadyTask workerID])).store.RunsOrEnded id :=
    fun id => heff.runsOrEnded h hadm rfl fun t e ha => by
      rw [hidle t] at ha
      cases ha
  rw [askAndReport]
  generalize ((Call.getReadyTask workerID).exec env (runCalls env calls)).1 = reply at heff
  cases heff with
  | @getReadyTask _ a _ heff =>
    cases a with
    | none =>
      obtain ⟨hassigned, hnil, hlt⟩ := heff.of_none
      exact ⟨hask, fun t => by rw [hassigned]; exact hidle t, hnil,
        fun hne => Nat.add_lt_add_of_le_of_lt hpending (hlt hne), hends⟩
    | some a =>
      obtain ⟨hbusy, hrunning, hlt⟩ := heff.busyWith hidle
      have hset := hreport a
      have hsettled := submitted_append_of_none (calls ++ [.getReadyTask workerID])
        hset.submits
      have hids₂ := hids₁
      rw [← hsettled] at hids₂
      have hadm₁ := admissible_next h₁.sound hids₂
      have heff₁ := effect_runCalls env hids₂
      rw [hask] at h₁ hsettled
      have hstep := hset.step h₁ hids (attempts_runCalls env _ hids₁) hbusy heff₁
      have hcalls : calls ++ [.getReadyTask workerID, report a]
          = calls ++ [.getReadyTask workerID] ++ [report a] := by simp
      dsimp only
      rw [hcalls]
      refine ⟨hsettled, hstep.1, fun hnil => ?_,
        fun _ => hstep.2.trans_lt (Nat.add_lt_add_of_le_of_lt hpending hlt), fun id hw => ?_⟩
      · rw [hnil] at hlt
        cases hlt
      refine heff₁.runsOrEnded h₁ hadm₁ hset.onTasks (fun t e ha => ?_) (hends id hw)
      rw [hbusy t] at ha
      split at ha
      · rename_i ht
        rw [← ht]
        exact hrunning
      · cases ha

/-- After `n` rounds the queue is empty, or the backlog is smaller by `n`. -/
theorem serve_steps (worker : Nat → String) (n : Nat) :
    let served := serve env report worker calls n
    submitted served = submitted calls ∧ (runCalls env served).Idle ∧
      ((runCalls env served).coord.readyQueue = [] ∨
        (runCalls env served).backlog + n ≤ (runCalls env calls).backlog) ∧
      ∀ id, (runCalls env calls).store.RunsOrEnded id →
        (runCalls env served).store.RunsOrEnded id := by
  induction n with
  | zero => exact ⟨rfl, hidle, .inr (Nat.le_refl _), fun _ hw => hw⟩
  | succ n ih =>
    obtain ⟨hsub, hidle', hqueue, hends⟩ := ih
    obtain ⟨hsub', hidle'', hnil, hlt, hends'⟩ := round_step (by rw [hsub]; exact hids)
      (by rw [hsub]; exact hreport) hidle' (worker n)
    refine ⟨hsub'.trans hsub, hidle'', ?_, fun id hw => hends' id (hends id hw)⟩
    by_cases hempty : (runCalls env (serve env report worker calls n)).coord.readyQueue = []
    · exact .inl (hnil hempty)
    · have hless := hlt hempty
      have hle := hqueue.resolve_left hempty
      rw [serve]
      exact .inr (by omega)

end Round

/-- Without a queue and without workers no workflow runs that could go on. -/
theorem Store.Holds.not_running {wf : WorkflowSpec} (hold : w.store.Holds wf) (h : Inv P w)
    (halive : w.store.Alive (·.failurePolicy.named = true))
    (hnamed : wf.failurePolicy.named = true) (hne : wf.tasks ≠ []) (hidle : w.Idle)
    (hqueue : w.coord.readyQueue = []) :
    w.store.workflowStateOf wf.workflowId ≠ some .running := by
  intro hrun
  obtain ⟨t, ht, hqueued | hrunning⟩ :=
    hold.exists_active h.sound.coherent halive hnamed hne hrun
  · obtain ⟨r, hr, hst⟩ := stateOf_eq_some.mp hqueued
    have hown : r.workflowID = wf.workflowId := by
      have := hold.owner t ht
      rw [ownerOf_of_get hr] at this
      exact Option.some.inj this
    have hin := h.agree.listed t r hr hst (by rw [hown]; exact hrun)
    rw [hqueue] at hin
    cases hin
  · have hin := (h.agree.keys t).mp (h.running t hrunning)
    rw [Table.mem_iff_get] at hin
    obtain ⟨e, he⟩ := hin
    rw [hidle t] at he
    cases he

/-- From every state in which no task has a worker, as many rounds as the backlog
has tasks finish every running workflow that was accepted, has tasks and has a known
policy: its tasks are over, and it is stored as `COMPLETE` or `FAILED`. -/
theorem rounds_finish (env : Env) {calls : List Call} (hids : NeverReused (submitted calls))
    (hidle : (runCalls env calls).Idle) {report : TaskAssignment → Call}
    (hreport : ∀ a, Settles (submitted calls) a (report a)) (worker : Nat → String) {n : Nat}
    (hn : (runCalls env calls).backlog ≤ n) {wf : WorkflowSpec}
    (hacc : AcceptedIn env calls wf) (hne : wf.tasks ≠ [])
    (hnamed : wf.failurePolicy.named = true)
    (hrun : (runCalls env calls).store.workflowStateOf wf.workflowId = some .running) :
    (runCalls env (serve env report worker calls n)).store.Ended wf.workflowId := by
  obtain ⟨hsub, hidle', hqueue, hends⟩ := serve_steps hids hreport hidle worker n
  have hids' : NeverReused (submitted (serve env report worker calls n)) := by rwa [hsub]
  have hempty : (runCalls env (serve env report worker calls n)).coord.readyQueue = [] := by
    rcases hqueue with hempty | hle
    · exact hempty
    · rw [World.backlog] at hle
      exact List.length_eq_zero_iff.mp (by omega)
  have hold : (runCalls env (serve env report worker calls n)).store.Holds wf :=
    runCalls_stable (I := fun w => w.store.Holds wf)
      (fun _ _ _ _ _ _ h hadm heff hold => hold.step h hadm heff)
      (prefix_serve env report worker calls n) hids' (hacc.stored hids)
  refine (hends wf.workflowId (.inl hrun)).resolve_left ?_
  exact hold.not_running (inv_runCalls env hids') (alive_runCalls env _ hids') hnamed hne
    hidle' hempty

/-- The first task has completed when the process restarts, and one round completes
the second one. -/
theorem rounds_finish_restarted :
    (runCalls .counting (serve .counting
      (fun a => .completeTask a.taskId a.executionId "out") (fun _ => "k")
      (halfwayRun ++ [.restart]) 1)).store.Ended
        (WorkflowSpec.pair .skipDownstream 1).workflowId := by
  have hids : NeverReused (submitted (halfwayRun ++ [.restart])) := neverReused_of_one rfl
  have hidle : (runCalls .counting (halfwayRun ++ [.restart])).Idle := by
    have hempty : (runCalls .counting (halfwayRun ++ [.restart])).coord.assignedTasks.isEmpty
        = true := by decide
    intro t
    rw [Std.ExtTreeMap.isEmpty_iff.mp hempty]
    rfl
  have hacc : AcceptedIn .counting (halfwayRun ++ [.restart]) (.pair .skipDownstream 1) :=
    ⟨.asListed, .status (.ok ()), List.mem_cons_self, rfl⟩
  exact rounds_finish .counting hids hidle (fun a => .success "out") _ (by decide) hacc
    (by decide) rfl (by decide)

end DagScheduler
