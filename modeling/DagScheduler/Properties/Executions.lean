import DagScheduler.Coordinator.Steps

/-!
# Executions take effect once

A worker reports the end of an execution with `CompleteTask` or `FailTask`.
A report takes effect exactly when its execution ID is the one that
`assignedTasks` has for the task (`takesEffect_iff`).

* An ID enters `assignedTasks` only when `GetReadyTask` hands it out, and it
  stays there only while the task is not queued again: `issuedLast_runCalls`
  finds the call that issued it.
* After its report an ID is `Spent`.  The generator has passed it, so it is
  never assigned again.
* A record that is `COMPLETE` under `e` comes from an accepted `CompleteTask`
  with `e` and is never rewritten, so a repetition finds it.
-/

namespace DagScheduler

open Lib Store

/-- The call reports the end of the execution `e` of the task `t`. -/
def Call.Reports (t e : String) : Call → Prop
  | .completeTask t' e' _ | .failTask t' e' _ => t' = t ∧ e' = e
  | _ => False

/-- What the call `c` returns after `calls`. -/
def replyTo (env : Env) (calls : List Call) (c : Call) : Reply :=
  (c.exec env (runCalls env calls)).1

/-- The call `c` after `calls` changes a record, the queue or a map. -/
def TakesEffect (env : Env) (calls : List Call) (c : Call) : Prop :=
  (runCalls env (calls ++ [c])).store ≠ (runCalls env calls).store ∨
    (runCalls env (calls ++ [c])).coord ≠ (runCalls env calls).coord

/-- A `CompleteTask` for the execution `e` of `t` has returned nil. -/
def CompletedIn (env : Env) (calls : List Call) (t e : String) : Prop :=
  ∃ (pre : List Call) (output : String), pre ++ [.completeTask t e output] <+: calls ∧
    (replyTo env pre (.completeTask t e output)).isNil = true

/-- The latest `GetReadyTask` that handed out `t` issued `e`, and `t` has not
been queued again since. -/
def IssuedLast (env : Env) (calls : List Call) (t e : String) : Prop :=
  ∃ (pre post : List Call) (workerID : String) (a : TaskAssignment),
    pre ++ [.getReadyTask workerID] ++ post = calls ∧
    replyTo env pre (.getReadyTask workerID) = .assignment (some a) ∧
    a.taskId = t ∧ a.executionId = e ∧
    (∀ (mid : List Call) (other : String) (b : TaskAssignment),
      mid ++ [.getReadyTask other] <+: post →
      replyTo env (pre ++ [.getReadyTask workerID] ++ mid) (.getReadyTask other)
        = .assignment (some b) → b.taskId ≠ t) ∧
    ∀ mid : List Call, mid <+: post →
      (runCalls env (pre ++ [.getReadyTask workerID] ++ mid)).store.stateOf t
        ≠ some .queued

/-- Every execution takes effect at most once in the run. -/
structure ExecutionsOnce (env : Env) (calls : List Call) : Prop where
  /-- Two reports of one execution that take effect are the same call. -/
  once : ∀ (t e : String) (pre pre' : List Call) (c c' : Call),
    pre ++ [c] <+: calls → pre' ++ [c'] <+: calls → c.Reports t e → c'.Reports t e →
    TakesEffect env pre c → TakesEffect env pre' c' → pre = pre'
  /-- Only a report of the latest execution takes effect. -/
  current : ∀ (t e : String) (pre : List Call) (c : Call), pre ++ [c] <+: calls →
    c.Reports t e → TakesEffect env pre c → IssuedLast env pre t e
  /-- A repetition of an accepted `CompleteTask` returns nil and changes nothing. -/
  repeated : ∀ (t e output : String) (pre : List Call),
    pre ++ [.completeTask t e output] <+: calls → CompletedIn env pre t e →
    (replyTo env pre (.completeTask t e output)).isNil = true ∧
      ¬ TakesEffect env pre (.completeTask t e output)
  /-- Any other report returns an error. -/
  refused : ∀ (t e : String) (pre : List Call) (c : Call), pre ++ [c] <+: calls →
    c.Reports t e → ¬ TakesEffect env pre c →
    ¬ ((∃ output, c = .completeTask t e output) ∧ CompletedIn env pre t e) →
    ∃ err, replyTo env pre c = .status (.error err)

variable {env : Env} {P P' : WorkflowSpec → Prop} {w w' : World} {c : Call}
  {calls : List Call} {t e : String}

/-! ## One report -/

/-- The record of `t` is `COMPLETE` under the execution `e`. -/
def Store.CompleteUnder (s : Store) (t e : String) : Prop :=
  ∃ r, s.taskState[t]? = some r ∧ r.state = .complete ∧ r.executionID = e

/-- A report of the current execution is accepted, and the task is no longer
assigned. -/
theorem Effect.report_accepted {reply : Reply} (heff : Effect env w c reply w')
    (hrep : c.Reports t e) (ha : w.coord.assignedTasks[t]? = some e) :
    reply = .status (.ok ()) ∧ w'.coord.assignedTasks[t]? = none := by
  have hforget : ∀ c' : Coordinator, c'.assignedTasks = (w.coord.forget t).assignedTasks →
      c'.assignedTasks[t]? = none := by
    intro c' hc'
    rw [hc']
    simp [Coordinator.forget]
  cases heff with
  | completeTask heff =>
    obtain ⟨rfl, rfl⟩ := hrep
    cases heff with
    | ignored hne _ => exact absurd ha hne
    | accepted _ _ _ _ hcoord _ => exact ⟨rfl, hforget _ (by rw [hcoord]; rfl)⟩
  | failTask heff =>
    obtain ⟨rfl, rfl⟩ := hrep
    cases heff with
    | stale hne => exact absurd ha hne
    | retried _ _ _ _ hcoord _ => exact ⟨rfl, hforget _ (by rw [hcoord]; rfl)⟩
    | @failed _ wf _ _ _ _ _ _ hpol _ =>
      refine ⟨rfl, hforget _ ?_⟩
      generalize wf.failurePolicy = policy at hpol
      cases hpol with
      | failFast hg _ =>
        obtain ⟨gone, _, hcoord⟩ := hg.coord
        rw [hcoord]
        rfl
      | below _ hg _ =>
        obtain ⟨gone, _, hcoord⟩ := hg.coord
        rw [hcoord]
        rfl
      | unrecognized _ hcoord => rw [hcoord]
  | _ => exact hrep.elim

/-- A report of another execution changes nothing.  It returns nil only when
it repeats the completion of the task. -/
theorem Effect.report_ignored {reply : Reply} (heff : Effect env w c reply w')
    (hrep : c.Reports t e) (ha : w.coord.assignedTasks[t]? ≠ some e) :
    w' = w ∧ ((∃ err, reply = .status (.error err)) ∨
      reply.isNil = true ∧ (∃ output, c = .completeTask t e output) ∧
        w.store.CompleteUnder t e) := by
  cases heff with
  | @completeTask _ _ output result _ heff =>
    obtain ⟨rfl, rfl⟩ := hrep
    cases heff with
    | accepted ha' _ _ _ _ _ => exact absurd ha' ha
    | ignored _ hiff =>
      refine ⟨rfl, ?_⟩
      cases result with
      | error err => exact .inl ⟨err, rfl⟩
      | ok _ => exact .inr ⟨rfl, ⟨output, rfl⟩, hiff.mp rfl⟩
  | failTask heff =>
    obtain ⟨rfl, rfl⟩ := hrep
    obtain ⟨rfl, hsame⟩ := heff.of_not_assigned ha
    exact ⟨hsame, .inl ⟨_, rfl⟩⟩
  | _ => exact hrep.elim

/-- A repetition of the completion finds the record. -/
theorem Effect.completion_repeated (h : Inv P w) {reply : Reply} {output : String}
    (heff : Effect env w (.completeTask t e output) reply w')
    (hdone : w.store.CompleteUnder t e) : reply.isNil = true ∧ w' = w := by
  obtain ⟨r, hr, hst, he⟩ := hdone
  cases heff with
  | completeTask heff =>
    cases heff with
    | accepted ha _ _ _ _ _ =>
      rcases h.state_of_assigned ha hr with hx | hx <;> rw [hx] at hst <;> cases hst
    | ignored _ hiff =>
      rw [hiff.mpr ⟨r, hr, hst, he⟩]
      exact ⟨rfl, rfl⟩

/-- A record that is `COMPLETE` under `e` was so before, or is completed by a
report of `e`. -/
theorem TaskStep.completeUnder_back (h : Inv P w)
    (hstep : TaskStep env w w' t c w.store.taskState[t]? w'.store.taskState[t]?)
    (hdone : w'.store.CompleteUnder t e) :
    w.store.CompleteUnder t e ∨
      (∃ output, c = .completeTask t e output) ∧ w.coord.assignedTasks[t]? = some e := by
  obtain ⟨r', hr', hst', he'⟩ := hdone
  rw [hr'] at hstep
  generalize ho : w.store.taskState[t]? = o at hstep
  cases hstep with
  | same => exact .inl ⟨r', ho, hst', he'⟩
  | created _ hnew _ _ => rcases hnew with hnew | hnew <;> simp [hnew] at hst'
  | @completed e₀ output r now ha =>
    obtain ⟨r₀, hr₀, he₀, _⟩ := h.agree.assigned t e₀ ha
    rw [ho] at hr₀
    cases hr₀
    have hee : e₀ = e := he₀.symm.trans he'
    subst hee
    exact .inr ⟨⟨output, rfl⟩, ha⟩
  | released _ hp =>
    rcases iterate_unlocked_pending _ hp _ with hq | hq <;> rw [hq] at hst' <;> cases hst'
  | _ => cases hst'

/-- A completion under `e` stays. -/
theorem Store.CompleteUnder.step (h : Inv P w) (hadm : c.Admissible P' w) {reply : Reply}
    (heff : Effect env w c reply w') (hdone : w.store.CompleteUnder t e) :
    w'.store.CompleteUnder t e := by
  obtain ⟨r, hr, hst, he⟩ := hdone
  have hstep := heff.task h hadm t
  rw [hr] at hstep
  exact ⟨r, hstep.eq_of_over h hr (.inl hst), hst, he⟩

/-- An accepted `CompleteTask` leaves the record `COMPLETE` under its
execution. -/
theorem Effect.completeUnder (h : Inv P w) {reply : Reply} {output : String}
    (heff : Effect env w (.completeTask t e output) reply w') (hnil : reply.isNil = true) :
    w'.store.CompleteUnder t e := by
  cases heff with
  | @completeTask _ _ _ result _ heff =>
    cases heff with
    | ignored _ hiff =>
      cases result with
      | error err => cases hnil
      | ok _ => exact hiff.mp rfl
    | @accepted r now s _ _ ha hr hcomp hchk _ _ =>
      obtain ⟨r₀, hr₀, he, _⟩ := h.agree.assigned t e ha
      rw [hr] at hr₀
      cases hr₀
      refine ⟨{ r with state := .complete, output := output, lastUpdated := now }, ?_, rfl, he⟩
      rw [hchk.taskState, hcomp.task]

/-! ## Issued and spent executions -/

/-- The generator has passed `e`, and `t` is not assigned to it. -/
structure Spent (env : Env) (t e : String) (w : World) : Prop where
  passed : ∃ n < w.uuids, e = env.uuid n
  free : w.coord.assignedTasks[t]? ≠ some e

theorem Spent.step (h : Inv P w) {reply : Reply} (heff : Effect env w c reply w')
    (hspent : Spent env t e w) : Spent env t e w' := by
  obtain ⟨n, hn, he⟩ := hspent.passed
  refine ⟨⟨n, lt_of_lt_of_le hn heff.uuids_le, he⟩, ?_⟩
  intro ha'
  rcases heff.assigned_back h ha' with ha | ⟨hnew, _⟩
  · exact hspent.free ha
  · have hn' : n = w.uuids := env.uuid_injective (he.symm.trans hnew)
    omega

/-- Every assigned execution has come from the generator. -/
theorem passed_runCalls (env : Env) (calls : List Call)
    (hids : NeverReused (submitted calls)) :
    ∀ t e : String, (runCalls env calls).coord.assignedTasks[t]? = some e →
      ∃ n < (runCalls env calls).uuids, e = env.uuid n := by
  refine runCalls_induction (I := fun _ w => ∀ t e : String,
    w.coord.assignedTasks[t]? = some e → ∃ n < w.uuids, e = env.uuid n) ?_ ?_ calls hids
  · intro t e ha
    simp at ha
  · intro calls c reply w w' _ h heff _ ih t e ha'
    rcases heff.assigned_back h ha' with ha | ⟨hnew, hlt, _⟩
    · obtain ⟨n, hn, he⟩ := ih t e ha
      exact ⟨n, lt_of_lt_of_le hn heff.uuids_le, he⟩
    · exact ⟨w.uuids, hlt, hnew⟩

/-- A task that is assigned is not queued. -/
theorem Inv.not_queued (h : Inv P w) (ha : w.coord.assignedTasks[t]? = some e) :
    w.store.stateOf t ≠ some .queued := by
  obtain ⟨r, hr, _, hst, _⟩ := h.agree.assigned t e ha
  rw [stateOf_of_get hr]
  rcases hst with hst | hst <;> simp [hst]

/-- `GetReadyTask` hands out queued tasks only. -/
theorem Effect.queued_of_assignment (h : Inv P w) {workerID : String}
    {a : TaskAssignment}
    (heff : Effect env w (.getReadyTask workerID) (.assignment (some a)) w') :
    w.store.stateOf a.taskId = some .queued := by
  cases heff with
  | getReadyTask heff =>
    cases heff with
    | assigned hq _ _ _ _ _ => exact h.agree.queued _ (by rw [hq]; exact List.mem_cons_self)

/-- The run lemma: an assigned execution was issued by the latest
`GetReadyTask` for its task. -/
theorem issuedLast_runCalls (env : Env) (hids : NeverReused (submitted calls))
    (ha : (runCalls env calls).coord.assignedTasks[t]? = some e) :
    IssuedLast env calls t e := by
  induction calls using List.reverseRecOn with
  | nil => simp [runCalls] at ha
  | append_singleton calls c ih =>
    have h := inv_runCalls env hids.of_append
    have h' := inv_runCalls env hids
    have hqueued := h'.not_queued ha
    rcases (effect_runCalls env hids).assigned_back h ha with
      hold | ⟨_, _, _, workerID, a, rfl, hreply, hat, hae⟩
    · -- The issuing call is the old one, and `c` is one more call since.
      obtain ⟨pre, post, workerID, a, rfl, hreply, hat, hae, hlatest, hnever⟩ :=
        ih hids.of_append hold
      refine ⟨pre, post ++ [c], workerID, a, by rw [List.append_assoc, List.append_assoc,
        List.append_assoc], hreply, hat, hae, ?_, ?_⟩
      · intro mid other b hmid hb
        rcases List.prefix_concat_iff.mp hmid with heq | hin
        · obtain ⟨rfl, hc⟩ := List.append_inj' heq rfl
          cases hc
          have heff := effect_runCalls env hids
          rw [replyTo] at hb
          rw [hb] at heff
          intro hbt
          have hq := heff.queued_of_assignment h
          rw [hbt] at hq
          exact h.not_queued hold hq
        · exact hlatest mid other b hin hb
      · intro mid hmid
        rcases List.prefix_concat_iff.mp hmid with rfl | hin
        · rw [← List.append_assoc]
          exact hqueued
        · exact hnever mid hin
    · refine ⟨calls, [], workerID, a, by rw [List.append_nil], hreply, hat, hae, ?_, ?_⟩
      · intro mid other b hmid
        simp at hmid
      · intro mid hmid
        rw [List.prefix_nil.mp hmid, List.append_nil]
        exact hqueued

/-- A report takes effect exactly when its execution is assigned. -/
theorem takesEffect_iff (hids : NeverReused (submitted (calls ++ [c])))
    (hrep : c.Reports t e) :
    TakesEffect env calls c ↔
      (runCalls env calls).coord.assignedTasks[t]? = some e := by
  have heff := effect_runCalls env hids
  constructor
  · intro heffect
    by_contra hne
    obtain ⟨hsame, _⟩ := heff.report_ignored hrep hne
    rw [TakesEffect, hsame] at heffect
    simp at heffect
  · intro ha
    right
    intro hsame
    have hgone := (heff.report_accepted hrep ha).2
    rw [hsame, ha] at hgone
    cases hgone

/-- A record that is `COMPLETE` under `e` comes from an accepted report. -/
theorem completedIn_of_completeUnder (hids : NeverReused (submitted calls))
    (hdone : (runCalls env calls).store.CompleteUnder t e) : CompletedIn env calls t e := by
  induction calls using List.reverseRecOn with
  | nil =>
    obtain ⟨r, hr, _⟩ := hdone
    simp [runCalls] at hr
  | append_singleton calls c ih =>
    have h := inv_runCalls env hids.of_append
    have heff := effect_runCalls env hids
    rcases (heff.task h (admissible_next h.sound hids) t).completeUnder_back h hdone with
      hold | ⟨⟨output, rfl⟩, ha⟩
    · obtain ⟨pre, output, hpre, hnil⟩ := ih hids.of_append hold
      exact ⟨pre, output, hpre.trans (List.prefix_append _ _), hnil⟩
    · refine ⟨calls, output, List.prefix_rfl, ?_⟩
      have haccepted := (heff.report_accepted ⟨rfl, rfl⟩ ha).1
      rw [replyTo, haccepted]
      rfl

/-- After an accepted report the record stays `COMPLETE` under `e`. -/
theorem CompletedIn.completeUnder (hids : NeverReused (submitted calls))
    (hdone : CompletedIn env calls t e) : (runCalls env calls).store.CompleteUnder t e := by
  obtain ⟨pre, output, hpre, hnil⟩ := hdone
  have hids' := hids.mono hpre
  refine runCalls_stable (I := fun w => w.store.CompleteUnder t e) ?_ hpre hids ?_
  · intro P P' c reply w w' h hadm heff hdone
    exact hdone.step h hadm heff
  · exact (effect_runCalls env hids').completeUnder (inv_runCalls env hids'.of_append) hnil

/-- The execution of a report that took effect is spent from then on. -/
theorem spent_runCalls {pre : List Call} (hids : NeverReused (submitted calls))
    (hpre : pre ++ [c] <+: calls) (hrep : c.Reports t e)
    (heffect : TakesEffect env pre c) : Spent env t e (runCalls env calls) := by
  have hids' := hids.mono hpre
  have ha := (takesEffect_iff hids' hrep).mp heffect
  have heff := effect_runCalls env hids'
  refine runCalls_stable (fun P P' c reply w w' h _ heff hs => hs.step h heff) hpre hids ?_
  obtain ⟨n, hn, he⟩ := passed_runCalls env pre hids'.of_append t e ha
  refine ⟨⟨n, lt_of_lt_of_le hn heff.uuids_le, he⟩, ?_⟩
  rw [(heff.report_accepted hrep ha).2]
  simp

/-- In every run that reuses no ID each execution takes effect at most once. -/
theorem executions_once (env : Env) {calls : List Call}
    (hids : NeverReused (submitted calls)) : ExecutionsOnce env calls := by
  refine ⟨?_, ?_, ?_, ?_⟩
  · intro t e pre pre' c c' hpre hpre' hrep hrep' heffect heffect'
    -- Of two reports that take effect the later one finds its execution spent.
    have hlater : ∀ {p p' : List Call} {d d' : Call}, p ++ [d] <+: p' →
        p' ++ [d'] <+: calls → d.Reports t e → d'.Reports t e →
        TakesEffect env p d → ¬ TakesEffect env p' d' := by
      intro p p' d d' hp hp' hd hd' heff heff'
      have hids' := hids.mono hp'
      exact (spent_runCalls hids'.of_append hp hd heff).free
        ((takesEffect_iff hids' hd').mp heff')
    rcases List.prefix_or_prefix_of_prefix hpre hpre' with hle | hle
    · rcases List.prefix_concat_iff.mp hle with heq | hlt
      · exact (List.append_inj' heq rfl).1
      · exact absurd heffect' (hlater hlt hpre' hrep hrep' heffect)
    · rcases List.prefix_concat_iff.mp hle with heq | hlt
      · exact (List.append_inj' heq rfl).1.symm
      · exact absurd heffect (hlater hlt hpre hrep' hrep heffect')
  · intro t e pre c hpre hrep heffect
    have hids' := hids.mono hpre
    exact issuedLast_runCalls env hids'.of_append ((takesEffect_iff hids' hrep).mp heffect)
  · intro t e output pre hpre hdone
    have hids' := hids.mono hpre
    obtain ⟨hnil, hsame⟩ := (effect_runCalls env hids').completion_repeated
      (inv_runCalls env hids'.of_append) (hdone.completeUnder hids'.of_append)
    refine ⟨hnil, ?_⟩
    rw [TakesEffect, hsame]
    simp
  · intro t e pre c hpre hrep hnot hother
    have hids' := hids.mono hpre
    have hne : (runCalls env pre).coord.assignedTasks[t]? ≠ some e :=
      fun ha => hnot ((takesEffect_iff hids' hrep).mpr ha)
    rcases ((effect_runCalls env hids').report_ignored hrep hne).2 with
      herr | ⟨_, hcall, hdone⟩
    · exact herr
    · exact absurd ⟨hcall, completedIn_of_completeUnder hids'.of_append hdone⟩ hother

/-- A completion that is reported three times, once after a restart. -/
theorem executions_once_repeated :
    ExecutionsOnce .counting
      [.submitWorkflow .asListed (.pair .failFast 3), .getReadyTask "k",
        .completeTask "a" "x" "out", .completeTask "a" "x" "out", .restart,
        .completeTask "a" "x" "other", .failTask "a" "x" "late"] :=
  executions_once .counting (neverReused_of_one rfl)

end DagScheduler
