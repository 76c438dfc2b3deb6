import DagScheduler.Coordinator.Continues
import DagScheduler.Model.Service
import DagScheduler.Store.Changes

/-!
# The watchdog

`checkHungWorkflows` warns about every workflow that is `RUNNING` and was submitted more
than ten minutes ago.  It knows the time of the submission from the record of the
workflow, which is rewritten when the workflow ends and read back after every crash.

`Stamped` says what the record has to keep.  One transaction sets the time, when the
workflow is submitted, and no action of a later call changes it.
-/

namespace DagScheduler

open Lib Store

variable {env : Env} {w w' : World} {c : Call} {id : String} {T : Int64}

/-- The record of the workflow carries this time of submission. -/
def Stamped (id : String) (T : Int64) (w : World) : Prop :=
  ∃ r, w.store.workflowState[id]? = some r ∧ r.submittedAtMs = T

/-! ## The time of the submission -/

/-- The end of a workflow does not change when it was submitted. -/
theorem nextWorkflowState_submittedAtMs (now : Int64) (id : String) (r : WorkflowStateRecord)
    (st : WorkflowState) : (nextWorkflowState now id (some r) st).submittedAtMs
      = r.submittedAtMs := by
  unfold nextWorkflowState
  split <;> rfl

/-- An assignment changes neither the states nor the specifications of workflows. -/
theorem World.getReadyTask_workflows (hk : w.store.Keyed) (workerID : String) :
    (w.getReadyTask env workerID).2.store.workflowState = w.store.workflowState ∧
      (w.getReadyTask env workerID).2.store.workflows = w.store.workflows := by
  have hcases : ReadyCases env w workerID (w.getReadyTask env workerID) :=
    w.getReadyTask_cases hk workerID
  generalize w.getReadyTask env workerID = out at hcases ⊢
  cases hcases with
  | empty _ => exact ⟨rfl, rfl⟩
  | unknown _ _ => exact ⟨rfl, rfl⟩
  | absent _ _ _ => exact ⟨rfl, rfl⟩
  | assigned _ _ _ => exact ⟨rfl, rfl⟩

/-- No action of a call changes the time, unless the call submits the workflow. -/
theorem Stamped.handle (hnew : ∀ wf, c.submits = some wf → wf.workflowId ≠ id)
    {J B : World → Prop} {β : Type} {e : Action β} (huses : c.Uses env J B e)
    (hk : w.store.Keyed) (h : Stamped id T w) : Stamped id T (Action.handle env e w).2 := by
  obtain ⟨r, hr, hT⟩ := h
  cases e with
  | update op =>
    rcases op.commit_workflowState hk env.marshals (env.now w.ticks) id with heq | ⟨r', hr', hop⟩
    · exact ⟨r, heq.trans hr, hT⟩
    · rw [hr] at hop
      refine ⟨r', hr', ?_⟩
      cases huses with
      | initWorkflowState _ => exact absurd hop.1 (hnew _ rfl)
      | conclude _ | concludeFailed _ | cancelState =>
        rw [hop.2, nextWorkflowState_submittedAtMs, hT]
      | _ => exact hop.elim
  | view f => exact ⟨r, hr, hT⟩
  | locked f => exact ⟨r, hr, hT⟩
  | newUUID => exact ⟨r, hr, hT⟩
  | getReadyTask k =>
    refine ⟨r, ?_, hT⟩
    show (w.getReadyTask env k).2.store.workflowState[id]? = some r
    rw [(w.getReadyTask_workflows hk k).1, hr]

/-- The record of the workflow is the old one, or it carries a reading of the clock since
the state `w₀`. -/
def StampedSince (env : Env) (id : String) (w₀ w : World) : Prop :=
  w₀.ticks ≤ w.ticks ∧ (w.store.workflowState[id]? = w₀.store.workflowState[id]? ∨
    ∃ k, w₀.ticks ≤ k ∧ k < w.ticks ∧ Stamped id (env.now k) w)

theorem StampedSince.handle {w₀ : World} {orders : DagOrders} {wf : WorkflowSpec}
    {J B : World → Prop} {β : Type} {e : Action β}
    (huses : (Call.submitWorkflow orders wf).Uses env J B e) (hk : w.store.Keyed)
    (h : StampedSince env id w₀ w) : StampedSince env id w₀ (Action.handle env e w).2 := by
  obtain ⟨hticks, hrec⟩ := h
  cases e with
  | update op =>
    refine ⟨hticks.trans (Nat.le_succ _), ?_⟩
    rcases op.commit_workflowState hk env.marshals (env.now w.ticks) id with heq | ⟨r', hr', hop⟩
    · refine hrec.imp heq.trans ?_
      rintro ⟨k, hle, hlt, r, hr, hT⟩
      exact ⟨k, hle, hlt.trans (Nat.lt_succ_self _), r, heq.trans hr, hT⟩
    · cases huses with
      | initWorkflowState _ =>
        exact .inr ⟨w.ticks, hticks, Nat.lt_succ_self _, r', hr', by rw [hop.2]⟩
      | _ => exact hop.elim
  | view f => exact ⟨hticks, hrec⟩
  | locked f => exact ⟨hticks, hrec⟩
  | newUUID => exact ⟨hticks, hrec⟩
  | getReadyTask k => cases huses

/-- An accepted workflow carries the time at which it was submitted. -/
theorem Inv.stamped_submit {P : WorkflowSpec → Prop} (h : Inv P w) {orders : DagOrders}
    {wf : WorkflowSpec} (hadm : (Call.submitWorkflow orders wf).Admissible P w)
    (hok : ((Call.submitWorkflow orders wf).exec env w).1.isNil = true) :
    ∃ k, w.ticks ≤ k ∧ k < ((Call.submitWorkflow orders wf).exec env w).2.ticks ∧
      Stamped wf.workflowId (env.now k) ((Call.submitWorkflow orders wf).exec env w).2 := by
  have hsince := (Call.keeps_of_wp (D := StampedSince env wf.workflowId w)
    (fun e w huses hs hD => hD.handle huses hs.coherent.linked.keyed)
    (Call.effect h _ hadm) h.sound ⟨Nat.le_refl _, .inl rfl⟩).1
  have heff : Effect env w (.submitWorkflow orders wf) _ _ := (h.exec _ hadm).1
  generalize (Call.submitWorkflow orders wf).exec env w = out at hok hsince heff ⊢
  obtain ⟨reply, w'⟩ := out
  rcases hsince.2 with heq | hstamped
  · -- The workflow is new, so the record before it was not `RUNNING`.
    exfalso
    cases heff with
    | submitWorkflow heff =>
      cases heff with
      | refused _ _ _ => cases hok
      | halted _ _ _ _ => cases hok
      | launched hla =>
        obtain ⟨now, hws⟩ := hla.workflowState
        rw [hws, Table.get_insert, if_pos rfl] at heq
        obtain ⟨other, hother⟩ := (Table.mem_iff_get _ _).mp
          ((h.sound.coherent.tracked _ _ heq.symm).2 rfl)
        exact ((hadm wf rfl).2 _ other hother).1 rfl
  · exact hstamped

/-! ## The warnings -/

theorem WorkflowStateRecord.workflowID_of_hung {r : WorkflowStateRecord} {nowMs : Int64}
    {warning : HungWorkflow} (h : r.hung nowMs = some warning) :
    warning.workflowID = r.workflowID := by
  unfold WorkflowStateRecord.hung at h
  split at h
  · cases h
  · dsimp only at h
    split at h
    · cases h
      rfl
    · cases h

/-- The warnings about one workflow come from its record. -/
theorem Store.hungWorkflows_filter {s : Store} (ht : s.Tracked) {r : WorkflowStateRecord}
    (hr : s.workflowState[id]? = some r) (nowMs : Int64) :
    (s.hungWorkflows nowMs).filter (·.workflowID = id) = (r.hung nowMs).toList := by
  have hkey : ∀ (i : String) (x : WorkflowStateRecord), s.workflowState[i]? = some x →
      ∀ warning, x.hung nowMs = some warning → warning.workflowID = i := by
    intro i x hx warning hwarning
    rw [WorkflowStateRecord.workflowID_of_hung hwarning, (ht i x hx).1]
  rw [hungWorkflows, getAllWorkflowStates, List.filterMap_map, List.filter_filterMap,
    Table.filterMap_toList_of_key (k := id), hr]
  · show ((r.hung nowMs).filter fun warning => warning.workflowID = id).toList = _
    cases hhung : r.hung nowMs with
    | none => rfl
    | some warning => simp [hkey id r hr warning hhung]
  · intro i x hx hi
    show (x.hung nowMs).filter (fun warning => warning.workflowID = id) = none
    cases hhung : x.hung nowMs with
    | none => rfl
    | some warning => simp [hkey i x hx warning hhung, hi]

/-- A check reads all the states in one transaction, and changes nothing. -/
theorem run_checkHungWorkflows (nowMs : Int64) (w : World) :
    (checkHungWorkflows nowMs).run (Action.handle env) w = (w.store.hungWorkflows nowMs, w) :=
  rfl

/-- The verdict on one record, in exact integers. -/
theorem WorkflowStateRecord.hung_exact {r : WorkflowStateRecord} {nowMs : Int64}
    (hlow : -2 ^ 63 ≤ nowMs.toInt - r.submittedAtMs.toInt)
    (hhigh : nowMs.toInt - r.submittedAtMs.toInt < 2 ^ 63) :
    r.hung nowMs = if r.state = .running ∧ 600000 < nowMs.toInt - r.submittedAtMs.toInt then
      some ⟨r.workflowID, Int64.ofInt ((nowMs.toInt - r.submittedAtMs.toInt) / 1000), 600⟩
      else none := by
  have hage : (nowMs - r.submittedAtMs).toInt = nowMs.toInt - r.submittedAtMs.toInt := by
    rw [Int64.toInt_sub, Int.bmod_def]
    split <;> omega
  have hthreshold : watchdogHungThreshold.toInt = 600000 := by decide
  have hlt : nowMs - r.submittedAtMs > watchdogHungThreshold ↔
      600000 < nowMs.toInt - r.submittedAtMs.toInt := by
    rw [gt_iff_lt, Int64.lt_iff_toInt_lt, hage, hthreshold]
  unfold WorkflowStateRecord.hung
  by_cases hst : r.state = .running
  · by_cases hold : 600000 < nowMs.toInt - r.submittedAtMs.toInt
    · have hsec : (nowMs - r.submittedAtMs) / 1000
          = Int64.ofInt ((nowMs.toInt - r.submittedAtMs.toInt) / 1000) := by
        rw [← Int64.toInt_inj, Int64.toInt_div_of_ne_right _ _ (by decide), hage,
          Int64.toInt_ofInt_of_le (by omega) (by omega)]
        exact Int.tdiv_eq_ediv_of_nonneg (by omega)
      rw [if_neg (not_not.mpr hst), if_pos (hlt.mpr hold), hsec, if_pos ⟨hst, hold⟩]
      rfl
    · rw [if_neg (not_not.mpr hst), if_neg (mt hlt.mp hold), if_neg fun h => hold h.2]
  · rw [if_pos hst, if_neg fun h => hst h.1]

/-- Every check warns about an accepted workflow exactly when it is still `RUNNING` more than
ten minutes after its submission, once, and with its true age.  Nothing that is called
after the submission changes that, wherever the process crashes. -/
theorem watchdog_exact {calls more : List Call} {orders : DagOrders} {wf : WorkflowSpec}
    {up : Bool} (hrun : CrashRun env calls true w)
    (hok : ((Call.submitWorkflow orders wf).exec env w).1.isNil = true)
    (hmore : Continues env true ((Call.submitWorkflow orders wf).exec env w).2 more up w')
    (hids : NeverReused (submitted (calls ++ [.submitWorkflow orders wf] ++ more))) :
    ∃ k, w.ticks ≤ k ∧ k < ((Call.submitWorkflow orders wf).exec env w).2.ticks ∧
      ∀ (nowMs : Int64) (age : Int), age = nowMs.toInt - (env.now k).toInt →
        -2 ^ 63 ≤ age → age < 2 ^ 63 →
        ((checkHungWorkflows nowMs).run (Action.handle env) w').1.filter
            (·.workflowID = wf.workflowId)
          = if w'.store.workflowStateOf wf.workflowId = some .running ∧ 600000 < age then
              [⟨wf.workflowId, Int64.ofInt (age / 1000), 600⟩]
            else [] := by
  have hids' : NeverReused (submitted (calls ++ [.submitWorkflow orders wf])) :=
    .mono (List.prefix_append _ _) hids
  have hinv := hrun.inv hids'.of_append
  obtain ⟨k, hle, hlt, hstamp⟩ := (hinv.mono (submitted_subset _ _)).stamped_submit
    (admissible_next hinv.sound hids') hok
  refine ⟨k, hle, hlt, ?_⟩
  -- The calls after the submission submit other workflows.
  have hother : ∀ c ∈ more, ∀ wf', c.submits = some wf' → wf'.workflowId ≠ wf.workflowId := by
    intro c hc wf' hsub
    rw [submitted, List.filterMap_append] at hids
    have hpair := (List.pairwise_append.mp hids).2.2 wf
      (List.mem_filterMap.mpr ⟨.submitWorkflow orders wf, by simp, rfl⟩) wf'
      (List.mem_filterMap.mpr ⟨c, hc, hsub⟩)
    exact hpair.1.symm
  have hrun' := CrashRun.call (.submitWorkflow orders wf) hrun
  obtain ⟨r, hr, hT⟩ : Stamped wf.workflowId (env.now k) w' :=
    hmore.keeps (fun c hc P {β} e w huses hs h =>
      h.handle (hother c hc) huses hs.coherent.linked.keyed) hrun' hids hstamp
  have htracked := ((hmore.crashRun hrun').sound hids).coherent.tracked
  rintro nowMs age rfl hlow hhigh
  rw [← hT] at hlow hhigh ⊢
  have hst : w'.store.workflowStateOf wf.workflowId = some .running ↔ r.state = .running := by
    rw [workflowStateOf, hr, Option.map_some, Option.some.injEq]
  rw [run_checkHungWorkflows, hungWorkflows_filter htracked hr,
    WorkflowStateRecord.hung_exact hlow hhigh, (htracked _ r hr).1]
  by_cases hhung : r.state = .running ∧ 600000 < nowMs.toInt - r.submittedAtMs.toInt
  · rw [if_pos hhung, if_pos ⟨hst.mpr hhung.1, hhung.2⟩]
    rfl
  · rw [if_neg hhung, if_neg fun h => hhung ⟨hst.mp h.1, h.2⟩]
    rfl

/-- An assignment, a report that is killed after its transaction, and a restart. -/
def reportKilled : World :=
  let w := ((Call.submitWorkflow .asListed (.pair .failFast 3)).exec .counting {}).2
  let w := ((Call.getReadyTask "k").exec .counting w).2
  let w := (Call.completeTask "a" "x" "out").execFor .counting 2 w
  (Call.restart.exec .counting w).2

theorem watchdog_exact_reportKilled :
    ((checkHungWorkflows 700003).run (Action.handle .counting) reportKilled).1.filter
        (·.workflowID = "w")
      = [⟨"w", 700, 600⟩] := by
  have hok : ((Call.submitWorkflow .asListed (.pair .failFast 3)).exec .counting {}).1.isNil
      = true := by decide
  obtain ⟨k, _, hk, hexact⟩ := watchdog_exact .start hok
    (.recover (.cut (.completeTask "a" "x" "out") 2 (.call (.getReadyTask "k") .refl)))
    (neverReused_of_one rfl)
  have hticks : ((Call.submitWorkflow .asListed (.pair .failFast 3)).exec .counting {}).2.ticks
      = 4 := by decide
  have hstate : reportKilled.store.workflowStateOf "w" = some .running := by decide
  rw [hticks] at hk
  have hage : 700003 - (k : Int) = (700003 : Int64).toInt - (Env.counting.now k).toInt := by
    interval_cases k <;> rfl
  have hlist := hexact 700003 (700003 - (k : Int)) hage (by omega) (by omega)
  have hsec : (700003 - (k : Int)) / 1000 = 700 := by omega
  rw [hsec] at hlist
  exact hlist.trans (if_pos ⟨hstate, by omega⟩)

end DagScheduler
