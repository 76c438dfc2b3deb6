import DagScheduler.Coordinator.Invariant

/-!
# Runs that reuse no ID

The run lemmas of the invariant.

* `CrashRun.sound`: the store is sound in every state of a run, between two
  actions of an operation as well as between two operations.
* `CrashRun.inv`: the full invariant holds whenever the process is up.
* `runCalls_induction` is the induction rule for runs without crashes.  One
  step of it knows the invariant before and after the call, and the effect
  of the call.
-/

namespace DagScheduler

open Lib Store

variable {env : Env} {P : WorkflowSpec → Prop} {w : World}

/-! ## One call -/

/-- A call that is executed to its end. -/
theorem Inv.exec (h : Inv P w) (c : Call) (hadm : c.Admissible P w) :
    Effect env w c (c.exec env w).1 (c.exec env w).2 ∧ Inv P (c.exec env w).2 := by
  have hs : Keeps P w := h.sound
  obtain ⟨heff, hs'⟩ := Prog.wp_run (Prog.wp_and_inv hs (c.effect h hadm))
  exact ⟨heff, heff.inv h hadm hs'⟩

/-- A call that is cut short. -/
theorem Inv.execFor (h : Inv P w) (c : Call) (hadm : c.Admissible P w) (n : Nat) :
    (c.execFor env n w).store.Sound P := by
  have hs : Keeps P w := h.sound
  exact Prog.wp_runFor hs (c.effect h hadm) n

private theorem wp_restart_call (hs : Keeps P w) :
    Call.restart.prog.wp (Action.handle env) (Keeps P)
      (fun _ w' => RestartEffect env w w') w := by
  rw [Call.prog, Prog.wp_bind]
  exact wp_restart hs

/-- A restart on a sound store. -/
theorem Keeps.restart (hs : Keeps P w) :
    RestartEffect env w (Call.restart.exec env w).2 ∧
      Inv P (Call.restart.exec env w).2 := by
  obtain ⟨heff, hs'⟩ := Prog.wp_run (Prog.wp_and_inv hs (wp_restart_call hs))
  exact ⟨heff, heff.inv hs hs'⟩

/-- A restart on a sound store that is cut short. -/
theorem Keeps.restartFor (hs : Keeps P w) (n : Nat) :
    Keeps P (Call.restart.execFor env n w) :=
  Prog.wp_runFor hs (wp_restart_call hs) n

/-! ## The submissions of a run -/

theorem submitted_append (calls : List Call) (c : Call) :
    submitted (calls ++ [c]) = submitted calls ++ c.submits.toList := by
  cases c <;> simp [submitted, Call.submits]

theorem NeverReused.of_append {calls : List Call} {c : Call}
    (h : NeverReused (submitted (calls ++ [c]))) : NeverReused (submitted calls) := by
  rw [submitted_append] at h
  exact (List.pairwise_append.mp h).1

theorem NeverReused.mono {pre calls : List Call} (hpre : pre <+: calls)
    (h : NeverReused (submitted calls)) : NeverReused (submitted pre) :=
  h.sublist (hpre.sublist.filterMap _)

theorem submitted_mono {pre calls : List Call} (hpre : pre <+: calls)
    {wf : WorkflowSpec} (h : wf ∈ submitted pre) : wf ∈ submitted calls :=
  (hpre.sublist.filterMap _).subset h

/-- Two submissions that share a task are one submission. -/
theorem NeverReused.eq_of_task {specs : List WorkflowSpec} (h : NeverReused specs)
    {a b : WorkflowSpec} (ha : a ∈ specs) (hb : b ∈ specs) {t : String}
    (hta : t ∈ a.taskIDs) (htb : t ∈ b.taskIDs) : a = b := by
  induction specs with
  | nil => cases ha
  | cons x specs ih =>
    obtain ⟨hx, hrest⟩ := List.pairwise_cons.mp h
    rcases List.mem_cons.mp ha with hax | hin <;>
      rcases List.mem_cons.mp hb with hbx | hin'
    · rw [hax, hbx]
    · exact ((hx b hin').2 (hax ▸ hta) htb).elim
    · exact ((hx a hin).2 (hbx ▸ htb) hta).elim
    · exact ih hrest hin hin'

theorem Inv.mono {P' : WorkflowSpec → Prop} (h : Inv P w) (hP : ∀ wf, P wf → P' wf) :
    Inv P' w :=
  ⟨h.sound.mono hP, h.agree, h.running, h.cached, h.active⟩

/-- The next call of a run that reuses no ID is admissible. -/
theorem admissible_next {calls : List Call} {c : Call}
    (hs : w.store.Sound (· ∈ submitted calls))
    (h : NeverReused (submitted (calls ++ [c]))) :
    c.Admissible (· ∈ submitted (calls ++ [c])) w := by
  intro wf hwf
  rw [submitted_append, hwf] at h ⊢
  refine ⟨by simp, ?_⟩
  intro id other hother
  have hpair := (List.pairwise_append.mp h).2.2 other (hs.stored id other hother) wf
    (by simp)
  rw [← (hs.coherent.linked.workflow id other hother).1]
  exact hpair

theorem submitted_subset (calls : List Call) (c : Call) (wf : WorkflowSpec)
    (h : wf ∈ submitted calls) : wf ∈ submitted (calls ++ [c]) := by
  rw [submitted_append]
  exact List.mem_append_left _ h

/-! ## Whole runs -/

theorem sound_empty (P : WorkflowSpec → Prop) : Sound P {} := by
  have hno : ∀ {V : Type} (k : String) (v : V), (∅ : Table String V)[k]? ≠ some v := by
    simp
  exact
    ⟨⟨⟨fun t r h => absurd h (hno t r), fun id wf h => absurd h (hno id wf),
        fun i _ a _ h => absurd h (hno i a), fun t r h => absurd h (hno t r),
        fun id wf h => absurd h (hno id wf), fun t r h => absurd h (hno t r)⟩,
      ⟨fun t r h => absurd h (hno t r), fun t r h => absurd h (hno t r),
        fun t r h => absurd h (hno t r)⟩,
      fun id r h => absurd h (hno id r)⟩, fun id wf h => absurd h (hno id wf)⟩

theorem inv_empty (P : WorkflowSpec → Prop) : Inv P {} := by
  have hno : ∀ {V : Type} (k : String) (v : V), (∅ : Table String V)[k]? ≠ some v := by
    simp
  exact
    ⟨sound_empty P,
      ⟨List.nodup_nil, fun _ h => absurd h List.not_mem_nil,
        fun t r h => absurd h (hno t r), fun _ => by simp, fun t e h => absurd h (hno t e)⟩,
      fun t h => by simp [stateOf] at h,
      ⟨fun t id h => absurd h (hno t id), fun t h => by simp at h⟩,
      fun t r h => absurd h (hno t r)⟩

/-- The run lemma.  The store is sound in every state, and the memory agrees
with it whenever the process is up. -/
theorem CrashRun.sound_and_inv {calls : List Call} {up : Bool}
    (hrun : CrashRun env calls up w) (hids : NeverReused (submitted calls)) :
    w.store.Sound (· ∈ submitted calls) ∧
      (up = true → Inv (· ∈ submitted calls) w) := by
  induction hrun with
  | start => exact ⟨sound_empty _, fun _ => inv_empty _⟩
  | @call calls w c _ ih =>
    obtain ⟨hs, hinv⟩ := ih hids.of_append
    have h : Inv (· ∈ submitted (calls ++ [c])) (c.exec env w).2 :=
      (((hinv rfl).mono (submitted_subset calls c)).exec c (admissible_next hs hids)).2
    exact ⟨h.sound, fun _ => h⟩
  | @cut calls w c n _ ih =>
    obtain ⟨hs, hinv⟩ := ih hids.of_append
    exact ⟨((hinv rfl).mono (submitted_subset calls c)).execFor c
      (admissible_next hs hids) n, by simp⟩
  | @cutAgain calls w n _ ih =>
    obtain ⟨hs, _⟩ := ih hids.of_append
    have h : Keeps (· ∈ submitted calls) (Call.restart.execFor env n w) :=
      Keeps.restartFor hs n
    exact ⟨h.mono (submitted_subset calls _), by simp⟩
  | @recover calls w _ ih =>
    obtain ⟨hs, _⟩ := ih hids.of_append
    have h : Inv (· ∈ submitted (calls ++ [.restart])) (Call.restart.exec env w).2 :=
      (Keeps.restart hs).2.mono (submitted_subset calls .restart)
    exact ⟨h.sound, fun _ => h⟩

theorem CrashRun.sound {calls : List Call} {up : Bool}
    (hrun : CrashRun env calls up w) (hids : NeverReused (submitted calls)) :
    w.store.Sound (· ∈ submitted calls) := (hrun.sound_and_inv hids).1

theorem CrashRun.inv {calls : List Call} (hrun : CrashRun env calls true w)
    (hids : NeverReused (submitted calls)) : Inv (· ∈ submitted calls) w :=
  (hrun.sound_and_inv hids).2 rfl

/-- A run without crashes is a run. -/
theorem crashRun_runCalls (env : Env) (calls : List Call) :
    CrashRun env calls true (runCalls env calls) := by
  induction calls using List.reverseRecOn with
  | nil => exact .start
  | append_singleton calls c ih =>
    rw [runCalls_append]
    exact .call c ih

theorem inv_runCalls (env : Env) {calls : List Call}
    (hids : NeverReused (submitted calls)) :
    Inv (· ∈ submitted calls) (runCalls env calls) :=
  (crashRun_runCalls env calls).inv hids

/-- What the last call of a run without crashes did. -/
theorem effect_runCalls (env : Env) {calls : List Call} {c : Call}
    (hids : NeverReused (submitted (calls ++ [c]))) :
    Effect env (runCalls env calls) c (c.exec env (runCalls env calls)).1
      (runCalls env (calls ++ [c])) := by
  have h := inv_runCalls env hids.of_append
  rw [runCalls_append]
  exact ((h.mono (submitted_subset calls c)).exec c
    (admissible_next h.sound hids)).1

/-- Induction over a run without crashes. -/
theorem runCalls_induction {env : Env} {I : List Call → World → Prop} (hstart : I [] {})
    (hstep : ∀ (calls : List Call) (c : Call) (reply : Reply) (w w' : World),
      NeverReused (submitted (calls ++ [c])) → Inv (· ∈ submitted calls) w →
      Effect env w c reply w' → Inv (· ∈ submitted (calls ++ [c])) w' →
      I calls w → I (calls ++ [c]) w')
    (calls : List Call) (hids : NeverReused (submitted calls)) :
    I calls (runCalls env calls) := by
  induction calls using List.reverseRecOn with
  | nil => exact hstart
  | append_singleton calls c ih =>
    exact hstep calls c _ _ _ hids (inv_runCalls env hids.of_append)
      (effect_runCalls env hids) (inv_runCalls env hids) (ih hids.of_append)

/-- What every call keeps holds from a point of the run on. -/
theorem runCalls_stable {env : Env} {I : World → Prop}
    (hstep : ∀ (P P' : WorkflowSpec → Prop) (c : Call) (reply : Reply) (w w' : World),
      Inv P w → c.Admissible P' w → Effect env w c reply w' → I w → I w')
    {pre calls : List Call} (hpre : pre <+: calls) (hids : NeverReused (submitted calls))
    (h : I (runCalls env pre)) : I (runCalls env calls) := by
  obtain ⟨post, rfl⟩ := hpre
  induction post using List.reverseRecOn with
  | nil =>
    rw [List.append_nil]
    exact h
  | append_singleton post c ih =>
    rw [← List.append_assoc] at hids ⊢
    have hinv := inv_runCalls env hids.of_append
    exact hstep _ _ c _ _ _ hinv (admissible_next hinv.sound hids)
      (effect_runCalls env hids) (ih hids.of_append)

end DagScheduler
