import DagScheduler.Coordinator.Runs
import DagScheduler.Coordinator.Uses

/-!
# The rest of a run

`Continues` is what comes after a state of a run with crashes: more calls, some of them
cut short, and the restarts between them.  What no action of these calls breaks holds in
every later state (`Continues.keeps`).
-/

namespace DagScheduler

open Lib Store

/-- A run with crashes goes on from the state `w₀`. -/
inductive Continues (env : Env) (up₀ : Bool) (w₀ : World) : List Call → Bool → World → Prop where
  | refl : Continues env up₀ w₀ [] up₀ w₀
  | call {more : List Call} {w : World} (c : Call) : Continues env up₀ w₀ more true w →
      Continues env up₀ w₀ (more ++ [c]) true (c.exec env w).2
  | cut {more : List Call} {w : World} (c : Call) (n : Nat) : Continues env up₀ w₀ more true w →
      Continues env up₀ w₀ (more ++ [c]) false (c.execFor env n w)
  | cutAgain {more : List Call} {w : World} (n : Nat) : Continues env up₀ w₀ more false w →
      Continues env up₀ w₀ (more ++ [.restart]) false (Call.restart.execFor env n w)
  | recover {more : List Call} {w : World} : Continues env up₀ w₀ more false w →
      Continues env up₀ w₀ (more ++ [.restart]) true (Call.restart.exec env w).2

variable {env : Env} {w w' : World} {calls more : List Call} {up up' : Bool}

/-- A run that goes on is a run. -/
theorem Continues.crashRun
    (hrun : CrashRun env calls up w) (hmore : Continues env up w more up' w') :
    CrashRun env (calls ++ more) up' w' := by
  induction hmore with
  | refl =>
    rw [List.append_nil]
    exact hrun
  | call c _ ih =>
    rw [← List.append_assoc]
    exact .call c ih
  | cut c n _ ih =>
    rw [← List.append_assoc]
    exact .cut c n ih
  | cutAgain n _ ih =>
    rw [← List.append_assoc]
    exact .cutAgain n ih
  | recover _ ih =>
    rw [← List.append_assoc]
    exact .recover ih

section Keeps

variable {P : WorkflowSpec → Prop} {D : World → Prop} {c : Call}
  (hstep : ∀ {β : Type} (e : Action β) (w : World),
    c.Uses env (fun w => Keeps P w ∧ D w) (fun _ => True) e → Keeps P w → D w →
    D (Action.handle env e w).2)
include hstep

/-- What no action of a call breaks holds at its end, and wherever it is cut. -/
theorem Call.keeps_of_wp {Q : Reply → World → Prop}
    (hwp : c.prog.wp (Action.handle env) (Keeps P) Q w) (hs : Keeps P w) (hD : D w) :
    D (c.exec env w).2 ∧ ∀ n, D (c.execFor env n w) := by
  have hkept := (c.admits_prog (answers_handle env)).wp hstep hwp hs hD
  exact ⟨(Prog.wp_run (Prog.wp_and_inv ⟨hs, hD⟩ hkept)).2.2,
    fun n => (Prog.wp_runFor ⟨hs, hD⟩ hkept n).2⟩

omit hstep in
theorem Keeps.wp_restart_prog (hs : Keeps P w) :
    Call.restart.prog.wp (Action.handle env) (Keeps P) (fun _ w' => RestartEffect env w w') w :=
  (Prog.wp_bind _ _).mpr (wp_restart hs)

end Keeps

/-- What no action of the calls breaks holds from the state on. -/
theorem Continues.keeps {D : World → Prop}
    (hstep : ∀ c ∈ more, ∀ (P : WorkflowSpec → Prop) {β : Type} (e : Action β) (w : World),
      c.Uses env (fun w => Keeps P w ∧ D w) (fun _ => True) e → Keeps P w → D w →
      D (Action.handle env e w).2)
    (hrun : CrashRun env calls up w) (hmore : Continues env up w more up' w')
    (hids : NeverReused (submitted (calls ++ more))) (hD : D w) : D w' := by
  induction hmore with
  | refl => exact hD
  | @call more w c hmore ih =>
    rw [← List.append_assoc] at hids
    have h := ((hmore.crashRun hrun).inv hids.of_append).mono (submitted_subset _ c)
    have hbefore := ih (fun c hc => hstep c (List.mem_append_left _ hc)) hids.of_append
    exact (Call.keeps_of_wp (hstep c (by simp) _)
      (c.effect h (admissible_next ((hmore.crashRun hrun).sound hids.of_append) hids)) h.sound
      hbefore).1
  | @cut more w c n hmore ih =>
    rw [← List.append_assoc] at hids
    have h := ((hmore.crashRun hrun).inv hids.of_append).mono (submitted_subset _ c)
    have hbefore := ih (fun c hc => hstep c (List.mem_append_left _ hc)) hids.of_append
    exact (Call.keeps_of_wp (hstep c (by simp) _)
      (c.effect h (admissible_next ((hmore.crashRun hrun).sound hids.of_append) hids)) h.sound
      hbefore).2 n
  | @cutAgain more w n hmore ih =>
    rw [← List.append_assoc] at hids
    have hs : Keeps (· ∈ submitted (calls ++ more)) w :=
      (hmore.crashRun hrun).sound hids.of_append
    have hbefore := ih (fun c hc => hstep c (List.mem_append_left _ hc)) hids.of_append
    exact (Call.keeps_of_wp (hstep .restart (by simp) _) hs.wp_restart_prog hs hbefore).2 n
  | @recover more w hmore ih =>
    rw [← List.append_assoc] at hids
    have hs : Keeps (· ∈ submitted (calls ++ more)) w :=
      (hmore.crashRun hrun).sound hids.of_append
    have hbefore := ih (fun c hc => hstep c (List.mem_append_left _ hc)) hids.of_append
    exact (Call.keeps_of_wp (hstep .restart (by simp) _) hs.wp_restart_prog hs hbefore).1

end DagScheduler
