import DagScheduler.Lib.Admits

/-!
# Two handlers for one program

A program may run on two states: on the one it was written for, and on a
representation of it.  `Represents h h' J B P rep` says when the second handler does
the work of the first.  For every action that `P` admits, in every state that
satisfies `J`, it gives the same answer on the representation, and leaves the
representation of what the first handler leaves.  The representation may have less
room than the state: `B` is a budget, which an action can only use up.

A program whose actions are all admitted within the budget (`Prog.Admits`) has the
same run on both sides (`Represents.run`), also when it is cut short
(`Represents.runFor`), as long as the budget is kept.

The actions of a program are often transactions, and a transaction is itself a
small program that may fail.  `Implements` compares a transaction with its form
on representations, and its rules follow the text of the two.
-/

namespace DagScheduler.Lib

/-! ## Transactions -/

section Transactions

variable {σ τ ε ε' α β γ δ ι κ : Type}

/-- What a transaction leaves, in terms of representations. -/
def inTermsOf (rep : σ → τ) (err : ε → ε') (g : α → β) :
    Except ε (α × σ) → Except ε' (β × τ)
  | .ok (a, s) => .ok (g a, rep s)
  | .error e => .error (err e)

/-- From the state `s`, the transaction `m'` does on the representation what `m`
does, and `J` holds after it. -/
structure Implements (rep : σ → τ) (err : ε → ε') (J : σ → Prop) (g : α → β)
    (m : StateT σ (Except ε) α) (m' : StateT τ (Except ε') β) (s : σ) : Prop where
  run : m'.run (rep s) = inTermsOf rep err g (m.run s)
  keeps : ∀ a s', m.run s = .ok (a, s') → J s'

variable {rep : σ → τ} {err : ε → ε'} {J : σ → Prop} {g : α → β} {s : σ}

theorem implements_pure {a : α} {b : β} (hab : g a = b) (hs : J s) :
    Implements rep err J g (pure a) (pure b) s := by
  refine ⟨by rw [← hab]; rfl, ?_⟩
  intro a' s' h
  cases h
  exact hs

theorem implements_throw {e : ε} {e' : ε'} (he : err e = e') :
    Implements rep err J g (throw e) (throw e') s := by
  refine ⟨by rw [← he]; rfl, ?_⟩
  intro a' s' h
  cases h

/-- A write. -/
theorem implements_modify {k : σ → σ} {k' : τ → τ} (hk : k' (rep s) = rep (k s))
    (hs : J (k s)) : Implements rep err J id (modify k) (modify k') s := by
  refine ⟨congrArg (fun d => Except.ok (PUnit.unit, d)) hk, ?_⟩
  intro a' s' h
  cases h
  exact hs

variable {f : α → StateT σ (Except ε) γ} {f' : β → StateT τ (Except ε') δ} {g' : γ → δ}

/-- A read. -/
theorem implements_get_bind {f : σ → StateT σ (Except ε) γ} {f' : τ → StateT τ (Except ε') δ}
    (h : Implements rep err J g' (f s) (f' (rep s)) s) :
    Implements rep err J g' (get >>= f) (get >>= f') s := ⟨h.run, h.keeps⟩

/-- The answer of the transaction may be looked at in another way. -/
theorem Implements.map {m : StateT σ (Except ε) α} {m' : StateT τ (Except ε') β}
    (h : Implements rep err J g m m' s) (k : β → δ) :
    Implements rep err J (k ∘ g) m (k <$> m') s := by
  refine ⟨?_, h.keeps⟩
  have hmap : (k <$> m').run (rep s) = (fun p => (k p.1, p.2)) <$> m'.run (rep s) := rfl
  rw [hmap, h.run]
  cases m.run s <;> rfl

/-- Two transactions, one after the other. -/
theorem Implements.bind {m : StateT σ (Except ε) α} {m' : StateT τ (Except ε') β}
    {J' : σ → Prop} (hm : Implements rep err J' g m m' s)
    (hf : ∀ a s', J' s' → Implements rep err J g' (f a) (f' (g a)) s') :
    Implements rep err J g' (m >>= f) (m' >>= f') s := by
  have hrun : (m' >>= f').run (rep s) = (m'.run (rep s) >>= fun p => (f' p.1).run p.2) := rfl
  have hrun' : (m >>= f).run s = (m.run s >>= fun p => (f p.1).run p.2) := rfl
  cases h : m.run s with
  | error e =>
    refine ⟨by rw [hrun, hrun', hm.run, h]; rfl, ?_⟩
    intro a' s' h'
    rw [hrun', h] at h'
    cases h'
  | ok out =>
    obtain ⟨a, s₁⟩ := out
    have hrest := hf a s₁ (hm.keeps a s₁ h)
    refine ⟨by rw [hrun, hrun', hm.run, h]; exact hrest.run, ?_⟩
    intro a' s' h'
    rw [hrun', h] at h'
    exact hrest.keeps a' s' h'

/-- A loop that carries a value, over lists that correspond. -/
theorem implements_foldlM {step : α → ι → StateT σ (Except ε) α}
    {step' : β → κ → StateT τ (Except ε') β} {key : ι → κ} {xs : List ι} {a : α}
    (hstep : ∀ a, ∀ x ∈ xs, ∀ s, J s →
      Implements rep err J g (step a x) (step' (g a) (key x)) s)
    (hs : J s) :
    Implements rep err J g (xs.foldlM step a) ((xs.map key).foldlM step' (g a)) s := by
  induction xs generalizing a s with
  | nil => exact implements_pure rfl hs
  | cons x xs ih =>
    rw [List.map_cons, List.foldlM_cons, List.foldlM_cons]
    refine (hstep a x List.mem_cons_self s hs).bind fun a' s' hs' => ?_
    exact ih (fun a y hy => hstep a y (List.mem_cons_of_mem x hy)) hs'

/-- A loop. -/
theorem implements_forM {step : ι → StateT σ (Except ε) PUnit}
    {step' : ι → StateT τ (Except ε') PUnit} {xs : List ι}
    (hstep : ∀ x ∈ xs, ∀ s, J s → Implements rep err J id (step x) (step' x) s) (hs : J s) :
    Implements rep err J id (xs.forM step) (xs.forM step') s := by
  induction xs generalizing s with
  | nil => exact implements_pure rfl hs
  | cons x xs ih =>
    have hrest : ∀ s', J s' → Implements rep err J id (xs.forM step) (xs.forM step') s' :=
      fun s' hs' => ih (fun y hy => hstep y (List.mem_cons_of_mem x hy)) hs'
    exact (hstep x List.mem_cons_self s hs).bind fun _ => hrest

end Transactions

/-! ## Programs -/

universe u v v'

variable {E : Type → Type u} {σ : Type v} {τ : Type v'} {α : Type}

namespace Prog

/-- What no action establishes held before the program, if it holds after it. -/
theorem run_back {h' : Handler E τ} {C : τ → Prop}
    (hback : ∀ (β : Type) (e : E β) (v : τ), C (h' e v).2 → C v) {p : Prog E α} {v : τ}
    (hend : C (p.run h' v).2) : C v := by
  by_contra hno
  exact (preserves_of_forall (J := fun v => ¬ C v)
    (fun β e v => mt (hback β e v)) p).run hno hend

theorem runFor_back {h' : Handler E τ} {C : τ → Prop}
    (hback : ∀ (β : Type) (e : E β) (v : τ), C (h' e v).2 → C v) {p : Prog E α} {v : τ}
    {n : Nat} (hend : C (p.runFor h' n v)) : C v := by
  by_contra hno
  exact (preserves_of_forall (J := fun v => ¬ C v)
    (fun β e v => mt (hback β e v)) p).runFor hno n hend

end Prog

/-- The handler `h'` works on representations as `h` works on states, within the
budget `B`.  A budget that is kept at the end of a run was kept all along. -/
structure Represents (h : Handler E σ) (h' : Handler E τ) (J : σ → Prop) (B : τ → Prop)
    (P : ∀ {β : Type}, E β → Prop) (rep : σ → τ) : Prop where
  budget : ∀ (β : Type) (e : E β) (v : τ), B (h' e v).2 → B v
  keeps : ∀ {β : Type} (e : E β) (w : σ), P e → J w → B (h' e (rep w)).2 → J (h e w).2
  step : ∀ {β : Type} (e : E β) (w : σ), P e → J w → B (h' e (rep w)).2 →
    h' e (rep w) = ((h e w).1, rep (h e w).2)

namespace Represents

variable {h : Handler E σ} {h' : Handler E τ} {J : σ → Prop} {B : τ → Prop}
  {P : ∀ {β : Type}, E β → Prop} {rep : σ → τ} (hrep : Represents h h' J B P rep)
include hrep

/-- One action, and what the program after it may assume. -/
private theorem head {β : Type} {e : E β} {k : β → Prog E α} {w : σ}
    (hp : (Prog.step e k).Admits h J (B ∘ rep) P) (hw : J w) (hb : B (h' e (rep w)).2) :
    h' e (rep w) = ((h e w).1, rep (h e w).2) ∧ J (h e w).2 ∧
      (k (h e w).1).Admits h J (B ∘ rep) P := by
  have hstep := hrep.step e w hp.1 hw hb
  refine ⟨hstep, hrep.keeps e w hp.1 hw hb, hp.2 w hw ?_⟩
  rw [hstep] at hb
  exact hb

/-- The whole run. -/
theorem run {p : Prog E α} {w : σ} (hp : p.Admits h J (B ∘ rep) P) (hw : J w)
    (hb : B (p.run h' (rep w)).2) :
    J (p.run h w).2 ∧ p.run h' (rep w) = ((p.run h w).1, rep (p.run h w).2) := by
  induction p generalizing w with
  | ret a => exact ⟨hw, rfl⟩
  | step e k ih =>
    obtain ⟨hstep, hw', hk⟩ := hrep.head hp hw (Prog.run_back hrep.budget hb)
    rw [Prog.run, hstep] at hb
    rw [Prog.run, Prog.run, hstep]
    exact ih _ hk hw' hb

/-- The run up to some action. -/
theorem runFor {p : Prog E α} {w : σ} (hp : p.Admits h J (B ∘ rep) P) (hw : J w) {n : Nat}
    (hb : B (p.runFor h' n (rep w))) :
    J (p.runFor h n w) ∧ p.runFor h' n (rep w) = rep (p.runFor h n w) := by
  induction p generalizing w n with
  | ret a => cases n <;> exact ⟨hw, rfl⟩
  | step e k ih =>
    cases n with
    | zero => exact ⟨hw, rfl⟩
    | succ n =>
      obtain ⟨hstep, hw', hk⟩ := hrep.head hp hw (Prog.runFor_back hrep.budget hb)
      rw [Prog.runFor, hstep] at hb
      rw [Prog.runFor, Prog.runFor, hstep]
      exact ih _ hk hw' hb

end Represents

end DagScheduler.Lib
