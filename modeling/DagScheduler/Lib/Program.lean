import Mathlib

/-!
# Programs made of atomic steps

A program over a signature `E` is a tree of actions.  Each action is one
atomic step, for example a critical section or a database transaction, and
the program continues with the answer of the action.  A `Handler` gives the
actions their meaning on a state.

A run may be looked at in three ways, and each has its own definition.

* `Prog.run` executes the whole program.
* `Prog.runFor n` executes the first `n` actions and stops there.  It is
  the state that a process leaves behind when it is killed.
* `wp h J p Q w` says that every state after an action satisfies `J`, and
  that the program ends with an answer and a state that satisfy `Q`.

`wp_run` and `wp_runFor` read the two executions off a `wp`.  The rules
`wp_pure`, `wp_act` and `wp_bind` compute a `wp` along the program text.

`Preserves h J p` asks that no action that `p` can reach breaks `J`, whatever
the answers of the actions before it were.  It needs no state, so it composes
without a look at what the program computes.  `PreservesUntil h K C p` asks for
less: an action may break `K` if an action before it has established `C`.
-/

namespace DagScheduler.Lib

universe u v

/-- A program whose actions come from `E` and that answers an `α`. -/
inductive Prog (E : Type → Type u) (α : Type) : Type (max 1 u) where
  | ret (a : α)
  | step {β : Type} (e : E β) (k : β → Prog E α)

/-- The meaning of each action: its answer and the state after it. -/
abbrev Handler (E : Type → Type u) (σ : Type v) :=
  {β : Type} → E β → σ → β × σ

namespace Prog

variable {E : Type → Type u} {α γ : Type}

/-- Run `p`, then the program that `f` picks for its answer. -/
def bind (p : Prog E α) (f : α → Prog E γ) : Prog E γ :=
  match p with
  | ret a => f a
  | step e k => step e (fun b => (k b).bind f)

instance : Monad (Prog E) where
  pure := ret
  bind := bind

/-- The program of one action. -/
def act (e : E α) : Prog E α := step e ret

/-- Run `p` if `c` holds, and do nothing otherwise. -/
def when (c : Prop) [Decidable c] (p : Prog E Unit) : Prog E Unit :=
  if c then p else ret ()

variable {σ : Type v} (h : Handler E σ)

/-- Execute the whole program. -/
def run : Prog E α → σ → α × σ
  | ret a, w => (a, w)
  | step e k, w => (k (h e w).1).run (h e w).2

/-- Execute the first `n` actions. -/
def runFor : Nat → Prog E α → σ → σ
  | 0, _, w => w
  | _ + 1, ret _, w => w
  | n + 1, step e k, w => runFor n (k (h e w).1) (h e w).2

/-- Every state after an action satisfies `J`, and the program ends in
`Q`. -/
def wp (J : σ → Prop) : Prog E α → (α → σ → Prop) → σ → Prop
  | ret a, Q, w => Q a w
  | step e k, Q, w => J (h e w).2 ∧ (k (h e w).1).wp J Q (h e w).2

variable {h} {J : σ → Prop} {Q : α → σ → Prop} {w : σ}

@[simp] theorem wp_ret (a : α) : (ret a : Prog E α).wp h J Q w ↔ Q a w := Iff.rfl

@[simp] theorem wp_pure (a : α) :
    (pure a : Prog E α).wp h J Q w ↔ Q a w := Iff.rfl

@[simp] theorem wp_act (e : E α) :
    (act e).wp h J Q w ↔ J (h e w).2 ∧ Q (h e w).1 (h e w).2 := Iff.rfl

@[simp] theorem wp_bind (p : Prog E γ) (f : γ → Prog E α) :
    (p >>= f).wp h J Q w
      ↔ p.wp h J (fun a w' => (f a).wp h J Q w') w := by
  induction p generalizing w with
  | ret a => exact Iff.rfl
  | step e k ih => exact and_congr Iff.rfl (ih (h e w).1)

theorem wp_when (c : Prop) [Decidable c] (p : Prog E Unit)
    {Q : Unit → σ → Prop} :
    (when c p).wp h J Q w ↔ (c → p.wp h J Q w) ∧ (¬ c → Q () w) := by
  unfold when
  by_cases hc : c <;> simp [hc]

/-- A weaker postcondition is met as well. -/
theorem wp_mono {Q' : α → σ → Prop} (hQ : ∀ a w', Q a w' → Q' a w')
    (p : Prog E α) : p.wp h J Q w → p.wp h J Q' w := by
  induction p generalizing w with
  | ret a => exact hQ a w
  | step e k ih => exact fun hp => ⟨hp.1, ih _ hp.2⟩

/-- The last state satisfies `J` as well, if the first one does. -/
theorem wp_and_inv {p : Prog E α} (hw : J w) (hp : p.wp h J Q w) :
    p.wp h J (fun a w' => Q a w' ∧ J w') w := by
  induction p generalizing w with
  | ret a => exact ⟨hp, hw⟩
  | step e k ih => exact ⟨hp.1, ih _ hp.1 hp.2⟩

/-- The whole execution ends in the postcondition. -/
theorem wp_run {p : Prog E α} (hp : p.wp h J Q w) :
    Q (p.run h w).1 (p.run h w).2 := by
  induction p generalizing w with
  | ret a => exact hp
  | step e k ih => exact ih _ hp.2

/-- An execution that is cut short stops in a state that satisfies `J`. -/
theorem wp_runFor {p : Prog E α} (hw : J w) (hp : p.wp h J Q w) (n : Nat) :
    J (p.runFor h n w) := by
  induction p generalizing w n with
  | ret a => cases n <;> exact hw
  | step e k ih =>
    cases n with
    | zero => exact hw
    | succ n => exact ih _ hp.1 hp.2 n

/-- A postcondition may be read off the whole execution. -/
theorem wp_of_run {p : Prog E α} (hp : p.wp h J (fun _ _ => True) w)
    (hQ : Q (p.run h w).1 (p.run h w).2) : p.wp h J Q w := by
  induction p generalizing w with
  | ret a => exact hQ
  | step e k ih => exact ⟨hp.1, ih _ hp.2 hQ⟩

/-- A postcondition alone. -/
theorem wp_of_true {p : Prog E α} (hQ : Q (p.run h w).1 (p.run h w).2) :
    p.wp h (fun _ => True) Q w := by
  induction p generalizing w with
  | ret a => exact hQ
  | step e k ih => exact ⟨trivial, ih _ hQ⟩

/-- A weaker invariant is kept as well. -/
theorem wp_weaken {J' : σ → Prop} (hJ : ∀ w, J w → J' w) {p : Prog E α}
    (hp : p.wp h J Q w) : p.wp h J' Q w := by
  induction p generalizing w with
  | ret a => exact hp
  | step e k ih => exact ⟨hJ _ hp.1, ih _ hp.2⟩

@[simp] theorem run_pure (a : α) : (pure a : Prog E α).run h w = (a, w) := rfl

@[simp] theorem run_act (e : E α) : (act e).run h w = h e w := rfl

@[simp] theorem run_bind (p : Prog E γ) (f : γ → Prog E α) :
    (p >>= f).run h w = (f (p.run h w).1).run h (p.run h w).2 := by
  induction p generalizing w with
  | ret a => rfl
  | step e k ih => exact ih (h e w).1

/-! ## Programs whose actions all keep an invariant -/

variable (h J) in
/-- No action that the program can reach breaks `J`. -/
def Preserves : Prog E α → Prop
  | ret _ => True
  | step e k => (∀ w, J w → J (h e w).2) ∧ ∀ b, (k b).Preserves

/-- If no action at all breaks `J`, no program does. -/
theorem preserves_of_forall (hall : ∀ (β : Type) (e : E β) (w : σ), J w → J (h e w).2)
    (p : Prog E α) : p.Preserves h J := by
  induction p with
  | ret a => trivial
  | step e k ih => exact ⟨hall _ e, ih⟩

theorem preserves_act {e : E α} (he : ∀ w, J w → J (h e w).2) :
    (act e).Preserves h J := ⟨he, fun _ => trivial⟩

theorem Preserves.bind {p : Prog E γ} {f : γ → Prog E α} (hp : p.Preserves h J)
    (hf : ∀ a, (f a).Preserves h J) : (p >>= f).Preserves h J := by
  induction p with
  | ret a => exact hf a
  | step e k ih => exact ⟨hp.1, fun b => ih b (hp.2 b)⟩

theorem preserves_when {c : Prop} [Decidable c] {p : Prog E Unit}
    (hp : p.Preserves h J) : (when c p).Preserves h J := by
  unfold when
  split
  · exact hp
  · trivial

variable (h) in
/-- No action breaks `K` before one has established `C`. -/
def PreservesUntil (K C : σ → Prop) : Prog E α → Prop
  | ret _ => True
  | step e k => (∀ w, C (h e w).2) ∨
      (∀ w, K w → K (h e w).2) ∧ ∀ b, (k b).PreservesUntil K C

theorem Preserves.bind_until {K C : σ → Prop} {p : Prog E γ} {f : γ → Prog E α}
    (hp : p.Preserves h K) (hf : ∀ a, (f a).PreservesUntil h K C) :
    (p >>= f).PreservesUntil h K C := by
  induction p with
  | ret a => exact hf a
  | step e k ih => exact .inr ⟨hp.1, fun b => ih b (hp.2 b)⟩

theorem PreservesUntil.bind {K C : σ → Prop} {p : Prog E γ} {f : γ → Prog E α}
    (hp : p.PreservesUntil h K C) (hf : ∀ a, (f a).PreservesUntil h K C) :
    (p >>= f).PreservesUntil h K C := by
  induction p with
  | ret a => exact hf a
  | step e k ih =>
    rcases hp with hdone | hp
    · exact .inl hdone
    · exact .inr ⟨hp.1, fun b => ih b (hp.2 b)⟩

theorem Preserves.wp {p : Prog E α} (hp : p.Preserves h J) (hw : J w) :
    p.wp h J (fun _ _ => True) w := by
  induction p generalizing w with
  | ret a => trivial
  | step e k ih => exact ⟨hp.1 w hw, ih _ (hp.2 _) (hp.1 w hw)⟩

theorem Preserves.run {p : Prog E α} (hp : p.Preserves h J) (hw : J w) : J (p.run h w).2 :=
  (wp_run (wp_and_inv hw (hp.wp hw))).2

theorem Preserves.runFor {p : Prog E α} (hp : p.Preserves h J) (hw : J w) (n : Nat) :
    J (p.runFor h n w) := wp_runFor hw (hp.wp hw) n

end Prog

end DagScheduler.Lib
