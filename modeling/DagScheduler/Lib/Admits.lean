import DagScheduler.Lib.Pool

/-!
# The actions that a program can reach

`Prog.Admits h J B P p` says that `P` holds of every action that `p` can reach, when
the actions before it were answered in states that satisfy `J` and left states that
satisfy `B`.  The answers decide what comes next: a program that goes on only after
it has seen some permission reaches nothing behind this point if no state of `J`
gives the permission.

An invariant then has to be checked once for each kind of action.  What no admitted
action breaks holds in every state of a run (`Admits.wp`), and also when any number
of such programs interleave (`Interleaving.invariant`), because the other programs
keep `J` as well.
-/

namespace DagScheduler.Lib

universe u v

variable {E : Type → Type u} {σ : Type v} {α γ : Type}

namespace Prog

/-- `P` holds of every action that the program can reach, if states that satisfy
`J` give the answers and the states after them satisfy `B`. -/
def Admits (h : Handler E σ) (J B : σ → Prop) (P : ∀ {β : Type}, E β → Prop) :
    Prog E α → Prop
  | ret _ => True
  | step e k => P e ∧ ∀ w, J w → B (h e w).2 → (k (h e w).1).Admits h J B P

variable {h : Handler E σ} {J B : σ → Prop} {P : ∀ {β : Type}, E β → Prop}

theorem admits_act {e : E α} (he : P e) : (act e).Admits h J B P :=
  ⟨he, fun _ _ _ => trivial⟩

/-- The rest of a program after one action may use which state has answered. -/
theorem admits_act_bind {e : E γ} {f : γ → Prog E α} (he : P e)
    (hf : ∀ w, J w → B (h e w).2 → (f (h e w).1).Admits h J B P) :
    (act e >>= f).Admits h J B P := ⟨he, hf⟩

theorem Admits.bind {p : Prog E γ} {f : γ → Prog E α} (hp : p.Admits h J B P)
    (hf : ∀ a, (f a).Admits h J B P) : (p >>= f).Admits h J B P := by
  induction p with
  | ret a => exact hf a
  | step e k ih => exact ⟨hp.1, fun w hw hb => ih _ (hp.2 w hw hb)⟩

theorem admits_when {c : Prop} [Decidable c] {p : Prog E Unit} (hp : p.Admits h J B P) :
    (when c p).Admits h J B P := by
  unfold when
  split
  · exact hp
  · trivial

/-- What holds of all admitted actions may take the place of `P`. -/
theorem Admits.mono {P' : ∀ {β : Type}, E β → Prop} {p : Prog E α} (hp : p.Admits h J B P)
    (hP : ∀ {β : Type} (e : E β), P e → P' e) : p.Admits h J B P' := by
  induction p with
  | ret a => trivial
  | step e k ih => exact ⟨hP e hp.1, fun w hw hb => ih _ (hp.2 w hw hb)⟩

/-- What no admitted action breaks is kept next to an invariant `K`. -/
theorem Admits.wp {K D : σ → Prop} {Q : α → σ → Prop} {p : Prog E α}
    (hp : p.Admits h (fun w => K w ∧ D w) (fun _ => True) P)
    (hkeep : ∀ {β : Type} (e : E β) (w : σ), P e → K w → D w → D (h e w).2) {w : σ}
    (hwp : p.wp h K Q w) (hK : K w) (hD : D w) : p.wp h (fun w => K w ∧ D w) Q w := by
  induction p generalizing w with
  | ret a => exact hwp
  | step e k ih =>
    have hD' := hkeep e w hp.1 hK hD
    exact ⟨⟨hwp.1, hD'⟩, ih _ (hp.2 w ⟨hK, hD⟩ trivial) hwp.2 hwp.1 hD'⟩

/-- Runs from two states that no admitted action tells apart. -/
theorem Admits.run_related {R : σ → σ → Prop} {p : Prog E α}
    (hp : p.Admits h (fun _ => True) (fun _ => True) P)
    (hR : ∀ {β : Type} (e : E β) (w v : σ), P e → R w v →
      (h e w).1 = (h e v).1 ∧ R (h e w).2 (h e v).2) {w v : σ} (hwv : R w v) :
    (p.run h w).1 = (p.run h v).1 ∧ R (p.run h w).2 (p.run h v).2 := by
  induction p generalizing w v with
  | ret a => exact ⟨rfl, hwv⟩
  | step e k ih =>
    obtain ⟨hsame, hnext⟩ := hR e w v hp.1 hwv
    rw [run, run, ← hsame]
    exact ih _ (hp.2 w trivial trivial) hnext

end Prog

variable {L : Type} {h : Handler E σ} {prog : L → Prog E α} {w₀ w : σ}
  {es all : List (Event L E σ)} {ts : List (Thread L E α)}

/-- What no admitted action breaks holds in every state of an interleaving.  The
invariant may speak about the events: `all` holds those of the whole run. -/
theorem Interleaving.invariant {I : σ → Prop} {P : L → ∀ {β : Type}, E β → Prop}
    (hkeep : ∀ ev ∈ all, P ev.label ev.action → I ev.before → I (ev.after h))
    (hprog : ∀ l, (prog l).Admits h I (fun _ => True) (P l))
    (hrun : Interleaving h prog w₀ es ts w) (hall : es ⊆ all) (h₀ : I w₀) :
    I w ∧ ∀ th ∈ ts, th.rest.Admits h I (fun _ => True) (P th.label) := by
  induction hrun with
  | start => exact ⟨h₀, by simp⟩
  | spawn l _ ih =>
    obtain ⟨hI, hrest⟩ := ih hall
    rw [List.forall_mem_append, List.forall_mem_singleton]
    exact ⟨hI, hrest, hprog l⟩
  | @step es ts w i l β e k _ hth ih =>
    rw [List.append_subset, List.cons_subset] at hall
    obtain ⟨hI, hrest⟩ := ih hall.1
    have hmove := hrest _ (List.mem_of_getElem? hth)
    refine ⟨hkeep _ hall.2.1 hmove.1 hI, fun th hmem => ?_⟩
    rcases List.mem_or_eq_of_mem_set hmem with hold | rfl
    · exact hrest th hold
    · exact hmove.2 w hI trivial

end DagScheduler.Lib
