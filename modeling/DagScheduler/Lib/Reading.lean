import DagScheduler.Lib.Admits

/-!
# Reading while a program runs

A reader that takes no lock performs its actions at different moments of a run of
somebody else's program.  `Prog.readAt h p ws` is its answer when its actions meet the
states `ws`, one after the other.

What it can see of a program in progress depends on the order of the writes.
`Prog.AdmitsButLast` is `Prog.Admits` for all actions but the last one of each run.  If
the admitted actions leave a projection of the state alone, then the projection is the
old one as long as anything is still to come: a reader that finds it changed has the
final state in front of it (`AdmitsButLast.runFor_cases`).
-/

namespace DagScheduler.Lib.Prog

universe u v

variable {E : Type → Type u} {σ : Type v} {α γ : Type}

/-- The answer of a program whose actions meet the given states.  There is none if their
number is not the number of the actions. -/
def readAt (h : Handler E σ) : Prog E α → List σ → Option α
  | ret a, [] => some a
  | step e k, w :: ws => (k (h e w).1).readAt h ws
  | _, _ => none

/-- A reader of two parts reads the second one at the states that are left. -/
theorem readAt_bind {h : Handler E σ} {p : Prog E γ} {f : γ → Prog E α} {ws : List σ} {b : α}
    (hread : (p >>= f).readAt h ws = some b) :
    ∃ ws₁ ws₂ a, ws = ws₁ ++ ws₂ ∧ p.readAt h ws₁ = some a ∧ (f a).readAt h ws₂ = some b := by
  induction p generalizing ws with
  | ret a => exact ⟨[], ws, a, rfl, rfl, hread⟩
  | step e k ih =>
    cases ws with
    | nil => cases hread
    | cons w ws =>
      obtain ⟨ws₁, ws₂, a, rfl, hp, hf⟩ := ih (h e w).1 hread
      exact ⟨w :: ws₁, ws₂, a, rfl, hp, hf⟩

/-- The program has no action. -/
def Ended : Prog E α → Prop
  | ret _ => True
  | step _ _ => False

/-- As `Admits`, except that the last action of a run may be any. -/
def AdmitsButLast (h : Handler E σ) (J B : σ → Prop) (P : ∀ {β : Type}, E β → Prop) :
    Prog E α → Prop
  | ret _ => True
  | step e k => (∀ b, (k b).Ended) ∨
      P e ∧ ∀ w, J w → B (h e w).2 → (k (h e w).1).AdmitsButLast h J B P

variable {h : Handler E σ} {J B : σ → Prop} {P : ∀ {β : Type}, E β → Prop}

theorem Ended.admitsButLast {p : Prog E α} (hp : p.Ended) : p.AdmitsButLast h J B P := by
  cases p with
  | ret a => trivial
  | step e k => exact hp.elim

theorem Admits.butLast {p : Prog E α} (hp : p.Admits h J B P) : p.AdmitsButLast h J B P := by
  induction p with
  | ret a => trivial
  | step e k ih => exact .inr ⟨hp.1, fun w hw hb => ih _ (hp.2 w hw hb)⟩

/-- An action of any kind, and nothing after it. -/
theorem admitsButLast_act_bind {e : E γ} {f : γ → Prog E α} (hf : ∀ a, (f a).Ended) :
    (act e >>= f).AdmitsButLast h J B P := .inl hf

theorem Admits.bind_butLast {p : Prog E γ} {f : γ → Prog E α} (hp : p.Admits h J B P)
    (hf : ∀ a, (f a).AdmitsButLast h J B P) : (p >>= f).AdmitsButLast h J B P := by
  induction p with
  | ret a => exact hf a
  | step e k ih => exact .inr ⟨hp.1, fun w hw hb => ih _ (hp.2 w hw hb)⟩

/-- What comes after the last action may compute an answer. -/
theorem AdmitsButLast.bind_ended {p : Prog E γ} {f : γ → Prog E α}
    (hp : p.AdmitsButLast h J B P) (hf : ∀ a, (f a).Ended) :
    (p >>= f).AdmitsButLast h J B P := by
  induction p with
  | ret a => exact (hf a).admitsButLast
  | step e k ih =>
    rcases hp with hlast | hp
    · refine .inl fun b => ?_
      have hb := hlast b
      show ((k b).bind f).Ended
      cases hk : k b with
      | ret a => exact hf a
      | step e' k' =>
        rw [hk] at hb
        exact hb.elim
    · exact .inr ⟨hp.1, fun w hw hbw => ih _ (hp.2 w hw hbw)⟩

theorem admitsButLast_when {c : Prop} [Decidable c] {p : Prog E Unit}
    (hp : p.AdmitsButLast h J B P) : (when c p).AdmitsButLast h J B P := by
  unfold when
  split
  · exact hp
  · trivial

/-- Nothing happens any more. -/
theorem Ended.runFor {p : Prog E α} (hp : p.Ended) (n : Nat) (w : σ) :
    p.runFor h n w = (p.run h w).2 := by
  cases p with
  | ret a => cases n <;> rfl
  | step e k => exact hp.elim

/-- The program comes to its end. -/
theorem exists_runFor_eq (p : Prog E α) (w : σ) :
    ∃ n, p.runFor h n w = (p.run h w).2 := by
  induction p generalizing w with
  | ret a => exact ⟨0, rfl⟩
  | step e k ih =>
    obtain ⟨n, hn⟩ := ih (h e w).1 (h e w).2
    exact ⟨n + 1, hn⟩

/-- A projection that only a last action writes is the old one, or the program has
come to its end. -/
theorem AdmitsButLast.runFor_cases {τ : Type} (π : σ → τ) {K : σ → Prop} {Q : α → σ → Prop}
    {p : Prog E α} (hp : p.AdmitsButLast h K (fun _ => True) P)
    (hquiet : ∀ {β : Type} (e : E β) (w : σ), P e → K w → π (h e w).2 = π w) {w : σ}
    (hwp : p.wp h K Q w) (hK : K w) (n : Nat) :
    π (p.runFor h n w) = π w ∨ ∀ m, n ≤ m → p.runFor h m w = (p.run h w).2 := by
  induction p generalizing w n with
  | ret a =>
    have hend : (ret a : Prog E α).Ended := trivial
    exact .inr fun m _ => hend.runFor m w
  | step e k ih =>
    cases n with
    | zero => exact .inl rfl
    | succ n =>
      -- After its first action the program is the rest of it, with one action less to go.
      have hrest : (∀ m, n ≤ m → (k (h e w).1).runFor h m (h e w).2 = (run h (step e k) w).2) →
          ∀ m, n + 1 ≤ m → (step e k).runFor h m w = (run h (step e k) w).2 := by
        intro hend m hm
        cases m with
        | zero => exact absurd hm (Nat.not_succ_le_zero n)
        | succ m => exact hend m (Nat.le_of_succ_le_succ hm)
      rcases hp with hlast | hp
      · exact .inr (hrest fun m _ => (hlast _).runFor m _)
      · rcases ih _ (hp.2 w hK trivial) hwp.2 hwp.1 n with hsame | hend
        · exact .inl (hsame.trans (hquiet e w hp.1 hK))
        · exact .inr (hrest hend)

end DagScheduler.Lib.Prog
