import Mathlib

/-!
# Loops that may stop with an error

A loop of the source that returns early is a `foldlM` or a `forM` over
`Except`.  Such a loop fails with an error of one of its rounds
(`foldlM_error`), and one that only checks its entries succeeds when every
check does (`forM_eq_ok_iff`).
-/

namespace DagScheduler.Lib

variable {ε α β : Type}

/-- A sequence succeeds when both halves do. -/
theorem bind_eq_ok_iff {x : Except ε α} {f : α → Except ε β} {r : β} :
    (x >>= f) = .ok r ↔ ∃ a, x = .ok a ∧ f a = .ok r := by
  cases x with
  | error e => simp [bind, Except.bind]
  | ok a => simp [bind, Except.bind]

/-- A sequence fails when one of its halves does. -/
theorem bind_eq_error_iff {x : Except ε α} {f : α → Except ε β} {e : ε} :
    (x >>= f) = .error e ↔ x = .error e ∨ ∃ a, x = .ok a ∧ f a = .error e := by
  cases x with
  | error e' => simp [bind, Except.bind]
  | ok a => simp [bind, Except.bind]

/-- A loop fails with an error of one of its rounds. -/
theorem foldlM_error {f : β → α → Except ε β} {l : List α} {b : β} {e : ε}
    (h : l.foldlM f b = .error e) : ∃ b', ∃ a ∈ l, f b' a = .error e := by
  induction l generalizing b with
  | nil => cases h
  | cons a l ih =>
    rw [List.foldlM_cons, bind_eq_error_iff] at h
    rcases h with hone | ⟨b', -, hrest⟩
    · exact ⟨b, a, List.mem_cons_self, hone⟩
    · obtain ⟨c, x, hx, herr⟩ := ih hrest
      exact ⟨c, x, List.mem_cons_of_mem a hx, herr⟩

/-- A loop that only checks fails with an error of one of its checks. -/
theorem forM_error {f : α → Except ε Unit} {l : List α} {e : ε} (h : l.forM f = .error e) :
    ∃ a ∈ l, f a = .error e := by
  induction l with
  | nil => cases h
  | cons a l ih =>
    change (f a >>= fun _ => l.forM f) = _ at h
    rw [bind_eq_error_iff] at h
    rcases h with hone | ⟨_, -, hrest⟩
    · exact ⟨a, List.mem_cons_self, hone⟩
    · obtain ⟨x, hx, herr⟩ := ih hrest
      exact ⟨x, List.mem_cons_of_mem a hx, herr⟩

/-- A loop that only checks succeeds when every check does. -/
theorem forM_eq_ok_iff {f : α → Except ε Unit} (l : List α) :
    l.forM f = .ok () ↔ ∀ a ∈ l, f a = .ok () := by
  induction l with
  | nil => simp [pure, Except.pure]
  | cons a l ih =>
    change (f a >>= fun _ => l.forM f) = _ ↔ _
    rw [bind_eq_ok_iff, List.forall_mem_cons, ← ih]
    constructor
    · rintro ⟨_, ha, hl⟩
      exact ⟨ha, hl⟩
    · rintro ⟨ha, hl⟩
      exact ⟨(), ha, hl⟩

end DagScheduler.Lib
