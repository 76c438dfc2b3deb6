import Mathlib

/-!
# Runs of a machine on a list of inputs

A machine is a function from a state and an input to the next state.
`runOn step s es` feeds it the inputs `es`, oldest first.  `Along step ok s es`
says that every input of the run meets the condition `ok` in the state in which
it comes.  `Along.invariant` is the induction over such a run.
-/

namespace DagScheduler.Lib

universe u v

variable {σ : Type u} {ε : Type v} {step : σ → ε → σ}

/-- The state after the inputs. -/
def runOn (step : σ → ε → σ) (s : σ) (es : List ε) : σ := es.foldl step s

@[simp] theorem runOn_append (s : σ) (es : List ε) (e : ε) :
    runOn step s (es ++ [e]) = step (runOn step s es) e := by
  simp [runOn]

/-- Every input meets the condition in the state in which it comes. -/
def Along (step : σ → ε → σ) (ok : σ → ε → Prop) (s : σ) : List ε → Prop
  | [] => True
  | e :: es => ok s e ∧ Along step ok (step s e) es

instance Along.decide (ok : σ → ε → Prop) [∀ s e, Decidable (ok s e)] (s : σ) (es : List ε) :
    Decidable (Along step ok s es) :=
  match es with
  | [] => .isTrue trivial
  | e :: es =>
    have := Along.decide ok (step s e) es
    inferInstanceAs (Decidable (ok s e ∧ Along step ok (step s e) es))

variable {ok : σ → ε → Prop} {s : σ}

theorem along_append {es : List ε} {e : ε} :
    Along step ok s (es ++ [e]) ↔ Along step ok s es ∧ ok (runOn step s es) e := by
  induction es generalizing s with
  | nil => simp [Along, runOn]
  | cons d es ih => simp [Along, ih, and_assoc, runOn]

/-- What holds at the start and is kept by every input that meets the
condition holds after the run.  `I` may look at the inputs so far. -/
theorem Along.invariant {I : List ε → σ → Prop} (hstart : I [] s)
    (hstep : ∀ es e, Along step ok s es → ok (runOn step s es) e → I es (runOn step s es) →
      I (es ++ [e]) (step (runOn step s es) e)) {es : List ε} (h : Along step ok s es) :
    I es (runOn step s es) := by
  induction es using List.reverseRecOn with
  | nil => exact hstart
  | append_singleton es e ih =>
    obtain ⟨hes, he⟩ := along_append.mp h
    rw [runOn_append]
    exact hstep es e hes he (ih hes)

end DagScheduler.Lib
