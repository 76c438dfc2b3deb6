import Mathlib

/-!
# Work that waits for other work

`deps t` lists what `t` waits for, with repetitions.  Nothing here fixes a
representation: the nodes are any type, and the phases of a node are any
predicates.

* `outstanding` counts the entries of `deps t` that are not done.  A counter
  that follows it drops by the multiplicity of a node when the node is done
  (`outstanding_mark`), and reaches 0 exactly when nothing is left
  (`outstanding_eq_zero_iff`).
* `exists_frontier` finds, below a waiting node of a graph without infinite
  descent, a waiting node that no longer waits for a waiting one.
  `exists_active` is the progress argument that rests on it.
* `Ancestor` is the strict transitive closure of the dependencies.  `Settled`
  collects what holds once all work is over, and `Settled.skipped_iff` and
  its siblings read the phase of every node off a verdict that fixes the
  outcome of each node in advance.
-/

namespace DagScheduler.Lib

section Counting

variable {T : Type*} (deps : T → List T) (done : T → Bool)

/-- The number of entries of `deps t` that are not done. -/
def outstanding (t : T) : Nat := (deps t).countP fun d => !done d

variable {deps done}

/-- Nothing is outstanding exactly when every dependency is done. -/
theorem outstanding_eq_zero_iff {t : T} :
    outstanding deps done t = 0 ↔ ∀ d ∈ deps t, done d = true := by
  simp [outstanding, List.countP_eq_zero]

theorem outstanding_pos_iff {t : T} :
    0 < outstanding deps done t ↔ ∃ d ∈ deps t, done d = false := by
  simp [outstanding, List.countP_pos_iff]

/-- When one more node is done, a waiting node has as many entries less
outstanding as it names that node. -/
theorem outstanding_mark [DecidableEq T] {done' : T → Bool} {x : T} (hx : done x = false)
    (hx' : done' x = true) (hother : ∀ d, d ≠ x → done' d = done d) (t : T) :
    outstanding deps done' t + (deps t).count x = outstanding deps done t := by
  unfold outstanding
  induction deps t with
  | nil => rfl
  | cons d ds ih =>
    by_cases h : d = x
    · subst h
      rw [List.countP_cons_of_neg (by simp [hx']),
        List.countP_cons_of_pos (by simp [hx]), List.count_cons_self]
      omega
    · rw [List.count_cons_of_ne h]
      cases hd : done d with
      | true =>
        rw [List.countP_cons_of_neg (by simp [hother d h, hd]),
          List.countP_cons_of_neg (by simp [hd])]
        exact ih
      | false =>
        rw [List.countP_cons_of_pos (by simp [hother d h, hd]),
          List.countP_cons_of_pos (by simp [hd])]
        omega

end Counting

section Progress

variable {T : Type*} (deps : T → List T)

/-- `d` is something that `t` waits for. -/
def Precedes (d t : T) : Prop := d ∈ deps t

variable {deps}

/-- Below a waiting node there is a waiting node that waits for no waiting
node, as long as the descent along the dependencies ends. -/
theorem exists_frontier (waiting : T → Prop) {t : T}
    (hacc : Acc (Precedes deps) t) (ht : waiting t) :
    ∃ u, waiting u ∧ (∀ d ∈ deps u, ¬ waiting d) ∧
      Relation.ReflTransGen (Precedes deps) u t := by
  induction hacc with
  | intro t _ ih =>
    by_cases h : ∃ d ∈ deps t, waiting d
    · obtain ⟨d, hd, hwd⟩ := h
      obtain ⟨u, hu, hfront, hpath⟩ := ih d hd hwd
      exact ⟨u, hu, hfront, hpath.tail hd⟩
    · exact ⟨t, ht, fun d hd hwd => h ⟨d, hd, hwd⟩, .refl⟩

/-- Progress.  If no waiting node of `N` waits for a dead node, and every
waiting node of `N` still waits for something, then work that waits implies
work that is active. -/
theorem exists_active (N waiting active done dead : T → Prop)
    (hclosed : ∀ t, N t → ∀ d ∈ deps t, N d)
    (hphase : ∀ t, N t → waiting t ∨ active t ∨ done t ∨ dead t)
    (hdead : ∀ t, N t → waiting t → ∀ d ∈ deps t, ¬ dead d)
    (hready : ∀ t, N t → waiting t → ∃ d ∈ deps t, ¬ done d)
    {t : T} (hN : N t) (hacc : Acc (Precedes deps) t) (ht : waiting t) :
    ∃ u, N u ∧ active u := by
  obtain ⟨u, ⟨huN, hu⟩, hfront, _⟩ :=
    exists_frontier (fun x => N x ∧ waiting x) hacc ⟨hN, ht⟩
  obtain ⟨d, hd, hnd⟩ := hready u huN hu
  have hdN : N d := hclosed u huN d hd
  rcases hphase d hdN with h | h | h | h
  · exact absurd ⟨hdN, h⟩ (hfront d hd)
  · exact ⟨d, hdN, h⟩
  · exact absurd h hnd
  · exact absurd h (hdead u huN hu d hd)

end Progress

section Outcome

variable {T : Type*} (deps : T → List T)

/-- `a` is a strict ancestor of `t`. -/
def Ancestor (a t : T) : Prop := Relation.TransGen (Precedes deps) a t

variable {deps} in
/-- A strict descendant waits for something. -/
theorem Ancestor.exists_dep {a t : T} (h : Ancestor deps a t) : ∃ d, d ∈ deps t := by
  cases h with
  | single h => exact ⟨a, h⟩
  | tail _ h => exact ⟨_, h⟩

variable {deps} in
/-- Without infinite descent nothing waits for itself. -/
theorem Ancestor.irrefl {t : T} (hacc : Acc (Precedes deps) t) : ¬ Ancestor deps t t := by
  have hclosure := hacc.transGen
  clear hacc
  intro hself
  induction hclosure with
  | intro t _ ih => exact ih t hself hself

variable {deps} in
/-- Inside a set that is closed under the dependencies only its own
dependencies matter. -/
theorem Ancestor.congr {deps' : T → List T} {N : T → Prop}
    (hclosed : ∀ t, N t → ∀ d ∈ deps t, N d) (hsame : ∀ t, N t → deps' t = deps t)
    {a t : T} (ht : N t) (h : Ancestor deps a t) : Ancestor deps' a t := by
  induction h with
  | single hd =>
    apply Relation.TransGen.single
    rw [Precedes, hsame _ ht]
    exact hd
  | tail _ hd ih =>
    refine Relation.TransGen.tail (ih (hclosed _ ht _ hd)) ?_
    rw [Precedes, hsame _ ht]
    exact hd

/-- All work of `N` is over, a node was given up only below a failure, and
everything below a failure was given up. -/
structure Settled (N done failed skipped : T → Prop) : Prop where
  closed : ∀ t, N t → ∀ a, Ancestor deps a t → N a
  finished : ∀ t, N t → done t ∨ failed t ∨ skipped t
  blamed : ∀ t, N t → skipped t → ∃ a, Ancestor deps a t ∧ failed a
  spread : ∀ t, N t → ∀ a, Ancestor deps a t → failed a → skipped t
  done_not_skipped : ∀ t, done t → ¬ skipped t
  failed_not_skipped : ∀ t, failed t → ¬ skipped t
  done_not_failed : ∀ t, done t → ¬ failed t

variable {deps}
variable {N done failed skipped : T → Prop} {succeeds : T → Prop}

/-- A verdict is respected when only nodes that succeed get done and only
nodes that do not succeed fail. -/
structure Respected (N done failed succeeds : T → Prop) : Prop where
  done_succeeds : ∀ t, N t → done t → succeeds t
  failed_fails : ∀ t, N t → failed t → ¬ succeeds t

namespace Settled

variable (hs : Settled deps N done failed skipped)
  (hv : Respected N done failed succeeds)
include hs hv

/-- A node is given up exactly when the verdict fails one of its strict
ancestors. -/
theorem skipped_iff {t : T} (ht : N t) :
    skipped t ↔ ∃ a, Ancestor deps a t ∧ ¬ succeeds a := by
  constructor
  · intro hsk
    obtain ⟨a, ha, hf⟩ := hs.blamed t ht hsk
    exact ⟨a, ha, hv.failed_fails a (hs.closed t ht a ha) hf⟩
  · rintro ⟨a, ha, hfail⟩
    have haN : N a := hs.closed t ht a ha
    rcases hs.finished a haN with hd | hf | hsk
    · exact absurd (hv.done_succeeds a haN hd) hfail
    · exact hs.spread t ht a ha hf
    · obtain ⟨b, hb, hbf⟩ := hs.blamed a haN hsk
      exact hs.spread t ht b (Relation.TransGen.trans hb ha) hbf

/-- A node fails exactly when the verdict fails it and none of its strict
ancestors. -/
theorem failed_iff {t : T} (ht : N t) :
    failed t ↔ ¬ succeeds t ∧ ¬ ∃ a, Ancestor deps a t ∧ ¬ succeeds a := by
  rw [← hs.skipped_iff hv ht]
  constructor
  · intro hf
    exact ⟨hv.failed_fails t ht hf, hs.failed_not_skipped t hf⟩
  · rintro ⟨hfail, hns⟩
    rcases hs.finished t ht with hd | hf | hsk
    · exact absurd (hv.done_succeeds t ht hd) hfail
    · exact hf
    · exact absurd hsk hns

/-- In all other cases the node is done. -/
theorem done_iff {t : T} (ht : N t) :
    done t ↔ succeeds t ∧ ¬ ∃ a, Ancestor deps a t ∧ ¬ succeeds a := by
  rw [← hs.skipped_iff hv ht]
  constructor
  · intro hd
    exact ⟨hv.done_succeeds t ht hd, hs.done_not_skipped t hd⟩
  · rintro ⟨hsucc, hns⟩
    rcases hs.finished t ht with hd | hf | hsk
    · exact hd
    · exact absurd hsucc (hv.failed_fails t ht hf)
    · exact absurd hsk hns

/-- Some node fails exactly when the verdict fails some node. -/
theorem exists_failed_iff :
    (∃ t, N t ∧ failed t) ↔ ∃ t, N t ∧ ¬ succeeds t := by
  constructor
  · rintro ⟨t, ht, hf⟩
    exact ⟨t, ht, hv.failed_fails t ht hf⟩
  · rintro ⟨t, ht, hfail⟩
    rcases hs.finished t ht with hd | hf | hsk
    · exact absurd (hv.done_succeeds t ht hd) hfail
    · exact ⟨t, ht, hf⟩
    · obtain ⟨a, ha, hf⟩ := hs.blamed t ht hsk
      exact ⟨a, hs.closed t ht a ha, hf⟩

end Settled

end Outcome

end DagScheduler.Lib
