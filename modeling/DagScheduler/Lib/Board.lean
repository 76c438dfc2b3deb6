import DagScheduler.Lib.Dependency

/-!
# A board of dependent work

What a scheduler of dependent work is for, without its machinery.  A `Plan` names
the pieces of work, what each of them waits for, and how far a failure spreads.  A
`Board` shows where every piece stands, which pieces are in somebody's hands, and
how the whole stands.  A `Move` is something that happens to the work.

`replay` is the board after a log of moves, and `Legal` says that every move of the
log was allowed when it was made.  `Sound` is what no allowed move breaks: a piece
that waits still waits for something, and everything that a piece waits for is done
before the piece is touched.  What is done has been finished by a move of the log
(`Legal.done_iff`), so a piece is touched only after everything above it has been
finished (`Sound.ancestor_done`).

The hands that hold a piece need not know that it was given up.  What they report
counts all the same, and takes the piece out of `skipped` again.
-/

namespace DagScheduler.Lib

universe u

/-- Where a piece of work stands. -/
inductive Board.Phase where
  | waiting
  | ready
  | running
  | done
  | failed
  | skipped
deriving DecidableEq, Repr

namespace Board.Phase

/-- The piece has come to an end. -/
def ended : Phase → Bool
  | .done | .failed | .skipped => true
  | .waiting | .ready | .running => false

/-- The piece waits for nothing any more. -/
def unblocked : Phase → Bool
  | .ready | .running | .done | .failed => true
  | .waiting | .skipped => false

end Board.Phase

/-- How the whole stands. -/
inductive Board.Conclusion where
  | running
  | complete
  | failed
  | cancelled
deriving DecidableEq, Repr

/-- What is given up when a piece fails. -/
inductive Board.Spread where
  | everything
  | below
  | nothing
deriving DecidableEq, Repr

/-- The work. -/
structure Board.Plan (T : Type u) where
  tasks : List T
  deps : T → List T
  spread : Spread

/-- How the work stands. -/
structure Board (T : Type u) where
  phase : T → Board.Phase
  held : Set T
  conclusion : Board.Conclusion

/-- What can happen to the work. -/
inductive Board.Move (T : Type u) where
  | start (t : T)
  | finish (t : T)
  | giveBack (t : T)
  | fail (t : T)
  | cancel
  | recover
deriving DecidableEq, Repr

namespace Board

section Parts

variable {T : Type u} (plan : Plan T)

/-- The board of new work: what waits for nothing is ready. -/
def fresh : Board T where
  phase t := if plan.deps t = [] then .ready else .waiting
  held := ∅
  conclusion := .running

/-- As soon as every piece is over, the whole is concluded. -/
def conclude (b : Board T) : Board T :=
  if ∀ t ∈ plan.tasks, (b.phase t).ended = true then
    { b with
      conclusion := if ∃ t ∈ plan.tasks, b.phase t = .failed then .failed else .complete }
  else b

/-- The whole is concluded, whatever its pieces are. -/
def close (c : Conclusion) (b : Board T) : Board T := { b with conclusion := c }

/-- What waits for nothing any more becomes ready. -/
def release (b : Board T) : Board T :=
  { b with
    phase := fun t =>
      if b.phase t = .waiting ∧ ∀ d ∈ plan.deps t, b.phase d = .done then .ready
      else b.phase t }

open Classical in
/-- The open pieces of `Q` are given up. -/
noncomputable def skip (Q : T → Prop) (b : Board T) : Board T :=
  { b with phase := fun t => if Q t ∧ (b.phase t).ended = false then .skipped else b.phase t }

/-- What is given up after the failure of `t`. -/
noncomputable def fallout (t : T) (b : Board T) : Board T :=
  match plan.spread with
  | .everything => (b.skip fun _ => True).close .failed
  | .below => (b.skip (Ancestor plan.deps t)).conclude plan
  | .nothing => b

/-- All running pieces are ready again, and nobody holds anything. -/
def recover (b : Board T) : Board T :=
  { b with
    phase := fun t => if b.phase t = .running then .ready else b.phase t
    held := ∅ }

variable {plan}

section

variable (b : Board T) (t : T)

@[simp] theorem conclude_phase : (b.conclude plan).phase = b.phase := by
  unfold conclude
  split <;> rfl

@[simp] theorem conclude_held : (b.conclude plan).held = b.held := by
  unfold conclude
  split <;> rfl

theorem conclude_of_open (h : ¬ ∀ t ∈ plan.tasks, (b.phase t).ended = true) :
    b.conclude plan = b := if_neg h

theorem conclude_of_failed (h : ∀ t ∈ plan.tasks, (b.phase t).ended = true)
    (hsome : ∃ t ∈ plan.tasks, b.phase t = .failed) : b.conclude plan = b.close .failed := by
  rw [conclude, if_pos h, if_pos hsome]
  rfl

theorem conclude_of_complete (h : ∀ t ∈ plan.tasks, (b.phase t).ended = true)
    (hnone : ¬ ∃ t ∈ plan.tasks, b.phase t = .failed) :
    b.conclude plan = b.close .complete := by
  rw [conclude, if_pos h, if_neg hnone]
  rfl

@[simp] theorem close_phase (c : Conclusion) : (b.close c).phase = b.phase := rfl

@[simp] theorem close_held (c : Conclusion) : (b.close c).held = b.held := rfl

theorem release_phase : (b.release plan).phase t =
    if b.phase t = .waiting ∧ ∀ d ∈ plan.deps t, b.phase d = .done then .ready
    else b.phase t := rfl

open Classical in
theorem skip_phase (Q : T → Prop) : (b.skip Q).phase t =
    if Q t ∧ (b.phase t).ended = false then .skipped else b.phase t := rfl

theorem recover_phase : b.recover.phase t =
    if b.phase t = .running then .ready else b.phase t := rfl

theorem release_done_iff : (b.release plan).phase t = .done ↔ b.phase t = .done := by
  rw [release_phase]
  split
  · rename_i hfree
    simp [hfree.1]
  · exact Iff.rfl

theorem skip_done_iff (Q : T → Prop) : (b.skip Q).phase t = .done ↔ b.phase t = .done := by
  rw [skip_phase]
  split
  · rename_i hopen
    refine iff_of_false (by simp) fun hd => ?_
    rw [hd] at hopen
    cases hopen.2
  · exact Iff.rfl

theorem fallout_done_iff (u : T) : (b.fallout plan u).phase t = .done ↔ b.phase t = .done := by
  unfold fallout
  split
  · rw [close_phase, skip_done_iff]
  · rw [conclude_phase, skip_done_iff]
  · exact Iff.rfl

theorem recover_done_iff : b.recover.phase t = .done ↔ b.phase t = .done := by
  rw [recover_phase]
  split
  · rename_i hrun
    simp [hrun]
  · exact Iff.rfl

end

/-! ## What no move breaks -/

variable {b : Board T} {t : T}

variable (plan) in
/-- A waiting piece waits for something that is not done, and a piece that is past
waiting or in somebody's hands waits for nothing. -/
structure Sound (b : Board T) : Prop where
  waiting : ∀ t, b.phase t = .waiting → ∃ d ∈ plan.deps t, b.phase d ≠ .done
  unblocked : ∀ t, (b.phase t).unblocked = true ∨ t ∈ b.held →
    ∀ d ∈ plan.deps t, b.phase d = .done
  held : ∀ t ∈ b.held, b.phase t = .running ∨ b.phase t = .skipped

variable (plan) in
theorem sound_fresh : (fresh plan).Sound plan := by
  have hphase : ∀ t, (fresh plan).phase t = if plan.deps t = [] then .ready else .waiting :=
    fun _ => rfl
  refine ⟨fun t ht => ?_, fun t ht d hd => ?_, fun t ht => absurd ht (Set.notMem_empty t)⟩
  · rw [hphase] at ht
    split at ht
    · cases ht
    · rename_i hne
      obtain ⟨d, hd⟩ := List.exists_mem_of_ne_nil _ hne
      refine ⟨d, hd, ?_⟩
      rw [hphase]
      split <;> simp
  · rcases ht with ht | ht
    · rw [hphase, if_neg (List.ne_nil_of_mem hd)] at ht
      cases ht
    · exact absurd ht (Set.notMem_empty t)

namespace Sound

/-- What is in somebody's hands is not done. -/
theorem not_done (h : b.Sound plan) (ht : t ∈ b.held) : b.phase t ≠ .done := by
  rcases h.held t ht with hp | hp <;> simp [hp]

/-- Everything above a piece that waits for nothing is done. -/
theorem ancestor_done (h : b.Sound plan) {a : T}
    (ht : (b.phase t).unblocked = true ∨ t ∈ b.held) (hanc : Ancestor plan.deps a t) :
    b.phase a = .done := by
  induction hanc with
  | single hd => exact h.unblocked _ ht a hd
  | tail _ hd ih => exact ih (.inl (by rw [h.unblocked _ ht _ hd]; rfl))

/-- A step that finishes nothing and frees nothing. -/
theorem quiet (h : b.Sound plan) {b' : Board T}
    (hdone : ∀ t, b'.phase t = .done ↔ b.phase t = .done)
    (hwait : ∀ t, b'.phase t = .waiting → b.phase t = .waiting)
    (hfree : ∀ t, (b'.phase t).unblocked = true ∨ t ∈ b'.held →
      (b.phase t).unblocked = true ∨ t ∈ b.held)
    (hheld : ∀ t ∈ b'.held, b'.phase t = .running ∨ b'.phase t = .skipped) :
    b'.Sound plan := by
  refine ⟨fun t ht => ?_, fun t ht d hd => ?_, hheld⟩
  · obtain ⟨d, hd, hne⟩ := h.waiting t (hwait t ht)
    exact ⟨d, hd, fun hdd => hne ((hdone d).mp hdd)⟩
  · exact (hdone d).mpr (h.unblocked t (hfree t ht) d hd)

/-- How the whole stands does not matter. -/
theorem of_eq (h : b.Sound plan) {b' : Board T} (hphase : b'.phase = b.phase)
    (hheld : b'.held = b.held) : b'.Sound plan := by
  refine ⟨?_, ?_, ?_⟩
  · rw [hphase]
    exact h.waiting
  · rw [hphase, hheld]
    exact h.unblocked
  · rw [hphase, hheld]
    exact h.held

theorem skip (h : b.Sound plan) (Q : T → Prop) : (b.skip Q).Sound plan := by
  refine h.quiet (fun u => b.skip_done_iff u Q) (fun u hu => ?_) (fun u hu => ?_)
    (fun u hu => ?_)
  · rw [skip_phase] at hu
    split at hu
    · cases hu
    · exact hu
  · refine hu.imp_left fun hphase => ?_
    rw [skip_phase] at hphase
    split at hphase
    · cases hphase
    · exact hphase
  · rw [skip_phase]
    split
    · exact .inr rfl
    · exact h.held u hu

theorem fallout (h : b.Sound plan) (u : T) : (b.fallout plan u).Sound plan := by
  unfold Board.fallout
  split
  · exact (h.skip _).of_eq (close_phase _ _) (close_held _ _)
  · exact (h.skip _).of_eq (conclude_phase _) (conclude_held _)
  · exact h

theorem recover (h : b.Sound plan) : b.recover.Sound plan := by
  refine h.quiet b.recover_done_iff (fun u hu => ?_) (fun u hu => .inl ?_)
    (fun u hu => absurd hu (Set.notMem_empty u))
  · rw [recover_phase] at hu
    split at hu
    · cases hu
    · exact hu
  · replace hu := hu.resolve_right (Set.notMem_empty u)
    rw [recover_phase] at hu
    split at hu
    · rename_i hrun
      rw [hrun]
      rfl
    · exact hu

end Sound

end Parts

variable {T : Type u} [DecidableEq T] (plan : Plan T)

/-- A piece leaves the hands that hold it. -/
def leave (b : Board T) (t : T) (p : Phase) : Board T :=
  { b with phase := Function.update b.phase t p, held := b.held \ {t} }

/-- A piece is taken. -/
def take (b : Board T) (t : T) : Board T :=
  { b with phase := Function.update b.phase t .running, held := insert t b.held }

/-- The board after a move. -/
noncomputable def play (b : Board T) : Move T → Board T
  | .start t => b.take t
  | .finish t => ((b.leave t .done).release plan).conclude plan
  | .giveBack t => b.leave t .ready
  | .fail t => (b.leave t .failed).fallout plan t
  | .cancel => (b.skip fun _ => True).close .cancelled
  | .recover => b.recover

/-- The move can be made: only what is ready is started, and only what is held is
reported. -/
def Allowed (b : Board T) : Move T → Prop
  | .start t => t ∈ plan.tasks ∧ b.phase t = .ready
  | .finish t | .giveBack t | .fail t => t ∈ plan.tasks ∧ t ∈ b.held
  | .cancel | .recover => True

/-- The board after a log of moves. -/
noncomputable def replay (b : Board T) (log : List (Move T)) : Board T :=
  log.foldl (play plan) b

/-- Every move of the log was allowed. -/
def Legal (b : Board T) : List (Move T) → Prop
  | [] => True
  | m :: log => b.Allowed plan m ∧ (b.play plan m).Legal log

variable {plan} {b : Board T} {m : Move T} {log : List (Move T)} {t u : T} {p : Phase}

theorem replay_append (log' : List (Move T)) :
    b.replay plan (log ++ log') = (b.replay plan log).replay plan log' :=
  List.foldl_append

theorem legal_append (log' : List (Move T)) :
    b.Legal plan (log ++ log') ↔ b.Legal plan log ∧ (b.replay plan log).Legal plan log' := by
  induction log generalizing b with
  | nil => exact (true_and _).symm ▸ Iff.rfl
  | cons m log ih => exact (and_congr_right fun _ => ih).trans and_assoc.symm

theorem leave_phase : (b.leave t p).phase u = if u = t then p else b.phase u :=
  Function.update_apply b.phase t p u

theorem mem_leave_held : u ∈ (b.leave t p).held ↔ u ∈ b.held ∧ u ≠ t := Iff.rfl

theorem take_phase : (b.take t).phase u = if u = t then .running else b.phase u :=
  Function.update_apply b.phase t _ u

theorem mem_take_held : u ∈ (b.take t).held ↔ u = t ∨ u ∈ b.held := Iff.rfl

theorem take_done_iff (ht : b.phase t ≠ .done) :
    (b.take t).phase u = .done ↔ b.phase u = .done := by
  rw [take_phase]
  split
  · rename_i hut
    subst hut
    exact iff_of_false (by simp) ht
  · exact Iff.rfl

theorem leave_done_iff (hp : p ≠ .done) (ht : b.phase t ≠ .done) :
    (b.leave t p).phase u = .done ↔ b.phase u = .done := by
  rw [leave_phase]
  split
  · rename_i hut
    subst hut
    exact iff_of_false hp ht
  · exact Iff.rfl

theorem leave_done : (b.leave t .done).phase u = .done ↔ b.phase u = .done ∨ t = u := by
  rw [leave_phase]
  split
  · rename_i hut
    simp [hut]
  · rename_i hut
    rw [or_iff_left (Ne.symm hut)]

/-! ## Whole logs -/

namespace Sound

theorem take (h : b.Sound plan) (ht : b.phase t = .ready) : (b.take t).Sound plan := by
  refine h.quiet (fun u => take_done_iff (by simp [ht])) (fun u hu => ?_) (fun u hu => ?_)
    (fun u hu => ?_)
  · rw [take_phase] at hu
    split at hu
    · cases hu
    · exact hu
  · by_cases hut : u = t
    · rw [hut, ht]
      exact .inl rfl
    · rw [take_phase, if_neg hut, mem_take_held, or_iff_right hut] at hu
      exact hu
  · rw [take_phase]
    split
    · exact .inl rfl
    · rename_i hut
      exact h.held u ((or_iff_right hut).mp (mem_take_held.mp hu))

/-- A piece that comes back neither done nor waiting. -/
theorem leave (h : b.Sound plan) (ht : t ∈ b.held) (hdone : p ≠ .done)
    (hwait : p ≠ .waiting) : (b.leave t p).Sound plan := by
  refine h.quiet (fun u => leave_done_iff hdone (h.not_done ht)) (fun u hu => ?_)
    (fun u hu => ?_) (fun u hu => ?_)
  · rw [leave_phase] at hu
    split at hu
    · exact absurd hu hwait
    · exact hu
  · by_cases hut : u = t
    · exact .inr (hut ▸ ht)
    · rw [leave_phase, if_neg hut, mem_leave_held, and_iff_left hut] at hu
      exact hu
  · rw [leave_phase, if_neg (mem_leave_held.mp hu).2]
    exact h.held u (mem_leave_held.mp hu).1

/-- The end of a piece is the end of all the waiting for it. -/
theorem finish (h : b.Sound plan) (ht : t ∈ b.held) :
    ((b.leave t .done).release plan).Sound plan := by
  refine ⟨fun u hu => ?_, fun u hu d hd => (release_done_iff _ d).mpr ?_, fun u hu => ?_⟩
  · rw [release_phase] at hu
    split at hu
    · cases hu
    · rename_i hblocked
      by_contra hno
      refine hblocked ⟨hu, fun d hd => ?_⟩
      by_contra hnd
      exact hno ⟨d, hd, fun hdd => hnd ((release_done_iff _ d).mp hdd)⟩
  · by_cases hfree : (b.leave t .done).phase u = .waiting ∧
        ∀ d ∈ plan.deps u, (b.leave t .done).phase d = .done
    · exact hfree.2 d hd
    · rw [release_phase, if_neg hfree] at hu
      refine leave_done.mpr (.inl (h.unblocked u ?_ d hd))
      by_cases hut : u = t
      · exact .inr (hut ▸ ht)
      · rw [leave_phase, if_neg hut] at hu
        exact hu.imp_right And.left
  · have hold : u ∈ b.held ∧ u ≠ t := hu
    have hphase : (b.leave t .done).phase u = b.phase u := by rw [leave_phase, if_neg hold.2]
    have hrun := h.held u hold.1
    rw [release_phase, hphase, if_neg fun hfree => ?_]
    · exact hrun
    · rcases hrun with hrun | hrun <;> rw [hrun] at hfree <;> cases hfree.1

/-- The step lemma. -/
theorem play (h : b.Sound plan) (hm : b.Allowed plan m) : (b.play plan m).Sound plan := by
  cases m with
  | start t => exact h.take hm.2
  | finish t => exact (h.finish hm.2).of_eq (conclude_phase _) (conclude_held _)
  | giveBack t => exact h.leave hm.2 (by simp) (by simp)
  | fail t =>
    exact (h.leave hm.2 (by simp) (by simp)).fallout t
  | cancel => exact (h.skip _).of_eq (close_phase _ _) (close_held _ _)
  | recover => exact h.recover

/-- The run lemma. -/
theorem replay (h : b.Sound plan) (hlog : b.Legal plan log) : (b.replay plan log).Sound plan := by
  induction log generalizing b with
  | nil => exact h
  | cons m log ih => exact ih (h.play hlog.1) hlog.2

end Sound

/-! ## The order of the work -/

/-- What a move finishes is done, and nothing else becomes or stops being done. -/
theorem Sound.play_done_iff (h : b.Sound plan) (hm : b.Allowed plan m) :
    (b.play plan m).phase t = .done ↔ b.phase t = .done ∨ m = .finish t := by
  cases m with
  | start u =>
    rw [Board.play, take_done_iff (by simp [hm.2])]
    simp
  | finish u =>
    rw [Board.play, conclude_phase, release_done_iff, leave_done]
    simp
  | giveBack u =>
    rw [Board.play, leave_done_iff (by simp) (h.not_done hm.2)]
    simp
  | fail u =>
    rw [Board.play, fallout_done_iff, leave_done_iff (by simp) (h.not_done hm.2)]
    simp
  | cancel =>
    rw [Board.play, close_phase, skip_done_iff]
    simp
  | recover =>
    rw [Board.play, recover_done_iff]
    simp

/-- What is done after a legal log has been finished in it. -/
theorem Legal.done_iff (hlog : (fresh plan).Legal plan log) :
    ((fresh plan).replay plan log).phase t = .done ↔ .finish t ∈ log := by
  induction log using List.reverseRecOn with
  | nil =>
    have hphase : ((fresh plan).replay plan []).phase t
        = if plan.deps t = [] then .ready else .waiting := rfl
    rw [hphase]
    split <;> simp
  | append_singleton log m ih =>
    rw [legal_append] at hlog
    have hsound := (sound_fresh plan).replay hlog.1
    rw [replay_append, List.mem_append, List.mem_singleton, ← ih hlog.1, eq_comm (b := m)]
    exact hsound.play_done_iff hlog.2.1

/-! ## Many pieces at once -/

variable (plan b) in
/-- Several pieces come back. -/
theorem replay_giveBack (l : List T) :
    (∀ u, (b.replay plan (l.map .giveBack)).phase u = if u ∈ l then .ready else b.phase u) ∧
      (∀ u, u ∈ (b.replay plan (l.map .giveBack)).held ↔ u ∈ b.held ∧ u ∉ l) ∧
      (b.replay plan (l.map .giveBack)).conclusion = b.conclusion := by
  induction l generalizing b with
  | nil => simp [replay]
  | cons t l ih =>
    obtain ⟨hphase, hheld, hconc⟩ := ih (b.leave t .ready)
    refine ⟨fun u => (hphase u).trans ?_, fun u => (hheld u).trans ?_, hconc⟩
    · rw [leave_phase]
      by_cases hut : u = t <;> simp [hut]
    · rw [mem_leave_held, List.mem_cons, not_or, and_assoc]

theorem legal_giveBack {l : List T} (hnd : l.Nodup) (htasks : ∀ t ∈ l, t ∈ plan.tasks)
    (hheld : ∀ t ∈ l, t ∈ b.held) : b.Legal plan (l.map .giveBack) := by
  induction l generalizing b with
  | nil => trivial
  | cons t l ih =>
    rw [List.nodup_cons] at hnd
    rw [List.forall_mem_cons] at htasks hheld
    refine ⟨⟨htasks.1, hheld.1⟩, ih hnd.2 htasks.2 fun u hu => ?_⟩
    exact ⟨hheld.2 u hu, fun hut => hnd.1 (hut ▸ hu)⟩

end Board

end DagScheduler.Lib
