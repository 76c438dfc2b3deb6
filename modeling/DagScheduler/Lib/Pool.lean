import DagScheduler.Lib.Program

/-!
# Programs that run concurrently

A `Thread` is a program that has been started under a label, with what is left
of it.  An `Interleaving` starts threads and executes their actions in any
order.  It keeps the list of its events, oldest first.  An event knows the
thread that moved, the action, the state before it, and whether the thread has
returned with it.

Two views of an interleaving help to work with it.

* `Pool.exec` computes the interleaving of a given schedule.
* A `Machine` describes the programs by control points.  A point has one
  action, and a next point for every answer.  `Machine.Tracks` says that what
  is left of a program is the unfolding of a point.  `Interleaving.run` then
  replaces the programs of an interleaving by points, so that an invariant can
  speak about where every thread is.
-/

namespace DagScheduler.Lib

universe u v

variable {E : Type → Type u} {σ : Type v} {L P α : Type}

/-- The program does nothing any more. -/
def Prog.isRet : Prog E α → Bool
  | .ret _ => true
  | .step _ _ => false

theorem Prog.bind_assoc {β γ : Type} (p : Prog E α) (f : α → Prog E β) (g : β → Prog E γ) :
    p >>= f >>= g = p >>= fun a => f a >>= g := by
  induction p with
  | ret a => rfl
  | step e k ih => exact congrArg (Prog.step e) (funext ih)

/-- One action of one thread. -/
structure Event (L : Type) (E : Type → Type u) (σ : Type v) : Type (max 1 u v) where
  thread : Nat
  label : L
  {β : Type}
  action : E β
  before : σ
  returned : Bool

/-- The state after an event. -/
def Event.after (h : Handler E σ) (ev : Event L E σ) : σ := (h ev.action ev.before).2

/-- A program that has been started under a label. -/
structure Thread (L : Type) (E : Type → Type u) (α : Type) : Type (max 1 u) where
  label : L
  rest : Prog E α

/-- The events so far, the threads, and the state. -/
inductive Interleaving (h : Handler E σ) (prog : L → Prog E α) (w₀ : σ) :
    List (Event L E σ) → List (Thread L E α) → σ → Prop where
  | start : Interleaving h prog w₀ [] [] w₀
  | spawn {es : List (Event L E σ)} {ts : List (Thread L E α)} {w : σ} (l : L) :
      Interleaving h prog w₀ es ts w →
      Interleaving h prog w₀ es (ts ++ [⟨l, prog l⟩]) w
  | step {es : List (Event L E σ)} {ts : List (Thread L E α)} {w : σ} {i : Nat} {l : L}
      {β : Type} {e : E β} {k : β → Prog E α} :
      Interleaving h prog w₀ es ts w → ts[i]? = some ⟨l, .step e k⟩ →
      Interleaving h prog w₀
        (es ++ [⟨i, l, e, w, (k (h e w).1).isRet⟩])
        (ts.set i ⟨l, k (h e w).1⟩) (h e w).2

/-- The last event of a thread. -/
def lastOf (i : Nat) (es : List (Event L E σ)) : Option (Event L E σ) :=
  (es.filter (·.thread = i)).getLast?

theorem lastOf_append_self {es : List (Event L E σ)} {ev : Event L E σ} {i : Nat}
    (hi : ev.thread = i) : lastOf i (es ++ [ev]) = some ev := by
  unfold lastOf
  rw [List.filter_append]
  simp [hi]

theorem lastOf_append_ne {es : List (Event L E σ)} {ev : Event L E σ} {i : Nat}
    (hi : ev.thread ≠ i) : lastOf i (es ++ [ev]) = lastOf i es := by
  unfold lastOf
  rw [List.filter_append]
  simp [hi]

theorem mem_of_lastOf {es : List (Event L E σ)} {ev : Event L E σ} {i : Nat}
    (h : lastOf i es = some ev) : ev ∈ es ∧ ev.thread = i := by
  have hmem := List.mem_of_getLast? h
  rw [List.mem_filter, decide_eq_true_eq] at hmem
  exact hmem

/-- The first event of a thread. -/
def firstOf (i : Nat) (es : List (Event L E σ)) : Option (Event L E σ) :=
  es.find? (·.thread = i)

/-- Later events do not change the first one. -/
theorem firstOf_append {es : List (Event L E σ)} {i : Nat} {first : Event L E σ}
    (h : firstOf i es = some first) (ev : Event L E σ) :
    firstOf i (es ++ [ev]) = some first := by
  rw [firstOf, List.find?_append, ← firstOf, h, Option.some_or]

theorem firstOf_append_none {es : List (Event L E σ)} {i : Nat} (h : firstOf i es = none)
    (ev : Event L E σ) : firstOf i (es ++ [ev]) = if ev.thread = i then some ev else none := by
  rw [firstOf, List.find?_append, ← firstOf, h, Option.none_or]
  by_cases hi : ev.thread = i <;> simp [hi]

/-- A thread without a last event has no first one. -/
theorem firstOf_of_lastOf_none {es : List (Event L E σ)} {i : Nat} (h : lastOf i es = none) :
    firstOf i es = none := by
  rw [lastOf, List.getLast?_eq_none_iff, List.filter_eq_nil_iff] at h
  rw [firstOf, List.find?_eq_none]
  exact h

/-- An event and what came before it, by position. -/
theorem take_of_prefix {A : Type v} {pre es : List A} {ev : A} (h : pre ++ [ev] <+: es) :
    es[pre.length]? = some ev ∧ es.take pre.length = pre := by
  obtain ⟨post, rfl⟩ := h
  constructor
  · simp
  · rw [List.append_assoc, List.take_left]

/-- The thread has moved and has not returned. -/
def InProgress (es : List (Event L E σ)) (i : Nat) (l : L) : Prop :=
  ∃ ev, lastOf i es = some ev ∧ ev.label = l ∧ ev.returned = false

/-- A sum over the threads when one of them changes. -/
theorem sum_map_set {A : Type v} (f : A → Nat) {l : List A} {i : Nat} {a : A}
    (h : l[i]? = some a) (b : A) :
    ((l.set i b).map f).sum + f a = (l.map f).sum + f b := by
  induction l generalizing i with
  | nil => cases h
  | cons x l ih =>
    cases i with
    | zero =>
      cases h
      simp only [List.set_cons_zero, List.map_cons, List.sum_cons]
      omega
    | succ i =>
      have hrest := ih h
      simp only [List.set_cons_succ, List.map_cons, List.sum_cons]
      omega

/-- The labels stay when a thread moves. -/
theorem labels_set {A : Type v} {ps : List (L × A)} {i : Nat} {l : L} {a : A}
    (h : ps[i]? = some (l, a)) (b : A) : (ps.set i (l, b)).map (·.1) = ps.map (·.1) := by
  have hl : (ps.map (·.1))[i]? = some l := by
    rw [List.getElem?_map, h]
    rfl
  rw [List.map_set]
  refine List.ext_getElem? fun j => ?_
  by_cases hij : i = j
  · subst hij
    rw [List.getElem?_set_self (List.getElem?_eq_some_iff.mp hl).1, hl]
  · rw [List.getElem?_set_ne hij]

/-- The threads of the events exist. -/
theorem Interleaving.thread_lt {h : Handler E σ} {prog : L → Prog E α} {w₀ w : σ}
    {es : List (Event L E σ)} {ts : List (Thread L E α)}
    (hrun : Interleaving h prog w₀ es ts w) {ev : Event L E σ} (hev : ev ∈ es) :
    ev.thread < ts.length := by
  induction hrun with
  | start => cases hev
  | spawn l _ ih =>
    rw [List.length_append]
    exact Nat.lt_add_right _ (ih hev)
  | step _ hth ih =>
    rw [List.length_set]
    rcases List.mem_append.mp hev with hold | hnew
    · exact ih hold
    · rw [List.mem_singleton.mp hnew]
      exact (List.getElem?_eq_some_iff.mp hth).1

/-- A thread that is started now has no events. -/
theorem Interleaving.firstOf_length {h : Handler E σ} {prog : L → Prog E α} {w₀ w : σ}
    {es : List (Event L E σ)} {ts : List (Thread L E α)}
    (hrun : Interleaving h prog w₀ es ts w) : firstOf ts.length es = none := by
  rw [firstOf, List.find?_eq_none]
  intro ev hev heq
  exact Nat.lt_irrefl _ (of_decide_eq_true heq ▸ hrun.thread_lt hev)

/-! ## Schedules -/

/-- What happens next in a schedule. -/
inductive Choice (L : Type) where
  | spawn (l : L)
  | run (i : Nat)

namespace Pool

variable (h : Handler E σ) (prog : L → Prog E α)

/-- One round of a schedule.  A thread that does not exist or has returned is
passed over. -/
def step (c : List (Event L E σ) × List (Thread L E α) × σ) :
    Choice L → List (Event L E σ) × List (Thread L E α) × σ
  | .spawn l => (c.1, c.2.1 ++ [⟨l, prog l⟩], c.2.2)
  | .run i =>
    match c.2.1[i]? with
    | some ⟨l, .step e k⟩ =>
      (c.1 ++ [⟨i, l, e, c.2.2, (k (h e c.2.2).1).isRet⟩],
        c.2.1.set i ⟨l, k (h e c.2.2).1⟩, (h e c.2.2).2)
    | _ => c

/-- Execute a schedule. -/
def exec (w₀ : σ) (schedule : List (Choice L)) :
    List (Event L E σ) × List (Thread L E α) × σ :=
  schedule.foldl (step h prog) ([], [], w₀)

theorem interleaving_exec (w₀ : σ) (schedule : List (Choice L)) :
    Interleaving h prog w₀ (exec h prog w₀ schedule).1 (exec h prog w₀ schedule).2.1
      (exec h prog w₀ schedule).2.2 := by
  induction schedule using List.reverseRecOn with
  | nil => exact .start
  | append_singleton schedule c ih =>
    rw [exec, List.foldl_append, List.foldl_cons, List.foldl_nil, ← exec]
    cases c with
    | spawn l => exact ih.spawn l
    | run i =>
      unfold step
      dsimp only
      split
      · rename_i hi
        exact ih.step hi
      · exact ih

end Pool

/-! ## Control points -/

/-- The action of a point, and the point after each answer. -/
structure Move (E : Type → Type u) (P : Type) where
  {β : Type}
  action : E β
  next : β → P

/-- Where programs start and how they move. -/
structure Machine (E : Type → Type u) (L P : Type) where
  init : L → P
  move : P → Option (Move E P)

namespace Machine

variable (M : Machine E L P)

/-- The program is the unfolding of the point. -/
def Tracks : P → Prog E α → Prop
  | p, .ret _ => M.move p = none
  | p, .step e k => ∃ next, M.move p = some ⟨e, next⟩ ∧ ∀ b, Tracks (next b) (k b)

variable {M}

theorem Tracks.isRet {p : P} {rest : Prog E α} (h : M.Tracks p rest) :
    rest.isRet = (M.move p).isNone := by
  cases rest with
  | ret a =>
    have hp : M.move p = none := h
    rw [hp]
    rfl
  | step e k =>
    obtain ⟨next, hp, _⟩ := h
    rw [hp]
    rfl

variable (M)

/-- An interleaving of control points. -/
inductive Run (h : Handler E σ) (w₀ : σ) :
    List (Event L E σ) → List (L × P) → σ → Prop where
  | start : Run h w₀ [] [] w₀
  | spawn {es : List (Event L E σ)} {ps : List (L × P)} {w : σ} (l : L) :
      Run h w₀ es ps w → Run h w₀ es (ps ++ [(l, M.init l)]) w
  | step {es : List (Event L E σ)} {ps : List (L × P)} {w : σ} {i : Nat} {l : L}
      {p : P} {β : Type} {e : E β} {next : β → P} :
      Run h w₀ es ps w → ps[i]? = some (l, p) → M.move p = some ⟨e, next⟩ →
      Run h w₀
        (es ++ [⟨i, l, e, w, (M.move (next (h e w).1)).isNone⟩])
        (ps.set i (l, next (h e w).1)) (h e w).2

/-- Every thread is at its point. -/
structure Follow (ts : List (Thread L E α)) (ps : List (L × P)) : Prop where
  length : ts.length = ps.length
  tracks : ∀ (i : Nat) (th : Thread L E α) (q : L × P), ts[i]? = some th →
    ps[i]? = some q → th.label = q.1 ∧ M.Tracks q.2 th.rest

end Machine

section Runs

variable {M : Machine E L P} {h : Handler E σ} {prog : L → Prog E α} {w₀ w : σ}
  {es : List (Event L E σ)} {ts : List (Thread L E α)} {ps : List (L × P)}

theorem Machine.Follow.spawn (hf : M.Follow ts ps) {l : L}
    (htracks : M.Tracks (M.init l) (prog l)) :
    M.Follow (ts ++ [⟨l, prog l⟩]) (ps ++ [(l, M.init l)]) := by
  refine ⟨by simp [hf.length], ?_⟩
  intro i th q hth hq
  rw [List.getElem?_append] at hth hq
  rw [hf.length] at hth
  split at hth
  · rename_i hi
    rw [if_pos hi] at hq
    exact hf.tracks i th q hth hq
  · rename_i hi
    rw [if_neg hi] at hq
    rw [List.getElem?_singleton] at hth hq
    split at hth
    · rename_i hlast
      rw [if_pos hlast] at hq
      cases hth
      cases hq
      exact ⟨rfl, htracks⟩
    · cases hth

theorem Machine.Follow.step (hf : M.Follow ts ps) {i : Nat} {l : L} {p : P}
    {rest : Prog E α} (htracks : M.Tracks p rest) :
    M.Follow (ts.set i ⟨l, rest⟩) (ps.set i (l, p)) := by
  refine ⟨by simp [hf.length], ?_⟩
  intro j th q hth hq
  rw [List.getElem?_set] at hth hq
  rw [hf.length] at hth
  split at hth
  · rename_i hij
    rw [if_pos hij] at hq
    split at hth
    · rename_i hlt
      rw [if_pos hlt] at hq
      cases hth
      cases hq
      exact ⟨rfl, htracks⟩
    · cases hth
  · rename_i hij
    rw [if_neg hij] at hq
    exact hf.tracks j th q hth hq

/-- The point of a thread. -/
theorem Machine.Follow.point (hf : M.Follow ts ps) {i : Nat} {th : Thread L E α}
    (hth : ts[i]? = some th) :
    ∃ p, ps[i]? = some (th.label, p) ∧ M.Tracks p th.rest := by
  have hi : i < ps.length := by
    rw [← hf.length]
    exact (List.getElem?_eq_some_iff.mp hth).1
  have hq : ps[i]? = some ps[i] := List.getElem?_eq_getElem hi
  obtain ⟨hlabel, htracks⟩ := hf.tracks i th _ hth hq
  refine ⟨ps[i].2, ?_, htracks⟩
  rw [hq, hlabel]

/-- The threads and the points have the same labels. -/
theorem Machine.Follow.labels (hf : M.Follow ts ps) : ps.map (·.1) = ts.map (·.label) := by
  refine List.ext_getElem? fun i => ?_
  rw [List.getElem?_map, List.getElem?_map]
  cases hth : ts[i]? with
  | none =>
    have hle : ps.length ≤ i := hf.length ▸ List.getElem?_eq_none_iff.mp hth
    rw [List.getElem?_eq_none hle]
    rfl
  | some th =>
    obtain ⟨p, hp, _⟩ := hf.point hth
    rw [hp]
    rfl

/-- An interleaving of programs is one of their points. -/
theorem Interleaving.run {N : L → Prop} (htracks : ∀ l, N l → M.Tracks (M.init l) (prog l))
    (hrun : Interleaving h prog w₀ es ts w) (hN : ∀ th ∈ ts, N th.label) :
    ∃ ps, M.Run h w₀ es ps w ∧ M.Follow ts ps := by
  induction hrun with
  | start => exact ⟨[], .start, rfl, by simp⟩
  | spawn l _ ih =>
    obtain ⟨ps, hps, hf⟩ := ih fun th hth => hN th (List.mem_append_left _ hth)
    have hl : N l := hN ⟨l, prog l⟩ (by simp)
    exact ⟨_, hps.spawn l, hf.spawn (htracks l hl)⟩
  | @step es ts w i l β e k _ hth ih =>
    -- The label of the thread that moves stays in the list.
    have hi : i < ts.length := (List.getElem?_eq_some_iff.mp hth).1
    have hNts : ∀ th ∈ ts, N th.label := by
      intro th hin
      obtain ⟨j, hj, rfl⟩ := List.mem_iff_getElem.mp hin
      by_cases hij : i = j
      · subst hij
        rw [List.getElem?_eq_getElem hi, Option.some.injEq] at hth
        rw [hth]
        exact hN ⟨l, k (h e w).1⟩ (List.mem_set hi _)
      · refine hN ts[j] (List.mem_iff_getElem.mpr ⟨j, by simpa using hj, ?_⟩)
        rw [List.getElem_set_ne hij]
    obtain ⟨ps, hps, hf⟩ := ih hNts
    obtain ⟨p, hp, next, hmove, hnext⟩ := hf.point hth
    refine ⟨_, ?_, hf.step (hnext (h e w).1)⟩
    rw [(hnext (h e w).1).isRet]
    exact hps.step hp hmove

/-- The threads of the events exist. -/
theorem Machine.Run.exists_thread (hrun : M.Run h w₀ es ps w) {ev : Event L E σ}
    (hev : ev ∈ es) : ∃ p, ps[ev.thread]? = some (ev.label, p) := by
  induction hrun with
  | start => cases hev
  | spawn l _ ih =>
    obtain ⟨p, hp⟩ := ih hev
    refine ⟨p, ?_⟩
    rw [List.getElem?_append_left (List.getElem?_eq_some_iff.mp hp).1]
    exact hp
  | @step _ _ w i l _ _ e next _ hp _ ih =>
    have hi := (List.getElem?_eq_some_iff.mp hp).1
    rcases List.mem_append.mp hev with hold | hnew
    · obtain ⟨p', hp'⟩ := ih hold
      by_cases hij : i = ev.thread
      · subst hij
        rw [hp] at hp'
        cases hp'
        exact ⟨_, List.getElem?_set_self hi⟩
      · exact ⟨p', by rw [List.getElem?_set_ne hij]; exact hp'⟩
    · rw [List.mem_singleton.mp hnew]
      exact ⟨_, List.getElem?_set_self hi⟩

/-- A thread that has not moved is at its first point, and for any other
thread the last event says whether it has returned. -/
theorem Machine.Run.last (hrun : M.Run h w₀ es ps w) {i : Nat} {l : L} {p : P}
    (hp : ps[i]? = some (l, p)) :
    p = M.init l ∧ lastOf i es = none ∨
      ∃ ev, lastOf i es = some ev ∧ ev.label = l ∧ ev.returned = (M.move p).isNone := by
  induction hrun generalizing i l p with
  | start => cases hp
  | @spawn es ps w l' hps ih =>
    rw [List.getElem?_append] at hp
    split at hp
    · exact ih hp
    · rename_i hi
      rw [List.getElem?_singleton] at hp
      split at hp
      · cases hp
        refine .inl ⟨rfl, ?_⟩
        -- No event belongs to a thread that was not there.
        unfold lastOf
        rw [List.getLast?_eq_none_iff, List.filter_eq_nil_iff]
        intro ev hev heq
        obtain ⟨p', hp'⟩ := hps.exists_thread hev
        have hlt := (List.getElem?_eq_some_iff.mp hp').1
        rw [of_decide_eq_true heq] at hlt
        exact hi hlt
      · cases hp
  | @step es ps w j l' p' β e next _ hp' _ ih =>
    by_cases hij : j = i
    · subst hij
      rw [List.getElem?_set_self (List.getElem?_eq_some_iff.mp hp').1] at hp
      cases hp
      exact .inr ⟨_, lastOf_append_self rfl, rfl, rfl⟩
    · rw [List.getElem?_set_ne hij] at hp
      rw [lastOf_append_ne (by exact hij)]
      exact ih hp

/-- A thread between its first point and its end is in progress. -/
theorem Machine.Run.inProgress (hrun : M.Run h w₀ es ps w) {i : Nat} {l : L} {p : P}
    (hp : ps[i]? = some (l, p)) (hinit : p ≠ M.init l) (hmove : (M.move p).isSome = true) :
    InProgress es i l := by
  rcases hrun.last hp with ⟨heq, _⟩ | ⟨ev, hlast, hlabel, hret⟩
  · exact absurd heq hinit
  · refine ⟨ev, hlast, hlabel, ?_⟩
    rw [hret, ← Option.not_isSome, hmove]
    rfl

end Runs

end DagScheduler.Lib
