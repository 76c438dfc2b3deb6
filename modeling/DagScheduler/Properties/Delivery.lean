import DagScheduler.Coordinator.Ownership
import DagScheduler.Coordinator.Runs
import DagScheduler.Properties.Capacity

/-!
# Results that arrive

While the coordinator holds a task for a worker, the worker has to be on its
way to a result: the assignment is in a channel, or it is being executed, or
the result waits to be sent or is in a channel.  `ResultsUnderway` says so.
Otherwise the task stays `RUNNING` for as long as the worker sends heartbeats.

A stream that breaks at a bad moment breaks the property.  An assignment in its
channel is gone, and nobody sends it again.  An execution that came over it
sends its result to a stream that is dead, and so the result is gone too.  The
same happens to a result whose output is not valid UTF-8.  `Harmless` excludes
these three moments, and then the property holds in every state of every run
that reuses no ID.
-/

namespace DagScheduler

open Lib

/-! ## The property -/

/-- The assignment `(t, e)` is in a channel. -/
def Stream.Assigns (s : Stream) (t e : String) : Prop :=
  s.live = true ∧ ∃ a, .taskAssignment a ∈ s.toWorker ∧ a.taskId = t ∧ a.executionId = e

/-- The result of `(t, e)` is in a channel. -/
def Stream.Reports (s : Stream) (t e : String) : Prop :=
  s.live = true ∧ ∃ m r, m ∈ s.toCoordinator ∧ m.payload = .taskResult r ∧ r.taskId = t ∧
    r.executionId = e

/-- The execution is about `(t, e)` and still has its result. -/
def Execution.Holds (x : Execution) (t e : String) : Prop :=
  x.phase ≠ .leaving ∧ x.assignment.taskId = t ∧ x.assignment.executionId = e

/-- The assignment `(t, e)` or its result is in some channel. -/
def InFlight (streams : List Stream) (t e : String) : Prop :=
  ∃ (i : Nat) (s : Stream), streams[i]? = some s ∧ (s.Assigns t e ∨ s.Reports t e)

/-- The result of `(t, e)` may still arrive. -/
def Underway (streams : List Stream) (executions : List Execution) (t e : String) : Prop :=
  InFlight streams t e ∨
  ∃ (j : Nat) (x : Execution), executions[j]? = some x ∧ x.Holds t e

/-- The result of every task that the worker owns may still arrive. -/
def ResultsUnderway (c : Cluster) : Prop :=
  ∀ t e : String, c.world.coord.runningTasks[t]? = some c.worker.id →
    c.world.coord.assignedTasks[t]? = some e → Underway c.streams c.worker.executions t e

/-- The message carries a result. -/
def WorkerPayload.isResult : WorkerPayload → Bool
  | .taskResult _ => true
  | _ => false

/-- The turn loses no assignment and no result: a stream breaks only when no
execution that came over it has its result still to send and none of its
channels holds an assignment or a result, and every output can be sent. -/
def Cluster.Harmless (c : Cluster) : Turn → Prop
  | .lose i =>
    (∀ s ∈ c.streams[i]?, s.toWorker.all (!·.isAssignment) = true ∧
      s.toCoordinator.all (!·.payload.isResult) = true) ∧
    ∀ x ∈ c.worker.executions, x.stream = i → x.phase = .leaving
  | .finish _ exit => (String.fromUTF8? exit.outputStr).isSome = true
  | _ => True

instance (c : Cluster) : (turn : Turn) → Decidable (c.Harmless turn)
  | .lose _ => inferInstanceAs (Decidable (_ ∧ _))
  | .finish _ _ => inferInstanceAs (Decidable (_ = true))
  | .connect | .requestTick | .heartbeatTick _ _ | .serve _ | .receive _ | .register _
  | .report _ | .deregister _ | .other _ => .isTrue trivial

/-! ## The invariant -/

/-- The stream talks to the worker `id`, and nothing is in the channels of a
dead stream. -/
structure Stream.Tidy (id : String) (s : Stream) : Prop where
  handler : s.workerID = "" ∨ s.workerID = id
  sender : ∀ m ∈ s.toCoordinator, m.workerId = id
  dead : s.live = false → s.toCoordinator = [] ∧ s.toWorker = []

/-- An execution that has its result still to send can send it. -/
structure Execution.CanSend (streams : List Stream) (x : Execution) : Prop where
  stream : x.phase ≠ .leaving → ∃ s, streams[x.stream]? = some s ∧ s.live = true
  output : ∀ exit, x.phase = .reporting exit → (String.fromUTF8? exit.outputStr).isSome = true

/-- The invariant of a run. -/
structure Delivering (P : WorkflowSpec → Prop) (c : Cluster) : Prop where
  inv : Inv P c.world
  streams : ∀ (i : Nat) (s : Stream), c.streams[i]? = some s → s.Tidy c.worker.id
  executions : ∀ (j : Nat) (x : Execution), c.worker.executions[j]? = some x →
    x.CanSend c.streams
  underway : ResultsUnderway c

/-- Live streams stay where they are. -/
def Outlive (l l' : List Stream) : Prop :=
  ∀ (i : Nat) (s : Stream), l[i]? = some s → s.live = true →
    ∃ s', l'[i]? = some s' ∧ s'.live = true

theorem Execution.CanSend.outlive {l l' : List Stream} {x : Execution} (h : x.CanSend l)
    (hl : Outlive l l') : x.CanSend l' := by
  refine ⟨fun hx => ?_, h.output⟩
  obtain ⟨s, hs, hlive⟩ := h.stream hx
  exact hl x.stream s hs hlive

section Turns

variable {env : Env} {P : WorkflowSpec → Prop} {c c' : Cluster}

/-- A turn that leaves the coordinator alone. -/
theorem Delivering.of_world (h : Delivering P c) (hworld : c'.world = c.world)
    (hid : c'.worker.id = c.worker.id)
    (hstreams : ∀ (i : Nat) (s : Stream), c'.streams[i]? = some s → s.Tidy c.worker.id)
    (hexec : ∀ (j : Nat) (x : Execution), c'.worker.executions[j]? = some x →
      x.CanSend c'.streams)
    (hunder : ∀ t e, Underway c.streams c.worker.executions t e →
      Underway c'.streams c'.worker.executions t e) : Delivering P c' := by
  refine ⟨hworld ▸ h.inv, fun i s hs => hid ▸ hstreams i s hs, hexec, fun t e ht he => ?_⟩
  rw [hworld] at ht he
  rw [hid] at ht
  exact hunder t e (h.underway t e ht he)

/-- The entries of a list of which one is changed in place. -/
theorem get_modify {α : Type} {l : List α} {f : α → α} {i j : Nat} {a : α}
    (h : (l.modify i f)[j]? = some a) :
    ∃ b, l[j]? = some b ∧ a = if i = j then f b else b := by
  rw [List.getElem?_modify] at h
  obtain ⟨b, hb, rfl⟩ := Option.map_eq_some_iff.mp h
  exact ⟨b, hb, rfl⟩

theorem get_modify_of_get {α : Type} {l : List α} {j : Nat} {b : α} (h : l[j]? = some b)
    (i : Nat) (f : α → α) : (l.modify i f)[j]? = some (if i = j then f b else b) := by
  rw [List.getElem?_modify, h]
  rfl

theorem Delivering.connect (h : Delivering P c) : Delivering P c.connect := by
  unfold Cluster.connect
  split
  · exact h
  · refine h.of_world rfl rfl (fun i s hs => ?_) (fun j x hx => ?_) fun t e hu => ?_
    · rw [List.getElem?_append] at hs
      split at hs
      · exact h.streams i s hs
      · have hin := List.mem_of_getElem? hs
        rw [List.mem_singleton] at hin
        subst hin
        exact ⟨.inl rfl, by simp, by simp⟩
    · refine (h.executions j x hx).outlive fun i s hs hlive => ⟨s, ?_, hlive⟩
      rw [List.getElem?_append_left (List.getElem?_eq_some_iff.mp hs).1, hs]
    · rcases hu with ⟨i, s, hs, hcase⟩ | hx
      · refine .inl ⟨i, s, ?_, hcase⟩
        rw [List.getElem?_append_left (List.getElem?_eq_some_iff.mp hs).1, hs]
      · exact .inr hx

theorem Delivering.lose (h : Delivering P c) {i : Nat} (hok : c.Harmless (.lose i)) :
    Delivering P { c with streams := c.streams.modify i (·.break) } := by
  obtain ⟨hempty, hleft⟩ := hok
  refine h.of_world rfl rfl (fun k s' hs' => ?_) (fun j x hx => ⟨fun hx' => ?_,
    (h.executions j x hx).output⟩) fun t e hu => ?_
  · obtain ⟨s, hs, rfl⟩ := get_modify hs'
    split
    · exact ⟨(h.streams k s hs).handler, by simp [Stream.break], fun _ => ⟨rfl, rfl⟩⟩
    · exact h.streams k s hs
  · obtain ⟨s, hs, hlive⟩ := (h.executions j x hx).stream hx'
    have hne : i ≠ x.stream := fun heq =>
      hx' (hleft x (List.mem_of_getElem? hx) heq.symm)
    refine ⟨s, ?_, hlive⟩
    rw [get_modify_of_get hs, if_neg hne]
  · rcases hu with ⟨k, s, hs, hcase⟩ | hx
    · by_cases hk : i = k
      · subst hk
        obtain ⟨hw, hc⟩ := hempty s hs
        rcases hcase with ⟨-, a, ha, -⟩ | ⟨-, m, r, hm, hr, -⟩
        · have := List.all_eq_true.mp hw _ ha
          simp [CoordinatorMessage.isAssignment] at this
        · have := List.all_eq_true.mp hc _ hm
          simp [hr, WorkerPayload.isResult] at this
      · refine .inl ⟨k, s, ?_, hcase⟩
        rw [get_modify_of_get hs, if_neg hk]
    · exact .inr hx

/-- A message that is sent changes nothing for the other messages. -/
theorem Stream.send_keeps (s : Stream) (msg : WorkerMessage) :
    (s.send msg).live = s.live ∧ (s.send msg).toWorker = s.toWorker ∧
      (s.send msg).workerID = s.workerID ∧ s.toCoordinator ⊆ (s.send msg).toCoordinator := by
  unfold Stream.send
  split
  · exact ⟨rfl, rfl, rfl, List.subset_append_left _ _⟩
  · exact ⟨rfl, rfl, rfl, List.Subset.refl _⟩

theorem Stream.Tidy.send {id : String} {s : Stream} (h : s.Tidy id) (payload : WorkerPayload) :
    (s.send ⟨id, payload⟩).Tidy id := by
  unfold Stream.send
  split
  · rename_i hlive
    refine ⟨h.handler, fun m hm => ?_, fun hdead => ?_⟩
    · rcases List.mem_append.mp hm with hold | hnew
      · exact h.sender m hold
      · rw [List.mem_singleton.mp hnew]
    · rw [hlive] at hdead
      cases hdead
  · exact h

theorem InFlight.send {streams : List Stream} {t e : String} (h : InFlight streams t e) (i : Nat)
    (msg : WorkerMessage) : InFlight (streams.modify i (·.send msg)) t e := by
  obtain ⟨k, s, hs, hcase⟩ := h
  refine ⟨k, _, get_modify_of_get hs i _, ?_⟩
  split
  · obtain ⟨hlive, hworker, -, hsub⟩ := s.send_keeps msg
    rw [Stream.Assigns, Stream.Reports, hlive, hworker]
    rcases hcase with hassigns | ⟨hl, m, r, hm, hr⟩
    · exact .inl hassigns
    · exact .inr ⟨hl, m, r, hsub hm, hr⟩
  · exact hcase

theorem outlive_send (streams : List Stream) (i : Nat) (msg : WorkerMessage) :
    Outlive streams (streams.modify i (·.send msg)) := by
  intro k s hs hlive
  refine ⟨_, get_modify_of_get hs i _, ?_⟩
  split
  · rw [(s.send_keeps msg).1]
    exact hlive
  · exact hlive

theorem Delivering.tidy_send (h : Delivering P c) {i : Nat} {payload : WorkerPayload} {k : Nat}
    {s' : Stream} (hs' : (c.send i payload).streams[k]? = some s') : s'.Tidy c.worker.id := by
  obtain ⟨s, hs, rfl⟩ := get_modify hs'
  split
  · exact (h.streams k s hs).send payload
  · exact h.streams k s hs

theorem Delivering.send (h : Delivering P c) (i : Nat) (payload : WorkerPayload) :
    Delivering P (c.send i payload) :=
  h.of_world rfl rfl (fun _ _ hs => h.tidy_send hs)
    (fun j x hx => (h.executions j x hx).outlive (outlive_send _ _ _))
    fun _ _ hu => hu.imp_left (·.send i _)

/-- An execution goes on to a phase in which it still has its result. -/
theorem Delivering.advance (h : Delivering P c) {j : Nat} {phase : TaskPhase}
    (hphase : phase ≠ .leaving) {x : Execution} (hx : c.worker.executions[j]? = some x)
    (hheld : x.phase ≠ .leaving)
    (hout : ∀ exit, phase = .reporting exit → (String.fromUTF8? exit.outputStr).isSome = true) :
    Delivering P (c.advance j phase) := by
  refine h.of_world rfl rfl h.streams (fun k y' hy' => ?_) fun t e hu => ?_
  · obtain ⟨y, hy, rfl⟩ := get_modify hy'
    split
    · rename_i hjk
      subst hjk
      rw [hx] at hy
      cases hy
      exact ⟨fun _ => (h.executions j x hx).stream hheld, hout⟩
    · exact h.executions k y hy
  · rcases hu with hs | ⟨k, y, hy, hnot, ht, he⟩
    · exact .inl hs
    · refine .inr ⟨k, _, get_modify_of_get hy j _, ?_⟩
      split
      · exact ⟨hphase, ht, he⟩
      · exact ⟨hnot, ht, he⟩

theorem Delivering.running (h : Delivering P c) (m : Table String Bool) :
    Delivering P { c with worker := { c.worker with running := m } } :=
  h.of_world rfl rfl h.streams h.executions fun _ _ hu => hu

theorem Delivering.register (h : Delivering P c) (j : Nat) : Delivering P (c.register j) := by
  unfold Cluster.register
  split
  · rename_i hx
    exact (h.advance (by simp) hx (by simp) (by simp)).running _
  · exact h

theorem Delivering.finish (h : Delivering P c) (j : Nat) {exit : Exit}
    (hok : c.Harmless (.finish j exit)) : Delivering P (c.finish j exit) := by
  unfold Cluster.finish
  split
  · rename_i hx
    refine h.advance (by simp) hx (by simp) fun exit' heq => ?_
    cases heq
    exact hok
  · exact h

/-- A result that is sent over a live stream is in its channel. -/
theorem Stream.reports_send {s : Stream} (hlive : s.live = true) (id : String)
    (r : TaskResult) : (s.send ⟨id, .taskResult r⟩).Reports r.taskId r.executionId := by
  refine ⟨(s.send_keeps _).1.trans hlive, ⟨id, .taskResult r⟩, r, ?_, rfl, rfl, rfl⟩
  rw [Stream.send, if_pos hlive]
  exact List.mem_append_right _ (List.mem_singleton_self _)

theorem Delivering.report (h : Delivering P c) (j : Nat) : Delivering P (c.report j) := by
  unfold Cluster.report
  split
  · rename_i stream a exit hx
    have hsend := h.executions j _ hx
    obtain ⟨output, houtput⟩ := Option.isSome_iff_exists.mp (hsend.output exit rfl)
    obtain ⟨s, hs, hlive⟩ := hsend.stream (by simp)
    rw [Exit.result, houtput, Option.map_some]
    dsimp only
    refine h.of_world rfl rfl (fun _ _ hs => h.tidy_send hs) (fun k y' hy' => ?_)
      fun t e hu => ?_
    · obtain ⟨y, hy, rfl⟩ := get_modify hy'
      split
      · exact ⟨fun hne => absurd rfl hne, by simp⟩
      · exact (h.executions k y hy).outlive (outlive_send _ _ _)
    · rcases hu with hstream | ⟨k, y, hy, hheld⟩
      · exact .inl (hstream.send stream _)
      · by_cases hjk : j = k
        · subst hjk
          rw [hx] at hy
          cases hy
          obtain ⟨-, rfl, rfl⟩ := hheld
          refine .inl ⟨stream, _, get_modify_of_get hs _ _, .inr ?_⟩
          rw [if_pos rfl]
          exact Stream.reports_send hlive _ _
        · refine .inr ⟨k, y, ?_, hheld⟩
          exact (get_modify_of_get hy j _).trans (by rw [if_neg hjk])
  · exact h

theorem Delivering.deregister (h : Delivering P c) (j : Nat) : Delivering P (c.deregister j) := by
  unfold Cluster.deregister
  split
  · rename_i stream a hx
    refine h.of_world rfl rfl h.streams (fun k y hy => ?_) fun t e hu => ?_
    · have hin : y ∈ c.worker.executions :=
        (List.eraseIdx_sublist _ _).subset (List.mem_of_getElem? hy)
      obtain ⟨i, hi⟩ := List.getElem?_of_mem hin
      exact h.executions i y hi
    · rcases hu with hs | ⟨k, y, hy, hheld⟩
      · exact .inl hs
      · have hne : k ≠ j := by
          rintro rfl
          rw [hx] at hy
          cases hy
          exact hheld.1 rfl
        obtain ⟨i, hi⟩ := List.getElem?_of_mem (List.mem_eraseIdx_iff_getElem?.mpr ⟨k, hne, hy⟩)
        exact .inr ⟨i, y, hi, hheld⟩
  · exact h

/-- The entries of a list of which one is replaced. -/
theorem get_set {α : Type} {l : List α} {i k : Nat} {a b : α}
    (h : (l.set i a)[k]? = some b) : i = k ∧ b = a ∨ i ≠ k ∧ l[k]? = some b := by
  rw [List.getElem?_set] at h
  split at h
  · rename_i hik
    split at h
    · exact .inl ⟨hik, (Option.some.inj h).symm⟩
    · cases h
  · exact .inr ⟨‹_›, h⟩

theorem get_set_self {α : Type} {l : List α} {i : Nat} {a : α} (h : l[i]? = some a) (b : α) :
    (l.set i b)[i]? = some b :=
  List.getElem?_set_self (List.getElem?_eq_some_iff.mp h).1

/-- A stream is replaced by a live one. -/
theorem outlive_set {l : List Stream} {i : Nat} {s s' : Stream} (hi : l[i]? = some s)
    (hlive : s'.live = true) : Outlive l (l.set i s') := by
  intro k u hu hul
  by_cases hik : i = k
  · subst hik
    exact ⟨s', get_set_self hi s', hlive⟩
  · exact ⟨u, by rw [List.getElem?_set_ne hik, hu], hul⟩

theorem Stream.Tidy.live_of_toWorker {id : String} {s : Stream} (h : s.Tidy id)
    (hne : s.toWorker ≠ []) : s.live = true := by
  cases hlive : s.live with
  | true => rfl
  | false => exact absurd (h.dead hlive).2 hne

theorem Stream.Tidy.live_of_toCoordinator {id : String} {s : Stream} (h : s.Tidy id)
    (hne : s.toCoordinator ≠ []) : s.live = true := by
  cases hlive : s.live with
  | true => rfl
  | false => exact absurd (h.dead hlive).1 hne

/-- What a message carried is in the hands of the worker, and the rest is where
it was. -/
theorem InFlight.receive {streams : List Stream} {t e : String} (h : InFlight streams t e)
    {i : Nat} {s : Stream} {msg : CoordinatorMessage} {rest : List CoordinatorMessage}
    (hs : streams[i]? = some s) (hmsg : s.toWorker = msg :: rest) :
    InFlight (streams.set i { s with toWorker := rest }) t e ∨
      ∃ a, msg = .taskAssignment a ∧ a.taskId = t ∧ a.executionId = e := by
  obtain ⟨k, u, hu, hcase⟩ := h
  by_cases hik : i = k
  · subst hik
    rw [hs] at hu
    cases hu
    rcases hcase with ⟨hlive, a, ha, hids⟩ | hrep
    · rw [hmsg, List.mem_cons] at ha
      rcases ha with rfl | hrest
      · exact .inr ⟨a, rfl, hids⟩
      · exact .inl ⟨i, _, get_set_self hs _, .inl ⟨hlive, a, hrest, hids⟩⟩
    · exact .inl ⟨i, _, get_set_self hs _, .inr hrep⟩
  · exact .inl ⟨k, u, by rw [List.getElem?_set_ne hik, hu], hcase⟩

theorem Delivering.tidy_set (h : Delivering P c) {i : Nat} {s' : Stream}
    (hs' : s'.Tidy c.worker.id) (k : Nat) (u : Stream)
    (hu : (c.streams.set i s')[k]? = some u) : u.Tidy c.worker.id := by
  rcases get_set hu with ⟨-, rfl⟩ | ⟨-, hold⟩
  · exact hs'
  · exact h.streams k u hold

theorem Delivering.receive (h : Delivering P c) (i : Nat) : Delivering P (c.receive i) := by
  unfold Cluster.receive
  split
  · exact h
  · rename_i s hs
    split
    · exact h
    · rename_i msg rest hmsg
      have htidy := h.streams i s hs
      have hlive : s.live = true := htidy.live_of_toWorker (by rw [hmsg]; simp)
      have htidy' : Stream.Tidy c.worker.id { s with toWorker := rest } :=
        ⟨htidy.handler, htidy.sender, fun hdead => by rw [hlive] at hdead; cases hdead⟩
      have hout : Outlive c.streams (c.streams.set i { s with toWorker := rest }) :=
        outlive_set hs hlive
      have hquiet : (∀ a, msg ≠ .taskAssignment a) →
          Delivering P { c with streams := c.streams.set i { s with toWorker := rest } } := by
        intro hno
        refine h.of_world rfl rfl (h.tidy_set htidy')
          (fun j x hx => (h.executions j x hx).outlive hout) fun t e hu => hu.imp_left ?_
        intro hflight
        rcases hflight.receive hs hmsg with hkept | ⟨a, ha, -⟩
        · exact hkept
        · exact absurd ha (hno a)
      cases msg with
      | noTask waitMs => exact hquiet (by simp)
      | ping now => exact hquiet (by simp)
      | taskAssignment a =>
        refine h.of_world rfl rfl (h.tidy_set htidy') (fun j x hx => ?_) fun t e hu => ?_
        · rw [List.getElem?_append] at hx
          split at hx
          · exact (h.executions j x hx).outlive hout
          · have hin := List.mem_of_getElem? hx
            rw [List.mem_singleton] at hin
            subst hin
            exact ⟨fun _ => ⟨_, get_set_self hs _, hlive⟩, by simp⟩
        · rcases hu with hflight | ⟨j, x, hx, hheld⟩
          · rcases hflight.receive hs hmsg with hkept | ⟨a', ha', hids⟩
            · exact .inl hkept
            · cases ha'
              refine .inr ⟨c.worker.executions.length, ⟨i, a, .spawned⟩, ?_, by simp, hids⟩
              rw [List.getElem?_append_right le_rfl, Nat.sub_self]
              rfl
          · refine .inr ⟨j, x, ?_, hheld⟩
            rw [List.getElem?_append_left (List.getElem?_eq_some_iff.mp hx).1, hx]

/-! ## The coordinator -/

theorem Inv.heartbeat {w : World} (h : Inv P w) (m : HeartbeatMonitor) :
    Inv P { w with coord := { w.coord with heartbeat := m } } :=
  ⟨h.sound, ⟨h.agree.nodup, h.agree.queued, h.agree.listed, h.agree.keys, h.agree.assigned⟩,
    h.running, ⟨h.cached.owner, h.cached.spec⟩, h.active⟩

theorem PolicyEffect.assignedTasks {id t : String} {s : Store} {m : Coordinator} {w : World}
    {policy : FailurePolicy} (h : PolicyEffect id t s m w policy) :
    w.coord.assignedTasks = m.assignedTasks := by
  cases h with
  | failFast hg _ =>
    obtain ⟨gone, -, hcoord⟩ := hg.coord
    rw [hcoord]
    rfl
  | below _ hg _ =>
    obtain ⟨gone, -, hcoord⟩ := hg.coord
    rw [hcoord]
    rfl
  | unrecognized _ hcoord => rw [hcoord]

theorem forget_assigned (m : Coordinator) (t e : String) :
    (m.forget t).assignedTasks[t]? ≠ some e := by
  rw [Coordinator.forget, Table.get_erase, if_pos rfl]
  simp

/-- A result is good for one report: afterwards the coordinator does not wait
for it any more. -/
theorem CompleteEffect.forgets {w w' : World} {t e output : String}
    {result : Except CallError Unit} (h : CompleteEffect w t e output result w') :
    w'.coord.assignedTasks[t]? ≠ some e := by
  cases h with
  | ignored hne _ => exact hne
  | accepted _ _ _ _ hcoord _ =>
    rw [hcoord]
    exact forget_assigned w.coord t e

theorem FailEffect.forgets {w w' : World} {t e errMsg : String}
    {result : Except CallError Unit} (h : FailEffect env w t e errMsg result w') :
    w'.coord.assignedTasks[t]? ≠ some e := by
  cases h with
  | stale hne => exact hne
  | retried _ _ _ _ hcoord _ =>
    rw [hcoord]
    exact forget_assigned w.coord t e
  | failed _ _ _ _ hpolicy _ =>
    rw [hpolicy.assignedTasks]
    exact forget_assigned w.coord t e

/-- What a message of the worker does to the tasks that the worker owns. -/
structure Handled (id : String) (payload : WorkerPayload) (answer : Option CoordinatorMessage)
    (w w' : World) : Prop where
  /-- A task that the worker owns was there before, and the message was not its
  result, or the answer assigns it. -/
  owned : ∀ t e : String, w'.coord.runningTasks[t]? = some id →
    w'.coord.assignedTasks[t]? = some e →
    (w.coord.runningTasks[t]? = some id ∧ w.coord.assignedTasks[t]? = some e ∧
      ∀ r, payload = .taskResult r → ¬ (r.taskId = t ∧ r.executionId = e)) ∨
    ∃ a, answer = some (.taskAssignment a) ∧ a.taskId = t ∧ a.executionId = e

/-- A message that gives no task away. -/
theorem handled_of_ownedIn {id : String} {payload : WorkerPayload}
    {answer : Option CoordinatorMessage} {w w' : World} (h : OwnedIn w.coord w')
    (hres : ∀ r, payload = .taskResult r →
      w'.coord.assignedTasks[r.taskId]? ≠ some r.executionId) :
    Handled id payload answer w w' := by
  refine ⟨fun t e ht he => .inl ⟨h.running t id ht, h.assigned t e he, fun r hr => ?_⟩⟩
  rintro ⟨rfl, rfl⟩
  exact hres r hr he

theorem run_taskRequest (w : World) (id : String) (capacity : Int32) :
    (handleMessage id (.taskRequest capacity)).run (Action.handle env) w
      = (some ((w.getReadyTask env id).1.elim (.noTask 1000) .taskAssignment),
          (w.getReadyTask env id).2) := by
  have hrun : (getReadyTask id).run (Action.handle env) w = w.getReadyTask env id := rfl
  rw [handleMessage, handleTaskRequest, Prog.run_bind, Prog.run_bind, hrun]
  cases (w.getReadyTask env id).1 <;> rfl

/-- The call that a result leads to. -/
def TaskResult.call (r : TaskResult) : Call :=
  if r.success = true then .completeTask r.taskId r.executionId r.output
  else .failTask r.taskId r.executionId r.error

theorem run_taskResult (w : World) (id : String) (r : TaskResult) :
    ((handleMessage id (.taskResult r)).run (Action.handle env) w).2
      = (r.call.exec env w).2 := by
  rw [handleMessage, handleTaskResult, Prog.run_bind, Call.exec, TaskResult.call]
  split <;> rw [Prog.run_bind, Call.prog, Prog.run_bind] <;> rfl

theorem TaskResult.call_forgets (env : Env) {w : World} (h : Inv P w) (r : TaskResult) :
    Inv P (r.call.exec env w).2 ∧
      (r.call.exec env w).2.coord.assignedTasks[r.taskId]? ≠ some r.executionId := by
  unfold TaskResult.call
  split
  · obtain ⟨heff, hinv⟩ := @Inv.exec env P w h
      (.completeTask r.taskId r.executionId r.output) (by simp [Call.Admissible, Call.submits])
    generalize Call.exec env (.completeTask r.taskId r.executionId r.output) w = out
      at heff hinv ⊢
    obtain ⟨reply, w'⟩ := out
    cases heff with
    | completeTask heff => exact ⟨hinv, heff.forgets⟩
  · obtain ⟨heff, hinv⟩ := @Inv.exec env P w h
      (.failTask r.taskId r.executionId r.error) (by simp [Call.Admissible, Call.submits])
    generalize Call.exec env (.failTask r.taskId r.executionId r.error) w = out at heff hinv ⊢
    obtain ⟨reply, w'⟩ := out
    cases heff with
    | failTask heff => exact ⟨hinv, heff.forgets⟩

/-- One message, handled for the worker. -/
theorem Inv.handleMessage {w : World} (h : Inv P w) (env : Env) (id : String)
    (payload : WorkerPayload) :
    Inv P ((handleMessage id payload).run (Action.handle env) w).2 ∧
    Handled id payload ((handleMessage id payload).run (Action.handle env) w).1 w
      ((handleMessage id payload).run (Action.handle env) w).2 := by
  cases payload with
  | unset => exact ⟨h, handled_of_ownedIn (.refl w) (by simp)⟩
  | heartbeat now running =>
    exact ⟨h.heartbeat _, handled_of_ownedIn ((OwnedIn.refl w).of_eq rfl rfl) (by simp)⟩
  | taskRequest capacity =>
    rw [run_taskRequest]
    refine ⟨(h.exec (.getReadyTask id) (by simp [Call.Admissible, Call.submits])).2, ?_⟩
    have hout := w.getReadyTask_outcome env id
    generalize w.getReadyTask env id = out at hout ⊢
    obtain ⟨answer, w'⟩ := out
    cases hout with
    | nothing hrun hassigned _ =>
      exact handled_of_ownedIn ((OwnedIn.refl w).of_eq hrun hassigned) (by simp)
    | @task a _ _ hrun hassigned _ =>
      refine ⟨fun t e ht he => ?_⟩
      rw [hrun, Table.get_insert] at ht
      rw [hassigned, Table.get_insert] at he
      by_cases hta : a.taskId = t
      · rw [if_pos hta] at he
        exact .inr ⟨a, rfl, hta, Option.some.inj he⟩
      · rw [if_neg hta] at ht he
        exact .inl ⟨ht, he, by simp⟩
  | taskResult r =>
    have howned : OwnedIn w.coord ((DagScheduler.handleMessage id (.taskResult r)).run
        (Action.handle env) w).2 :=
      Prog.Preserves.run (((steady_ownedIn w.coord).handleTaskResult r).bind fun _ => trivial)
        (.refl w)
    obtain ⟨hinv, hforgets⟩ := TaskResult.call_forgets env h r
    rw [← run_taskResult w id r] at hinv hforgets
    refine ⟨hinv, handled_of_ownedIn howned fun r' hr' => ?_⟩
    cases hr'
    exact hforgets

/-- The answer is in the channel, and a result that was served is gone. -/
theorem InFlight.serve {streams : List Stream} {t e : String} (h : InFlight streams t e)
    {i : Nat} {s : Stream} {msg : WorkerMessage} {rest : List WorkerMessage}
    (hs : streams[i]? = some s) (hmsg : s.toCoordinator = msg :: rest)
    (hother : ∀ r, msg.payload = .taskResult r → ¬ (r.taskId = t ∧ r.executionId = e))
    (id : String) (answers : List CoordinatorMessage) :
    InFlight (streams.set i ⟨s.live, id, rest, s.toWorker ++ answers⟩) t e := by
  obtain ⟨k, u, hu, hcase⟩ := h
  by_cases hik : i = k
  · subst hik
    rw [hs] at hu
    cases hu
    refine ⟨i, _, get_set_self hs _, ?_⟩
    rcases hcase with ⟨hlive, a, ha, hids⟩ | ⟨hlive, m, r, hm, hr, hids⟩
    · exact .inl ⟨hlive, a, List.mem_append_left _ ha, hids⟩
    · rw [hmsg, List.mem_cons] at hm
      rcases hm with rfl | hrest
      · exact absurd hids (hother r hr)
      · exact .inr ⟨hlive, m, r, hrest, hr, hids⟩
  · exact ⟨k, u, by rw [List.getElem?_set_ne hik, hu], hcase⟩

theorem Delivering.serve (h : Delivering P c) (i : Nat) : Delivering P (c.serve env i) := by
  unfold Cluster.serve
  split
  · exact h
  · rename_i s hs
    split
    · exact h
    · rename_i msg rest hmsg
      have htidy := h.streams i s hs
      have hlive : s.live = true := htidy.live_of_toCoordinator (by rw [hmsg]; simp)
      have hid : (if s.workerID = "" then msg.workerId else s.workerID) = c.worker.id := by
        split
        · exact htidy.sender msg (by rw [hmsg]; exact List.mem_cons_self)
        · rename_i hne
          exact htidy.handler.resolve_left hne
      rw [hid]
      dsimp only
      obtain ⟨hinv, hhandled⟩ := h.inv.handleMessage env c.worker.id msg.payload
      generalize (DagScheduler.handleMessage c.worker.id msg.payload).run (Action.handle env)
        c.world = out at hinv hhandled ⊢
      have htidy' : Stream.Tidy c.worker.id
          ⟨s.live, c.worker.id, rest, s.toWorker ++ out.1.toList⟩ := by
        refine ⟨.inr rfl, fun m hm => htidy.sender m ?_, fun hdead => ?_⟩
        · rw [hmsg]
          exact List.mem_cons_of_mem msg hm
        · rw [hlive] at hdead
          cases hdead
      refine ⟨hinv, h.tidy_set htidy', fun j x hx =>
        (h.executions j x hx).outlive (outlive_set hs hlive), fun t e ht he => ?_⟩
      rcases hhandled.owned t e ht he with ⟨hrun, hassigned, hother⟩ | ⟨a, hanswer, hids⟩
      · refine (h.underway t e hrun hassigned).imp_left fun hflight => ?_
        exact hflight.serve hs hmsg hother _ _
      · refine .inl ⟨i, _, get_set_self hs _, .inl ⟨hlive, a, ?_, hids⟩⟩
        rw [hanswer]
        exact List.mem_append_right _ (List.mem_singleton_self _)

/-- Another operation of the coordinator gives the worker no task. -/
theorem Cluster.owned_other {call : Call} (hforeign : c.isForeign call = true) {t e : String}
    (ht : (call.exec env c.world).2.coord.runningTasks[t]? = some c.worker.id)
    (he : (call.exec env c.world).2.coord.assignedTasks[t]? = some e) :
    c.world.coord.runningTasks[t]? = some c.worker.id ∧
      c.world.coord.assignedTasks[t]? = some e := by
  by_cases hask : ∃ k, call = .getReadyTask k
  · obtain ⟨k, rfl⟩ := hask
    have hne : k ≠ c.worker.id := of_decide_eq_true hforeign
    have hout := c.world.getReadyTask_outcome env k
    have hexec : (Call.getReadyTask k).exec env c.world
        = (.assignment (c.world.getReadyTask env k).1, (c.world.getReadyTask env k).2) := rfl
    rw [hexec] at ht he
    generalize c.world.getReadyTask env k = out at hout ht he
    obtain ⟨answer, w'⟩ := out
    cases hout with
    | nothing hrun hassigned _ =>
      rw [hrun] at ht
      rw [hassigned] at he
      exact ⟨ht, he⟩
    | task _ hrun hassigned _ =>
      rw [hrun, Table.get_insert] at ht
      rw [hassigned, Table.get_insert] at he
      split at ht
      · exact absurd (Option.some.inj ht) hne
      · rename_i hta
        rw [if_neg hta] at he
        exact ⟨ht, he⟩
  · have hrestart : call ≠ .restart := by
      rintro rfl
      cases hforeign
    have howned := call.ownedIn env c.world (fun k hk => hask ⟨k, hk⟩) hrestart
    exact ⟨howned.running t _ ht, howned.assigned t e he⟩

theorem Delivering.other (h : Delivering P c) {call : Call} (hadm : call.Admissible P c.world) :
    Delivering P (c.step env (.other call)) := by
  rw [Cluster.step]
  split
  · rename_i hforeign
    refine ⟨(h.inv.exec call hadm).2, h.streams, h.executions, fun t e ht he => ?_⟩
    obtain ⟨ht', he'⟩ := Cluster.owned_other hforeign ht he
    exact h.underway t e ht' he'
  · exact h

end Turns

/-! ## Whole runs -/

/-- The other calls of a run. -/
def Turn.call : Turn → Option Call
  | .other c => some c
  | _ => none

/-- The other calls of a run, in order. -/
def otherCalls (turns : List Turn) : List Call := turns.filterMap Turn.call

/-- One turn that loses nothing. -/
theorem Delivering.step {env : Env} {P : WorkflowSpec → Prop} {c : Cluster} (h : Delivering P c)
    {turn : Turn} (hok : c.Harmless turn)
    (hadm : ∀ call, turn = .other call → call.Admissible P c.world) :
    Delivering P (c.step env turn) := by
  cases turn with
  | connect => exact h.connect
  | lose i => exact h.lose hok
  | requestTick =>
    rw [Cluster.step, Cluster.requestTick]
    split
    · exact h
    · exact h.send _ _
  | heartbeatTick now order => exact h.send _ _
  | serve i => exact h.serve i
  | receive i => exact h.receive i
  | register j => exact h.register j
  | finish j exit => exact h.finish j hok
  | report j => exact h.report j
  | deregister j => exact h.deregister j
  | other call => exact h.other (hadm call rfl)

theorem Delivering.mono {P P' : WorkflowSpec → Prop} {c : Cluster} (h : Delivering P c)
    (hP : ∀ wf, P wf → P' wf) : Delivering P' c :=
  ⟨h.inv.mono hP, h.streams, h.executions, h.underway⟩

theorem otherCalls_append (turns : List Turn) (turn : Turn) :
    otherCalls (turns ++ [turn]) = otherCalls turns ++ turn.call.toList := by
  cases turn <;> simp [otherCalls, Turn.call]

/-- In every run that reuses no ID and loses nothing, the result of every task
that the worker owns may still arrive. -/
theorem resultsUnderway_of_harmless (env : Env) (id : String) (capacity : Int32)
    {turns : List Turn} (hids : NeverReused (submitted (otherCalls turns)))
    (hok : Along (Cluster.step env) Cluster.Harmless (.fresh {} id capacity) turns) :
    ResultsUnderway (runOn (Cluster.step env) (.fresh {} id capacity) turns) := by
  have hrun := hok.invariant (I := fun pre c => NeverReused (submitted (otherCalls pre)) →
    Delivering (· ∈ submitted (otherCalls pre)) c) ?_ ?_
  · exact (hrun hids).underway
  · intro _
    exact ⟨inv_empty _, by simp [Cluster.fresh], by simp [Cluster.fresh], fun t e ht _ => by
      simp [Cluster.fresh] at ht⟩
  · intro pre turn _ hturn ih hids
    rw [otherCalls_append] at hids ⊢
    cases hcall : turn.call with
    | none =>
      simp only [hcall, Option.toList_none, List.append_nil] at hids ⊢
      refine (ih hids).step hturn fun call hother => ?_
      rw [hother] at hcall
      cases hcall
    | some call =>
      simp only [hcall, Option.toList_some] at hids ⊢
      have hbefore := ih hids.of_append
      refine (hbefore.mono (submitted_subset _ call)).step hturn fun call' hother => ?_
      rw [hother] at hcall
      cases hcall
      exact admissible_next hbefore.inv.sound hids

/-- The worker asks for a task, and the stream is lost and opened again while
nothing is on it.  Then the worker gets a task and reports its result. -/
def quietReconnect : List Turn :=
  [.other (.submitWorkflow .asListed (.pair .failFast 1)), .connect, .requestTick, .lose 0,
    .connect, .heartbeatTick 1000 (.asListed _), .requestTick, .serve 1, .serve 1, .receive 1,
    .register 0, .finish 0 ⟨"ok".toUTF8, none, false⟩, .report 0]

theorem resultsUnderway_quietReconnect :
    (runOn (Cluster.step .counting) (.fresh {} "k" 1)
      quietReconnect).world.coord.runningTasks["a"]? = some "k" ∧
    ResultsUnderway (runOn (Cluster.step .counting) (.fresh {} "k" 1) quietReconnect) :=
  ⟨by decide, resultsUnderway_of_harmless .counting "k" 1 (neverReused_of_one rfl) (by decide)⟩

/-- The stream breaks while the assignment is on its way.  The worker opens
another stream and sends heartbeats. -/
def lostAssignment : List Turn :=
  [.other (.submitWorkflow .asListed (.pair .failFast 1)), .connect, .requestTick, .serve 0,
    .lose 0, .connect, .heartbeatTick 1000 (.asListed _), .serve 1]

/-- The worker owns a task that it has never heard of. -/
theorem not_resultsUnderway_lostAssignment :
    (runOn (Cluster.step .counting) (.fresh {} "k" 1)
      lostAssignment).world.coord.heartbeat.lastHeartbeat["k"]? = some 1000 ∧
    ¬ ResultsUnderway (runOn (Cluster.step .counting) (.fresh {} "k" 1) lostAssignment) := by
  refine ⟨by decide, fun h => ?_⟩
  have hexec : (runOn (Cluster.step .counting) (.fresh {} "k" 1)
      lostAssignment).worker.executions = [] := by decide
  have hempty : ∀ s ∈ (runOn (Cluster.step .counting) (.fresh {} "k" 1) lostAssignment).streams,
      s.toWorker = [] ∧ s.toCoordinator = [] := by decide
  rcases h "a" "x" (by decide) (by decide) with ⟨i, s, hs, hcase⟩ | ⟨j, x, hx, -⟩
  · obtain ⟨hw, hc⟩ := hempty s (List.mem_of_getElem? hs)
    rcases hcase with ⟨-, a, ha, -⟩ | ⟨-, m, r, hm, -⟩
    · rw [hw] at ha
      cases ha
    · rw [hc] at hm
      cases hm
  · rw [hexec] at hx
    cases hx

end DagScheduler
