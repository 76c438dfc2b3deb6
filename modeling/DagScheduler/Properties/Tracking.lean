import DagScheduler.Coordinator.Ownership
import DagScheduler.Lib.Pool
import DagScheduler.Model.Service
import DagScheduler.Properties.Ages

/-!
# Workers that the monitor watches

A task that is handed out has an owner, and the monitor has to watch the
owner: only a worker with an entry in `lastHeartbeat` can be declared dead.
`OwnersTracked` asks for that entry, and for what it is good for.

`GetReadyTask` does not look at the monitor.  A worker that asks for a task
before its first heartbeat owns the task without an entry, and so does a
worker that asks after `HandleDeadWorker` has taken its tasks and before the
round of the monitor has deleted its entry.  Nothing else goes wrong: if every
request that may get a task comes from a worker that has an entry and is not on
the list of a round that is going on, every owner is tracked in every state,
also between two steps of the coordinator's jobs.

For the proof, a job is described by what its actions can do.  No action
except `GetReadyTask` gives a task to a worker.  Only a round of the monitor
deletes entries, only those of its list, and the entry of a worker only after
the tasks of that worker have been taken away.
-/

namespace DagScheduler

open Lib Program

/-! ## The property -/

/-- Every owner of a running task has an entry in `lastHeartbeat`, by which
`GetDeadWorkers` reports it as soon as the entry is too old, and then
`HandleDeadWorker` collects the task. -/
def OwnersTracked (w : World) : Prop :=
  ∀ t k : String, w.coord.runningTasks[t]? = some k →
    ∃ last, w.coord.heartbeat.lastHeartbeat[k]? = some last ∧
      (∀ (order : RangeOrder String) (deadThreshold nowMs : Int64),
        deadThreshold < HeartbeatMonitor.age nowMs last →
        k ∈ w.coord.heartbeat.getDeadWorkers order deadThreshold nowMs) ∧
      ∀ order : RangeOrder String, t ∈ (w.coord.claimTasks order k).1

/-- The worker is on the list of a round of the monitor that is going on. -/
def Condemned (es : List (Event Job Action World)) (k : String) : Prop :=
  ∃ i order orders deadThreshold nowMs first, firstOf i es = some first ∧
    InProgress es i (.scan order orders deadThreshold nowMs) ∧
    k ∈ first.before.coord.heartbeat.getDeadWorkers order deadThreshold nowMs

/-- If the event answers a request while there are tasks to hand out, the
worker is tracked and not condemned. -/
def ServesTracked (es : List (Event Job Action World)) (ev : Event Job Action World) : Prop :=
  ∀ k capacity, ev.label = .message k (.taskRequest capacity) →
    ev.before.coord.readyQueue ≠ [] →
    k ∈ ev.before.coord.heartbeat.lastHeartbeat ∧ ¬ Condemned es k

theorem Coordinator.mem_claimTasks {c : Coordinator} {t k : String}
    (order : RangeOrder String) :
    t ∈ (c.claimTasks order k).1 ↔ c.runningTasks[t]? = some k := by
  rw [claimTasks, List.mem_filter, RangeOrder.mem_visit, Std.ExtTreeMap.mem_keys,
    decide_eq_true_eq, and_iff_right_iff_imp]
  exact fun h => (Table.mem_iff_get _ _).mpr ⟨k, h⟩

/-- The entry is what matters. -/
theorem ownersTracked_of_entries {w : World}
    (h : ∀ t k : String, w.coord.runningTasks[t]? = some k →
      k ∈ w.coord.heartbeat.lastHeartbeat) : OwnersTracked w := by
  intro t k ht
  obtain ⟨last, hlast⟩ := (Table.mem_iff_get _ _).mp (h t k ht)
  exact ⟨last, hlast, fun order _ _ hold =>
      HeartbeatMonitor.mem_getDeadWorkers.mpr ⟨last, hlast, hold⟩,
    fun order => (Coordinator.mem_claimTasks order).mpr ht⟩

/-! ## What the programs do -/

/-- The worker has an entry. -/
def TracksWorker (k : String) (w : World) : Prop := k ∈ w.coord.heartbeat.lastHeartbeat

/-- The worker owns no task. -/
def OwnsNone (k : String) (w : World) : Prop := ∀ t : String, w.coord.runningTasks[t]? ≠ some k

section Programs

variable {env : Env} {α : Type}

theorem steady_tracksWorker (k : String) : Steady env (TracksWorker k) where
  rewrites _ h := h
  closes _ _ _ h := h
  eases hc h := by
    rw [TracksWorker, hc.heartbeat]
    exact h
  draws h := h

theorem TracksWorker.removeWorker {w : World} {k u : String} (h : TracksWorker k w)
    (hne : u ≠ k) : TracksWorker k { w with
      coord := { w.coord with heartbeat := w.coord.heartbeat.removeWorker u } } := by
  refine Std.ExtTreeMap.mem_erase.mpr ⟨?_, h⟩
  exact fun heq => hne (Std.LawfulEqCmp.eq_of_compare heq)

/-- A worker that is not on the list keeps its entry. -/
theorem tracks_handleDeadWorkers (orders : String → RangeOrder String) {l : List String}
    {k : String} (hk : k ∉ l) :
    (handleDeadWorkers orders l).Preserves (Action.handle env) (TracksWorker k) := by
  induction l with
  | nil => trivial
  | cons u l ih =>
    have hu : u ≠ k := fun hu => hk (hu ▸ List.mem_cons_self)
    refine ((steady_tracksWorker k).handleDeadWorker _ fun _ hw => hw.removeWorker hu).bind
      fun _ => ?_
    exact Prog.Preserves.bind (preserves_untrack fun _ hw => hw.removeWorker hu)
      fun _ => ih fun hin => hk (List.mem_cons_of_mem u hin)

/-- A worker on the list keeps its entry until its tasks have been taken. -/
theorem tracksUntil_handleDeadWorkers (orders : String → RangeOrder String) (l : List String)
    (k : String) :
    (handleDeadWorkers orders l).PreservesUntil (Action.handle env) (TracksWorker k)
      (OwnsNone k) := by
  induction l with
  | nil => trivial
  | cons u l ih =>
    by_cases hu : u = k
    · subst hu
      refine .inl fun w t ht => ?_
      have hget : (w.coord.claimTasks (orders u) u).2.runningTasks[t]? = some u := ht
      have hold := (w.coord.eases_claimTasks (orders u) u).running t u hget
      have hin := (Coordinator.mem_claimTasks (orders u)).mpr hold
      rw [Coordinator.claimTasks, Coordinator.get_foldl_forget_running] at hget
      rw [Coordinator.claimTasks] at hin
      rw [if_pos hin] at hget
      cases hget
    · refine ((steady_tracksWorker k).handleDeadWorker _ fun _ hw => hw.removeWorker hu).bind_until
        fun _ => ?_
      exact Prog.Preserves.bind_until (preserves_untrack fun _ hw => hw.removeWorker hu)
        fun _ => ih

end Programs

/-! ## The jobs between two actions -/

/-- What may be said about the rest of a job.  `asking` is a request that has
not been answered, `listing` a round that has not started.  A job that is
`sweeping` is a round of the monitor with its list.  All others are `calm`. -/
inductive Standing (env : Env) (es : List (Event Job Action World)) (w : World) (i : Nat) :
    Job → Program (Option CoordinatorMessage) → Prop where
  | asking {p : Program (Option CoordinatorMessage)} (k : String) (capacity : Int32)
      (hp : Job.prog (.message k (.taskRequest capacity)) = p) :
      Standing env es w i (.message k (.taskRequest capacity)) p
  | calm {l : Job} {p : Program (Option CoordinatorMessage)} (hgives : GivesNone env p)
      (htracks : ∀ k, p.Preserves (Action.handle env) (TracksWorker k)) :
      Standing env es w i l p
  | listing {p : Program (Option CoordinatorMessage)} {order : RangeOrder String}
      {orders : String → RangeOrder String} {deadThreshold nowMs : Int64}
      (hp : Job.prog (.scan order orders deadThreshold nowMs) = p)
      (hfresh : firstOf i es = none) :
      Standing env es w i (.scan order orders deadThreshold nowMs) p
  | sweeping {p : Program (Option CoordinatorMessage)} {order : RangeOrder String}
      {orders : String → RangeOrder String} {deadThreshold nowMs : Int64}
      {first : Event Job Action World} (hfirst : firstOf i es = some first)
      (hgoing : InProgress es i (.scan order orders deadThreshold nowMs))
      (hgives : GivesNone env p)
      (htracks : ∀ k, p.Preserves (Action.handle env) (TracksWorker k) ∨
        k ∈ first.before.coord.heartbeat.getDeadWorkers order deadThreshold nowMs ∧
          (p.PreservesUntil (Action.handle env) (TracksWorker k) (OwnsNone k) ∨
            OwnsNone k w)) :
      Standing env es w i (.scan order orders deadThreshold nowMs) p

/-- Every owner has an entry, and every job stands somewhere. -/
structure Watched (env : Env) (es : List (Event Job Action World))
    (ts : List (Thread Job Action (Option CoordinatorMessage))) (w : World) : Prop where
  owners : ∀ t k : String, w.coord.runningTasks[t]? = some k → TracksWorker k w
  threads : ∀ (i : Nat) (th : Thread Job Action (Option CoordinatorMessage)),
    ts[i]? = some th → Standing env es w i th.label th.rest

section Jobs

variable {env : Env} {es : List (Event Job Action World)} {w : World} {i : Nat}

/-- A program that has returned is calm. -/
theorem standing_ret (l : Job) (a : Option CoordinatorMessage) :
    Standing env es w i l (.ret a) :=
  .calm (fun _ => trivial) fun _ => trivial

/-- A status query keeps everything. -/
theorem preserves_getWorkflowStatus {J : World → Prop} (id : String) :
    (getWorkflowStatus id).Preserves (Action.handle env) J := by
  refine (preserves_view _).bind fun state => ?_
  cases state with
  | error e => trivial
  | ok state => exact (preserves_view _).bind fun _ => trivial

/-- A job starts somewhere. -/
theorem standing_prog (l : Job) (hfresh : firstOf i es = none) :
    Standing env es w i l l.prog := by
  cases l with
  | scan order orders deadThreshold nowMs => exact .listing rfl hfresh
  | submit orders wf =>
    refine .calm (fun c => ?_) fun k => ?_
    · exact ((steady_ownedIn c).submitWorkflow (fun hrun hassigned _ hw =>
        hw.of_eq hrun hassigned) orders wf).bind fun _ => trivial
    · refine ((steady_tracksWorker k).submitWorkflow (fun _ _ hbeat hw => ?_) orders wf).bind
        fun _ => trivial
      rw [TracksWorker, hbeat]
      exact hw
  | cancel id =>
    refine .calm (fun c => ?_) fun k => ?_
    · exact ((steady_ownedIn c).cancelWorkflow id).bind fun _ => trivial
    · exact ((steady_tracksWorker k).cancelWorkflow id).bind fun _ => trivial
  | status id =>
    exact .calm (fun c => (preserves_getWorkflowStatus id).bind fun _ => trivial)
      fun k => (preserves_getWorkflowStatus id).bind fun _ => trivial
  | message m payload =>
    cases payload with
    | taskRequest capacity => exact .asking m capacity rfl
    | unset => exact standing_ret _ _
    | taskResult result =>
      refine .calm (fun c => ?_) fun k => ?_
      · exact ((steady_ownedIn c).handleTaskResult result).bind fun _ => trivial
      · exact ((steady_tracksWorker k).handleTaskResult result).bind fun _ => trivial
    | heartbeat now running =>
      refine .calm (fun c => ?_) fun k => ?_
      · exact Prog.Preserves.bind (Prog.preserves_act fun w hw => hw.of_eq rfl rfl)
          fun _ => trivial
      · refine Prog.Preserves.bind (Prog.preserves_act fun w hw => ?_) fun _ => trivial
        exact Std.ExtTreeMap.mem_insert.mpr (.inr hw)

/-- What one action does to the owners and the entries. -/
structure Careful (es : List (Event Job Action World)) (w w' : World) : Prop where
  /-- A new owner has an entry and is not on the list of a round. -/
  gives : ∀ t k : String, w'.coord.runningTasks[t]? = some k →
    w.coord.runningTasks[t]? = some k ∨ TracksWorker k w ∧ ¬ Condemned es k
  /-- A worker without tasks may lose its entry. -/
  tracks : ∀ k, TracksWorker k w → TracksWorker k w' ∨ OwnsNone k w'

theorem Careful.owners {w' : World} (h : Careful es w w')
    (hown : ∀ t k : String, w.coord.runningTasks[t]? = some k → TracksWorker k w) (t k : String)
    (ht : w'.coord.runningTasks[t]? = some k) : TracksWorker k w' := by
  have hold : TracksWorker k w := by
    rcases h.gives t k ht with hold | hnew
    · exact hown t k hold
    · exact hnew.1
  rcases h.tracks k hold with hkept | hnone
  · exact hkept
  · exact absurd ht (hnone t)

/-- The job of another thread stands where it stood. -/
theorem Standing.other {w' : World} {l : Job} {p : Program (Option CoordinatorMessage)}
    {ev : Event Job Action World} (h : Standing env es w i l p) (hne : ev.thread ≠ i)
    (hcareful : Careful es w w') : Standing env (es ++ [ev]) w' i l p := by
  cases h with
  | asking k capacity hp => exact .asking k capacity hp
  | calm hgives htracks => exact .calm hgives htracks
  | listing hp hfresh =>
    refine .listing hp ?_
    rw [firstOf_append_none hfresh, if_neg hne]
  | sweeping hfirst hgoing hgives htracks =>
    refine .sweeping (firstOf_append hfirst ev) ?_ hgives fun k => ?_
    · rw [InProgress, lastOf_append_ne hne]
      exact hgoing
    rcases htracks k with hkept | ⟨hlist, huntil | hnone⟩
    · exact .inl hkept
    · exact .inr ⟨hlist, .inl huntil⟩
    · -- the round that goes on condemns the worker, so no request gets a task for it
      refine .inr ⟨hlist, .inr fun t ht => ?_⟩
      rcases hcareful.gives t k ht with hold | hnew
      · exact hnone t hold
      · exact hnew.2 ⟨i, _, _, _, _, _, hfirst, hgoing, hlist⟩

/-- A thread that has returned stands, and one that has not is in progress. -/
theorem standing_going {w' : World} {l : Job} {β : Type} {e : Action β}
    {p : Program (Option CoordinatorMessage)}
    (h : InProgress (es ++ [⟨i, l, e, w, p.isRet⟩]) i l →
      Standing env (es ++ [⟨i, l, e, w, p.isRet⟩]) w' i l p) :
    Standing env (es ++ [⟨i, l, e, w, p.isRet⟩]) w' i l p := by
  cases p with
  | ret a => exact standing_ret l a
  | step e' k' => exact h ⟨_, lastOf_append_self rfl, rfl, rfl⟩

theorem OwnsNone.giveNone {k : String} {β : Type} {e : Action β}
    {f : β → Program (Option CoordinatorMessage)} (h : OwnsNone k w)
    (hgives : GivesNone env (.step e f)) : OwnsNone k (Action.handle env e w).2 :=
  fun t ht => h t (((hgives w.coord).1 w (.refl w)).running t k ht)

/-- The rest of a round that has made its list. -/
def sweep (orders : String → RangeOrder String) (l : List String) :
    Program (Option CoordinatorMessage) := do
  handleDeadWorkers orders l
  return none

/-- A round stands with its list after its first action. -/
theorem standing_sweep {w' : World} {order : RangeOrder String}
    {orders : String → RangeOrder String} {deadThreshold nowMs : Int64} {l : List String}
    {first : Event Job Action World} (hfirst : firstOf i es = some first)
    (hgoing : InProgress es i (.scan order orders deadThreshold nowMs))
    (hl : first.before.coord.heartbeat.getDeadWorkers order deadThreshold nowMs = l) :
    Standing env es w' i (.scan order orders deadThreshold nowMs) (sweep orders l) := by
  refine .sweeping hfirst hgoing (fun c => ?_) fun k => ?_
  · exact (givesNone_handleDeadWorkers orders l c).bind fun _ => trivial
  · by_cases hk : k ∈ l
    · exact .inr ⟨hl ▸ hk, .inl ((tracksUntil_handleDeadWorkers orders l k).bind fun _ => trivial)⟩
    · exact .inl ((tracks_handleDeadWorkers orders hk).bind fun _ => trivial)

/-- One action of a thread: what it does, and where the thread stands then. -/
theorem Standing.move {l : Job} {β : Type} {e : Action β}
    {k : β → Program (Option CoordinatorMessage)} (h : Standing env es w i l (.step e k))
    (hserves : ServesTracked es
      ⟨i, l, e, w, (k (Action.handle env e w).1).isRet⟩) :
    Careful es w (Action.handle env e w).2 ∧
    Standing env (es ++ [⟨i, l, e, w, (k (Action.handle env e w).1).isRet⟩])
      (Action.handle env e w).2 i l (k (Action.handle env e w).1) := by
  cases h with
  | asking m capacity hp =>
    cases hp
    have hout := w.getReadyTask_outcome env m
    refine ⟨⟨fun t u ht => ?_, fun u hu => .inl ?_⟩, ?_⟩
    · rcases hout.running ht with hold | ⟨rfl, hq⟩
      · exact .inl hold
      · exact .inr (hserves u capacity rfl hq)
    · show u ∈ (w.getReadyTask env m).2.coord.heartbeat.lastHeartbeat
      rw [hout.heartbeat]
      exact hu
    · generalize (Action.handle env (.getReadyTask m) w).1 = answer
      cases answer <;> exact standing_ret _ _
  | calm hgives htracks =>
    refine ⟨⟨fun t u ht => .inl ?_, fun u hu => .inl ((htracks u).1 w hu)⟩, ?_⟩
    · exact ((hgives w.coord).1 w (.refl w)).running t u ht
    · exact .calm (fun c => (hgives c).2 _) fun u => (htracks u).2 _
  | listing hp hfresh =>
    cases hp
    refine ⟨⟨fun t u ht => .inl ht, fun u hu => .inl hu⟩, ?_⟩
    refine standing_going (p := sweep _ _) fun hgoing => ?_
    exact standing_sweep ((firstOf_append_none hfresh _).trans (if_pos rfl)) hgoing rfl
  | sweeping hfirst hgoing hgives htracks =>
    refine ⟨⟨fun t u ht => .inl ?_, fun u hu => ?_⟩, ?_⟩
    · exact ((hgives w.coord).1 w (.refl w)).running t u ht
    · rcases htracks u with hkept | ⟨-, (hdone | hkept) | hnone⟩
      · exact .inl (hkept.1 w hu)
      · exact .inr (hdone w)
      · exact .inl (hkept.1 w hu)
      · exact .inr (hnone.giveNone hgives)
    · refine standing_going fun hgoing => ?_
      refine .sweeping (firstOf_append hfirst _) hgoing (fun c => (hgives c).2 _) fun u => ?_
      rcases htracks u with hkept | ⟨hlist, (hdone | hkept) | hnone⟩
      · exact .inl (hkept.2 _)
      · exact .inr ⟨hlist, .inr (hdone w)⟩
      · exact .inr ⟨hlist, .inl (hkept.2 _)⟩
      · exact .inr ⟨hlist, .inr (hnone.giveNone hgives)⟩

end Jobs

/-! ## Every owner is tracked -/

/-- The invariant of an interleaving whose requests all serve tracked workers. -/
theorem watched_of_served {env : Env} {es : List (Event Job Action World)}
    {ts : List (Thread Job Action (Option CoordinatorMessage))} {w : World}
    (hrun : Interleaving (Action.handle env) Job.prog {} es ts w)
    (hserves : ∀ pre ev, pre ++ [ev] <+: es → ServesTracked pre ev) : Watched env es ts w := by
  induction hrun with
  | start =>
    refine ⟨fun t k ht => ?_, fun i th hth => ?_⟩
    · exact absurd ht (by simp)
    · cases hth
  | @spawn es ts w l hrun ih =>
    obtain ⟨hown, hthreads⟩ := ih hserves
    refine ⟨hown, fun i th hth => ?_⟩
    rw [List.getElem?_append] at hth
    split at hth
    · exact hthreads i th hth
    · obtain ⟨hi, rfl⟩ := List.getElem?_eq_some_iff.mp hth
      have hlen : i = ts.length := by
        rw [List.length_singleton] at hi
        omega
      subst hlen
      rw [List.getElem_singleton]
      exact standing_prog l hrun.firstOf_length
  | @step es ts w i l β e k hrun hi ih =>
    have hbefore := ih fun pre ev hpre => hserves pre ev (hpre.trans (List.prefix_append _ _))
    obtain ⟨hcareful, hstand⟩ := (hbefore.threads i _ hi).move (hserves _ _ (List.prefix_refl _))
    refine ⟨hcareful.owners hbefore.owners, fun j th hj => ?_⟩
    by_cases hij : i = j
    · subst hij
      rw [List.getElem?_set_self (List.getElem?_eq_some_iff.mp hi).1] at hj
      cases hj
      exact hstand
    · rw [List.getElem?_set_ne hij] at hj
      exact (hbefore.threads j th hj).other hij hcareful

/-- In every interleaving of the coordinator's jobs, if requests that may get a
task come from tracked workers that no round is about to delete, every owner is
tracked. -/
theorem ownersTracked_of_served {env : Env} {es : List (Event Job Action World)}
    {ts : List (Thread Job Action (Option CoordinatorMessage))} {w : World}
    (hrun : Interleaving (Action.handle env) Job.prog {} es ts w)
    (hserves : ∀ pre ev, pre ++ [ev] <+: es → ServesTracked pre ev) : OwnersTracked w :=
  ownersTracked_of_entries (watched_of_served hrun hserves).owners

/-- The worker that asks for a task with the job. -/
def Job.asker : Job → Option String
  | .message k (.taskRequest _) => some k
  | _ => none

/-- The job is a round of the monitor. -/
def Job.isScan : Job → Bool
  | .scan .. => true
  | _ => false

/-- Without a round of the monitor nobody is condemned. -/
theorem servesTracked_of_noScan {es : List (Event Job Action World)}
    (hscan : ∀ ev ∈ es, ev.label.isScan = false)
    (hask : ∀ ev ∈ es, ∀ k ∈ ev.label.asker, TracksWorker k ev.before) :
    ∀ pre ev, pre ++ [ev] <+: es → ServesTracked pre ev := by
  intro pre ev hpre k capacity hlabel _
  refine ⟨hask ev (hpre.subset (by simp)) k (by rw [hlabel]; rfl), ?_⟩
  rintro ⟨i, order, orders, deadThreshold, nowMs, first, -, ⟨last, hlast, hscanning, -⟩, -⟩
  have hin : last ∈ es := hpre.subset (List.mem_append_left _ (mem_of_lastOf hlast).1)
  have hnot := hscan last hin
  rw [hscanning] at hnot
  cases hnot

/-- The interleaving of a schedule of jobs. -/
def scheduleJobs (schedule : List (Choice Job)) : List (Event Job Action World) ×
    List (Thread Job Action (Option CoordinatorMessage)) × World :=
  Pool.exec (Action.handle .counting) Job.prog {} schedule

/-- A worker sends a heartbeat, a client submits a workflow, and the worker
asks for a task. -/
def heartbeatFirst : List (Choice Job) :=
  [.spawn (.message "k" (.heartbeat 1000 [])), .run 0,
    .spawn (.submit .asListed (.pair .failFast 1)), .run 1, .run 1, .run 1, .run 1, .run 1, .run 1,
    .spawn (.message "k" (.taskRequest 1)), .run 2]

theorem ownersTracked_heartbeatFirst :
    (scheduleJobs heartbeatFirst).2.2.coord.runningTasks["a"]? = some "k" ∧
    OwnersTracked (scheduleJobs heartbeatFirst).2.2 :=
  ⟨by decide, ownersTracked_of_served (Pool.interleaving_exec _ _ _ heartbeatFirst)
    (servesTracked_of_noScan (by decide) (by unfold TracksWorker; decide))⟩

/-- A client submits a workflow, and a worker that has sent no heartbeat asks
for a task. -/
def noHeartbeat : List (Choice Job) :=
  [.spawn (.submit .asListed (.pair .failFast 1)), .run 0, .run 0, .run 0, .run 0, .run 0, .run 0,
    .spawn (.message "k" (.taskRequest 1)), .run 1]

/-- The worker owns the task without an entry. -/
theorem not_ownersTracked_noHeartbeat :
    Interleaving (Action.handle .counting) Job.prog {} (scheduleJobs noHeartbeat).1
      (scheduleJobs noHeartbeat).2.1 (scheduleJobs noHeartbeat).2.2 ∧
    ¬ OwnersTracked (scheduleJobs noHeartbeat).2.2 := by
  refine ⟨Pool.interleaving_exec _ _ _ noHeartbeat, fun h => ?_⟩
  have hrunning : (scheduleJobs noHeartbeat).2.2.coord.runningTasks["a"]? = some "k" := by decide
  have hnone : (scheduleJobs noHeartbeat).2.2.coord.heartbeat.lastHeartbeat["k"]? = none := by
    decide
  obtain ⟨last, hlast, -⟩ := h "a" "k" hrunning
  rw [hnone] at hlast
  cases hlast

end DagScheduler
