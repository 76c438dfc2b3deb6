import DagScheduler.Model.Run
import DagScheduler.Store.Preservation

/-!
# Rules for the actions of the coordinator

`Sound P` is the invariant that every action of every operation keeps: the
store is coherent, and every stored specification satisfies `P`.  The rules
below compute a `wp` along an operation whose invariant is `Sound P`.

* A read leaves the world alone, so its rule only passes the answer on.
* `wp_update` takes what the transaction commits, from the lemmas of
  `Store.Transactions`, and asks for `Sound P` of the new store.
* `run_update` and its siblings execute a transaction in any state.
-/

namespace DagScheduler

open Lib Program

/-- The store is coherent, and every stored specification satisfies `P`. -/
structure Store.Sound (P : WorkflowSpec → Prop) (s : Store) : Prop where
  coherent : s.Coherent
  stored : ∀ (id : String) (wf : WorkflowSpec), s.workflows[id]? = some wf → P wf

/-- The invariant between two actions. -/
abbrev Keeps (P : WorkflowSpec → Prop) (w : World) : Prop := w.store.Sound P

theorem Store.Sound.of_workflows {P : WorkflowSpec → Prop} {s s' : Store}
    (hs : s.Sound P) (hc : s'.Coherent) (hw : s'.workflows = s.workflows) :
    s'.Sound P := by
  refine ⟨hc, ?_⟩
  rw [hw]
  exact hs.stored

theorem Store.Sound.mono {P P' : WorkflowSpec → Prop} {s : Store} (hs : s.Sound P)
    (h : ∀ wf, P wf → P' wf) : s.Sound P' :=
  ⟨hs.coherent, fun id wf hwf => h wf (hs.stored id wf hwf)⟩

/-! ## The sections under the mutex, field by field -/

namespace Coordinator

variable (c : Coordinator) (t : String) (l : List String)

@[simp] theorem enqueue_readyQueue : (c.enqueue l).readyQueue = c.readyQueue ++ l := rfl
@[simp] theorem enqueue_runningTasks : (c.enqueue l).runningTasks = c.runningTasks := rfl
@[simp] theorem enqueue_assignedTasks :
    (c.enqueue l).assignedTasks = c.assignedTasks := rfl
@[simp] theorem enqueue_taskWorkflowMap :
    (c.enqueue l).taskWorkflowMap = c.taskWorkflowMap := rfl

@[simp] theorem dropFromQueue_runningTasks :
    (c.dropFromQueue l).runningTasks = c.runningTasks := rfl
@[simp] theorem dropFromQueue_assignedTasks :
    (c.dropFromQueue l).assignedTasks = c.assignedTasks := rfl
@[simp] theorem dropFromQueue_taskWorkflowMap :
    (c.dropFromQueue l).taskWorkflowMap = c.taskWorkflowMap := rfl

@[simp] theorem mem_dropFromQueue {u : String} :
    u ∈ (c.dropFromQueue l).readyQueue ↔ u ∈ c.readyQueue ∧ u ∉ l := by
  simp [dropFromQueue]

@[simp] theorem foldl_forget_readyQueue :
    (l.foldl forget c).readyQueue = c.readyQueue := by
  induction l generalizing c with
  | nil => rfl
  | cons t l ih => exact ih (c.forget t)

@[simp] theorem foldl_forget_taskWorkflowMap :
    (l.foldl forget c).taskWorkflowMap = c.taskWorkflowMap := by
  induction l generalizing c with
  | nil => rfl
  | cons t l ih => exact ih (c.forget t)

@[simp] theorem foldl_forget_heartbeat :
    (l.foldl forget c).heartbeat = c.heartbeat := by
  induction l generalizing c with
  | nil => rfl
  | cons t l ih => exact ih (c.forget t)

theorem foldl_forget_assignedTasks :
    (l.foldl forget c).assignedTasks
      = l.foldl (fun m t => m.erase t) c.assignedTasks := by
  induction l generalizing c with
  | nil => rfl
  | cons t l ih => exact ih (c.forget t)

theorem foldl_forget_runningTasks :
    (l.foldl forget c).runningTasks
      = l.foldl (fun m t => m.erase t) c.runningTasks := by
  induction l generalizing c with
  | nil => rfl
  | cons t l ih => exact ih (c.forget t)

/-- A forgotten task has no execution. -/
theorem get_foldl_forget_assigned (u : String) :
    (l.foldl forget c).assignedTasks[u]?
      = if u ∈ l then none else c.assignedTasks[u]? := by
  rw [foldl_forget_assignedTasks, Table.get_foldl_erase]

/-- A forgotten task has no worker. -/
theorem get_foldl_forget_running (u : String) :
    (l.foldl forget c).runningTasks[u]?
      = if u ∈ l then none else c.runningTasks[u]? := by
  rw [foldl_forget_runningTasks, Table.get_foldl_erase]

/-- The caches of `c` and `c'` are the same. -/
structure SameCaches (c c' : Coordinator) : Prop where
  spec : c'.taskSpecCache = c.taskSpecCache
  owner : c'.taskWorkflowMap = c.taskWorkflowMap
  policy : c'.workflowFailurePolicy = c.workflowFailurePolicy

theorem sameCaches_foldl_forget : SameCaches c (l.foldl forget c) := by
  induction l generalizing c with
  | nil => exact ⟨rfl, rfl, rfl⟩
  | cons t l ih =>
    obtain ⟨hs, ho, hp⟩ := ih (c.forget t)
    exact ⟨hs, ho, hp⟩

end Coordinator

/-- The world after a transaction has left the store `s`. -/
def World.wrote (w : World) (s : Store) : World :=
  { w with store := s, ticks := w.ticks + 1 }

@[simp] theorem World.wrote_store (w : World) (s : Store) : (w.wrote s).store = s := rfl
@[simp] theorem World.wrote_coord (w : World) (s : Store) :
    (w.wrote s).coord = w.coord := rfl
@[simp] theorem World.wrote_uuids (w : World) (s : Store) :
    (w.wrote s).uuids = w.uuids := rfl

namespace Program

variable {env : Env} {P : WorkflowSpec → Prop} {α : Type} {w : World}

theorem wp_update (op : StoreOp α) {J : World → Prop}
    {Q : Except StoreError α → World → Prop} {res : Except StoreError α} {s' : Store}
    (hcommit : w.store.commit (op.tx env.marshals (env.now w.ticks)) = (res, s'))
    (hs' : J (w.wrote s')) (hQ : Q res (w.wrote s')) :
    (update op).wp (Action.handle env) J Q w := by
  have hworld : Action.handle env (Action.update op) w = (res, w.wrote s') := by
    simp [Action.handle, World.update, hcommit, World.wrote]
  rw [update, Prog.wp_act, hworld]
  exact ⟨hs', hQ⟩

/-- A transaction that succeeds. -/
theorem wp_tryUpdate (op : StoreOp α) {k : α → Program (Except CallError Unit)}
    {Q : Except CallError Unit → World → Prop} {a : α} {s' : Store}
    (hcommit : w.store.commit (op.tx env.marshals (env.now w.ticks)) = (.ok a, s'))
    (hs' : s'.Sound P)
    (hk : (k a).wp (Action.handle env) (Keeps P) Q (w.wrote s')) :
    (tryUpdate op k).wp (Action.handle env) (Keeps P) Q w := by
  rw [tryUpdate, Prog.wp_bind]
  exact wp_update op hcommit hs' hk

/-- A transaction that fails ends the operation. -/
theorem wp_tryUpdate_refused (op : StoreOp α)
    {k : α → Program (Except CallError Unit)}
    {Q : Except CallError Unit → World → Prop} {e : StoreError} {s' : Store}
    (hcommit : w.store.commit (op.tx env.marshals (env.now w.ticks)) = (.error e, s'))
    (hs' : s'.Sound P) (hQ : Q (.error (.store e)) (w.wrote s')) :
    (tryUpdate op k).wp (Action.handle env) (Keeps P) Q w := by
  rw [tryUpdate, Prog.wp_bind]
  exact wp_update op hcommit hs' hQ

theorem run_update (op : StoreOp α) {res : Except StoreError α} {s' : Store}
    (hcommit : w.store.commit (op.tx env.marshals (env.now w.ticks)) = (res, s')) :
    (update op).run (Action.handle env) w = (res, w.wrote s') := by
  rw [update, Prog.run_act]
  simp [Action.handle, World.update, hcommit, World.wrote]

theorem run_tryUpdate (op : StoreOp α) {k : α → Program (Except CallError Unit)}
    {a : α} {s' : Store}
    (hcommit : w.store.commit (op.tx env.marshals (env.now w.ticks)) = (.ok a, s')) :
    (tryUpdate op k).run (Action.handle env) w
      = (k a).run (Action.handle env) (w.wrote s') := by
  rw [tryUpdate, Prog.run_bind, run_update op hcommit]

theorem run_tryUpdate_refused (op : StoreOp α)
    {k : α → Program (Except CallError Unit)} {e : StoreError} {s' : Store}
    (hcommit : w.store.commit (op.tx env.marshals (env.now w.ticks)) = (.error e, s')) :
    (tryUpdate op k).run (Action.handle env) w
      = (.error (.store e), w.wrote s') := by
  rw [tryUpdate, Prog.run_bind, run_update op hcommit]
  rfl

theorem wp_view {J : World → Prop} (hs : J w) {f : Store → α} {Q : α → World → Prop}
    (hQ : Q (f w.store) w) : (view f).wp (Action.handle env) J Q w := ⟨hs, hQ⟩

variable (hs : Keeps P w)
include hs

theorem wp_locked {f : Coordinator → α × Coordinator} {Q : α → World → Prop}
    (hQ : Q (f w.coord).1 { w with coord := (f w.coord).2 }) :
    (locked f).wp (Action.handle env) (Keeps P) Q w := ⟨hs, hQ⟩

theorem wp_lockedRead {f : Coordinator → α} {Q : α → World → Prop}
    (hQ : Q (f w.coord) w) :
    (lockedRead f).wp (Action.handle env) (Keeps P) Q w := ⟨hs, hQ⟩

theorem wp_lockedWrite {f : Coordinator → Coordinator} {Q : Unit → World → Prop}
    (hQ : Q () { w with coord := f w.coord }) :
    (lockedWrite f).wp (Action.handle env) (Keeps P) Q w := ⟨hs, hQ⟩

theorem wp_newUUID {Q : String → World → Prop}
    (hQ : Q (env.uuid w.uuids) { w with uuids := w.uuids + 1 }) :
    newUUID.wp (Action.handle env) (Keeps P) Q w := ⟨hs, hQ⟩

end Program

/-! ## `GetReadyTask` in any state -/

/-- The ways `GetReadyTask` can end. -/
inductive ReadyCases (env : Env) (w : World) (workerID : String) :
    Option TaskAssignment × World → Prop where
  | empty : w.coord.readyQueue = [] → ReadyCases env w workerID (none, w)
  | unknown {t : String} {rest : List String} :
      w.coord.readyQueue = t :: rest → t ∉ w.coord.taskSpecCache →
      ReadyCases env w workerID
        (none, { w with coord := { w.coord with readyQueue := rest } })
  | absent {t : String} {rest : List String} {spec : TaskSpec} :
      w.coord.readyQueue = t :: rest → w.coord.taskSpecCache[t]? = some spec →
      w.store.taskState[t]? = none →
      ReadyCases env w workerID (none,
        { w with
          coord := { w.coord with readyQueue := rest }
          ticks := w.ticks + 1
          uuids := w.uuids + 1 })
  | assigned {t : String} {rest : List String} {spec : TaskSpec} {r : TaskStateRecord} :
      w.coord.readyQueue = t :: rest → w.coord.taskSpecCache[t]? = some spec →
      w.store.taskState[t]? = some r →
      ReadyCases env w workerID
        (some
          { taskId := t
            executionId := env.uuid w.uuids
            command := spec.command
            env := spec.env
            timeoutSeconds := spec.timeoutSeconds },
        { store := w.store.setTask t
            { r with
              state := .running, executionID := env.uuid w.uuids,
              lastUpdated := env.now w.ticks }
          coord :=
            { w.coord with
              readyQueue := rest
              runningTasks := w.coord.runningTasks.insert t workerID
              assignedTasks := w.coord.assignedTasks.insert t (env.uuid w.uuids) }
          ticks := w.ticks + 1
          uuids := w.uuids + 1 })

theorem World.getReadyTask_cases {env : Env} {w : World} (hk : w.store.Keyed)
    (workerID : String) : ReadyCases env w workerID (w.getReadyTask env workerID) := by
  cases hq : w.coord.readyQueue with
  | nil =>
    simp only [World.getReadyTask, hq]
    exact .empty hq
  | cons t rest =>
    simp only [World.getReadyTask, hq]
    cases hspec : w.coord.taskSpecCache[t]? with
    | none => exact .unknown hq ((Table.not_mem_iff_get _ _).mpr hspec)
    | some spec =>
      rcases Store.commit_modifyTask_cases hk t (fun x => { x with
          state := .running, executionID := env.uuid w.uuids,
          lastUpdated := env.now w.ticks }) with ⟨r, hr, hcommit⟩ | ⟨hr, hcommit⟩
      · have hupdate : ∀ c : Coordinator, World.update env
            (.assignTask t (env.uuid w.uuids))
            { store := w.store, coord := c, ticks := w.ticks, uuids := w.uuids + 1 }
            = (.ok (),
                { store := w.store.setTask t { r with
                    state := .running, executionID := env.uuid w.uuids,
                    lastUpdated := env.now w.ticks }
                  coord := c
                  ticks := w.ticks + 1
                  uuids := w.uuids + 1 }) := by
          intro c
          simp only [World.update, StoreOp.tx, Store.assignTask, hcommit]
        simp only [hupdate]
        exact .assigned hq hspec hr
      · have hupdate : ∀ c : Coordinator, World.update env
            (.assignTask t (env.uuid w.uuids))
            { store := w.store, coord := c, ticks := w.ticks, uuids := w.uuids + 1 }
            = (.error .taskNotFound,
                { store := w.store, coord := c, ticks := w.ticks + 1,
                  uuids := w.uuids + 1 }) := by
          intro c
          simp only [World.update, StoreOp.tx, Store.assignTask, hcommit]
        simp only [hupdate]
        exact .absent hq hspec hr

end DagScheduler
