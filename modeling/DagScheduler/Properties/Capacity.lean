import DagScheduler.Lib.Pool
import DagScheduler.Model.Worker

/-!
# How many tasks a worker executes

A worker with the capacity `c` should never execute more than `c` tasks at
once.  The request ticker compares the capacity with the number of entries in
`running`, and an entry appears only when the goroutine of an assignment has
started.  Requests and assignments that are on their way do not count, so two
ticks may ask for two tasks where there is room for one.

`outstanding` counts everything that may become an execution: the requests and
the assignments in the channels, and the executions.  No turn raises it except
a request.  If every request is sent while `outstanding` is below the capacity,
the bound holds in every state.
-/

namespace DagScheduler

open Lib

/-- The message asks for a task. -/
def WorkerPayload.isRequest : WorkerPayload → Bool
  | .taskRequest _ => true
  | _ => false

/-- The message carries a task. -/
def CoordinatorMessage.isAssignment : CoordinatorMessage → Bool
  | .taskAssignment _ => true
  | _ => false

/-- The requests and the assignments in the channels of a stream. -/
def Stream.inFlight (s : Stream) : Nat :=
  s.toCoordinator.countP (·.payload.isRequest) + s.toWorker.countP (·.isAssignment)

namespace Cluster

/-- The number of executions in progress. -/
def inProgress (c : Cluster) : Nat := c.worker.executions.length

/-- Requests and assignments on their way, and executions. -/
def outstanding (c : Cluster) : Nat :=
  (c.streams.map (·.inFlight)).sum + c.inProgress

/-- A request is sent only while less than the capacity is outstanding. -/
def Paced (c : Cluster) : Turn → Prop
  | .requestTick => 0 < c.worker.available → (c.outstanding : Int) < c.worker.capacity.toInt
  | _ => True

instance (c : Cluster) : (turn : Turn) → Decidable (c.Paced turn)
  | .requestTick => inferInstanceAs (Decidable (_ → _))
  | .connect | .lose _ | .heartbeatTick _ _ | .serve _ | .receive _ | .register _
  | .finish _ _ | .report _ | .deregister _ | .other _ => .isTrue trivial

/-! ## One turn -/

variable {env : Env}

/-- A stream that is replaced. -/
theorem sum_inFlight_set {l : List Stream} {i : Nat} {s : Stream} (h : l[i]? = some s)
    (s' : Stream) :
    ((l.set i s').map (·.inFlight)).sum + s.inFlight
      = (l.map (·.inFlight)).sum + s'.inFlight :=
  sum_map_set _ h s'

/-- A stream that is changed in place. -/
theorem sum_inFlight_modify (l : List Stream) (i : Nat) {f : Stream → Stream} {n : Nat}
    (hf : ∀ s, (f s).inFlight ≤ s.inFlight + n) :
    ((l.modify i f).map (·.inFlight)).sum ≤ (l.map (·.inFlight)).sum + n := by
  rw [List.modify_eq_set_getElem?]
  cases hi : l[i]? with
  | none => exact Nat.le_add_right _ _
  | some s =>
    have hset := sum_inFlight_set hi (f s)
    have hs := hf s
    show ((l.set i (f s)).map (·.inFlight)).sum ≤ _
    omega

theorem inFlight_send (s : Stream) (msg : WorkerMessage) :
    (s.send msg).inFlight ≤ s.inFlight + (if msg.payload.isRequest = true then 1 else 0) := by
  unfold Stream.send
  split
  · simp only [Stream.inFlight, List.countP_append, List.countP_singleton]
    omega
  · exact Nat.le_add_right _ _

theorem outstanding_send (c : Cluster) (i : Nat) (payload : WorkerPayload) :
    (c.send i payload).outstanding
      ≤ c.outstanding + (if payload.isRequest = true then 1 else 0) := by
  have hsum := sum_inFlight_modify c.streams i (fun s => inFlight_send s ⟨c.worker.id, payload⟩)
  dsimp only at hsum
  simp only [outstanding, inProgress, send]
  omega

/-- Only a request is answered with a message. -/
theorem length_answer (env : Env) (workerID : String) (payload : WorkerPayload) (w : World) :
    ((handleMessage workerID payload).run (Action.handle env) w).1.toList.length
      ≤ if payload.isRequest = true then 1 else 0 := by
  cases payload with
  | taskRequest capacity => exact Option.length_toList_le
  | heartbeat now running => simp [handleMessage, WorkerPayload.isRequest]
  | taskResult result => simp [handleMessage, WorkerPayload.isRequest]
  | unset => simp [handleMessage, WorkerPayload.isRequest]

theorem outstanding_serve (c : Cluster) (i : Nat) :
    (c.serve env i).outstanding ≤ c.outstanding := by
  unfold serve
  split
  · exact le_rfl
  · rename_i s hs
    split
    · exact le_rfl
    · rename_i msg rest hmsg
      dsimp only
      -- the request that is gone makes room for the assignment
      generalize (if s.workerID = "" then msg.workerId else s.workerID) = workerID
      have hanswer := length_answer env workerID msg.payload c.world
      generalize (handleMessage workerID msg.payload).run (Action.handle env) c.world = out
        at hanswer ⊢
      have hset := sum_inFlight_set hs
        ⟨s.live, workerID, rest, s.toWorker ++ out.1.toList⟩
      have hle : Stream.inFlight ⟨s.live, workerID, rest, s.toWorker ++ out.1.toList⟩
          ≤ s.inFlight := by
        have hcount : out.1.toList.countP (·.isAssignment) ≤ out.1.toList.length :=
          List.countP_le_length
        simp only [Stream.inFlight, hmsg, List.countP_cons, List.countP_append]
        omega
      simp only [outstanding, inProgress]
      omega

theorem outstanding_receive (c : Cluster) (i : Nat) :
    (c.receive i).outstanding ≤ c.outstanding := by
  unfold receive
  split
  · exact le_rfl
  · rename_i s hs
    split
    · exact le_rfl
    · rename_i msg rest hmsg
      have hset := sum_inFlight_set hs ⟨s.live, s.workerID, s.toCoordinator, rest⟩
      have hone : Stream.inFlight ⟨s.live, s.workerID, s.toCoordinator, rest⟩
          + (if msg.isAssignment = true then 1 else 0) = s.inFlight := by
        simp only [Stream.inFlight, hmsg, List.countP_cons]
        omega
      cases msg with
      | taskAssignment assignment =>
        rw [CoordinatorMessage.isAssignment, if_pos rfl] at hone
        simp only [outstanding, inProgress, List.length_append, List.length_singleton]
        omega
      | noTask waitMs =>
        simp only [outstanding, inProgress]
        omega
      | ping now =>
        simp only [outstanding, inProgress]
        omega

theorem outstanding_advance (c : Cluster) (j : Nat) (phase : TaskPhase) :
    (c.advance j phase).outstanding = c.outstanding := by
  simp only [outstanding, inProgress, advance, List.length_modify]

/-- A turn raises `outstanding` only if it is a request, and by one. -/
theorem outstanding_step (env : Env) (c : Cluster) (turn : Turn) :
    (c.step env turn).outstanding ≤ c.outstanding ∨
      turn = .requestTick ∧ 0 < c.worker.available ∧
        (c.step env turn).outstanding ≤ c.outstanding + 1 := by
  cases turn with
  | connect =>
    refine .inl ?_
    simp only [step, connect]
    split
    · exact le_rfl
    · simp [outstanding, inProgress, Stream.inFlight]
  | lose i =>
    refine .inl (Nat.add_le_add_right ?_ _)
    exact sum_inFlight_modify (n := 0) c.streams i fun s => Nat.zero_le s.inFlight
  | requestTick =>
    rw [step, requestTick]
    split
    · exact .inl le_rfl
    · rename_i hav
      exact .inr ⟨rfl, Int32.not_le.mp hav, c.outstanding_send _ _⟩
  | heartbeatTick now order => exact .inl (c.outstanding_send _ _)
  | serve i => exact .inl (c.outstanding_serve i)
  | receive i => exact .inl (c.outstanding_receive i)
  | register j =>
    refine .inl ?_
    simp only [step, register]
    split
    · exact (c.outstanding_advance j _).le
    · exact le_rfl
  | finish j exit =>
    refine .inl ?_
    simp only [step, finish]
    split
    · exact (c.outstanding_advance j _).le
    · exact le_rfl
  | report j =>
    refine .inl ?_
    simp only [step, report]
    split
    · split
      · exact (outstanding_send _ _ _).trans (c.outstanding_advance j _).le
      · exact (c.outstanding_advance j _).le
    · exact le_rfl
  | deregister j =>
    refine .inl ?_
    simp only [step, deregister]
    split
    · refine Nat.add_le_add_left ?_ _
      exact (List.eraseIdx_sublist _ _).length_le
    · exact le_rfl
  | other call =>
    refine .inl ?_
    simp only [step]
    split <;> exact le_rfl

/-- No turn changes who the worker is and what its capacity is. -/
theorem worker_step (c : Cluster) (turn : Turn) :
    (c.step env turn).worker.id = c.worker.id ∧
      (c.step env turn).worker.capacity = c.worker.capacity := by
  cases turn with
  | connect =>
    simp only [step, connect]
    split <;> exact ⟨rfl, rfl⟩
  | lose i => exact ⟨rfl, rfl⟩
  | requestTick =>
    simp only [step, requestTick]
    split <;> exact ⟨rfl, rfl⟩
  | heartbeatTick now order => exact ⟨rfl, rfl⟩
  | serve i =>
    simp only [step, serve]
    split
    · exact ⟨rfl, rfl⟩
    · split <;> exact ⟨rfl, rfl⟩
  | receive i =>
    simp only [step, receive]
    split
    · exact ⟨rfl, rfl⟩
    · split
      · exact ⟨rfl, rfl⟩
      · split <;> exact ⟨rfl, rfl⟩
  | register j =>
    simp only [step, register]
    split <;> exact ⟨rfl, rfl⟩
  | finish j exit =>
    simp only [step, finish]
    split <;> exact ⟨rfl, rfl⟩
  | report j =>
    simp only [step, report]
    split
    · split <;> exact ⟨rfl, rfl⟩
    · exact ⟨rfl, rfl⟩
  | deregister j =>
    simp only [step, deregister]
    split <;> exact ⟨rfl, rfl⟩
  | other call =>
    simp only [step]
    split <;> exact ⟨rfl, rfl⟩

end Cluster

/-! ## Whole runs -/

/-- A worker that has just started, and a coordinator with any history. -/
def Cluster.fresh (w : World) (id : String) (capacity : Int32) : Cluster where
  world := w
  worker := { id := id, capacity := capacity }

/-- If requests are sent only while less than the capacity is outstanding, the
worker never executes more tasks than its capacity. -/
theorem inProgress_le_capacity (env : Env) (w : World) (id : String) {capacity : Int32}
    (hpos : 0 < capacity) {turns : List Turn}
    (hpaced : Along (Cluster.step env) Cluster.Paced (.fresh w id capacity) turns) :
    ((runOn (Cluster.step env) (.fresh w id capacity) turns).inProgress : Int)
      ≤ capacity.toInt := by
  have hrun := hpaced.invariant (I := fun _ c => c.worker.capacity = capacity ∧
    (c.outstanding : Int) ≤ capacity.toInt) ?_ ?_
  · have hle : (runOn (Cluster.step env) (.fresh w id capacity) turns).inProgress
        ≤ (runOn (Cluster.step env) (.fresh w id capacity) turns).outstanding :=
      Nat.le_add_left _ _
    omega
  · exact ⟨rfl, (Int32.lt_iff_toInt_lt.mp hpos).le⟩
  · intro pre turn _ hok h
    generalize runOn (Cluster.step env) (.fresh w id capacity) pre = c at hok h ⊢
    refine ⟨(c.worker_step turn).2.trans h.1, ?_⟩
    rcases c.outstanding_step env turn with hle | ⟨rfl, hav, hle⟩
    · omega
    · have hbelow := hok hav
      rw [h.1] at hbelow
      omega

/-- A workflow of two tasks that do not depend on each other. -/
def WorkflowSpec.parallel : WorkflowSpec where
  workflowId := "w"
  tasks := [{ taskId := "a" }, { taskId := "b" }]

/-- The worker asks, gets a task and starts it before it asks again. -/
def oneAtATime : List Turn :=
  [.other (.submitWorkflow .asListed .parallel), .connect, .requestTick, .serve 0, .receive 0,
    .register 0, .requestTick, .finish 0 ⟨"ok".toUTF8, none, false⟩, .report 0, .serve 0,
    .deregister 0, .requestTick, .serve 0, .receive 0]

theorem inProgress_oneAtATime :
    (runOn (Cluster.step .counting) (.fresh {} "k" 1) oneAtATime).inProgress = 1 ∧
    ((runOn (Cluster.step .counting) (.fresh {} "k" 1) oneAtATime).inProgress : Int)
      ≤ (1 : Int32).toInt :=
  ⟨by decide, inProgress_le_capacity .counting {} "k" (by decide) (by decide)⟩

/-- The ticker fires twice before the first assignment arrives. -/
def twoTicks : List Turn :=
  [.other (.submitWorkflow .asListed .parallel), .connect, .requestTick, .requestTick, .serve 0,
    .serve 0, .receive 0, .receive 0, .register 0, .register 1]

/-- A worker with room for one task executes two. -/
theorem not_inProgress_le_twoTicks :
    (runOn (Cluster.step .counting) (.fresh {} "k" 1) twoTicks).worker.executions.map (·.phase)
      = [.executing, .executing] ∧
    ¬ ((runOn (Cluster.step .counting) (.fresh {} "k" 1) twoTicks).inProgress : Int)
      ≤ (1 : Int32).toInt := by
  decide

end DagScheduler
