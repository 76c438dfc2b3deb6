import DagScheduler.Coordinator.Uses
import DagScheduler.Dag.Accepted
import DagScheduler.Store.Disk

/-!
# The coordinator on the file

The properties of the coordinator are proved about a store of records, and the
process works on a file of bytes.  Here the two meet.  A run on the file, with
crashes at any action, is a run on records: the memory is the same, the file
holds exactly the encoded records, and every view decodes to them.

`Call.Fits` says what the format needs of a request: the codec of the
specifications has to carry the workflow, and the strings and the downstream
lists have to stay below the limits of `Store.Disk`.
-/

namespace DagScheduler

open Lib Program

variable {env : Env} {codec : SpecCodec}

/-! ## The downstream lists of an accepted workflow -/

/-- Room for the downstream lists of a workflow: every dependency entry stands in
one of them. -/
def WorkflowSpec.downstreamBytes (wf : WorkflowSpec) : Nat :=
  (wf.tasks.map fun task => task.dependencies.length * (4 + task.taskId.utf8ByteSize)).sum

namespace Accepted

variable {wf : WorkflowSpec} {dag : DAG} (h : Accepted wf dag)
include h

/-- A downstream list holds tasks of the workflow. -/
theorem mem_taskIDs_of_downstream {d u : String} (hu : u ∈ dag.downstream.getD d []) :
    u ∈ wf.taskIDs := by
  by_contra hno
  have hcount := h.downstream d u
  rw [WorkflowSpec.dependenciesOf_of_not_mem hno, List.count_nil] at hcount
  exact List.count_eq_zero.mp hcount hu

/-- A task stands in a downstream list at most as often as it has dependencies. -/
theorem idBytes_downstream_le (d : String) :
    idBytes (dag.downstream.getD d []) ≤ wf.downstreamBytes := by
  let room := fun u : String => (wf.dependenciesOf u).length * (4 + u.utf8ByteSize)
  have hsub : (dag.downstream.getD d []).toFinset ⊆ wf.taskIDs.toFinset := by
    intro u hu
    rw [List.mem_toFinset] at hu ⊢
    exact h.mem_taskIDs_of_downstream hu
  calc idBytes (dag.downstream.getD d [])
      = ∑ u ∈ (dag.downstream.getD d []).toFinset,
          (dag.downstream.getD d []).count u • (4 + u.utf8ByteSize) :=
        Finset.sum_list_map_count _ _
    _ ≤ ∑ u ∈ (dag.downstream.getD d []).toFinset, room u := by
        refine Finset.sum_le_sum fun u _ => ?_
        rw [h.downstream, smul_eq_mul]
        exact Nat.mul_le_mul_right _ List.count_le_length
    _ ≤ ∑ u ∈ wf.taskIDs.toFinset, room u := Finset.sum_le_sum_of_subset hsub
    _ = (wf.taskIDs.map room).sum := List.sum_toFinset room h.nodup
    _ = wf.downstreamBytes := by
        rw [WorkflowSpec.taskIDs, List.map_map, WorkflowSpec.downstreamBytes]
        refine congrArg List.sum (List.map_congr_left fun task htask => ?_)
        simp only [Function.comp, room, WorkflowSpec.dependenciesOf_of_mem h.nodup htask]

theorem fitsTask (hroom : wf.downstreamBytes ≤ 2 ^ 30)
    (hids : ∀ task ∈ wf.tasks, task.taskId.utf8ByteSize ≤ maxText) :
    ∀ task ∈ wf.tasks, FitsTask wf.tasks dag.downstream task := by
  intro task htask
  refine ⟨hids task htask, (h.idBytes_downstream_le task.taskId).trans hroom, fun u hu => ?_⟩
  exact WorkflowSpec.mem_taskIDs.mp (h.mem_taskIDs_of_downstream hu)

end Accepted

/-! ## The handler on the file -/

/-- The file that holds the records, with the same memory. -/
def World.onDisk (codec : SpecCodec) (w : World) : DiskWorld where
  disk := w.store.encode codec
  coord := w.coord
  ticks := w.ticks
  uuids := w.uuids

/-- Only a transaction asks for room. -/
def Action.Fits (codec : SpecCodec) {β : Type} : Action β → Prop
  | .update op => op.Fits codec
  | _ => True

/-- The first `limit` UUIDs are short. -/
def Env.ShortUUIDs (env : Env) (limit : Nat) : Prop :=
  ∀ n < limit, (env.uuid n).utf8ByteSize ≤ maxText

theorem World.update_onDisk {w : World} (hw : w.store.Readable codec) {α : Type}
    {op : StoreOp α} (hop : op.Fits codec) :
    (w.onDisk codec).update env codec op
        = ((w.update env op).1, (w.update env op).2.onDisk codec) ∧
      (w.update env op).2.store.Readable codec := by
  obtain ⟨hcommit, hread⟩ := StoreOp.commit_encode hw hop env.marshals (env.now w.ticks)
  refine ⟨?_, hread⟩
  have hdisk : (w.onDisk codec).disk = w.store.encode codec := rfl
  have hticks : (w.onDisk codec).ticks = w.ticks := rfl
  rw [DiskWorld.update, hdisk, hticks, hcommit, World.update]
  generalize w.store.commit (op.tx env.marshals (env.now w.ticks)) = out
  obtain ⟨result, s⟩ := out
  cases result <;> rfl

theorem DiskWorld.update_uuids (codec : SpecCodec) {α : Type} (op : StoreOp α)
    (v : DiskWorld) : (v.update env codec op).2.uuids = v.uuids := rfl

theorem DiskWorld.uuids_getReadyTask (env : Env) (codec : SpecCodec) (workerID : String)
    (v : DiskWorld) : v.uuids ≤ (v.getReadyTask env codec workerID).2.uuids := by
  rw [DiskWorld.getReadyTask]
  split
  · exact Nat.le_refl _
  · dsimp only
    split
    · exact Nat.le_refl _
    · split
      all_goals
        rename_i h
        have huuids := congrArg (fun p => p.2.uuids) h
        dsimp only [DiskWorld.update_uuids] at huuids ⊢
        omega

theorem World.getReadyTask_onDisk {w : World} (hw : w.store.Readable codec) {limit : Nat}
    (hshort : env.ShortUUIDs limit) {workerID : String}
    (hlimit : ((w.onDisk codec).getReadyTask env codec workerID).2.uuids ≤ limit) :
    (w.onDisk codec).getReadyTask env codec workerID
        = ((w.getReadyTask env workerID).1, (w.getReadyTask env workerID).2.onDisk codec) ∧
      (w.getReadyTask env workerID).2.store.Readable codec := by
  have hcoord : (w.onDisk codec).coord = w.coord := rfl
  rw [DiskWorld.getReadyTask, hcoord] at hlimit ⊢
  rw [World.getReadyTask]
  cases hq : w.coord.readyQueue with
  | nil => exact ⟨rfl, hw⟩
  | cons t rest =>
    simp only [hq] at hlimit ⊢
    cases hspec : w.coord.taskSpecCache[t]? with
    | none => exact ⟨rfl, hw⟩
    | some spec =>
      simp only [hspec] at hlimit ⊢
      let w₁ : World :=
        { w with coord := { w.coord with readyQueue := rest }, uuids := w.uuids + 1 }
      have hdrawn : w.uuids < limit := by
        split at hlimit
        all_goals
          rename_i h
          have huuids : _ = w.uuids + 1 := (congrArg (fun p => p.2.uuids) h).symm
          dsimp only at hlimit huuids
          omega
      have hfits : (StoreOp.assignTask t (env.uuid w.uuids)).Fits codec :=
        hshort w.uuids hdrawn
      obtain ⟨hup, hread⟩ := @World.update_onDisk env codec w₁ hw _ _ hfits
      have hfile : DiskWorld.update env codec (.assignTask t (env.uuid (w.onDisk codec).uuids))
          { w.onDisk codec with
            coord := { w.coord with readyQueue := rest }
            uuids := (w.onDisk codec).uuids + 1 } = _ := hup
      have hmem : World.update env (.assignTask t (env.uuid w.uuids))
          { w with coord := { w.coord with readyQueue := rest }, uuids := w.uuids + 1 }
          = w₁.update env (.assignTask t (env.uuid w.uuids)) := rfl
      dsimp only at hfile hmem
      rw [hfile, hmem]
      generalize w₁.update env (.assignTask t (env.uuid w.uuids)) = out at hread ⊢
      obtain ⟨result, w'⟩ := out
      cases result <;> exact ⟨rfl, hread⟩

/-- UUIDs are only ever drawn. -/
theorem Action.uuids_le_of_handleDisk {limit : Nat} (β : Type) (e : Action β) (v : DiskWorld)
    (hlimit : (e.handleDisk env codec v).2.uuids ≤ limit) : v.uuids ≤ limit := by
  cases e with
  | update op => exact hlimit
  | view f => exact hlimit
  | locked f => exact hlimit
  | newUUID => exact (Nat.le_succ _).trans hlimit
  | getReadyTask k => exact (v.uuids_getReadyTask env codec k).trans hlimit

/-- The handler on the file does the work of the handler on records, as long as the
UUIDs it draws are short. -/
theorem represents_onDisk {limit : Nat} (hshort : env.ShortUUIDs limit) :
    Represents (Action.handle env) (Action.handleDisk env codec)
      (fun w => w.store.Readable codec) (fun v => v.uuids ≤ limit) (Action.Fits codec)
      (World.onDisk codec) where
  budget := Action.uuids_le_of_handleDisk
  keeps e w hfits hw hlimit := by
    cases e with
    | update op => exact (World.update_onDisk hw hfits).2
    | view f => exact hw
    | locked f => exact hw
    | newUUID => exact hw
    | getReadyTask k => exact (World.getReadyTask_onDisk hw hshort hlimit).2
  step e w hfits hw hlimit := by
    cases e with
    | update op => exact (World.update_onDisk hw hfits).1
    | view f =>
      rw [Action.handleDisk, World.onDisk, hw.decode_encode]
      rfl
    | locked f =>
      rw [Action.handleDisk, World.onDisk, hw.decode_encode]
      rfl
    | newUUID => rfl
    | getReadyTask k => exact (World.getReadyTask_onDisk hw hshort hlimit).1

/-! ## The programs -/

/-- What the format needs of the arguments of a call. -/
def Call.Fits (codec : SpecCodec) : Call → Prop
  | .submitWorkflow _ workflow =>
      codec.Carries workflow ∧ workflow.workflowId.utf8ByteSize ≤ maxText ∧
        (∀ task ∈ workflow.tasks, task.taskId.utf8ByteSize ≤ maxText) ∧
        workflow.downstreamBytes ≤ 2 ^ 30
  | .completeTask _ _ output => output.utf8ByteSize ≤ maxText
  | .failTask _ _ errMsg => errMsg.utf8ByteSize ≤ maxText
  | _ => True

/-- A UUID that is drawn within the limit is short. -/
theorem Env.ShortUUIDs.drawn {limit : Nat} (hshort : env.ShortUUIDs limit) {J : World → Prop}
    {execID : String}
    (h : Drawn env J ((fun v : DiskWorld => v.uuids ≤ limit) ∘ World.onDisk codec) execID) :
    execID.utf8ByteSize ≤ maxText := by
  obtain ⟨w, _, hlimit, rfl⟩ := h
  exact hshort w.uuids hlimit

/-- Every action that a call can use fits, as long as the UUIDs stay within the limit. -/
theorem Call.Uses.fits {limit : Nat} (hshort : env.ShortUUIDs limit) {J : World → Prop}
    {c : Call} (hc : c.Fits codec) {β : Type} {e : Action β}
    (h : c.Uses env J ((fun v : DiskWorld => v.uuids ≤ limit) ∘ World.onDisk codec) e) :
    e.Fits codec := by
  cases e with
  | update op =>
    cases h with
    | storeWorkflow _ => exact hc.1
    | initializeTasks hv =>
      exact ⟨hc.2.1, (accepted_of_ok hv).fitsTask hc.2.2.2 hc.2.2.1⟩
    | complete _ => exact hc
    | fail _ => exact hc
    | retry _ hexec => exact hshort.drawn hexec
    | reclaim _ hexec => exact hshort.drawn hexec
    | recover _ hexec => exact hshort.drawn hexec
    | _ => trivial
  | _ => trivial

/-! ## Whole runs -/

theorem Store.readable_empty (codec : SpecCodec) : ({} : Store).Readable codec := by
  constructor <;> intro _ _ h <;> simp at h

/-- One call, executed to its end. -/
theorem Call.exec_onDisk {c : Call} (hc : c.Fits codec) {w : World}
    (hw : w.store.Readable codec)
    (hshort : env.ShortUUIDs
      (c.prog.run (Action.handleDisk env codec) (w.onDisk codec)).2.uuids) :
    (c.exec env w).2.store.Readable codec ∧
      c.prog.run (Action.handleDisk env codec) (w.onDisk codec)
        = ((c.exec env w).1, (c.exec env w).2.onDisk codec) :=
  (represents_onDisk hshort).run
    ((c.admits_prog (answers_handle env)).mono fun _ => Uses.fits hshort hc) hw (Nat.le_refl _)

/-- One call, cut short. -/
theorem Call.execFor_onDisk {c : Call} (hc : c.Fits codec) {w : World}
    (hw : w.store.Readable codec) {n : Nat}
    (hshort : env.ShortUUIDs
      (c.prog.runFor (Action.handleDisk env codec) n (w.onDisk codec)).uuids) :
    (c.execFor env n w).store.Readable codec ∧
      c.prog.runFor (Action.handleDisk env codec) n (w.onDisk codec)
        = (c.execFor env n w).onDisk codec :=
  (represents_onDisk hshort).runFor
    ((c.admits_prog (answers_handle env)).mono fun _ => Uses.fits hshort hc) hw (Nat.le_refl _)

/-- The UUIDs that a call began with were as short as those it ended with. -/
theorem Env.ShortUUIDs.before {c : Call} {v : DiskWorld}
    (h : env.ShortUUIDs (c.prog.run (Action.handleDisk env codec) v).2.uuids) :
    env.ShortUUIDs v.uuids := by
  have hle : v.uuids ≤ (c.prog.run (Action.handleDisk env codec) v).2.uuids :=
    Prog.run_back (C := fun v : DiskWorld => v.uuids ≤ _) Action.uuids_le_of_handleDisk
      (Nat.le_refl _)
  exact fun n hn => h n (hn.trans_le hle)

theorem Env.ShortUUIDs.beforeCut {c : Call} {n : Nat} {v : DiskWorld}
    (h : env.ShortUUIDs (c.prog.runFor (Action.handleDisk env codec) n v).uuids) :
    env.ShortUUIDs v.uuids := by
  have hle : v.uuids ≤ (c.prog.runFor (Action.handleDisk env codec) n v).uuids :=
    Prog.runFor_back (C := fun v : DiskWorld => v.uuids ≤ _) Action.uuids_le_of_handleDisk
      (Nat.le_refl _)
  exact fun n hn => h n (hn.trans_le hle)

theorem DiskRun.exists_crashRun {calls : List Call} {up : Bool} {v : DiskWorld}
    (hrun : DiskRun env codec calls up v) (hcalls : ∀ c ∈ calls, c.Fits codec)
    (hshort : env.ShortUUIDs v.uuids) :
    ∃ w, CrashRun env calls up w ∧ v = w.onDisk codec ∧ w.store.Readable codec := by
  induction hrun with
  | start =>
    refine ⟨{}, .start, ?_, Store.readable_empty codec⟩
    rfl
  | call c _ ih =>
    rw [List.forall_mem_append, List.forall_mem_singleton] at hcalls
    obtain ⟨w, hw, rfl, hread⟩ := ih hcalls.1 hshort.before
    obtain ⟨hread', hrun⟩ := Call.exec_onDisk hcalls.2 hread hshort
    exact ⟨_, .call c hw, congrArg Prod.snd hrun, hread'⟩
  | cut c n _ ih =>
    rw [List.forall_mem_append, List.forall_mem_singleton] at hcalls
    obtain ⟨w, hw, rfl, hread⟩ := ih hcalls.1 hshort.beforeCut
    obtain ⟨hread', hrun⟩ := Call.execFor_onDisk hcalls.2 hread hshort
    exact ⟨_, .cut c n hw, hrun, hread'⟩
  | cutAgain n _ ih =>
    rw [List.forall_mem_append, List.forall_mem_singleton] at hcalls
    obtain ⟨w, hw, rfl, hread⟩ := ih hcalls.1 hshort.beforeCut
    obtain ⟨hread', hrun⟩ := Call.execFor_onDisk hcalls.2 hread hshort
    exact ⟨_, .cutAgain n hw, hrun, hread'⟩
  | recover _ ih =>
    rw [List.forall_mem_append, List.forall_mem_singleton] at hcalls
    obtain ⟨w, hw, rfl, hread⟩ := ih hcalls.1 hshort.before
    obtain ⟨hread', hrun⟩ := Call.exec_onDisk hcalls.2 hread hshort
    exact ⟨_, .recover hw, congrArg Prod.snd hrun, hread'⟩

/-- A run on the file is a run on records.  The memory is the same, the file holds
exactly the encoded records, and every view of the file reads them back. -/
theorem diskRun_readsAs_crashRun {calls : List Call} {up : Bool} {v : DiskWorld}
    (hrun : DiskRun env codec calls up v) (hcalls : ∀ c ∈ calls, c.Fits codec)
    (hshort : env.ShortUUIDs v.uuids) :
    ∃ w, CrashRun env calls up w ∧ v = w.onDisk codec ∧ v.disk.ReadsAs codec w.store := by
  obtain ⟨w, hw, rfl, hread⟩ := hrun.exists_crashRun hcalls hshort
  exact ⟨w, hw, rfl, hread.readsAs⟩

/-- What `proto.Marshal` writes for `WorkflowSpec.pair .failFast 3`: the ID, a message for
each task, and no field for the policy, whose number is zero. -/
def pairBytes : Bytes :=
  [0x0a, 0x01, 0x77,
   0x12, 0x05, 0x0a, 0x01, 0x61, 0x30, 0x03,
   0x12, 0x0b, 0x0a, 0x01, 0x62, 0x12, 0x01, 0x61, 0x12, 0x01, 0x61, 0x30, 0x03]

/-- The protobuf encoding of this specification, and of no other. -/
def SpecCodec.ofPair : SpecCodec where
  marshal wf := if wf = .pair .failFast 3 then pairBytes else []
  unmarshal bytes := if bytes = pairBytes then some (.pair .failFast 3) else none

/-- A submission, an assignment, a completion that is killed after two actions, and a
restart. -/
def interruptedCalls : List Call :=
  [.submitWorkflow .asListed (.pair .failFast 3), .getReadyTask "k",
   .completeTask "a" "x" "done", .restart]

/-- The file and the memory after `interruptedCalls`. -/
def interruptedWorld : DiskWorld :=
  let handle : Handler Action DiskWorld :=
    Action.handleDisk .counting .ofPair
  let v := ((Call.submitWorkflow .asListed (.pair .failFast 3)).prog.run handle {}).2
  let v := ((Call.getReadyTask "k").prog.run handle v).2
  let v := (Call.completeTask "a" "x" "done").prog.runFor handle 2 v
  (Call.restart.prog.run handle v).2

theorem diskRun_readsAs_crashRun_interrupted :
    ∃ w, CrashRun .counting interruptedCalls true w ∧
      interruptedWorld = w.onDisk .ofPair ∧
      interruptedWorld.disk.ReadsAs .ofPair w.store := by
  refine diskRun_readsAs_crashRun ?_ ?_ ?_
  · exact .recover (.cut (.completeTask "a" "x" "done") 2
      (.call (.getReadyTask "k") (.call (.submitWorkflow .asListed _) .start)))
  · simp only [interruptedCalls, List.forall_mem_cons, List.not_mem_nil, false_imp_iff,
      implies_true, and_true]
    exact ⟨⟨⟨rfl, by decide⟩, by decide, by decide, by decide⟩, trivial,
      (by decide : "done".utf8ByteSize ≤ maxText), trivial⟩
  · have huuids : interruptedWorld.uuids = 1 := by decide +kernel
    intro n hn
    obtain rfl : n = 0 := by omega
    decide

end DagScheduler
