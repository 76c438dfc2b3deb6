import DagScheduler.Model.Run

/-!
# Transactions that fail

`db.Update` returns an error when the disk does not take the write, and the
store is then as it was before.  `fails n` is the error of the `n`-th
transaction of a run, or `none` if the transaction goes through.  The world
counts its transactions in `ticks`, so a function of the count can pick any
subset of them.

`handleFaulty_none` says that a run in which nothing fails is a run of
`Action.handle`.
-/

namespace DagScheduler

open Lib

/-- Which transactions of a run fail, and with which error. -/
abbrev Faults := Nat → Option StoreError

variable (env : Env) (fails : Faults)

namespace World

/-- A `db.Update` that may fail. -/
def updateFaulty {α : Type} (op : StoreOp α) (w : World) :
    Except StoreError α × World :=
  match fails w.ticks with
  | some e => (.error e, { w with ticks := w.ticks + 1 })
  | none => w.update env op

/-- `GetReadyTask` whose `AssignTask` may fail.  The task has left the queue
and a UUID has been drawn when the error is seen. -/
def getReadyTaskFaulty (workerID : String) (w : World) :
    Option TaskAssignment × World :=
  match w.coord.readyQueue with
  | [] => (none, w)
  | taskID :: rest =>
    if taskID ∈ w.coord.taskSpecCache ∧ (fails w.ticks).isSome then
      (none,
        { w with
          coord := { w.coord with readyQueue := rest }
          ticks := w.ticks + 1
          uuids := w.uuids + 1 })
    else w.getReadyTask env workerID

end World

/-- The handler in which the transactions of `fails` fail. -/
def Action.handleFaulty : Handler Action World
  | _, .update op, w => w.updateFaulty env fails op
  | _, .view f, w => (f w.store, w)
  | _, .locked f, w =>
      ((f w.store w.coord).1, { w with coord := (f w.store w.coord).2 })
  | _, .newUUID, w => (env.uuid w.uuids, { w with uuids := w.uuids + 1 })
  | _, .getReadyTask workerID, w => w.getReadyTaskFaulty env fails workerID

/-- Without a fault the two handlers are the same. -/
theorem Action.handleFaulty_none {α : Type} (a : Action α) (w : World) :
    Action.handleFaulty env (fun _ => none) a w = Action.handle env a w := by
  cases a with
  | getReadyTask workerID =>
    show w.getReadyTaskFaulty env (fun _ => none) workerID = w.getReadyTask env workerID
    unfold World.getReadyTaskFaulty
    split
    · rename_i hq
      simp [World.getReadyTask, hq]
    · rw [if_neg (by simp)]
  | _ => rfl

/-- Execute a call to its end. -/
def Call.execFaulty (c : Call) (w : World) : World :=
  (c.prog.run (Action.handleFaulty env fails) w).2

/-- A run of calls, one at a time, from the state `w`. -/
def runFaulty (w : World) (calls : List Call) : World :=
  calls.foldl (fun w c => c.execFaulty env fails w) w

theorem runFaulty_append (w : World) (calls : List Call) (c : Call) :
    runFaulty env fails w (calls ++ [c])
      = c.execFaulty env fails (runFaulty env fails w calls) := by
  simp [runFaulty]

end DagScheduler
