import Maistr0.Go
import Maistr0.Lib.Clock

/-!
# Tasks and the manager that holds them

`model.go`, and the persistence half of `lifecycle.go` and `checkpoint.go`. A manager maps IDs to
tasks; a task is split into subtasks, each with the assignment it was given, its outcome and its
dispatch attempts. Of a store only the task bucket is modelled: checkpoints are written beside the
task and read back by nothing here. What the store answers to a write is an argument, and a write it
refuses leaves it as it was, while the task in memory keeps its changes.

Contexts, channels and locks are left out: every method runs under the task's lock and is one step.
-/

namespace Maistr0.Taskmgr

open Go

inductive Status where
  | pending
  | running
  | synthesis
  | awaitingApproval
  | completed
  | failed
  | cancelled
  | unknown (text : String)
deriving DecidableEq

def Status.text : Status → String
  | pending => "pending"
  | running => "running"
  | synthesis => "synthesizing"
  | awaitingApproval => "awaiting_approval"
  | completed => "completed"
  | failed => "failed"
  | cancelled => "cancelled"
  | unknown text => text

def Status.active : Status → Bool
  | pending | running => true
  | _ => false

def interruptedTaskError : String := "orchestrator restarted before the task completed"

def coordinatorChangedTaskError : String := "coordinator changed before the task completed"

structure Subtask where
  id : String
  description : String := ""
  dependsOn : List String := []
deriving DecidableEq

structure Assignment where
  subtask : Subtask
  nodeID : String := ""
  model : String := ""
  engine : String := ""
deriving DecidableEq

inductive DispatchAttemptStatus where
  | running
  | succeeded
  | failed
  | unknown (text : String)
deriving DecidableEq

def DispatchAttemptStatus.text : DispatchAttemptStatus → String
  | running => "running"
  | succeeded => "succeeded"
  | failed => "failed"
  | unknown text => text

structure DispatchAttempt where
  id : String
  requestID : String := ""
  number : Int
  nodeID : String := ""
  model : String := ""
  engine : String := ""
  status : DispatchAttemptStatus
  failureClass : String := ""
  httpStatus : Int := 0
  error : String := ""
  startedAt : Time := 0
  finishedAt : Option Time := none
  durationMs : Int := 0
deriving DecidableEq

structure SubtaskResult where
  assignment : Assignment
  status : Status
  output : String := ""
  error : String := ""
  attempts : List DispatchAttempt := []
deriving DecidableEq

abbrev SubtaskResult.id (r : SubtaskResult) : String := r.assignment.subtask.id

abbrev SubtaskResult.active (r : SubtaskResult) : Bool := r.status.active

structure Task where
  id : String
  origin : String := ""
  sequence : Nat := 0
  description : String := ""
  status : Status
  subtasks : List SubtaskResult := []
  resumable : Bool := false
  lastCheckpoint : String := ""
  requireApproval : Bool := false
  result : String := ""
  error : String := ""
  createdAt : Time := 0
  updatedAt : Time := 0
deriving DecidableEq

abbrev Tasks := Lib.Keyed Task.id

structure Manager where
  tasks : Tasks := ∅
  seq : Int := 0
  syncOrigin : String
  syncSeq : Lib.Clock String := ∅
  finalizer : Bool := false
  store : Option Tasks := none
  /-- History: every stamp handed out, newest first. No method reads it. -/
  issued : List (String × Nat) := []

/-- The errors that callers tell apart with `errors.Is`. -/
inductive Cause where
  | notAwaitingApproval
  | notResumable
  | subtaskFinished
deriving DecidableEq

structure Failure where
  text : String
  cause : Option Cause := none
deriving DecidableEq

/-! ### Identifiers -/

def letter (n : Nat) : Char := "0123456789abcdefghijklmnopqrstuvwxyz".toList.getD n '0'

def genID (seq : Int) : String :=
  if seq = 0 then "task-0" else "task-" ++ String.ofList ((Nat.digits 36 seq.toNat).reverse.map letter)

def digit (c : Char) : Option Nat :=
  if '0' ≤ c ∧ c ≤ '9' then some (c.toNat - '0'.toNat)
  else if 'a' ≤ c ∧ c ≤ 'z' then some (c.toNat - 'a'.toNat + 10)
  else if 'A' ≤ c ∧ c ≤ 'Z' then some (c.toNat - 'A'.toNat + 10)
  else none

def parseInt (s : List Char) : Option Int := do
  let (negative, digits) := match s with
    | '-' :: rest => (true, rest)
    | '+' :: rest => (false, rest)
    | _ => (false, s)
  if digits = [] then none
  else
    let values ← digits.mapM digit
    let value : Nat := values.foldl (fun acc d => acc * 36 + d) 0
    if negative then if value ≤ 2 ^ 31 then some (-(value : Int)) else none
    else if value < 2 ^ 31 then some value else none

def taskSequence (id : String) : Int :=
  if hasPrefix id "task-" then (parseInt (id.toList.drop 5)).getD 0 else 0

def dispatchAttemptID (taskID subtaskID : String) (number : Int) : String :=
  taskID ++ ":" ++ subtaskID ++ ":" ++ toString number

def dispatchRequestID (taskID subtaskID : String) : String := taskID ++ ":" ++ subtaskID

/-! ### Copies and checkpoints -/

/-- A copy also names the request of attempts that do not. -/
def cloneTask (t : Task) : Task :=
  { t with
    subtasks := t.subtasks.map fun r =>
      { r with
        attempts := r.attempts.map fun a =>
          if a.requestID = "" then { a with requestID := dispatchRequestID t.id r.id } else a } }

def aggregateOutputs (subtasks : List SubtaskResult) : String :=
  "\n\n".intercalate <| subtasks.filterMap fun r =>
    if r.status ≠ .completed ∨ trimSpace r.output = "" then none
    else some ("## " ++ r.assignment.subtask.description ++ "\n" ++ trimSpace r.output)

def collectOutputs (t : Task) : Lib.Keyed (Prod.fst : String × String → String) :=
  t.subtasks.foldl (fun outputs r =>
    if r.status = .completed ∧ r.output ≠ "" then outputs.put (r.id, r.output) else outputs) ∅

def checkpointForTask (t : Task) : Task :=
  { t with
    lastCheckpoint := "cp-" ++ t.id ++ "-" ++ toString (collectOutputs t).vals.length
    resumable := t.status ≠ .completed }

namespace Manager

def put (m : Manager) (t : Task) : Manager := { m with tasks := m.tasks.put t }

def nextSyncSequenceLocked (m : Manager) (origin : String) : Nat × Manager :=
  let sequence := incr (m.syncSeq.get origin)
  (sequence, { m with syncSeq := m.syncSeq.set origin sequence, issued := (origin, sequence) :: m.issued })

def stampLocked (m : Manager) (t : Task) : Task × Manager :=
  let (sequence, m) := m.nextSyncSequenceLocked m.syncOrigin
  ({ t with origin := m.syncOrigin, sequence }, m)

def saveTaskAndCheckpointLocked (m : Manager) (t : Task) (saved : Except String Unit) :
    Except Failure Unit × Task × Manager :=
  match m.store with
  | none => (.ok (), t, m)
  | some store =>
    let snapshot := checkpointForTask (cloneTask t)
    match saved with
    | .error err => (.error { text := "taskmgr: persist task and checkpoint " ++ t.id ++ ": " ++ err }, t, m)
    | .ok _ =>
      (.ok (), { t with lastCheckpoint := snapshot.lastCheckpoint, resumable := snapshot.resumable },
        { m with store := some (store.put snapshot) })

def persistTaskAndCheckpointLocked (m : Manager) (t : Task) (saved : Except String Unit) :
    Except Failure Unit × Task × Manager :=
  let (t, m) := m.stampLocked t
  m.saveTaskAndCheckpointLocked t saved

def persistLocked (m : Manager) (t : Task) (saved : Except String Unit) : Except Failure Unit × Task × Manager :=
  let (t, m) := m.stampLocked t
  match m.store with
  | none => (.ok (), t, m)
  | some store =>
    match saved with
    | .error err => (.error { text := "taskmgr: persist task " ++ t.id ++ ": " ++ err }, t, m)
    | .ok _ => (.ok (), t, { m with store := some (store.put (cloneTask t)) })

end Manager

end Maistr0.Taskmgr
