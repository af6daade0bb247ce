import Maistr0.Taskmgr.Lifecycle

/-!
# Opening a task store

`recovery.go`: what `load` does to the tasks of a store, first all of them in memory, then back to the
store. The list of tasks is what `Store.Load` returned, in its order.
-/

namespace Maistr0.Taskmgr

open Go

structure LoadClock where
  attempt : Nat → Nat → Instant
  interrupted : Instant
  history : Instant

/-- How the second loop of `load` writes a task back. -/
inductive WriteBack where
  | unchanged
  | metadata
  | interrupted
deriving DecidableEq

structure Loaded where
  task : Task
  writeBack : WriteBack

namespace Task

def unstamped (t : Task) : Bool := t.origin = "" ∨ t.sequence = 0

def inProgress (t : Task) : Bool := t.status = .pending ∨ t.status = .running ∨ t.status = .synthesis

def attemptHistoryChanged (t : Task) : Bool :=
  t.subtasks.any fun r => r.attempts.any fun a => a.requestID = "" ∨ a.status = .running

def repairAttempt (taskID subtaskID : String) (now : Instant) (a : DispatchAttempt) : DispatchAttempt :=
  let a := if a.requestID = "" then { a with requestID := dispatchRequestID taskID subtaskID } else a
  if a.status = .running then
    { a with
      status := .failed
      failureClass := "orchestrator_restart"
      error := "orchestrator restarted before the attempt result was recorded"
      finishedAt := some now
      durationMs := max 0 (milliseconds (sub now a.startedAt)) }
  else a

def repairAttempts (t : Task) (now : Nat → Nat → Instant) : Task :=
  { t with
    subtasks := t.subtasks.mapIdx fun i r =>
      { r with attempts := r.attempts.mapIdx fun j a => repairAttempt t.id r.id (now i j) a } }

def interrupt (t : Task) (error : String) (now : Instant) : Task :=
  { t with
    status := .failed
    error
    resumable := true
    subtasks := t.subtasks.map fun r => if r.active then { r with status := .failed, error } else r
    updatedAt := now }

/-- The branches of `load` for a task that was not in progress. -/
def recover (t : Task) : Task :=
  if t.status = .awaitingApproval then { t with resumable := true }
  else if t.status = .cancelled ∨ t.status = .failed then
    if t.subtasks.any fun r => r.status = .completed then { t with resumable := true } else t
  else t

end Task

namespace Manager

/-- A stamp for a task that has none; otherwise the counter of its origin follows. -/
def loadStamp (m : Manager) (t : Task) : Task × Manager :=
  if t.unstamped then m.stampLocked t else (t, { m with syncSeq := m.syncSeq.raise t.origin t.sequence })

/-- One turn of the first loop. -/
def loadTask (m : Manager) (t : Task) (now : LoadClock) : Loaded × Manager :=
  let (t', m) := m.loadStamp t
  let t' := t'.repairAttempts now.attempt
  let (t', m) :=
    if t.inProgress then m.stampLocked (t'.interrupt interruptedTaskError now.interrupted)
    else if t.attemptHistoryChanged then m.stampLocked { t'.recover with updatedAt := now.history }
    else (t'.recover, m)
  let writeBack : WriteBack :=
    if t.inProgress then .interrupted
    else if t.unstamped || t.attemptHistoryChanged then .metadata
    else .unchanged
  ({ task := t', writeBack }, { m.put t' with seq := max m.seq (taskSequence t.id) })

def loadTasks (m : Manager) : List Task → (Nat → LoadClock) → Except Failure (List Loaded × Manager)
  | [], _ => .ok ([], m)
  | t :: rest, now =>
    if t.id = "" then .error { text := "taskmgr: stored task has no id" }
    else
      let (loaded, m) := m.loadTask t (now 0)
      (m.loadTasks rest fun i => now (i + 1)).map fun (tasks, m) => (loaded :: tasks, m)

/-- One turn of the second loop, with the store's answer. -/
def saveLoaded (m : Manager) (store : Tasks) (loaded : Loaded) (saved : Except String Unit) :
    Except Failure Unit × Manager :=
  match loaded.writeBack, saved with
  | .unchanged, _ => (.ok (), m)
  | .metadata, .error err => (.error { text := err }, m)
  | .metadata, .ok _ => (.ok (), { m with store := some (store.put loaded.task) })
  | .interrupted, saved =>
    -- the checkpoint is taken of the task itself, not of a copy
    let t := checkpointForTask loaded.task
    let m := m.put t
    match saved with
    | .error err => (.error { text := err }, m)
    | .ok _ => (.ok (), { m with store := some (store.put t) })

def saveAllLoaded (m : Manager) : List Loaded → (Nat → Except String Unit) → Except Failure Unit × Manager
  | [], _ => (.ok (), m)
  | loaded :: rest, saves =>
    match m.saveLoaded (m.store.getD ∅) loaded (saves 0) with
    | (.error err, m) => (.error err, m)
    | (.ok _, m) => m.saveAllLoaded rest fun i => saves (i + 1)

def load (m : Manager) (tasks : List Task) (now : Nat → LoadClock) (saves : Nat → Except String Unit) :
    Except Failure Unit × Manager :=
  match m.loadTasks tasks now with
  | .error err => (.error err, m)
  | .ok (loaded, m) => m.saveAllLoaded loaded saves

end Manager

/-- A manager before it has loaded anything; its number stands in for a missing origin. -/
def newManager (store : Option Tasks) (finalizer : Bool) (managerSyncID : Nat) : Manager :=
  { syncOrigin := "taskmgr-" ++ toString managerSyncID, finalizer, store }

def openManagerWithOrigin (store : Tasks) (tasks : List Task) (finalizer : Bool) (origin : String)
    (managerSyncID : Nat) (now : Nat → LoadClock) (saves : Nat → Except String Unit) : Except Failure Unit × Manager :=
  let m := newManager (some store) finalizer managerSyncID
  let m := if origin ≠ "" then { m with syncOrigin := origin } else m
  m.load tasks now saves

end Maistr0.Taskmgr
