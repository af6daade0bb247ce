import Maistr0.Taskmgr.Recovery

/-!
# Task history from peers

`sync.go`. A batch of tasks is merged or taken over in one step: which versions win against the tasks
at hand is decided first, for the whole batch and on the tasks as they arrived, and the batch is then
worked off task by task until a save fails.
-/

namespace Maistr0.Taskmgr

open Go

def isInterruptedTask (t : Task) : Bool := t.error = interruptedTaskError ∨ t.error = coordinatorChangedTaskError

def completedSubtaskCount (t : Task) : Nat := (t.subtasks.filter fun r => r.status = .completed).length

def taskStatusRank : Status → Nat
  | .completed => 6
  | .awaitingApproval => 5
  | .synthesis => 4
  | .failed | .cancelled => 3
  | .running => 2
  | .pending => 1
  | .unknown _ => 0

def replicaOutranks (current incoming : Task) : Bool :=
  if isInterruptedTask incoming then false
  else if isInterruptedTask current then
    if incoming.origin ≠ "" ∧ incoming.origin = current.origin ∧ incoming.sequence < current.sequence then false
    else if incoming.status = .completed ∨ incoming.status = .awaitingApproval ∨ incoming.status = .cancelled ∨
        incoming.status = .failed then true
    else completedSubtaskCount incoming > completedSubtaskCount current
  else if incoming.origin ≠ "" ∧ incoming.origin = current.origin ∧ incoming.sequence ≠ current.sequence then
    incoming.sequence > current.sequence
  else if incoming.updatedAt > current.updatedAt then true
  else if incoming.updatedAt = current.updatedAt then
    completedSubtaskCount incoming > completedSubtaskCount current ∨
      taskStatusRank incoming.status > taskStatusRank current.status
  else false

def interruptOrphanedTask (t : Task) (now : Instant) : Task :=
  if t.inProgress then t.interrupt coordinatorChangedTaskError now else t

/-- Which tasks of a batch win, one after the other. The clock reading of an orphan stays in the merged
copy, so it is one of the inputs. -/
def mergeReplicaTaskSlices (merged : Tasks) : List Task → Clocks → List Bool
  | [], _ => []
  | t :: rest, now =>
    let later (merged : Tasks) := mergeReplicaTaskSlices merged rest fun i => now (i + 1)
    if t.id = "" then false :: later merged
    else
      match merged.get? t.id with
      | some existing => if replicaOutranks existing t then true :: later (merged.put (cloneTask t)) else false :: later merged
      | none => true :: later (merged.put (interruptOrphanedTask (cloneTask t) (now 0)))

structure SyncMode where
  replace : Bool
  mergeReplicas : Bool
  sourceOrigin : String

def SyncMode.origin (mode : SyncMode) : String := if mode.sourceOrigin = "" then "task:legacy" else mode.sourceOrigin

namespace Manager

def stampIncoming (m : Manager) (incoming : Task) (source : String) : Task × Manager :=
  if incoming.unstamped then
    let (sequence, m) := m.nextSyncSequenceLocked source
    ({ incoming with origin := source, sequence }, m)
  else (incoming, { m with syncSeq := m.syncSeq.raise incoming.origin incoming.sequence })

def passedOver (mode : SyncMode) (accepted : Bool) (current : Option Task) (incoming : Task) : Bool :=
  match current with
  | none => false
  | some current =>
    if mode.replace then
      (incoming.origin ≠ "" ∧ incoming.origin = current.origin ∧ incoming.sequence < current.sequence) ∨ current = incoming
    else !mode.mergeReplicas || !accepted

/-- Adopt an incoming task. One that arrives in progress and is not known here has lost its coordinator:
it is interrupted and stamped anew. -/
def adopt (m : Manager) (mode : SyncMode) (incoming : Task) (now : Instant) (saved : Except String Unit) :
    Except Failure Unit × Manager :=
  let t := cloneTask incoming
  let missing := mode.mergeReplicas && (m.tasks.get? incoming.id).isNone
  let (t, m) :=
    if missing && t.inProgress then m.stampLocked (interruptOrphanedTask t now)
    else (t, m)
  match m.saveTaskAndCheckpointLocked t saved with
  | (.error err, _, m) => (.error err, m)
  | (.ok _, t, m) => (.ok (), { m.put t with seq := max m.seq (taskSequence t.id) })

/-- One turn of the loop over the batch. -/
def syncTask (m : Manager) (mode : SyncMode) (incoming : Task) (accepted : Bool) (now : Instant)
    (saved : Except String Unit) : Except Failure Unit × Manager :=
  if incoming.id = "" then (.error { text := "taskmgr: synchronized task has no id" }, m)
  else
    let (incoming, m) := m.stampIncoming incoming mode.origin
    if passedOver mode accepted (m.tasks.get? incoming.id) incoming then (.ok (), m)
    else m.adopt mode incoming now saved

def syncTasksFrom (m : Manager) (mode : SyncMode) :
    List (Task × Bool) → Clocks → (Nat → Except String Unit) → Except Failure Unit × Manager
  | [], _, _ => (.ok (), m)
  | (incoming, accepted) :: rest, now, saves =>
    match m.syncTask mode incoming accepted (now 0) (saves 0) with
    | (.error err, m) => (.error err, m)
    | (.ok _, m) => m.syncTasksFrom mode rest (fun i => now (i + 1)) fun i => saves (i + 1)

/-- `deciding` holds the clock readings of the decision, `now` those of the loop. -/
def syncTasks (m : Manager) (tasks : List Task) (mode : SyncMode) (deciding now : Clocks)
    (saves : Nat → Except String Unit) : Except Failure Unit × Manager :=
  let replicaAccepted :=
    if mode.mergeReplicas then mergeReplicaTaskSlices m.tasks tasks deciding else tasks.map fun _ => false
  m.syncTasksFrom mode (tasks.zip replicaAccepted) now saves

def mergeMissingFrom (m : Manager) (tasks : List Task) (sourceOrigin : String) :=
  m.syncTasks tasks { replace := false, mergeReplicas := false, sourceOrigin }

def mergeFromReplicaFrom (m : Manager) (tasks : List Task) (sourceOrigin : String) :=
  m.syncTasks tasks { replace := false, mergeReplicas := true, sourceOrigin }

def replaceFromSyncFrom (m : Manager) (tasks : List Task) (sourceOrigin : String) :=
  m.syncTasks tasks { replace := true, mergeReplicas := false, sourceOrigin }

end Manager

end Maistr0.Taskmgr
