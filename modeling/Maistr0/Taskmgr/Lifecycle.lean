import Maistr0.Taskmgr.Model

/-!
# The life of a task

`lifecycle.go`, `dispatch_attempts.go` and `ResumeTaskChecked`. A method looks its task up, checks its
guards, changes the task and persists it; what happens to the task itself is a function of the task,
named beside each method. A finalizer runs outside the lock: the methods that start one leave the task
synthesizing, and `finishSynthesis` is the step in which its answer arrives.
-/

namespace Maistr0.Taskmgr

open Go

def modifyFirst {α : Type} (p : α → Bool) (f : α → α) : List α → List α
  | [] => []
  | a :: rest => if p a then f a :: rest else a :: modifyFirst p f rest

def SubtaskResult.recordOutcome (output : String) (taskErr : Option String) (r : SubtaskResult) : SubtaskResult :=
  match taskErr with
  | some err => { r with status := .failed, error := err }
  | none => { r with status := .completed, output }

namespace Task

/-- The subtask that a method means by an ID: the first one that has it. -/
def subtask? (t : Task) (subtaskID : String) : Option SubtaskResult := t.subtasks.find? fun r => r.id = subtaskID

def modifySubtask (t : Task) (subtaskID : String) (f : SubtaskResult → SubtaskResult) : Task :=
  { t with subtasks := modifyFirst (fun r => r.id = subtaskID) f t.subtasks }

/-- The assignment that a winning attempt brings along, if it brings one. -/
def reassigned (t : Task) (subtaskID : String) (assignment : Option Assignment) : Task :=
  match assignment with
  | none => t
  | some assignment => t.modifySubtask subtaskID fun r => { r with assignment }

def cancel (t : Task) (now : Instant) : Task :=
  { t with
    status := .cancelled
    error := "task cancelled"
    subtasks := t.subtasks.map fun r =>
      if r.active then { r with status := .cancelled, error := "task cancelled" } else r
    resumable := t.subtasks.any fun r => r.status = .completed
    updatedAt := now }

/-- The end of `completeSubtaskLocked`: the task's own status once a subtask has come to an end, and
whether a finalizer is to take over. -/
def rollUp (t : Task) (finalizer : Bool) : Bool × Task :=
  if t.subtasks.any SubtaskResult.active then (false, { t with resumable := true })
  else
    let t := { t with result := aggregateOutputs t.subtasks }
    if t.subtasks.any fun r => r.status = .failed then
      (false, { t with status := .failed, error := "one or more subtasks failed", resumable := true })
    else if t.requireApproval then (false, { t with status := .awaitingApproval, resumable := true })
    else if finalizer then (true, { t with status := .synthesis, resumable := true })
    else (false, { t with status := .completed, resumable := false })

def recordOutcome (t : Task) (subtaskID output : String) (taskErr : Option String) : Task :=
  t.modifySubtask subtaskID (SubtaskResult.recordOutcome output taskErr)

def synthesized (t : Task) (outcome : Except String String) (now : Instant) : Task :=
  let t :=
    match outcome with
    | .error err => { t with status := .failed, error := "result synthesis failed: " ++ err, resumable := true }
    | .ok result =>
      if trimSpace result = "" then
        { t with
          status := .failed, error := "result synthesis failed: model returned an empty result", resumable := true }
      else { t with result := trimSpace result, status := .completed, resumable := false }
  { t with updatedAt := now }

def resume (t : Task) (now : Instant) : Task :=
  { t with
    status := .running
    error := ""
    updatedAt := now
    subtasks := t.subtasks.map fun r =>
      if r.status ≠ .completed then { r with status := .pending, error := "" } else r }

end Task

/-- Whether a finalizer goes to work once the method returns, and what the store said. -/
structure Completion where
  finalize : Bool
  persistErr : Except Failure Unit

namespace Manager

def taskNotFound (taskID : String) : Failure := { text := "taskmgr: task " ++ taskID ++ " not found" }

def subtaskNotFound (taskID subtaskID : String) : Failure :=
  { text := "taskmgr: subtask " ++ subtaskID ++ " in task " ++ taskID ++ " not found" }

def setFinalizer (m : Manager) (finalizer : Bool) : Manager := { m with finalizer }

def createWithGraphAndOptionsChecked (m : Manager) (description : String) (assignments : List Assignment)
    (requireApproval : Bool) (now : Clocks) (saved : Except String Unit) : Except Failure Task × Manager :=
  let m := { m with seq := m.seq + 1 }
  let t : Task :=
    { id := genID m.seq
      description
      status := .running
      subtasks := assignments.map fun a => { assignment := a, status := .pending }
      resumable := true
      requireApproval
      createdAt := now 0
      updatedAt := now 1 }
  let t :=
    if assignments = [] then
      { t with status := .failed, error := "task has no assigned subtasks", resumable := false }
    else t
  match m.persistTaskAndCheckpointLocked t saved with
  | (.error err, _, m) => (.error err, m)
  | (.ok _, t, m) => (.ok (cloneTask t), m.put t)

def cancelAndSnapshotChecked (m : Manager) (id : String) (now : Instant) (saved : Except String Unit) :
    (Option Task × Bool × Except Failure Unit) × Manager :=
  match m.tasks.get? id with
  | none => ((none, false, .ok ()), m)
  | some t =>
    if t.status = .completed ∨ t.status = .failed ∨ t.status = .cancelled then ((none, false, .ok ()), m)
    else
      let (result, t, m) := m.persistTaskAndCheckpointLocked (t.cancel now) saved
      ((some (cloneTask t), true, result), m.put t)

def startSubtaskChecked (m : Manager) (taskID subtaskID : String) (now : Instant) (saved : Except String Unit) :
    Except Failure Unit × Manager :=
  match m.tasks.get? taskID with
  | none => (.error (subtaskNotFound taskID subtaskID), m)
  | some t =>
    if t.status = .cancelled then (.ok (), m)
    else
      match t.subtask? subtaskID with
      | none => (.error (subtaskNotFound taskID subtaskID), m)
      | some r =>
        if !r.active then
          (.error
            { text := "taskmgr: subtask " ++ subtaskID ++ " in task " ++ taskID ++ " is " ++ r.status.text ++
                ": subtask has already finished"
              cause := some .subtaskFinished }, m)
        else
          let t := t.modifySubtask subtaskID fun r => { r with status := .running }
          let (result, t, m) := m.persistLocked { t with updatedAt := now } saved
          (result, m.put t)

def reassignSubtaskChecked (m : Manager) (taskID subtaskID : String) (assignment : Assignment) (now : Instant)
    (saved : Except String Unit) : Except Failure Unit × Manager :=
  match m.tasks.get? taskID with
  | none => (.error (taskNotFound taskID), m)
  | some t =>
    match t.subtask? subtaskID with
    | none => (.error (subtaskNotFound taskID subtaskID), m)
    | some r =>
      if !r.active then
        (.error { text := "taskmgr: subtask " ++ subtaskID ++ " in task " ++ taskID ++ " is not pending or running" }, m)
      else
        let t := t.modifySubtask subtaskID fun r => { r with assignment }
        let (result, t, m) := m.persistLocked { t with updatedAt := now } saved
        (result, m.put t)

def subtaskFinished (t : Task) (subtaskID : String) : Bool := (t.subtask? subtaskID).any fun r => !r.active

def completeSubtaskLocked (m : Manager) (t : Task) (subtaskID output : String) (taskErr : Option String)
    (now : Instant) (saved : Except String Unit) : Except Failure Completion × Manager :=
  match t.subtask? subtaskID with
  | none => (.error (subtaskNotFound t.id subtaskID), m)
  | some _ =>
    let (finalize, t) := (t.recordOutcome subtaskID output taskErr).rollUp m.finalizer
    let (persistErr, t, m) := m.persistTaskAndCheckpointLocked { t with updatedAt := now } saved
    (.ok { finalize, persistErr }, m.put t)

/-- The locked half; a finalizer goes to work if the completion says so and the store took the task. -/
def completeSubtaskChecked (m : Manager) (taskID subtaskID output : String) (taskErr : Option String) (now : Instant)
    (saved : Except String Unit) : Except Failure Completion × Manager :=
  match m.tasks.get? taskID with
  | none => (.error (taskNotFound taskID), m)
  | some t =>
    if t.status = .cancelled ∨ subtaskFinished t subtaskID then (.ok { finalize := false, persistErr := .ok () }, m)
    else m.completeSubtaskLocked t subtaskID output taskErr now saved

def approveChecked (m : Manager) (taskID : String) (now : Instant) (saved : Except String Unit) :
    Except Failure Completion × Manager :=
  match m.tasks.get? taskID with
  | none => (.error (taskNotFound taskID), m)
  | some t =>
    if t.status ≠ .awaitingApproval then
      (.error
        { text := "taskmgr: task " ++ taskID ++ ": task is not awaiting approval"
          cause := some .notAwaitingApproval }, m)
    else if !m.finalizer then
      let (persistErr, t, m) := m.persistTaskAndCheckpointLocked
        { t with status := .completed, resumable := false, updatedAt := now } saved
      (.ok { finalize := false, persistErr }, m.put t)
    else
      let (persistErr, t, m) := m.persistTaskAndCheckpointLocked { t with status := .synthesis, updatedAt := now } saved
      (.ok { finalize := true, persistErr }, m.put t)

/-- `finishSynthesis` after the finalizer has returned. -/
def finishSynthesis (m : Manager) (taskID : String) (outcome : Except String String) (now : Instant)
    (saved : Except String Unit) : Except Failure Unit × Manager :=
  match m.tasks.get? taskID with
  | none => (.ok (), m)
  | some t =>
    if t.status ≠ .synthesis then (.ok (), m)
    else
      let (result, t, m) := m.persistTaskAndCheckpointLocked (t.synthesized outcome now) saved
      (result, m.put t)

def resumeTaskChecked (m : Manager) (taskID : String) (now : Instant) (saved : Except String Unit) :
    Except Failure Task × Manager :=
  match m.tasks.get? taskID with
  | none => (.error (taskNotFound taskID), m)
  | some t =>
    if t.status = .completed then
      (.error
        { text := "taskmgr: task " ++ taskID ++ " is already completed: task is not resumable"
          cause := some .notResumable }, m)
    else if !t.resumable then
      (.error
        { text := "taskmgr: task " ++ taskID ++ " is not marked resumable: task is not resumable"
          cause := some .notResumable }, m)
    else if t.status ≠ .failed ∧ t.status ≠ .cancelled then
      (.error
        { text := "taskmgr: task " ++ taskID ++ " is " ++ t.status.text ++ ": task is not resumable"
          cause := some .notResumable }, m)
    else
      let (result, t, m) := m.persistTaskAndCheckpointLocked (t.resume now) saved
      (result.map fun _ => cloneTask t, m.put t)

/-! ### Dispatch attempts -/

def beginDispatchAttemptChecked (m : Manager) (taskID subtaskID : String) (assignment : Assignment) (now : Instant)
    (saved : Except String Unit) : Except Failure Int × Manager :=
  match m.tasks.get? taskID with
  | none => (.error (taskNotFound taskID), m)
  | some t =>
    match t.subtask? subtaskID with
    | none => (.error (subtaskNotFound taskID subtaskID), m)
    | some r =>
      if r.status ≠ .running then
        (.error { text := "taskmgr: subtask " ++ subtaskID ++ " in task " ++ taskID ++ " is not running" }, m)
      else
        let number : Int := r.attempts.length + 1
        let attempt : DispatchAttempt :=
          { id := dispatchAttemptID taskID subtaskID number
            requestID := dispatchRequestID taskID subtaskID
            number
            nodeID := assignment.nodeID
            model := assignment.model
            engine := assignment.engine
            status := .running
            startedAt := now }
        let t := t.modifySubtask subtaskID fun r => { r with attempts := r.attempts ++ [attempt] }
        let (result, t, m) := m.persistLocked { t with updatedAt := now } saved
        (result.map fun _ => number, m.put t)

def attempt? (r : SubtaskResult) (number : Int) : Option DispatchAttempt := r.attempts.find? fun a => a.number = number

def modifyAttempt (t : Task) (subtaskID : String) (number : Int) (f : DispatchAttempt → DispatchAttempt)
    (now : Instant) : Task :=
  { t.modifySubtask subtaskID fun r => { r with attempts := modifyFirst (fun a => a.number = number) f r.attempts } with
    updatedAt := now }

def attemptNotFound (subtaskID : String) (number : Int) : Failure :=
  { text := "taskmgr: dispatch attempt " ++ toString number ++ " for subtask " ++ subtaskID ++ " not found" }

def attemptFinished (subtaskID : String) (number : Int) : Failure :=
  { text := "taskmgr: dispatch attempt " ++ toString number ++ " for subtask " ++ subtaskID ++ " is already finished" }

def finishDispatchAttemptChecked (m : Manager) (taskID subtaskID : String) (number : Int)
    (status : DispatchAttemptStatus) (failureClass : String) (httpStatus : Int) (attemptErr : Option String)
    (duration : Duration) (now : Instant) (saved : Except String Unit) : Except Failure Unit × Manager :=
  if status ≠ .succeeded ∧ status ≠ .failed then
    (.error { text := "taskmgr: invalid dispatch attempt status \"" ++ status.text ++ "\"" }, m)
  else
    match m.tasks.get? taskID with
    | none => (.error (taskNotFound taskID), m)
    | some t =>
      match t.subtask? subtaskID with
      | none => (.error (subtaskNotFound taskID subtaskID), m)
      | some r =>
        match attempt? r number with
        | none => (.error (attemptNotFound subtaskID number), m)
        | some a =>
          if a.status ≠ .running then (.error (attemptFinished subtaskID number), m)
          else
            let finish (a : DispatchAttempt) : DispatchAttempt :=
              { a with
                status, failureClass, httpStatus
                error := attemptErr.getD a.error
                finishedAt := some now
                durationMs := milliseconds duration }
            let (result, t, m) := m.persistLocked (modifyAttempt t subtaskID number finish now) saved
            (result, m.put t)

/-- The first result says whether this attempt won the subtask. -/
def completeDispatchAttemptWithAssignmentChecked (m : Manager) (taskID subtaskID : String) (number : Int)
    (assignment : Option Assignment) (failureClass : String) (httpStatus : Int) (duration : Duration)
    (output : String) (now : Clocks) (saved : Except String Unit) : (Bool × Except Failure Completion) × Manager :=
  match m.tasks.get? taskID with
  | none => ((false, .error (taskNotFound taskID)), m)
  | some t =>
    match t.subtask? subtaskID with
    | none => ((false, .error (subtaskNotFound taskID subtaskID)), m)
    | some r =>
      match attempt? r number with
      | none => ((false, .error (attemptNotFound subtaskID number)), m)
      | some a =>
        if a.status ≠ .running then ((false, .error (attemptFinished subtaskID number)), m)
        else
          let finish (a : DispatchAttempt) : DispatchAttempt :=
            { a with
              status := .succeeded, failureClass, httpStatus
              finishedAt := some (now 0)
              durationMs := milliseconds duration }
          let t := modifyAttempt t subtaskID number finish (now 0)
          if t.status = .cancelled ∨ r.status ≠ .running then
            let (result, t, m) := m.persistLocked t saved
            ((false, result.map fun _ => { finalize := false, persistErr := .ok () }), m.put t)
          else
            let t := t.reassigned subtaskID assignment
            match m.completeSubtaskLocked t subtaskID output none (now 1) saved with
            | (.error err, m) => ((false, .error err), m.put t)
            | (.ok completion, m) => ((true, .ok completion), m)

end Manager

end Maistr0.Taskmgr
