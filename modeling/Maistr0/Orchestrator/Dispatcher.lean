import Maistr0.Orchestrator.Breaker
import Maistr0.Orchestrator.CapacityGate
import Maistr0.Taskmgr.Effects

/-!
# Dispatching a subtask

`dispatchWithContext` with `executeCandidateWithHedge` and `runCandidateSeries`, one stage for each place
where the code calls the manager, waits, or asks somebody else. What the scheduler, the registry, the
capacity gate and the worker answer is free in every step; what the manager answers is computed. Between
two stages anybody else may call the manager, and the context of the dispatch may end.

The pairs that were tried are told to the scheduler, whose choice is free here, so only the check before
the loop reads them. Metrics, logs, delays and the reservations themselves are left out.
-/

namespace Maistr0.Taskmgr

namespace Task

/-- What `WaitForDependencies` finds for a prerequisite: the last subtask of that ID counts. -/
def dependencyStatus (t : Task) (dependency : String) : Status :=
  ((t.subtasks.filter fun r => r.id = dependency).getLast?.map SubtaskResult.status).getD .pending

end Task

namespace Manager

/-- One look of `WaitForDependencies` at the task; `none` means it goes on waiting. -/
def waitForDependencies (m : Manager) (taskID subtaskID : String) : Option Bool :=
  match m.tasks.get? taskID with
  | none => some false
  | some t =>
    if t.status = .cancelled then some false
    else
      match t.subtask? subtaskID with
      | none => some false
      | some r =>
        let required := r.assignment.subtask.dependsOn.map t.dependencyStatus
        if required.any fun s => s = .failed ∨ s = .cancelled then some false
        else if required.all fun s => s = .completed then some true
        else none

def inputForSubtask (m : Manager) (taskID subtaskID : String) : Bool :=
  match m.tasks.get? taskID with
  | none => false
  | some t =>
    match t.subtask? subtaskID with
    | none => false
    | some r =>
      r.assignment.subtask.dependsOn.all fun dependency =>
        (t.subtasks.any fun r => r.id = dependency) &&
          t.subtasks.all fun r => r.id ≠ dependency || r.status = .completed

def attempts (m : Manager) (taskID subtaskID : String) : List DispatchAttempt :=
  (((m.tasks.get? taskID).bind fun t => t.subtask? subtaskID).map SubtaskResult.attempts).getD []

end Manager

end Maistr0.Taskmgr

namespace Maistr0.Orchestrator

open Go Taskmgr

/-- A `scheduler.Assignment` as the dispatcher reads it. -/
structure Candidate where
  assignment : Assignment
  address : String := ""
  maxRetries : Int := 0
deriving DecidableEq

namespace Candidate

def subtaskID (c : Candidate) : String := c.assignment.subtask.id

def target (c : Candidate) : CapacityTarget := { nodeID := c.assignment.nodeID, address := c.address }

end Candidate

def maxDispatchAttempts : Nat := 5

structure DispatchRetryPolicy where
  maxAttempts : Nat

def defaultDispatchRetryPolicy : DispatchRetryPolicy := { maxAttempts := maxDispatchAttempts }

/-- `ctxErr` is what `dispatchContextFailure` makes of the context, if it has ended. -/
def DispatchRetryPolicy.canRetry (p : DispatchRetryPolicy) (retryable : Bool) (attemptsCompleted : Nat)
    (ctxErr : Option String) : Bool :=
  retryable && attemptsCompleted < p.maxAttempts && ctxErr.isNone

/-! ### One candidate -/

structure CandidateDispatchResult where
  err : Option String
  retryable : Bool
  won : Bool

/-- What a worker made of a request, after validation: an output, or an error and whether another worker
may be tried. -/
structure CallOutcome where
  result : Except (String × Bool) String
  failureClass : String
  httpStatus : Int
  duration : Duration

/-- Where `runCandidateSeries` is, with the validation attempt and the `won` of its result so far. -/
inductive SeriesStage where
  | beginning (validationAttempt : Nat) (won : Bool)
  | calling (validationAttempt : Nat) (won : Bool) (number : Int)
  | recording (validationAttempt : Nat) (won : Bool) (number : Int) (outcome : CallOutcome)
  | finished (result : CandidateDispatchResult)

structure Series where
  candidate : Candidate
  stage : SeriesStage

namespace Series

def start (candidate : Candidate) : Series := { candidate, stage := .beginning 0 false }

/-- The end of one round; `cancelled` says that the context of the series has ended. -/
def next (s : Series) (validationAttempt : Nat) (cancelled : Bool) (result : CandidateDispatchResult) : Series :=
  if result.err.isNone || result.retryable || s.candidate.maxRetries ≤ validationAttempt || cancelled then
    { s with stage := .finished result }
  else { s with stage := .beginning (validationAttempt + 1) result.won }

end Series

def persistError : Except Failure Completion → Option String
  | .error failure => some failure.text
  | .ok completion =>
    match completion.persistErr with
    | .error failure => some failure.text
    | .ok _ => none

def persistFailure (text : String) : String := "persist dispatch attempt: " ++ text

inductive SeriesStep (taskID : String) (m : Manager) (s : Series) : Manager → Series → Prop
  | begin (validationAttempt : Nat) (won : Bool) (number : Int) (now : Instant)
      (hstage : s.stage = .beginning validationAttempt won)
      (h : (m.beginDispatchAttemptChecked taskID s.candidate.subtaskID s.candidate.assignment now (.ok ())).1 = .ok number) :
      SeriesStep taskID m s
        (m.beginDispatchAttemptChecked taskID s.candidate.subtaskID s.candidate.assignment now (.ok ())).2
        { s with stage := .calling validationAttempt won number }
  | refused (validationAttempt : Nat) (won : Bool) (failure : Failure) (now : Instant)
      (hstage : s.stage = .beginning validationAttempt won)
      (h : (m.beginDispatchAttemptChecked taskID s.candidate.subtaskID s.candidate.assignment now (.ok ())).1 = .error failure) :
      SeriesStep taskID m s
        (m.beginDispatchAttemptChecked taskID s.candidate.subtaskID s.candidate.assignment now (.ok ())).2
        { s with stage := .finished { err := some failure.text, retryable := false, won } }
  | called (validationAttempt : Nat) (won : Bool) (number : Int) (outcome : CallOutcome)
      (hstage : s.stage = .calling validationAttempt won number) :
      SeriesStep taskID m s m { s with stage := .recording validationAttempt won number outcome }
  | completed (validationAttempt : Nat) (won : Bool) (number : Int) (outcome : CallOutcome) (output : String)
      (now : Clocks) (cancelled : Bool) (answer : (Bool × Except Failure Completion) × Manager)
      (hstage : s.stage = .recording validationAttempt won number outcome) (hresult : outcome.result = .ok output)
      (h : m.completeDispatchAttemptWithAssignmentChecked taskID s.candidate.subtaskID number (some s.candidate.assignment)
        "none" outcome.httpStatus outcome.duration output now (.ok ()) = answer) :
      SeriesStep taskID m s answer.2 (s.next validationAttempt cancelled
          { err := (persistError answer.1.2).map persistFailure, retryable := false, won := answer.1.1 })
  | failed (validationAttempt : Nat) (won : Bool) (number : Int) (outcome : CallOutcome) (err : String)
      (retryable : Bool) (now : Instant) (cancelled : Bool)
      (hstage : s.stage = .recording validationAttempt won number outcome)
      (hresult : outcome.result = .error (err, retryable))
      (h : (m.finishDispatchAttemptChecked taskID s.candidate.subtaskID number .failed outcome.failureClass
        outcome.httpStatus (some err) outcome.duration now (.ok ())).1 = .ok ()) :
      SeriesStep taskID m s
        (m.finishDispatchAttemptChecked taskID s.candidate.subtaskID number .failed outcome.failureClass
          outcome.httpStatus (some err) outcome.duration now (.ok ())).2
        (s.next validationAttempt cancelled { err := some err, retryable, won })
  | unrecorded (validationAttempt : Nat) (won : Bool) (number : Int) (outcome : CallOutcome) (err : String)
      (retryable : Bool) (failure : Failure) (now : Instant) (cancelled : Bool)
      (hstage : s.stage = .recording validationAttempt won number outcome)
      (hresult : outcome.result = .error (err, retryable))
      (h : (m.finishDispatchAttemptChecked taskID s.candidate.subtaskID number .failed outcome.failureClass
        outcome.httpStatus (some err) outcome.duration now (.ok ())).1 = .error failure) :
      SeriesStep taskID m s
        (m.finishDispatchAttemptChecked taskID s.candidate.subtaskID number .failed outcome.failureClass
          outcome.httpStatus (some err) outcome.duration now (.ok ())).2
        (s.next validationAttempt cancelled { err := some (persistFailure failure.text), retryable := false, won })

/-- What `executeCandidateWithHedge` returns once nothing it started is still going on. -/
def hedgedResult (primary : CandidateDispatchResult) (secondary : Option CandidateDispatchResult) : CandidateDispatchResult :=
  if primary.won then primary
  else
    match secondary with
    | some secondary => if secondary.won then secondary else primary
    | none => primary

/-! ### The dispatch -/

/-- What `dispatchWithContext` is called with, and the policy of its dispatcher. -/
structure Job where
  taskID : String
  assignment : Candidate
  retryPolicy : DispatchRetryPolicy := defaultDispatchRetryPolicy

def Job.subtaskID (job : Job) : String := job.assignment.subtaskID

/-- Where `dispatchWithContext` is. Within the loop a stage has the iteration and the current candidate. -/
inductive DispatchStage where
  | starting
  | awaitingDependencies
  | counting
  | choosing (attempt : Nat)
  | loop (attempt : Nat) (current : Candidate)
  | checking (attempt : Nat) (current : Candidate)
  | ejected (attempt : Nat)
  | reserving (attempt : Nat) (current : Candidate)
  | unreserved (attempt : Nat) (err : String)
  | startingSubtask (attempt : Nat) (current : Candidate)
  | reading (attempt : Nat) (current : Candidate)
  | executing (attempt : Nat) (primary : Series) (secondary : Option Series)
  | failed (attempt : Nat) (err : String) (retryable : Bool)
  | sleeping (attempt : Nat) (err : String)
  | moving (attempt : Nat) (retry : Candidate)
  | completing (failure : String)
  | returned

/-- What the scheduler chose in a step, and whether it was asked before any worker was. -/
inductive DispatchEvent where
  | quiet
  | assigned (candidate : Candidate)
  | movedOn (attempt : Nat) (candidate : Candidate)
  | called (op : Op)

/-- A step of the dispatch itself, whose saves all succeed. `ctxErr` is what has become of its context. -/
inductive DispatchStep (job : Job) (m : Manager) (ctxErr : Option String) : DispatchStage → DispatchEvent → Manager → DispatchStage → Prop
  | unknownTask (h : m.tasks.get? job.taskID = none) : DispatchStep job m ctxErr .starting .quiet m .returned
  | found (t : Taskmgr.Task) (h : m.tasks.get? job.taskID = some t) :
      DispatchStep job m ctxErr .starting .quiet m .awaitingDependencies
  | blocked (h : ctxErr.isSome ∨ m.waitForDependencies job.taskID job.subtaskID = some false) :
      DispatchStep job m ctxErr .awaitingDependencies .quiet m
        (.completing (ctxErr.getD "a required subtask did not complete"))
  | ready (hctx : ctxErr = none) (h : m.waitForDependencies job.taskID job.subtaskID = some true) :
      DispatchStep job m ctxErr .awaitingDependencies .quiet m .counting
  | exhausted (h : job.retryPolicy.maxAttempts ≤ (m.attempts job.taskID job.subtaskID).length) :
      DispatchStep job m ctxErr .counting .quiet m (.completing "subtask dispatch attempt limit reached")
  | tried (h : (m.attempts job.taskID job.subtaskID).length < job.retryPolicy.maxAttempts)
      (htried : (m.attempts job.taskID job.subtaskID).any fun a =>
        routerPairKey a.nodeID a.model =
          routerPairKey job.assignment.assignment.nodeID job.assignment.assignment.model) :
      DispatchStep job m ctxErr .counting .quiet m (.choosing (m.attempts job.taskID job.subtaskID).length)
  | untried (h : (m.attempts job.taskID job.subtaskID).length < job.retryPolicy.maxAttempts)
      (huntried : ¬ (m.attempts job.taskID job.subtaskID).any fun a =>
        routerPairKey a.nodeID a.model =
          routerPairKey job.assignment.assignment.nodeID job.assignment.assignment.model) :
      DispatchStep job m ctxErr .counting .quiet m (.loop (m.attempts job.taskID job.subtaskID).length job.assignment)
  | nothingUntried (attempt : Nat) :
      DispatchStep job m ctxErr (.choosing attempt) .quiet m
        (.completing (ctxErr.getD "no untried node/model pair is available"))
  | chosen (attempt : Nat) (retry : Candidate) (hctx : ctxErr = none) :
      DispatchStep job m ctxErr (.choosing attempt) (.assigned retry) m (.moving attempt retry)
  | loopDone (attempt : Nat) (current : Candidate) (h : job.retryPolicy.maxAttempts ≤ attempt) :
      DispatchStep job m ctxErr (.loop attempt current) .quiet m .returned
  | loopCancelled (attempt : Nat) (current : Candidate) (failure : String)
      (h : attempt < job.retryPolicy.maxAttempts) (hctx : ctxErr = some failure) :
      DispatchStep job m ctxErr (.loop attempt current) .quiet m (.completing failure)
  | loopBody (attempt : Nat) (current : Candidate) (h : attempt < job.retryPolicy.maxAttempts) (hctx : ctxErr = none) :
      DispatchStep job m ctxErr (.loop attempt current) .quiet m (.checking attempt current)
  | healthy (attempt : Nat) (current : Candidate) (registry : Registry) (status : NodeStatus)
      (h : registry.lookup current.target = some status) :
      DispatchStep job m ctxErr (.checking attempt current) .quiet m (.reserving attempt current)
  | unhealthy (attempt : Nat) (current : Candidate) (registry : Registry) (h : registry.lookup current.target = none) :
      DispatchStep job m ctxErr (.checking attempt current) .quiet m (.ejected attempt)
  | ejectedFrom (attempt : Nat) :
      DispatchStep job m ctxErr (.ejected attempt) .quiet m
        (.completing (ctxErr.getD "node was ejected before dispatch"))
  | ejectedTo (attempt : Nat) (retry : Candidate) (hctx : ctxErr = none) :
      DispatchStep job m ctxErr (.ejected attempt) (.movedOn attempt retry) m (.moving (attempt + 1) retry)
  | reserved (attempt : Nat) (current : Candidate) :
      DispatchStep job m ctxErr (.reserving attempt current) .quiet m (.startingSubtask attempt current)
  | reservingCancelled (attempt : Nat) (current : Candidate) (failure : String) (hctx : ctxErr = some failure) :
      DispatchStep job m ctxErr (.reserving attempt current) .quiet m (.completing failure)
  | notReserved (attempt : Nat) (current : Candidate) (err : String) (hctx : ctxErr = none) :
      DispatchStep job m ctxErr (.reserving attempt current) .quiet m (.unreserved attempt err)
  | unreservedFrom (attempt : Nat) (err : String) :
      DispatchStep job m ctxErr (.unreserved attempt err) .quiet m (.completing (ctxErr.getD err))
  | unreservedTo (attempt : Nat) (err : String) (retry : Candidate) (hctx : ctxErr = none) :
      DispatchStep job m ctxErr (.unreserved attempt err) (.movedOn attempt retry) m (.moving (attempt + 1) retry)
  | startRefused (attempt : Nat) (current : Candidate) (failure : Failure) (now : Instant)
      (h : (m.startSubtaskChecked job.taskID job.subtaskID now (.ok ())).1 = .error failure) :
      DispatchStep job m ctxErr (.startingSubtask attempt current) .quiet
        (m.startSubtaskChecked job.taskID job.subtaskID now (.ok ())).2 (.completing failure.text)
  | started (attempt : Nat) (current : Candidate) (now : Instant)
      (h : (m.startSubtaskChecked job.taskID job.subtaskID now (.ok ())).1 = .ok ()) :
      DispatchStep job m ctxErr (.startingSubtask attempt current) .quiet
        (m.startSubtaskChecked job.taskID job.subtaskID now (.ok ())).2 (.reading attempt current)
  | noInput (attempt : Nat) (current : Candidate) (h : m.inputForSubtask job.taskID job.subtaskID = false) :
      DispatchStep job m ctxErr (.reading attempt current) .quiet m
        (.completing "subtask prerequisites are not available")
  | input (attempt : Nat) (current : Candidate) (h : m.inputForSubtask job.taskID job.subtaskID = true) :
      DispatchStep job m ctxErr (.reading attempt current) .quiet m (.executing attempt (.start current) none)
  | primary (attempt : Nat) (p p' : Series) (s : Option Series) (m' : Manager) (h : SeriesStep job.taskID m p m' p') :
      DispatchStep job m ctxErr (.executing attempt p s) .quiet m' (.executing attempt p' s)
  | hedge (attempt : Nat) (p : Series) (hedge : Candidate) (h : attempt + 2 ≤ job.retryPolicy.maxAttempts)
      (hnode : hedge.assignment.nodeID ≠ p.candidate.assignment.nodeID) :
      DispatchStep job m ctxErr (.executing attempt p none) (.assigned hedge) m (.executing attempt p (some (.start hedge)))
  | secondary (attempt : Nat) (p s s' : Series) (m' : Manager) (h : SeriesStep job.taskID m s m' s') :
      DispatchStep job m ctxErr (.executing attempt p (some s)) .quiet m' (.executing attempt p (some s'))
  | decided (attempt : Nat) (p : Series) (s : Option Series) (primary : CandidateDispatchResult)
      (secondary : Option CandidateDispatchResult) (hprimary : p.stage = .finished primary)
      (hsecondary : s.map Series.stage = secondary.map SeriesStage.finished)
      (h : (hedgedResult primary secondary).err = none ∨ (hedgedResult primary secondary).won) :
      DispatchStep job m ctxErr (.executing attempt p s) .quiet m .returned
  | undecided (attempt : Nat) (p : Series) (s : Option Series) (primary : CandidateDispatchResult)
      (secondary : Option CandidateDispatchResult) (err : String) (hprimary : p.stage = .finished primary)
      (hsecondary : s.map Series.stage = secondary.map SeriesStage.finished)
      (herr : (hedgedResult primary secondary).err = some err) (hwon : ¬ (hedgedResult primary secondary).won) :
      DispatchStep job m ctxErr (.executing attempt p s) .quiet m
        (.failed attempt err (hedgedResult primary secondary).retryable)
  | noRetry (attempt : Nat) (err : String) (retryable : Bool)
      (h : ¬ job.retryPolicy.canRetry retryable (attempt + 1) ctxErr) :
      DispatchStep job m ctxErr (.failed attempt err retryable) .quiet m (.completing (ctxErr.getD err))
  | backOff (attempt : Nat) (err : String) (retryable : Bool)
      (h : job.retryPolicy.canRetry retryable (attempt + 1) ctxErr) :
      DispatchStep job m ctxErr (.failed attempt err retryable) .quiet m (.sleeping attempt err)
  | noCandidate (attempt : Nat) (err : String) :
      DispatchStep job m ctxErr (.sleeping attempt err) .quiet m (.completing (ctxErr.getD err))
  | retry (attempt : Nat) (err : String) (retry : Candidate) (hctx : ctxErr = none) :
      DispatchStep job m ctxErr (.sleeping attempt err) (.assigned retry) m (.moving (attempt + 1) retry)
  | moveRefused (attempt : Nat) (retry : Candidate) (failure : Failure) (now : Instant)
      (h : (m.reassignSubtaskChecked job.taskID job.subtaskID retry.assignment now (.ok ())).1 = .error failure) :
      DispatchStep job m ctxErr (.moving attempt retry) .quiet
        (m.reassignSubtaskChecked job.taskID job.subtaskID retry.assignment now (.ok ())).2 (.completing failure.text)
  | moved (attempt : Nat) (retry : Candidate) (now : Instant)
      (h : (m.reassignSubtaskChecked job.taskID job.subtaskID retry.assignment now (.ok ())).1 = .ok ()) :
      DispatchStep job m ctxErr (.moving attempt retry) .quiet
        (m.reassignSubtaskChecked job.taskID job.subtaskID retry.assignment now (.ok ())).2 (.loop attempt retry)
  | completed (failure : String) (now : Instant) :
      DispatchStep job m ctxErr (.completing failure) .quiet
        (m.completeSubtaskChecked job.taskID job.subtaskID "" (some failure) now (.ok ())).2 .returned

/-! ### The dispatch among others -/

def Job.taskOver (job : Job) (m : Manager) : Bool :=
  (m.tasks.get? job.taskID).any fun t => t.status = .completed ∨ t.status = .failed ∨ t.status = .cancelled

/-- A dispatch and the manager it works on. `closed` is history: the task has been cancelled, has settled or
was replaced, now or at some time since the dispatch began. -/
structure Dispatch where
  m : Manager
  stage : DispatchStage
  ctxErr : Option String := none
  closed : Bool

namespace Dispatch

def start (job : Job) (m : Manager) : Dispatch := { m, stage := .starting, closed := job.taskOver m }

def goto (d : Dispatch) (job : Job) (m : Manager) (stage : DispatchStage) : Dispatch :=
  { d with m, stage, closed := d.closed || job.taskOver m }

inductive Step (job : Job) (d : Dispatch) : DispatchEvent → Dispatch → Prop
  | own (e : DispatchEvent) (m : Manager) (stage : DispatchStage) (h : DispatchStep job d.m d.ctxErr d.stage e m stage) :
      Step job d e (d.goto job m stage)
  | cancelled (failure : String) (hreturned : d.stage ≠ .returned) (hctx : d.ctxErr = none) :
      Step job d .quiet { d with ctxErr := some failure }
  | others (op : Op) (saved : Except String Unit) (hreturned : d.stage ≠ .returned) (hfresh : op.FreshID d.m) :
      Step job d (.called op) (d.goto job (op.run d.m saved) d.stage)
  | elsewhere (m : Manager) (hreturned : d.stage ≠ .returned)
      (htask : m.tasks.get? job.taskID = d.m.tasks.get? job.taskID) : Step job d .quiet { d with m }
  | replaced (m : Manager) (hreturned : d.stage ≠ .returned) : Step job d .quiet { d with m, closed := true }

def Run (job : Job) (allowed : DispatchEvent → Prop) : Dispatch → Dispatch → Prop :=
  Relation.ReflTransGen fun d d' => ∃ e, Step job d e d' ∧ allowed e

end Dispatch

end Maistr0.Orchestrator
