import Maistr0.Orchestrator.Dispatcher
import Maistr0.Taskmgr.Finality

/-!
# A hedged candidate

`executeCandidateWithHedge` with the goroutines it starts: the series of the primary candidate, the
reservation for the hedge, and the series of the hedge. A stage of the call stands before each of its
channel operations and each of its looks at the winner, so that everybody else can act in between.

What a context that has ended makes of a request or of a reservation is part of their answers, which are
free; the store may refuse any save. `wins` and the counts of what was taken and given back are history.
-/

namespace Maistr0.Orchestrator

open Go Taskmgr

/-! ### One series, whatever the store answers -/

/-- What a step of a series does to the record of its subtask. An attempt is on record even if it could not be
saved; then the manager does not tell its number. -/
inductive SeriesEvent where
  | quiet
  | begun (validationAttempt : Nat) (told : Bool)
  | won
deriving DecidableEq

def beginEvent (taskID subtaskID : String) (m : Manager) (validationAttempt : Nat)
    (answer : Except Failure Int × Manager) : SeriesEvent :=
  if (answer.2.attempts taskID subtaskID).length = (m.attempts taskID subtaskID).length then .quiet
  else .begun validationAttempt answer.1.toBool

/-- A step of `runCandidateSeries` when the store answers `saved` to what the step writes. -/
inductive SeriesMove (taskID : String) (saved : Except String Unit) (m : Manager) (s : Series) :
    SeriesEvent → Manager → Series → Prop
  | begin (validationAttempt : Nat) (won : Bool) (now : Instant) (answer : Except Failure Int × Manager)
      (hstage : s.stage = .beginning validationAttempt won)
      (h : m.beginDispatchAttemptChecked taskID s.candidate.subtaskID s.candidate.assignment now saved = answer) :
      SeriesMove taskID saved m s (beginEvent taskID s.candidate.subtaskID m validationAttempt answer) answer.2 { s with
          stage :=
            match answer.1 with
            | .ok number => .calling validationAttempt won number
            | .error failure => .finished { err := some failure.text, retryable := false, won } }
  | called (validationAttempt : Nat) (won : Bool) (number : Int) (outcome : CallOutcome)
      (hstage : s.stage = .calling validationAttempt won number) :
      SeriesMove taskID saved m s .quiet m { s with stage := .recording validationAttempt won number outcome }
  | completed (validationAttempt : Nat) (won : Bool) (number : Int) (outcome : CallOutcome) (output : String)
      (now : Clocks) (cancelled : Bool) (answer : (Bool × Except Failure Completion) × Manager)
      (hstage : s.stage = .recording validationAttempt won number outcome) (hresult : outcome.result = .ok output)
      (h : m.completeDispatchAttemptWithAssignmentChecked taskID s.candidate.subtaskID number (some s.candidate.assignment)
        "none" outcome.httpStatus outcome.duration output now saved = answer) :
      SeriesMove taskID saved m s (if answer.1.1 then .won else .quiet) answer.2 (s.next validationAttempt cancelled
          { err := (persistError answer.1.2).map persistFailure, retryable := false, won := answer.1.1 })
  | failed (validationAttempt : Nat) (won : Bool) (number : Int) (outcome : CallOutcome) (err : String)
      (retryable : Bool) (now : Instant) (cancelled : Bool) (answer : Except Failure Unit × Manager)
      (hstage : s.stage = .recording validationAttempt won number outcome)
      (hresult : outcome.result = .error (err, retryable))
      (h : m.finishDispatchAttemptChecked taskID s.candidate.subtaskID number .failed outcome.failureClass
        outcome.httpStatus (some err) outcome.duration now saved = answer) :
      SeriesMove taskID saved m s .quiet answer.2 (s.next validationAttempt cancelled (match answer.1 with
            | .ok _ => { err := some err, retryable, won }
            | .error failure => { err := some (persistFailure failure.text), retryable := false, won }))

namespace SeriesMove

variable {taskID : String} {saved : Except String Unit} {m m' : Manager} {s s' : Series} {e : SeriesEvent}

theorem candidate_eq (h : SeriesMove taskID saved m s e m' s') : s'.candidate = s.candidate := by
  have hnext : ∀ validationAttempt cancelled result, (s.next validationAttempt cancelled result).candidate = s.candidate := by
    intro validationAttempt cancelled result
    unfold Series.next
    split <;> rfl
  cases h with
  | begin | called => rfl
  | completed | failed => apply hnext

theorem calls (h : SeriesMove taskID saved m s e m' s') : (m' = m ∧ e = .quiet) ∨
    ∃ op : Op, op.KeepsIDs ∧ op.FreshID m ∧ m' = op.run m saved ∧
      op.wins m saved taskID s.candidate.subtaskID = decide (e = .won) := by
  cases h with
  | begin _ _ now _ _ h =>
    refine .inr ⟨.beginDispatchAttempt taskID s.candidate.subtaskID s.candidate.assignment now, trivial, trivial,
      h ▸ rfl, ?_⟩
    unfold beginEvent
    split <;> rfl
  | called => exact .inl ⟨rfl, rfl⟩
  | completed _ _ number outcome output now _ answer _ _ h =>
    refine .inr ⟨.completeDispatchAttempt taskID s.candidate.subtaskID number (some s.candidate.assignment) "none"
      outcome.httpStatus outcome.duration output now, ?_, trivial, h ▸ rfl, ?_⟩
    · intro a ha
      obtain rfl := Option.mem_some.mp ha
      rfl
    · cases hwon : answer.1.1 <;> simp [Op.wins, h, hwon]
  | failed _ _ number outcome err _ now _ _ _ _ h =>
    exact .inr ⟨.finishDispatchAttempt taskID s.candidate.subtaskID number .failed outcome.failureClass outcome.httpStatus
      (some err) outcome.duration now, trivial, trivial, h ▸ rfl, rfl⟩

end SeriesMove

/-! ### The call -/

/-- What `executeCandidateWithHedge` is called with, and what its dispatcher and its memory say about hedging. -/
structure HedgeSetting where
  taskID : String
  assignment : Candidate
  attemptCount : Nat
  retryPolicy : DispatchRetryPolicy := defaultDispatchRetryPolicy
  hedgingEnabled : Bool := true
  p95Duration : Duration

def HedgeSetting.hedges (cfg : HedgeSetting) : Bool :=
  cfg.hedgingEnabled && cfg.attemptCount + 2 ≤ cfg.retryPolicy.maxAttempts && 0 < cfg.p95Duration

inductive Side where
  | primary
  | secondary
deriving DecidableEq

/-- A goroutine that runs a series, up to the receipt of what it sends. Between the end of a winning attempt
and the rest of its series it calls `onWinner`. -/
inductive Racer where
  | idle
  | running (s : Series)
  | notifying (s : Series)
  | sent (s : Series)
  | received (s : Series)

inductive HedgeReserving where
  | idle
  | pending
  | sent (granted : Bool)
  | received

structure DispatchReservation where
  loaded : Bool := false
  released : Bool := false

inductive HedgeStage where
  | deciding
  | direct
  | waiting
  | expired
  | unready
  | choosing
  | chosen (hedge : Candidate)
  | reserving (hedge : Candidate)
  | abandoning (result : Option CandidateDispatchResult)
  | reserved (hedge : Candidate) (granted : Bool)
  | checked (hedge : Candidate)
  | armed (hedge : Candidate)
  | racing (primaryResult secondaryResult : Option CandidateDispatchResult)
  | awaiting
  | returned (result : CandidateDispatchResult)

namespace HedgeStage

/-- A result of the primary candidate that arrives here is returned at once. -/
inductive Listens : HedgeStage → Prop
  | waiting : Listens .waiting
  | expired : Listens .expired
  | chosen (hedge : Candidate) : Listens (.chosen hedge)
  | awaiting : Listens .awaiting

/-- The series that the call runs itself has no `onWinner`. -/
def callsBack : HedgeStage → Bool
  | .direct => false
  | _ => true

end HedgeStage

structure HedgeCall where
  m : Manager
  stage : HedgeStage := .deciding
  ctxDone : Bool := false
  winner : Option Side := none
  primary : Racer := .idle
  secondary : Racer := .idle
  reserve : HedgeReserving := .idle
  reservation : Option DispatchReservation := none
  slotHeld : Bool := false
  load : Int := 0
  wins : List Side := []
  slotsTaken : Nat := 0
  slotsGiven : Nat := 0
  reservationsTaken : Nat := 0
  reservationsGiven : Nat := 0

namespace HedgeCall

def releaseSlot (c : HedgeCall) : HedgeCall :=
  if c.slotHeld then { c with slotHeld := false, slotsGiven := c.slotsGiven + 1 } else c

def start (c : HedgeCall) : HedgeCall :=
  match c.reservation with
  | none => c
  | some r =>
    if r.loaded then c else { c with reservation := some { r with loaded := true }, load := c.load + 1 }

def release (c : HedgeCall) : HedgeCall :=
  match c.reservation with
  | none => c
  | some r =>
    if r.released then c
    else
      { c with
        reservation := some { r with released := true }
        load := if r.loaded then c.load - 1 else c.load
        reservationsGiven := c.reservationsGiven + 1 }

def leave (c : HedgeCall) (result : CandidateDispatchResult) : HedgeCall :=
  { c.releaseSlot with stage := .returned result }

def racer (c : HedgeCall) : Side → Racer
  | .primary => c.primary
  | .secondary => c.secondary

def setRacer (c : HedgeCall) (side : Side) (r : Racer) : HedgeCall :=
  match side with
  | .primary => { c with primary := r }
  | .secondary => { c with secondary := r }

/-- `onWinner` of a side: the first one to call it is the winner. -/
def onWinner (c : HedgeCall) (side : Side) : HedgeCall :=
  if c.stage.callsBack then { c with winner := c.winner.or (some side) } else c

def Unready (c : HedgeCall) : Prop := ∀ s, c.primary ≠ .sent s

inductive Step (cfg : HedgeSetting) (c : HedgeCall) : HedgeCall → Prop
  -- without a hedge, or without a free slot, the call runs the series itself
  | unhedged (hstage : c.stage = .deciding) :
      Step cfg c { c with stage := .direct, primary := .running (.start cfg.assignment) }
  | direct (s : Series) (result : CandidateDispatchResult) (hstage : c.stage = .direct) (h : c.primary = .sent s)
      (hresult : s.stage = .finished result) :
      Step cfg c { c with stage := .returned result, primary := .received s }
  | hedged (hstage : c.stage = .deciding) (h : cfg.hedges) :
      Step cfg c { c with
          stage := .waiting
          slotHeld := true
          slotsTaken := c.slotsTaken + 1
          primary := .running (.start cfg.assignment) }
  | answered (s : Series) (result : CandidateDispatchResult) (hstage : c.stage.Listens) (h : c.primary = .sent s)
      (hresult : s.stage = .finished result) : Step cfg c ({ c with primary := .received s }.leave result)
  | stopWaiting (hstage : c.stage = .waiting) (h : c.ctxDone) : Step cfg c { c with stage := .awaiting }
  | timer (hstage : c.stage = .waiting) : Step cfg c { c with stage := .expired }
  | notReady (hstage : c.stage = .expired) (h : c.Unready) : Step cfg c { c with stage := .unready }
  | alreadyWon (hstage : c.stage = .unready) (h : c.winner ≠ none) : Step cfg c { c with stage := .awaiting }
  | stillOpen (hstage : c.stage = .unready) (h : c.winner = none) : Step cfg c { c with stage := .choosing }
  | noHedge (hstage : c.stage = .choosing) : Step cfg c { c.releaseSlot with stage := .awaiting }
  | hedge (hedge : Candidate) (hstage : c.stage = .choosing) (hsubtask : hedge.subtaskID = cfg.assignment.subtaskID)
      (hnode : hedge.assignment.nodeID ≠ cfg.assignment.assignment.nodeID) :
      Step cfg c { c with stage := .chosen hedge }
  | reserve (hedge : Candidate) (hstage : c.stage = .chosen hedge) (h : c.Unready) :
      Step cfg c { c with stage := .reserving hedge, reserve := .pending }
  | overtaken (hedge : Candidate) (s : Series) (result : CandidateDispatchResult) (hstage : c.stage = .reserving hedge)
      (h : c.primary = .sent s) (hresult : s.stage = .finished result) :
      Step cfg c { c with stage := .abandoning (some result), primary := .received s }
  | stopReserving (hedge : Candidate) (hstage : c.stage = .reserving hedge) (h : c.ctxDone) :
      Step cfg c { c with stage := .abandoning none }
  | reserved (hedge : Candidate) (granted : Bool) (hstage : c.stage = .reserving hedge) (h : c.reserve = .sent granted) :
      Step cfg c { c with stage := .reserved hedge granted, reserve := .received }
  | abandoned (result : CandidateDispatchResult) (granted : Bool) (hstage : c.stage = .abandoning (some result))
      (h : c.reserve = .sent granted) : Step cfg c ({ c with reserve := .received }.release.leave result)
  | abandonedEarly (granted : Bool) (hstage : c.stage = .abandoning none) (h : c.reserve = .sent granted) :
      Step cfg c { { c with reserve := .received }.release with stage := .awaiting }
  | refused (hedge : Candidate) (hstage : c.stage = .reserved hedge false) :
      Step cfg c { c.releaseSlot with stage := .awaiting }
  | late (hedge : Candidate) (s : Series) (result : CandidateDispatchResult) (hstage : c.stage = .reserved hedge true)
      (h : c.primary = .sent s) (hresult : s.stage = .finished result) :
      Step cfg c ({ c with primary := .received s }.release.leave result)
  | inTime (hedge : Candidate) (hstage : c.stage = .reserved hedge true) (h : c.Unready) :
      Step cfg c { c with stage := .checked hedge }
  | wonMeanwhile (hedge : Candidate) (hstage : c.stage = .checked hedge) (h : c.winner ≠ none) :
      Step cfg c { c.release with stage := .awaiting }
  | arm (hedge : Candidate) (hstage : c.stage = .checked hedge) (h : c.winner = none) :
      Step cfg c { c with stage := .armed hedge }
  | lost (hedge : Candidate) (hstage : c.stage = .armed hedge) (h : c.winner = some .primary) :
      Step cfg c { c.release with stage := .awaiting }
  | launch (hedge : Candidate) (hstage : c.stage = .armed hedge) (h : c.winner ≠ some .primary) :
      Step cfg c { c.start with stage := .racing none none, secondary := .running (.start hedge) }
  | primaryDone (s : Series) (result : CandidateDispatchResult) (secondaryResult : Option CandidateDispatchResult)
      (hstage : c.stage = .racing none secondaryResult) (h : c.primary = .sent s) (hresult : s.stage = .finished result) :
      Step cfg c { c with stage := .racing (some result) secondaryResult, primary := .received s }
  | secondaryDone (s : Series) (result : CandidateDispatchResult) (primaryResult : Option CandidateDispatchResult)
      (hstage : c.stage = .racing primaryResult none) (h : c.secondary = .sent s) (hresult : s.stage = .finished result) :
      Step cfg c { c with stage := .racing primaryResult (some result), secondary := .received s }
  | finished (primaryResult secondaryResult : CandidateDispatchResult)
      (hstage : c.stage = .racing (some primaryResult) (some secondaryResult)) :
      Step cfg c (c.release.leave (hedgedResult primaryResult (some secondaryResult)))
  -- the goroutines
  | series (side : Side) (s s' : Series) (saved : Except String Unit) (e : SeriesEvent) (m : Manager)
      (h : c.racer side = .running s) (hmove : SeriesMove cfg.taskID saved c.m s e m s') :
      Step cfg c ({ c with m, wins := if e = SeriesEvent.won then side :: c.wins else c.wins }.setRacer side
        (if e = SeriesEvent.won then .notifying s' else .running s'))
  | notified (side : Side) (s : Series) (h : c.racer side = .notifying s) :
      Step cfg c ((c.onWinner side).setRacer side (.running s))
  | send (side : Side) (s : Series) (result : CandidateDispatchResult) (h : c.racer side = .running s)
      (hresult : s.stage = .finished result) : Step cfg c (c.setRacer side (.sent s))
  | granted (h : c.reserve = .pending) :
      Step cfg c { c with reserve := .sent true, reservation := some {}, reservationsTaken := c.reservationsTaken + 1 }
  | denied (h : c.reserve = .pending) : Step cfg c { c with reserve := .sent false }
  -- everybody else
  | ctxEnds : Step cfg c { c with ctxDone := true }
  | others (op : Op) (saved : Except String Unit) (hids : op.KeepsIDs) (hfresh : op.FreshID c.m) :
      Step cfg c { c with m := op.run c.m saved }

def Run (cfg : HedgeSetting) : HedgeCall → HedgeCall → Prop := Relation.ReflTransGen (Step cfg)

end HedgeCall

end Maistr0.Orchestrator
