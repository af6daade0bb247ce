import Maistr0.Lib.Interleaving

/-!
# The supervisor of a managed engine

One managed engine with its processes, and any number of `Start`, `Stop` and `Restart` calls and restarts after a
crash. Each section of code under the engine's lock is one move; a call that waits for a process to be gone makes the
move after the wait once it is gone. What happens outside (that a process exits, is ready in time or not, that a
configuration is refused, that a wait times out) is left open. The manager is not closed.
-/

namespace Maistr0.NodeAgent

open Lib.Interleaving

inductive EngineState
  | stopped
  | starting
  | ready
  | restarting
  | stopping
  | failed
  deriving DecidableEq

/-- A process that was started, with the control generation it was started for. It is `done` when `waitForProcess` has
seen to its exit. -/
structure Proc where
  control : Nat
  alive : Bool := true
  done : Bool := false
  deriving DecidableEq

/-- The processes are numbered, and the run generation is their number. -/
structure ManagedEngine where
  controlGeneration : Nat := 0
  userStopped : Bool := false
  ready : Bool := false
  command : Option Nat := none
  state : EngineState := .stopped
  pid : Option Nat := none
  restartCount : Nat := 0
  procs : List Proc := []
  /-- The control generations for which a crash is to be answered. -/
  crashed : List Nat := []
  /-- How often `userStopped` was reset. -/
  resumes : Nat := 0

inductive Launcher
  | start
  | restart (attempt : Nat)
  | crash
  deriving DecidableEq

def Launcher.state : Launcher → EngineState
  | start | restart _ => .starting
  | crash => .restarting

inductive EngineOp
  | start
  | stop
  | restart
  | spawned
  | preparing (c : Nat)
  | launching (c : Nat) (k : Launcher)
  | unlaunched (c : Nat) (k : Launcher)
  | awaiting (i c : Nat) (k : Launcher)
  | aborting (i c : Nat) (k : Launcher)
  | waiting (i : Nat) (restarts : Bool) (resumes : Nat)
  | replanning
  | attempt (n : Nat)
  | attempting (n : Nat)
  | crash (c : Nat)
  | backoff (c : Nat)
  /-- `Stop` has returned without an error. -/
  | stopped (resumes : Nat)
  | ended
  deriving DecidableEq

inductive EngineEvent
  | launch
  /-- The state becomes failed although the section does not look for a process. -/
  | fail
  | timeout
  /-- An attempt ends before it has started a process, and leaves the state as it is. -/
  | lapse
  | other
  deriving DecidableEq

namespace ManagedEngine

variable (g : ManagedEngine)

def isLast (i : Nat) : Prop := i + 1 = g.procs.length

instance (i : Nat) : Decidable (g.isLast i) := inferInstanceAs (Decidable (i + 1 = g.procs.length))

def isDone (i : Nat) : Prop := ∃ p, g.procs[i]? = some p ∧ p.done = true

def markStartFailed : ManagedEngine := { g with state := .failed, pid := none }

/-- The last section of `launch`. -/
def launched (c : Nat) (k : Launcher) : ManagedEngine :=
  { g with
    procs := g.procs ++ [{ control := c }], command := some g.procs.length, ready := false, state := k.state
    pid := some g.procs.length }

/-- `stop` and `abortStartup` begin. -/
def halted (state : EngineState) : ManagedEngine :=
  { g with controlGeneration := g.controlGeneration + 1, userStopped := true, ready := false, state }

def resumed : ManagedEngine := { g with userStopped := false, ready := false, resumes := g.resumes + 1 }

/-- `waitForProcess` under the lock, for a process that has exited. -/
def reaped (i : Nat) (p : Proc) : ManagedEngine :=
  let procs := g.procs.set i { p with done := true }
  if g.isLast i then
    let intentional : Bool := g.userStopped || g.controlGeneration ≠ p.control
    { g with
      procs, command := none, pid := none, ready := false, state := if intentional then .stopped else .failed
      crashed := if !intentional && g.ready then g.controlGeneration :: g.crashed else g.crashed }
  else { g with procs }

end ManagedEngine

/-- What happens to a launch that goes wrong without a change of the state. -/
def lapses (g : ManagedEngine) (c : Nat) : Launcher → EngineEvent
  | .start | .crash => .other
  | .restart _ => if g.controlGeneration = c then .lapse else .other

inductive EngineMoves : ManagedEngine → EngineOp → EngineEvent → ManagedEngine → EngineOp → Prop
  | start {g : ManagedEngine} (hcommand : g.command = none)
      (hstate : g.state ≠ .starting ∧ g.state ≠ .ready ∧ g.state ≠ .restarting) :
      EngineMoves g .start .other
        { g.resumed with controlGeneration := g.controlGeneration + 1, state := .starting, restartCount := 0 }
        (.preparing (g.controlGeneration + 1))
  | alreadyRunning (g : ManagedEngine) : EngineMoves g .start .other g .ended
  | prepared (g : ManagedEngine) (c : Nat) : EngineMoves g (.preparing c) .other g (.launching c .start)
  | unprepared (g : ManagedEngine) (c : Nat) : EngineMoves g (.preparing c) .fail g.markStartFailed .ended
  | launch {g : ManagedEngine} {c : Nat} {k : Launcher} (hc : g.controlGeneration = c) (hstop : g.userStopped = false) :
      EngineMoves g (.launching c k) .launch (g.launched c k) (.awaiting g.procs.length c k)
  | notStarted {g : ManagedEngine} {c : Nat} {k : Launcher} (hc : g.controlGeneration = c)
      (hstop : g.userStopped = false) : EngineMoves g (.launching c k) .launch g.markStartFailed (.unlaunched c k)
  /-- The configuration is no longer valid. -/
  | invalid {g : ManagedEngine} {c : Nat} {k : Launcher} (hc : g.controlGeneration = c) :
      EngineMoves g (.launching c k) .fail { g with state := .failed } (.unlaunched c k)
  /-- The generation has changed, the engine was stopped, or there are no arguments, environment or pipe. -/
  | refused (g : ManagedEngine) (c : Nat) (k : Launcher) :
      EngineMoves g (.launching c k) (lapses g c k) g (.unlaunched c k)
  | startFailed (g : ManagedEngine) (c : Nat) : EngineMoves g (.unlaunched c .start) .fail g.markStartFailed .ended
  | retry (g : ManagedEngine) (c n : Nat) : EngineMoves g (.unlaunched c (.restart n)) .other g (.attempt n)
  | restartFailed (g : ManagedEngine) (c n : Nat) : EngineMoves g (.unlaunched c (.restart n)) .other g .ended
  | crashAgain (g : ManagedEngine) (c : Nat) : EngineMoves g (.unlaunched c .crash) .other g (.crash c)
  | crashFailed {g : ManagedEngine} {c : Nat} (hc : g.controlGeneration = c) :
      EngineMoves g (.unlaunched c .crash) .fail { g with state := .failed } .ended
  | crashStale {g : ManagedEngine} {c : Nat} (hc : g.controlGeneration ≠ c) :
      EngineMoves g (.unlaunched c .crash) .other g .ended
  | markReady {g : ManagedEngine} {i c : Nat} {k : Launcher} (hlast : g.isLast i) (hcommand : g.command ≠ none)
      (hstop : g.userStopped = false) :
      EngineMoves g (.awaiting i c k) .other { g with ready := true, state := .ready } .ended
  /-- Between readiness and `markReady` the process has exited or was stopped. -/
  | notReady {g : ManagedEngine} {i c : Nat} (h : ¬ g.isLast i ∨ g.command = none ∨ g.userStopped = true) :
      EngineMoves g (.awaiting i c .start) .other g .ended
  | notReadyRestart {g : ManagedEngine} {i c n : Nat} (h : ¬ g.isLast i ∨ g.command = none ∨ g.userStopped = true) :
      EngineMoves g (.awaiting i c (.restart n)) .other g (.attempt n)
  | abortStartup {g : ManagedEngine} {i c : Nat} {k : Launcher} (hk : k ≠ .crash) (hlast : g.isLast i) :
      EngineMoves g (.awaiting i c k) .other (g.halted .stopping) (.aborting i (g.controlGeneration + 1) k)
  | abortStale {g : ManagedEngine} {i c : Nat} {k : Launcher}
      (h : ¬ g.isLast i ∨ k = .crash ∧ g.controlGeneration ≠ c) :
      EngineMoves g (.awaiting i c k) .other g (if k = .start then .ended else .unlaunched c k)
  | abortRestartAttempt {g : ManagedEngine} {i c : Nat} (hlast : g.isLast i) (hc : g.controlGeneration = c) :
      EngineMoves g (.awaiting i c .crash) .other { g with ready := false, state := .stopping } (.aborting i c .crash)
  | aborted {g : ManagedEngine} {i c : Nat} {k : Launcher} (hdone : g.isDone i) (hlast : g.isLast i)
      (hc : g.controlGeneration = c) :
      EngineMoves g (.aborting i c k) .other { g.markStartFailed with command := none }
        (if k = .start then .ended else .unlaunched c k)
  | abortedStale {g : ManagedEngine} {i c : Nat} {k : Launcher} (hdone : g.isDone i)
      (h : ¬ g.isLast i ∨ g.controlGeneration ≠ c) :
      EngineMoves g (.aborting i c k) .other g (if k = .start then .ended else .unlaunched c k)
  | abortTimeout (g : ManagedEngine) (i c : Nat) (k : Launcher) :
      EngineMoves g (.aborting i c k) .timeout
        (if g.isLast i ∧ g.controlGeneration = c then { g with state := .failed } else g) .ended
  | stopIdle {g : ManagedEngine} (restarts : Bool) (hcommand : g.command = none) :
      EngineMoves g (if restarts then .restart else .stop) .other { g.halted .stopped with pid := none }
        (if restarts then .replanning else .stopped g.resumes)
  | stop {g : ManagedEngine} {i : Nat} (restarts : Bool) (hcommand : g.command = some i) :
      EngineMoves g (if restarts then .restart else .stop) .other (g.halted .stopping) (.waiting i restarts g.resumes)
  | stopped {g : ManagedEngine} {i resumes : Nat} {restarts : Bool} (hdone : g.isDone i) (hcommand : g.command = none) :
      EngineMoves g (.waiting i restarts resumes) .other { g with state := .stopped, pid := none }
        (if restarts then .replanning else .stopped resumes)
  | stoppedBusy {g : ManagedEngine} {i resumes : Nat} {restarts : Bool} (hdone : g.isDone i)
      (hcommand : g.command ≠ none) :
      EngineMoves g (.waiting i restarts resumes) .other g (if restarts then .replanning else .stopped resumes)
  | stopTimeout (g : ManagedEngine) (i resumes : Nat) (restarts : Bool) :
      EngineMoves g (.waiting i restarts resumes) .timeout g .ended
  | replanned (g : ManagedEngine) : EngineMoves g .replanning .other g (.attempt 0)
  | unplanned (g : ManagedEngine) : EngineMoves g .replanning .fail g.markStartFailed .ended
  | attempt (g : ManagedEngine) (n : Nat) :
      EngineMoves g (.attempt n) .other { g.resumed with restartCount := n + 1 } (.attempting (n + 1))
  | attemptCancelled (g : ManagedEngine) (n : Nat) : EngineMoves g (.attempt n) .other g .ended
  | restartLimit (g : ManagedEngine) (n : Nat) : EngineMoves g (.attempt n) .fail { g with state := .failed } .ended
  | startAttempt (g : ManagedEngine) (n : Nat) :
      EngineMoves g (.attempting n) .other { g with controlGeneration := g.controlGeneration + 1, state := .starting }
        (.launching (g.controlGeneration + 1) (.restart n))
  | spawn {g : ManagedEngine} {c : Nat} {rest : List Nat} (h : g.crashed = c :: rest) :
      EngineMoves g .spawned .other { g with crashed := rest } (.crash c)
  | crashStopped {g : ManagedEngine} {c : Nat} (h : g.controlGeneration ≠ c ∨ g.userStopped = true) :
      EngineMoves g (.crash c) (if g.controlGeneration = c then .lapse else .other) g .ended
  | crashLimit {g : ManagedEngine} {c : Nat} (hc : g.controlGeneration = c) :
      EngineMoves g (.crash c) .fail { g with state := .failed } .ended
  | crashRestart {g : ManagedEngine} {c : Nat} (hc : g.controlGeneration = c) (hstop : g.userStopped = false) :
      EngineMoves g (.crash c) .other { g with restartCount := g.restartCount + 1, state := .restarting } (.backoff c)
  | backedOff (g : ManagedEngine) (c : Nat) : EngineMoves g (.backoff c) .other g (.launching c .crash)

inductive ProcessSteps : ManagedEngine → EngineEvent → ManagedEngine → Prop
  | exit {g : ManagedEngine} {i : Nat} {p : Proc} (hp : g.procs[i]? = some p) :
      ProcessSteps g .other { g with procs := g.procs.set i { p with alive := false } }
  | reap {g : ManagedEngine} {i : Nat} {p : Proc} (hp : g.procs[i]? = some p) (halive : p.alive = false)
      (hdone : p.done = false) : ProcessSteps g .other (g.reaped i p)

def supervisor : System ManagedEngine EngineOp EngineEvent where
  moves := EngineMoves
  disturbs := ProcessSteps
  starts _ t := t = .start ∨ t = .stop ∨ t = .restart ∨ t = .spawned

end Maistr0.NodeAgent
