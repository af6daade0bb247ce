import Maistr0.Discovery.Announcements

/-!
# The failover coordinator

`failover.go`: a node whose coordinator has failed holds an election, and the winner runs an orchestrator in its own
process. One call of `StartElection` gets past its guard at a time. Beside it run the goroutines of the servers built so
far, the watches over promoted servers with their step-downs, and `Close`. A step is what happens between two points at
which another goroutine can see the difference. What the network, the disk and the identity answer is left open.
-/

namespace Maistr0.Failover

open Discovery

/-! ### The agent -/

structure Agent where
  id : String
  localOrchestratorID : String := ""
  orchestratorID : String := ""
  orchestratorAddr : String := ""
  electionCandidateAddr : String := ""
  joined : Bool := false
deriving DecidableEq

namespace Agent

def beginElection (a : Agent) (address : String) : Agent := { a with electionCandidateAddr := address }

def endElection (a : Agent) : Agent := { a with electionCandidateAddr := "" }

/-- `PromoteToOrchestrator` after the certificate is pinned. -/
def promoteToOrchestrator (a : Agent) (address : String) : Agent :=
  { a with localOrchestratorID := a.id, orchestratorID := a.id, orchestratorAddr := address, electionCandidateAddr := "" }

def demoteFromOrchestrator (a : Agent) (orchestratorID address : String) : Agent :=
  { a with localOrchestratorID := "", orchestratorID := orchestratorID, orchestratorAddr := address,
           electionCandidateAddr := "", joined := false }

/-- The role the agent's own beacon announces; it is silent while a local orchestrator announces for the process. -/
def announcedRole (a : Agent) : Option Role :=
  if a.localOrchestratorID = a.id then none
  else some (if a.electionCandidateAddr ≠ "" then .candidate else .node)

theorem announcedRole_ne_orchestrator (a : Agent) : a.announcedRole ≠ some .orchestrator := by
  unfold announcedRole
  split
  · exact Option.some_ne_none _ |>.symm
  · split <;> exact fun h => Role.noConfusion (Option.some.inj h)

end Agent

/-! ### The election -/

def bestActiveOrchestrator (peers : List Peer) : Option Peer :=
  peers.foldl (fun best p =>
    if p.role ≠ .orchestrator then best
    else
      match best with
      | none => some p
      | some b => if outranks p.announcement b.announcement then some p else some b) none

def startupOrchestratorWinner (candidate : Announcement) (peers : List Peer) (preferActive : Bool) : Announcement :=
  match if preferActive then bestActiveOrchestrator peers else none with
  | some active => active.announcement
  | none => bestOrchestratorCandidate candidate peers

/-- The peers that may win: trusted, reachable, and standing or running. -/
def eligiblePeer (failedOrchestratorID : String) (isTrusted : String → Bool) (p : Peer) : Bool :=
  decide (p.id ≠ failedOrchestratorID) && decide (p.announcement.peerAddr ≠ "") &&
    (decide (p.role = .orchestrator) || decide (p.role = .candidate)) && isTrusted p.id

def failoverElectionWinner (candidate : Announcement) (peers : List Peer) (failedOrchestratorID : String)
    (isTrusted : String → Bool) : Announcement :=
  startupOrchestratorWinner candidate (peers.filter (eligiblePeer failedOrchestratorID isTrusted)) true

/-! ### The process -/

/-- How far the goroutine has come that runs a server: `Run` is under way, has returned, or the goroutine is through. -/
inductive RunStage where
  | created
  | running
  | returned
  | finished
deriving DecidableEq

structure Server where
  run : RunStage := .created
  retired : Bool := false
deriving DecidableEq

/-- The server serves and announces itself as orchestrator, as far as the ranking lets it. -/
def Server.Leads (s : Server) : Prop := s.run = .running ∧ s.retired = false

instance (s : Server) : Decidable s.Leads := inferInstanceAs (Decidable (_ ∧ _))

/-- Where `promote` gives up; the servers are the ones it has started by then. -/
inductive Failure where
  | closed
  | configure
  | address
  | dashboard
  | trust
  | identity
  | stopped (server : Nat)
  | unhealthy (server : Nat)
  | role (server : Nat)
  | reinstateTrust
  | reinstateStopped
  | reinstateRole
deriving DecidableEq

def Failure.started : Failure → Option Nat
  | .stopped server | .unhealthy server | .role server => some server
  | _ => none

def Failure.building : Failure → Bool
  | .configure | .address | .dashboard | .trust | .identity => true
  | _ => false

/-- How far the call of `StartElection` has come that is past the guard. -/
inductive Call where
  | idle
  | checking (failedID : String)
  | window (failedID address : String)
  | promote (address : String)
  | building (address : String)
  | waiting (address : String) (server : Nat)
  | switching (address : String) (server : Nat)
  | watching (server : Nat)
  | reinstating (address : String) (server : Nat)
  | reinstated (address : String) (server : Nat)
  | undoing (server : Nat)
  | resuming (address : String) (server : Nat)
  | restoring (server : Nat)
  | failed (failure : Failure)
  | promoted
  | ending
deriving DecidableEq

/-- A step-down that has given up `promoted` and has not retired the server yet, with the orchestrator it yields to. -/
structure StepDown where
  server : Nat
  targetID : String
  targetAddr : String
deriving DecidableEq

structure Process where
  agent : Agent
  closed : Bool := false
  running : Bool := false
  promoted : Option Nat := none
  retired : Option Nat := none
  server : Nat → Server := fun _ => {}
  built : Nat := 0
  call : Call := .idle
  watches : List Nat := []
  stepping : List StepDown := []

namespace Process

def setRun (p : Process) (id : Nat) (run : RunStage) : Process :=
  { p with server := Function.update p.server id { p.server id with run := run } }

def setRetired (p : Process) (id : Nat) (retired : Bool) : Process :=
  { p with server := Function.update p.server id { p.server id with retired := retired } }

/-- What the goroutine of a server does once `Run` has returned. -/
def forget (p : Process) (id : Nat) : Process :=
  { p with promoted := if p.promoted = some id then none else p.promoted
           retired := if p.retired = some id then none else p.retired }

inductive Actor where
  | election
  | other
deriving DecidableEq

inductive Step : Process → Actor → Process → Prop
  -- `StartElection`
  | entered {p : Process} (failedID : String) (hcall : p.call = .idle) (hclosed : p.closed = false)
      (hrunning : p.running = false) (hpromoted : p.promoted = none) :
      Step p .election { p with running := true, call := .checking failedID }
  | gaveUp {p : Process} {failedID : String} (hcall : p.call = .checking failedID) :
      Step p .election { p with call := .ending }
  | began {p : Process} {failedID : String} (address : String) (hcall : p.call = .checking failedID) (hid : failedID ≠ "") :
      Step p .election { p with agent := p.agent.beginElection address, call := .window failedID address }
  | interrupted {p : Process} {failedID address : String} (hcall : p.call = .window failedID address)
      (hclosed : p.closed = true) : Step p .election { p with call := .ending }
  | lost {p : Process} {failedID address : String} (score : Rat) (peers : List Peer) (isTrusted : String → Bool)
      (hcall : p.call = .window failedID address)
      (hwinner : (failoverElectionWinner { role := .candidate, id := p.agent.id, peerAddr := address, score := score } peers
        failedID isTrusted).id ≠ p.agent.id) :
      Step p .election { p with call := .ending }
  | won {p : Process} {failedID address : String} (score : Rat) (peers : List Peer) (isTrusted : String → Bool)
      (hcall : p.call = .window failedID address)
      (hwinner : (failoverElectionWinner { role := .candidate, id := p.agent.id, peerAddr := address, score := score } peers
        failedID isTrusted).id = p.agent.id) :
      Step p .election { p with call := .promote address }
  | ended {p : Process} (hcall : p.call = .ending) :
      Step p .election { p with agent := p.agent.endElection, running := false, call := .idle }
  | endedPromoted {p : Process} (hcall : p.call = .promoted) : Step p .election { p with running := false, call := .idle }
  | returnedError {p : Process} {failure : Failure} (hcall : p.call = .failed failure) :
      Step p .election { p with call := .ending }
  -- `promote`
  | refused {p : Process} {address : String} (hcall : p.call = .promote address) (hclosed : p.closed = true) :
      Step p .election { p with call := .failed .closed }
  | found {p : Process} {address : String} (id : Nat) (hcall : p.call = .promote address) (hclosed : p.closed = false)
      (hretired : p.retired = some id) : Step p .election { p with call := .reinstating address id }
  | configured {p : Process} {address : String} (hcall : p.call = .promote address) (hclosed : p.closed = false)
      (hretired : p.retired = none) : Step p .election { p with call := .building address }
  | buildFailed {p : Process} {address : String} (failure : Failure) (hcall : p.call = .building address)
      (hfailure : failure.building = true) : Step p .election { p with call := .failed failure }
  | buildRefused {p : Process} {address : String} (hcall : p.call = .building address) (hclosed : p.closed = true) :
      Step p .election { p with call := .failed .closed }
  | started {p : Process} {address : String} (hcall : p.call = .building address) (hclosed : p.closed = false) :
      Step p .election { p with
        promoted := some p.built
        server := Function.update p.server p.built { run := .running }
        built := p.built + 1
        call := .waiting address p.built }
  | healthy {p : Process} {address : String} {id : Nat} (hcall : p.call = .waiting address id) :
      Step p .election { p with call := .switching address id }
  | stopped {p : Process} {address : String} {id : Nat} (hcall : p.call = .waiting address id)
      (hrun : (p.server id).run = .returned ∨ (p.server id).run = .finished) :
      Step p .election { p with call := .failed (.stopped id) }
  | timedOut {p : Process} {address : String} {id : Nat} (hcall : p.call = .waiting address id) :
      Step p .election { p with call := .failed (.unhealthy id) }
  | switched {p : Process} {address : String} {id : Nat} (hcall : p.call = .switching address id) :
      Step p .election { p with agent := p.agent.promoteToOrchestrator address, call := .watching id }
  | switchFailed {p : Process} {address : String} {id : Nat} (hcall : p.call = .switching address id) :
      Step p .election { p with call := .failed (.role id) }
  | watched {p : Process} {id : Nat} (hcall : p.call = .watching id) :
      Step p .election { p with watches := if p.closed then p.watches else id :: p.watches, call := .promoted }
  -- `reinstate`
  | reinstateUntrusted {p : Process} {address : String} {id : Nat} (hcall : p.call = .reinstating address id) :
      Step p .election { p with call := .failed .reinstateTrust }
  | reinstated {p : Process} {address : String} {id : Nat} (hcall : p.call = .reinstating address id) :
      Step p .election { p.setRetired id false with call := .reinstated address id }
  | resumed {p : Process} {address : String} {id : Nat} (hcall : p.call = .reinstated address id)
      (hretired : p.retired = some id) :
      Step p .election { p with retired := none, promoted := some id, call := .resuming address id }
  | gone {p : Process} {address : String} {id : Nat} (hcall : p.call = .reinstated address id)
      (hretired : p.retired ≠ some id) : Step p .election { p with call := .undoing id }
  | undone {p : Process} {id : Nat} (hcall : p.call = .undoing id) :
      Step p .election { p.setRetired id true with call := .failed .reinstateStopped }
  | resumeSwitched {p : Process} {address : String} {id : Nat} (hcall : p.call = .resuming address id) :
      Step p .election { p with agent := p.agent.promoteToOrchestrator address, call := .watching id }
  | resumeFailed {p : Process} {address : String} {id : Nat} (hcall : p.call = .resuming address id) :
      Step p .election { p.setRetired id true with call := .restoring id }
  | restored {p : Process} {id : Nat} (hcall : p.call = .restoring id) (hpromoted : p.promoted = some id) :
      Step p .election { p with promoted := none, retired := some id, call := .failed .reinstateRole }
  | notRestored {p : Process} {id : Nat} (hcall : p.call = .restoring id) (hpromoted : p.promoted ≠ some id) :
      Step p .election { p with call := .failed .reinstateRole }
  -- the goroutines of the servers
  | runReturned {p : Process} (id : Nat) (hrun : (p.server id).run = .running) : Step p .other (p.setRun id .returned)
  | runFinished {p : Process} (id : Nat) (hrun : (p.server id).run = .returned) :
      Step p .other ((p.setRun id .finished).forget id)
  -- the watches
  | watchEnded {p : Process} (id : Nat) (hwatch : id ∈ p.watches) : Step p .other { p with watches := p.watches.erase id }
  | stepDown {p : Process} (id : Nat) (targetID targetAddr : String) (hwatch : id ∈ p.watches)
      (hpromoted : p.promoted = some id) :
      Step p .other { p with
        promoted := none
        retired := some id
        watches := p.watches.erase id
        stepping := ⟨id, targetID, targetAddr⟩ :: p.stepping }
  | steppedDown {p : Process} (s : StepDown) (hstepping : s ∈ p.stepping) :
      Step p .other { p.setRetired s.server true with
        agent := p.agent.demoteFromOrchestrator s.targetID s.targetAddr
        stepping := p.stepping.erase s }
  -- `Close`
  | closed {p : Process} : Step p .other { p with closed := true, promoted := none, retired := none }

def start (agentID : String) : Process := { agent := { id := agentID } }

def Run : Process → Process → Prop := Relation.ReflTransGen fun p p' => ∃ actor, Step p actor p'

end Process

end Maistr0.Failover
