import Maistr0.Lib.Guarded

/-!
# The operations on a shard group

One group of the `ShardManager` with everything the manager and its store keep of it, as a step function. The
operations of a group exclude each other, so that where the current one is belongs to the state; each section under
the manager's lock is one step, and so is each save, each engine call and each wait. The outcome of a step is its
input: whether a save, a stop, a start, a reservation or a check goes well, and what the planner returns. `Recover`
runs before any other operation of the process; `Close` is taken to see the group as it is when its operation begins.
-/

namespace Maistr0.Shards

inductive ShardGroupState
  | planning
  | startingWorkers
  | startingHead
  | ready
  | degraded
  | failed
  | stopping
  | stopped
  deriving DecidableEq

structure ShardGroupMember where
  nodeID : String
  engineID : String
  started : Bool := false
  deriving DecidableEq

structure ShardGroup where
  state : ShardGroupState := .planning
  members : List ShardGroupMember := []
  deriving DecidableEq

inductive ShardCall
  | create
  | start
  | restart
  | reconfigure
  | stop
  | delete
  | checkHealth
  | close
  deriving DecidableEq

inductive ShardFailure
  /-- The wait for the outstanding request. -/
  | cancelled
  | stopping
  | stopped
  /-- A later save, or the removal from the store. -/
  | save
  | other
  deriving DecidableEq

inductive Teardown
  | stopGroup
  | delete
  | checkHealth
  | close
  | failCreate (cause : ShardFailure)
  | finishStop
  /-- `Recover` of a group that is not ready. -/
  | abandon
  deriving DecidableEq

inductive Stage
  | idle
  | gone
  | loaded
  | begun
  /-- Saves the group, and goes on in one way or the other. -/
  | saving (ok fail : Stage)
  | waiting (t : Teardown)
  | stopping (t : Teardown) (todo : List Nat) (failed : Bool)
  | finishing (t : Teardown) (failed : Bool)
  | completing
  /-- `startOrRestart` before it looks for another owner of the model. -/
  | owning
  | replanning
  | planning
  | failing (cause : ShardFailure)
  | reserving
  /-- Before the start of a member. -/
  | launching (i : Nat)
  | readying
  | confirming
  /-- `Recover` could not save that the group is ready. -/
  | unready
  | done (failure : Option ShardFailure)
  deriving DecidableEq

structure Shard where
  group : ShardGroup := {}
  saved : Option ShardGroup := none
  recovery : Option ShardGroupState := none
  verified : Bool := false
  tokens : Nat := 1
  /-- The `AcquireRequest` calls that wait for the gate, that have taken its token, and that have returned it as a
  request to be released. -/
  waiting : Nat := 0
  taken : Nat := 0
  outstanding : Nat := 0
  reservation : Option Nat := none
  /-- The reservations are numbered. -/
  obtained : Nat := 0
  released : List Nat := []
  call : ShardCall := .create
  before : ShardGroupState := .planning
  /-- The call has sent a stop to an engine. -/
  sent : Bool := false
  stage : Stage := .saving .planning .gone

def ShardGroup.startedMembers (g : ShardGroup) : List Nat :=
  (List.range g.members.length).reverse.filter fun i => (g.members[i]?.map (·.started)) == some true

namespace Shard

variable (s : Shard)

def setState (state : ShardGroupState) (ok fail : Stage) : Shard :=
  { s with group := { s.group with state }, stage := .saving ok fail }

def setStarted (i : Nat) (started : Bool) (ok fail : Stage) : Shard :=
  { s with group := { s.group with members := s.group.members.modify i ({ · with started }) }, stage := .saving ok fail }

/-- A reservation's second `Release` does nothing. -/
def releaseReservation : Shard :=
  match s.reservation with
  | none => { s with verified := false }
  | some r =>
    { s with verified := false, reservation := none, released := if r ∈ s.released then s.released else r :: s.released }

def reserve (stage : Stage) : Shard := { s with reservation := some s.obtained, obtained := s.obtained + 1, stage }

def goTo (stage : Stage) : Shard := { s with stage }

/-- What the call does first. `ok` stands for the health check and the validation of `Reconfigure`. -/
def look (ok : Bool) : Shard :=
  match s.call, s.group.state with
  | .checkHealth, .ready => if ok then s.goTo (.done none) else s.setState .degraded (.done none) (.done (some .other))
  | .checkHealth, .degraded => s.goTo (.waiting .checkHealth)
  | .checkHealth, _ | .stop, .stopped | .start, .ready => s.goTo (.done none)
  | .start, .stopped | .restart, .stopped => s.goTo .owning
  | .start, .failed | .restart, _ | .stop, _ => s.setState .stopping (.waiting .stopGroup) (.done (some .stopping))
  | .reconfigure, .stopped => s.goTo (if ok then .replanning else .done (some .other))
  | .reconfigure, .ready | .reconfigure, .failed | .reconfigure, .degraded =>
    if ok then s.setState .stopping (.waiting .stopGroup) (.done (some .stopping)) else s.goTo (.done (some .other))
  | .start, _ | .reconfigure, _ | .create, _ => s.goTo (.done (some .other))
  | .delete, _ => s.setState .stopping (.waiting .delete) (.done (some .stopping))
  | .close, _ => s.setState .stopping (.waiting .close) (.waiting .close)

def cancel : Teardown → Shard
  | .stopGroup => s.setState s.before (.done (some .cancelled)) (.done (some .cancelled))
  | .close => s.goTo (.stopping .close s.group.startedMembers false)
  | _ => s.goTo (.done (some .cancelled))

def afterStop : Stage :=
  match s.call with
  | .start | .restart => .owning
  | .reconfigure => .replanning
  | _ => .done none

def finish (failed ok : Bool) : Teardown → Shard
  | .stopGroup =>
    if failed then s.setState .failed (.done (some .other)) (.done (some .other))
    else s.setState .stopped s.afterStop (.done (some .stopped))
  | .delete =>
    if failed then s.setState .failed (.done (some .other)) (.done (some .other))
    else if ok then { s with saved := none, stage := .gone }
    else s.setState .failed (.done (some .save)) (.done (some .save))
  | .checkHealth =>
    { s with saved := if ok then some { s.group with state := .failed } else s.saved, stage := .completing }
  | .close => s.setState .failed (.done (some .other)) (.done (some .other))
  | .failCreate cause => s.setState .failed (.done (some cause)) (.done (some cause))
  | .finishStop =>
    if failed then s.setState .failed (.done (some .other)) (.done (some .other))
    else s.setState .stopped (.done none) (.done (some .other))
  | .abandon => s.setState .failed .confirming (.done (some .other))

/-- `Recover`. `ok`: the members are ready and were reserved. -/
def recover (ok : Bool) : Shard :=
  if s.recovery = some .failed ∨ s.group.state = .failed ∨ s.group.state = .stopped then
    { s with verified := true, stage := .idle }
  else if s.recovery = some .stopping then s.goTo (.stopping .finishStop s.group.startedMembers false)
  else if ok then s.reserve .readying
  else s.goTo (.stopping .abandon (List.range s.group.members.length).reverse false)

def launch (i : Nat) (ok : Bool) : Shard :=
  if s.group.members.length ≤ i then s.setState .ready .confirming (.failing .save)
  else if !ok then s.goTo (.failing .other)
  else if i + 1 = s.group.members.length ∧ s.group.state ≠ .startingHead then
    s.setState .startingHead (.launching i) (.failing .save)
  else s.setStarted i true (.launching (i + 1)) (.failing .save)

def proceed (ok : Bool) : Shard :=
  match s.stage with
  | .idle | .gone => s
  | .loaded => s.recover ok
  | .begun => s.look ok
  | .saving next fail => if ok then { s with saved := some s.group, stage := next } else s.goTo fail
  | .waiting t =>
    if !ok then s.cancel t
    else if s.tokens = 0 then s
    else s.goTo (.stopping t s.group.startedMembers false)
  | .stopping t [] failed =>
    (if failed ∧ (t = .stopGroup ∨ t = .finishStop) then s else s.releaseReservation).goTo (.finishing t failed)
  | .stopping t (i :: todo) failed =>
    if ok then { s.setStarted i false (.stopping t todo failed) (.stopping t todo true) with sent := true }
    else { s with sent := true, stage := .stopping t todo true }
  | .finishing t failed => s.finish failed ok t
  | .completing => { s with group := { s.group with state := .failed }, stage := .idle }
  | .owning => if ok then s.setState .planning .planning (.failing .save) else s.goTo (.done (some .other))
  | .replanning => s.setState .planning .planning (.done (some .save))
  | .planning => s.goTo (.failing .other)
  | .failing cause => s.goTo (.stopping (.failCreate cause) s.group.startedMembers false)
  | .reserving => if ok then s.reserve (.launching 0) else s.goTo (.failing .other)
  | .launching i => s.launch i ok
  | .readying => s.setState .ready .confirming .unready
  | .confirming => { s with verified := true, stage := .done none }
  | .unready => s.releaseReservation.goTo (.done (some .other))
  | .done _ => s.goTo .idle

end Shard

inductive ShardInput
  | call (c : ShardCall)
  | proceed (ok : Bool)
  | claim (members : List ShardGroupMember)
  /-- An engine was started and does not report ready. -/
  | notReady
  /-- `Recover` has returned before it came to the group. -/
  | skip
  /-- The steps of `AcquireRequest` and of the release. -/
  | check
  | giveUp
  | take
  | recheck
  | release
  deriving DecidableEq

namespace Shard

def step (s : Shard) : ShardInput → Shard
  | .call c =>
    if s.stage = .idle ∧ c ≠ .create ∧ (c = .checkHealth → s.verified = true) then
      { s with call := c, before := s.group.state, sent := false, stage := .begun }
    else s
  | .proceed ok => s.proceed ok
  | .claim members =>
    if s.stage = .planning then
      { s with
        group := { state := .startingWorkers, members := members.map ({ · with started := false }) }
        stage := .saving .reserving (.failing .save) }
    else s
  | .notReady =>
    match s.stage with
    | .launching i =>
      if s.group.members.length ≤ i ∨ i + 1 = s.group.members.length ∧ s.group.state ≠ .startingHead then s
      else s.setStarted i true (.failing .other) (.failing .save)
    | _ => s
  | .skip => if s.stage = .loaded then s.goTo .idle else s
  | .check => if s.group.state = .ready ∧ s.stage ≠ .gone then { s with waiting := s.waiting + 1 } else s
  | .giveUp => { s with waiting := s.waiting - 1 }
  | .take =>
    if 0 < s.waiting ∧ 0 < s.tokens then
      { s with waiting := s.waiting - 1, tokens := s.tokens - 1, taken := s.taken + 1 }
    else s
  | .recheck =>
    if s.taken = 0 then s
    else if s.group.state = .ready ∧ s.stage ≠ .gone then
      { s with taken := s.taken - 1, outstanding := s.outstanding + 1 }
    else { s with taken := s.taken - 1, tokens := s.tokens + 1 }
  | .release =>
    if s.outstanding = 0 then s else { s with outstanding := s.outstanding - 1, tokens := s.tokens + 1 }

def load (s : Shard) : Shard :=
  match s.saved with
  | none => { stage := .gone }
  | some g =>
    { group := { g with state := if g.state = .failed ∨ g.state = .stopped then g.state else .degraded }
      saved := some g, recovery := some g.state, stage := .loaded }

end Shard

end Maistr0.Shards
