import Maistr0.Go
import Maistr0.Lib.Interleaving
import Maistr0.Lib.Keyed

/-!
# Reserving capacity on nodes

`dispatchCapacityGate` of the orchestrator: `Reserve` takes a unit on one of its candidates and then a global
slot, `ReservePipeline` takes a global slot and then a unit on each of its nodes, `ReserveShardNodes` takes
the units alone. Before it asks for a unit, a call refreshes the gate of the node with what the registry
says about the node, and probes the node if that is too old.

Any number of calls run at once. What one call does while it holds a lock is one move here; the check and
the grants of `ReservePipeline` and `ReserveShardNodes` are one move because all gates are locked then. A
call that waits may always go on, since a ticker wakes it up.
-/

namespace Maistr0.Orchestrator

open Go

/-! ### The registry -/

/-- What the gate reads of `cluster.NodeStatus`. -/
structure NodeStatus where
  id : String
  address : String
  activeTasks : Int := 0
  maxConcurrentTasks : Int := 0
  availableCapacity : Int := 0
  lastSeen : Time := 0
  healthy : Bool := true
deriving DecidableEq

structure CapacityTarget where
  nodeID : String
  address : String
deriving DecidableEq

abbrev Registry := Lib.Keyed NodeStatus.id

namespace Registry

def upsert (r : Registry) (status : NodeStatus) (now : Time) : Registry :=
  r.put { status with lastSeen := now, healthy := true }

def markUnhealthy (r : Registry) (id : String) : Registry :=
  match r.get? id with
  | some n => r.put { n with healthy := false }
  | none => r

def remove (r : Registry) (id : String) : Registry := r.erase id

def incrementLoad (r : Registry) (id : String) (delta : Int) : Registry :=
  match r.get? id with
  | some n => r.put { n with activeTasks := if n.activeTasks + delta < 0 then 0 else n.activeTasks + delta }
  | none => r

def lookup (r : Registry) (target : CapacityTarget) : Option NodeStatus :=
  (r.get? target.nodeID).filter fun status => status.healthy && status.address = target.address

end Registry

/-! ### The gate of one node -/

/-- The first three results of `dispatchCapacity`. -/
structure Capacity where
  limit : Int
  available : Int
  reportedActive : Int

def Capacity.occupied (c : Capacity) : Int := max (c.limit - c.available) c.reportedActive

/-- `refreshing` says that there is a `refreshDone`, and `refreshes` counts those that have been closed. -/
structure NodeDispatchGate where
  limit : Int
  active : Int := 0
  external : Int := 0
  refreshing : Bool := false
  refreshes : Nat := 0

def newNodeDispatchGate (limit : Int) : NodeDispatchGate where limit := limit

namespace NodeDispatchGate

def beginRefresh (g : NodeDispatchGate) : NodeDispatchGate := { g with refreshing := true }

def endRefresh (g : NodeDispatchGate) : NodeDispatchGate := { g with refreshing := false, refreshes := g.refreshes + 1 }

def setCapacity (g : NodeDispatchGate) (c : Capacity) : NodeDispatchGate :=
  let external := max 0 (c.occupied - g.active)
  if c.limit ≠ g.limit ∨ external ≠ g.external then { g with limit := c.limit, external := external } else g

def HasRoom (g : NodeDispatchGate) : Prop := g.active + g.external < g.limit

instance (g : NodeDispatchGate) : Decidable g.HasRoom := inferInstanceAs (Decidable (_ < _))

def grant (g : NodeDispatchGate) : NodeDispatchGate := { g with active := g.active + 1 }

def release (g : NodeDispatchGate) : NodeDispatchGate := { g with active := g.active - 1 }

theorem setCapacity_eq (g : NodeDispatchGate) (c : Capacity) :
    g.setCapacity c = { g with limit := c.limit, external := max 0 (c.occupied - g.active) } := by
  unfold setCapacity
  simp only
  split
  · rfl
  rename_i hsame
  simp only [ne_eq, not_or, not_not] at hsame
  rw [hsame.1, hsame.2]

end NodeDispatchGate

/-! ### The gate -/

/-- `globalLimit` is the fallback limit of a node and the capacity of the channel `slots`, which holds `slots`
elements. -/
structure DispatchCapacityGate where
  registry : Registry := ∅
  globalLimit : Nat
  slots : Nat := 0
  nodeGates : String → Option NodeDispatchGate := fun _ => none
  now : Time := 0

def nodeCapacityFreshnessWindow : Duration := 6 * 1000000000

namespace DispatchCapacityGate

def gate (g : DispatchCapacityGate) (node : String) : NodeDispatchGate :=
  (g.nodeGates node).getD (newNodeDispatchGate 0)

def active (g : DispatchCapacityGate) (node : String) : Int := (g.gate node).active

def update (g : DispatchCapacityGate) (node : String) (f : NodeDispatchGate → NodeDispatchGate) : DispatchCapacityGate :=
  { g with nodeGates := Function.update g.nodeGates node (some (f (g.gate node))) }

def nodeDispatchGate (g : DispatchCapacityGate) (node : String) (limit : Int) : DispatchCapacityGate :=
  match g.nodeGates node with
  | some _ => g
  | none => { g with nodeGates := Function.update g.nodeGates node (some (newNodeDispatchGate limit)) }

def limitOf (g : DispatchCapacityGate) (status : NodeStatus) : Int :=
  if status.maxConcurrentTasks ≤ 0 then g.globalLimit else status.maxConcurrentTasks

def capacityOf (g : DispatchCapacityGate) (status : NodeStatus) : Capacity where
  limit := g.limitOf status
  available := if status.maxConcurrentTasks ≤ 0 then g.globalLimit else status.availableCapacity
  reportedActive := status.activeTasks

def grantAll (g : DispatchCapacityGate) (nodes : List String) : DispatchCapacityGate :=
  nodes.foldl (fun g node => g.update node .grant) g

section

variable (g : DispatchCapacityGate)

include g

theorem gate_update (node : String) (f : NodeDispatchGate → NodeDispatchGate) (n : String) :
    (g.update node f).gate n = if n = node then f (g.gate node) else g.gate n := by
  unfold gate update
  simp only [Function.update_apply]
  split <;> rfl

theorem active_update (node : String) (f : NodeDispatchGate → NodeDispatchGate) (n : String) :
    (g.update node f).active n = if n = node then (f (g.gate node)).active else g.active n := by
  unfold active
  rw [gate_update]
  split <;> rfl

theorem active_update_of_same {node : String} {f : NodeDispatchGate → NodeDispatchGate}
    (hf : (f (g.gate node)).active = (g.gate node).active) (n : String) : (g.update node f).active n = g.active n := by
  rw [active_update]
  split
  · rename_i hn
    rw [hn, hf]
    rfl
  · rfl

theorem active_nodeDispatchGate (node : String) (limit : Int) (n : String) :
    (g.nodeDispatchGate node limit).active n = g.active n := by
  unfold nodeDispatchGate
  cases hnode : g.nodeGates node with
  | some => rfl
  | none =>
    simp only [active, gate, Function.update_apply]
    split
    · rename_i hn
      rw [hn, hnode]
      rfl
    · rfl

theorem active_grantAll (nodes : List String) (n : String) :
    (g.grantAll nodes).active n = g.active n + nodes.count n := by
  induction nodes generalizing g with
  | nil => exact (Int.add_zero _).symm
  | cons node nodes ih =>
    change ((g.update node .grant).grantAll nodes).active n = _
    rw [ih, active_update, List.count_cons]
    by_cases hn : n = node
    · subst hn
      simp only [if_true, beq_self_eq_true, NodeDispatchGate.grant, active]
      omega
    · simp [hn, Ne.symm hn]

theorem grantAll_frame (nodes : List String) :
    (g.grantAll nodes).registry = g.registry ∧ (g.grantAll nodes).slots = g.slots ∧
      (g.grantAll nodes).globalLimit = g.globalLimit := by
  induction nodes generalizing g with
  | nil => exact ⟨rfl, rfl, rfl⟩
  | cons node _ ih => exact ih (g.update node .grant)

theorem nodeDispatchGate_frame (node : String) (limit : Int) :
    (g.nodeDispatchGate node limit).registry = g.registry ∧ (g.nodeDispatchGate node limit).slots = g.slots ∧
      (g.nodeDispatchGate node limit).globalLimit = g.globalLimit := by
  unfold nodeDispatchGate
  split <;> exact ⟨rfl, rfl, rfl⟩

end

end DispatchCapacityGate

/-! ### Calls -/

inductive Kind where
  | dispatch
  | pipeline
  | shard
deriving DecidableEq

namespace Kind

def slotted : Kind → Bool
  | dispatch => true
  | pipeline => true
  | shard => false

def atLeast : Kind → Nat
  | pipeline => 2
  | _ => 1

def tooFew : Kind → String
  | dispatch => "capacity reservation requires at least one node"
  | pipeline => "pipeline capacity reservation requires at least two nodes"
  | shard => "shard capacity reservation requires at least one node"

def candidate : Kind → String
  | dispatch => "capacity reservation candidate"
  | pipeline => "pipeline capacity candidate"
  | shard => "shard capacity candidate"

def unavailable : Kind → String
  | dispatch => "node is no longer available"
  | pipeline => "pipeline node is no longer available"
  | shard => "a shard member is no longer available"

end Kind

/-- Where a call is with one node, up to the end of `setCapacity`. -/
inductive Visit where
  | looking
  /-- At the head of the loop of `dispatchCapacity`. -/
  | reading
  | stale
  | joined (refreshes : Nat)
  | probing
  | ending (result : Option Capacity)
  | setting (capacity : Capacity)
  | unavailable
  | refreshed

inductive Reserving where
  | loop
  | visiting (target : CapacityTarget) (rest : List CapacityTarget) (healthyCandidates : Nat) (visit : Visit)
  | scanned (healthyCandidates : Nat)
  | awaitingSlot (target : CapacityTarget)
  | slotTaken (target : CapacityTarget)
  | waiting

inductive ReservingAll where
  | loop
  | visiting (gates : List String) (target : CapacityTarget) (rest : List CapacityTarget) (visit : Visit)
  | visited (gates : List String) (healthy : Bool)
  | awaitingSlot (gates : List String)
  | rechecking (gates : List String) (rest : List CapacityTarget)
  | locking (gates : List String)
  | acquired (gates : List String)
  | givingSlotBack
  | waiting

structure Reservation where
  kind : Kind
  targets : List CapacityTarget
  gates : List String
  loaded : Bool := false

/-- A call, the reservation it has returned, or the error. `ctx` is the error of the context, if it is done. -/
inductive Task where
  | reserve (candidates : List CapacityTarget) (ctx : Option String) (stage : Reserving)
  | reserveAll (kind : Kind) (targets : List CapacityTarget) (ctx : Option String) (stage : ReservingAll)
  | rollback (nodes : List String) (slot : Bool) (err : String)
  | failed (err : String)
  | reserved (r : Reservation)
  | releasing (r : Reservation) (nodes : List String) (slot : Bool)
  | released (r : Reservation)
  | panicked
  /-- `snapshotNodeCapacity` for a status that `clusterHealth` has read. -/
  | observing (status : NodeStatus)
  | observed

inductive Event where
  | silent
  | report (status : NodeStatus)
  | refresh (node : String) (capacity : Capacity)
  | grant (nodes : List String)

namespace Task

def nodes : Task → List String
  | reserve _ _ (.awaitingSlot target) => [target.nodeID]
  | reserve _ _ (.slotTaken target) => [target.nodeID]
  | reserveAll _ _ _ (.acquired gates) => gates
  | rollback nodes _ _ => nodes
  | reserved r => r.gates
  | releasing _ nodes _ => nodes
  | _ => []

def units (node : String) (t : Task) : Nat := t.nodes.count node

def slot : Task → Nat
  | reserve _ _ (.slotTaken _) => 1
  | reserveAll kind _ _ (.rechecking _ _) => kind.slotted.toNat
  | reserveAll kind _ _ (.locking _) => kind.slotted.toNat
  | reserveAll kind _ _ (.acquired _) => kind.slotted.toNat
  | reserveAll _ _ _ .givingSlotBack => 1
  | rollback _ slot _ => slot.toNat
  | reserved r => r.kind.slotted.toNat
  | releasing _ _ slot => slot.toNat
  | panicked => 1
  | _ => 0

end Task

def Reserving.next (healthyCandidates : Nat) : List CapacityTarget → Reserving
  | [] => scanned healthyCandidates
  | target :: rest => visiting target rest healthyCandidates .looking

def ReservingAll.next (gates : List String) : List CapacityTarget → ReservingAll
  | [] => visited gates true
  | target :: rest => visiting gates target rest .looking

theorem Task.units_reserve_next (candidates : List CapacityTarget) (ctx : Option String) (n : Nat)
    (rest : List CapacityTarget) (node : String) : (reserve candidates ctx (.next n rest)).units node = 0 := by
  cases rest <;> rfl

theorem Task.slot_reserve_next (candidates : List CapacityTarget) (ctx : Option String) (n : Nat)
    (rest : List CapacityTarget) : (reserve candidates ctx (.next n rest)).slot = 0 := by
  cases rest <;> rfl

theorem Task.units_reserveAll_next (kind : Kind) (targets : List CapacityTarget) (ctx : Option String)
    (gates : List String) (rest : List CapacityTarget) (node : String) :
    (reserveAll kind targets ctx (.next gates rest)).units node = 0 := by
  cases rest <;> rfl

theorem Task.slot_reserveAll_next (kind : Kind) (targets : List CapacityTarget) (ctx : Option String)
    (gates : List String) (rest : List CapacityTarget) : (reserveAll kind targets ctx (.next gates rest)).slot = 0 := by
  cases rest <;> rfl

/-- The first error of the loop over the sorted targets. -/
def checkTargets (kind : Kind) (previous : Option String) : List CapacityTarget → Option String
  | [] => none
  | target :: rest =>
    if target.nodeID = "" ∨ target.address = "" then some (kind.candidate ++ " requires a node ID and address")
    else if previous = some target.nodeID then some (kind.candidate ++ " \"" ++ target.nodeID ++ "\" is duplicated")
    else checkTargets kind (some target.nodeID) rest

def startReserve (candidates : List CapacityTarget) : Task :=
  if candidates.length < Kind.dispatch.atLeast then .failed Kind.dispatch.tooFew
  else if ∃ c ∈ candidates, c.nodeID = "" ∨ c.address = "" then
    .failed (Kind.dispatch.candidate ++ " requires a node ID and address")
  else .reserve candidates none .loop

def startReserveAll (kind : Kind) (candidates : List CapacityTarget) : Task :=
  if candidates.length < kind.atLeast then .failed kind.tooFew
  else
    let targets := candidates.insertionSort fun a b => a.nodeID ≤ b.nodeID
    match checkTargets kind none targets with
    | some err => .failed err
    | none => .reserveAll kind targets none .loop

/-! ### Moves -/

/-- A call looks at one node: it finds the node in the registry, runs `dispatchCapacity` and `setCapacity`. -/
inductive VisitStep (ctx : Option String) (target : CapacityTarget) :
    DispatchCapacityGate → Visit → Event → DispatchCapacityGate → Visit → Prop
  | absent {g} (h : g.registry.lookup target = none) : VisitStep ctx target g .looking .silent g .unavailable
  | present {g status} (h : g.registry.lookup target = some status) :
      VisitStep ctx target g .looking .silent (g.nodeDispatchGate target.nodeID (g.limitOf status)) .reading
  | gone {g} (h : g.registry.lookup target = none) : VisitStep ctx target g .reading .silent g .unavailable
  | fresh {g status} (h : g.registry.lookup target = some status)
      (hfresh : sub g.now status.lastSeen ≤ nodeCapacityFreshnessWindow) :
      VisitStep ctx target g .reading .silent g (.setting (g.capacityOf status))
  | stale {g status} (h : g.registry.lookup target = some status)
      (hstale : nodeCapacityFreshnessWindow < sub g.now status.lastSeen) :
      VisitStep ctx target g .reading .silent g .stale
  | own {g} (h : (g.gate target.nodeID).refreshing = false) :
      VisitStep ctx target g .stale .silent (g.update target.nodeID .beginRefresh) .probing
  | join {g} (h : (g.gate target.nodeID).refreshing = true) :
      VisitStep ctx target g .stale .silent g (.joined (g.gate target.nodeID).refreshes)
  | abandon {g refreshes err} (h : ctx = some err) :
      VisitStep ctx target g (.joined refreshes) .silent g .unavailable
  | again {g refreshes} (h : refreshes < (g.gate target.nodeID).refreshes) :
      VisitStep ctx target g (.joined refreshes) .silent g .reading
  | probeCancelled {g err} (h : ctx = some err) : VisitStep ctx target g .probing .silent g (.ending none)
  | probeFailed {g} (h : ctx = none) :
      VisitStep ctx target g .probing .silent { g with registry := g.registry.markUnhealthy target.nodeID } (.ending none)
  | probeMismatch {g} (answer : NodeStatus) (h : answer.id ≠ target.nodeID ∨ answer.address ≠ target.address) :
      VisitStep ctx target g .probing .silent { g with registry := g.registry.markUnhealthy target.nodeID } (.ending none)
  | probed {g} (answer : NodeStatus) (hid : answer.id = target.nodeID) (haddress : answer.address = target.address) :
      VisitStep ctx target g .probing (.report answer) { g with registry := g.registry.upsert answer g.now }
        (.ending (some (g.capacityOf answer)))
  | endFailed {g} : VisitStep ctx target g (.ending none) .silent (g.update target.nodeID .endRefresh) .unavailable
  | endProbed {g c} : VisitStep ctx target g (.ending (some c)) .silent (g.update target.nodeID .endRefresh) (.setting c)
  | set {g c} :
      VisitStep ctx target g (.setting c) (.refresh target.nodeID c) (g.update target.nodeID (·.setCapacity c)) .refreshed

inductive ReserveStep (candidates : List CapacityTarget) (ctx : Option String) :
    DispatchCapacityGate → Reserving → Event → DispatchCapacityGate → Task → Prop
  | done {g err} (h : ctx = some err) : ReserveStep candidates ctx g .loop .silent g (.failed err)
  | loop {g} (h : ctx = none) :
      ReserveStep candidates ctx g .loop .silent g (.reserve candidates ctx (.next 0 candidates))
  | visit {g target rest n v e g' v'} (h : VisitStep ctx target g v e g' v') :
      ReserveStep candidates ctx g (.visiting target rest n v) e g' (.reserve candidates ctx (.visiting target rest n v'))
  | skip {g target rest n} :
      ReserveStep candidates ctx g (.visiting target rest n .unavailable) .silent g
        (.reserve candidates ctx (.next n rest))
  | acquire {g target rest n} (h : (g.gate target.nodeID).HasRoom) :
      ReserveStep candidates ctx g (.visiting target rest n .refreshed) (.grant [target.nodeID])
        (g.update target.nodeID .grant) (.reserve candidates ctx (.awaitingSlot target))
  | full {g target rest n} (h : ¬ (g.gate target.nodeID).HasRoom) :
      ReserveStep candidates ctx g (.visiting target rest n .refreshed) .silent g
        (.reserve candidates ctx (.next (n + 1) rest))
  | scannedDone {g n err} (h : ctx = some err) : ReserveStep candidates ctx g (.scanned n) .silent g (.failed err)
  | noneHealthy {g} (h : ctx = none) :
      ReserveStep candidates ctx g (.scanned 0) .silent g (.failed Kind.dispatch.unavailable)
  | wait {g n} (h : ctx = none) (hn : n ≠ 0) :
      ReserveStep candidates ctx g (.scanned n) .silent g (.reserve candidates ctx .waiting)
  | waitDone {g err} (h : ctx = some err) : ReserveStep candidates ctx g .waiting .silent g (.failed err)
  | waited {g} : ReserveStep candidates ctx g .waiting .silent g (.reserve candidates ctx .loop)
  | takeSlot {g target} (h : g.slots < g.globalLimit) :
      ReserveStep candidates ctx g (.awaitingSlot target) .silent { g with slots := g.slots + 1 }
        (.reserve candidates ctx (.slotTaken target))
  | slotDone {g target err} (h : ctx = some err) :
      ReserveStep candidates ctx g (.awaitingSlot target) .silent g (.rollback [target.nodeID] false err)
  | lateDone {g target err} (h : ctx = some err) :
      ReserveStep candidates ctx g (.slotTaken target) .silent g (.rollback [target.nodeID] true err)
  | reserved {g target} (h : ctx = none) :
      ReserveStep candidates ctx g (.slotTaken target) .silent g
        (.reserved { kind := .dispatch, targets := [target], gates := [target.nodeID] })

inductive ReserveAllStep (kind : Kind) (targets : List CapacityTarget) (ctx : Option String) :
    DispatchCapacityGate → ReservingAll → Event → DispatchCapacityGate → Task → Prop
  | done {g err} (h : ctx = some err) : ReserveAllStep kind targets ctx g .loop .silent g (.failed err)
  | loop {g} (h : ctx = none) :
      ReserveAllStep kind targets ctx g .loop .silent g (.reserveAll kind targets ctx (.next [] targets))
  | visit {g gates target rest v e g' v'} (h : VisitStep ctx target g v e g' v') :
      ReserveAllStep kind targets ctx g (.visiting gates target rest v) e g'
        (.reserveAll kind targets ctx (.visiting gates target rest v'))
  | leave {g gates target rest} :
      ReserveAllStep kind targets ctx g (.visiting gates target rest .unavailable) .silent g
        (.reserveAll kind targets ctx (.visited gates false))
  | next {g gates target rest} :
      ReserveAllStep kind targets ctx g (.visiting gates target rest .refreshed) .silent g
        (.reserveAll kind targets ctx (.next (gates ++ [target.nodeID]) rest))
  | visitedDone {g gates healthy err} (h : ctx = some err) :
      ReserveAllStep kind targets ctx g (.visited gates healthy) .silent g (.failed err)
  | unhealthy {g gates} (h : ctx = none) :
      ReserveAllStep kind targets ctx g (.visited gates false) .silent g (.failed kind.unavailable)
  | healthy {g gates} (h : ctx = none) :
      ReserveAllStep kind targets ctx g (.visited gates true) .silent g
        (.reserveAll kind targets ctx (if kind.slotted then .awaitingSlot gates else .rechecking gates targets))
  | takeSlot {g gates} (h : g.slots < g.globalLimit) (hkind : kind.slotted) :
      ReserveAllStep kind targets ctx g (.awaitingSlot gates) .silent { g with slots := g.slots + 1 }
        (.reserveAll kind targets ctx (.rechecking gates targets))
  | slotDone {g gates err} (h : ctx = some err) :
      ReserveAllStep kind targets ctx g (.awaitingSlot gates) .silent g (.failed err)
  | slotLater {g gates} :
      ReserveAllStep kind targets ctx g (.awaitingSlot gates) .silent g (.reserveAll kind targets ctx .loop)
  | recheck {g gates target rest status} (h : g.registry.lookup target = some status) :
      ReserveAllStep kind targets ctx g (.rechecking gates (target :: rest)) .silent g
        (.reserveAll kind targets ctx (.rechecking gates rest))
  | lost {g gates target rest} (h : g.registry.lookup target = none) :
      ReserveAllStep kind targets ctx g (.rechecking gates (target :: rest)) .silent g
        (.rollback [] kind.slotted kind.unavailable)
  | lock {g gates} :
      ReserveAllStep kind targets ctx g (.rechecking gates []) .silent g (.reserveAll kind targets ctx (.locking gates))
  | acquire {g gates} (h : ∀ node ∈ gates, (g.gate node).HasRoom) :
      ReserveAllStep kind targets ctx g (.locking gates) (.grant gates) (g.grantAll gates)
        (.reserveAll kind targets ctx (.acquired gates))
  | full {g gates} (h : ∃ node ∈ gates, ¬ (g.gate node).HasRoom) :
      ReserveAllStep kind targets ctx g (.locking gates) .silent g
        (.reserveAll kind targets ctx (if kind.slotted then .givingSlotBack else .waiting))
  | giveSlotBack {g} (h : 0 < g.slots) :
      ReserveAllStep kind targets ctx g .givingSlotBack .silent { g with slots := g.slots - 1 }
        (.reserveAll kind targets ctx .waiting)
  | waitDone {g err} (h : ctx = some err) : ReserveAllStep kind targets ctx g .waiting .silent g (.failed err)
  | waited {g} : ReserveAllStep kind targets ctx g .waiting .silent g (.reserveAll kind targets ctx .loop)
  | lateDone {g gates err} (h : ctx = some err) :
      ReserveAllStep kind targets ctx g (.acquired gates) .silent g (.rollback gates kind.slotted err)
  | reserved {g gates} (h : ctx = none) :
      ReserveAllStep kind targets ctx g (.acquired gates) .silent g (.reserved { kind, targets, gates })

inductive TaskStep : DispatchCapacityGate → Task → Event → DispatchCapacityGate → Task → Prop
  | reserve {g candidates ctx stage e g' t} (h : ReserveStep candidates ctx g stage e g' t) :
      TaskStep g (.reserve candidates ctx stage) e g' t
  | reserveAll {g kind targets ctx stage e g' t} (h : ReserveAllStep kind targets ctx g stage e g' t) :
      TaskStep g (.reserveAll kind targets ctx stage) e g' t
  | cancel {g candidates stage} (err : String) :
      TaskStep g (.reserve candidates none stage) .silent g (.reserve candidates (some err) stage)
  | cancelAll {g kind targets stage} (err : String) :
      TaskStep g (.reserveAll kind targets none stage) .silent g (.reserveAll kind targets (some err) stage)
  | rollbackNode {g node nodes slot err} :
      TaskStep g (.rollback (node :: nodes) slot err) .silent (g.update node .release) (.rollback nodes slot err)
  | rollbackSlot {g err} (h : 0 < g.slots) :
      TaskStep g (.rollback [] true err) .silent { g with slots := g.slots - 1 } (.rollback [] false err)
  | rolledBack {g err} : TaskStep g (.rollback [] false err) .silent g (.failed err)
  /-- `dispatchReservation.Start`, and what the router does instead. -/
  | load {g targets node} :
      TaskStep g (.reserved { kind := .dispatch, targets, gates := [node] }) .silent
        { g with registry := g.registry.incrementLoad node 1 }
        (.reserved { kind := .dispatch, targets, gates := [node], loaded := true })
  | release {g r} : TaskStep g (.reserved r) .silent g (.releasing r r.gates r.kind.slotted)
  | unload {g r node nodes slot} (h : r.loaded = true) :
      TaskStep g (.releasing r (node :: nodes) slot) .silent
        { g with registry := g.registry.incrementLoad node (-1) } (.releasing { r with loaded := false } (node :: nodes) slot)
  | releaseNode {g r node nodes slot} (h : r.loaded = false) :
      TaskStep g (.releasing r (node :: nodes) slot) .silent (g.update node .release) (.releasing r nodes slot)
  | releaseSlot {g r} (h : 0 < g.slots) :
      TaskStep g (.releasing r [] true) .silent { g with slots := g.slots - 1 } (.releasing r [] false)
  | releasePanic {g r} (hkind : r.kind = .dispatch) (h : g.slots = 0) :
      TaskStep g (.releasing r [] true) .silent g .panicked
  | released {g r} : TaskStep g (.releasing r [] false) .silent g (.released r)
  /-- A further call of `Release`, which `once` keeps from doing anything. -/
  | releaseAgain {g r} : TaskStep g (.released r) .silent g (.released r)
  | observe {g status} (h : (g.nodeGates status.id).isSome) :
      TaskStep g (.observing status) (.refresh status.id (g.capacityOf status))
        (g.update status.id (·.setCapacity (g.capacityOf status))) .observed
  | unobserved {g status} (h : g.nodeGates status.id = none) : TaskStep g (.observing status) .silent g .observed

/-- What happens to the registry and the clock apart from the calls. -/
inductive Disturbance : DispatchCapacityGate → Event → DispatchCapacityGate → Prop
  | report {g} (status : NodeStatus) :
      Disturbance g (.report status) { g with registry := g.registry.upsert status g.now }
  | markUnhealthy {g} (id : String) : Disturbance g .silent { g with registry := g.registry.markUnhealthy id }
  | remove {g} (id : String) : Disturbance g .silent { g with registry := g.registry.remove id }
  | incrementLoad {g} (id : String) (delta : Int) :
      Disturbance g .silent { g with registry := g.registry.incrementLoad id delta }
  | tick {g} (now : Time) (h : g.now ≤ now) : Disturbance g .silent { g with now }

inductive Start : DispatchCapacityGate → Task → Prop
  | reserve {g} (candidates : List CapacityTarget) : Start g (startReserve candidates)
  | reservePipeline {g} (candidates : List CapacityTarget) : Start g (startReserveAll .pipeline candidates)
  | reserveShardNodes {g} (candidates : List CapacityTarget) : Start g (startReserveAll .shard candidates)
  | observe {g status} (h : g.registry.get? status.id = some status) : Start g (.observing status)

open Lib.Interleaving

def gateSystem : System DispatchCapacityGate Task Event where
  moves := TaskStep
  disturbs := Disturbance
  starts := Start

abbrev Gated := State DispatchCapacityGate Task

def newDispatchCapacityGate (registry : Registry) (globalLimit : Nat) : Gated := ⟨{ registry, globalLimit }, []⟩

end Maistr0.Orchestrator
