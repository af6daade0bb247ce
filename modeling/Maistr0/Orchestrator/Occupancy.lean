import Maistr0.Orchestrator.Accounting

/-!
# Reservations and the work of others

The gate of a node takes what the registry reports as occupied and subtracts the units it has granted; the rest
is the work of others. The subtraction is right only for a report that counts the granted units. After a
report that was made when none was granted, the units are in no report until their holders announce them, so
each refresh of the gate takes them off the work of others instead. If every refresh sees the reported work
and the granted units together, the two stay within the limit of the node.
-/

namespace Maistr0.Orchestrator

open Lib.Interleaving DispatchCapacityGate

/-! ### The registry between two reports -/

namespace Registry

variable {r : Registry} {node : String} {L : Int}

def Limits (r : Registry) (node : String) (L : Int) : Prop :=
  ∀ status, r.get? node = some status → status.maxConcurrentTasks = L

section

variable (h : r.Limits node L)

include h

variable {status : NodeStatus}

theorem Limits.put (hstatus : status.id = node → status.maxConcurrentTasks = L) :
    Limits (Lib.Keyed.put r status) node L := by
  intro found hfound
  rw [Lib.Keyed.get?_put] at hfound
  split at hfound
  · cases hfound
    exact hstatus (by assumption)
  · exact h found hfound

theorem Limits.upsert (hid : status.id ≠ node) (now : Go.Time) : (r.upsert status now).Limits node L :=
  h.put fun hsame => absurd hsame hid

theorem Limits.edit {id : String} {n m : NodeStatus} (hget : r.get? id = some n) (hid : m.id = n.id)
    (hlimit : m.maxConcurrentTasks = n.maxConcurrentTasks) : Limits (Lib.Keyed.put r m) node L := by
  refine h.put fun hnode => hlimit.trans (h n ?_)
  have hkey : n.id = id := Lib.Keyed.keyOf_get? hget
  rw [← hnode, hid, hkey, hget]

theorem Limits.markUnhealthy (id : String) : (r.markUnhealthy id).Limits node L := by
  unfold Registry.markUnhealthy
  cases hget : r.get? id with
  | none => exact h
  | some => exact h.edit hget rfl rfl

theorem Limits.incrementLoad (id : String) (delta : Int) : (r.incrementLoad id delta).Limits node L := by
  unfold Registry.incrementLoad
  cases hget : r.get? id with
  | none => exact h
  | some => exact h.edit hget rfl rfl

theorem Limits.remove (id : String) : (r.remove id).Limits node L := by
  intro found hfound
  unfold Registry.remove at hfound
  rw [Lib.Keyed.get?_erase] at hfound
  split at hfound
  · cases hfound
  · exact h found hfound

end

theorem get?_of_lookup {target : CapacityTarget} (h : r.lookup target = some status) :
    r.get? target.nodeID = some status := by
  exact (Option.filter_eq_some_iff.mp h).1

end Registry

/-! ### What calls know of a node -/

section

variable (node : String) (E L : Int)

def Unreported : Event → Prop
  | .report status => status.id ≠ node
  | _ => True

def Covered (g : DispatchCapacityGate) : Event → Prop
  | .refresh n c => n = node → E ≤ 0 ∨ E + g.active node ≤ c.occupied
  | _ => True

def Ready (g : DispatchCapacityGate) : Prop := (g.gate node).limit = L ∧ E ≤ (g.gate node).external

def Visit.Knows (ready : Prop) : Visit → Prop
  | ending (some c) => c.limit = L
  | setting c => c.limit = L
  | refreshed => ready
  | _ => True

def Task.Knows (ready : Prop) : Task → Prop
  | reserve _ _ (.visiting target _ _ v) => target.nodeID = node → v.Knows L ready
  | reserveAll _ _ _ (.visiting gates target _ v) => (node ∈ gates → ready) ∧ (target.nodeID = node → v.Knows L ready)
  | reserveAll _ _ _ (.visited gates _) => node ∈ gates → ready
  | reserveAll _ _ _ (.awaitingSlot gates) => node ∈ gates → ready
  | reserveAll _ _ _ (.rechecking gates _) => node ∈ gates → ready
  | reserveAll _ _ _ (.locking gates) => node ∈ gates → ready
  | observing status => status.id = node → status.maxConcurrentTasks = L
  | _ => True

end

variable {node : String} {E L : Int} {g g' : DispatchCapacityGate} {e : Event}

variable {ctx : Option String} {t t' : Task} {ready : Prop}

theorem Visit.Knows.mono {ready' : Prop} (hready : ready → ready') {v : Visit} (h : v.Knows L ready) :
    v.Knows L ready' := by
  cases v with
  | refreshed => exact hready h
  | ending result => cases result <;> exact h
  | _ => exact h

theorem Task.Knows.mono {ready' : Prop} (hready : ready → ready') (h : t.Knows node L ready) :
    t.Knows node L ready' := by
  cases t with
  | reserve _ _ stage =>
    cases stage with
    | visiting => exact fun hnode => (h hnode).mono hready
    | _ => trivial
  | reserveAll _ _ _ stage =>
    cases stage with
    | visiting => exact ⟨fun hmem => hready (h.1 hmem), fun hnode => (h.2 hnode).mono hready⟩
    | visited | awaitingSlot | rechecking | locking => exact fun hmem => hready (h hmem)
    | _ => trivial
  | observing => exact h
  | _ => trivial

theorem Task.knows_reserve_next (candidates : List CapacityTarget) (ctx : Option String) (n : Nat)
    (rest : List CapacityTarget) : (Task.reserve candidates ctx (.next n rest)).Knows node L ready := by
  cases rest with
  | nil => trivial
  | cons => exact fun _ => trivial

theorem Task.knows_reserveAll_next (kind : Kind) (targets : List CapacityTarget) (ctx : Option String)
    {gates : List String} (rest : List CapacityTarget) (h : node ∈ gates → ready) :
    (Task.reserveAll kind targets ctx (.next gates rest)).Knows node L ready := by
  cases rest with
  | nil => exact h
  | cons => exact ⟨h, fun _ => trivial⟩

/-! ### What moves keep -/

theorem Ready.update {n : String} {f : NodeDispatchGate → NodeDispatchGate}
    (hf : ∀ x, (f x).limit = x.limit ∧ (f x).external = x.external) (h : Ready node E L g) :
    Ready node E L (g.update n f) := by
  unfold Ready
  rw [gate_update]
  split
  · rename_i hn
    subst hn
    rw [(hf _).1, (hf _).2]
    exact h
  · exact h

theorem Ready.grantAll (h : Ready node E L g) (nodes : List String) : Ready node E L (g.grantAll nodes) := by
  induction nodes generalizing g with
  | nil => exact h
  | cons _ _ ih => exact ih (h.update fun _ => ⟨rfl, rfl⟩)

theorem Ready.nodeDispatchGate (hL : 1 ≤ L) (h : Ready node E L g) (n : String) (limit : Int) :
    Ready node E L (g.nodeDispatchGate n limit) := by
  unfold DispatchCapacityGate.nodeDispatchGate
  cases hn : g.nodeGates n with
  | some => exact h
  | none =>
    have hne : node ≠ n := by
      rintro rfl
      have hlimit := h.1
      unfold DispatchCapacityGate.gate at hlimit
      rw [hn] at hlimit
      change (0 : Int) = L at hlimit
      omega
    unfold Ready DispatchCapacityGate.gate
    simp only [Function.update_of_ne hne]
    exact h

theorem ready_refresh {n : String} {c : Capacity} (hcovered : Covered node E g (.refresh n c))
    (hlimit : n = node → c.limit = L) :
    (n = node → Ready node E L (g.update n (·.setCapacity c))) ∧
      (Ready node E L g → Ready node E L (g.update n (·.setCapacity c))) := by
  have hsame : n = node → Ready node E L (g.update n (·.setCapacity c)) := by
    rintro rfl
    unfold Ready
    rw [gate_update, if_pos rfl, NodeDispatchGate.setCapacity_eq]
    refine ⟨hlimit rfl, ?_⟩
    have hoccupied := hcovered rfl
    change E ≤ max 0 (c.occupied - g.active n)
    omega
  refine ⟨hsame, fun h => ?_⟩
  by_cases hn : n = node
  · exact hsame hn
  unfold Ready
  rw [gate_update, if_neg (Ne.symm hn)]
  exact h

theorem limit_capacityOf (hL : 1 ≤ L) (h : status.maxConcurrentTasks = L) : (g.capacityOf status).limit = L := by
  change g.limitOf status = L
  unfold limitOf
  rw [if_neg (by omega), h]

section

variable (hL : 1 ≤ L) (hunreported : Unreported node e) (hcovered : Covered node E g e)
  (hregistry : g.registry.Limits node L)

include hL hunreported hcovered hregistry

theorem VisitStep.knows {target : CapacityTarget} {v v' : Visit} (h : VisitStep ctx target g v e g' v')
    (hv : target.nodeID = node → v.Knows L (Ready node E L g)) :
    g'.registry.Limits node L ∧ (target.nodeID = node → v'.Knows L (Ready node E L g')) ∧
      (Ready node E L g → Ready node E L g') := by
  cases h with
  | present =>
    rw [(g.nodeDispatchGate_frame _ _).1]
    exact ⟨hregistry, fun _ => trivial, fun hready => hready.nodeDispatchGate hL _ _⟩
  | fresh h =>
    refine ⟨hregistry, fun hnode => limit_capacityOf hL (hregistry _ ?_), id⟩
    rw [← hnode]
    exact Registry.get?_of_lookup h
  | own | endFailed => exact ⟨hregistry, fun _ => trivial, fun hready => hready.update fun _ => ⟨rfl, rfl⟩⟩
  | probeFailed | probeMismatch => exact ⟨hregistry.markUnhealthy _, fun _ => trivial, id⟩
  | probed _ hid =>
    exact ⟨hregistry.upsert hunreported _, fun hnode => absurd (hid.trans hnode) hunreported, id⟩
  | endProbed => exact ⟨hregistry, hv, fun hready => hready.update fun _ => ⟨rfl, rfl⟩⟩
  | set =>
    obtain ⟨hset, hready⟩ := ready_refresh hcovered hv
    exact ⟨hregistry, hset, hready⟩
  | _ => exact ⟨hregistry, fun _ => trivial, id⟩

theorem ReserveStep.knows {candidates : List CapacityTarget} {stage : Reserving}
    (h : ReserveStep candidates ctx g stage e g' t)
    (hstage : (Task.reserve candidates ctx stage).Knows node L (Ready node E L g)) :
    g'.registry.Limits node L ∧ t.Knows node L (Ready node E L g') ∧ (Ready node E L g → Ready node E L g') := by
  cases h with
  | visit h => exact h.knows hL hunreported hcovered hregistry hstage
  | loop | skip | full => exact ⟨hregistry, Task.knows_reserve_next _ _ _ _, id⟩
  | acquire => exact ⟨hregistry, trivial, fun hready => hready.update fun _ => ⟨rfl, rfl⟩⟩
  | _ => exact ⟨hregistry, trivial, id⟩

theorem ReserveAllStep.knows {kind : Kind} {targets : List CapacityTarget} {stage : ReservingAll}
    (h : ReserveAllStep kind targets ctx g stage e g' t)
    (hstage : (Task.reserveAll kind targets ctx stage).Knows node L (Ready node E L g)) :
    g'.registry.Limits node L ∧ t.Knows node L (Ready node E L g') ∧ (Ready node E L g → Ready node E L g') := by
  cases h with
  | visit h =>
    obtain ⟨hregistry', hvisit, hready⟩ := h.knows hL hunreported hcovered hregistry hstage.2
    exact ⟨hregistry', ⟨fun hmem => hready (hstage.1 hmem), hvisit⟩, hready⟩
  | loop => exact ⟨hregistry, Task.knows_reserveAll_next _ _ _ _ nofun, id⟩
  | leave => exact ⟨hregistry, hstage.1, id⟩
  | next =>
    refine ⟨hregistry, Task.knows_reserveAll_next _ _ _ _ fun hmem => ?_, id⟩
    rcases List.mem_append.mp hmem with hmem | hmem
    · exact hstage.1 hmem
    · exact hstage.2 (List.mem_singleton.mp hmem).symm
  | healthy =>
    cases kind
    · exact ⟨hregistry, hstage, id⟩
    · exact ⟨hregistry, hstage, id⟩
    · exact ⟨hregistry, hstage, id⟩
  | takeSlot | recheck | lock => exact ⟨hregistry, hstage, id⟩
  | acquire =>
    rw [(g.grantAll_frame _).1]
    exact ⟨hregistry, trivial, fun hready => hready.grantAll _⟩
  | full => cases kind <;> exact ⟨hregistry, trivial, id⟩
  | _ => exact ⟨hregistry, trivial, id⟩

theorem TaskStep.knows (h : TaskStep g t e g' t') (ht : t.Knows node L (Ready node E L g)) :
    g'.registry.Limits node L ∧ t'.Knows node L (Ready node E L g') ∧ (Ready node E L g → Ready node E L g') := by
  cases h with
  | reserve h | reserveAll h => exact h.knows hL hunreported hcovered hregistry ht
  | @cancel _ stage err | @cancelAll _ _ stage err => cases stage <;> exact ⟨hregistry, ht, id⟩
  | rollbackNode | releaseNode => exact ⟨hregistry, trivial, fun hready => hready.update fun _ => ⟨rfl, rfl⟩⟩
  | load | unload => exact ⟨hregistry.incrementLoad _ _, trivial, id⟩
  | observe => exact ⟨hregistry, trivial, (ready_refresh hcovered fun hid => limit_capacityOf hL (ht hid)).2⟩
  | _ => exact ⟨hregistry, trivial, id⟩

end

theorem TaskStep.ready_of_grant (h : TaskStep g t e g' t') (ht : t.Knows node L (Ready node E L g))
    (hlt : g.active node < g'.active node) : Ready node E L g := by
  rcases h.grants hlt with ⟨_, _, target, _, _, rfl, hnode, -⟩ | ⟨_, _, _, gates, rfl, hmem, -⟩
  · exact ht hnode
  · exact ht hmem

theorem TaskStep.within (h : TaskStep g t e g' t') (hwhole : t.Whole)
    (ht : t.Knows node L (Ready node E L g)) (hle : g.active node + E ≤ L) : g'.active node + E ≤ L := by
  rcases lt_or_ge (g.active node) (g'.active node) with hlt | hge
  · obtain ⟨hlimit, hexternal⟩ := h.ready_of_grant ht hlt
    obtain ⟨hroom, hone⟩ := h.room hwhole hlt
    change g.active node + (g.gate node).external < (g.gate node).limit at hroom
    omega
  · omega

theorem Start.knows (h : Start g t) (hregistry : g.registry.Limits node L) : t.Knows node L ready := by
  have hall : ∀ kind candidates, (startReserveAll kind candidates).Knows node L ready := by
    intro kind candidates
    unfold startReserveAll
    split
    · trivial
    · simp only
      split <;> trivial
  cases h with
  | reserve =>
    unfold startReserve
    split
    · trivial
    · split <;> trivial
  | reservePipeline candidates => exact hall .pipeline candidates
  | reserveShardNodes candidates => exact hall .shard candidates
  | observe h =>
    intro hid
    exact hregistry _ (hid ▸ h)

theorem keeps_within (hL : 1 ≤ L) : Keeps (gateSystem.restrict fun g e => Unreported node e ∧ Covered node E g e)
    (fun g => g.registry.Limits node L ∧ g.active node + E ≤ L)
    fun g t => t.Whole ∧ t.Knows node L (Ready node E L g) where
  move := by
    rintro g _ e g' _ ⟨h, hunreported, hcovered⟩ ⟨hregistry, hle⟩ ⟨hwhole, hknows⟩
    obtain ⟨hregistry', hknows', hready⟩ := h.knows hL hunreported hcovered hregistry hknows
    exact ⟨⟨hregistry', h.within hwhole hknows hle⟩, ⟨h.whole hwhole, hknows'⟩, fun u hu => ⟨hu.1, hu.2.mono hready⟩⟩
  disturb := by
    rintro _ _ _ ⟨h, hunreported, -⟩ ⟨hregistry, hle⟩
    cases h with
    | report => exact ⟨⟨hregistry.upsert hunreported _, hle⟩, fun u hu => hu⟩
    | markUnhealthy id => exact ⟨⟨hregistry.markUnhealthy id, hle⟩, fun u hu => hu⟩
    | remove id => exact ⟨⟨hregistry.remove id, hle⟩, fun u hu => hu⟩
    | incrementLoad id delta => exact ⟨⟨hregistry.incrementLoad id delta, hle⟩, fun u hu => hu⟩
    | tick => exact ⟨⟨hregistry, hle⟩, fun u hu => hu⟩
  start h hg := ⟨Start.whole h, Start.knows h hg.1⟩

/-! ### Between two reports -/

def NodeStatus.occupied (status : NodeStatus) : Int :=
  max (status.maxConcurrentTasks - status.availableCapacity) status.activeTasks

def Task.Idle : Task → Prop
  | reserve _ _ _ => False
  | reserveAll _ _ _ _ => False
  | observing _ => False
  | _ => True

theorem Task.Idle.knows (h : t.Idle) : t.Knows node L ready := by
  cases t with
  | reserve | reserveAll | observing => exact h.elim
  | _ => trivial

/-- After a report that was made while nothing was reserved on the node, reservations and the reported work stay within
the limit of the node, as long as each refresh of its gate sees them both. -/
theorem reservations_within_limit {registry : Registry} {limit : Nat} {s₀ s : Gated} {node : String}
    {status : NodeStatus} (hstart : Run gateSystem (newDispatchCapacityGate registry limit) s₀)
    (hidle : ∀ t ∈ s₀.tasks, t.Idle) (hnone : total (Task.units node) s₀.tasks = 0)
    (hreport : s₀.shared.registry.get? node = some status) (hlimit : 1 ≤ status.maxConcurrentTasks)
    (hfits : status.occupied ≤ status.maxConcurrentTasks)
    (hrun : Run (gateSystem.restrict fun g e => Unreported node e ∧ Covered node status.occupied g e) s₀ s) :
    total (Task.units node) s.tasks + status.occupied ≤ status.maxConcurrentTasks := by
  have hfine := (keeps_within hlimit).run hrun ⟨⟨?_, ?_⟩, fun t ht => ⟨(fine_of_run hstart).2 t ht, (hidle t ht).knows⟩⟩
  · rw [← active_eq_total (hstart.trans hrun.of_restrict) node]
    exact hfine.1.2
  · intro found hfound
    rw [hreport] at hfound
    cases hfound
    rfl
  · rw [active_eq_total hstart node, hnone]
    exact (Int.zero_add _).trans_le hfits

def oneOfTwo : NodeStatus where
  id := "n"
  address := "http://n"
  activeTasks := 1
  maxConcurrentTasks := 2
  availableCapacity := 1

/-- One reservation on a node that works on one other task and has room for two. -/
theorem reservations_within_limit_oneOfTwo :
    ∃ s : Gated, Run (gateSystem.restrict fun g e => Unreported "n" e ∧ Covered "n" oneOfTwo.occupied g e)
        (newDispatchCapacityGate (Lib.Keyed.put ∅ oneOfTwo) 2) s ∧ total (Task.units "n") s.tasks = 1 ∧
      total (Task.units "n") s.tasks + oneOfTwo.occupied ≤ oneOfTwo.maxConcurrentTasks := by
  have hrun : Run (gateSystem.restrict fun g e => Unreported "n" e ∧ Covered "n" oneOfTwo.occupied g e)
    (newDispatchCapacityGate (Lib.Keyed.put ∅ oneOfTwo) 2) _ := .refl
  have hrun := hrun.start (.reserve [⟨"n", "http://n"⟩])
  have hrun := hrun.move [] [] ⟨.reserve (.loop rfl), trivial, trivial⟩
  have hrun := hrun.move [] [] ⟨.reserve (.visit (.present rfl)), trivial, trivial⟩
  have hrun := hrun.move [] [] ⟨.reserve (.visit (.fresh rfl (by decide))), trivial, trivial⟩
  have hrun := hrun.move [] [] ⟨.reserve (.visit .set), trivial, fun _ => .inr (by decide)⟩
  have hrun := hrun.move [] [] ⟨.reserve (.acquire (by decide)), trivial, trivial⟩
  have hrun := hrun.move [] [] ⟨.reserve (.takeSlot (by decide)), trivial, trivial⟩
  have hrun := hrun.move [] [] ⟨.reserve (.reserved rfl), trivial, trivial⟩
  exact ⟨_, hrun, rfl, reservations_within_limit .refl nofun rfl rfl (by decide) (by decide) hrun⟩

/-- The same node takes a second reservation before the first is announced: the refresh takes the first off the one
task of others. -/
theorem reservations_exceed_limit : ∃ s : Gated, Run (gateSystem.restrict fun _ e => Unreported "n" e)
      (newDispatchCapacityGate (Lib.Keyed.put ∅ oneOfTwo) 2) s ∧ total (Task.units "n") s.tasks = 2 ∧
    oneOfTwo.maxConcurrentTasks < total (Task.units "n") s.tasks + oneOfTwo.occupied := by
  have hrun : Run (gateSystem.restrict fun _ e => Unreported "n" e)
    (newDispatchCapacityGate (Lib.Keyed.put ∅ oneOfTwo) 2) _ := .refl
  have hrun := hrun.start (.reserve [⟨"n", "http://n"⟩])
  have hrun := hrun.move [] [] ⟨.reserve (.loop rfl), trivial⟩
  have hrun := hrun.move [] [] ⟨.reserve (.visit (.present rfl)), trivial⟩
  have hrun := hrun.move [] [] ⟨.reserve (.visit (.fresh rfl (by decide))), trivial⟩
  have hrun := hrun.move [] [] ⟨.reserve (.visit .set), trivial⟩
  have hrun := hrun.move [] [] ⟨.reserve (.acquire (by decide)), trivial⟩
  have hrun := hrun.move [] [] ⟨.reserve (.takeSlot (by decide)), trivial⟩
  have hrun := hrun.move [] [] ⟨.reserve (.reserved rfl), trivial⟩
  have hrun := hrun.start (.reserve [⟨"n", "http://n"⟩])
  have hrun := hrun.move [_] [] ⟨.reserve (.loop rfl), trivial⟩
  have hrun := hrun.move [_] [] ⟨.reserve (.visit (.present rfl)), trivial⟩
  have hrun := hrun.move [_] [] ⟨.reserve (.visit (.fresh rfl (by decide))), trivial⟩
  have hrun := hrun.move [_] [] ⟨.reserve (.visit .set), trivial⟩
  have hrun := hrun.move [_] [] ⟨.reserve (.acquire (by decide)), trivial⟩
  have hrun := hrun.move [_] [] ⟨.reserve (.takeSlot (by decide)), trivial⟩
  have hrun := hrun.move [_] [] ⟨.reserve (.reserved rfl), trivial⟩
  exact ⟨_, hrun, rfl, by decide⟩

end Maistr0.Orchestrator
