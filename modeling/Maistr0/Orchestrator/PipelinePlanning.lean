import Maistr0.Go
import Maistr0.Lib.Interleaving
import Maistr0.Orchestrator.PlanStore

/-!
# Placing and replacing pipeline plans

The calls of one sharded model: `pipelineForModel`, which reuses the stored plan or places one, `reshardPipeline`,
the loading of stages by `runShardedPipeline`, and `invalidatePipelinePlan`. Of the plan store this has the model's
entry. What the registry answers (whether a plan can still be used, which stages a placement chooses) is left open.

A call of `pipelineForModel` is a task while it does not hold the request gate. The call that holds the gate is part
of the shared state, as are the requests: the gate lets either one reshard in, or requests.
-/

namespace Maistr0.Orchestrator

open Lib.Interleaving

structure PlacedStage where
  nodeID : String
  modelID : String
  startLayer : Nat
  endLayer : Nat
  engine : String
  isFinal : Bool
  deriving DecidableEq

def PipelinePlan.assignments (p : PipelinePlan) : List PlacedStage :=
  p.stages.mapIdx fun i stage => ⟨stage.nodeID, p.model.sourceModelID, stage.startLayer, stage.endLayer, stage.engine,
    i == p.stages.length - 1⟩

/-- A `set` or `remove` between the change in memory and the end of its write: the plan that the call had read, the
one it writes, the one it would put back, and the locks that the call gives up with its return. -/
structure PlanWriter where
  base : Option PipelinePlan
  plan : Option PipelinePlan
  previous : Option PipelinePlan
  gated : Bool
  locks : Bool

inductive GatePhase
  | replanning (previous : PipelinePlan)
  | resharding
  | unloading (base plan : PipelinePlan) (nodes : String → Bool) (left : List PlacedStage) (reload : Bool)
  | loading (base : Option PipelinePlan) (plan : PipelinePlan) (left : List PlacedStage)
  | setting (base : Option PipelinePlan) (plan : PipelinePlan) (locks : Bool)
  | writing

structure Planner where
  model : ShardedModelConfig
  epoch : String
  entry : Option PipelinePlan := none
  file : Option PipelinePlan := none
  writer : Option PlanWriter := none
  locked : Bool := false
  gate : Option GatePhase := none
  requests : List (Option PipelinePlan) := []
  healthy : String → Bool := fun _ => true
  /-- The stages for which a load was sent, and no unload since. -/
  loaded : List PlacedStage := []
  /-- The plans stored so far, the newest first. -/
  history : List PipelinePlan := []

namespace Planner

variable (g : Planner)

def placed (stages : List StageSpec) (base : Option PipelinePlan) : PipelinePlan where
  model := g.model
  stages := stages
  planVersion := match base with
    | some c => Go.incr c.planVersion
    | none => 1
  coordinatorEpoch := g.epoch

def refreshed (c : PipelinePlan) : PipelinePlan := { c with coordinatorEpoch := g.epoch }

def publish (w : PlanWriter) : Planner := { g with entry := w.plan, writer := some w }

def returned (w : PlanWriter) : Planner :=
  { g with
    writer := none, gate := if w.gated then none else g.gate, locked := if w.locks then false else g.locked }

def commit (w : PlanWriter) : Planner :=
  { g.returned w with file := w.plan, history := w.plan.toList ++ g.history }

def rollback (w : PlanWriter) : Planner := { g.returned w with entry := w.previous }

def restarted (model : ShardedModelConfig) (epoch : String) : Planner :=
  { model, epoch, entry := g.file, file := g.file, healthy := g.healthy, loaded := g.loaded, history := g.history }

end Planner

inductive PlanCall
  | begun
  /-- There was no plan; the lock has been released and is taken once more. -/
  | second
  | waiting (previous : PipelinePlan)
  | setting (base : Option PipelinePlan) (plan : PipelinePlan)
  | invalidating
  | done

inductive PlanEvent
  | publish (base : Option PipelinePlan)
  /-- A write fails. -/
  | rollback
  /-- A stage is not unloaded because its node cannot be reached. -/
  | skip
  /-- A reshard ends while it loads stages. -/
  | abandon
  | other

inductive PlanMoves : Planner → PlanCall → PlanEvent → Planner → PlanCall → Prop
  | reuse {g : Planner} {t : PlanCall} {c : PipelinePlan} (ht : t = .begun ∨ t = .second) (hfree : g.locked = false)
      (hc : g.entry = some c) (hmodel : c.model = g.model) (hepoch : c.coordinatorEpoch = g.epoch) :
      PlanMoves g t .other g .done
  | refresh {g : Planner} {t : PlanCall} {c : PipelinePlan} (ht : t = .begun ∨ t = .second) (hfree : g.locked = false)
      (hc : g.entry = some c) (hmodel : c.model = g.model) (hepoch : c.coordinatorEpoch ≠ g.epoch) :
      PlanMoves g t .other { g with locked := true } (.setting (some c) (g.refreshed c))
  | stale {g : Planner} {c : PipelinePlan} (hfree : g.locked = false) (hc : g.entry = some c) :
      PlanMoves g .begun .other g (.waiting c)
  | missing {g : Planner} (hfree : g.locked = false) (hc : g.entry = none) : PlanMoves g .begun .other g .second
  | again {g : Planner} {c : PipelinePlan} (hfree : g.locked = false) (hc : g.entry = some c) :
      PlanMoves g .second .other g .begun
  | place {g : Planner} (hfree : g.locked = false) (hc : g.entry = none) (stages : List StageSpec) :
      PlanMoves g .second .other { g with locked := true } (.setting none (g.placed stages none))
  | unplaced {g : Planner} (hfree : g.locked = false) : PlanMoves g .second .other g .done
  | enter {g : Planner} {c : PipelinePlan} (hgate : g.gate = none) (hidle : g.requests = []) :
      PlanMoves g (.waiting c) .other { g with gate := some (.replanning c) } .done
  | cancelled (g : Planner) (c : PipelinePlan) : PlanMoves g (.waiting c) .other g .done
  | set {g : Planner} {base : Option PipelinePlan} {plan : PipelinePlan} (hw : g.writer = none) :
      PlanMoves g (.setting base plan) (.publish base) (g.publish ⟨base, some plan, g.entry, false, true⟩) .done
  | remove {g : Planner} {c : PipelinePlan} (hw : g.writer = none) (hc : g.entry = some c) :
      PlanMoves g .invalidating .other (g.publish ⟨none, none, g.entry, false, false⟩) .done
  | removed {g : Planner} (hc : g.entry = none) : PlanMoves g .invalidating .other g .done

inductive GateSteps : Planner → PlanEvent → Planner → Prop
  | commit {g : Planner} {w : PlanWriter} (hw : g.writer = some w) : GateSteps g .other (g.commit w)
  | rollback {g : Planner} {w : PlanWriter} (hw : g.writer = some w) : GateSteps g .rollback (g.rollback w)
  | reshard {g : Planner} (hgate : g.gate = none) (hidle : g.requests = []) :
      GateSteps g .other { g with gate := some .resharding }
  | reuse {g : Planner} {previous : PipelinePlan} (hgate : g.gate = some (.replanning previous))
      (hfree : g.locked = false) (hmodel : (g.entry.getD previous).model = g.model)
      (hepoch : (g.entry.getD previous).coordinatorEpoch = g.epoch) : GateSteps g .other { g with gate := none }
  | refresh {g : Planner} {previous : PipelinePlan} (hgate : g.gate = some (.replanning previous))
      (hfree : g.locked = false) (hmodel : (g.entry.getD previous).model = g.model)
      (hepoch : (g.entry.getD previous).coordinatorEpoch ≠ g.epoch) :
      GateSteps g .other { g with
        gate := some (.setting (some (g.entry.getD previous)) (g.refreshed (g.entry.getD previous)) true)
        locked := true }
  | replan {g : Planner} {previous c : PipelinePlan} (hgate : g.gate = some (.replanning previous))
      (hfree : g.locked = false) (hc : g.entry.getD previous = c) (stages : List StageSpec) :
      GateSteps g .other { g with gate := some (.unloading c (g.placed stages (some c)) g.healthy c.assignments false) }
  | plan {g : Planner} {c : PipelinePlan} (hgate : g.gate = some .resharding) (hfree : g.locked = false)
      (hc : g.entry = some c) (stages : List StageSpec) :
      GateSteps g .other { g with gate := some (.unloading c (g.placed stages (some c)) g.healthy c.assignments true) }
  | planFirst {g : Planner} (hgate : g.gate = some .resharding) (hfree : g.locked = false) (hc : g.entry = none)
      (stages : List StageSpec) :
      GateSteps g .other { g with gate := some (.loading none (g.placed stages none) (g.placed stages none).assignments) }
  /-- No placement, no capacity, a node that fails or a cancelled context. -/
  | giveUp {g : Planner} {phase : GatePhase} (hgate : g.gate = some phase)
      (hphase : (∃ previous, phase = .replanning previous) ∨ phase = .resharding ∨
        ∃ base plan nodes left reload, phase = .unloading base plan nodes left reload) :
      GateSteps g .other { g with gate := none }
  | abandon {g : Planner} {base : Option PipelinePlan} {plan : PipelinePlan} {left : List PlacedStage}
      (hgate : g.gate = some (.loading base plan left)) : GateSteps g .abandon { g with gate := none }
  | unload {g : Planner} {base plan : PipelinePlan} {nodes : String → Bool} {a : PlacedStage} {left : List PlacedStage}
      {reload : Bool} (hgate : g.gate = some (.unloading base plan nodes (a :: left) reload))
      (hnode : nodes a.nodeID = true) :
      GateSteps g .other { g with
        loaded := g.loaded.filter fun x => x ≠ a, gate := some (.unloading base plan nodes left reload) }
  | skip {g : Planner} {base plan : PipelinePlan} {nodes : String → Bool} {a : PlacedStage} {left : List PlacedStage}
      {reload : Bool} (hgate : g.gate = some (.unloading base plan nodes (a :: left) reload))
      (hnode : nodes a.nodeID = false) :
      GateSteps g .skip { g with gate := some (.unloading base plan nodes left reload) }
  | unloaded {g : Planner} {base plan : PipelinePlan} {nodes : String → Bool}
      (hgate : g.gate = some (.unloading base plan nodes [] false)) (hfree : g.locked = false) :
      GateSteps g .other { g with gate := some (.setting (some base) plan true), locked := true }
  | reload {g : Planner} {base plan : PipelinePlan} {nodes : String → Bool}
      (hgate : g.gate = some (.unloading base plan nodes [] true)) :
      GateSteps g .other { g with gate := some (.loading (some base) plan plan.assignments) }
  | load {g : Planner} {base : Option PipelinePlan} {plan : PipelinePlan} {a : PlacedStage} {left : List PlacedStage}
      (hgate : g.gate = some (.loading base plan (a :: left))) :
      GateSteps g .other { g with loaded := a :: g.loaded, gate := some (.loading base plan left) }
  | loadedAll {g : Planner} {base : Option PipelinePlan} {plan : PipelinePlan}
      (hgate : g.gate = some (.loading base plan [])) :
      GateSteps g .other { g with gate := some (.setting base plan false) }
  | set {g : Planner} {base : Option PipelinePlan} {plan : PipelinePlan} {locks : Bool}
      (hgate : g.gate = some (.setting base plan locks)) (hw : g.writer = none) :
      GateSteps g (.publish base) { g.publish ⟨base, some plan, g.entry, true, locks⟩ with gate := some .writing }
  | request {g : Planner} (hgate : g.gate = none) : GateSteps g .other { g with requests := none :: g.requests }
  | requestPlan {g : Planner} {l r : List (Option PipelinePlan)} {p : PipelinePlan}
      (hrequests : g.requests = l ++ none :: r) (hp : g.entry = some p) :
      GateSteps g .other { g with requests := l ++ some p :: r }
  | requestLoad {g : Planner} {p : PipelinePlan} {a : PlacedStage} (hp : some p ∈ g.requests) (ha : a ∈ p.assignments) :
      GateSteps g .other { g with loaded := a :: g.loaded }
  | requestEnd {g : Planner} {l r : List (Option PipelinePlan)} {p : Option PipelinePlan}
      (hrequests : g.requests = l ++ p :: r) : GateSteps g .other { g with requests := l ++ r }
  | health (g : Planner) (healthy : String → Bool) : GateSteps g .other { g with healthy }

def planning : System Planner PlanCall PlanEvent where
  moves := PlanMoves
  disturbs := GateSteps
  starts _ t := t = .begun ∨ t = .invalidating

/-! ### Runs -/

def firstStored : Planner :=
  { model := examplePlan.model, epoch := "epoch", entry := some examplePlan, file := some examplePlan, history := [examplePlan] }

theorem run_firstStored (allowed : Planner → PlanEvent → Prop)
    (hpublish : ∀ g : Planner, g.history = [] → allowed g (.publish none)) (hother : ∀ g, allowed g .other) :
    Run (planning.restrict allowed) ⟨{ model := examplePlan.model, epoch := "epoch" }, []⟩ ⟨firstStored, [.done]⟩ := by
  have hrun : Run (planning.restrict allowed) ⟨{ model := examplePlan.model, epoch := "epoch" }, []⟩ _ := .refl
  have hrun := hrun.start (.inl rfl)
  have hrun := hrun.move [] [] ⟨.missing rfl rfl, hother _⟩
  have hrun := hrun.move [] [] ⟨.place rfl rfl examplePlan.stages, hother _⟩
  have hrun := hrun.move [] [] ⟨.set rfl, hpublish _ rfl⟩
  have hrun := hrun.disturb ⟨.commit rfl, hother _⟩
  exact hrun

def movedStages : List StageSpec := [⟨"a", 0, 1, "e"⟩, ⟨"c", 1, 2, "e"⟩]

def resharded : PipelinePlan := firstStored.placed movedStages (some examplePlan)

theorem run_resharded (allowed : Planner → PlanEvent → Prop)
    (hpublish : ∀ g : Planner, (∀ c ∈ g.history.head?, c.planVersion = 1) → allowed g (.publish g.history.head?))
    (hother : ∀ g, allowed g .other) :
    ∃ s, Run (planning.restrict allowed) ⟨{ model := examplePlan.model, epoch := "epoch" }, []⟩ s ∧
      s.shared.writer = some ⟨some examplePlan, some resharded, some examplePlan, true, false⟩ ∧
      s.shared.gate = some .writing ∧ s.shared.history = [examplePlan] ∧
      ∀ a ∈ resharded.assignments, a ∈ s.shared.loaded := by
  have hrun := run_firstStored allowed (fun g hg => by simpa [hg] using hpublish g (by simp [hg])) hother
  have hrun := hrun.disturb ⟨.reshard rfl rfl, hother _⟩
  have hrun := hrun.disturb ⟨.plan rfl rfl rfl movedStages, hother _⟩
  have hrun := hrun.disturb ⟨.unload rfl rfl, hother _⟩
  have hrun := hrun.disturb ⟨.unload rfl rfl, hother _⟩
  have hrun := hrun.disturb ⟨.reload rfl, hother _⟩
  have hrun := hrun.disturb ⟨.load rfl, hother _⟩
  have hrun := hrun.disturb ⟨.load rfl, hother _⟩
  have hrun := hrun.disturb ⟨.loadedAll rfl, hother _⟩
  have hrun := hrun.disturb ⟨.set rfl rfl, hpublish _ (by rintro _ ⟨⟩; rfl)⟩
  exact ⟨_, hrun, rfl, rfl, rfl, by decide⟩

theorem run_invalidated : ∃ s, Run planning ⟨{ model := examplePlan.model, epoch := "epoch" }, []⟩ s ∧
    s.shared.history = [firstStored.placed [⟨"b", 0, 1, "e"⟩, ⟨"c", 1, 2, "e"⟩] none, examplePlan] ∧
    s.shared.loaded = [⟨"a", "source", 0, 1, "e", false⟩] ∧ s.shared.gate = none ∧ s.shared.healthy "a" = true := by
  have hrun := (run_firstStored (fun _ _ => True) (fun _ _ => trivial) fun _ => trivial).of_restrict
  have hrun := hrun.disturb (.request rfl)
  have hrun := hrun.disturb (GateSteps.requestPlan (l := []) (r := []) rfl rfl)
  have hrun := hrun.disturb (GateSteps.requestLoad (a := ⟨"a", "source", 0, 1, "e", false⟩)
    (p := examplePlan) List.mem_cons_self (by decide))
  have hrun := hrun.start (.inr rfl)
  have hrun := hrun.move [PlanCall.done] [] (.remove rfl rfl)
  have hrun := hrun.disturb (.commit rfl)
  have hrun := hrun.disturb (GateSteps.requestEnd (l := []) (r := []) rfl)
  have hrun := hrun.start (.inl rfl)
  have hrun := hrun.move [PlanCall.done, PlanCall.done] [] (.missing rfl rfl)
  have hrun := hrun.move [PlanCall.done, PlanCall.done] [] (.place rfl rfl [⟨"b", 0, 1, "e"⟩, ⟨"c", 1, 2, "e"⟩])
  have hrun := hrun.move [PlanCall.done, PlanCall.done] [] (.set rfl)
  have hrun := hrun.disturb (.commit rfl)
  exact ⟨_, hrun, rfl, rfl, rfl, rfl⟩

variable {g g' : Planner} {s s' : State Planner PlanCall} {base : Option PipelinePlan} {plan c : PipelinePlan}

/-! ### Versions -/

def Succeeds (base : Option PipelinePlan) (plan : PipelinePlan) : Prop :=
  ∀ c, base = some c → plan.stages = c.stages ∨ plan.planVersion = Go.incr c.planVersion

theorem succeeds_placed (g : Planner) (stages : List StageSpec) (base : Option PipelinePlan) :
    Succeeds base (g.placed stages base) := by
  rintro c rfl
  exact .inr rfl

theorem succeeds_refreshed (g : Planner) (c : PipelinePlan) : Succeeds (some c) (g.refreshed c) := by
  rintro _ ⟨⟩
  exact .inl rfl

def GatePhase.Versioned : GatePhase → Prop
  | .unloading base plan _ _ _ => Succeeds (some base) plan
  | .loading base plan _ | .setting base plan _ => Succeeds base plan
  | .replanning _ | .resharding | .writing => True

def PlanCall.Versioned : PlanCall → Prop
  | .setting base plan => Succeeds base plan
  | .begun | .second | .waiting _ | .invalidating | .done => True

/-- A plan is written by a call that has read the plan stored last, whose version is not the last there is. -/
def InSequence (g : Planner) : PlanEvent → Prop
  | .publish base => base = g.history.head? ∧ ∀ c, base = some c → c.planVersion + 1 < 2 ^ 64
  | .rollback | .skip | .abandon | .other => True

def Newer (later earlier : PipelinePlan) : Prop :=
  later.stages ≠ earlier.stages → earlier.planVersion < later.planVersion

structure Sequenced (g : Planner) : Prop where
  chain : g.history.IsChain Newer
  phase : ∀ phase, g.gate = some phase → phase.Versioned
  writer : ∀ w plan, g.writer = some w → w.plan = some plan → ∀ c, g.history.head? = some c → Newer plan c

theorem newer_of_succeeds (h : Succeeds base plan) (hallowed : InSequence g (.publish base)) :
    ∀ c, g.history.head? = some c → Newer plan c := by
  intro c hc hstages
  obtain ⟨hbase, hbound⟩ := hallowed
  rw [hc] at hbase
  rcases h c hbase with hsame | hversion
  · exact absurd hsame hstages
  · rw [hversion, Go.incr_of_lt (hbound c hbase)]
    exact Nat.lt_succ_self _

theorem Sequenced.publish (h : Sequenced g) (hsucceeds : Succeeds base plan) (hallowed : InSequence g (.publish base))
    {gated locks : Bool} : Sequenced (g.publish ⟨base, some plan, g.entry, gated, locks⟩) where
  chain := h.chain
  phase := h.phase
  writer := by
    rintro _ _ ⟨⟩ ⟨⟩
    exact newer_of_succeeds hsucceeds hallowed

theorem Sequenced.returned (h : Sequenced g) (w : PlanWriter) : Sequenced (g.returned w) where
  chain := h.chain
  phase phase hphase := by
    change (if w.gated then none else g.gate) = some phase at hphase
    split at hphase
    · cases hphase
    · exact h.phase phase hphase
  writer := nofun

theorem Sequenced.commit (h : Sequenced g) {w : PlanWriter} (hw : g.writer = some w) : Sequenced (g.commit w) := by
  refine { h.returned w with chain := ?_, writer := nofun }
  change (w.plan.toList ++ g.history).IsChain Newer
  cases hplan : w.plan with
  | none => exact h.chain
  | some plan => exact h.chain.cons (h.writer w plan hw hplan)

theorem Sequenced.enter (h : Sequenced g) {phase : GatePhase} (hgate : g'.gate = some phase)
    (hhistory : g'.history = g.history) (hwriter : g'.writer = g.writer) (hphase : phase.Versioned) :
    Sequenced g' where
  chain := hhistory ▸ h.chain
  phase phase' hphase' := by
    rw [hgate] at hphase'
    cases hphase'
    exact hphase
  writer := by
    rw [hwriter, hhistory]
    exact h.writer

theorem GateSteps.sequenced {e : PlanEvent} (h : GateSteps g e g') (hallowed : InSequence g e) (hg : Sequenced g) :
    Sequenced g' := by
  have hphase : ∀ phase, g.gate = some phase → phase.Versioned := hg.phase
  cases h with
  | commit hw => exact hg.commit hw
  | rollback => exact { hg.returned _ with }
  | reshard => exact hg.enter rfl rfl rfl trivial
  | refresh => exact hg.enter rfl rfl rfl (succeeds_refreshed g _)
  | replan _ _ _ stages | plan _ _ _ stages | planFirst _ _ _ stages =>
    exact hg.enter rfl rfl rfl (succeeds_placed g stages _)
  | unload hgate | skip hgate | unloaded hgate | reload hgate | load hgate | loadedAll hgate =>
    have hsucceeds := hphase _ hgate
    exact hg.enter rfl rfl rfl hsucceeds
  | set hgate => exact { hg.publish (hphase _ hgate) hallowed with phase := by rintro _ ⟨⟩; trivial }
  | reuse | giveUp | abandon => exact { hg with phase := nofun }
  | request | requestPlan | requestLoad | requestEnd | health => exact { hg with }

theorem PlanMoves.sequenced {t t' : PlanCall} {e : PlanEvent} (h : PlanMoves g t e g' t') (hallowed : InSequence g e)
    (hg : Sequenced g) (ht : t.Versioned) : Sequenced g' ∧ t'.Versioned := by
  cases h with
  | refresh => exact ⟨{ hg with }, succeeds_refreshed g _⟩
  | place _ _ stages => exact ⟨{ hg with }, succeeds_placed g stages none⟩
  | enter => exact ⟨hg.enter rfl rfl rfl trivial, trivial⟩
  | set => exact ⟨hg.publish ht hallowed, trivial⟩
  | remove =>
    refine ⟨{ hg with writer := ?_ }, trivial⟩
    rintro _ _ ⟨⟩ ⟨⟩
  | reuse | stale | missing | again | unplaced | cancelled | removed => exact ⟨hg, trivial⟩

theorem keeps_sequenced : Keeps (planning.restrict InSequence) Sequenced fun _ t => t.Versioned where
  move h hg ht := ⟨(h.1.sequenced h.2 hg ht).1, (h.1.sequenced h.2 hg ht).2, fun _ hu => hu⟩
  disturb h hg := ⟨h.1.sequenced h.2 hg, fun _ hu => hu⟩
  start h _ := by rcases h with rfl | rfl <;> trivial

def Evolves (allowed : Planner → PlanEvent → Prop) (s s' : State Planner PlanCall) : Prop :=
  (∃ e, Step (planning.restrict allowed) s e s') ∨ ∃ model epoch, s' = ⟨s.shared.restarted model epoch, []⟩

/-- If every plan is written by a call that had read the plan stored last, the versions of plans with different
stages grow from each plan to the next. -/
theorem plan_versions_grow (model : ShardedModelConfig) (epoch : String) (s : State Planner PlanCall)
    (h : Relation.ReflTransGen (Evolves InSequence) ⟨{ model, epoch }, []⟩ s) : s.shared.history.IsChain Newer := by
  have hfine : s.Fine Sequenced fun _ t => t.Versioned := by
    induction h with
    | refl => exact ⟨⟨.nil, nofun, nofun⟩, nofun⟩
    | tail _ hstep ih =>
      rcases hstep with ⟨e, hstep⟩ | ⟨model, epoch, rfl⟩
      · exact keeps_sequenced.run (.single ⟨e, hstep⟩) ih
      · exact ⟨⟨ih.1.chain, nofun, nofun⟩, nofun⟩
  exact hfine.1.chain

/-- A reshard stores a plan with the next version. -/
theorem resharded_version_grows : ∃ s, Relation.ReflTransGen (Evolves InSequence)
    ⟨{ model := examplePlan.model, epoch := "epoch" }, []⟩ s ∧
    s.shared.history = [resharded, examplePlan] ∧ s.shared.history.IsChain Newer := by
  obtain ⟨_, hrun, hw, -, hhistory, -⟩ := run_resharded InSequence
    (fun g hg => ⟨rfl, fun c hc => by rw [hg c hc]; decide⟩) fun _ => trivial
  have hrun := hrun.disturb ⟨.commit hw, trivial⟩
  have hevolves := Relation.ReflTransGen.mono (p := Evolves InSequence) (fun _ _ hstep => .inl hstep) _ _ hrun
  refine ⟨_, hevolves, ?_, plan_versions_grow _ _ _ hevolves⟩
  simp [Planner.commit, hhistory]

/-- After an invalidation the versions start anew. -/
theorem invalidated_version_repeats : ∃ s, Run planning ⟨{ model := examplePlan.model, epoch := "epoch" }, []⟩ s ∧
    ∃ later, s.shared.history = [later, examplePlan] ∧ later.stages ≠ examplePlan.stages ∧
      later.planVersion = examplePlan.planVersion := by
  obtain ⟨s, hrun, hhistory, -⟩ := run_invalidated
  exact ⟨s, hrun, _, hhistory, by decide, rfl⟩

end Maistr0.Orchestrator
