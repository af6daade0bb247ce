import Mathlib

/-!
# The pipeline plan store

`pipelinePlanStore` has the pipeline plans in memory and in a file that is replaced as a whole. A `set` or `remove`
changes the plans in memory, writes a snapshot of them and, if that fails, puts the previous plan back; another
writer waits until it is through, a reader does not.
-/

namespace Maistr0.Orchestrator

open Function

structure ShardedModelConfig where
  logicalID : String
  sourceModelID : String
  revision : String
  tokenizerID : String
  modelConfigID : String
  totalLayers : Nat
  deriving DecidableEq

structure StageSpec where
  nodeID : String
  startLayer : Nat
  endLayer : Nat
  engine : String
  deriving DecidableEq

/-- A normalized and valid plan. -/
structure PipelinePlan where
  model : ShardedModelConfig
  stages : List StageSpec
  planVersion : Nat
  coordinatorEpoch : String
  deriving DecidableEq

abbrev Plans := String → Option PipelinePlan

/-- The writer that holds `persistMu`: the plan it would put back, and what it writes to the file. -/
structure PlanWrite where
  id : String
  previous : Option PipelinePlan
  snapshot : Plans

/-- The plans in memory, and every content of the file so far, the newest first. -/
structure PlanStore where
  plans : Plans := fun _ => none
  persisted : List Plans := [fun _ => none]
  writing : Option PlanWrite := none

namespace PlanStore

variable (s : PlanStore) (id : String)

def get : Option PipelinePlan := s.plans id

/-- The part of `set` and `remove` before the file is written. -/
def publish (plan : Option PipelinePlan) : PlanStore :=
  let plans := update s.plans id plan
  { s with plans, writing := some ⟨id, s.plans id, plans⟩ }

def commit (w : PlanWrite) : PlanStore := { s with persisted := w.snapshot :: s.persisted, writing := none }

def rollback (w : PlanWrite) : PlanStore :=
  { s with plans := update s.plans w.id w.previous, writing := none }

end PlanStore

inductive StoreStep : PlanStore → PlanStore → Prop
  | set {s : PlanStore} (plan : PipelinePlan) (h : s.writing = none) :
      StoreStep s (s.publish plan.model.logicalID (some plan))
  | remove {s : PlanStore} {id : String} (h : s.writing = none) (hsome : s.plans id ≠ none) :
      StoreStep s (s.publish id none)
  | commit {s : PlanStore} {w : PlanWrite} (h : s.writing = some w) : StoreStep s (s.commit w)
  | rollback {s : PlanStore} {w : PlanWrite} (h : s.writing = some w) : StoreStep s (s.rollback w)

def StoreRun : PlanStore → PlanStore → Prop := Relation.ReflTransGen StoreStep

def PlanStore.Persisted (s : PlanStore) (id : String) (plan : PipelinePlan) : Prop :=
  ∃ content ∈ s.persisted, content id = some plan

structure PlanStore.Backed (s : PlanStore) : Prop where
  file : ∃ content rest, s.persisted = content :: rest ∧ match s.writing with
    | none => s.plans = content
    | some w => w.snapshot = s.plans ∧ s.plans = update content w.id (s.plans w.id) ∧ w.previous = content w.id

variable {s s' : PlanStore}

theorem PlanStore.Backed.publish (h : s.Backed) (hfree : s.writing = none) (id : String)
    (plan : Option PipelinePlan) : (s.publish id plan).Backed := by
  obtain ⟨content, rest, hpersisted, hplans⟩ := h.file
  rw [hfree] at hplans
  refine ⟨content, rest, hpersisted, rfl, ?_, congrFun hplans id⟩
  simp [PlanStore.publish, hplans]

theorem PlanStore.Backed.step (h : s.Backed) (hstep : StoreStep s s') : s'.Backed := by
  cases hstep with
  | set _ hfree | remove hfree => exact h.publish hfree _ _
  | @commit w hw =>
    obtain ⟨content, rest, hpersisted, hplans⟩ := h.file
    rw [hw] at hplans
    exact ⟨w.snapshot, s.persisted, rfl, hplans.1.symm⟩
  | @rollback w hw =>
    obtain ⟨content, rest, hpersisted, hplans⟩ := h.file
    rw [hw] at hplans
    obtain ⟨-, hplans, hprevious⟩ := hplans
    refine ⟨content, rest, hpersisted, ?_⟩
    change update s.plans w.id w.previous = content
    rw [hplans, update_idem, hprevious, update_eq_self]

theorem PlanStore.Backed.run (h : s.Backed) (hrun : StoreRun s s') : s'.Backed := by
  induction hrun with
  | refl => exact h
  | tail _ hstep ih => exact ih.step hstep

theorem PlanStore.Backed.get (h : s.Backed) {id : String} {plan : PipelinePlan} (hget : s.get id = some plan) :
    s.Persisted id plan ∨ ∃ w, s.writing = some w ∧ w.id = id ∧ w.snapshot id = some plan := by
  obtain ⟨content, _, hpersisted, hplans⟩ := h.file
  have hmem : content ∈ s.persisted := hpersisted ▸ List.mem_cons_self
  unfold PlanStore.get at hget
  cases hw : s.writing with
  | none =>
    rw [hw] at hplans
    exact .inl ⟨content, hmem, by rw [← hplans, hget]⟩
  | some w =>
    rw [hw] at hplans
    obtain ⟨hsnapshot, hplans, -⟩ := hplans
    by_cases hid : id = w.id
    · exact .inr ⟨w, rfl, hid.symm, by rw [hsnapshot, hget]⟩
    refine .inl ⟨content, hmem, ?_⟩
    rw [hplans, update_of_ne hid] at hget
    exact hget

/-- Without a writer, memory is what was last written. What a reader gets has been in the file, if and only if that
is so of the plan that is just being written for the model. -/
theorem plan_store_reads_persisted_iff (start : Plans) (s : PlanStore)
    (h : StoreRun { plans := start, persisted := [start] } s) :
    (s.writing = none → s.persisted.head? = some s.plans) ∧ ∀ id, (∀ plan, s.get id = some plan → s.Persisted id plan) ↔
        ∀ w, s.writing = some w → w.id = id → ∀ plan, w.snapshot id = some plan → s.Persisted id plan := by
  have hbacked : s.Backed := PlanStore.Backed.run ⟨start, [], rfl, rfl⟩ h
  refine ⟨fun hfree => ?_, fun id => ⟨fun hget w hw _ plan hplan => hget plan ?_, fun hwriting plan hget => ?_⟩⟩
  · obtain ⟨content, rest, hpersisted, hplans⟩ := hbacked.file
    rw [hfree] at hplans
    rw [hpersisted, List.head?_cons, hplans]
  · obtain ⟨_, _, -, hplans⟩ := hbacked.file
    rw [hw] at hplans
    exact (congrFun hplans.1 id).symm.trans hplan
  · rcases hbacked.get hget with hpersisted | ⟨w, hw, hid, hplan⟩
    · exact hpersisted
    · exact hwriting w hw hid plan hplan

def examplePlan : PipelinePlan where
  model := ⟨"m", "source", "r", "t", "c", 2⟩
  stages := [⟨"a", 0, 1, "e"⟩, ⟨"b", 1, 2, "e"⟩]
  planVersion := 1
  coordinatorEpoch := "epoch"

/-- A reader gets a plan that has been stored. -/
theorem plan_store_stored : ∃ s, StoreRun { plans := fun _ => none, persisted := [fun _ => none] } s ∧
    s.get "m" = some examplePlan ∧ s.Persisted "m" examplePlan ∧ s.persisted.head? = some s.plans := by
  have hrun : StoreRun { plans := fun _ => none, persisted := [fun _ => none] } _ :=
    (Relation.ReflTransGen.single (.set examplePlan rfl)).tail (.commit rfl)
  obtain ⟨hfile, hreads⟩ := plan_store_reads_persisted_iff _ _ hrun
  exact ⟨_, hrun, rfl, (hreads "m").mpr nofun _ rfl, hfile rfl⟩

/-- A reader gets a plan whose write then fails: it never was in the file. -/
theorem plan_store_dirty_read : ∃ s s', StoreRun { plans := fun _ => none, persisted := [fun _ => none] } s ∧
    s.get "m" = some examplePlan ∧ StoreStep s s' ∧ s'.get "m" = none ∧ ¬ s'.Persisted "m" examplePlan := by
  refine ⟨_, _, Relation.ReflTransGen.single (.set examplePlan rfl), rfl, .rollback rfl, rfl, ?_⟩
  rintro ⟨_, hmem, hcontent⟩
  cases List.mem_singleton.mp hmem
  cases hcontent

end Maistr0.Orchestrator
