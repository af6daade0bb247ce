import Maistr0.Go

/-!
# Eligibility diagnostics

`Prepare` and `ExplainEligibility` of `internal/scheduler/score`. Both let the same models through. `Prepare` keeps
the one with the highest score and fails if that one has no name, whereas `ExplainEligibility` counts those that have
one. What the hardware says about a model and what a node can do is left open, as is how texts are compared; the
preferred capabilities of a candidate are left out.
-/

namespace Maistr0.Scheduler.Score

open Go

structure EngineStatus where
  name : String
  ready : Bool

structure Model where
  name : String := ""
  engine : String := ""
  device : String := ""
  sizeGB : Rat := 0
  tags : List String := []

structure NodeStatus where
  healthy : Bool := true
  draining : Bool := false
  engines : List EngineStatus := []
  models : List Model := []
  defaultModel : String := ""

structure Subtask where
  taskType : String := ""
  preferredModel : String := ""
  requiredCapabilities : List String := []
  minModelSizeGB : Rat := 0

/-- `npuIssues` and `acceleratorBonus` are the rest of their functions, for a model that has an NPU as its device, or
an engine. -/
class Checks where
  equalFold : String → String → Bool
  effectiveCapabilities : NodeStatus → List String
  npuIssues : NodeStatus → Model → Nat
  acceleratorBonus : NodeStatus → Model → Rat

export Checks (equalFold effectiveCapabilities npuIssues acceleratorBonus)

section

variable [Checks]

def NodeStatus.engineReady (node : NodeStatus) (name : String) : Bool :=
  node.engines = [] || (node.engines.find? fun status => equalFold status.name name).any (·.ready)

def modelMatchesSubtask (subtask : Subtask) (model : Model) : Bool :=
  !(subtask.taskType = "vision" && !model.tags.contains "vision") &&
    (subtask.minModelSizeGB ≤ 0 || model.sizeGB ≤ 0 || model.sizeGB ≥ subtask.minModelSizeGB)

def npuModelEligibilityIssues (node : NodeStatus) (model : Model) : Nat :=
  if equalFold (trimSpace model.device) "npu" then npuIssues node model else 0

def npuIssueDoesNotFit : Nat := 1 <<< 4

def acceleratorCompatibilityBonus (node : NodeStatus) (model : Model) : Rat :=
  if model.engine = "" then 0 else acceleratorBonus node model

def isAdvisoryCapability (capability : String) : Bool :=
  ["analyst", "code", "coder", "creative", "editor", "general", "math", "researcher", "reviewer", "summarize",
    "summarizer", "translate", "translator", "writer"].contains capability

def hasCapability (capabilities : List String) (target : String) : Bool := capabilities.any (equalFold · target)

structure Eligibility where
  reason : String := "eligible"
  readyModels : Nat := 0
  compatibleModels : Nat := 0
  resourceModels : Nat := 0
  resourceIssues : Nat := 0

variable (node : NodeStatus) (subtask : Subtask)

/-- A turn of the loop of `ExplainEligibility`. -/
def explainModel (result : Eligibility) (model : Model) : Eligibility :=
  if !node.engineReady model.engine then result
  else
    let result := { result with readyModels := result.readyModels + 1 }
    if !modelMatchesSubtask subtask model then result
    else
      let issues := npuModelEligibilityIssues node model
      { result with
        compatibleModels := result.compatibleModels + 1
        resourceIssues := result.resourceIssues ||| issues
        resourceModels := if issues = 0 && model.name ≠ "" then result.resourceModels + 1 else result.resourceModels }

structure Candidate where
  model : String := ""
  engine : String := ""
  modelSizeGB : Rat := 0
  modelMatch : Rat := 0
  modelQualityTags : Nat := 0
  modelAtLeastSevenGB : Bool := false
  matchedRequiredCaps : Nat := 0

def tagScore (tag : String) : Rat :=
  if tag = subtask.taskType then 2 else if tag = "general" then 1 / 2 else if tag = "fast" then 1 / 4 else 0

def modelScore (model : Model) : Rat :=
  (if model.name = node.defaultModel then 1 else 0) +
    (if subtask.preferredModel ≠ "" && equalFold model.name subtask.preferredModel then 2 else 0) +
    (model.tags.map (tagScore subtask)).sum + max 0 (acceleratorCompatibilityBonus node model)

def usable (model : Model) : Bool :=
  node.engineReady model.engine && modelMatchesSubtask subtask model && npuModelEligibilityIssues node model = 0

/-- A turn of the loop of `prepareWithCapabilities`, with the best candidate so far and its score. -/
def considerModel (matchedRequiredCaps : Nat) (best : Candidate × Rat) (model : Model) : Candidate × Rat :=
  let score := modelScore node subtask model
  if usable node subtask model && best.2 < score then
    ({ model := model.name, engine := model.engine, modelSizeGB := model.sizeGB, modelMatch := score,
       modelQualityTags := model.tags.countP fun tag => tag = "high-quality" || tag = "reasoning",
       modelAtLeastSevenGB := 7 ≤ model.sizeGB, matchedRequiredCaps }, score)
  else best

variable {node subtask}

theorem modelScore_nonneg (model : Model) : 0 ≤ modelScore node subtask model := by
  have htags : 0 ≤ (model.tags.map (tagScore subtask)).sum := by
    refine List.sum_nonneg fun score hscore => ?_
    obtain ⟨_, -, rfl⟩ := List.mem_map.mp hscore
    unfold tagScore
    split_ifs <;> decide +kernel
  unfold modelScore
  grind

theorem named_of_best {matched : Nat} {models : List Model} {best : Candidate × Rat} (h : best.1.model = "")
    (hbest : (models.foldl (considerModel node subtask matched) best).1.model ≠ "") :
    ∃ model ∈ models, usable node subtask model ∧ model.name ≠ "" := by
  induction models generalizing best with
  | nil => exact absurd h hbest
  | cons model models ih => grind [considerModel]

/-- As soon as a model gets past the filters there is a candidate, for no score is below zero. -/
theorem best_named {matched : Nat} {models : List Model} {best : Candidate × Rat}
    (hnamed : ∀ model ∈ models, usable node subtask model → model.name ≠ "")
    (h : best.1.model ≠ "" ∨ best.2 < 0 ∧ ∃ model ∈ models, usable node subtask model) :
    (models.foldl (considerModel node subtask matched) best).1.model ≠ "" := by
  induction models generalizing best with
  | nil => grind
  | cons model models ih => grind [considerModel, modelScore_nonneg]

variable (node subtask)

theorem explain_foldl (models : List Model) (result : Eligibility) :
    let result' := models.foldl (explainModel node subtask) result
    result'.reason = result.reason ∧
      result'.resourceModels = result.resourceModels + models.countP (fun model => usable node subtask model && model.name ≠ "") ∧
      (result.resourceModels ≤ result.compatibleModels → result.compatibleModels ≤ result.readyModels →
        result'.resourceModels ≤ result'.compatibleModels ∧ result'.compatibleModels ≤ result'.readyModels) := by
  induction models generalizing result with
  | nil => grind
  | cons model models ih =>
    have hrest := ih (explainModel node subtask result model)
    grind [explainModel, usable]

variable [CaseFolding]

def lacking (capabilities : List String) (required : String) : Bool :=
  let required := toLower (trimSpace required)
  !hasCapability capabilities required && !isAdvisoryCapability required

def explainEligibility : Eligibility :=
  if node.draining then { reason := "draining" }
  else if !node.healthy then { reason := "unhealthy" }
  else if subtask.requiredCapabilities.any (lacking (effectiveCapabilities node)) then { reason := "required_capability" }
  else
    let result := node.models.foldl (explainModel node subtask) {}
    if node.models.length = 0 then { result with reason := "no_models" }
    else if result.readyModels = 0 then { result with reason := "engine_unready" }
    else if result.compatibleModels = 0 then { result with reason := "model_requirements" }
    else if result.resourceModels = 0 && result.resourceIssues = 0 then { result with reason := "no_usable_model" }
    else if result.resourceModels = 0 then
      if result.resourceIssues &&& npuIssueDoesNotFit ≠ 0 then { result with reason := "accelerator_memory_insufficient" }
      else { result with reason := "accelerator_constraints" }
    else result

def prepareWithCapabilities (capabilities : List String) : Option Candidate :=
  if !node.healthy || node.draining || subtask.requiredCapabilities.any (lacking capabilities) then none
  else
    let matched := subtask.requiredCapabilities.countP fun required => hasCapability capabilities (toLower (trimSpace required))
    let best := (node.models.foldl (considerModel node subtask matched) ({}, -1)).1
    if best.model = "" then none else some best

def prepare : Option Candidate :=
  if !node.healthy || node.draining then none else prepareWithCapabilities node subtask (effectiveCapabilities node)

/-- The node takes the subtask, as far as its models do not matter. -/
def Accepts : Prop :=
  node.healthy ∧ !node.draining ∧ !subtask.requiredCapabilities.any (lacking (effectiveCapabilities node))

theorem reason_eq_eligible_iff : (explainEligibility node subtask).reason = "eligible" ↔
    Accepts node subtask ∧ ∃ model ∈ node.models, usable node subtask model ∧ model.name ≠ "" := by
  have hfold := explain_foldl node subtask node.models {}
  have hcount := List.countP_pos_iff (l := node.models) (p := fun model => usable node subtask model && model.name ≠ "")
  unfold explainEligibility Accepts
  grind

theorem prepare_isSome_iff : ∃ matched, (prepare node subtask).isSome ↔
    Accepts node subtask ∧ (node.models.foldl (considerModel node subtask matched) ({}, -1)).1.model ≠ "" := by
  refine ⟨subtask.requiredCapabilities.countP fun required =>
    hasCapability (effectiveCapabilities node) (toLower (trimSpace required)), ?_⟩
  unfold prepare prepareWithCapabilities Accepts
  grind

variable {node subtask}

end

@[reducible] def plainChecks : Checks := ⟨fun a b => a = b, fun _ => [], fun _ _ => 0, fun _ _ => 0⟩

end Maistr0.Scheduler.Score
