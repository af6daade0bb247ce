import Maistr0.Go
import Maistr0.Lib.Checks

/-!
# Finding a pipeline request again

`openPipelineRequest` of `stage_component.go` and what prefill, decode and close do before they reach the
runtime. The assignment a caller sends is normalised where the stage is looked up and where the request
is, but not where the request is registered.
-/

namespace Maistr0.NodeAgent

open Go Function Lib.Checks

structure StageAssignment where
  modelID : String
  startLayer : Int
  endLayer : Int
  nextStageAddr : String := ""
  engine : String := ""
  isFinal : Bool := false
deriving DecidableEq

def trimRightSlash (s : String) : String := String.ofList ((s.toList.reverse.dropWhile (· = '/')).reverse)

def StageAssignment.normalize [CaseFolding] (a : StageAssignment) : StageAssignment :=
  { a with
    modelID := trimSpace a.modelID
    nextStageAddr := trimRightSlash (trimSpace a.nextStageAddr)
    engine := toLower (trimSpace a.engine) }

/-- `Validate`, with the test of the parsed `NextStageAddr` as `absolute`. -/
def StageAssignment.validate (absolute : String → Bool) (a : StageAssignment) : Except String Unit :=
  if a.modelID = "" then .error "model_id must not be empty"
  else if a.startLayer < 0 ∨ a.endLayer ≤ a.startLayer then
    .error "layer range must satisfy 0 <= start_layer < end_layer"
  else if a.nextStageAddr ≠ "" ∧ !absolute a.nextStageAddr then
    .error "next_stage_addr must be an absolute HTTPS URL without user information"
  else .ok ()

def stageAssignmentMatches (loaded requested : StageAssignment) : Bool :=
  loaded.modelID = requested.modelID && loaded.startLayer = requested.startLayer &&
    loaded.endLayer = requested.endLayer && (requested.engine = "" || loaded.engine = requested.engine) &&
    (requested.nextStageAddr = "" || loaded.nextStageAddr = requested.nextStageAddr) &&
    loaded.isFinal = requested.isFinal

def nodeStageKey (a : StageAssignment) : String :=
  a.modelID ++ "\x00" ++ toString a.startLayer ++ "\x00" ++ toString a.endLayer

def pipelineRequestKey (a : StageAssignment) (requestID : String) : String :=
  nodeStageKey a ++ "\x00" ++ requestID

/-- A stage; `v2` says that its runtime is a `PipelineStageEngineV2`. -/
structure LoadedStage where
  assignment : StageAssignment
  v2 : Bool := true
  loaded : Bool := true
  unloading : Bool := false
  inFlight : Nat := 0

/-- An open request; `serial` stands for its address. -/
structure ActivePipelineRequest where
  serial : Nat
  assignment : StageAssignment
  requestID : String
deriving DecidableEq

structure StageComponent where
  stages : String → Option LoadedStage
  requests : String → Option ActivePipelineRequest := fun _ => none
  closed : Bool := false
  allocated : Nat := 0

/-- What the calls inside `openPipelineRequest` return: waiting for the stage, taking the request's lock,
the runtime; and whether the component is closed meanwhile. -/
structure Outcomes where
  absolute : String → Bool := fun _ => true
  ready : Except String Unit := .ok ()
  lock : Except String Unit := .ok ()
  runtime : Except String Unit := .ok ()
  closing : Bool := false

def errStageAssignmentConflict := "a different stage assignment is already loaded for this model range"

def errPipelineRequestNotOpen := "pipeline request is not open"

namespace StageComponent

def acquire [CaseFolding] (c : StageComponent) (o : Outcomes) (assignment : StageAssignment) :
    Except String (StageComponent × LoadedStage) := do
  let assignment := assignment.normalize
  assignment.validate o.absolute
  let key := nodeStageKey assignment
  let entry ← (c.stages key).elim (.error "stage assignment is not loaded") .ok
  o.ready
  failIf (c.closed || !entry.loaded || entry.unloading) "stage assignment is unavailable"
  failIf (!stageAssignmentMatches entry.assignment assignment) errStageAssignmentConflict
  let entry := { entry with inFlight := entry.inFlight + 1 }
  .ok ({ c with stages := update c.stages key (some entry) }, entry)

/-- `openPipelineRequest`. An error leaves the component as it was, the lease is released. -/
def openPipelineRequest [CaseFolding] (c : StageComponent) (o : Outcomes) (assignment : StageAssignment)
    (requestID : String) : Except String StageComponent := do
  let (c, entry) ← c.acquire o assignment
  failIf (!entry.v2) "selected engine does not support pipeline stages"
  o.lock
  let key := pipelineRequestKey assignment requestID
  failIf (c.requests key).isSome "pipeline request is already open"
  o.runtime
  failIf o.closing "stage assignment is unavailable"
  let request := ⟨c.allocated, entry.assignment, requestID⟩
  .ok { c with requests := update c.requests key (some request), allocated := c.allocated + 1 }

def pipelineRequest [CaseFolding] (c : StageComponent) (assignment : StageAssignment) (requestID : String) :
    Except String ActivePipelineRequest := do
  let assignment := assignment.normalize
  let request ← (c.requests (pipelineRequestKey assignment requestID)).elim (.error errPipelineRequestNotOpen) .ok
  failIf (!stageAssignmentMatches request.assignment assignment) errStageAssignmentConflict
  .ok request

/-- The request that prefill, decode and close hand to the runtime. -/
def activeRequest [CaseFolding] (c : StageComponent) (assignment : StageAssignment) (requestID : String) :
    Except String ActivePipelineRequest := do
  let active ← c.pipelineRequest assignment requestID
  failIf (c.requests (pipelineRequestKey active.assignment active.requestID) ≠ some active) errPipelineRequestNotOpen
  .ok active

theorem nodeStageKey_of_matches {loaded requested : StageAssignment} (h : stageAssignmentMatches loaded requested) :
    nodeStageKey loaded = nodeStageKey requested := by
  simp only [stageAssignmentMatches, Bool.and_eq_true, decide_eq_true_eq] at h
  obtain ⟨⟨⟨⟨⟨hmodel, hstart⟩, hend⟩, -⟩, -⟩, -⟩ := h
  unfold nodeStageKey
  rw [hmodel, hstart, hend]

variable [CaseFolding] {c c' : StageComponent} {o : Outcomes} {a : StageAssignment} {requestID : String}

theorem matches_of_acquire {entry : LoadedStage} (h : c.acquire o a = .ok (c', entry)) :
    c'.allocated = c.allocated ∧ stageAssignmentMatches entry.assignment a.normalize := by
  simp only [acquire, bind_eq_ok, failIf_eq_ok] at h
  obtain ⟨-, -, _, -, -, -, -, -, -, hmatches, hok⟩ := h
  cases hok
  exact ⟨rfl, by simpa using hmatches⟩

theorem requests_of_open (h : c.openPipelineRequest o a requestID = .ok c') :
    ∃ request : ActivePipelineRequest, request.serial = c.allocated ∧ request.requestID = requestID ∧
      stageAssignmentMatches request.assignment a.normalize ∧
      c'.requests (pipelineRequestKey a requestID) = some request := by
  simp only [openPipelineRequest, bind_eq_ok, failIf_eq_ok] at h
  obtain ⟨⟨c₁, entry⟩, hacquire, -, -, -, -, -, -, -, -, -, -, hok⟩ := h
  obtain ⟨hserial, hmatches⟩ := matches_of_acquire hacquire
  cases hok
  exact ⟨⟨c₁.allocated, entry.assignment, requestID⟩, hserial, rfl, hmatches, update_self _ _ _⟩

end StageComponent

/-- A node with one stage, for the first four layers of the model `m`. -/
def oneStage : StageComponent where
  stages key := if key = "m\x000\x004" then some { assignment := ⟨"m", 0, 4, "", "sim", true⟩ } else none

def simulated : StageAssignment := ⟨"m", 0, 4, "", " Sim", true⟩

end Maistr0.NodeAgent
