import Maistr0.Lib.Dialogue
import Maistr0.Orchestrator.Breaker

/-!
# Routing one inference request

`handleRouterRequest` of `router_handlers.go`. Everything the handler is told from outside is a question here: the
client limiter, the registry, the scheduler, the circuit breakers, the capacity gate, the shard groups, the upstream
node, the client's connection and the state of the request's context. What it does to them is an effect. Times,
headers, bodies, backoff delays and counters that only grow are left out.
-/

namespace Maistr0.Orchestrator

open Go Lib
open CircuitBreakers (Admission Outcome)

namespace Router

def routerMaxAttempts : Nat := 5

/-! ### What the handler is told -/

inductive CtxErr where
  | canceled
  | deadlineExceeded
deriving DecidableEq

inductive LimitReason where
  | rate
  | concurrency
  | capacity
deriving DecidableEq

/-- What reading and decoding the request body gives: the model it asks for, if it decodes. -/
inductive RequestBody where
  | unreadable
  | invalidJSON
  | modelNotString
  | decoded (preferredModel : String)
deriving DecidableEq

structure Assignment where
  nodeID : String
  address : String
  model : String
  engine : String
deriving DecidableEq

structure RegisteredNode where
  healthy : Bool
  address : String
deriving DecidableEq

/-- A model a node offers: its engine is ready, it is the requested one, it speaks the protocol of the route. -/
structure OfferedModel where
  name : String
  engine : String
  engineReady : Bool
  requested : Bool
  compatible : Bool
deriving DecidableEq

structure OfferingNode where
  id : String
  address : String
  models : List OfferedModel
deriving DecidableEq

inductive ShardGroupState where
  | planning
  | startingWorkers
  | startingHead
  | ready
  | degraded
  | failed
  | stopping
  | stopped
deriving DecidableEq

def ShardGroupState.text : ShardGroupState → String
  | .planning => "planning"
  | .startingWorkers => "starting_workers"
  | .startingHead => "starting_head"
  | .ready => "ready"
  | .degraded => "degraded"
  | .failed => "failed"
  | .stopping => "stopping"
  | .stopped => "stopped"

structure ShardGroupMember where
  nodeID : String := ""
  address : String := ""
  role : String := ""
  engineID : String := ""
deriving DecidableEq

structure ShardGroup where
  id : String
  state : ShardGroupState
  model : String
  members : List ShardGroupMember
deriving DecidableEq

def ShardGroup.head (g : ShardGroup) : ShardGroupMember := (g.members.find? fun m => m.role = "head").getD {}

/-- The error of `DoDispatch`, as far as the handler tells errors apart. -/
inductive RequestErr where
  | deadlineExceeded
  | canceled
  | other
deriving DecidableEq

inductive Upstream where
  | failed (err : RequestErr)
  | answered (status : Nat)
deriving DecidableEq

/-- Reading the body of an answer that is not a success, and `ctx.Err()` after it. -/
structure ErrorBody where
  readErr : Bool
  mentionsModel : Bool
  ctxErr : Option CtxErr
deriving DecidableEq

inductive ReadErr where
  | eof
  | other
deriving DecidableEq

structure FirstByte where
  read : Bool
  readErr : Option ReadErr
deriving DecidableEq

inductive StreamEnd where
  | complete
  | idleTimeout
  | failed
deriving DecidableEq

def Offered (nodes : List OfferingNode) (a : Assignment) : Prop :=
  ∃ n ∈ nodes, n.id = a.nodeID ∧ ∃ m ∈ n.models, m.name = a.model

/-- The questions of the handler, each with the type of its answer. -/
inductive Query : Type → Type 1 where
  | route : Query Bool
  | requestID : Query Bool
  | clientLimit : Query (Option LimitReason)
  | body : Query RequestBody
  | ctxErr : Query (Option CtxErr)
  | clientGone : Query Bool
  | groupForModel (model : String) : Query (Option ShardGroup)
  | node (id : String) : Query (Option RegisteredNode)
  | nodes : Query (List OfferingNode)
  | eligible (nodeID model : String) : Query Bool
  | schedule (offers : List OfferingNode) : Query (Option { a : Assignment // Offered offers a })
  | acquire (nodeID model : String) : Query Admission
  | group (id : String) : Query (Option ShardGroup)
  | acquireRequest (groupID : String) : Query (Except String Unit)
  | verifyModel (groupID : String) : Query (Except String Unit)
  | reserve (nodeID address : String) : Query (Option String)
  | marshalPayload : Query Bool
  | newRequest : Query Bool
  | dispatch (nodeID model : String) : Query Upstream
  | ttfbExpired : Query Bool
  | errorBody (nodeID model : String) (status : Nat) : Query ErrorBody
  | firstByte : Query FirstByte
  | clientWrite : Query Bool
  | stream : Query StreamEnd
  | sleep : Query Bool

/-! ### What the handler does -/

inductive Phase where
  | accepted
  | rejected
  | finished
  | scheduled
  | queued
  | attemptStarted
  | dispatched
  | upstreamResponse
  | firstUpstreamByte
  | attemptFailed
  | attemptSucceeded
  | completed
  | failed
deriving DecidableEq

inductive FailureClass where
  | none
  | requestPreparation
  | clientRateLimit
  | clientConcurrencyLimit
  | clientLimitCapacity
  | invalidRequest
  | timeout
  | cancelled
  | shardGroupUnavailable
  | noCompatibleNode
  | attemptsExhausted
  | timeToFirstByteTimeout
  | nodeUnavailable
  | reservation
  | staleModel
  | transport
  | rateLimit
  | upstream5xx
  | clientError
  | upstreamRead
  | clientWrite
  | streamInterrupted
  | idleStreamTimeout
deriving DecidableEq

structure RequestEvent where
  phase : Phase
  nodeID : String := ""
  model : String := ""
  engine : String := ""
  status : Nat := 0
  failureClass : FailureClass := .none
deriving DecidableEq

inductive Reservation where
  | capacity (nodeID : String)
  | shardGroup (groupID nodeID : String)
deriving DecidableEq

def Reservation.target : Reservation → String
  | .capacity nodeID => nodeID
  | .shardGroup _ nodeID => nodeID

/-- What a request takes and has to give back. A gauge or a load is one unit of it. -/
inductive Resource where
  | clientSlot
  | queueDepth
  | reservation (r : Reservation)
  | load (nodeID : String)
  | activeStream
deriving DecidableEq

inductive Effect where
  | take (r : Resource)
  | give (r : Resource)
  | report (outcome : Outcome) (nodeID model : String)
  | send (nodeID model : String)
  | respond (status : Nat) (message : String)
  | record (event : RequestEvent)
deriving DecidableEq

abbrev interface : Interface where
  Query := Query
  Effect := Effect

abbrev Handler := Dialogue interface

def ask {α : Type} (q : Query α) : Handler α := Dialogue.query (I := interface) q

def tell (e : Effect) : Handler Unit := Dialogue.perform (I := interface) e

/-! ### Events and responses -/

def isTransientRouterFailure : FailureClass → Bool
  | .nodeUnavailable | .transport | .timeout | .timeToFirstByteTimeout | .idleStreamTimeout | .upstream5xx | .rateLimit
  | .staleModel | .upstreamRead | .streamInterrupted => true
  | _ => false

def recordRouterEvent (event : RequestEvent) : Handler Unit := do
  tell (.record event)
  match event.phase with
  | .attemptFailed =>
    if isTransientRouterFailure event.failureClass then tell (.report .recordFailure event.nodeID event.model)
    else if event.status ≥ 200 then tell (.report .recordHealthyResponse event.nodeID event.model)
    else pure ()
  | .attemptSucceeded => tell (.report .recordSuccess event.nodeID event.model)
  | _ => pure ()

/-- What the loop carries from turn to turn; `terminal` is the event the request ends with. -/
structure Loop where
  tried : List String := []
  lastAttemptFailureClass : FailureClass := .none
  terminal : RequestEvent := { phase := .failed, failureClass := .requestPreparation }

/-- The phases after which `recordEvent` replaces the terminal event. -/
def Phase.ends : Phase → Bool
  | .rejected | .finished | .attemptFailed | .attemptSucceeded => true
  | _ => false

def Loop.note (l : Loop) (event : RequestEvent) : Loop :=
  { l with terminal := if event.phase.ends then event else l.terminal }

def recordEvent (l : Loop) (event : RequestEvent) : Handler Loop := do
  recordRouterEvent event
  pure (l.note event)

def writeRouterError (status : Nat) (message : String) : Handler Unit := tell (.respond status message)

def writeRouterContextError : Handler Unit := do
  if ← ask .clientGone then pure ()
  else
    match ← ask .ctxErr with
    | some .canceled => writeRouterError 408 "inference request was interrupted"
    | _ => writeRouterError 504 "inference request deadline exceeded"

def releaseRouterReservation (r : Reservation) : Handler Unit := do
  tell (.give (.load r.target))
  tell (.give (.reservation r))

def classifyUpstreamStatus (status : Nat) (mentionsModel : Bool) : FailureClass × Bool :=
  if status = 408 then (.timeout, true)
  else if status = 429 then (.rateLimit, true)
  else if status = 500 ∨ status = 502 ∨ status = 503 ∨ status = 504 then (.upstream5xx, true)
  else if status = 404 ∧ mentionsModel then (.staleModel, true)
  else (.clientError, false)

def CtxErr.failureClass : CtxErr → FailureClass
  | .canceled => .cancelled
  | .deadlineExceeded => .timeout

/-! ### Finding a node -/

inductive AssignErr where
  | unavailable (message : String)
  | other
deriving DecidableEq

def eligibleModels (model : String) (tried : List String) (nodeID : String) :
    List OfferedModel → Handler (List OfferedModel)
  | [] => pure []
  | candidate :: rest => do
    if candidate.engine = "" ∨ candidate.engineReady = false then eligibleModels model tried nodeID rest
    else if model ≠ "" ∧ candidate.requested = false then eligibleModels model tried nodeID rest
    else if candidate.compatible = false then eligibleModels model tried nodeID rest
    else if routerPairKey nodeID candidate.name ∈ tried then eligibleModels model tried nodeID rest
    else if ← ask (.eligible nodeID candidate.name) then
      let models ← eligibleModels model tried nodeID rest
      pure (candidate :: models)
    else eligibleModels model tried nodeID rest

def eligibleNodes (model : String) (tried : List String) : List OfferingNode → Handler (List OfferingNode)
  | [] => pure []
  | node :: rest => do
    let models ← eligibleModels model tried node.id node.models
    let nodes ← eligibleNodes model tried rest
    pure (if models = [] then nodes else { node with models := models } :: nodes)

def assignShardGroup (model : String) (tried : List String) (group : ShardGroup) :
    Handler (Except AssignErr Assignment) := do
  if group.state ≠ .ready then
    pure (.error (.unavailable ("shard group for model \"" ++ model ++ "\" is " ++ group.state.text)))
  else
    match ← ask (.node group.head.nodeID) with
    | none => pure (.error (.unavailable ("shard group head for model \"" ++ model ++ "\" is unavailable")))
    | some node =>
      if node.healthy = false ∨ node.address ≠ group.head.address then
        pure (.error (.unavailable ("shard group head for model \"" ++ model ++ "\" is unavailable")))
      else if routerPairKey group.head.nodeID group.model ∈ tried then
        pure (.error (.unavailable ("shard group for model \"" ++ model ++ "\" has no additional inference head")))
      else
        pure (.ok { nodeID := group.head.nodeID, address := group.head.address, model := group.model,
                    engine := "shard-group:" ++ group.id })

def assignNode (model : String) (tried : List String) : Handler (Except AssignErr Assignment) := do
  let nodes ← ask .nodes
  let eligible ← eligibleNodes model tried nodes
  match ← ask (.schedule eligible) with
  | none => pure (.error .other)
  | some assignment => pure (.ok assignment.val)

def assignRouterRequest (model : String) (tried : List String) : Handler (Except AssignErr Assignment) := do
  if model = "" then assignNode model tried
  else
    match ← ask (.groupForModel model) with
    | some group => assignShardGroup model tried group
    | none => assignNode model tried

/-! ### One attempt -/

inductive Next where
  | again (l : Loop)
  | returned (l : Loop)

def attemptEvent (a : Assignment) (phase : Phase) (failureClass : FailureClass) (status : Nat) : RequestEvent :=
  { phase := phase, nodeID := a.nodeID, model := a.model, engine := a.engine, status := status,
    failureClass := failureClass }

def releaseProbe (a : Assignment) : Handler Unit := tell (.report .releaseProbe a.nodeID a.model)

/-- The end of a turn that may be tried again: the pause before the next one, unless this was the last. -/
def pause (attemptNumber : Nat) (l : Loop) : Handler Next := do
  if attemptNumber < routerMaxAttempts then
    if ← ask .sleep then pure (.again l)
    else
      writeRouterContextError
      pure (.returned l)
  else pure (.again l)

def requestFailureClass (ctxErr : Option CtxErr) (expired : Bool) (err : RequestErr) : FailureClass :=
  match ctxErr, expired, err with
  | some ctxErr, _, _ => ctxErr.failureClass
  | none, true, _ => .timeToFirstByteTimeout
  | none, false, .deadlineExceeded => .timeout
  | none, false, .canceled => .cancelled
  | none, false, .other => .transport

def requestFailed (attemptNumber : Nat) (a : Assignment) (r : Reservation) (l : Loop) (err : RequestErr) :
    Handler Next := do
  releaseProbe a
  releaseRouterReservation r
  let ctxErr ← ask .ctxErr
  let expired ← ask .ttfbExpired
  let failureClass := requestFailureClass ctxErr expired err
  let l ← recordEvent { l with lastAttemptFailureClass := failureClass } (attemptEvent a .attemptFailed failureClass 0)
  if (← ask .ctxErr) ≠ none then
    writeRouterContextError
    pure (.returned l)
  else pause attemptNumber l

/-- An answer that is not a success is classified, and tried again or passed on to the client. -/
def statusFailed (attemptNumber : Nat) (a : Assignment) (l : Loop) (status : Nat) (failureClass : FailureClass)
    (retryable : Bool) : Handler Next := do
  let l ← recordEvent { l with lastAttemptFailureClass := failureClass } (attemptEvent a .attemptFailed failureClass status)
  if retryable ∧ attemptNumber < routerMaxAttempts then
    if (← ask .ctxErr) = none then pause attemptNumber l
    else
      writeRouterError status ""
      pure (.returned l)
  else
    writeRouterError status ""
    pure (.returned l)

def errorResponse (attemptNumber : Nat) (a : Assignment) (r : Reservation) (l : Loop) (status : Nat) : Handler Next := do
  let body ← ask (.errorBody a.nodeID a.model status)
  releaseRouterReservation r
  if body.ctxErr ≠ none then
    let l ← recordEvent l (attemptEvent a .attemptFailed .timeout status)
    writeRouterContextError
    pure (.returned l)
  else
    let (failureClass, retryable) := classifyUpstreamStatus status body.mentionsModel
    statusFailed attemptNumber a l status (if body.readErr ∧ retryable then .upstreamRead else failureClass) retryable

def firstByteFailureClass (ctxErr : Option CtxErr) (expired : Bool) : FailureClass :=
  match ctxErr with
  | some ctxErr => ctxErr.failureClass
  | none => if expired then .timeToFirstByteTimeout else .upstreamRead

def firstByteError (failureClass : FailureClass) (l : Loop) : Handler Next := do
  if failureClass = .timeToFirstByteTimeout then
    writeRouterError 504 "inference upstream did not send content before the first-byte timeout"
    pure (.returned l)
  else
    writeRouterError 502 "inference upstream failed before sending content"
    pure (.returned l)

def firstByteFailed (attemptNumber : Nat) (a : Assignment) (r : Reservation) (l : Loop) (status : Nat) (expired : Bool) :
    Handler Next := do
  tell (.give .activeStream)
  releaseRouterReservation r
  let ctxErr ← ask .ctxErr
  let failureClass := firstByteFailureClass ctxErr expired
  let l ← recordEvent { l with lastAttemptFailureClass := failureClass } (attemptEvent a .attemptFailed failureClass status)
  if (← ask .ctxErr) ≠ none then
    writeRouterContextError
    pure (.returned l)
  else if attemptNumber < routerMaxAttempts then
    if (← ask .ctxErr) = none then pause attemptNumber l else firstByteError failureClass l
  else firstByteError failureClass l

def streamFailureClass (gone : Bool) (streamEnd : StreamEnd) (ctxErr : Option CtxErr) : FailureClass :=
  if gone then .cancelled
  else if streamEnd = .idleTimeout then .idleStreamTimeout
  else if ctxErr ≠ none then .timeout
  else .streamInterrupted

def streamRest (first : FirstByte) : Handler StreamEnd :=
  match first.readErr with
  | some .other => pure .failed
  | some .eof => pure .complete
  | none => ask .stream

def streamEnded (a : Assignment) (r : Reservation) (l : Loop) (status : Nat) (streamEnd : StreamEnd) : Handler Next := do
  tell (.give .activeStream)
  releaseRouterReservation r
  if streamEnd = .complete then
    let l ← recordEvent l (attemptEvent a .attemptSucceeded .none status)
    pure (.returned l)
  else
    let gone ← ask .clientGone
    let ctxErr ← ask .ctxErr
    let l ← recordEvent l (attemptEvent a .attemptFailed (streamFailureClass gone streamEnd ctxErr) status)
    pure (.returned l)

def clientWriteFailed (a : Assignment) (r : Reservation) (l : Loop) (status : Nat) : Handler Next := do
  tell (.give .activeStream)
  releaseRouterReservation r
  let gone ← ask .clientGone
  let l ← recordEvent l (attemptEvent a .attemptFailed (if gone then .cancelled else .clientWrite) status)
  pure (.returned l)

/-- The rest of a success: the response is committed, so nothing is tried again. -/
def streamResponse (a : Assignment) (r : Reservation) (l : Loop) (status : Nat) (first : FirstByte) : Handler Next := do
  writeRouterError status ""
  let written ← if first.read then ask .clientWrite else pure true
  if written = false then clientWriteFailed a r l status
  else
    let streamEnd ← streamRest first
    streamEnded a r l status streamEnd

def successResponse (attemptNumber : Nat) (a : Assignment) (r : Reservation) (l : Loop) (status : Nat) : Handler Next := do
  tell (.take .activeStream)
  let first ← ask .firstByte
  let expired ← ask .ttfbExpired
  if expired ∨ (first.read = false ∧ first.readErr = some .other) then firstByteFailed attemptNumber a r l status expired
  else if first.read then
    let l ← recordEvent l { phase := .firstUpstreamByte, status := status }
    streamResponse a r l status first
  else streamResponse a r l status first

def preparationFailed (a : Assignment) (r : Reservation) (l : Loop) : Handler Next := do
  releaseProbe a
  releaseRouterReservation r
  writeRouterError 500 "could not prepare inference request"
  pure (.returned l)

/-- `DoDispatch` and what follows it. -/
def sendRequest (attemptNumber : Nat) (a : Assignment) (r : Reservation) (l : Loop) : Handler Next := do
  let l ← recordEvent l (attemptEvent a .dispatched .none 0)
  tell (.send a.nodeID a.model)
  match ← ask (.dispatch a.nodeID a.model) with
  | .failed err => requestFailed attemptNumber a r l err
  | .answered status =>
    let l ← recordEvent l (attemptEvent a .upstreamResponse .none status)
    if status < 200 ∨ status ≥ 300 then errorResponse attemptNumber a r l status
    else successResponse attemptNumber a r l status

def dispatch (preferredModel : String) (attemptNumber : Nat) (a : Assignment) (r : Reservation) (l : Loop) :
    Handler Next := do
  tell (.take (.load r.target))
  let l ← recordEvent l { attemptEvent a .attemptStarted .none 0 with nodeID := r.target }
  let marshalled ← if preferredModel = "" then ask .marshalPayload else pure true
  if marshalled = false then preparationFailed a r l
  else if (← ask .newRequest) = false then preparationFailed a r l
  else sendRequest attemptNumber a r l

/-- `writeRouterError` with `StatusServiceUnavailable`, unless the context has ended. -/
def unavailableUnlessEnded (message : String) (l : Loop) : Handler Next := do
  if (← ask .ctxErr) ≠ none then pure (.returned l)
  else
    writeRouterError 503 message
    pure (.returned l)

def shardGroupUnavailable (a : Assignment) (message : String) (l : Loop) : Handler Next := do
  releaseProbe a
  let l ← recordEvent l { phase := .finished, failureClass := .shardGroupUnavailable }
  writeRouterError 503 message
  pure (.returned l)

def verifiedAttempt (preferredModel : String) (attemptNumber : Nat) (a : Assignment) (r : Reservation) (groupID : String)
    (l : Loop) : Handler Next := do
  tell (.take (.reservation r))
  match ← ask (.verifyModel groupID) with
  | .error err =>
    tell (.give (.reservation r))
    releaseProbe a
    let l ← recordEvent l { phase := .attemptFailed, failureClass := .staleModel }
    unavailableUnlessEnded
      ("shard head model does not match saved group; stop and start the group to restore its model: " ++ err) l
  | .ok () => dispatch preferredModel attemptNumber a r l

def shardAttempt (preferredModel : String) (attemptNumber : Nat) (a : Assignment) (groupID : String) (l : Loop) :
    Handler Next := do
  match ← ask (.group groupID) with
  | none => shardGroupUnavailable a "shard group is not ready" l
  | some group =>
    if group.state ≠ .ready then shardGroupUnavailable a "shard group is not ready" l
    else if group.head.nodeID ≠ a.nodeID ∨ group.head.address ≠ a.address then
      shardGroupUnavailable a "shard group head is unavailable" l
    else
      let l ← recordEvent l (attemptEvent a .queued .none 0)
      match ← ask (.acquireRequest groupID) with
      | .error err =>
        releaseProbe a
        let l ← recordEvent l { phase := .attemptFailed, failureClass := .reservation }
        unavailableUnlessEnded err l
      | .ok () => verifiedAttempt preferredModel attemptNumber a (.shardGroup groupID a.nodeID) groupID l

def capacityAttempt (preferredModel : String) (attemptNumber : Nat) (a : Assignment) (l : Loop) : Handler Next := do
  let l ← recordEvent l (attemptEvent a .queued .none 0)
  tell (.take .queueDepth)
  let reserved ← ask (.reserve a.nodeID a.address)
  match reserved with
  | some target =>
    tell (.take (.reservation (.capacity target)))
    tell (.give .queueDepth)
    dispatch preferredModel attemptNumber a (.capacity target) l
  | none =>
    tell (.give .queueDepth)
    releaseProbe a
    if (← ask .ctxErr) ≠ none then pure (.again l)
    else
      let l ← recordEvent l (attemptEvent a .attemptFailed .reservation 0)
      pure (.again { l with lastAttemptFailureClass := .reservation })

/-- The group of an assignment to a shard group: `strings.TrimPrefix`, if that changes the engine. -/
def shardGroupID? (engine : String) : Option String :=
  if hasPrefix engine "shard-group:" then some (String.ofList (engine.toList.drop 12)) else none

def attempt (preferredModel : String) (attemptNumber : Nat) (a : Assignment) (l : Loop) : Handler Next := do
  let l ← recordEvent l (attemptEvent a .scheduled .none 0)
  let node ← ask (.node a.nodeID)
  if (node.any fun n => n.healthy && n.address == a.address) = false then
    releaseProbe a
    let l ← recordEvent { l with lastAttemptFailureClass := .nodeUnavailable }
      (attemptEvent a .attemptFailed .nodeUnavailable 0)
    pure (.again l)
  else
    match shardGroupID? a.engine with
    | some groupID => shardAttempt preferredModel attemptNumber a groupID l
    | none => capacityAttempt preferredModel attemptNumber a l

/-! ### The loop -/

def exhausted (l : Loop) : FailureClass × Nat :=
  if l.lastAttemptFailureClass = .timeToFirstByteTimeout then (.timeToFirstByteTimeout, 504) else (.attemptsExhausted, 502)

def assignmentFailed (attemptNumber : Nat) (err : AssignErr) (l : Loop) : Handler Next := do
  match err with
  | .unavailable message =>
    let l ← recordEvent l { phase := .finished, failureClass := .shardGroupUnavailable }
    writeRouterError 503 message
    pure (.returned l)
  | .other =>
    let (failureClass, status) := if attemptNumber > 1 then exhausted l else (.noCompatibleNode, 503)
    let l ← recordEvent l { phase := .finished, failureClass := failureClass }
    writeRouterError status "no additional compatible inference node is available"
    pure (.returned l)

def turn (preferredModel : String) (attemptNumber : Nat) (l : Loop) : Handler Next := do
  match ← ask .ctxErr with
  | some err =>
    let l ← recordEvent l { phase := .finished, failureClass := err.failureClass }
    writeRouterContextError
    pure (.returned l)
  | none =>
    match ← assignRouterRequest preferredModel l.tried with
    | .error err => assignmentFailed attemptNumber err l
    | .ok a =>
      let l := { l with tried := routerPairKey a.nodeID a.model :: l.tried }
      if (← ask (.acquire a.nodeID a.model)) = .refused then pure (.again l)
      else attempt preferredModel attemptNumber a l

def turns (preferredModel : String) : Nat → Loop → Handler Loop
  | 0, l => do
    let (failureClass, status) := exhausted l
    let l ← recordEvent l { phase := .finished, failureClass := failureClass }
    writeRouterError status "inference could not be completed on a compatible node"
    pure l
  | left + 1, l => do
    match ← turn preferredModel (routerMaxAttempts - left) l with
    | .again l => turns preferredModel left l
    | .returned l => pure l

def rejected (l : Loop) (status : Nat) (message : String) (failureClass : FailureClass) : Handler Loop := do
  writeRouterError status message
  recordEvent l { phase := .rejected, failureClass := failureClass }

/-- Everything between taking the slot of the client and giving it back. -/
def serve (l : Loop) : Handler Loop := do
  match ← ask .body with
  | .unreadable => rejected l 413 "request body is too large or unreadable" .invalidRequest
  | .invalidJSON => rejected l 400 "invalid inference request JSON" .invalidRequest
  | .modelNotString => rejected l 400 "model must be a string" .invalidRequest
  | .decoded preferredModel => turns preferredModel routerMaxAttempts l

def limited : LimitReason → Nat × FailureClass × String
  | .rate => (429, .clientRateLimit, "per-client request rate limit exceeded")
  | .concurrency => (429, .clientConcurrencyLimit, "per-client concurrency limit exceeded")
  | .capacity => (503, .clientLimitCapacity, "client limit capacity is temporarily unavailable")

/-- The deferred event with which every accepted request ends. -/
def recordTerminal (l : Loop) : Handler Unit := do
  if l.terminal.phase = .attemptSucceeded then recordRouterEvent { l.terminal with phase := .completed }
  else recordRouterEvent { l.terminal with phase := .failed }

def accepted : Handler Unit := do
  let l ← recordEvent {} { phase := .accepted }
  match ← ask .clientLimit with
  | some reason =>
    let (status, failureClass, message) := limited reason
    let l ← recordEvent l { phase := .rejected, status := status, failureClass := failureClass }
    writeRouterError status message
    recordTerminal l
  | none =>
    tell (.take .clientSlot)
    let l ← serve l
    tell (.give .clientSlot)
    recordTerminal l

def handleRouterRequest : Handler Unit := do
  if (← ask .route) = false then writeRouterError 404 "404 page not found"
  else if (← ask .requestID) = false then writeRouterError 500 "could not initialize request"
  else accepted

end Router

end Maistr0.Orchestrator
