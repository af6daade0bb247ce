import Maistr0.Go

/-!
# The agent loop

`AgentLoop.Run`, which both harnesses share, with the conversations they give it. A turn reads from its surroundings
when its context is cancelled, what the model answers and what the tools return; the harness's `FormatMessages` sees
the messages recorded so far. Of a message only what the loop and the providers read is kept.
-/

namespace Maistr0.Agent

open Go

/-- What `encoding/json` puts into an `any`. -/
inductive Json
  | null
  | bool (value : Bool)
  | number (text : String)
  | string (value : String)
  | array (items : List Json)
  | object (fields : List (String × Json))

abbrev Fields := List (String × Json)

class JSON where
  /-- `json.Unmarshal` into a `map[string]any`, which is nil for `null`. -/
  unmarshalMap : String → Except String (Option Fields)
  /-- The text of a string has quotes around it. -/
  string_shorter : ∀ {text fields key value}, unmarshalMap text = .ok (some fields) →
    (key, Json.string value) ∈ fields → value.length < text.length

structure ToolCall where
  id : String
  name : String
  arguments : Option Fields := none
  rawArgs : String := ""

structure ToolResponse where
  toolCallID : String
  name : String
  output : Json := .null
  error : String := ""

inductive Message
  | user (content : String)
  | assistant (content : String) (toolCalls : List ToolCall)
  | tool (response : ToolResponse)

/-- What comes of a tool call: whether the context is cancelled before and after it, and the tool's answer. -/
structure ToolAnswer where
  cancelledBefore : Bool := false
  output : Json := .null
  error : String := ""
  cancelledAfter : Bool := false

inductive ModelAnswer
  /-- An error of `FormatMessages` or `CallModel`, and whether the context is cancelled then. -/
  | failed (cancelled : Bool)
  | empty
  | completion (content : String) (calls : List ToolCall)

structure StepAnswer where
  cancelled : Bool := false
  model : ModelAnswer
  /-- What `NewMessageID` gives for the calls without an id. -/
  newMessageID : Nat → String := fun _ => ""
  tools : Nat → ToolAnswer := fun _ => {}

structure LoopPolicy where
  interruptedMessage : String
  maxStepsMessage : String

structure Log where
  messages : List Message := []
  requests : List (List Message) := []
  executed : List (String × Fields) := []

def Message.interruption : Message → Bool
  | assistant content _ => contains content "interrupted"
  | _ => false

def recordInterrupted (policy : LoopPolicy) (messages : List Message) : List Message :=
  if messages.any Message.interruption then messages else messages ++ [.assistant policy.interruptedMessage []]

def Log.append (log : Log) (message : Message) : Log := { log with messages := log.messages ++ [message] }

def Log.interrupt (policy : LoopPolicy) (log : Log) : Log :=
  { log with messages := recordInterrupted policy log.messages }

def decodeToolArguments [JSON] (raw : String) : Except String Fields :=
  match JSON.unmarshalMap raw with
  | .error err => .error err
  | .ok none => .error "tool arguments must be a JSON object"
  | .ok (some args) => .ok args

def prepareCall [JSON] (newMessageID : String) (call : ToolCall) : ToolCall × Option String :=
  let call := if call.id = "" then { call with id := newMessageID } else call
  if call.rawArgs ≠ "" then
    match decodeToolArguments call.rawArgs with
    | .error err => (call, some err)
    | .ok args => ({ call with arguments := some args }, none)
  else ({ call with arguments := some (call.arguments.getD []) }, none)

def prepareCalls [JSON] (step : StepAnswer) (calls : List ToolCall) : List (ToolCall × Option String) :=
  calls.mapIdx fun i call => prepareCall (step.newMessageID i) call

def toolResponse (call : ToolCall) (err : Option String) (answer : ToolAnswer) : ToolResponse :=
  match err with
  | some err => { toolCallID := call.id, name := call.name, error := "invalid tool arguments: " ++ err }
  | none => { toolCallID := call.id, name := call.name, output := answer.output, error := answer.error }

def Log.execute (log : Log) (call : ToolCall) (err : Option String) : Log :=
  if err.isSome then log else { log with executed := log.executed ++ [(call.name, call.arguments.getD [])] }

def runTools (policy : LoopPolicy) (tools : Nat → ToolAnswer) : Nat → List (ToolCall × Option String) → Log → Log × Bool
  | _, [], log => (log, false)
  | i, (call, err) :: calls, log =>
    if (tools i).cancelledBefore then (log.interrupt policy, true)
    else if (tools i).cancelledAfter then ((log.execute call err).interrupt policy, true)
    else runTools policy tools (i + 1) calls ((log.execute call err).append (.tool (toolResponse call err (tools i))))

inductive Outcome
  | final
  | failed
  | interrupted
  deriving DecidableEq

def runSteps [JSON] (policy : LoopPolicy) (steps : Nat → StepAnswer) : Nat → Nat → Log → Log × Outcome
  | 0, _, log => (log.append (.assistant policy.maxStepsMessage []), .final)
  | left + 1, n, log =>
    if (steps n).cancelled then (log.interrupt policy, .interrupted)
    else
      let log := { log with requests := log.requests ++ [log.messages] }
      match (steps n).model with
      | .failed true => (log.interrupt policy, .interrupted)
      | .failed false | .empty => (log, .failed)
      | .completion content calls =>
        let prepared := prepareCalls (steps n) calls
        if prepared.isEmpty then (log.append (.assistant content []), .final)
        else
          match runTools policy (steps n).tools 0 prepared (log.append (.assistant content (prepared.map Prod.fst))) with
          | (log, true) => (log, .interrupted)
          | (log, false) => runSteps policy steps left (n + 1) log

structure Turn where
  userText : String
  maxSteps : Nat
  steps : Nat → StepAnswer

def Log.run [JSON] (policy : LoopPolicy) (log : Log) (turn : Turn) : Log × Outcome :=
  runSteps policy turn.steps turn.maxSteps 0 (log.append (.user turn.userText))

end Maistr0.Agent
