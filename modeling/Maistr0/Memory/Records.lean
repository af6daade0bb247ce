import Maistr0.Memory.Types

/-!
# What a write does to one record

The parts of the write paths that `memoryStore` and `boltStore` have in common: defaults, the running
performance aggregate, which of two facts wins, and how two transcripts of a dialogue are joined.
-/

namespace Maistr0.Memory

open Go

variable [CaseFolding]

def truncate (s : String) (max : Nat) : String :=
  if len s ≤ max then s else String.ofList (takeBytes max s.toList) ++ "…[truncated]"

abbrev mergeWatermarks (current incoming : Watermarks) : Watermarks := Lib.Clock.join current incoming

/-- The defaults `Record` fills in. -/
def prepareExperience (e : Experience) (now : Instant) : Experience :=
  { e with
    createdAt := if e.createdAt = 0 then now else e.createdAt
    kind := if e.kind = "" then "task" else e.kind
    prompt := truncate e.prompt (8 * 1024)
    output := truncate e.output (32 * 1024) }

def performanceAfterExperience (current : Option Performance) (e : Experience) : Performance :=
  let performance := current.getD
    { nodeID := e.nodeID, model := e.model, taskType := toLower (defaultTaskType e.taskType) }
  let attempts := performance.attempts + 1
  let successes := if e.success then performance.successes + 1 else performance.successes
  let totalDuration := performance.totalDuration + e.durationMs
  { performance with
    attempts
    successes
    failures := if e.success then performance.failures else performance.failures + 1
    totalDuration
    avgDurationMs := totalDuration.tdiv (max attempts 1)
    successRate := (successes : Rat) / (max attempts 1 : Int)
    ratingSum := performance.ratingSum + e.rating
    lastUsed := e.createdAt }

def defaultScope (scope : String) : String := if scope = "" then "cluster" else scope

omit [CaseFolding] in
theorem defaultScope_ne_empty (scope : String) : defaultScope scope ≠ "" := by
  unfold defaultScope
  split
  · decide
  · assumption

/-- The fact `PutFact` stores, before it is stamped. -/
def factAfterPut (previous : Option Fact) (f : Fact) (now : Instant) : Fact :=
  let createdAt := (previous.map (·.createdAt)).getD f.createdAt
  { f with
    createdAt := if createdAt = 0 then now else createdAt
    hits := (previous.map (·.hits)).getD f.hits
    updatedAt := now }

/-- The scope and times `mergeFactFrom` fills in. -/
def normalizeFact (f : Fact) (now : Instant) : Fact :=
  let updatedAt := if f.updatedAt = 0 then f.createdAt else f.updatedAt
  let updatedAt := if updatedAt = 0 then (now : Time) else updatedAt
  { f with
    scope := defaultScope f.scope
    updatedAt
    createdAt := if f.createdAt = 0 ∨ updatedAt < f.createdAt then updatedAt else f.createdAt }

def factWinsTie (incoming current : Fact) : Bool :=
  if incoming.source ≠ current.source then incoming.source < current.source
  else current.value < incoming.value

def factLoses (incoming current : Fact) : Bool :=
  incoming.updatedAt < current.updatedAt ||
    (incoming.updatedAt = current.updatedAt && !factWinsTie incoming current)

def carryFact (incoming current : Fact) : Fact :=
  { incoming with
    createdAt := if current.createdAt < incoming.createdAt then current.createdAt else incoming.createdAt
    hits := if incoming.hits < current.hits then current.hits else incoming.hits }

omit [CaseFolding] in
theorem stamp_carry (f : Fact) (current : Option Fact) : ((current.map (carryFact f)).getD f).origin = f.origin ∧
    ((current.map (carryFact f)).getD f).sequence = f.sequence := by
  cases current <;> exact ⟨rfl, rfl⟩

def sameTurn (existing turn : Turn) : Bool :=
  existing.at_ = turn.at_ && existing.speaker = turn.speaker && existing.content = turn.content

def appendUnless {α : Type} (found : α → α → Bool) (acc : List α × Bool) (a : α) : List α × Bool :=
  if acc.1.any (found · a) then acc else (acc.1 ++ [a], true)

def mergeTranscript (current incoming : DialogueRecord) : DialogueRecord × Bool :=
  let (turns, changed) := incoming.turns.foldl (appendUnless sameTurn) (current.turns, false)
  let (participants, changed) :=
    incoming.participants.foldl (appendUnless fun a b => a = b) (current.participants, changed)
  let topic := if current.topic = "" then incoming.topic else current.topic
  let changed := if current.topic = "" then topic ≠ "" || changed else changed
  let later := current.updatedAt < incoming.updatedAt
  ({ current with turns, participants, topic, updatedAt := if later then incoming.updatedAt else current.updatedAt },
    later || changed)

def stampTurns (turns : List Turn) (now : Clocks) : List Turn :=
  turns.mapIdx fun i turn => if turn.at_ = 0 then { turn with at_ := now i } else turn

def dialogueAfterTurns (current : Option DialogueRecord) (id : String) (participants : List String) (topic : String)
    (turns : List Turn) (now : Clocks) : DialogueRecord :=
  let dialogue := current.getD { id, createdAt := now turns.length, participants, topic }
  { dialogue with
    participants := (participants.foldl (appendUnless fun a b => a = b) (dialogue.participants, false)).1
    turns := dialogue.turns ++ stampTurns turns now
    updatedAt := now (turns.length + 1) }

end Maistr0.Memory
