import Maistr0.Go
import Maistr0.Lib.Clock
import Maistr0.Lib.Replica

/-!
# The records of the knowledge store

The four kinds of record, snapshots of them, and the keys they are filed under. Every record carries
the origin that stamped it and a sequence number of that origin; a record whose origin is empty or
whose sequence is zero is unstamped. Floating-point fields are exact rationals.
-/

namespace Maistr0.Memory

open Go

abbrev Watermarks := Lib.Clock String

structure Experience where
  id : Nat := 0
  origin : String := ""
  sequence : Nat := 0
  kind : String := ""
  taskType : String := ""
  description : String := ""
  prompt : String := ""
  output : String := ""
  nodeID : String := ""
  model : String := ""
  tool : String := ""
  sessionID : String := ""
  success : Bool := false
  error : String := ""
  durationMs : Int := 0
  rating : Rat := 0
  tags : List String := []
  createdAt : Time := 0
deriving DecidableEq

structure Fact where
  key : String := ""
  origin : String := ""
  sequence : Nat := 0
  value : String := ""
  scope : String := ""
  source : String := ""
  hits : Int := 0
  createdAt : Time := 0
  updatedAt : Time := 0
deriving DecidableEq

structure Performance where
  nodeID : String := ""
  origin : String := ""
  sequence : Nat := 0
  model : String := ""
  taskType : String := ""
  attempts : Int := 0
  successes : Int := 0
  failures : Int := 0
  totalDuration : Int := 0
  avgDurationMs : Int := 0
  successRate : Rat := 0
  ratingSum : Rat := 0
  lastUsed : Time := 0
deriving DecidableEq

structure Turn where
  speaker : String := ""
  nodeID : String := ""
  model : String := ""
  content : String := ""
  durationMs : Int := 0
  at_ : Time := 0
deriving DecidableEq

structure DialogueRecord where
  id : String := ""
  origin : String := ""
  sequence : Nat := 0
  participants : List String := []
  topic : String := ""
  turns : List Turn := []
  createdAt : Time := 0
  updatedAt : Time := 0
deriving DecidableEq

structure Snapshot where
  experiences : List Experience := []
  facts : List Fact := []
  performances : List Performance := []
  dialogues : List DialogueRecord := []
  syncVersion : Int := 0
  watermarks : Watermarks := ∅

def legacyOrigin : String := "legacy"

def syncProtocolVersion : Int := 3

/-! ### Keys -/

/-- The experience without what a store assigns to it. Its JSON text is what experiences are compared by. -/
def experienceFingerprint (e : Experience) : Experience := { e with id := 0, origin := "", sequence := 0 }

def factKey (scope key : String) : String := scope ++ "|" ++ key

def defaultTaskType (taskType : String) : String := if taskType = "" then "general" else taskType

theorem defaultTaskType_ne_empty (taskType : String) : defaultTaskType taskType ≠ "" := by
  unfold defaultTaskType
  split
  · decide
  · assumption

def perfKey [CaseFolding] (nodeID model taskType : String) : String :=
  nodeID ++ "|" ++ model ++ "|" ++ toLower (defaultTaskType taskType)

abbrev Fact.mapKey (f : Fact) : String := factKey f.scope f.key

abbrev Performance.mapKey [CaseFolding] (p : Performance) : String := perfKey p.nodeID p.model p.taskType

abbrev Facts := Lib.Keyed Fact.mapKey

abbrev Performances [CaseFolding] := Lib.Keyed Performance.mapKey

abbrev Dialogues := Lib.Keyed DialogueRecord.id

/-! ### Records of any kind -/

inductive Record where
  | experience (e : Experience)
  | fact (f : Fact)
  | performance (p : Performance)
  | dialogue (d : DialogueRecord)
deriving DecidableEq

namespace Record

def origin : Record → String
  | experience e => e.origin
  | fact f => f.origin
  | performance p => p.origin
  | dialogue d => d.origin

def sequence : Record → Nat
  | experience e => e.sequence
  | fact f => f.sequence
  | performance p => p.sequence
  | dialogue d => d.sequence

inductive Key where
  | experience (fingerprint : Experience)
  | fact (scope key : String)
  | performance (nodeID model taskType : String)
  | dialogue (id : String)
deriving DecidableEq

def key : Record → Key
  | experience e => .experience (experienceFingerprint e)
  | fact f => .fact f.scope f.key
  | performance p => .performance p.nodeID p.model p.taskType
  | dialogue d => .dialogue d.id

def labels : Lib.Labels String Key Record where
  origin := origin
  sequence := sequence
  key := key

abbrev stamp (r : Record) : String × Nat := labels.stamp r

end Record

abbrev Unstamped (origin : String) (sequence : Nat) : Prop := origin = "" ∨ sequence = 0

namespace Snapshot

def records (s : Snapshot) : List Record :=
  s.experiences.map .experience ++ s.facts.map .fact ++ s.performances.map .performance ++ s.dialogues.map .dialogue

variable {s : Snapshot}

@[simp] theorem mem_records_experience {e : Experience} :
    Record.experience e ∈ s.records ↔ e ∈ s.experiences := by simp [records]

@[simp] theorem mem_records_fact {f : Fact} : Record.fact f ∈ s.records ↔ f ∈ s.facts := by
  simp [records]

@[simp] theorem mem_records_performance {p : Performance} :
    Record.performance p ∈ s.records ↔ p ∈ s.performances := by simp [records]

@[simp] theorem mem_records_dialogue {d : DialogueRecord} :
    Record.dialogue d ∈ s.records ↔ d ∈ s.dialogues := by simp [records]

end Snapshot

end Maistr0.Memory
