import Maistr0.Memory.Records

/-!
# The in-memory knowledge store

`memoryStore` of `inmemory.go`, `inmemory_records.go` and `inmemory_performance.go`. A method that
writes returns the store it leaves behind, with its error if it has one; a method that reads the
clock takes the reading as an argument. `MergeSnapshotFrom` releases the lock between records, so it
is a list of sections, run in order until one fails.

The field `assigned` is not part of the store. It is the history of what `nextSequenceLocked` handed
out, kept so that statements can speak about it; no method reads it.
-/

namespace Maistr0.Memory

open Go

structure MemoryStore [CaseFolding] where
  origin : String
  nextID : Nat := 0
  sequences : Watermarks := ∅
  watermarks : Watermarks := ∅
  peerWatermarks : Lib.Keyed (Prod.fst : String × Watermarks → String) := ∅
  experiences : List Experience := []
  fingerprints : Finset Experience := ∅
  facts : Facts := ∅
  performances : Performances := ∅
  dialogues : Dialogues := ∅
  assigned : List (String × Nat) := []

variable [CaseFolding]

def newInMemoryStore (origin : String) : MemoryStore :=
  { origin, sequences := Lib.Clock.set ∅ origin 0 }

namespace MemoryStore

def nextSequenceLocked (s : MemoryStore) (origin : String) : Nat × MemoryStore :=
  let sequence := incr (max (s.sequences.get origin) (s.watermarks.get origin))
  (sequence, { s with
      sequences := s.sequences.set origin sequence
      watermarks := s.watermarks.set origin sequence
      assigned := s.assigned ++ [(origin, sequence)] })

def observeRecordLocked (s : MemoryStore) (origin : String) (sequence : Nat) : MemoryStore :=
  if Unstamped origin sequence then s
  else
    { s with
      watermarks := s.watermarks.raise origin sequence
      sequences := s.sequences.raise origin sequence }

def peerWatermarksOf (s : MemoryStore) (peer : String) : Watermarks :=
  ((s.peerWatermarks.get? peer).map Prod.snd).getD ∅

/-! ### Local writes -/

def updatePerformanceLocked (s : MemoryStore) (e : Experience) : MemoryStore :=
  let performance := performanceAfterExperience (s.performances.get? (perfKey e.nodeID e.model e.taskType)) e
  let (sequence, s) := s.nextSequenceLocked s.origin
  { s with performances := s.performances.put { performance with origin := s.origin, sequence } }

def record (s : MemoryStore) (e : Experience) (now : Instant) : Experience × MemoryStore :=
  let (sequence, s) := s.nextSequenceLocked s.origin
  let e := { prepareExperience e now with id := incr s.nextID, origin := s.origin, sequence }
  let s :=
    { s with
      nextID := incr s.nextID
      experiences := s.experiences ++ [e]
      fingerprints := insert (experienceFingerprint e) s.fingerprints }
  (e, if e.nodeID ≠ "" ∧ e.model ≠ "" then s.updatePerformanceLocked e else s)

def putFact (s : MemoryStore) (f : Fact) (now : Instant) : Except String Fact × MemoryStore :=
  if f.key = "" then (.error "memory: fact key is required", s)
  else
    let f := { f with scope := defaultScope f.scope }
    let f := factAfterPut (s.facts.get? f.mapKey) f now
    let (sequence, s) := s.nextSequenceLocked s.origin
    let f := { f with origin := s.origin, sequence }
    (.ok f, { s with facts := s.facts.put f })

def getFact (s : MemoryStore) (scope key : String) : Except String Fact × MemoryStore :=
  match s.facts.get? (factKey (defaultScope scope) key) with
  | none => (.error "memory: record not found", s)
  | some f =>
    let (sequence, s) := s.nextSequenceLocked s.origin
    let f := { f with hits := f.hits + 1, origin := s.origin, sequence }
    (.ok f, { s with facts := s.facts.put f })

def deleteFact (s : MemoryStore) (scope key : String) : MemoryStore :=
  { s with facts := s.facts.erase (factKey (defaultScope scope) key) }

def saveDialogue (s : MemoryStore) (d : DialogueRecord) (now : Instant) : Except String Unit × MemoryStore :=
  if d.id = "" then (.error "memory: dialogue id is required", s)
  else
    let (sequence, s) := s.nextSequenceLocked s.origin
    let d :=
      { d with
        createdAt := if d.createdAt = 0 then (now : Time) else d.createdAt
        updatedAt := now
        origin := s.origin
        sequence }
    (.ok (), { s with dialogues := s.dialogues.put d })

def stampEach (s : MemoryStore) (d : DialogueRecord) : List Turn → DialogueRecord × MemoryStore
  | [] => (d, s)
  | _ :: turns =>
    let (sequence, s) := s.nextSequenceLocked s.origin
    s.stampEach { d with origin := s.origin, sequence } turns

def appendDialogueTurns (s : MemoryStore) (id : String) (participants : List String) (topic : String)
    (turns : List Turn) (now : Clocks) : Except String Unit × MemoryStore :=
  if id = "" then (.error "memory: dialogue id is required", s)
  else if turns = [] then (.ok (), s)
  else
    let d := dialogueAfterTurns (s.dialogues.get? id) id participants topic turns now
    let (d, s) := s.stampEach d turns
    (.ok (), { s with dialogues := s.dialogues.put d })

/-- `Prune`, with the cutoff its clock reading and retention window give. -/
def prune (s : MemoryStore) (cutoff : Time) : Nat × MemoryStore :=
  let kept := s.experiences.filter fun e => cutoff ≤ e.createdAt
  (s.experiences.length - kept.length, { s with experiences := kept })

def setPeerWatermarks (s : MemoryStore) (peer : String) (watermarks : Watermarks) : Except String Unit × MemoryStore :=
  if trimSpace peer = "" then (.error "memory: peer id is required for watermarks", s)
  else
    (.ok (), { s with peerWatermarks :=
      s.peerWatermarks.put (peer, mergeWatermarks (s.peerWatermarksOf peer) watermarks) })

/-! ### Merges

Each of these is one lock section of `MergeSnapshotFrom`. -/

def mergeExperienceFrom (s : MemoryStore) (e : Experience) (sourceOrigin : String) (now : Instant) : MemoryStore :=
  let key := experienceFingerprint e
  let s := s.observeRecordLocked e.origin e.sequence
  if key ∈ s.fingerprints then s
  else
    let e := { e with createdAt := if e.createdAt = 0 then (now : Time) else e.createdAt }
    let (e, s) :=
      if Unstamped e.origin e.sequence then
        let (sequence, s) := s.nextSequenceLocked sourceOrigin
        ({ e with origin := sourceOrigin, sequence }, s)
      else (e, s)
    { s with
      nextID := incr s.nextID
      experiences := s.experiences ++ [{ e with id := incr s.nextID }]
      fingerprints := insert key s.fingerprints }

def mergeFactFrom (s : MemoryStore) (f : Fact) (sourceOrigin : String) (now : Instant) :
    Except String Unit × MemoryStore :=
  if f.key = "" then (.error "memory: fact key is required", s)
  else
    let f := normalizeFact f now
    let s := s.observeRecordLocked f.origin f.sequence
    let current := s.facts.get? f.mapKey
    if current.any (factLoses f) then (.ok (), s)
    else
      let f := (current.map (carryFact f)).getD f
      if Unstamped f.origin f.sequence then
        let (sequence, s) := s.nextSequenceLocked sourceOrigin
        (.ok (), { s with facts := s.facts.put { f with origin := sourceOrigin, sequence } })
      else
        let s := s.observeRecordLocked f.origin f.sequence
        (.ok (), { s with facts := s.facts.put f })

def mergePerformance (s : MemoryStore) (p : Performance) (sourceOrigin : String) : MemoryStore :=
  if p.nodeID = "" ∨ p.model = "" then s
  else
    let p := { p with taskType := defaultTaskType p.taskType }
    if (s.performances.get? p.mapKey).any fun current => p.attempts ≤ current.attempts then
      s.observeRecordLocked p.origin p.sequence
    else if Unstamped p.origin p.sequence then
      let (sequence, s) := s.nextSequenceLocked sourceOrigin
      { s with performances := s.performances.put { p with origin := sourceOrigin, sequence } }
    else
      let s := s.observeRecordLocked p.origin p.sequence
      { s with performances := s.performances.put p }

def mergePerformancesFrom (s : MemoryStore) (incoming : List Performance) (sourceOrigin : String) : MemoryStore :=
  incoming.foldl (fun s p => s.mergePerformance p sourceOrigin) s

def mergePerformances (s : MemoryStore) (incoming : List Performance) : MemoryStore :=
  s.mergePerformancesFrom incoming legacyOrigin

def mergeDialogueFrom (s : MemoryStore) (d : DialogueRecord) (sourceOrigin : String) : MemoryStore :=
  if d.id = "" then s
  else
    let s := s.observeRecordLocked d.origin d.sequence
    match s.dialogues.get? d.id with
    | none =>
      if Unstamped d.origin d.sequence then
        let (sequence, s) := s.nextSequenceLocked sourceOrigin
        { s with dialogues := s.dialogues.put { d with origin := sourceOrigin, sequence } }
      else { s with dialogues := s.dialogues.put d }
    | some current =>
      let (merged, changed) := mergeTranscript current d
      if changed then
        let origin := if Unstamped d.origin d.sequence then sourceOrigin else s.origin
        let (sequence, s) := s.nextSequenceLocked origin
        { s with dialogues := s.dialogues.put { merged with origin, sequence } }
      else s

def observeWatermarks (s : MemoryStore) (watermarks : Watermarks) (sourceOrigin : String) : MemoryStore :=
  let s := watermarks.vals.foldl (fun s entry => s.observeRecordLocked entry.1 entry.2) s
  { s with peerWatermarks :=
      s.peerWatermarks.put (sourceOrigin, mergeWatermarks (s.peerWatermarksOf sourceOrigin) watermarks) }

end MemoryStore

/-- What `MergeSnapshotFrom` does while it holds the lock once. -/
inductive MergeSection where
  | experience (e : Experience)
  | fact (f : Fact)
  | performances (ps : List Performance)
  | dialogue (d : DialogueRecord)
  | watermarks (w : Watermarks)

def mergeSections (snapshot : Snapshot) : List MergeSection :=
  snapshot.experiences.map .experience ++ snapshot.facts.map .fact ++ [.performances snapshot.performances] ++
    snapshot.dialogues.map .dialogue ++ [.watermarks snapshot.watermarks]

namespace MemoryStore

def mergeSection (s : MemoryStore) (sourceOrigin : String) (now : Instant) :
    MergeSection → Except String Unit × MemoryStore
  | .experience e => (.ok (), s.mergeExperienceFrom e sourceOrigin now)
  | .fact f => s.mergeFactFrom f sourceOrigin now
  | .performances ps => (.ok (), s.mergePerformancesFrom ps sourceOrigin)
  | .dialogue d => (.ok (), s.mergeDialogueFrom d sourceOrigin)
  | .watermarks w => (.ok (), s.observeWatermarks w sourceOrigin)

def runSections (s : MemoryStore) (sourceOrigin : String) :
    List MergeSection → Clocks → Except String Unit × MemoryStore
  | [], _ => (.ok (), s)
  | sec :: rest, now =>
    match s.mergeSection sourceOrigin (now 0) sec with
    | (.error err, s) => (.error err, s)
    | (.ok _, s) => s.runSections sourceOrigin rest fun n => now (n + 1)

def sourceOrLegacy (sourceOrigin : String) : String := if sourceOrigin = "" then legacyOrigin else sourceOrigin

def mergeSnapshotFrom (s : MemoryStore) (snapshot : Snapshot) (sourceOrigin : String) (now : Clocks) :
    Except String Unit × MemoryStore :=
  s.runSections (sourceOrLegacy sourceOrigin) (mergeSections snapshot) now

/-! ### Snapshots -/

def snapshot (s : MemoryStore) : Snapshot where
  experiences := s.experiences.reverse
  facts := s.facts.vals.insertionSort fun a b => b.updatedAt ≤ a.updatedAt
  performances := s.performances.vals.insertionSort fun a b =>
    b.successRate < a.successRate ∨ (a.successRate = b.successRate ∧ a.avgDurationMs ≤ b.avgDurationMs)
  dialogues := s.dialogues.vals.insertionSort fun a b => b.updatedAt ≤ a.updatedAt
  syncVersion := syncProtocolVersion
  watermarks := s.watermarks

end MemoryStore

/-! ### Incremental snapshots -/

def recordIsNewer (origin : String) (sequence : Nat) (watermarks : Watermarks) : Bool :=
  origin = "" || sequence = 0 || watermarks.get origin < sequence

def snapshotSince (snapshot : Snapshot) (watermarks : Watermarks) : Snapshot where
  experiences := snapshot.experiences.filter fun e => recordIsNewer e.origin e.sequence watermarks
  facts := snapshot.facts.filter fun f => recordIsNewer f.origin f.sequence watermarks
  performances := snapshot.performances.filter fun p => recordIsNewer p.origin p.sequence watermarks
  dialogues := snapshot.dialogues.filter fun d => recordIsNewer d.origin d.sequence watermarks
  syncVersion := syncProtocolVersion
  watermarks := snapshot.watermarks

omit [CaseFolding] in
theorem snapshotSince_records (snapshot : Snapshot) (watermarks : Watermarks) :
    (snapshotSince snapshot watermarks).records =
      snapshot.records.filter fun r => recordIsNewer r.origin r.sequence watermarks := by
  simp only [Snapshot.records, snapshotSince, List.filter_append, List.filter_map]
  rfl

def supportsIncrementalSync (version : Int) : Bool := 1 ≤ version && version ≤ syncProtocolVersion

/-- The first half of `LoadSnapshotForPeer`: whether the peer gets everything, decided from the local
watermarks at that moment. -/
def needsFull (localWatermarks : Watermarks) (peerVersion : Int) (watermarks : Watermarks) : Bool :=
  !supportsIncrementalSync peerVersion || localWatermarks.anyAhead watermarks

/-- The second half of `LoadSnapshotForPeer`, on the snapshot read after that decision. -/
def selectForPeer (full : Bool) (snapshot : Snapshot) (watermarks : Watermarks) : Snapshot :=
  if full then snapshot else snapshotSince snapshot watermarks

def loadSnapshotForPeer (s : MemoryStore) (peerVersion : Int) (watermarks : Watermarks) : Snapshot :=
  selectForPeer (needsFull s.watermarks peerVersion watermarks) s.snapshot watermarks

def filterMemoryWatermarks (watermarks : Watermarks) : Watermarks :=
  watermarks.filter fun entry => !hasPrefix entry.1 "task:"

end Maistr0.Memory
