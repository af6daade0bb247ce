import Maistr0.Memory.Records

/-!
# The durable knowledge store

`boltStore` of `bolt_sync.go`, `bolt_learning.go`, `boltstore_records.go`, `boltstore_experiences.go`
and `boltstore_sync.go`. The store is its committed database: the meta bucket is split into the
counters it holds, experiences are filed by ID, and a bucket's `NextSequence` is a counter. The caches
hold what is committed and are left out. A transaction is atomic, so one that fails leaves the store
as it was.
-/

namespace Maistr0.Memory

open Go

structure BoltStore [CaseFolding] where
  owner : String
  nextID : Nat := 0
  sequences : Watermarks := ∅
  watermarks : Watermarks := ∅
  peerWatermarks : Lib.Keyed (Prod.fst : String × Watermarks → String) := ∅
  experiences : Lib.Keyed Experience.id := ∅
  fingerprints : Finset Experience := ∅
  facts : Facts := ∅
  performances : Performances := ∅
  dialogues : Dialogues := ∅

variable [CaseFolding]

/-- `Open` on a fresh path with a non-empty owner. -/
def openBoltStore (owner : String) : BoltStore := { owner }

namespace BoltStore

def saveWatermark (s : BoltStore) (origin : String) (sequence : Nat) : BoltStore :=
  { s with watermarks := s.watermarks.raise origin sequence }

def nextOriginSequence (s : BoltStore) (origin : String) : Nat × BoltStore :=
  let sequence := incr (max (s.sequences.get origin) (s.watermarks.get origin))
  (sequence, { s with sequences := s.sequences.set origin sequence }.saveWatermark origin sequence)

def updateRecordWatermark (s : BoltStore) (origin : String) (sequence : Nat) : BoltStore :=
  if Unstamped origin sequence then s else s.saveWatermark origin sequence

def updateSnapshotWatermarks (s : BoltStore) (watermarks : Watermarks) : BoltStore :=
  watermarks.vals.foldl (fun s entry => s.updateRecordWatermark entry.1 entry.2) s

/-- `PeerWatermarks`, which does not look up the empty name. -/
def peerWatermarksOf (s : BoltStore) (peer : String) : Watermarks :=
  if peer = "" then ∅ else ((s.peerWatermarks.get? peer).map Prod.snd).getD ∅

def mergePeerWatermarksTx (s : BoltStore) (peer : String) (watermarks : Watermarks) : BoltStore :=
  let current := ((s.peerWatermarks.get? peer).map Prod.snd).getD ∅
  { s with peerWatermarks := s.peerWatermarks.put (peer, mergeWatermarks current watermarks) }

/-! ### Local writes -/

/-- The rest of the transaction of `Record` when the experience names its node and model. -/
def recordPerformance (s : BoltStore) (e : Experience) : BoltStore :=
  let performance := performanceAfterExperience (s.performances.get? (perfKey e.nodeID e.model e.taskType)) e
  let (sequence, s) := s.nextOriginSequence s.owner
  { s with performances := s.performances.put { performance with origin := s.owner, sequence } }

def record (s : BoltStore) (e : Experience) (now : Instant) : Experience × BoltStore :=
  let id := incr s.nextID
  let (sequence, s) := s.nextOriginSequence s.owner
  let e := { prepareExperience e now with id, origin := s.owner, sequence }
  let s :=
    { s with
      nextID := id
      experiences := s.experiences.put e
      fingerprints := insert (experienceFingerprint e) s.fingerprints }
  (e, if e.nodeID ≠ "" ∧ e.model ≠ "" then s.recordPerformance e else s)

def putFact (s : BoltStore) (f : Fact) (now : Instant) : Except String Fact × BoltStore :=
  if f.key = "" then (.error "memory: fact key is required", s)
  else
    let f := { f with scope := defaultScope f.scope }
    let f := factAfterPut (s.facts.get? f.mapKey) f now
    let (sequence, s) := s.nextOriginSequence s.owner
    let f := { f with origin := s.owner, sequence }
    (.ok f, { s with facts := s.facts.put f })

def getFact (s : BoltStore) (scope key : String) : Except String Fact × BoltStore :=
  match s.facts.get? (factKey (defaultScope scope) key) with
  | none => (.error "memory: record not found", s)
  | some f =>
    let (sequence, s) := s.nextOriginSequence s.owner
    let f := { f with hits := f.hits + 1, origin := s.owner, sequence }
    (.ok f, { s with facts := s.facts.put f })

def deleteFact (s : BoltStore) (scope key : String) : BoltStore :=
  { s with facts := s.facts.erase (factKey (defaultScope scope) key) }

def saveDialogue (s : BoltStore) (d : DialogueRecord) (now : Instant) : Except String Unit × BoltStore :=
  if d.id = "" then (.error "memory: dialogue id is required", s)
  else
    let (sequence, s) := s.nextOriginSequence s.owner
    let d :=
      { d with
        createdAt := if d.createdAt = 0 then (now : Time) else d.createdAt
        updatedAt := now
        origin := s.owner
        sequence }
    (.ok (), { s with dialogues := s.dialogues.put d })

def stampEach (s : BoltStore) (d : DialogueRecord) : List Turn → DialogueRecord × BoltStore
  | [] => (d, s)
  | _ :: turns =>
    let (sequence, s) := s.nextOriginSequence s.owner
    s.stampEach { d with origin := s.owner, sequence } turns

def appendDialogueTurns (s : BoltStore) (id : String) (participants : List String) (topic : String)
    (turns : List Turn) (now : Clocks) : Except String Unit × BoltStore :=
  if id = "" then (.error "memory: dialogue id is required", s)
  else if turns = [] then (.ok (), s)
  else
    let d := dialogueAfterTurns (s.dialogues.get? id) id participants topic turns now
    let (d, s) := s.stampEach d turns
    (.ok (), { s with dialogues := s.dialogues.put d })

/-- `Prune`, with the cutoff its clock reading and retention window give. -/
def prune (s : BoltStore) (cutoff : Time) : Nat × BoltStore :=
  let kept := s.experiences.filter fun e => cutoff ≤ e.createdAt
  (s.experiences.vals.length - kept.vals.length, { s with experiences := kept })

def setPeerWatermarks (s : BoltStore) (peer : String) (watermarks : Watermarks) : Except String Unit × BoltStore :=
  if trimSpace peer = "" then (.error "memory: peer id is required for watermarks", s)
  else (.ok (), s.mergePeerWatermarksTx peer watermarks)

/-! ### Reopening -/

def restamp (s : BoltStore) (origin : String) (sequence : Nat) : Record → BoltStore
  | .experience e => { s with experiences := s.experiences.put { e with origin, sequence } }
  | .fact f => { s with facts := s.facts.put { f with origin, sequence } }
  | .performance p => { s with performances := s.performances.put { p with origin, sequence } }
  | .dialogue d => { s with dialogues := s.dialogues.put { d with origin, sequence } }

/-- One round of the loop of `backfillBucket`. -/
def backfillRecord (s : BoltStore) (r : Record) : BoltStore :=
  if Unstamped r.origin r.sequence then
    let (sequence, s) := s.nextOriginSequence s.owner
    s.restamp s.owner sequence r
  else s.updateRecordWatermark r.origin r.sequence

def bucketRecords (s : BoltStore) : List Record :=
  (s.experiences.vals.insertionSort fun a b => a.id ≤ b.id).map .experience ++
    (s.facts.vals.insertionSort fun a b => a.mapKey ≤ b.mapKey).map .fact ++
    (s.performances.vals.insertionSort fun a b => a.mapKey ≤ b.mapKey).map .performance ++
    (s.dialogues.vals.insertionSort fun a b => a.id ≤ b.id).map .dialogue

def backfillRecordMetadata (s : BoltStore) : BoltStore := s.bucketRecords.foldl backfillRecord s

/-- `Open` on a path that holds a store, with a non-empty owner. -/
def reopen (s : BoltStore) (owner : String) : BoltStore := backfillRecordMetadata { s with owner }

/-! ### Merges -/

def mergeExperienceTx (s : BoltStore) (e : Experience) (sourceOrigin : String) (now : Instant) : BoltStore :=
  let key := experienceFingerprint e
  let s := s.updateRecordWatermark e.origin e.sequence
  if key ∈ s.fingerprints then s
  else
    let (e, s) :=
      if Unstamped e.origin e.sequence then
        let (sequence, s) := s.nextOriginSequence sourceOrigin
        ({ e with origin := sourceOrigin, sequence }, s)
      else (e, s)
    let id := incr s.nextID
    let e := { e with id, createdAt := if e.createdAt = 0 then (now : Time) else e.createdAt }
    { s with
      nextID := id
      experiences := s.experiences.put e
      fingerprints := insert key s.fingerprints }

def mergeFactTx (s : BoltStore) (f : Fact) (sourceOrigin : String) (now : Instant) : Except String BoltStore :=
  if f.key = "" then .error "memory: fact key is required"
  else
    let f := normalizeFact f now
    let s := s.updateRecordWatermark f.origin f.sequence
    let current := s.facts.get? f.mapKey
    if current.any (factLoses f) then .ok s
    else
      let f := (current.map (carryFact f)).getD f
      if Unstamped f.origin f.sequence then
        let (sequence, s) := s.nextOriginSequence sourceOrigin
        .ok { s with facts := s.facts.put { f with origin := sourceOrigin, sequence } }
      else
        let s := s.updateRecordWatermark f.origin f.sequence
        .ok { s with facts := s.facts.put f }

theorem mergeFactTx_ok (s : BoltStore) {f : Fact} (hkey : f.key ≠ "") (sourceOrigin : String) (now : Instant) :
    ∃ s', s.mergeFactTx f sourceOrigin now = .ok s' := by
  simp only [mergeFactTx, if_neg hkey]
  split
  · exact ⟨_, rfl⟩
  · split <;> exact ⟨_, rfl⟩

/-- One round of the loop of `mergePerformancesFrom`. What the loop has merged so far shadows the
cache, so the aggregate it compares with is the one in the transaction. -/
def mergePerformance (s : BoltStore) (p : Performance) (sourceOrigin : String) : BoltStore :=
  if p.nodeID = "" ∨ p.model = "" then s
  else
    let p := { p with taskType := defaultTaskType p.taskType }
    if (s.performances.get? p.mapKey).any fun current => p.attempts ≤ current.attempts then
      s.updateRecordWatermark p.origin p.sequence
    else if Unstamped p.origin p.sequence then
      let (sequence, s) := s.nextOriginSequence sourceOrigin
      { s with performances := s.performances.put { p with origin := sourceOrigin, sequence } }
    else
      let s := s.updateRecordWatermark p.origin p.sequence
      { s with performances := s.performances.put p }

def mergePerformancesFrom (s : BoltStore) (incoming : List Performance) (sourceOrigin : String) : BoltStore :=
  incoming.foldl (fun s p => s.mergePerformance p sourceOrigin) s

def mergePerformances (s : BoltStore) (incoming : List Performance) : BoltStore :=
  s.mergePerformancesFrom incoming legacyOrigin

def mergeDialogueTx (s : BoltStore) (d : DialogueRecord) (sourceOrigin : String) : BoltStore :=
  if d.id = "" then s
  else
    let s := s.updateRecordWatermark d.origin d.sequence
    let (current, changed, s) :=
      match s.dialogues.get? d.id with
      | none => (d, true, s)
      | some current =>
        let (merged, changed) := mergeTranscript current d
        if changed then
          let (sequence, s) := s.nextOriginSequence s.owner
          ({ merged with origin := s.owner, sequence }, true, s)
        else (merged, false, s)
    if Unstamped current.origin current.sequence then
      let (sequence, s) := s.nextOriginSequence sourceOrigin
      { s with dialogues := s.dialogues.put { current with origin := sourceOrigin, sequence } }
    else if changed then { s with dialogues := s.dialogues.put current }
    else s

end BoltStore

inductive MergeTransaction where
  | learned (es : List Experience) (fs : List Fact)
  | performances (ps : List Performance)
  | dialogues (ds : List DialogueRecord) (w : Watermarks)

/-- The first transaction is left out when there is nothing for it to do, and so is the second. -/
def mergeTransactions (snapshot : Snapshot) : List MergeTransaction :=
  (if snapshot.experiences = [] ∧ snapshot.facts = [] then []
    else [.learned snapshot.experiences snapshot.facts]) ++
  (if snapshot.performances = [] then [] else [.performances snapshot.performances]) ++
  [.dialogues snapshot.dialogues snapshot.watermarks]

namespace BoltStore

def mergeExperiencesTx (s : BoltStore) (sourceOrigin : String) : List Experience → Clocks → BoltStore
  | [], _ => s
  | e :: es, now => (s.mergeExperienceTx e sourceOrigin (now 0)).mergeExperiencesTx sourceOrigin es fun n => now (n + 1)

def mergeFactsTx (s : BoltStore) (sourceOrigin : String) : List Fact → Clocks → Except String BoltStore
  | [], _ => .ok s
  | f :: fs, now => do
    let s ← s.mergeFactTx f sourceOrigin (now 0)
    s.mergeFactsTx sourceOrigin fs fun n => now (n + 1)

def transact (s : BoltStore) (sourceOrigin : String) (now : Clocks) : MergeTransaction → Except String BoltStore
  | .learned es fs =>
    (s.mergeExperiencesTx sourceOrigin es now).mergeFactsTx sourceOrigin fs fun n => now (es.length + n)
  | .performances ps => .ok (s.mergePerformancesFrom ps sourceOrigin)
  | .dialogues ds w =>
    let s := ds.foldl (fun s d => s.mergeDialogueTx d sourceOrigin) s
    .ok ((s.updateSnapshotWatermarks w).mergePeerWatermarksTx sourceOrigin w)

/-- `db.Update`: a transaction that fails is rolled back. -/
def mergeTransaction (s : BoltStore) (sourceOrigin : String) (now : Clocks) (tx : MergeTransaction) :
    Except String Unit × BoltStore :=
  match s.transact sourceOrigin now tx with
  | .ok s' => (.ok (), s')
  | .error err => (.error err, s)

def runTransactions (s : BoltStore) (sourceOrigin : String) (now : Clocks) :
    List MergeTransaction → Except String Unit × BoltStore
  | [] => (.ok (), s)
  | tx :: rest =>
    match s.mergeTransaction sourceOrigin now tx with
    | (.error err, s) => (.error err, s)
    | (.ok _, s) => s.runTransactions sourceOrigin now rest

def mergeSnapshotFrom (s : BoltStore) (snapshot : Snapshot) (sourceOrigin : String) (now : Clocks) :
    Except String Unit × BoltStore :=
  s.runTransactions (if sourceOrigin = "" then legacyOrigin else sourceOrigin) now (mergeTransactions snapshot)

/-- `loadSnapshot`: experiences by falling key, the other buckets sorted as they are listed. -/
def snapshot (s : BoltStore) : Snapshot where
  experiences := s.experiences.vals.insertionSort fun a b => b.id ≤ a.id
  facts := s.facts.vals.insertionSort fun a b => b.updatedAt ≤ a.updatedAt
  performances := s.performances.vals.insertionSort fun a b =>
    b.successRate < a.successRate ∨ (a.successRate = b.successRate ∧ a.avgDurationMs ≤ b.avgDurationMs)
  dialogues := s.dialogues.vals.insertionSort fun a b => b.updatedAt ≤ a.updatedAt
  syncVersion := syncProtocolVersion
  watermarks := s.watermarks

end BoltStore

end Maistr0.Memory
