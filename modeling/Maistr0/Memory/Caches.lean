import Maistr0.Lib.GuardedCache
import Maistr0.Memory.Bolt

/-!
# The caches of the durable store

`boltStore` keeps its snapshot, its watermarks and the watermarks of each peer in memory. A write commits a
transaction and then, as a step of its own, invalidates what it may have changed or caches the watermarks
of a peer; `Snapshot`, `Watermarks` and `PeerWatermarks` read a cache or fill it. This module is about any
number of such calls at once. The numbers of the committed databases are not in the source: they are there
to say which of two is the older.
-/

namespace Maistr0.Memory

open Go Lib.GuardedCache

/-! ### What is cached -/

def recentExperienceCacheLimit : Nat := 128

def snapshotCacheSizeLimit : Nat := 2 * 2 ^ 20

def snapshotCacheable (snapshot : Snapshot) : Bool :=
  let experiences := snapshot.experiences.map fun e =>
    len e.origin + len e.kind + len e.taskType + len e.description + len e.prompt + len e.output + len e.nodeID +
      len e.model + len e.tool + len e.sessionID + len e.error + 128 + (e.tags.map len).sum
  let facts := snapshot.facts.map fun f => len f.key + len f.origin + len f.value + len f.scope + len f.source + 96
  let performances := snapshot.performances.map fun p => len p.nodeID + len p.model + len p.taskType + 64
  let dialogues := snapshot.dialogues.map fun d =>
    len d.id + len d.origin + len d.topic + 96 + (d.participants.map len).sum +
      (d.turns.map fun turn => len turn.speaker + len turn.nodeID + len turn.model + len turn.content + 64).sum
  let watermarks := snapshot.watermarks.vals.map fun entry => len entry.1 + 16
  snapshot.experiences.length ≤ recentExperienceCacheLimit ∧ snapshot.facts.length ≤ 512 ∧
    snapshot.performances.length ≤ 512 ∧ snapshot.dialogues.length ≤ 128 ∧
    experiences.sum + facts.sum + performances.sum + dialogues.sum + watermarks.sum ≤ snapshotCacheSizeLimit

inductive Cache where
  | snapshot
  | watermarks
  | peer (name : String)
deriving DecidableEq

namespace Cache

def Value : Cache → Type
  | snapshot => Snapshot
  | watermarks => Watermarks
  | peer _ => Watermarks

def cacheable : (k : Cache) → k.Value → Bool
  | snapshot, x => snapshotCacheable x
  | watermarks, _ => true
  | peer _, _ => true

variable [CaseFolding]

def view : (k : Cache) → BoltStore → k.Value
  | snapshot, s => s.snapshot
  | watermarks, s => s.watermarks
  | peer name, s => s.peerWatermarksOf name

end Cache

/-! ### Calls at work -/

/-- What an invalidation covers: `invalidateWatermarksCache` or `invalidateSnapshotCache`. -/
inductive Scope where
  | watermarks
  | snapshot

inductive Activity where
  | idle
  /-- After the commit; the watermarks of a peer may have to be cached after the invalidation. -/
  | invalidating (version : Nat) (scope : Scope) (peer : Option (String × Watermarks))
  | caching (version : Nat) (peer : String) (merged : Watermarks)
  | reading (k : Cache) (since generation : Nat)
  | viewed (k : Cache) (since generation : Nat) (seen : Seen k.Value)

section

variable [CaseFolding]

inductive Write where
  | record (e : Experience) (now : Instant)
  | putFact (f : Fact) (now : Instant)
  | getFact (scope key : String)
  | deleteFact (scope key : String)
  | saveDialogue (d : DialogueRecord) (now : Instant)
  | appendDialogueTurns (id : String) (participants : List String) (topic : String) (turns : List Turn) (now : Clocks)
  | prune (cutoff : Time)
  | setPeerWatermarks (peer : String) (watermarks : Watermarks)
  | mergePerformances (incoming : List Performance)
  | merge (sourceOrigin : String) (now : Clocks) (tx : MergeTransaction)

/-- A call that was not rolled back goes on to `invalidateWatermarksCache`. -/
def Write.afterCall {α : Type} : Except String α × BoltStore → Option (BoltStore × (Nat → Activity))
  | (.ok _, s) => some (s, fun v => .invalidating v .watermarks none)
  | (.error _, _) => none

/-- The committed database and what the call does next, or nothing if no transaction is committed. -/
def Write.commit (s : BoltStore) : Write → Option (BoltStore × (Nat → Activity))
  | record e now => some ((s.record e now).2, fun v => .invalidating v .watermarks none)
  | putFact f now => afterCall (s.putFact f now)
  | getFact scope key => afterCall (s.getFact scope key)
  | deleteFact scope key => some (s.deleteFact scope key, fun v => .invalidating v .snapshot none)
  | saveDialogue d now => afterCall (s.saveDialogue d now)
  | appendDialogueTurns id participants topic turns now =>
    if turns = [] then none else afterCall (s.appendDialogueTurns id participants topic turns now)
  | prune cutoff => some ((s.prune cutoff).2, fun v => .invalidating v .snapshot none)
  | setPeerWatermarks peer watermarks =>
    match s.setPeerWatermarks peer watermarks with
    | (.ok _, s) => some (s, fun v => .caching v peer (s.peerWatermarksOf peer))
    | (.error _, _) => none
  | mergePerformances incoming =>
    if incoming = [] then none
    else some (s.mergePerformances incoming, fun v => .invalidating v .watermarks none)
  | merge sourceOrigin now tx =>
    let source := if sourceOrigin = "" then legacyOrigin else sourceOrigin
    match s.transact source now tx with
    | .error _ => none
    | .ok s =>
      match tx with
      | .dialogues _ _ => some (s, fun v => .invalidating v .watermarks (some (source, s.peerWatermarksOf source)))
      | _ => some (s, fun v => .invalidating v .watermarks none)

structure CachedStore (ι : Type) where
  versions : Nat → BoltStore
  latest : Nat
  slots : (k : Cache) → Slot k.Value
  calls : ι → Activity

namespace CachedStore

variable {ι : Type} [DecidableEq ι]

def start (db : BoltStore) : CachedStore ι where
  versions _ := db
  latest := 0
  slots _ := {}
  calls _ := .idle

def db (c : CachedStore ι) : BoltStore := c.versions c.latest

def commit (c : CachedStore ι) (db : BoltStore) : CachedStore ι :=
  { c with versions := Function.update c.versions (c.latest + 1) db, latest := c.latest + 1 }

def set (c : CachedStore ι) (i : ι) (a : Activity) : CachedStore ι := { c with calls := Function.update c.calls i a }

def setSlot (c : CachedStore ι) (k : Cache) (slot : Slot k.Value) : CachedStore ι :=
  { c with slots := Function.update c.slots k slot }

def invalidateSnapshotCache (c : CachedStore ι) (version : Nat) : CachedStore ι :=
  c.setSlot .snapshot ((c.slots .snapshot).invalidate version)

def invalidateWatermarksCache (c : CachedStore ι) (version : Nat) : CachedStore ι :=
  (c.setSlot .watermarks ((c.slots .watermarks).invalidate version)).invalidateSnapshotCache version

def invalidate (c : CachedStore ι) (version : Nat) : Scope → CachedStore ι
  | .watermarks => c.invalidateWatermarksCache version
  | .snapshot => c.invalidateSnapshotCache version

def cachePeerWatermarks (c : CachedStore ι) (version : Nat) (peer : String) (merged : Watermarks) : CachedStore ι :=
  c.setSlot (.peer peer) ((c.slots (.peer peer)).publish ⟨version, merged⟩)

def afterInvalidation (version : Nat) : Option (String × Watermarks) → Activity
  | none => .idle
  | some (peer, merged) => .caching version peer merged

/-- One step of one call. A read that returns says which cache it is about, the newest number whose writer was
done with that cache when the read began, and what it returns. For the peers in `orderly`, a call caches
watermarks only if no later one has done so; the code does not see to that, so its steps are those with
`orderly` empty. -/
inductive Step (orderly : Set String) (c : CachedStore ι) :
    Option ((k : Cache) × Nat × Seen k.Value) → CachedStore ι → Prop
  | commit (i : ι) (w : Write) (db : BoltStore) (next : Nat → Activity) (hi : c.calls i = .idle)
      (hw : w.commit c.db = some (db, next)) : Step orderly c none ((c.commit db).set i (next (c.latest + 1)))
  | invalidate (i : ι) (version : Nat) (scope : Scope) (peer : Option (String × Watermarks))
      (hi : c.calls i = .invalidating version scope peer) :
      Step orderly c none ((c.invalidate version scope).set i (afterInvalidation version peer))
  | cachePeer (i : ι) (version : Nat) (peer : String) (merged : Watermarks) (hi : c.calls i = .caching version peer merged)
      (horder : peer ∈ orderly → (c.slots (.peer peer)).settled ≤ version) :
      Step orderly c none ((c.cachePeerWatermarks version peer merged).set i .idle)
  | hit (k : Cache) (i : ι) (seen : Seen k.Value) (hi : c.calls i = .idle) (hcached : (c.slots k).cached = some seen) :
      Step orderly c (some ⟨k, (c.slots k).settled, seen⟩) c
  | miss (k : Cache) (i : ι) (hi : c.calls i = .idle) (hcached : (c.slots k).cached = none) :
      Step orderly c none (c.set i (.reading k (c.slots k).settled (c.slots k).generation))
  | view (k : Cache) (i : ι) (since generation : Nat) (hi : c.calls i = .reading k since generation) :
      Step orderly c none (c.set i (.viewed k since generation ⟨c.latest, k.view c.db⟩))
  | fill (k : Cache) (i : ι) (since generation : Nat) (seen : Seen k.Value)
      (hi : c.calls i = .viewed k since generation seen) (hcacheable : k.cacheable seen.value = true) :
      Step orderly c (some ⟨k, since, seen⟩) ((c.setSlot k ((c.slots k).fill generation seen)).set i .idle)
  | keep (k : Cache) (i : ι) (since generation : Nat) (seen : Seen k.Value)
      (hi : c.calls i = .viewed k since generation seen) (hcacheable : k.cacheable seen.value = false) :
      Step orderly c (some ⟨k, since, seen⟩) (c.set i .idle)

def Run (orderly : Set String) : CachedStore ι → CachedStore ι → Prop :=
  Relation.ReflTransGen fun c c' => ∃ r, Step orderly c r c'

end CachedStore

end

end Maistr0.Memory
