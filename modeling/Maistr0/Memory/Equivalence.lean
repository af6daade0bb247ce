import Maistr0.Memory.Agreement

/-!
# The same calls, the same knowledge

The calls of the `Store` interface that write, run on a `memoryStore` and a `boltStore` of the same
owner. After any run of calls that succeed on both, each within the limits of `Call.Regular`, nothing
a caller can read tells the stores apart.
-/

namespace Maistr0.Memory

open Go Relation

variable [CaseFolding]

inductive Call where
  | record (e : Experience) (now : Instant)
  | putFact (f : Fact) (now : Instant)
  | getFact (scope key : String)
  | deleteFact (scope key : String)
  | saveDialogue (d : DialogueRecord) (now : Instant)
  | appendDialogueTurns (id : String) (participants : List String) (topic : String) (turns : List Turn) (now : Clocks)
  | mergePerformances (incoming : List Performance)
  | setPeerWatermarks (peer : String) (watermarks : Watermarks)
  | mergeSnapshotFrom (snapshot : Snapshot) (sourceOrigin : String) (now : Clocks)

namespace Call

def onMemory (m : MemoryStore) : Call → Except String Unit × MemoryStore
  | record e now => (.ok (), (m.record e now).2)
  | putFact f now => ((m.putFact f now).1.map fun _ => (), (m.putFact f now).2)
  | getFact scope key => ((m.getFact scope key).1.map fun _ => (), (m.getFact scope key).2)
  | deleteFact scope key => (.ok (), m.deleteFact scope key)
  | saveDialogue d now => m.saveDialogue d now
  | appendDialogueTurns id participants topic turns now => m.appendDialogueTurns id participants topic turns now
  | mergePerformances incoming => (.ok (), m.mergePerformances incoming)
  | setPeerWatermarks peer watermarks => m.setPeerWatermarks peer watermarks
  | mergeSnapshotFrom snapshot sourceOrigin now => m.mergeSnapshotFrom snapshot sourceOrigin now

def onBolt (b : BoltStore) : Call → Except String Unit × BoltStore
  | record e now => (.ok (), (b.record e now).2)
  | putFact f now => ((b.putFact f now).1.map fun _ => (), (b.putFact f now).2)
  | getFact scope key => ((b.getFact scope key).1.map fun _ => (), (b.getFact scope key).2)
  | deleteFact scope key => (.ok (), b.deleteFact scope key)
  | saveDialogue d now => b.saveDialogue d now
  | appendDialogueTurns id participants topic turns now => b.appendDialogueTurns id participants topic turns now
  | mergePerformances incoming => (.ok (), b.mergePerformances incoming)
  | setPeerWatermarks peer watermarks => b.setPeerWatermarks peer watermarks
  | mergeSnapshotFrom snapshot sourceOrigin now => b.mergeSnapshotFrom snapshot sourceOrigin now

/-- The most stamps of one origin, or IDs, that the call can assign. -/
def size : Call → Nat
  | record _ _ => 2
  | putFact _ _ => 1
  | getFact _ _ => 1
  | deleteFact _ _ => 0
  | saveDialogue _ _ => 1
  | appendDialogueTurns _ _ _ turns _ => turns.length
  | mergePerformances incoming => incoming.length
  | setPeerWatermarks _ _ => 0
  | mergeSnapshotFrom snapshot _ _ => snapshot.records.length

def incoming : Call → List Record
  | mergePerformances ps => ps.map .performance
  | mergeSnapshotFrom snapshot _ _ => snapshot.records
  | _ => []

def DialoguesSettled (m : MemoryStore) : Call → Prop
  | mergeSnapshotFrom snapshot sourceOrigin _ =>
    AllSettled m (MemoryStore.sourceOrLegacy sourceOrigin) snapshot.dialogues
  | _ => True

/-- No counter can wrap around in the call, and it merges no unstamped dialogue into one that changes. -/
structure Regular (m : MemoryStore) (c : Call) : Prop where
  stamps : ∀ o, m.watermarks.get o + c.size < 2 ^ 64
  room : m.nextID + c.size < 2 ^ 64
  incoming : ∀ r ∈ c.incoming, r.sequence + c.size < 2 ^ 64
  dialogues : c.DialoguesSettled m

end Call

structure Same (m : MemoryStore) (b : BoltStore) : Prop where
  snapshot : b.snapshot = m.snapshot
  peerWatermarks : ∀ peer, b.peerWatermarksOf peer = m.peerWatermarksOf peer

namespace Agree

variable {m : MemoryStore} {b : BoltStore}

theorem same (h : Agree m b) : Same m b where
  snapshot := by
    have hsorted : m.experiences.reverse.Pairwise fun e e' => e'.id ≤ e.id :=
      List.pairwise_reverse.mpr (h.rising.imp Nat.le_of_lt)
    simp only [BoltStore.snapshot, MemoryStore.snapshot, h.facts, h.performances, h.dialogues, h.watermarks,
      h.experiences, hsorted.insertionSort_eq]
  peerWatermarks peer := by
    unfold BoltStore.peerWatermarksOf MemoryStore.peerWatermarksOf
    rw [h.peers]
    split
    · rename_i hpeer
      rw [hpeer, h.unnamed]
      rfl
    · rfl

theorem setPeerWatermarks (h : Agree m b) (peer : String) (w : Watermarks) :
    Agree (m.setPeerWatermarks peer w).2 (b.setPeerWatermarks peer w).2 := by
  unfold MemoryStore.setPeerWatermarks BoltStore.setPeerWatermarks
  split
  · exact h
  rename_i htrim
  refine h.mergePeer ?_ w
  rintro rfl
  exact htrim rfl

end Agree

omit [CaseFolding] in
theorem sourceOrLegacy_ne (sourceOrigin : String) : MemoryStore.sourceOrLegacy sourceOrigin ≠ "" := by
  unfold MemoryStore.sourceOrLegacy
  split
  · decide
  · assumption

theorem Call.agree {m : MemoryStore} {b : BoltStore} (h : Agree m b) {c : Call} (hc : c.Regular m)
    (hok : (c.onMemory m).1 = .ok ()) : Agree (c.onMemory m).2 (c.onBolt b).2 := by
  have hroom : Within (0 + c.size) (0 + c.size) m b := by
    rw [Nat.zero_add]
    exact ⟨h, hc.stamps, hc.room⟩
  cases c with
  | record e now => exact ((hroom.mono le_rfl (Nat.le_succ 1)).record e now).toAgree
  | putFact f now => exact (hroom.putFact f now).toAgree
  | getFact scope key => exact (hroom.getFact scope key).toAgree
  | deleteFact scope key => exact (hroom.deleteFact scope key).toAgree
  | saveDialogue d now => exact (hroom.saveDialogue d now).toAgree
  | appendDialogueTurns id participants topic _ now =>
    exact (hroom.appendDialogueTurns id participants topic now).toAgree
  | mergePerformances ps =>
    have hincoming : ∀ p ∈ ps, p.sequence + (0 + ps.length) < 2 ^ 64 := by
      intro p hp
      rw [Nat.zero_add]
      exact hc.incoming (.performance p) (List.mem_map_of_mem hp)
    exact (hroom.mergePerformances hincoming legacyOrigin).toAgree
  | setPeerWatermarks peer w => exact h.setPeerWatermarks peer w
  | mergeSnapshotFrom _ sourceOrigin =>
    rw [Nat.zero_add] at hroom
    exact (hroom.mergeSnapshot hc.incoming (sourceOrLegacy_ne sourceOrigin) hc.dialogues hok).2

def CallStep (p p' : MemoryStore × BoltStore) : Prop :=
  ∃ c : Call, (c.onMemory p.1).1 = .ok () ∧ (c.onBolt p.2).1 = .ok () ∧ c.Regular p.1 ∧
    p' = ((c.onMemory p.1).2, (c.onBolt p.2).2)

/-- Two empty stores of one owner that are given the same calls end with the same knowledge, as long
as no counter wraps around and no unstamped dialogue changes a dialogue that is already there. -/
theorem stores_agree {owner : String} (howner : owner ≠ "") {m : MemoryStore} {b : BoltStore}
    (hrun : ReflTransGen CallStep (newInMemoryStore owner, openBoltStore owner) (m, b)) : Same m b := by
  have hagree : ∀ p : MemoryStore × BoltStore,
      ReflTransGen CallStep (newInMemoryStore owner, openBoltStore owner) p → Agree p.1 p.2 := by
    intro p hp
    induction hp with
    | refl => exact Agree.start howner
    | tail _ hstep ih =>
      obtain ⟨_, hok, -, hregular, rfl⟩ := hstep
      exact Call.agree ih hregular hok
  exact (hagree (m, b) hrun).same

end Maistr0.Memory

namespace Maistr0.Memory

open Go Relation

def firstMerge : Call :=
  .mergeSnapshotFrom { facts := [{ key := "k" }], dialogues := [{ id := "d" }] } "node-b" fun _ => ⟨1, by decide⟩

theorem firstMerge_regular : firstMerge.Regular (newInMemoryStore "node-a") where
  stamps _ := by
    change 0 + 2 < 2 ^ 64
    decide
  room := by decide
  incoming := by decide
  dialogues := .inr ⟨fun _ _ _ _ hget => (by cases hget), List.pairwise_singleton _ _⟩

theorem stores_agree_firstMerge :
    Same (firstMerge.onMemory (newInMemoryStore "node-a")).2 (firstMerge.onBolt (openBoltStore "node-a")).2 :=
  stores_agree (by decide : "node-a" ≠ "") (.single ⟨firstMerge, rfl, rfl, firstMerge_regular, rfl⟩)

def dialogueSaved : Call := .saveDialogue { id := "d" } ⟨1, by decide⟩

def topicArrives : Call :=
  .mergeSnapshotFrom { dialogues := [{ id := "d", topic := "plans" }] } "node-b" fun _ => ⟨2, by decide⟩

/-- `memoryStore` stamps the changed dialogue for `node-b`, `boltStore` for its owner. -/
theorem topicArrives_differs : ∃ m m' b b', dialogueSaved.onMemory (newInMemoryStore "node-a") = (.ok (), m) ∧
    dialogueSaved.onBolt (openBoltStore "node-a") = (.ok (), b) ∧
    topicArrives.onMemory m = (.ok (), m') ∧ topicArrives.onBolt b = (.ok (), b') ∧
    m'.snapshot.dialogues.map (fun d => (d.origin, d.sequence)) = [("node-b", 1)] ∧
    b'.snapshot.dialogues.map (fun d => (d.origin, d.sequence)) = [("node-a", 2)] ∧ ¬ Same m' b' := by
  refine ⟨_, _, _, _, rfl, rfl, rfl, rfl, rfl, rfl, fun h => ?_⟩
  have horigins := congrArg (fun S : Snapshot => S.dialogues.map (·.origin)) h.snapshot
  revert horigins
  decide

end Maistr0.Memory
