import Maistr0.Memory.Commits
import Maistr0.Memory.Steps

/-!
# Stores of either kind

A `Store` is a `memoryStore` or a `boltStore`. This module says which stores the calls of the interface can
reach, what holds of all of them, and what `MergeSnapshotFrom` does to what they know.
-/

namespace Maistr0.Memory

open Go List

variable [CaseFolding]

/-! ### Dated records -/

def Record.Filed : Record → Prop
  | .experience e => e.createdAt ≠ 0
  | .fact f => f.scope ≠ "" ∧ f.key ≠ "" ∧ f.updatedAt ≠ 0
  | _ => True

structure Dated (experiences : List Experience) (facts : Facts) : Prop where
  experiences : ∀ e ∈ experiences, e.createdAt ≠ 0
  facts : ∀ f ∈ facts.vals, f.scope ≠ "" ∧ f.key ≠ "" ∧ f.updatedAt ≠ 0

namespace Dated

variable {es es' : List Experience} {facts : Facts}

section

variable (h : Dated es facts)

include h

omit [CaseFolding] in
theorem put {f : Fact} (hf : f.scope ≠ "" ∧ f.key ≠ "" ∧ f.updatedAt ≠ 0) : Dated es (facts.put f) where
  experiences := h.experiences
  facts x hx := by
    rw [Lib.Keyed.vals_put, mem_cons, mem_filter] at hx
    rcases hx with rfl | ⟨hmem, -⟩
    · exact hf
    · exact h.facts x hmem

omit [CaseFolding] in
theorem files {f : Fact} (hf : facts.Files f) : f.scope ≠ "" ∧ f.key ≠ "" ∧ f.updatedAt ≠ 0 := by
  rcases hf with hf | ⟨g, hg, hscope, hkey, hupdated⟩
  · exact hf
  · rw [hscope, hkey, hupdated]
    exact h.facts g hg

omit [CaseFolding] in
theorem withExperiences (hes : ∀ e ∈ es', e ∈ es ∨ e.createdAt ≠ 0) : Dated es' facts where
  experiences e he := (hes e he).elim (h.experiences e) id
  facts := h.facts

end

end Dated

/-! ### The in-memory store -/

namespace MemoryStore

variable {s : MemoryStore}

variable {seen : Nat → Prop} {noted : String → Watermarks → Prop}

theorem Writes.dated {t : MemoryStore} (h : Writes seen noted s t) (hs : Dated s.experiences s.facts) :
    Dated t.experiences t.facts := by
  refine h.invariant (P := fun t => Dated t.experiences t.facts) (fun t t' ht hwrite => ?_) hs
  cases hwrite with
  | @observe o q =>
    obtain ⟨_, _, hobs, -⟩ := t.observeRecordLocked_eq o q
    rw [hobs]
    exact ht
  | experience e _ _ hdated =>
    refine ht.withExperiences fun x hx => ?_
    rcases mem_append.mp hx with hmem | hmem
    · exact .inl hmem
    · exact .inr (mem_singleton.mp hmem ▸ hdated)
  | fact _ hfiled => exact ht.put (ht.files hfiled)
  | forget _ _ hes hfacts => exact ⟨fun e he => ht.experiences e (hes e he), fun f hf => ht.facts f (hfacts f hf)⟩
  | _ => exact ht

theorem writes_call (s : MemoryStore) {c : Call} (hps : ∀ ps, c = .mergePerformances ps → ∀ p ∈ ps, seen p.sequence)
    (hS : ∀ S sourceOrigin now, c = .mergeSnapshotFrom S sourceOrigin now →
      (∀ r ∈ S.records, seen r.sequence) ∧ ∀ entry ∈ S.watermarks.vals, seen entry.2) :
    Writes seen (fun _ _ => True) s (c.onMemory s).2 := by
  cases c with
  | record e now => exact s.writes_record e now
  | putFact f now => exact (LocalWrite.putFact f now).writes s
  | getFact scope key => exact (LocalWrite.getFact scope key).writes s
  | deleteFact scope key => exact (LocalWrite.deleteFact scope key).writes s
  | saveDialogue d now => exact (LocalWrite.saveDialogue d now).writes s
  | appendDialogueTurns id participants topic turns now =>
    exact (LocalWrite.appendDialogueTurns id participants topic turns now).writes s
  | mergePerformances ps => exact s.writes_mergePerformances (hps ps rfl) legacyOrigin
  | setPeerWatermarks peer w =>
    simp only [Call.onMemory, setPeerWatermarks_eq]
    split
    · exact .refl
    · exact .single (.note peer w trivial)
  | mergeSnapshotFrom S sourceOrigin now =>
    obtain ⟨hrecords, hw⟩ := hS S sourceOrigin now rfl
    exact s.writes_mergeSnapshot hrecords hw trivial now

theorem dated_call (hs : Dated s.experiences s.facts) (c : Call) :
    Dated (c.onMemory s).2.experiences (c.onMemory s).2.facts :=
  (s.writes_call (fun _ _ _ _ => trivial) fun _ _ _ _ => ⟨fun _ _ => trivial, fun _ _ => trivial⟩ :
    Writes (fun _ => True) _ _ _).dated hs

end MemoryStore

/-! ### The durable store -/

namespace BoltStore

/-- What the write paths of `boltStore` preserve. -/
structure Sound (s : BoltStore) : Prop extends s.Counted where
  dated : Dated s.experiences.vals s.facts

variable {s : BoltStore}

theorem Counted.updateRecordWatermark (h : s.Counted) {q : Nat} (hq : q < 2 ^ 64) (o : String) : (s.updateRecordWatermark o q).Counted := by
  unfold BoltStore.updateRecordWatermark
  split
  · exact h
  refine ⟨fun o' => ?_, fun o' => ?_⟩
  · have := h.sequences o'
    simp only [saveWatermark, Lib.Clock.get_raise]
    split <;> omega
  · have := h.bounded o'
    simp only [saveWatermark, Lib.Clock.get_raise]
    split <;> omega

theorem updateRecordWatermark_eq (s : BoltStore) (o : String) (q : Nat) :
    s.updateRecordWatermark o q = { s with watermarks := (s.updateRecordWatermark o q).watermarks } := by
  unfold updateRecordWatermark
  split <;> rfl

end BoltStore

structure Snapshot.Machine (S : Snapshot) : Prop where
  records : ∀ r ∈ S.records, r.sequence < 2 ^ 64
  watermarks : ∀ entry ∈ S.watermarks.vals, entry.2 < 2 ^ 64

def Call.Machine : Call → Prop
  | .mergePerformances ps => ∀ p ∈ ps, p.sequence < 2 ^ 64
  | .mergeSnapshotFrom S _ _ => S.Machine
  | _ => True

namespace BoltStore

variable {s : BoltStore} {seen : Nat → Prop} {noted : Prop}

theorem Writes.sound {t : BoltStore} (h : Writes (· < 2 ^ 64) True True s t) (hs : s.Sound) : t.Sound := by
  refine h.invariant (fun t t' ht hwrite => ?_) hs
  cases hwrite with
  | mint o =>
    obtain ⟨_, _, hmint, hcounted, -⟩ := ht.toCounted.mint o
    rw [hmint]
    exact ⟨hcounted, ht.dated⟩
  | observe o hq =>
    refine ⟨ht.toCounted.updateRecordWatermark hq o, ?_⟩
    rw [updateRecordWatermark_eq]
    exact ht.dated
  | experience _ e _ _ hdated =>
    refine ⟨⟨ht.sequences, ht.bounded⟩, ht.dated.withExperiences fun x hx => ?_⟩
    rw [Lib.Keyed.vals_put, mem_cons, mem_filter] at hx
    rcases hx with rfl | ⟨hmem, -⟩
    · exact .inr hdated
    · exact .inl hmem
  | fact _ hfiled => exact ⟨⟨ht.sequences, ht.bounded⟩, ht.dated.put (ht.dated.files hfiled)⟩
  | forget _ _ _ hes hfacts =>
    exact ⟨⟨ht.sequences, ht.bounded⟩, fun e he => ht.dated.experiences e (hes e he), fun f hf => ht.dated.facts f (hfacts f hf)⟩
  | performance | dialogue | note => exact ⟨⟨ht.sequences, ht.bounded⟩, ht.dated⟩

theorem writes_machine_call (s : BoltStore) {c : Call} (hc : c.Machine) : Writes (· < 2 ^ 64) True True s (c.onBolt s).2 := by
  refine s.writes_call ?_ ?_ fun _ => trivial
  · rintro ps rfl
    exact hc
  · rintro S sourceOrigin now rfl
    exact ⟨hc.records, hc.watermarks⟩

theorem sound_call (hs : s.Sound) {c : Call} (hc : c.Machine) : (c.onBolt s).2.Sound := (s.writes_machine_call hc).sound hs

theorem writes_prune (s : BoltStore) (cutoff : Time) : Writes seen True noted s (s.prune cutoff).2 :=
  .single (.forget trivial _ s.facts (fun _ he => mem_of_mem_filter he) fun _ hf => hf)

theorem writes_backfillRecord (s : BoltStore) {r : Record} (hr : r.Filed) (hq : seen r.sequence)
    (hid : ∀ d, r = .dialogue d → d.id ≠ "") : Writes seen True noted s (s.backfillRecord r) := by
  unfold backfillRecord
  split
  · have hle := s.next_le s.owner
    refine (s.writes_mint s.owner).tail ?_
    cases r with
    | experience e => exact .experience trivial { e with origin := s.owner, sequence := (s.nextOriginSequence s.owner).1 } _ _ hr hle
    | fact => exact .fact _ (.inl hr) hle
    | performance => exact .performance _ hle
    | dialogue d => exact .dialogue _ (hid d rfl) hle
  · exact s.writes_observe _ hq

theorem writes_reopen (hdated : Dated s.experiences.vals s.facts)
    (hids : ∀ d ∈ s.dialogues.vals, d.id ≠ "") (hrecords : ∀ r ∈ s.bucketRecords, seen r.sequence) (owner : String) :
    Writes seen True noted { s with owner } (s.reopen owner) := by
  have hfiled : ∀ r ∈ s.bucketRecords, r.Filed ∧ ∀ d, r = .dialogue d → d.id ≠ "" := by
    intro r hr
    simp only [bucketRecords, mem_append, mem_map, mem_insertionSort] at hr
    rcases hr with ((⟨e, he, rfl⟩ | ⟨f, hf, rfl⟩) | ⟨p, hp, rfl⟩) | ⟨d, hd, rfl⟩
    · exact ⟨hdated.experiences e he, nofun⟩
    · exact ⟨hdated.facts f hf, nofun⟩
    · exact ⟨trivial, nofun⟩
    · exact ⟨trivial, fun _ h => Record.dialogue.inj h ▸ hids d hd⟩
  refine foldlRecOn s.bucketRecords _ .refl fun t ht r hr => ?_
  exact ht.trans (t.writes_backfillRecord (hfiled r hr).1 (hrecords r hr) (hfiled r hr).2)

end BoltStore

/-! ### Either store -/

inductive Store where
  | memory (s : MemoryStore)
  | bolt (s : BoltStore)

namespace Store

def knowledge : Store → Knowledge
  | memory s => s.knowledge
  | bolt s => s.knowledge

def facts : Store → Facts
  | memory s => s.facts
  | bolt s => s.facts

def snapshot : Store → Snapshot
  | memory s => s.snapshot
  | bolt s => s.snapshot

/-- Whether the store stamps a dialogue it holds without a stamp. -/
def restamps : Store → Bool
  | memory _ => false
  | bolt _ => true

def mergeSnapshotFrom (s : Store) (snapshot : Snapshot) (sourceOrigin : String) (now : Clocks) :
    Except String Unit × Store :=
  match s with
  | memory s => (s.mergeSnapshotFrom snapshot sourceOrigin now).map id memory
  | bolt s => (s.mergeSnapshotFrom snapshot sourceOrigin now).map id bolt

def call (s : Store) (c : Call) : Store :=
  match s with
  | memory s => memory (c.onMemory s).2
  | bolt s => bolt (c.onBolt s).2

def prune (s : Store) (cutoff : Time) : Store :=
  match s with
  | memory s => memory (s.prune cutoff).2
  | bolt s => bolt (s.prune cutoff).2

/-- The stores that calls can reach, whether they succeed or fail. The inputs are machine values. -/
inductive Reachable : Store → Prop
  | newInMemoryStore (origin : String) : Reachable (memory (newInMemoryStore origin))
  | openBoltStore (owner : String) : Reachable (bolt (openBoltStore owner))
  | call {s : Store} (h : Reachable s) (c : Call) (hc : c.Machine) : Reachable (s.call c)
  | prune {s : Store} (h : Reachable s) (cutoff : Time) : Reachable (s.prune cutoff)
  | reopen {s : BoltStore} (h : Reachable (bolt s)) (hrecords : ∀ r ∈ s.bucketRecords, r.sequence < 2 ^ 64)
      (owner : String) : Reachable (bolt (s.reopen owner))

def Sound : Store → Prop
  | memory s => Dated s.experiences s.facts
  | bolt s => s.Sound

theorem delivers {s s' : Store} (hs : s.Sound) {S : Snapshot} (hS : S.Machine) {sourceOrigin : String} {now : Clocks}
    (h : s.mergeSnapshotFrom S sourceOrigin now = (.ok (), s')) :
    s'.Sound ∧ s'.restamps = s.restamps ∧
      ∃ k, Lib.Deliver (MergeStep s.restamps (MemoryStore.sourceOrLegacy sourceOrigin)) S.records s.knowledge k ∧
        s'.knowledge = k.told (MemoryStore.sourceOrLegacy sourceOrigin) S.watermarks := by
  cases s with
  | memory m =>
    obtain ⟨hok, rfl⟩ := Prod.ext_iff.mp h
    have hm : m.mergeSnapshotFrom S sourceOrigin now = (.ok (), (m.mergeSnapshotFrom S sourceOrigin now).2) :=
      Prod.ext hok rfl
    obtain ⟨t, hrun, ht⟩ := MemoryStore.delivers_mergeSnapshot hm
    refine ⟨MemoryStore.dated_call hs (.mergeSnapshotFrom S sourceOrigin now), rfl, t.knowledge, ?_, ?_⟩
    · exact hrun.map MemoryStore.knowledge fun _ _ _ hr => hr.step
    · exact (congrArg MemoryStore.knowledge ht).trans (t.knowledge_observeWatermarks _ _)
  | bolt b =>
    obtain ⟨hok, rfl⟩ := Prod.ext_iff.mp h
    have hb : b.mergeSnapshotFrom S sourceOrigin now = (.ok (), (b.mergeSnapshotFrom S sourceOrigin now).2) :=
      Prod.ext hok rfl
    obtain ⟨t, hrun, -, ht⟩ := BoltStore.delivers_mergeSnapshot hs.toCounted hS.records hb
    refine ⟨BoltStore.sound_call (c := .mergeSnapshotFrom S sourceOrigin now) hs hS, rfl, t.knowledge, ?_, ?_⟩
    · exact hrun.map BoltStore.knowledge fun _ _ _ hr => hr.step
    · exact (congrArg BoltStore.knowledge ht).trans (t.knowledge_told _ _)

theorem mergeSnapshotFrom_ok (s : Store) {S : Snapshot} (hkeys : ∀ f ∈ S.facts, f.key ≠ "") (sourceOrigin : String)
    (now : Clocks) : ∃ s', s.mergeSnapshotFrom S sourceOrigin now = (.ok (), s') := by
  cases s with
  | memory m => exact ⟨_, Prod.ext (m.mergeSnapshotFrom_ok hkeys sourceOrigin now) rfl⟩
  | bolt b => exact ⟨_, Prod.ext (b.mergeSnapshotFrom_ok hkeys sourceOrigin now) rfl⟩

end Store

end Maistr0.Memory
