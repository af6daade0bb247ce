import Maistr0.Memory.Growth
import Maistr0.Memory.Pages

/-!
# A cluster of in-memory stores

Any number of stores with distinct owners, started empty. A store may write, note what a peer has,
send a snapshot of itself or a page of one, and take in anything that was ever sent, in any order and
any number of times. `MergeSnapshotFrom` gives up the lock between sections, so the merges running at
a store are kept as the sections they still have to do, and everything else may happen in between.

Snapshots list their records in an order that Go leaves open, so a snapshot is sent in any order.
-/

namespace Maistr0.Memory

open Go Relation List Function

/-- The same records and watermarks, each kind listed in any order. -/
structure Snapshot.Reorders (a b : Snapshot) : Prop where
  experiences : a.experiences.Perm b.experiences
  facts : a.facts.Perm b.facts
  performances : a.performances.Perm b.performances
  dialogues : a.dialogues.Perm b.dialogues
  watermarks : a.watermarks = b.watermarks

theorem Snapshot.Reorders.records {a b : Snapshot} (h : a.Reorders b) : a.records.Perm b.records :=
  (((h.experiences.map _).append (h.facts.map _)).append (h.performances.map _)).append (h.dialogues.map _)

variable [CaseFolding]

inductive MemoryStore.Sends (s : MemoryStore) : Snapshot → Prop
  | full {snapshot : Snapshot} (h : snapshot.Reorders s.snapshot) : Sends s snapshot
  | since {snapshot : Snapshot} (h : snapshot.Reorders s.snapshot) (w : Watermarks) : Sends s (snapshotSince snapshot w)
  | page {snapshot : Snapshot} (h : Sends s snapshot) (encoding : Encoding) (cursor upper : Watermarks)
      (maxBytes : Int) (envelopeBytes : Nat) {page : Page}
      (hpage : pageSnapshot encoding snapshot cursor upper maxBytes envelopeBytes = .ok page) : Sends s page.snapshot

theorem MemoryStore.Sends.mem_records {s : MemoryStore} {snapshot : Snapshot} (h : s.Sends snapshot) {r : Record}
    (hr : r ∈ snapshot.records) : r ∈ s.records := by
  induction h with
  | full h => exact s.snapshot_records.mem_iff.mp (h.records.mem_iff.mp hr)
  | since h =>
    rw [snapshotSince_records] at hr
    exact s.snapshot_records.mem_iff.mp (h.records.mem_iff.mp (mem_of_mem_filter hr))
  | page _ _ _ _ _ _ hpage ih => exact ih (mem_of_pageSnapshot hpage hr)

structure RunningMerge where
  sourceOrigin : String
  sections : List MergeSection

def RunningMerge.after (sourceOrigin : String) (rest : List MergeSection) : Except String Unit → List RunningMerge
  | .ok _ => [⟨sourceOrigin, rest⟩]
  | .error _ => []

structure ClusterState (ι : Type) where
  stores : ι → MemoryStore
  sent : Set Snapshot
  running : ι → List RunningMerge

variable {ι : Type} [DecidableEq ι]

namespace ClusterState

def start (owner : ι → String) : ClusterState ι where
  stores i := newInMemoryStore (owner i)
  sent := ∅
  running _ := []

def setStore (c : ClusterState ι) (i : ι) (s : MemoryStore) : ClusterState ι :=
  { c with stores := Function.update c.stores i s }

def setRunning (c : ClusterState ι) (i : ι) (merges : List RunningMerge) : ClusterState ι :=
  { c with running := Function.update c.running i merges }

inductive Step (c : ClusterState ι) : ClusterState ι → Prop
  | write (i : ι) (op : LocalWrite) : Step c (c.setStore i (op.apply (c.stores i)))
  | notePeer (i : ι) (peer : String) (w : Watermarks) :
      Step c (c.setStore i ((c.stores i).setPeerWatermarks peer w).2)
  | send (i : ι) {snapshot : Snapshot} (h : (c.stores i).Sends snapshot) :
      Step c { c with sent := insert snapshot c.sent }
  | startMerge (i : ι) {snapshot : Snapshot} (h : snapshot ∈ c.sent) (sourceOrigin : String) :
      Step c (c.setRunning i (⟨MemoryStore.sourceOrLegacy sourceOrigin, mergeSections snapshot⟩ :: c.running i))
  | mergeSection (i : ι) {before after : List RunningMerge} {sourceOrigin : String} {sec : MergeSection}
      {rest : List MergeSection} (h : c.running i = before ++ ⟨sourceOrigin, sec :: rest⟩ :: after) (now : Instant) :
      Step c ((c.setStore i ((c.stores i).mergeSection sourceOrigin now sec).2).setRunning i
        (before ++ RunningMerge.after sourceOrigin rest ((c.stores i).mergeSection sourceOrigin now sec).1 ++ after))

theorem Step.grows {c c' : ClusterState ι} (h : Step c c') (i : ι) : (c.stores i).Grows (c'.stores i) := by
  have hset : ∀ (j : ι) (s : MemoryStore), (c.stores j).Grows s → (c.stores i).Grows ((c.setStore j s).stores i) := by
    intro j s hs
    by_cases hij : i = j
    · subst hij
      simpa [setStore] using hs
    · simpa [setStore, update_of_ne hij] using MemoryStore.Grows.refl (c.stores i)
  cases h with
  | write j op => exact hset j _ (op.grows (c.stores j))
  | notePeer j peer w => exact hset j _ ((c.stores j).grows_setPeerWatermarks peer w)
  | send | startMerge => exact MemoryStore.Grows.refl _
  | mergeSection j _ now => exact hset j _ ((c.stores j).grows_mergeSection _ now _)

structure Simulates (owner : ι → String) (c : ClusterState ι) (fleet : Lib.Fleet ι String Record) : Prop where
  coherent : fleet.Coherent Record.labels owner
  view : ∀ i, fleet.replica i = (c.stores i).view
  valid : ∀ i, (c.stores i).Valid
  sent : ∀ snapshot ∈ c.sent, ∀ r ∈ snapshot.records, r ∈ fleet.seen ∧ r.WellFormed
  running : ∀ i, ∀ m ∈ c.running i, ∀ sec ∈ m.sections, ∀ r ∈ sec.records, r ∈ fleet.seen ∧ r.WellFormed

omit [DecidableEq ι] in
theorem simulates_start {owner : ι → String} (hne : ∀ i, owner i ≠ "") :
    (start owner).Simulates owner ⟨fun i => (newInMemoryStore (owner i)).view, ∅⟩ where
  coherent := .empty (fun _ => rfl) rfl fun _ => rfl
  view _ := rfl
  valid i := ⟨hne i, fun _ hr => absurd hr not_mem_nil, fun _ he => absurd he not_mem_nil⟩
  sent _ h := absurd h (Set.notMem_empty _)
  running _ _ hm := absurd hm not_mem_nil

variable {owner : ι → String} {c c' : ClusterState ι} {fleet : Lib.Fleet ι String Record}

/-- A store moves by replica steps on records in circulation, and the rest of the cluster stands still. -/
theorem Simulates.setStore (hinj : Injective owner) (hc : c.Simulates owner fleet) {i : ι} {s : MemoryStore}
    (h : (c.stores i).Refines fleet.seen s) :
    ∃ fleet', (c.setStore i s).Simulates owner fleet' ∧ fleet.seen ⊆ fleet'.seen := by
  have hsteps := h.steps
  rw [← hc.view i] at hsteps
  obtain ⟨fleet', hcoherent, hreplica, hseen⟩ := hc.coherent.run hinj hsteps
  refine ⟨fleet', ⟨hcoherent, fun j => ?_, fun j => ?_, ?_, ?_⟩, hseen⟩
  · rw [hreplica]
    by_cases hij : j = i
    · subst hij
      simp [ClusterState.setStore]
    · simpa [ClusterState.setStore, update_of_ne hij] using hc.view j
  · by_cases hij : j = i
    · subst hij
      simpa [ClusterState.setStore] using h.valid
    · simpa [ClusterState.setStore, update_of_ne hij] using hc.valid j
  · exact fun snapshot hsnap r hr => (hc.sent snapshot hsnap r hr).imp_left (@hseen r)
  · exact fun j m hm sec hsec r hr => (hc.running j m hm sec hsec r hr).imp_left (@hseen r)

section

variable (hc : c.Simulates owner fleet)

include hc

omit [DecidableEq ι] in
theorem Simulates.mem_seen {i : ι} {r : Record} (hr : r ∈ (c.stores i).records) : r ∈ fleet.seen := by
  refine hc.coherent.held_seen i r ?_
  rw [hc.view i]
  exact hr

theorem Simulates.setRunning {i : ι} {merges : List RunningMerge}
    (h : ∀ m ∈ merges, ∀ sec ∈ m.sections, ∀ r ∈ sec.records, r ∈ fleet.seen ∧ r.WellFormed) :
    (c.setRunning i merges).Simulates owner fleet := by
  refine ⟨hc.coherent, hc.view, hc.valid, hc.sent, fun j m hm => ?_⟩
  change m ∈ update c.running i merges j at hm
  by_cases hij : j = i
  · subst hij
    rw [update_self] at hm
    exact h m hm
  · rw [update_of_ne hij] at hm
    exact hc.running j m hm

omit [DecidableEq ι] in
theorem Simulates.refines_refl (i : ι) : (c.stores i).Refines fleet.seen (c.stores i) :=
  ⟨.refl, hc.valid i⟩

theorem Simulates.refines (h : Step c c') (hu : ∀ i, (c'.stores i).Unwrapped) (i : ι) :
    (c.stores i).Refines fleet.seen (c'.stores i) := by
  have hset : ∀ (j : ι) (s : MemoryStore), c'.stores = update c.stores j s →
      (s.Unwrapped → (c.stores j).Refines fleet.seen s) → (c.stores i).Refines fleet.seen (c'.stores i) := by
    intro j s heq hs
    have hunwrapped : s.Unwrapped := by
      have hj := hu j
      rwa [heq, update_self] at hj
    rw [heq]
    by_cases hij : i = j
    · subst hij
      rw [update_self]
      exact hs hunwrapped
    · rw [update_of_ne hij]
      exact hc.refines_refl i
  cases h with
  | write j op => exact hset j _ rfl fun hs => (op.refines (hc.valid j) hs).mono (Set.empty_subset _)
  | notePeer j => exact hset j _ rfl fun _ => MemoryStore.refines_setPeerWatermarks (hc.valid j)
  | send | startMerge => exact hc.refines_refl i
  | @mergeSection j before after source sec rest hrun now =>
    have hmem : (⟨source, sec :: rest⟩ : RunningMerge) ∈ c.running j := by
      rw [hrun]
      exact mem_append_right _ mem_cons_self
    have hsec := hc.running j _ hmem sec mem_cons_self
    exact hset j _ rfl fun hs => MemoryStore.refines_mergeSection (hc.valid j) (fun r hr => (hsec r hr).2)
      (fun r hr => (hsec r hr).1) hs

end

theorem Simulates.step (hinj : Injective owner) (hc : c.Simulates owner fleet) (h : Step c c')
    (hu : ∀ i, (c'.stores i).Unwrapped) : ∃ fleet', c'.Simulates owner fleet' := by
  have hrefines := hc.refines h hu
  cases h with
  | write i | notePeer i =>
    have hi := hrefines i
    simp only [ClusterState.setStore, update_self] at hi
    obtain ⟨fleet', hsim, -⟩ := hc.setStore hinj hi
    exact ⟨fleet', hsim⟩
  | send i hsends =>
    refine ⟨fleet, hc.coherent, hc.view, hc.valid, fun snapshot hsnap r hr => ?_, hc.running⟩
    rcases Set.mem_insert_iff.mp hsnap with rfl | hold
    · have hmem := hsends.mem_records hr
      exact ⟨hc.mem_seen hmem, (hc.valid i).wellFormed r hmem⟩
    · exact hc.sent snapshot hold r hr
  | startMerge i hsent =>
    refine ⟨fleet, hc.setRunning fun m hm sec hsec r hr => ?_⟩
    rcases mem_cons.mp hm with rfl | hold
    · exact hc.sent _ hsent r (records_mergeSections hsec hr)
    · exact hc.running i m hold sec hsec r hr
  | @mergeSection i before after source sec rest hrun now =>
    have hi := hrefines i
    simp only [ClusterState.setStore, ClusterState.setRunning, update_self] at hi
    obtain ⟨fleet', hsim, hseen⟩ := hc.setStore hinj hi
    refine ⟨fleet', hsim.setRunning fun m hm sec' hsec' r hr => ?_⟩
    have hold : ∃ m' ∈ c.running i, sec' ∈ m'.sections := by
      rw [hrun]
      rcases mem_append.mp hm with hm | hafter
      · rcases mem_append.mp hm with hbefore | hmid
        · exact ⟨m, mem_append_left _ hbefore, hsec'⟩
        have hm' : m = ⟨source, rest⟩ := by
          unfold RunningMerge.after at hmid
          split at hmid
          · exact mem_singleton.mp hmid
          · cases hmid
        subst hm'
        exact ⟨_, mem_append_right _ mem_cons_self, mem_cons_of_mem _ hsec'⟩
      · exact ⟨m, mem_append_right _ (mem_cons_of_mem _ hafter), hsec'⟩
    obtain ⟨m', hm', hsec''⟩ := hold
    exact (hc.running i m' hm' sec' hsec'' r hr).imp_left (@hseen r)

theorem Step.unwrapped (h : Step c c') (hu : ∀ i, (c'.stores i).Unwrapped) (i : ι) : (c.stores i).Unwrapped :=
  (h.grows i).unwrapped (hu i)

theorem simulates_of_run (hinj : Injective owner) (hne : ∀ i, owner i ≠ "")
    (hrun : ReflTransGen Step (start owner) c) (hu : ∀ i, (c.stores i).Unwrapped) :
    ∃ fleet, c.Simulates owner fleet := by
  induction hrun with
  | refl => exact ⟨_, simulates_start hne⟩
  | tail _ hstep ih =>
    obtain ⟨_, hsim⟩ := ih (hstep.unwrapped hu)
    exact hsim.step hinj hstep hu

end ClusterState

end Maistr0.Memory

namespace Maistr0.Memory.ClusterState

open Relation

def twoOwners : Bool → String
  | true => "left"
  | false => "right"

def afterOneFact : ClusterState Bool :=
  (start twoOwners).setStore true
    (LocalWrite.apply (newInMemoryStore "left") (.putFact { key := "capital", value := "Paris" } ⟨1, Int.one_ne_zero⟩))

theorem twoOwners_injective : Function.Injective twoOwners := by
  intro a b
  cases a <;> cases b <;> simp [twoOwners]

theorem run_afterOneFact : ReflTransGen Step (start twoOwners) afterOneFact :=
  .single (.write true (.putFact { key := "capital", value := "Paris" } ⟨1, by decide⟩))

theorem unwrapped_afterOneFact (i : Bool) : (afterOneFact.stores i).Unwrapped := by
  cases i <;> unfold MemoryStore.Unwrapped <;> decide

end Maistr0.Memory.ClusterState
