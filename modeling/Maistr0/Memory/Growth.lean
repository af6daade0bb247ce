import Maistr0.Memory.Writes

/-!
# What never goes back

Whatever a store is asked to do, with whatever arguments, its owner stays the same, the history of
assigned sequences is only added to, and no peer watermark goes down.
-/

namespace Maistr0.Memory

open Go List

variable [CaseFolding]

namespace MemoryStore

variable {s s' s'' : MemoryStore}

structure Keeps (s s' : MemoryStore) : Prop where
  origin_eq : s'.origin = s.origin
  assigned : s.assigned <+: s'.assigned
  peers_eq : s'.peerWatermarks = s.peerWatermarks

theorem Keeps.peerWatermarksOf_eq (h : Keeps s s') (peer : String) : s'.peerWatermarksOf peer = s.peerWatermarksOf peer := by
  unfold peerWatermarksOf
  rw [h.peers_eq]

theorem Writes.keeps {seen : Nat → Prop} (h : Writes seen (fun _ _ => False) s s') : Keeps s s' := by
  refine h.invariant (fun t t' ht hwrite => ?_) ⟨rfl, prefix_refl _, rfl⟩
  cases hwrite with
  | mint => exact ⟨ht.origin_eq, ht.assigned.trans (prefix_append _ _), ht.peers_eq⟩
  | @observe o q =>
    obtain ⟨_, _, hobs, -⟩ := t.observeRecordLocked_eq o q
    rw [hobs]
    exact ⟨ht.origin_eq, ht.assigned, ht.peers_eq⟩
  | note _ _ hw => exact hw.elim
  | _ => exact ⟨ht.origin_eq, ht.assigned, ht.peers_eq⟩

/-! ### What is known of peers -/

structure Grows (s s' : MemoryStore) : Prop where
  origin_eq : s'.origin = s.origin
  assigned : s.assigned <+: s'.assigned
  peers : ∀ peer o, (s.peerWatermarksOf peer).get o ≤ (s'.peerWatermarksOf peer).get o

theorem Keeps.grows (h : Keeps s s') : Grows s s' :=
  ⟨h.origin_eq, h.assigned, fun peer o => by rw [h.peerWatermarksOf_eq]⟩

theorem Grows.refl (s : MemoryStore) : Grows s s := ⟨rfl, prefix_refl _, fun _ _ => le_rfl⟩

theorem Grows.unwrapped (h : Grows s s') (hu : s'.Unwrapped) : s.Unwrapped :=
  fun entry hmem => hu entry (h.assigned.subset hmem)

variable (s)

theorem get_notePeer (peer : String) (w : Watermarks) (peer' o : String) :
    ((s.notePeer peer w).peerWatermarksOf peer').get o =
      if peer = peer' then max ((s.peerWatermarksOf peer').get o) (w.get o) else (s.peerWatermarksOf peer').get o := by
  change Lib.Clock.get (((Lib.Keyed.put s.peerWatermarks (peer, _)).get? peer').map Prod.snd |>.getD ∅) o = _
  rw [Lib.Keyed.get?_put]
  split
  · rename_i hsame
    subst peer'
    exact Lib.Clock.get_join _ _ _
  · rfl

theorem grows_notePeer (peer : String) (w : Watermarks) : Grows s (s.notePeer peer w) where
  origin_eq := rfl
  assigned := prefix_refl _
  peers peer' o := by
    rw [get_notePeer]
    split
    · exact le_max_left _ _
    · exact le_rfl

theorem setPeerWatermarks_eq (peer : String) (w : Watermarks) :
    (s.setPeerWatermarks peer w).2 = if trimSpace peer = "" then s else s.notePeer peer w := by
  unfold setPeerWatermarks
  split <;> rfl

theorem grows_setPeerWatermarks (peer : String) (w : Watermarks) : Grows s (s.setPeerWatermarks peer w).2 := by
  rw [setPeerWatermarks_eq]
  split
  · exact .refl s
  · exact grows_notePeer s peer w

theorem observeWatermarks_eq (w : Watermarks) (source : String) :
    ∃ t, Keeps s t ∧ s.observeWatermarks w source = t.notePeer source w := by
  obtain ⟨w', q, hobs, -⟩ := foldl_observe_eq w.vals s
  refine ⟨{ s with watermarks := w', sequences := q }, ⟨rfl, prefix_refl _, rfl⟩, ?_⟩
  unfold observeWatermarks
  simp only [hobs]
  rfl

theorem keeps_mergeSection (source : String) (now : Instant) {sec : MergeSection}
    (hsec : ∀ w, sec ≠ .watermarks w) : Keeps s (s.mergeSection source now sec).2 :=
  (s.writes_mergeSection (fun _ _ => trivial) (fun w hw => absurd hw (hsec w)) now : Writes (fun _ => True) _ _ _).keeps

theorem grows_mergeSection (source : String) (now : Instant) (sec : MergeSection) :
    Grows s (s.mergeSection source now sec).2 := by
  by_cases hsec : ∃ w, sec = .watermarks w
  · obtain ⟨w, rfl⟩ := hsec
    obtain ⟨t, hkeeps, heq⟩ := s.observeWatermarks_eq w source
    change Grows s (s.observeWatermarks w source)
    rw [heq]
    exact ⟨hkeeps.origin_eq, hkeeps.assigned, fun peer o => by
      rw [← hkeeps.peerWatermarksOf_eq]
      exact (t.grows_notePeer source w).peers peer o⟩
  · exact (s.keeps_mergeSection source now (not_exists.mp hsec)).grows

variable {s} in
theorem peerWatermarks_runSections_le {source : String} {secs : List MergeSection} {w : Watermarks}
    (hsecs : ∀ v, .watermarks v ∈ secs → v = w) (s : MemoryStore) (now : Clocks) (peer o : String) :
    ((s.runSections source secs now).2.peerWatermarksOf peer).get o ≤
      max ((s.peerWatermarksOf peer).get o) (w.get o) := by
  refine runSections_induct (P := fun t => (t.peerWatermarksOf peer).get o ≤
    max ((s.peerWatermarksOf peer).get o) (w.get o)) (fun t ht sec hmem now => ?_) (le_max_left _ _) now
  by_cases hsec : ∃ v, sec = .watermarks v
  · obtain ⟨v, rfl⟩ := hsec
    obtain rfl := hsecs v hmem
    obtain ⟨_, hkeeps, heq⟩ := t.observeWatermarks_eq v source
    change ((t.observeWatermarks v source).peerWatermarksOf peer).get o ≤ _
    rw [heq, get_notePeer, hkeeps.peerWatermarksOf_eq]
    split
    · exact max_le ht (le_max_right _ _)
    · exact ht
  · rwa [(t.keeps_mergeSection source now (not_exists.mp hsec)).peerWatermarksOf_eq]

theorem peerWatermarks_mergeSnapshotFrom_le (snapshot : Snapshot) (source : String) (now : Clocks)
    (peer o : String) : ((s.mergeSnapshotFrom snapshot source now).2.peerWatermarksOf peer).get o ≤
      max ((s.peerWatermarksOf peer).get o) (snapshot.watermarks.get o) := by
  refine peerWatermarks_runSections_le ?_ s now peer o
  intro v hv
  simpa [mergeSections] using hv

end MemoryStore

theorem LocalWrite.keeps (s : MemoryStore) (op : LocalWrite) : s.Keeps (op.apply s) :=
  (op.writes s : MemoryStore.Writes (fun _ => True) _ _ _).keeps

theorem LocalWrite.grows (s : MemoryStore) (op : LocalWrite) : s.Grows (op.apply s) := (op.keeps s).grows

end Maistr0.Memory
