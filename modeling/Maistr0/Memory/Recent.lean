import Maistr0.Lib.Guarded
import Maistr0.Memory.Caches
import Maistr0.Memory.History

/-!
# The cache of recent experiences

`boltStore` keeps its newest experiences in memory, newest first, and `Experiences` answers from there if it is asked for
no more of them than the cache may hold. `Open` loads the cache, `Record` and `MergeSnapshotFrom` insert what they have
committed, and `Prune` drops what it has deleted. It does not load again what the dropped ones had displaced.
-/

namespace Maistr0.Memory

open Go List Lib.Keyed

/-- The place in the cache is the one a binary search finds in a falling list. -/
def cacheRecentExperience (recent : List Experience) (e : Experience) : List Experience :=
  if e.id = 0 then recent
  else
    let newer := recent.takeWhile fun x => e.id < x.id
    match recent.dropWhile fun x => e.id < x.id with
    | [] => (newer ++ [e]).take recentExperienceCacheLimit
    | x :: older =>
      if x.id = e.id then newer ++ e :: older else (newer ++ e :: x :: older).take recentExperienceCacheLimit

variable [CaseFolding] {db : BoltStore}

namespace BoltStore

/-- What `mergeExperienceTx` returns: the experience it has filed, unless it was there before. -/
def insertedExperience (s : BoltStore) (e : Experience) (sourceOrigin : String) (now : Instant) : Option Experience :=
  if experienceFingerprint e ∈ s.fingerprints then none
  else (s.mergeExperienceTx e sourceOrigin now).experiences.get? (incr s.nextID)

def insertedExperiences (s : BoltStore) (sourceOrigin : String) : List Experience → Clocks → List Experience
  | [], _ => []
  | e :: es, now => (s.insertedExperience e sourceOrigin (now 0)).toList ++
      (s.mergeExperienceTx e sourceOrigin (now 0)).insertedExperiences sourceOrigin es fun n => now (n + 1)

end BoltStore

structure RecentStore where
  db : BoltStore
  recent : List Experience

namespace RecentStore

def loadRecentExperiences (db : BoltStore) : RecentStore :=
  { db, recent := db.snapshot.experiences.take recentExperienceCacheLimit }

def record (s : RecentStore) (e : Experience) (now : Instant) : RecentStore :=
  { db := (s.db.record e now).2, recent := cacheRecentExperience s.recent (s.db.record e now).1 }

def mergeSnapshotFrom (s : RecentStore) (snapshot : Snapshot) (sourceOrigin : String) (now : Clocks) : RecentStore :=
  match s.db.mergeSnapshotFrom snapshot sourceOrigin now with
  | (.error _, db) => { s with db }
  | (.ok _, db) =>
    { db
      recent := (s.db.insertedExperiences (MemoryStore.sourceOrLegacy sourceOrigin) snapshot.experiences now).foldl
        cacheRecentExperience s.recent }

def pruneRecentExperienceCache (recent : List Experience) (cutoff : Time) : List Experience :=
  recent.filter fun e => cutoff ≤ e.createdAt

def prune (s : RecentStore) (cutoff : Time) : RecentStore :=
  { db := (s.db.prune cutoff).2, recent := pruneRecentExperienceCache s.recent cutoff }

/-- `Experiences`, and below it what it would answer without the cache. -/
def experiences (s : RecentStore) (limit : Int) : List Experience :=
  let limit := (if limit ≤ 0 then 50 else limit).toNat
  if limit ≤ recentExperienceCacheLimit then s.recent.take limit else s.db.snapshot.experiences.take limit

def scanned (s : RecentStore) (limit : Int) : List Experience :=
  s.db.snapshot.experiences.take (if limit ≤ 0 then 50 else limit).toNat

end RecentStore

inductive RecentCall where
  | record (e : Experience) (now : Instant)
  | mergeSnapshotFrom (snapshot : Snapshot) (sourceOrigin : String) (now : Clocks)
  | prune (cutoff : Time)

def RecentStore.step (s : RecentStore) : RecentCall → RecentStore
  | .record e now => s.record e now
  | .mergeSnapshotFrom snapshot sourceOrigin now => s.mergeSnapshotFrom snapshot sourceOrigin now
  | .prune cutoff => s.prune cutoff

/-- No ID wraps around, and a prune that deletes one of the newest experiences deletes all that the cache does not hold. -/
def RecentCall.kept (s : RecentStore) : RecentCall → Bool
  | .record _ _ => s.db.nextID + 1 < 2 ^ 64
  | .mergeSnapshotFrom snapshot _ _ => s.db.nextID + snapshot.experiences.length < 2 ^ 64
  | .prune cutoff =>
    ((s.db.snapshot.experiences.take recentExperienceCacheLimit).all fun e => cutoff ≤ e.createdAt) ||
      (s.db.snapshot.experiences.drop recentExperienceCacheLimit).all fun e => e.createdAt < cutoff

/-! ### The listing -/

section Listing

variable {m : Lib.Keyed Experience.id} {e : Experience}

abbrev listing (m : Lib.Keyed Experience.id) : List Experience := m.vals.insertionSort fun a b => b.id ≤ a.id

omit [CaseFolding] in
theorem listing_put (h : ∀ x ∈ m.vals, x.id < e.id) : listing (m.put e) = e :: listing m := by
  have hvals : (m.put e).vals = e :: m.vals := by
    rw [vals_put, filter_eq_self.mpr fun x hx => by simpa using (h x hx).ne]
  rw [listing, hvals, insertionSort_cons]
  show (listing m).orderedInsert _ e = e :: listing m
  cases hsorted : listing m with
  | nil => rfl
  | cons y =>
    have hy : y ∈ m.vals := (mem_insertionSort _).mp (hsorted ▸ mem_cons_self)
    exact if_pos (h y hy).le

omit [CaseFolding] in
theorem listing_filter (m : Lib.Keyed Experience.id) (p : Experience → Bool) : listing (m.filter p) = (listing m).filter p := by
  have hperm : (listing (m.filter p)).Perm ((listing m).filter p) :=
    (perm_insertionSort _ _).trans ((perm_insertionSort _ _).symm.filter p)
  refine hperm.eq_of_pairwise (fun a b _ _ hab hba => absurd hab hba.asymm) (falling_insertionSort (m.filter p).nodup)
    ((falling_insertionSort m.nodup).filter p)

omit [CaseFolding] in
theorem cacheRecentExperience_eq {xs : List Experience} (he : e.id ≠ 0) (h : ∀ x ∈ xs, x.id < e.id) :
    cacheRecentExperience (xs.take recentExperienceCacheLimit) e = (e :: xs).take recentExperienceCacheLimit := by
  rw [cacheRecentExperience, if_neg he]
  cases xs with
  | nil => rfl
  | cons x =>
    have hx := h x mem_cons_self
    have hnot : ¬ e.id < x.id := hx.asymm
    simp [recentExperienceCacheLimit, hnot, hx.ne, take_take]

omit [CaseFolding] in
theorem filter_take_iff (xs : List Experience) (p : Experience → Bool) (n : Nat) :
    (xs.take n).filter p = (xs.filter p).take n ↔ (∀ x ∈ xs.take n, p x) ∨ ∀ x ∈ xs.drop n, ¬ p x := by
  have hsplit : xs.filter p = (xs.take n).filter p ++ (xs.drop n).filter p := by
    rw [← filter_append, take_append_drop]
  have hle : ((xs.take n).filter p).length ≤ n := (length_filter_le _ _).trans (length_take_le _ _)
  rw [hsplit, take_append, take_of_length_le hle, self_eq_append_right, take_eq_nil_iff, filter_eq_nil_iff]
  have hfilter := length_filter_le p (xs.take n)
  have htake := length_take_le n xs
  refine ⟨Or.imp_left fun hfull => length_filter_eq_length_iff.mp (by omega), fun h => ?_⟩
  rcases h with hall | hnone
  · rw [filter_eq_self.mpr hall, length_take]
    rcases Nat.le_total n xs.length with hlong | hshort
    · exact .inl (by omega)
    · exact .inr (by simp [drop_eq_nil_of_le hshort])
  · exact .inr hnone

end Listing

namespace RecentStore

structure Fresh (s : RecentStore) : Prop where
  recent : s.recent = (listing s.db.experiences).take recentExperienceCacheLimit
  ids : ∀ e ∈ s.db.experiences.vals, e.id ≤ s.db.nextID

theorem Fresh.insert {s : RecentStore} (h : s.Fresh) (hroom : s.db.nextID + 1 < 2 ^ 64) {e : Experience} (he : e.id = incr s.db.nextID)
    (hdb : db.experiences = s.db.experiences.put e) (hid : db.nextID = incr s.db.nextID) :
    Fresh ⟨db, cacheRecentExperience s.recent e⟩ := by
  rw [incr_of_lt hroom] at he hid
  have hlt : ∀ x ∈ s.db.experiences.vals, x.id < e.id := fun x hx => by have := h.ids x hx; omega
  refine ⟨?_, ?_⟩
  · simp only [hdb, listing_put hlt, h.recent]
    exact cacheRecentExperience_eq (by omega) fun x hx => hlt x ((mem_insertionSort _).mp hx)
  · simp only [hdb, hid]
    exact forall_mem_put (fun x hx => (h.ids x hx).trans (Nat.le_succ _)) he.le

end RecentStore

/-! ### Merges -/

namespace BoltStore

def numbering (s : BoltStore) : Nat × Lib.Keyed Experience.id := (s.nextID, s.experiences)

theorem numbering_observe (s : BoltStore) (o : String) (n : Nat) : (s.updateRecordWatermark o n).numbering = s.numbering := by
  unfold updateRecordWatermark
  split <;> rfl

theorem Writes.numbering {s t : BoltStore} (h : Writes (fun _ => True) False True s t) : t.numbering = s.numbering := by
  refine h.invariant (P := fun t => t.numbering = s.numbering) (fun t t' ht hwrite => ?_) rfl
  cases hwrite with
  | @observe o q => exact (t.numbering_observe o q).trans ht
  | experience h | forget h => cases h
  | _ => exact ht

theorem numbering_mergeSnapshot (s : BoltStore) (S : Snapshot) (sourceOrigin : String) (now : Clocks) :
    (∃ err, s.mergeSnapshotFrom S sourceOrigin now = (.error err, s)) ∨
      ∃ s', s.mergeSnapshotFrom S sourceOrigin now = (.ok (), s') ∧
        s'.numbering = (s.mergeExperiencesTx (MemoryStore.sourceOrLegacy sourceOrigin) S.experiences now).numbering := by
  set source := MemoryStore.sourceOrLegacy sourceOrigin
  have hdialogues : ∀ t : BoltStore, ∃ t', t.runTransactions source now [.dialogues S.dialogues S.watermarks] = (.ok (), t') ∧
      t'.numbering = t.numbering := by
    refine fun t => ⟨_, rfl, Writes.numbering ?_⟩
    refine Relation.ReflTransGen.tail ?_ (.note source S.watermarks trivial)
    exact (t.writes_mergeDialogues (fun _ _ => trivial) source).trans (writes_updateWatermarks _ fun _ _ => trivial)
  have hlater : ∀ t : BoltStore, ∃ t', t.runTransactions source now ((if S.performances = [] then [] else
      [.performances S.performances]) ++ [.dialogues S.dialogues S.watermarks]) = (.ok (), t') ∧ t'.numbering = t.numbering := by
    intro t
    split
    · exact hdialogues t
    · obtain ⟨t', hrun, ht'⟩ := hdialogues (t.mergePerformancesFrom S.performances source)
      exact ⟨t', hrun, ht'.trans (t.writes_mergePerformances (fun _ _ => trivial) source).numbering⟩
  show (∃ err, s.runTransactions source now (mergeTransactions S) = (.error err, s)) ∨
    ∃ s', s.runTransactions source now (mergeTransactions S) = (.ok (), s') ∧ _
  rw [mergeTransactions, append_assoc]
  split
  · rename_i hnone
    obtain ⟨t, hrun, ht⟩ := hlater s
    exact .inr ⟨t, hrun, by rw [hnone.1]; exact ht⟩
  rw [singleton_append, runTransactions, mergeTransaction, transact]
  cases hfacts : (s.mergeExperiencesTx source S.experiences now).mergeFactsTx source S.facts fun n =>
    now (S.experiences.length + n) with
  | error err => exact .inl ⟨err, rfl⟩
  | ok t =>
    obtain ⟨t', hrun, ht'⟩ := hlater t
    exact .inr ⟨t', hrun, ht'.trans (writes_mergeFacts (fun _ _ => trivial) hfacts).numbering⟩

theorem mergeExperienceTx_cases (s : BoltStore) (e : Experience) (source : String) (now : Instant) :
    (s.insertedExperience e source now = none ∧ (s.mergeExperienceTx e source now).numbering = s.numbering) ∨
      ∃ x, x.id = incr s.nextID ∧ s.insertedExperience e source now = some x ∧
        (s.mergeExperienceTx e source now).numbering = (incr s.nextID, s.experiences.put x) := by
  obtain ⟨hid, hes⟩ := Prod.mk.inj (s.numbering_observe e.origin e.sequence)
  have hknown : (s.updateRecordWatermark e.origin e.sequence).fingerprints = s.fingerprints := by
    unfold updateRecordWatermark
    split <;> rfl
  by_cases hold : experienceFingerprint e ∈ s.fingerprints
  · refine .inl ⟨if_pos hold, ?_⟩
    rw [mergeExperienceTx, if_pos (hknown ▸ hold)]
    exact s.numbering_observe _ _
  have hput : ∃ x, x.id = incr s.nextID ∧ (s.mergeExperienceTx e source now).numbering =
      (incr s.nextID, s.experiences.put x) := by
    rw [mergeExperienceTx, if_neg (hknown ▸ hold)]
    by_cases hstamp : Unstamped e.origin e.sequence
    · simp only [if_pos hstamp]
      exact ⟨_, congrArg incr hid, Prod.ext (congrArg incr hid) (congrArg (put · _) hes)⟩
    · simp only [if_neg hstamp]
      exact ⟨_, congrArg incr hid, Prod.ext (congrArg incr hid) (congrArg (put · _) hes)⟩
  obtain ⟨x, hx, hnumbering⟩ := hput
  refine .inr ⟨x, hx, ?_, hnumbering⟩
  rw [insertedExperience, if_neg hold, (Prod.mk.inj hnumbering).2, get?_put, if_pos hx]

end BoltStore

namespace RecentStore

variable {s : RecentStore}

theorem Fresh.of_numbering (h : s.Fresh) (hdb : db.numbering = s.db.numbering) : Fresh ⟨db, s.recent⟩ := by
  obtain ⟨hid, hes⟩ := Prod.mk.inj hdb
  exact ⟨hes ▸ h.recent, by simp only [hid, hes]; exact h.ids⟩

theorem Fresh.mergeExperiences {source : String} {es : List Experience} {now : Clocks} (h : s.Fresh)
    (hroom : s.db.nextID + es.length < 2 ^ 64)
    (hdb : db.numbering = (s.db.mergeExperiencesTx source es now).numbering) :
    Fresh ⟨db, (s.db.insertedExperiences source es now).foldl cacheRecentExperience s.recent⟩ := by
  induction es generalizing s now with
  | nil => exact h.of_numbering hdb
  | cons e _ ih =>
    rw [length_cons] at hroom
    have hone : Fresh ⟨s.db.mergeExperienceTx e source (now 0),
        (s.db.insertedExperience e source (now 0)).toList.foldl cacheRecentExperience s.recent⟩ ∧
        (s.db.mergeExperienceTx e source (now 0)).nextID ≤ s.db.nextID + 1 := by
      rcases s.db.mergeExperienceTx_cases e source (now 0) with ⟨hnone, hsame⟩ | ⟨x, hx, hsome, hnumbering⟩
      · rw [hnone]
        exact ⟨h.of_numbering hsame, (congrArg Prod.fst hsame).le.trans (Nat.le_succ _)⟩
      rw [hsome]
      refine ⟨h.insert (by omega) hx (congrArg Prod.snd hnumbering) (congrArg Prod.fst hnumbering), ?_⟩
      exact ((congrArg Prod.fst hnumbering).trans (incr_of_lt (by omega))).le
    rw [BoltStore.insertedExperiences, foldl_append]
    exact ih hone.1 (by have := hone.2; show (s.db.mergeExperienceTx e source (now 0)).nextID + _ < _; omega) hdb

/-- The experiences that a prune leaves in the cache are the newest ones exactly if it deletes none of the newest, or all
that the cache does not hold. -/
theorem Fresh.prune_iff (h : s.Fresh) (cutoff : Time) :
    (s.prune cutoff).Fresh ↔ RecentCall.kept s (.prune cutoff) = true := by
  have hlist : listing (s.db.prune cutoff).2.experiences = (listing s.db.experiences).filter fun e => cutoff ≤ e.createdAt :=
    listing_filter _ _
  have hids : ∀ e ∈ (s.db.prune cutoff).2.experiences.vals, e.id ≤ s.db.nextID :=
    fun e he => h.ids e (mem_of_mem_filter he)
  have hfresh : (s.prune cutoff).Fresh ↔ s.recent.filter (fun e => cutoff ≤ e.createdAt) =
      ((listing s.db.experiences).filter fun e => cutoff ≤ e.createdAt).take recentExperienceCacheLimit :=
    ⟨fun hp => hp.recent.trans (congrArg _ hlist), fun hp => ⟨hp.trans (congrArg _ hlist.symm), hids⟩⟩
  rw [hfresh, h.recent, RecentCall.kept]
  rw [filter_take_iff]
  simp only [Bool.or_eq_true, all_eq_true, decide_eq_true_eq, not_le]
  rfl

theorem Fresh.step (h : s.Fresh) {c : RecentCall} (hc : c.kept s = true) : (s.step c).Fresh := by
  cases c with
  | record =>
    refine h.insert (of_decide_eq_true hc) rfl ?_ ?_
    · simp only [BoltStore.record]
      split <;> rfl
    · simp only [BoltStore.record]
      split <;> rfl
  | mergeSnapshotFrom S sourceOrigin now =>
    rw [RecentStore.step, mergeSnapshotFrom]
    rcases s.db.numbering_mergeSnapshot S sourceOrigin now with ⟨err, hmerge⟩ | ⟨db, hmerge, hdb⟩
    · rw [hmerge]
      exact h
    · rw [hmerge]
      exact h.mergeExperiences (of_decide_eq_true hc) hdb
  | prune cutoff => exact (h.prune_iff cutoff).mpr hc

theorem Fresh.agrees (h : s.Fresh) (limit : Int) : s.experiences limit = s.scanned limit := by
  simp only [experiences, scanned]
  generalize (if limit ≤ 0 then 50 else limit).toNat = n
  split
  · rename_i hle
    rw [h.recent, take_take, min_eq_left hle]
    rfl
  · rfl

end RecentStore

end Maistr0.Memory

namespace Maistr0.Memory

def newestIsOld : List RecentCall :=
  List.replicate 128 (.record { createdAt := 9 } ⟨9, by decide⟩) ++ [.record { createdAt := 1 } ⟨9, by decide⟩]

end Maistr0.Memory
