import Maistr0.Memory.Caches
import Maistr0.Memory.Commits

/-!
# The caches are coherent

Each cache of `CachedStore` on its own is a guarded cache: a write either still has to come past it or did
not change what it holds. So a valid snapshot or watermark cache is what is committed whenever no write is
between its commit and its invalidation, and no read goes back behind a write that was done before. The
caches of the peers are different, because writers put values there themselves: they go back when two
writers come to the cache in the order opposite to their commits.
-/

namespace Maistr0.Memory

open Go Lib.GuardedCache Function Cache

/-! ### One cache on its own -/

def Cache.task : (k : Cache) → Activity → Lib.GuardedCache.Task k.Value
  | _, .idle => .idle
  | .snapshot, .invalidating v _ _ => .invalidating v
  | .watermarks, .invalidating v .watermarks _ => .invalidating v
  | .watermarks, .invalidating _ .snapshot _ => .idle
  | .peer _, .invalidating _ _ none => .idle
  | .peer name, .invalidating v _ (some (written, merged)) => if written = name then .publishing ⟨v, merged⟩ else .idle
  | .peer name, .caching v written merged => if written = name then .publishing ⟨v, merged⟩ else .idle
  | .snapshot, .caching _ _ _ => .idle
  | .watermarks, .caching _ _ _ => .idle
  | k, .reading k' since generation => if k' = k then .reading since generation else .idle
  | k, .viewed k' since generation seen => if h : k' = k then .viewed since generation (h ▸ seen) else .idle

@[simp] theorem Cache.task_idle (k : Cache) : k.task .idle = .idle := by cases k <;> rfl

@[simp] theorem Cache.task_reading (k k' : Cache) (since generation : Nat) :
    k.task (.reading k' since generation) = if k' = k then .reading since generation else .idle := by
  cases k <;> rfl

@[simp] theorem Cache.task_viewed (k : Cache) (since generation : Nat) (seen : Seen k.Value) :
    k.task (.viewed k since generation seen) = .viewed since generation seen := by
  cases k <;> simp [task]

theorem Cache.task_viewed_of_ne {k k' : Cache} (h : k' ≠ k) (since generation : Nat) (seen : Seen k'.Value) :
    k.task (.viewed k' since generation seen) = .idle := by
  cases k <;> simp [task, h]

section

variable [CaseFolding]

/-! ### Which writes leave the watermarks of peers alone -/

namespace BoltStore

def SamePeers (s s' : BoltStore) : Prop := s'.peerWatermarks = s.peerWatermarks

variable {s : BoltStore}

theorem Writes.samePeers {t : BoltStore} (h : Writes (fun _ => True) True False s t) : SamePeers s t := by
  refine h.invariant (fun t t' ht hwrite => ?_) rfl
  cases hwrite with
  | @observe o q =>
    unfold SamePeers updateRecordWatermark
    split <;> exact ht
  | note _ _ h => cases h
  | _ => exact ht

theorem samePeers_call (s : BoltStore) {c : Call} (hc : ¬ c.Notes) : SamePeers s (c.onBolt s).2 :=
  (s.writes_call (fun _ _ _ _ => trivial) (fun _ _ _ _ => ⟨fun _ _ => trivial, fun _ _ => trivial⟩) hc).samePeers

theorem SamePeers.peerWatermarksOf {s' : BoltStore} (h : SamePeers s s') (peer : String) :
    s'.peerWatermarksOf peer = s.peerWatermarksOf peer := by
  unfold BoltStore.peerWatermarksOf
  rw [h]

theorem peerWatermarksOf_mergePeer {t : BoltStore} (ht : SamePeers s t) {peer : String} (hpeer : peer ≠ "") (w : Watermarks)
    (other : String) :
    (t.mergePeerWatermarksTx peer w).peerWatermarksOf other =
      if other = peer then mergeWatermarks (s.peerWatermarksOf peer) w else s.peerWatermarksOf other := by
  rw [← ht.peerWatermarksOf peer, ← ht.peerWatermarksOf other]
  unfold mergePeerWatermarksTx peerWatermarksOf
  simp only [Lib.Keyed.get?_put]
  by_cases hother : other = peer
  · subst hother
    simp [hpeer]
  · rw [if_neg (Ne.symm hother), if_neg hother]

end BoltStore

inductive Committed (s db : BoltStore) : (Nat → Activity) → Prop
  | everything (hpeers : s.SamePeers db) : Committed s db fun v => .invalidating v .watermarks none
  | records (hpeers : s.SamePeers db) (hwatermarks : db.watermarks = s.watermarks) :
      Committed s db fun v => .invalidating v .snapshot none
  | peer (peer : String) (w : Watermarks) (hpeer : peer ≠ "") (hdb : db = s.mergePeerWatermarksTx peer w) :
      Committed s db fun v => .caching v peer (db.peerWatermarksOf peer)
  | all (t : BoltStore) (ht : s.SamePeers t) (peer : String) (w : Watermarks) (hpeer : peer ≠ "")
      (hdb : db = t.mergePeerWatermarksTx peer w) :
      Committed s db fun v => .invalidating v .watermarks (some (peer, db.peerWatermarksOf peer))

variable {s db : BoltStore} {next : Nat → Activity}

theorem Write.committed_afterCall {α : Type} {result : Except String α × BoltStore}
    (h : afterCall result = some (db, next)) (hpeers : s.SamePeers result.2) :
    Committed s db next := by
  obtain ⟨outcome, _⟩ := result
  cases outcome with
  | error => cases h
  | ok =>
    cases h
    exact .everything hpeers

theorem Write.committed {w : Write} (h : w.commit s = some (db, next)) : Committed s db next := by
  cases w with
  | record e now =>
    cases h
    exact .everything (s.samePeers_call (c := .record e now) id)
  | putFact f now => exact committed_afterCall h (s.samePeers_call (c := .putFact f now) id)
  | getFact scope key => exact committed_afterCall h (s.samePeers_call (c := .getFact scope key) id)
  | deleteFact | prune =>
    cases h
    exact .records rfl rfl
  | saveDialogue d now => exact committed_afterCall h (s.samePeers_call (c := .saveDialogue d now) id)
  | appendDialogueTurns id participants topic turns now =>
    rw [commit] at h
    split at h
    · cases h
    · exact committed_afterCall h (s.samePeers_call (c := .appendDialogueTurns id participants topic turns now) fun h => h)
  | setPeerWatermarks peer w =>
    rw [commit, BoltStore.setPeerWatermarks] at h
    by_cases hblank : trimSpace peer = ""
    · simp only [if_pos hblank] at h
      cases h
    simp only [if_neg hblank] at h
    cases h
    refine .peer peer w ?_ rfl
    rintro rfl
    exact hblank (by decide)
  | mergePerformances ps =>
    rw [commit] at h
    split at h
    · cases h
    · cases h
      exact .everything (s.samePeers_call (c := .mergePerformances ps) id)
  | merge sourceOrigin now tx =>
    have hsource : (if sourceOrigin = "" then legacyOrigin else sourceOrigin) ≠ "" := by
      split
      · decide
      · assumption
    simp only [commit] at h
    generalize (if sourceOrigin = "" then legacyOrigin else sourceOrigin) = source at h hsource
    cases htx : s.transact source now tx with
    | error =>
      rw [htx] at h
      cases h
    | ok =>
      rw [htx] at h
      have hwrites : ∀ {db}, s.transact source now tx = .ok db → (∀ ds w, tx ≠ .dialogues ds w) → s.SamePeers db :=
        fun htx htx' => (BoltStore.writes_transact (fun _ _ => trivial) (fun ds w h => absurd h (htx' ds w)) htx).samePeers
      cases tx with
      | learned | performances =>
        cases h
        exact .everything (hwrites htx nofun)
      | dialogues ds w =>
        cases h
        cases htx
        refine .all _ (BoltStore.Writes.samePeers ?_) source w hsource rfl
        exact (s.writes_mergeDialogues (fun _ _ => trivial) source).trans (BoltStore.writes_updateWatermarks _ fun _ _ => trivial)

theorem Committed.task (h : Committed s db next) (k : Cache) (v : Nat) :
    (k.task (next v) = .invalidating v ∨ k.task (next v) = .publishing ⟨v, k.view db⟩) ∨
      k.task (next v) = .idle ∧ k.view db = k.view s := by
  cases h with
  | everything hpeers =>
    cases k with
    | snapshot | watermarks => exact .inl (.inl rfl)
    | peer name => exact .inr ⟨rfl, hpeers.peerWatermarksOf name⟩
  | records hpeers hwatermarks =>
    cases k with
    | snapshot => exact .inl (.inl rfl)
    | watermarks => exact .inr ⟨rfl, hwatermarks⟩
    | peer name => exact .inr ⟨rfl, hpeers.peerWatermarksOf name⟩
  | peer peer w hpeer hdb =>
    subst hdb
    cases k with
    | snapshot | watermarks => exact .inr ⟨rfl, rfl⟩
    | peer name =>
      by_cases hname : peer = name
      · subst hname
        exact .inl (.inr (if_pos rfl))
      · refine .inr ⟨if_neg hname, ?_⟩
        exact (BoltStore.peerWatermarksOf_mergePeer rfl hpeer w name).trans (if_neg (Ne.symm hname))
  | all _ ht peer w hpeer hdb =>
    subst hdb
    cases k with
    | snapshot | watermarks => exact .inl (.inl rfl)
    | peer name =>
      by_cases hname : peer = name
      · subst hname
        exact .inl (.inr (if_pos rfl))
      · refine .inr ⟨if_neg hname, ?_⟩
        exact (BoltStore.peerWatermarksOf_mergePeer ht hpeer w name).trans (if_neg (Ne.symm hname))

theorem Committed.peerWatermarks_le (h : Committed s db next) (peer o : String) :
    (s.peerWatermarksOf peer).get o ≤ (db.peerWatermarksOf peer).get o := by
  have hmerged : ∀ {t : BoltStore} (_ : s.SamePeers t) {p : String} (_ : p ≠ "") (w : Watermarks),
      (s.peerWatermarksOf peer).get o ≤ ((t.mergePeerWatermarksTx p w).peerWatermarksOf peer).get o := by
    intro t ht p hp w
    rw [BoltStore.peerWatermarksOf_mergePeer ht hp]
    split
    · rename_i hpeer
      subst hpeer
      rw [Lib.Clock.get_join]
      exact le_max_left _ _
    · exact le_rfl
  cases h with
  | everything hpeers | records hpeers => rw [hpeers.peerWatermarksOf]
  | peer _ w hp hdb =>
    subst hdb
    exact hmerged rfl hp w
  | all _ ht _ w hp hdb =>
    subst hdb
    exact hmerged ht hp w

namespace CachedStore

variable {ι : Type} [DecidableEq ι] {orderly : Set String} {c c' : CachedStore ι}

def project (c : CachedStore ι) (k : Cache) : State ι k.Value where
  history v := k.view (c.versions v)
  latest := c.latest
  slot := c.slots k
  tasks i := k.task (c.calls i)

variable {k : Cache} {i : ι} {db : BoltStore}

theorem project_set (c : CachedStore ι) (k : Cache) (i : ι) (a : Activity) :
    (c.set i a).project k = (c.project k).set i (k.task a) := by
  unfold project State.set set
  congr 1
  funext j
  exact apply_update (fun _ => k.task) c.calls i a j

omit [DecidableEq ι] in
theorem project_commit (c : CachedStore ι) (k : Cache) (db : BoltStore) :
    (c.commit db).project k = (c.project k).append (k.view db) := by
  unfold project State.append commit
  congr 1
  funext v
  exact apply_update (fun _ => k.view) c.versions (c.latest + 1) db v

omit [DecidableEq ι] in
theorem project_setSlot_self (c : CachedStore ι) (k : Cache) (slot : Slot k.Value) :
    (c.setSlot k slot).project k = { c.project k with slot } := by
  unfold project setSlot
  simp only [update_self]

omit [DecidableEq ι] in
theorem project_setSlot_of_ne {k' : Cache} (h : k' ≠ k) (c : CachedStore ι) (slot : Slot k'.Value) :
    (c.setSlot k' slot).project k = c.project k := by
  unfold project setSlot
  simp only [update_of_ne (Ne.symm h)]

/-- A call that is elsewhere, as far as a cache is concerned, before and after. -/
theorem project_set_of_task {a b : Activity} (hi : c.calls i = a) (h : k.task b = k.task a) :
    (c.set i b).project k = c.project k := by
  rw [project_set, h, ← hi]
  exact State.set_self rfl

omit [DecidableEq ι] in
theorem project_tasks {a : Activity} (hi : c.calls i = a) (k : Cache) : (c.project k).tasks i = k.task a := by
  subst hi
  rfl

theorem project_commit_step {next : Nat → Activity} (hi : c.calls i = .idle) (h : Committed c.db db next) :
    Lib.GuardedCache.Step (c.project k) none (((c.commit db).set i (next (c.latest + 1))).project k) := by
  have hidle : (c.project k).tasks i = .idle := by rw [project_tasks hi, task_idle]
  rcases h.task k (c.latest + 1) with htask | ⟨htask, hview⟩
  · rw [project_set, project_commit]
    exact .commit i (k.view db) _ hidle htask
  · rw [project_set_of_task (c := c.commit db) hi (htask.trans k.task_idle.symm), project_commit, hview]
    exact .commitElsewhere

theorem project_invalidate_step {version : Nat} {scope : Scope} {peer : Option (String × Watermarks)}
    (hi : c.calls i = .invalidating version scope peer) :
    Lib.GuardedCache.Step (c.project k) none
      (((c.invalidate version scope).set i (afterInvalidation version peer)).project k) := by
  have htask := project_tasks hi k
  cases k with
  | snapshot =>
    have hnext : Cache.task .snapshot (afterInvalidation version peer) = .idle := by
      cases peer <;> rfl
    have hslot : (c.invalidate version scope).project .snapshot =
        { c.project .snapshot with slot := (c.slots .snapshot).invalidate version } := by
      cases scope with
      | watermarks =>
        change ((c.setSlot .watermarks _).setSlot .snapshot _).project .snapshot = _
        rw [project_setSlot_self, project_setSlot_of_ne (by nofun)]
        rfl
      | snapshot => exact c.project_setSlot_self .snapshot _
    rw [project_set, hslot, hnext]
    exact .invalidate i version htask
  | watermarks =>
    have hnext : Cache.task .watermarks (afterInvalidation version peer) = .idle := by
      cases peer <;> rfl
    cases scope with
    | watermarks =>
      rw [project_set, hnext]
      change Lib.GuardedCache.Step _ none
        ((((c.setSlot .watermarks _).setSlot .snapshot _).project .watermarks).set i .idle)
      rw [project_setSlot_of_ne (by nofun), project_setSlot_self]
      exact .invalidate i version htask
    | snapshot =>
      rw [project_set_of_task (c := c.invalidate version .snapshot) hi hnext]
      change Lib.GuardedCache.Step _ none ((c.setSlot .snapshot _).project .watermarks)
      rw [project_setSlot_of_ne (by nofun)]
      exact .other
  | peer name =>
    have hsame : Cache.task (.peer name) (afterInvalidation version peer) =
        Cache.task (.peer name) (.invalidating version scope peer) := by
      cases peer <;> rfl
    cases scope with
    | watermarks =>
      rw [project_set_of_task (c := c.invalidate version .watermarks) hi hsame]
      change Lib.GuardedCache.Step _ none (((c.setSlot .watermarks _).setSlot .snapshot _).project (.peer name))
      rw [project_setSlot_of_ne (by nofun), project_setSlot_of_ne (by nofun)]
      exact .other
    | snapshot =>
      rw [project_set_of_task (c := c.invalidate version .snapshot) hi hsame]
      change Lib.GuardedCache.Step _ none ((c.setSlot .snapshot _).project (.peer name))
      rw [project_setSlot_of_ne (by nofun)]
      exact .other

theorem project_cachePeer_step {version : Nat} {peer : String} {merged : Watermarks}
    (hi : c.calls i = .caching version peer merged) (hk : k = .peer peer → (c.slots (.peer peer)).settled ≤ version) :
    Lib.GuardedCache.Step (c.project k) none (((c.cachePeerWatermarks version peer merged).set i .idle).project k) := by
  have htask := project_tasks hi k
  by_cases hpeer : .peer peer = k
  · subst hpeer
    rw [project_set, cachePeerWatermarks, project_setSlot_self, task_idle]
    exact .publish i ⟨version, merged⟩ (htask.trans (if_pos rfl)) (hk rfl)
  have hidle : k.task (.caching version peer merged) = .idle := by
    cases k with
    | snapshot | watermarks => rfl
    | peer => exact if_neg fun h => hpeer (by rw [h])
  rw [project_set_of_task (c := c.cachePeerWatermarks version peer merged) hi (k.task_idle.trans hidle.symm),
    cachePeerWatermarks, project_setSlot_of_ne hpeer]
  exact .other

theorem project_step {r : Option ((k : Cache) × Nat × Seen k.Value)} (h : Step orderly c r c') (k : Cache)
    (hk : ∀ peer, k = .peer peer → peer ∈ orderly) :
    ∃ r', Lib.GuardedCache.Step (c.project k) r' (c'.project k) ∧
      ∀ since seen, r = some ⟨k, since, seen⟩ → r' = some (since, seen) := by
  cases h with
  | commit _ _ _ _ hi hw => exact ⟨none, project_commit_step hi (Write.committed hw), nofun⟩
  | invalidate _ _ _ _ hi => exact ⟨none, project_invalidate_step hi, nofun⟩
  | cachePeer _ _ peer _ hi horder =>
    exact ⟨none, project_cachePeer_step hi fun h => horder (hk peer h), nofun⟩
  | hit k' i seen hi hcached =>
    by_cases hsame : k' = k
    · subst hsame
      refine ⟨some _, .hit i seen ?_ hcached, ?_⟩
      · rw [project_tasks hi, task_idle]
      · rintro _ _ ⟨rfl⟩
        rfl
    · refine ⟨none, .other, ?_⟩
      rintro _ _ ⟨rfl⟩
      exact absurd rfl hsame
  | miss k' i hi hcached =>
    refine ⟨none, ?_, nofun⟩
    by_cases hsame : k' = k
    · subst hsame
      rw [project_set, task_reading, if_pos rfl]
      refine .miss i ?_ hcached
      rw [project_tasks hi, task_idle]
    · rw [project_set_of_task hi (by rw [task_reading, if_neg hsame, task_idle])]
      exact .other
  | view k' i since generation hi =>
    refine ⟨none, ?_, nofun⟩
    by_cases hsame : k' = k
    · subst hsame
      rw [project_set, task_viewed]
      refine .view i since generation ?_
      rw [project_tasks hi, task_reading, if_pos rfl]
    · rw [project_set_of_task hi (by rw [task_viewed_of_ne hsame, task_reading, if_neg hsame])]
      exact .other
  | fill k' i since generation seen hi =>
    by_cases hsame : k' = k
    · subst hsame
      rw [project_set, project_setSlot_self, task_idle]
      refine ⟨some _, .fill i since generation seen ?_, ?_⟩
      · rw [project_tasks hi, task_viewed]
      · rintro _ _ ⟨rfl⟩
        rfl
    · rw [project_set_of_task (c := c.setSlot k' _) hi (by rw [task_viewed_of_ne hsame, task_idle]),
        project_setSlot_of_ne hsame]
      refine ⟨none, .other, ?_⟩
      rintro _ _ ⟨rfl⟩
      exact absurd rfl hsame
  | keep k' i since generation seen hi =>
    by_cases hsame : k' = k
    · subst hsame
      rw [project_set, task_idle]
      refine ⟨some _, .keep i since generation seen ?_, ?_⟩
      · rw [project_tasks hi, task_viewed]
      · rintro _ _ ⟨rfl⟩
        rfl
    · rw [project_set_of_task hi (by rw [task_viewed_of_ne hsame, task_idle])]
      refine ⟨none, .other, ?_⟩
      rintro _ _ ⟨rfl⟩
      exact absurd rfl hsame

omit [DecidableEq ι] in
theorem coherent_start (db : BoltStore) (k : Cache) : ((start db : CachedStore ι).project k).Coherent where
  settled := le_rfl
  rest w hlt hle := absurd hle (Nat.not_le_of_lt hlt)
  cached := nofun
  tasks i := by
    change State.TaskFine _ (k.task .idle)
    rw [task_idle]
    trivial

theorem Run.coherent (h : Run orderly (start db) c) (k : Cache) (hk : ∀ peer, k = .peer peer → peer ∈ orderly) :
    (c.project k).Coherent := by
  induction h with
  | refl => exact coherent_start db k
  | tail _ hstep ih =>
    obtain ⟨_, hstep⟩ := hstep
    obtain ⟨_, hstep', -⟩ := project_step hstep k hk
    exact ih.step hstep'

/-- What a read returns was committed, and not before what its cache had been told of when the read began. -/
theorem Run.returned (h : Run orderly (start db) c) (hk : ∀ peer, k = .peer peer → peer ∈ orderly) {since : Nat}
    {seen : Seen k.Value} (hread : Step orderly c (some ⟨k, since, seen⟩) c') :
    since ≤ seen.version ∧ seen.version ≤ c.latest ∧ seen.value = k.view (c.versions seen.version) := by
  obtain ⟨_, hstep, hr⟩ := project_step hread k hk
  rw [hr since seen rfl] at hstep
  obtain ⟨⟨hle, hvalue⟩, hsince⟩ := (h.coherent k hk).returned hstep
  exact ⟨hsince, hle, hvalue⟩

omit [DecidableEq ι] in
theorem not_pending_of_quiet (hquiet : ∀ i version scope peer, c.calls i ≠ .invalidating version scope peer)
    (hk : ∀ peer, k ≠ .peer peer) (w : Nat) : ¬ (c.project k).Pending w := by
  rintro ⟨i, hi⟩
  change (k.task (c.calls i)).pending = some w at hi
  cases hcall : c.calls i with
  | idle =>
    rw [hcall, task_idle] at hi
    cases hi
  | invalidating version scope peer => exact hquiet i version scope peer hcall
  | caching _ peer =>
    rw [hcall] at hi
    cases k with
    | snapshot | watermarks => cases hi
    | peer name => exact hk name rfl
  | reading =>
    rw [hcall, task_reading] at hi
    split at hi <;> cases hi
  | viewed k' =>
    rw [hcall] at hi
    by_cases hsame : k' = k
    · subst hsame
      rw [task_viewed] at hi
      cases hi
    · rw [task_viewed_of_ne hsame] at hi
      cases hi

/-- The snapshot and the watermark cache are coherent under any interleaving of calls. -/
theorem caches_coherent {db : BoltStore} (h : Run orderly (start db) c) :
    ((∀ i version scope peer, c.calls i ≠ .invalidating version scope peer) →
      (∀ seen : Seen Snapshot, (c.slots .snapshot).cached = some seen → seen.value = c.db.snapshot) ∧
        ∀ seen : Seen Watermarks, (c.slots .watermarks).cached = some seen → seen.value = c.db.watermarks) ∧
      (∀ c' since (seen : Seen Snapshot), Step orderly c (some ⟨.snapshot, since, seen⟩) c' →
        since ≤ seen.version ∧ seen.version ≤ c.latest ∧ seen.value = (c.versions seen.version).snapshot) ∧
      ∀ c' since (seen : Seen Watermarks), Step orderly c (some ⟨.watermarks, since, seen⟩) c' →
        since ≤ seen.version ∧ seen.version ≤ c.latest ∧ seen.value = (c.versions seen.version).watermarks := by
  refine ⟨fun hquiet => ⟨fun seen hcached => ?_, fun seen hcached => ?_⟩, fun c' since seen hread => ?_,
    fun c' since seen hread => ?_⟩
  · exact (h.coherent .snapshot nofun).current (not_pending_of_quiet hquiet nofun) hcached
  · exact (h.coherent .watermarks nofun).current (not_pending_of_quiet hquiet nofun) hcached
  · exact h.returned (k := .snapshot) nofun hread
  · exact h.returned (k := .watermarks) nofun hread

end CachedStore

end

/-- What a store owned by `a` is told of the origins `a` and `b`. -/
def told (o : String) : Watermarks := Lib.Clock.set ∅ o 1

/-- After a merge and a read, the watermarks are cached. -/
theorem CachedStore.caches_coherent_after_merge :
    ∃ c : CachedStore Unit, Run ∅ (start { owner := "a" }) c ∧ c.latest = 1 ∧
      (∃ seen : Seen Watermarks, (c.slots .watermarks).cached = some seen) ∧
      ∀ seen : Seen Watermarks, (c.slots .watermarks).cached = some seen → seen.value = c.db.watermarks := by
  have hrun : Run (ι := Unit) ∅ (start { owner := "a" }) _ := .refl
  have hrun := hrun.tail ⟨_, .commit () (.merge "b" (fun _ => ⟨1, by decide⟩) (.dialogues [] (told "b"))) _ _ rfl rfl⟩
  have hrun := hrun.tail ⟨_, .invalidate () 1 .watermarks _ rfl⟩
  have hrun := hrun.tail ⟨_, .cachePeer () 1 "b" _ rfl nofun⟩
  have hrun := hrun.tail ⟨_, .miss .watermarks () rfl rfl⟩
  have hrun := hrun.tail ⟨_, .view .watermarks () 1 1 rfl⟩
  have hrun := hrun.tail ⟨_, .fill .watermarks () 1 1 _ rfl rfl⟩
  refine ⟨_, hrun, rfl, ⟨_, rfl⟩, ((caches_coherent hrun).1 fun i version scope peer h => ?_).2⟩
  cases h

section

variable [CaseFolding]

namespace CachedStore

variable {ι : Type} [DecidableEq ι] {orderly : Set String} {c c' : CachedStore ι}

theorem Step.committed {r : Option ((k : Cache) × Nat × Seen k.Value)} (h : Step orderly c r c') :
    (c'.versions = c.versions ∧ c'.latest = c.latest) ∨
      ∃ db next, Committed c.db db next ∧ c'.versions = update c.versions (c.latest + 1) db ∧
        c'.latest = c.latest + 1 := by
  cases h with
  | commit _ _ db next _ hw => exact .inr ⟨db, next, Write.committed hw, rfl, rfl⟩
  | invalidate _ _ scope => cases scope <;> exact .inl ⟨rfl, rfl⟩
  | _ => exact .inl ⟨rfl, rfl⟩

theorem Run.peerWatermarks_le {db : BoltStore} (h : Run orderly (start db) c) (peer o : String) {v w : Nat} (hvw : v ≤ w)
    (hw : w ≤ c.latest) :
    ((c.versions v).peerWatermarksOf peer).get o ≤ ((c.versions w).peerWatermarksOf peer).get o := by
  induction h generalizing w with
  | refl => exact le_rfl
  | @tail c c' _ hstep ih =>
    obtain ⟨_, hstep⟩ := hstep
    rcases hstep.committed with ⟨hversions, hlatest⟩ | ⟨db', next, hcommitted, hversions, hlatest⟩
    · rw [hversions]
      exact ih hvw (hlatest ▸ hw)
    rw [hversions]
    rw [hlatest] at hw
    rcases Nat.lt_or_ge c.latest w with hlast | hold
    · obtain rfl : w = c.latest + 1 := by omega
      rw [update_self, update_apply]
      split
      · exact le_rfl
      · exact (ih (by omega) le_rfl).trans (hcommitted.peerWatermarks_le peer o)
    · rw [update_of_ne (by omega), update_of_ne (by omega)]
      exact ih hvw hold

/-- If the calls come to the cache of a peer in the order of their commits, its watermarks never go back. -/
theorem peerWatermarks_never_go_back {db : BoltStore} {peer : String} (h : Run {peer} (start db) c) {since : Nat}
    {seen : Seen Watermarks} (hread : Step {peer} c (some ⟨.peer peer, since, seen⟩) c') :
    ∀ w ≤ since, ∀ o, ((c.versions w).peerWatermarksOf peer).get o ≤ seen.value.get o := by
  intro w hw o
  obtain ⟨hsince, hlatest, hvalue⟩ := h.returned (k := .peer peer) (fun p hp => by cases hp; rfl) hread
  calc ((c.versions w).peerWatermarksOf peer).get o
      ≤ ((c.versions seen.version).peerWatermarksOf peer).get o := h.peerWatermarks_le peer o (hw.trans hsince) hlatest
    _ = seen.value.get o := by rw [hvalue]; rfl

end CachedStore

end

namespace CachedStore

/-- Two writers in the order of their commits, and a read after them. -/
theorem peerWatermarks_never_go_back_twoWriters :
    ∃ (c c' : CachedStore Bool) (seen : Seen Watermarks), Run {"p"} (start { owner := "a" }) c ∧
      Step {"p"} c (some ⟨.peer "p", 2, seen⟩) c' ∧
      ((c.versions 2).peerWatermarksOf "p").get "b" = 1 ∧
      ∀ w ≤ 2, ∀ o, ((c.versions w).peerWatermarksOf "p").get o ≤ seen.value.get o := by
  have hrun : Run (ι := Bool) {"p"} (start { owner := "a" }) _ := .refl
  have hrun := hrun.tail ⟨_, .commit false (.setPeerWatermarks "p" (told "a")) _ _ rfl rfl⟩
  have hrun := hrun.tail ⟨_, .commit true (.setPeerWatermarks "p" (told "b")) _ _ rfl rfl⟩
  have hrun := hrun.tail ⟨_, .cachePeer false 1 "p" _ rfl (fun _ => Nat.zero_le _)⟩
  have hrun := hrun.tail ⟨_, .cachePeer true 2 "p" _ rfl (fun _ => by decide)⟩
  refine ⟨_, _, _, hrun, .hit (.peer "p") true _ rfl rfl, rfl, ?_⟩
  exact peerWatermarks_never_go_back hrun (.hit (.peer "p") true _ rfl rfl)

/-- The second writer caches its watermarks before the first does: once both calls have returned, a read does not
know what the second has committed. -/
theorem peerWatermarks_go_back :
    ∃ (c c' : CachedStore Bool) (seen : Seen Watermarks), Run ∅ (start { owner := "a" }) c ∧
      (∀ i, c.calls i = .idle) ∧ Step ∅ c (some ⟨.peer "p", 2, seen⟩) c' ∧
      seen.value.get "b" < ((c.versions 2).peerWatermarksOf "p").get "b" := by
  have hrun : Run (ι := Bool) ∅ (start { owner := "a" }) _ := .refl
  have hrun := hrun.tail ⟨_, .commit false (.setPeerWatermarks "p" (told "a")) _ _ rfl rfl⟩
  have hrun := hrun.tail ⟨_, .commit true (.setPeerWatermarks "p" (told "b")) _ _ rfl rfl⟩
  have hrun := hrun.tail ⟨_, .cachePeer true 2 "p" _ rfl nofun⟩
  have hrun := hrun.tail ⟨_, .cachePeer false 1 "p" _ rfl nofun⟩
  refine ⟨_, _, _, hrun, ?_, .hit (.peer "p") true _ rfl rfl, by decide⟩
  rintro (_ | _) <;> rfl

end CachedStore

end Maistr0.Memory
