import Maistr0.Taskmgr.Operations

/-!
# What a restart does

One turn of `load` after the other, then the whole of it: every stored task comes back under its ID,
with its work advanced at most by the interruption, and nothing is running any more. The store in turn
holds for each task the version it had or the one in memory.
-/

namespace Maistr0.Taskmgr

open Go List Lib.Keyed Option

namespace Task

def restamped (t : Task) : Bool := t.unstamped || t.inProgress || t.attemptHistoryChanged

/-- How many sequences `load` takes for a task. -/
def mints (t : Task) : Nat :=
  (if t.unstamped then 1 else 0) + if t.inProgress || t.attemptHistoryChanged then 1 else 0

def sequenceOf (t : Task) (origin : String) : Nat := if !t.unstamped && t.origin = origin then t.sequence else 0

variable {keepsIDs hasWork : Prop}

theorem repairAttempts_copy (t : Task) (now : Nat → Nat → Instant) : t.Copy (t.repairAttempts now) := by
  refine ⟨⟨rfl, ?_, fun h => h⟩, rfl, rfl⟩
  simp only [ledger, repairAttempts, Ledger.mk.injEq, true_and]
  apply ext_getElem <;> simp [SubtaskResult.entry]

theorem recover_copy (t : Task) : t.Copy t.recover := by
  unfold recover
  split
  · rename_i hstatus
    exact ⟨⟨rfl, rfl, fun _ h => by rw [hstatus] at h; cases h⟩, rfl, rfl⟩
  split
  · rename_i hstatus
    split
    · refine ⟨⟨rfl, rfl, fun _ h => ?_⟩, rfl, rfl⟩
      rw [h] at hstatus
      rcases hstatus with h | h <;> cases h
    · exact Copy.refl t
  · exact Copy.refl t

end Task

structure Turn (m : Manager) (t : Task) (loaded : Loaded) (m' : Manager) : Prop where
  advances : ∀ keepsIDs hasWork : Prop, t.Advances keepsIDs hasWork loaded.task
  stopped : loaded.task.status ≠ .running
  untouched : t.inProgress = false → loaded.task.ledger = t.ledger
  writeBack : loaded.writeBack = .unchanged ↔ t.restamped = false
  tasks : m'.tasks = m.tasks.put loaded.task
  store : m'.store = m.store
  syncOrigin : m'.syncOrigin = m.syncOrigin
  kept : t.restamped = false → loaded.task.origin = t.origin ∧ loaded.task.sequence = t.sequence
  fresh : t.restamped → loaded.task.origin = m.syncOrigin ∧ loaded.task.sequence = m'.syncSeq.get m.syncOrigin
  counter : m'.syncSeq.get m.syncOrigin = incr^[t.mints] (max (m.syncSeq.get m.syncOrigin) (t.sequenceOf m.syncOrigin))
  issued : ∃ stamps, m'.issued = stamps ++ m.issued ∧ ∀ p ∈ stamps, p.1 = m.syncOrigin ∧
    ∃ k, 1 ≤ k ∧ k ≤ t.mints ∧ p.2 = incr^[k] (max (m.syncSeq.get m.syncOrigin) (t.sequenceOf m.syncOrigin))

namespace Manager

theorem loadStamp_spec (m : Manager) (t : Task) :
    t.Same (m.loadStamp t).1 ∧ (m.loadStamp t).2.tasks = m.tasks ∧ (m.loadStamp t).2.store = m.store ∧
      (m.loadStamp t).2.syncOrigin = m.syncOrigin ∧
      (m.loadStamp t).2.syncSeq.get m.syncOrigin =
        incr^[if t.unstamped then 1 else 0] (max (m.syncSeq.get m.syncOrigin) (t.sequenceOf m.syncOrigin)) ∧
      (t.unstamped → (m.loadStamp t).1.origin = m.syncOrigin ∧
        (m.loadStamp t).1.sequence = (m.loadStamp t).2.syncSeq.get m.syncOrigin ∧
        (m.loadStamp t).2.issued = (m.syncOrigin, (m.loadStamp t).2.syncSeq.get m.syncOrigin) :: m.issued) ∧
      (t.unstamped = false → (m.loadStamp t).1 = t ∧ (m.loadStamp t).2.issued = m.issued) := by
  unfold loadStamp Task.sequenceOf
  cases t.unstamped with
  | true =>
    refine ⟨⟨rfl, rfl, fun h => h⟩, rfl, rfl, rfl, ?_, fun _ => ⟨rfl, ?_, ?_⟩, fun h => by cases h⟩
    · simp [stampLocked, nextSyncSequenceLocked]
    · simp [stampLocked, nextSyncSequenceLocked]
    · simp [stampLocked, nextSyncSequenceLocked]
  | false =>
    refine ⟨⟨rfl, rfl, fun h => h⟩, rfl, rfl, rfl, ?_, fun h => (by cases h), fun _ => ⟨rfl, rfl⟩⟩
    by_cases ho : t.origin = m.syncOrigin <;> simp [ho]

theorem stampLocked_turn {m : Manager} {t u : Task} {writeBack : WriteBack} (hwrite : writeBack ≠ .unchanged)
    (hcut : t.inProgress || t.attemptHistoryChanged) (hu : ∀ keepsIDs hasWork : Prop, t.Advances keepsIDs hasWork u)
    (hstopped : u.status ≠ .running) (huntouched : t.inProgress = false → u.ledger = t.ledger) (seq : Int) :
    Turn m t { task := ((m.loadStamp t).2.stampLocked u).1, writeBack }
      { ((m.loadStamp t).2.stampLocked u).2.put ((m.loadStamp t).2.stampLocked u).1 with seq } := by
  obtain ⟨-, htasks, hstore, horigin, hcounter, hissued, hkept⟩ := m.loadStamp_spec t
  generalize (m.loadStamp t).2 = m₁ at *
  have hrestamped : t.restamped = true := by
    unfold Task.restamped
    rw [Bool.or_assoc, hcut, Bool.or_true]
  have hmints : t.mints = (if t.unstamped then 1 else 0) + 1 := by
    unfold Task.mints
    rw [hcut, if_pos rfl]
  have hnew : (m₁.stampLocked u).2.syncSeq.get m.syncOrigin =
      incr^[t.mints] (max (m.syncSeq.get m.syncOrigin) (t.sequenceOf m.syncOrigin)) := by
    rw [hmints, Function.iterate_succ_apply', ← hcounter]
    simp [stampLocked, nextSyncSequenceLocked, horigin]
  refine ⟨fun k w => ⟨(hu k w).id, (hu k w).steps, (hu k w).step, (hu k w).closed⟩, hstopped, huntouched, ?_, ?_, hstore, horigin,
    (fun h => absurd h (by simp [hrestamped])), fun _ => ⟨horigin, ?_⟩, hnew, ?_⟩
  · simp [hwrite, hrestamped]
  · change m₁.tasks.put _ = _
    rw [htasks]
  · change incr (m₁.syncSeq.get m₁.syncOrigin) = (m₁.stampLocked u).2.syncSeq.get m.syncOrigin
    simp [stampLocked, nextSyncSequenceLocked, horigin]
  · -- the stamp taken here, after the one taken in the first half, if there was one
    have hhead : (m₁.stampLocked u).2.issued =
        (m.syncOrigin, (m₁.stampLocked u).2.syncSeq.get m.syncOrigin) :: m₁.issued := by
      simp [stampLocked, nextSyncSequenceLocked, horigin]
    cases hunstamped : t.unstamped with
    | true =>
      rw [hunstamped] at hcounter hmints
      refine ⟨[(m.syncOrigin, (m₁.stampLocked u).2.syncSeq.get m.syncOrigin), (m.syncOrigin, m₁.syncSeq.get m.syncOrigin)],
        hhead.trans (by rw [(hissued hunstamped).2.2]; rfl), ?_⟩
      intro p hp
      rcases mem_pair.mp hp with rfl | rfl
      · exact ⟨rfl, t.mints, by omega, le_rfl, hnew⟩
      · exact ⟨rfl, 1, le_rfl, by omega, hcounter⟩
    | false =>
      refine ⟨[(m.syncOrigin, (m₁.stampLocked u).2.syncSeq.get m.syncOrigin)],
        hhead.trans (by rw [(hkept hunstamped).2]; rfl), ?_⟩
      intro p hp
      obtain rfl := mem_singleton.mp hp
      exact ⟨rfl, t.mints, by omega, le_rfl, hnew⟩

theorem loadTask_turn (m : Manager) (t : Task) (now : LoadClock) :
    Turn m t (m.loadTask t now).1 (m.loadTask t now).2 := by
  obtain ⟨hsame, htasks, hstore, horigin, hcounter, hissued, hkept⟩ := m.loadStamp_spec t
  have hrepair := hsame.trans ((m.loadStamp t).1.repairAttempts_copy now.attempt).toSame
  have hstatus : ((m.loadStamp t).1.repairAttempts now.attempt).status = t.status := congrArg Ledger.status hrepair.ledger
  have hrecover := hrepair.trans ((m.loadStamp t).1.repairAttempts now.attempt).recover_copy.toSame
  have hrecovered : ((m.loadStamp t).1.repairAttempts now.attempt).recover.status = t.status :=
    congrArg Ledger.status hrecover.ledger
  unfold loadTask
  cases hprogress : t.inProgress with
  | true =>
    have hprogress' : ((m.loadStamp t).1.repairAttempts now.attempt).inProgress = true := by
      unfold Task.inProgress at hprogress ⊢
      rw [hstatus, hprogress]
    refine stampLocked_turn (by simp) (by simp [hprogress]) (fun k w => .after hrepair ?_) (by simp [Task.interrupt])
      (fun h => absurd (hprogress.symm.trans h) (by simp)) _
    exact Task.advances_interrupt hprogress' interruptedTaskError now.interrupted
  | false =>
    have hstopped : t.status ≠ .running := by
      intro hrunning
      simp [Task.inProgress, hrunning] at hprogress
    cases hhistory : t.attemptHistoryChanged with
    | true =>
      refine stampLocked_turn (by simp) (by simp [hhistory]) (fun k w => .touch ⟨?_, ?_, ?_⟩) ?_ (fun _ => ?_) _
      · exact hrecover.id
      · exact hrecover.ledger
      · exact hrecover.closed
      · exact hrecovered ▸ hstopped
      · exact hrecover.ledger
    | false =>
      have hrestamped : t.restamped = t.unstamped := by simp [Task.restamped, hprogress, hhistory]
      have hmints : t.mints = if t.unstamped then 1 else 0 := by simp [Task.mints, hprogress, hhistory]
      have hcopy := ((m.loadStamp t).1.repairAttempts_copy now.attempt).trans
        ((m.loadStamp t).1.repairAttempts now.attempt).recover_copy
      refine ⟨fun k w => .touch hrecover, ?_, fun _ => hrecover.ledger, ?_, ?_, hstore, horigin, fun h => ?_, fun h => ?_, ?_, ?_⟩
      · exact hrecovered ▸ hstopped
      · rw [hrestamped]
        cases t.unstamped <;> simp
      · change (m.loadStamp t).2.tasks.put _ = _
        rw [htasks]
      · rw [hrestamped] at h
        have hloaded := (hkept h).1
        exact ⟨hcopy.origin.trans (by rw [hloaded]), hcopy.sequence.trans (by rw [hloaded])⟩
      · rw [hrestamped] at h
        exact ⟨hcopy.origin.trans (hissued h).1, hcopy.sequence.trans (hissued h).2.1⟩
      · rw [hmints]
        exact hcounter
      · cases hunstamped : t.unstamped with
        | true =>
          rw [hunstamped] at hcounter hmints
          refine ⟨[(m.syncOrigin, (m.loadStamp t).2.syncSeq.get m.syncOrigin)], (hissued hunstamped).2.2, ?_⟩
          intro p hp
          obtain rfl := mem_singleton.mp hp
          exact ⟨rfl, 1, le_rfl, hmints.ge, hcounter⟩
        | false => exact ⟨[], (hkept hunstamped).2, by simp⟩

/-! ### The whole of `load` -/

structure FirstLoop (m : Manager) (tasks : List Task) (loaded : List Loaded) (m' : Manager) : Prop where
  each : List.Forall₂ (fun t l => ∃ m₁ m₂, Turn m₁ t l m₂ ∧ m₁.syncOrigin = m.syncOrigin) tasks loaded
  held : ∀ l ∈ loaded, m'.tasks.get? l.task.id = some l.task
  others : ∀ id, (∀ t ∈ tasks, t.id ≠ id) → m'.tasks.get? id = m.tasks.get? id
  store : m'.store = m.store
  syncOrigin : m'.syncOrigin = m.syncOrigin

theorem loadTasks_cons {m m' : Manager} {t : Task} {rest : List Task} {now : Nat → LoadClock} {loaded : List Loaded}
    (h : m.loadTasks (t :: rest) now = .ok (loaded, m')) :
    ∃ l loaded' m₁, Turn m t l m₁ ∧ m₁.loadTasks rest (fun i => now (i + 1)) = .ok (loaded', m') ∧ loaded = l :: loaded' := by
  unfold loadTasks at h
  split at h
  · cases h
  have hturn := m.loadTask_turn t (now 0)
  cases hload : m.loadTask t (now 0) with
  | mk l m₁ =>
    rw [hload] at h hturn
    dsimp only at h
    cases hrest : m₁.loadTasks rest fun i => now (i + 1) with
    | error =>
      rw [hrest] at h
      cases h
    | ok p =>
      rw [hrest] at h
      obtain ⟨rfl, rfl⟩ := Prod.mk.inj (Except.ok.inj h)
      exact ⟨l, p.1, m₁, hturn, hrest, rfl⟩

theorem loadTasks_firstLoop {tasks : List Task} (hids : (tasks.map Task.id).Nodup) :
    ∀ {m m' : Manager} {now : Nat → LoadClock} {loaded : List Loaded},
      m.loadTasks tasks now = .ok (loaded, m') → FirstLoop m tasks loaded m' := by
  induction tasks with
  | nil =>
    intro m m' now loaded h
    obtain ⟨rfl, rfl⟩ := Prod.mk.inj (Except.ok.inj h)
    exact ⟨.nil, by simp, fun _ _ => rfl, rfl, rfl⟩
  | cons t _ ih =>
    intro m m' now loaded h
    obtain ⟨l, _, m₁, hturn, hrest, rfl⟩ := loadTasks_cons h
    rw [map_cons, nodup_cons] at hids
    have hloop := ih hids.2 hrest
    have hid : l.task.id = t.id := (hturn.advances True True).id
    have hput : ∀ id, m₁.tasks.get? id = if l.task.id = id then some l.task else m.tasks.get? id := by
      intro id
      rw [hturn.tasks, get?_put]
    refine ⟨.cons ⟨m, m₁, hturn, rfl⟩ (hloop.each.imp ?_), ?_, ?_, hloop.store.trans hturn.store,
      hloop.syncOrigin.trans hturn.syncOrigin⟩
    · rintro t' l' ⟨n₁, n₂, hn, ho⟩
      exact ⟨n₁, n₂, hn, ho.trans hturn.syncOrigin⟩
    · intro l' hl'
      rcases mem_cons.mp hl' with rfl | hmem
      · rw [hloop.others _ fun t' ht' heq => hids.1 (mem_map.mpr ⟨t', ht', heq.trans hid⟩), hput, if_pos rfl]
      · exact hloop.held l' hmem
    · intro id hid'
      rw [hloop.others id fun t' ht' => hid' t' (mem_cons_of_mem _ ht'), hput,
        if_neg (hid.trans_ne (hid' t mem_cons_self))]

theorem saveLoaded_spec {m : Manager} {s : Tasks} (hs : m.store = some s) (l : Loaded) (saved : Except String Unit) :
    ∃ t store, l.task.Copy t ∧ ((m.saveLoaded s l saved).2 = { m with store := some store } ∨
        (m.saveLoaded s l saved).2 = { m.put t with store := some store }) ∧
      ((l.writeBack = .unchanged ∨ ∃ err, (m.saveLoaded s l saved).1 = .error err) ∧ store = s ∨
        l.writeBack ≠ .unchanged ∧ (m.saveLoaded s l saved).1 = .ok () ∧ store = s.put t) := by
  cases m
  obtain ⟨t, writeBack⟩ := l
  cases hs
  cases writeBack with
  | unchanged => exact ⟨t, s, .refl t, .inl rfl, .inl ⟨.inl rfl, rfl⟩⟩
  | metadata =>
    cases saved with
    | error => exact ⟨t, s, .refl t, .inl rfl, .inl ⟨.inr ⟨_, rfl⟩, rfl⟩⟩
    | ok => exact ⟨t, s.put t, .refl t, .inl rfl, .inr ⟨by simp, rfl, rfl⟩⟩
  | interrupted =>
    cases saved with
    | error => exact ⟨_, s, checkpointForTask_copy t, .inr rfl, .inl ⟨.inr ⟨_, rfl⟩, rfl⟩⟩
    | ok => exact ⟨_, s.put (checkpointForTask t), checkpointForTask_copy t, .inr rfl, .inr ⟨by simp, rfl, rfl⟩⟩

structure SecondLoop (m : Manager) (s : Tasks) (loaded : List Loaded) (result : Except Failure Unit × Manager)
    (s' : Tasks) : Prop where
  store : result.2.store = some s'
  frame : result.2 = { m with tasks := result.2.tasks, store := some s' }
  held : ∀ l ∈ loaded, m.tasks.get? l.task.id = some l.task →
    ∃ t, result.2.tasks.get? l.task.id = some t ∧ l.task.Copy t
  others : ∀ id, (∀ l ∈ loaded, l.task.id ≠ id) → result.2.tasks.get? id = m.tasks.get? id
  stored : ∀ id, s'.get? id = s.get? id ∨ ∃ l ∈ loaded, ∃ t, l.task.id = id ∧ s'.get? id = some t ∧ l.task.Copy t
  saved : result.1 = .ok () → ∀ l ∈ loaded, l.writeBack ≠ .unchanged → ∃ t, s'.get? l.task.id = some t ∧ l.task.Copy t
  unsaved : ∀ l ∈ loaded, l.writeBack = .unchanged → s'.get? l.task.id = s.get? l.task.id

theorem saveAllLoaded_secondLoop {loaded : List Loaded} (hids : (loaded.map fun l => l.task.id).Nodup) :
    ∀ {m : Manager} {s : Tasks} (saves : Nat → Except String Unit), m.store = some s →
      ∃ s', SecondLoop m s loaded (m.saveAllLoaded loaded saves) s' := by
  induction loaded with
  | nil =>
    intro m s saves hs
    exact ⟨s, hs, by rw [← hs]; rfl, by simp, fun _ _ => rfl, fun _ => .inl rfl, by simp, by simp⟩
  | cons l rest ih =>
    intro m s saves hs
    rw [map_cons, nodup_cons] at hids
    obtain ⟨t, store, hcopy, hm, hstore⟩ := saveLoaded_spec hs l (saves 0)
    have hother : ∀ l' ∈ rest, l'.task.id ≠ l.task.id := fun l' hl' heq => hids.1 (mem_map.mpr ⟨l', hl', heq⟩)
    unfold saveAllLoaded
    rw [hs, getD_some]
    generalize m.saveLoaded s l (saves 0) = turn at *
    obtain ⟨r, m₁⟩ := turn
    have hstore₁ : m₁.store = some store := by rcases hm with rfl | rfl <;> rfl
    have hframe : m₁ = { m with tasks := m₁.tasks, store := some store } := by rcases hm with rfl | rfl <;> rfl
    have hget : ∀ id, l.task.id ≠ id → m₁.tasks.get? id = m.tasks.get? id := by
      intro id hid
      rcases hm with rfl | rfl
      · rfl
      · exact (get?_put m.tasks t id).trans (if_neg (hcopy.id.trans_ne hid))
    have hheld : m.tasks.get? l.task.id = some l.task → ∃ t', m₁.tasks.get? l.task.id = some t' ∧ l.task.Copy t' := by
      intro h
      rcases hm with rfl | rfl
      · exact ⟨l.task, h, .refl _⟩
      · exact ⟨t, (get?_put m.tasks t _).trans (if_pos hcopy.id), hcopy⟩
    cases r with
    | error =>
      obtain rfl : store = s := by
        rcases hstore with ⟨-, h⟩ | ⟨-, h, -⟩
        · exact h
        · cases h
      refine ⟨store, hstore₁, hframe, fun l' hl' h => ?_, fun id hid => hget id (hid l mem_cons_self),
        fun id => .inl rfl, fun hok => (by cases hok), fun _ _ _ => rfl⟩
      rcases mem_cons.mp hl' with rfl | hmem
      · exact hheld h
      · exact ⟨l'.task, (hget _ (hother l' hmem).symm).trans h, .refl _⟩
    | ok _ =>
      obtain ⟨s', hloop⟩ := ih hids.2 (fun i => saves (i + 1)) hstore₁
      -- the rest of the loop leaves the place of this task alone
      have hplace : s'.get? l.task.id = store.get? l.task.id := by
        rcases hloop.stored l.task.id with h | ⟨l', hl', _, heq, -⟩
        · exact h
        · exact absurd heq (hother l' hl')
      refine ⟨s', hloop.store, ?_, fun l' hl' h => ?_, fun id hid => ?_, fun id => ?_, fun hok l' hl' hwrite => ?_,
        fun l' hl' hwrite => ?_⟩
      · rw [hloop.frame]
        rw [hframe]
      · rcases mem_cons.mp hl' with rfl | hmem
        · rw [hloop.others _ hother]
          exact hheld h
        · exact hloop.held l' hmem ((hget _ (hother l' hmem).symm).trans h)
      · rw [hloop.others id fun l' hl' => hid l' (mem_cons_of_mem _ hl'), hget id (hid l mem_cons_self)]
      · rcases hloop.stored id with h | ⟨l', hl', t', heq, hget', hcopy'⟩
        · rw [h]
          rcases hstore with ⟨-, rfl⟩ | ⟨-, -, rfl⟩
          · exact .inl rfl
          rw [get?_put]
          split
          · rename_i heq
            exact .inr ⟨l, mem_cons_self, t, hcopy.id.symm.trans heq, rfl, hcopy⟩
          · exact .inl rfl
        · exact .inr ⟨l', mem_cons_of_mem _ hl', t', heq, hget', hcopy'⟩
      · rcases mem_cons.mp hl' with rfl | hmem
        · rcases hstore with ⟨h | ⟨_, h⟩, -⟩ | ⟨-, -, rfl⟩
          · exact absurd h hwrite
          · cases h
          · exact ⟨t, by rw [hplace, get?_put, if_pos hcopy.id], hcopy⟩
        · exact hloop.saved hok l' hmem hwrite
      · rcases mem_cons.mp hl' with rfl | hmem
        · rcases hstore with ⟨-, rfl⟩ | ⟨h, -, -⟩
          · exact hplace
          · exact absurd hwrite h
        · rw [hloop.unsaved l' hmem hwrite]
          rcases hstore with ⟨-, rfl⟩ | ⟨-, -, rfl⟩
          · rfl
          · rw [get?_put, if_neg (hcopy.id.trans_ne (hother l' hmem).symm)]

end Manager

theorem exists_left {α β : Type} {R : α → β → Prop} {l : List α} {l' : List β} (h : Forall₂ R l l') {b : β}
    (hb : b ∈ l') : ∃ a ∈ l, R a b := by
  induction h with
  | nil => cases hb
  | @cons a b' l l' hab _ ih =>
    rcases mem_cons.mp hb with rfl | hmem
    · exact ⟨a, mem_cons_self, hab⟩
    · obtain ⟨a', ha', hr⟩ := ih hmem
      exact ⟨a', mem_cons_of_mem _ ha', hr⟩

def Task.image (t : Task) : Ledger × String × Nat := (t.ledger, t.origin, t.sequence)

theorem Task.Copy.image_eq {t t' : Task} (h : t.Copy t') : t'.image = t.image := by
  unfold image
  rw [h.ledger, h.origin, h.sequence]

theorem Turn.image_eq {m m' : Manager} {t : Task} {l : Loaded} (h : Turn m t l m') (hwrite : l.writeBack = .unchanged) :
    l.task.image = t.image := by
  have hrestamped := h.writeBack.mp hwrite
  have hprogress : t.inProgress = false := by
    simp only [Task.restamped, Bool.or_eq_false_iff] at hrestamped
    exact hrestamped.1.2
  unfold Task.image
  rw [h.untouched hprogress, (h.kept hrestamped).1, (h.kept hrestamped).2]

structure Recovered (t t' : Task) : Prop where
  advances : ∀ keepsIDs hasWork : Prop, t.Advances keepsIDs hasWork t'
  stopped : t'.status ≠ .running

theorem Recovered.copy {t t' t'' : Task} (h : Recovered t t') (hcopy : t'.Copy t'') : Recovered t t'' where
  advances k w :=
    { id := hcopy.id.trans (h.advances k w).id
      steps := hcopy.ledger.symm ▸ (h.advances k w).steps
      step := fun hk => hcopy.ledger.symm ▸ (h.advances k w).step hk
      closed := fun hq hc => hcopy.closed ((h.advances k w).closed hq hc) }
  stopped := by
    have hstatus : t''.status = t'.status := congrArg Ledger.status hcopy.ledger
    rw [hstatus]
    exact h.stopped

structure Reopened (s : Tasks) (result : Except Failure Unit × Manager) (s' : Tasks) : Prop where
  store : result.2.store = some s'
  stored : ∀ id, s'.get? id = s.get? id ∨ ∃ t t', s.get? id = some t ∧ s'.get? id = some t' ∧ Recovered t t'
  held : result.1 = .ok () → ∀ id t, s.get? id = some t → ∃ t', result.2.tasks.get? id = some t' ∧ Recovered t t'
  nothingElse : result.1 = .ok () → ∀ id, s.get? id = none → result.2.tasks.get? id = none
  synced : result.1 = .ok () → ∀ id, (s'.get? id).map Task.image = (result.2.tasks.get? id).map Task.image

/-- A task in memory is one that the store brought back. -/
theorem Reopened.recovered {s s' : Tasks} {result : Except Failure Unit × Manager} (h : Reopened s result s')
    (hok : result.1 = .ok ()) {id : String} {t' : Task} (ht' : result.2.tasks.get? id = some t') :
    ∃ t, s.get? id = some t ∧ Recovered t t' := by
  cases ht : s.get? id with
  | none => exact absurd (ht'.symm.trans (h.nothingElse hok id ht)) (by simp)
  | some t =>
    obtain ⟨_, ht'', hrec⟩ := h.held hok id t ht
    cases ht''.symm.trans ht'
    exact ⟨t, rfl, hrec⟩

structure LoadRun (m : Manager) (s : Tasks) (tasks : List Task) (now : Nat → LoadClock)
    (result : Except Failure Unit × Manager) (loaded : List Loaded) (m₁ : Manager) (s' : Tasks) : Prop where
  loads : m.loadTasks tasks now = .ok (loaded, m₁)
  first : Manager.FirstLoop m tasks loaded m₁
  second : Manager.SecondLoop m₁ s loaded result s'

theorem Manager.load_run {m : Manager} {s : Tasks} {tasks : List Task} (hids : (tasks.map Task.id).Nodup)
    (hs : m.store = some s) (now : Nat → LoadClock) (saves : Nat → Except String Unit) :
    (∃ err, m.load tasks now saves = (.error err, m)) ∨
      ∃ loaded m₁ s', LoadRun m s tasks now (m.load tasks now saves) loaded m₁ s' := by
  unfold load
  cases hload : m.loadTasks tasks now with
  | error err => exact .inl ⟨err, rfl⟩
  | ok p =>
    obtain ⟨loaded, m₁⟩ := p
    have hfirst := loadTasks_firstLoop hids hload
    have hids' : tasks.map Task.id = loaded.map fun l => l.task.id := by
      rw [← forall₂_eq_eq_eq, forall₂_map_left_iff, forall₂_map_right_iff]
      exact hfirst.each.imp fun t l ⟨_, _, hturn, _⟩ => (hturn.advances True True).id.symm
    obtain ⟨s', hsecond⟩ := saveAllLoaded_secondLoop (hids' ▸ hids) saves (hfirst.store.trans hs)
    exact .inr ⟨loaded, m₁, s', hload, hfirst, hsecond⟩

namespace LoadRun

variable {m m₁ : Manager} {s s' : Tasks} {tasks : List Task} {now : Nat → LoadClock}
  {result : Except Failure Unit × Manager} {loaded : List Loaded} {t : Task} {l : Loaded}

section

variable (h : LoadRun m s tasks now result loaded m₁ s')

include h

theorem held (hl : l ∈ loaded) : ∃ t', result.2.tasks.get? l.task.id = some t' ∧ l.task.Copy t' :=
  h.second.held l hl (h.first.held l hl)

theorem version (ht : t ∈ tasks) :
    ∃ l ∈ loaded, ∃ m₂ m₃ t', Turn m₂ t l m₃ ∧ m₂.syncOrigin = m.syncOrigin ∧ l.task.id = t.id ∧
      result.2.tasks.get? t.id = some t' ∧ l.task.Copy t' := by
  obtain ⟨l, hl, m₂, m₃, hturn, horigin⟩ := exists_left h.first.each.flip ht
  obtain ⟨t', ht', hcopy⟩ := h.held hl
  have hid : l.task.id = t.id := (hturn.advances True True).id
  exact ⟨l, hl, m₂, m₃, t', hturn, horigin, hid, hid ▸ ht', hcopy⟩

theorem source (hl : l ∈ loaded) :
    ∃ t ∈ tasks, ∃ m₂ m₃, Turn m₂ t l m₃ ∧ m₂.syncOrigin = m.syncOrigin ∧ l.task.id = t.id := by
  obtain ⟨t, ht, m₂, m₃, hturn, horigin⟩ := exists_left h.first.each hl
  exact ⟨t, ht, m₂, m₃, hturn, horigin, (hturn.advances True True).id⟩

theorem absent {id : String} (habsent : ∀ t ∈ tasks, t.id ≠ id) : ∀ l ∈ loaded, l.task.id ≠ id := by
  intro l hl
  obtain ⟨t, ht, _, _, _, -, hid⟩ := h.source hl
  exact hid.trans_ne (habsent t ht)

theorem nothingElse (hm : m.tasks = ∅) {id : String} (habsent : ∀ t ∈ tasks, t.id ≠ id) :
    result.2.tasks.get? id = none := by
  rw [h.second.others id (h.absent habsent), h.first.others id habsent, hm]
  rfl

theorem origin_of_task (hm : m.tasks = ∅) {t' : Task} (ht' : t' ∈ result.2.tasks.vals) :
    ∃ t ∈ tasks, ∃ l ∈ loaded, ∃ m₂ m₃, Turn m₂ t l m₃ ∧ m₂.syncOrigin = m.syncOrigin ∧ t.id = t'.id ∧ l.task.Copy t' := by
  have hget : result.2.tasks.get? t'.id = some t' := get?_eq_some.mpr ⟨ht', rfl⟩
  by_cases hread : ∃ t ∈ tasks, t.id = t'.id
  · obtain ⟨t, ht, hid⟩ := hread
    obtain ⟨l, hl, m₂, m₃, _, hturn, horigin, -, hget', hcopy⟩ := h.version ht
    cases hget'.symm.trans (hid ▸ hget)
    exact ⟨t, ht, l, hl, m₂, m₃, hturn, horigin, hid, hcopy⟩
  · have hnone : result.2.tasks.get? t'.id = none := h.nothingElse hm fun t ht hid => hread ⟨t, ht, hid⟩
    rw [hget] at hnone
    cases hnone

end

end LoadRun

theorem Manager.load_reopened {m : Manager} {s : Tasks} {tasks : List Task} (hm : m.tasks = ∅) (hs : m.store = some s)
    (htasks : tasks.Perm s.vals) (now : Nat → LoadClock) (saves : Nat → Except String Unit) :
    ∃ s', Reopened s (m.load tasks now saves) s' := by
  have hids : (tasks.map Task.id).Nodup := (htasks.map Task.id).nodup_iff.mpr s.nodup
  have hget : ∀ t ∈ tasks, s.get? t.id = some t := fun t ht =>
    get?_eq_some.mpr ⟨htasks.mem_iff.mp ht, rfl⟩
  have habsent : ∀ id, s.get? id = none → ∀ t ∈ tasks, t.id ≠ id := by
    rintro id hnone t ht rfl
    rw [hget t ht] at hnone
    cases hnone
  rcases m.load_run hids hs now saves with ⟨err, hload⟩ | ⟨loaded, m₁, s', hrun⟩
  · rw [hload]
    exact ⟨s, hs, fun _ => .inl rfl, nofun, nofun, nofun⟩
  refine ⟨s', hrun.second.store, fun id => ?_, fun hok id t ht => ?_, fun hok id hnone => ?_, fun hok id => ?_⟩
  · rcases hrun.second.stored id with h | ⟨l, hl, t', rfl, hget', hcopy⟩
    · exact .inl h
    obtain ⟨t, ht, _, _, hturn, -, hid⟩ := hrun.source hl
    have hrec : Recovered t l.task := ⟨hturn.advances, hturn.stopped⟩
    exact .inr ⟨t, t', hid ▸ hget t ht, hget', hrec.copy hcopy⟩
  · obtain ⟨hmem, rfl⟩ := get?_eq_some.mp ht
    obtain ⟨l, hl, _, _, t', hturn, -, -, ht', hcopy⟩ := hrun.version (htasks.mem_iff.mpr hmem)
    have hrec : Recovered t l.task := ⟨hturn.advances, hturn.stopped⟩
    exact ⟨t', ht', hrec.copy hcopy⟩
  · exact hrun.nothingElse hm (habsent id hnone)
  · cases ht : s.get? id with
    | none =>
      rw [hrun.nothingElse hm (habsent id ht)]
      rcases hrun.second.stored id with h | ⟨l, hl, t', heq, -⟩
      · rw [h, ht]
      · exact absurd heq (hrun.absent (habsent id ht) l hl)
    | some =>
      obtain ⟨hmem, rfl⟩ := get?_eq_some.mp ht
      obtain ⟨l, hl, _, _, _, hturn, -, hid, ht', hcopy'⟩ := hrun.version (htasks.mem_iff.mpr hmem)
      rw [ht', map_some, hcopy'.image_eq]
      by_cases hwrite : l.writeBack = .unchanged
      · rw [← hid, hrun.second.unsaved l hl hwrite, hid, ht, map_some, hturn.image_eq hwrite]
      · obtain ⟨_, ht'', hcopy''⟩ := hrun.second.saved hok l hl hwrite
        rw [← hid, ht'', map_some, hcopy''.image_eq]

end Maistr0.Taskmgr
