import Maistr0.Taskmgr.Minting

/-!
# Sequences across restarts

The counter of a manager's own origin is not saved. A restart rebuilds it from the tasks that still carry
the origin, so it knows of a sequence only as long as one of them does: local operations and restarts keep
it that way, a batch from a peer may not.
-/

namespace Maistr0.Taskmgr

open Go List Lib.Keyed

def Task.stamp (t : Task) : String × Nat := (t.origin, t.sequence)

/-- What a manager is asked to do between two restarts; every save succeeds. -/
inductive Act where
  | call (op : Op)
  | sync (tasks : List Task) (mode : SyncMode) (deciding now : Clocks)

structure Node where
  manager : Manager
  past : List (String × Nat)

def Node.assigned (n : Node) : List (String × Nat) := n.manager.issued ++ n.past

namespace Act

def run (m : Manager) : Act → Manager
  | call op => op.run m (.ok ())
  | sync tasks mode deciding now => (m.syncTasks tasks mode deciding now fun _ => .ok ()).2

def Room (own : String) (m : Manager) : Act → Prop
  | call _ => m.syncSeq.get own + 1 < 2 ^ 64
  | sync tasks _ _ _ => m.syncSeq.get own + 2 * tasks.length < 2 ^ 64 ∧
      ∀ t ∈ tasks, t.origin = own → t.sequence + 2 * tasks.length < 2 ^ 64

/-- No task that carries the origin is replaced by a version that does not, and no stamp of the origin
goes to a task that is then passed over. -/
def KeepsOwn (own : String) (m : Manager) : Act → Prop
  | call _ => True
  | sync tasks mode _ _ => (tasks.map Task.id).Nodup ∧ ∀ t ∈ tasks, (t.unstamped → mode.origin ≠ own) ∧
      ∀ current, m.tasks.get? t.id = some current → current.origin = own → t.origin = own ∧ t.sequence ≠ 0

end Act

structure Conditions where
  act : Manager → Act → Prop
  restart : Node → Tasks → Prop

namespace Node

inductive Step (conditions : Conditions) (own : String) : Node → Node → Prop
  | act (n : Node) (a : Act) (h : conditions.act n.manager a) : Step conditions own n { n with manager := a.run n.manager }
  | restart (n : Node) (store : Tasks) (tasks : List Task) (finalizer : Bool) (managerSyncID : Nat) (now : Nat → LoadClock)
    (m : Manager) (hstore : n.manager.store = some store) (h : conditions.restart n store) (htasks : tasks.Perm store.vals)
    (hopen : openManagerWithOrigin store tasks finalizer own managerSyncID now (fun _ => .ok ()) = (.ok (), m)) :
    Step conditions own n { manager := m, past := n.assigned }

/-- A node that some history of a new store leads to. -/
inductive Reached (conditions : Conditions) (own : String) : Node → Prop
  | opened (finalizer : Bool) (managerSyncID : Nat) (now : Nat → LoadClock) (m : Manager)
    (hopen : openManagerWithOrigin ∅ [] finalizer own managerSyncID now (fun _ => .ok ()) = (.ok (), m)) :
    Reached conditions own { manager := m, past := [] }
  | step {n n' : Node} (h : Reached conditions own n) (hstep : Step conditions own n n') : Reached conditions own n'

def Covered (own : String) (n : Node) (store : Tasks) : Prop :=
  ∀ p ∈ n.assigned, p.1 = own → ∃ t ∈ store.vals, t.origin = own ∧ p.2 ≤ t.sequence

def RoomToLoad (own : String) (store : Tasks) : Prop :=
  2 * store.vals.length < 2 ^ 64 ∧ ∀ t ∈ store.vals, t.origin = own → t.sequence + 2 * store.vals.length < 2 ^ 64

def anyHistory : Conditions := { act := fun _ _ => True, restart := fun _ _ => True }

def coveredRestarts (own : String) : Conditions :=
  { act := fun m a => a.Room own m, restart := fun n store => RoomToLoad own store ∧ n.Covered own store }

def keptOrigin (own : String) : Conditions :=
  { act := fun m a => a.Room own m ∧ a.KeepsOwn own m, restart := fun _ store => RoomToLoad own store }

variable {own : String} {n n' : Node} {m : Manager}

/-! ### Acts -/

theorem act_mints (a : Act) (h : a.Room own m) : ∃ k q, Mints own k q m (a.run m) := by
  cases a with
  | call op =>
    have heffect := op.effect m (.ok ())
    exact ⟨1, 0, heffect.mints h⟩
  | sync tasks mode deciding now =>
    obtain ⟨hcounter, hincoming⟩ := h
    refine ⟨2 * tasks.length, 2 ^ 64 - 1 - 2 * tasks.length, m.syncTasks_mints tasks mode deciding now _ ?_ (by omega)⟩
    intro t ht horigin
    have := hincoming t ht horigin
    omega

/-! ### Restarts -/

structure Restarted (own : String) (store : Tasks) (m : Manager) : Prop where
  origin : m.syncOrigin = own
  bound : ∀ p ∈ m.issued, p.1 = own → p.2 ≤ m.syncSeq.get own
  found : ∀ t ∈ store.vals, t.origin = own → t.sequence ≤ m.syncSeq.get own
  held : ∀ t ∈ store.vals, t.origin = own → ∃ t' ∈ m.tasks.vals, t'.origin = own ∧ t.sequence ≤ t'.sequence
  issued : ∀ p ∈ m.issued, ∃ t' ∈ m.tasks.vals, t'.origin = own ∧ p.2 ≤ t'.sequence
  synced : ∃ s, m.store = some s ∧ ∀ id, (s.get? id).map Task.image = (m.tasks.get? id).map Task.image

variable {store : Tasks} {tasks : List Task} {finalizer : Bool} {managerSyncID : Nat} {now : Nat → LoadClock}

theorem opened_run (hown : own ≠ "") (htasks : tasks.Perm store.vals)
    (hopen : openManagerWithOrigin store tasks finalizer own managerSyncID now (fun _ => .ok ()) = (.ok (), m)) :
    ∃ m₀ loaded m₁ s, LoadRun m₀ store tasks now (.ok (), m) loaded m₁ s ∧ m₀.syncOrigin = own ∧ m₀.syncSeq = ∅ ∧
      m₀.issued = [] ∧ m.syncOrigin = m₁.syncOrigin ∧ m.syncSeq = m₁.syncSeq ∧ m.issued = m₁.issued := by
  have hids : (tasks.map Task.id).Nodup := (htasks.map Task.id).nodup_iff.mpr store.nodup
  simp only [openManagerWithOrigin, ne_eq, hown, not_false_eq_true, if_true] at hopen
  have hload := Manager.load_run (m := { newManager (some store) finalizer managerSyncID with syncOrigin := own }) hids rfl now
    fun _ => .ok ()
  rw [hopen] at hload
  rcases hload with ⟨err, herr⟩ | ⟨loaded, m₁, s, hrun⟩
  · cases herr
  have hframe := hrun.second.frame
  exact ⟨_, loaded, m₁, s, hrun, rfl, rfl, rfl, (congrArg Manager.syncOrigin hframe :),
    (congrArg Manager.syncSeq hframe :), (congrArg Manager.issued hframe :)⟩

theorem restarted (hown : own ≠ "") (hroom : RoomToLoad own store) (htasks : tasks.Perm store.vals)
    (hopen : openManagerWithOrigin store tasks finalizer own managerSyncID now (fun _ => .ok ()) = (.ok (), m)) :
    Restarted own store m := by
  obtain ⟨s, hre⟩ := System.reopened htasks finalizer own managerSyncID now fun _ => .ok ()
  obtain ⟨m₀, loaded, _, _, hrun, horigin₀, hcounter₀, hissued₀, horigin, hsyncSeq, hissued'⟩ := opened_run hown htasks hopen
  rw [hopen] at hre
  have hsequence : ∀ t ∈ tasks, t.sequenceOf own ≤ 2 ^ 64 - 1 - 2 * store.vals.length := by
    intro t ht
    by_cases hzero : t.sequenceOf own = 0
    · omega
    obtain ⟨horigin, heq⟩ := Task.of_sequenceOf_pos (Nat.pos_of_ne_zero hzero)
    have := hroom.2 t (htasks.mem_iff.mp ht) horigin
    omega
  have hzero : m₀.syncSeq.get own = 0 := by
    rw [hcounter₀]
    rfl
  have hlength : tasks.length = store.vals.length := htasks.length_eq
  have hbound := hroom.1
  obtain ⟨hmints, hfound, heach, hissued⟩ := Manager.loadTasks_mints horigin₀ hrun.loads hsequence (by omega)
  -- what the first loop ends with is in memory
  have hmemory : ∀ l ∈ loaded, ∃ t' ∈ m.tasks.vals, t'.origin = l.task.origin ∧ t'.sequence = l.task.sequence := by
    intro l hl
    obtain ⟨t', ht', hcopy⟩ := hrun.held hl
    exact ⟨t', (get?_eq_some.mp ht').1, hcopy.origin, hcopy.sequence⟩
  refine ⟨horigin.trans (hmints.syncOrigin.trans horigin₀), ?_, ?_, ?_, ?_, s, hre.store, hre.synced rfl⟩
  · rw [hissued', hsyncSeq]
    exact hmints.bound (by simp [hissued₀])
  · intro t ht heq
    rw [hsyncSeq, ← Task.sequenceOf_own hown heq]
    exact hfound t (htasks.mem_iff.mpr ht)
  · intro t ht heq
    obtain ⟨l, hl, -, hcases⟩ := exists_left heach.flip (htasks.mem_iff.mpr ht)
    obtain ⟨t', ht', horigin', hsequence'⟩ := hmemory l hl
    rw [Task.sequenceOf_own hown heq] at hcases
    rcases hcases with ⟨hnew, hle⟩ | ⟨hold, hle⟩
    · exact ⟨t', ht', horigin'.trans hnew, hle.trans hsequence'.ge⟩
    · exact ⟨t', ht', horigin'.trans (hold.trans heq), (hsequence'.trans hle).ge⟩
  · intro p hp
    rw [hissued'] at hp
    rcases hissued p hp with hold | ⟨l, hl, hnew, hle⟩
    · rw [hissued₀] at hold
      cases hold
    · obtain ⟨t', ht', horigin', hsequence'⟩ := hmemory l hl
      exact ⟨t', ht', horigin'.trans hnew, hle.trans hsequence'.ge⟩

/-! ### The counter is past every stamp -/

structure Counted (own : String) (n : Node) : Prop where
  origin : n.manager.syncOrigin = own
  counter : ∀ p ∈ n.assigned, p.1 = own → p.2 ≤ n.manager.syncSeq.get own

theorem Counted.act {a : Act} (h : Counted own n) (hroom : a.Room own n.manager) :
    Counted own { n with manager := a.run n.manager } := by
  obtain ⟨_, _, hmints⟩ := act_mints a hroom
  refine ⟨hmints.syncOrigin.trans h.origin, fun p hp hown => ?_⟩
  rcases mem_append.mp hp with hmem | hmem
  · exact hmints.bound (fun p hp => h.counter p (mem_append_left _ hp)) p hmem hown
  · exact (h.counter p (mem_append_right _ hmem) hown).trans hmints.lower

theorem Restarted.counted {past : List (String × Nat)} (h : Restarted own store m)
    (hcovered : ∀ p ∈ past, p.1 = own → ∃ t ∈ store.vals, t.origin = own ∧ p.2 ≤ t.sequence) : Counted own ⟨m, past⟩ := by
  refine ⟨h.origin, fun p hp hown => ?_⟩
  rcases mem_append.mp hp with hmem | hmem
  · exact h.bound p hmem hown
  · obtain ⟨t, ht, horigin, hle⟩ := hcovered p hmem hown
    exact hle.trans (h.found t ht horigin)

theorem roomToLoad_empty : RoomToLoad own ∅ := ⟨by decide, by simp⟩

theorem Reached.counted (hown : own ≠ "") (h : Reached (coveredRestarts own) own n) : Counted own n := by
  induction h with
  | opened _ _ _ _ hopen =>
    exact (restarted hown roomToLoad_empty (.refl _) hopen).counted fun p hp => by cases hp
  | step _ hstep ih =>
    cases hstep with
    | act _ hroom => exact ih.act hroom
    | restart _ _ _ _ _ _ _ h htasks hopen =>
      exact (restarted hown h.1 htasks hopen).counted h.2

/-! ### Every stamp is on a task -/

structure Anchored (own : String) (n : Node) : Prop where
  synced : ∃ s, n.manager.store = some s ∧ ∀ id, (s.get? id).map Task.stamp = (n.manager.tasks.get? id).map Task.stamp
  covered : ∀ p ∈ n.assigned, p.1 = own → ∃ t ∈ n.manager.tasks.vals, t.origin = own ∧ p.2 ≤ t.sequence

namespace Anchored

variable {past stamps : List (String × Nat)} {m' : Manager} {t : Task} {mode : SyncMode}

theorem exists_stamp {tasks tasks' : Tasks} {c : Task} (hc : c ∈ tasks.vals)
    (h : ∀ id, (tasks'.get? id).map Task.stamp = (tasks.get? id).map Task.stamp) :
    ∃ c' ∈ tasks'.vals, c'.origin = c.origin ∧ c'.sequence = c.sequence := by
  have hstamp := h c.id
  rw [get?_eq_some.mpr ⟨hc, rfl⟩, Option.map_some, Option.map_eq_some_iff] at hstamp
  obtain ⟨c', hc', heq⟩ := hstamp
  exact ⟨c', (get?_eq_some.mp hc').1, Prod.mk.inj heq⟩

theorem covers (h : Anchored own n) (hstore : n.manager.store = some store) : n.Covered own store := by
  obtain ⟨_, hs, hsynced⟩ := h.synced
  cases hs.symm.trans hstore
  intro p hp hown
  obtain ⟨_, ht, horigin, hle⟩ := h.covered p hp hown
  obtain ⟨t', ht', horigin', hsequence'⟩ := exists_stamp ht hsynced
  exact ⟨t', ht', horigin'.trans horigin, hle.trans hsequence'.ge⟩

section

variable (h : Anchored own ⟨m, past⟩)

include h

theorem put (htasks : m'.tasks = m.tasks.put t) (hstored : Stored (.ok ()) t m.store m'.store)
    (hissued : m'.issued = stamps ++ m.issued) (hnew : ∀ p ∈ stamps, p.1 = own → t.origin = own ∧ p.2 ≤ t.sequence)
    (hkeeps : ∀ c, m.tasks.get? t.id = some c → c.origin = own → ∀ p ∈ m.issued ++ past, p.1 = own → p.2 ≤ c.sequence →
      t.origin = own ∧ p.2 ≤ t.sequence) : Anchored own ⟨m', past⟩ := by
  obtain ⟨s, hs, hsynced⟩ := h.synced
  rw [hs] at hstored
  obtain ⟨copy, hcopy, hstore⟩ := hstored
  refine ⟨⟨s.put copy, hstore, fun id => ?_⟩, fun p hp hown => ?_⟩
  · rw [htasks, get?_put, get?_put, hcopy.id]
    split
    · exact congrArg some (congrArg₂ Prod.mk hcopy.origin hcopy.sequence)
    · exact hsynced id
  change p ∈ m'.issued ++ past at hp
  have hmem : t ∈ m'.tasks.vals := by
    rw [htasks]
    exact mem_cons_self
  rw [hissued, append_assoc, mem_append] at hp
  rcases hp with hp | hp
  · exact ⟨t, hmem, hnew p hp hown⟩
  obtain ⟨c, hc, horigin, hle⟩ := h.covered p hp hown
  by_cases hid : c.id = t.id
  · exact ⟨t, hmem, hkeeps c (get?_eq_some.mpr ⟨hc, hid⟩) horigin p hp hown hle⟩
  refine ⟨c, ?_, horigin, hle⟩
  rw [htasks, vals_put, mem_cons, mem_filter]
  exact .inr ⟨hc, by simpa using hid⟩

theorem same (hstore : m'.store = m.store) (hissued : m'.issued = stamps ++ m.issued)
    (hforeign : ∀ p ∈ stamps, p.1 ≠ own)
    (hstamps : ∀ id, (m'.tasks.get? id).map Task.stamp = (m.tasks.get? id).map Task.stamp) :
    Anchored own ⟨m', past⟩ := by
  obtain ⟨s, hs, hsynced⟩ := h.synced
  refine ⟨⟨s, hstore.trans hs, fun id => (hsynced id).trans (hstamps id).symm⟩, fun p hp hown => ?_⟩
  change p ∈ m'.issued ++ past at hp
  rw [hissued, append_assoc, mem_append] at hp
  obtain ⟨_, hc, horigin, hle⟩ := h.covered p (hp.resolve_left fun hmem => hforeign p hmem hown) hown
  obtain ⟨c', hc', horigin', hsequence'⟩ := exists_stamp hc hstamps
  exact ⟨c', hc', horigin'.trans horigin, hle.trans hsequence'.ge⟩

theorem call (hcounted : Counted own ⟨m, past⟩) (op : Op) (hroom : m.syncSeq.get own + 1 < 2 ^ 64) :
    Anchored own ⟨op.run m (.ok ()), past⟩ := by
  have hown : m.syncOrigin = own := hcounted.origin
  have hnext : ∀ {u t' : Task} {m₀ m₁ : Manager}, Committed (.ok ()) m₀ u t' m₁ → m₀.syncOrigin = m.syncOrigin →
      m₀.syncSeq = m.syncSeq → m₀.issued = m.issued → m₀.tasks = m.tasks → m₀.store = m.store →
      Anchored own ⟨m₁.put t', past⟩ := by
    intro u t' m₀ m₁ hcommit horigin hsyncSeq hissued htasks hstore
    have hstamp : t'.origin = own ∧ t'.sequence = m.syncSeq.get own + 1 := by
      rw [hcommit.origin, hcommit.sequence, horigin, hsyncSeq, hown, incr_of_lt hroom]
      exact ⟨rfl, rfl⟩
    have hissued' : (m₁.put t').issued = [(own, m.syncSeq.get own + 1)] ++ m.issued := by
      refine hcommit.issued.trans ?_
      rw [horigin, hsyncSeq, hissued, hown, incr_of_lt hroom]
      rfl
    refine h.put ?_ (hstore ▸ hcommit.stored) hissued' ?_ ?_
    · exact congrArg (Lib.Keyed.put · t') (hcommit.tasks.trans htasks)
    · intro p hp _
      obtain rfl := mem_singleton.mp hp
      exact ⟨hstamp.1, hstamp.2.ge⟩
    · intro c _ _ p hp hp' _
      have hle : p.2 ≤ m.syncSeq.get own := hcounted.counter p hp hp'
      exact ⟨hstamp.1, by omega⟩
  have hquiet : ∀ {m' : Manager}, m'.store = m.store → m'.issued = m.issued →
      (∀ id, (m'.tasks.get? id).map Task.stamp = (m.tasks.get? id).map Task.stamp) → Anchored own ⟨m', past⟩ :=
    fun hstore hissued hstamps => h.same hstore (hissued.trans (nil_append _).symm) (by simp) hstamps
  cases op.effect m (.ok ()) with
  | refused h' | configured _ h' => exact hquiet (by rw [h']) (by rw [h']) fun id => by rw [h']
  | updated _ _ _ _ _ _ hcommit h' =>
    rw [h']
    exact hnext hcommit rfl rfl rfl rfl rfl
  | uncommitted t t' ht ht' hstamp hids h' =>
    refine hquiet (by rw [h']; rfl) (by rw [h']; rfl) fun id => ?_
    rw [h', Manager.put, get?_put]
    split
    · rename_i hid
      have hid : t.id = id := ht'.id.symm.trans hid
      rw [← hid, ht]
      exact congrArg some (congrArg₂ Prod.mk hstamp.1 hstamp.2)
    · rfl
  | created _ _ _ _ _ _ _ hcommit h' =>
    rcases h' with ⟨-, h'⟩ | ⟨⟨err, h'⟩, -⟩
    · rw [h']
      exact hnext hcommit rfl rfl rfl rfl rfl
    · cases h'

end

def KeepsTask (own : String) (mode : SyncMode) (m : Manager) (incoming : Task) (accepted : Bool) : Prop :=
  (incoming.unstamped → mode.origin ≠ own) ∧
    ∀ current, m.tasks.get? incoming.id = some current → current.origin = own → incoming.origin = own ∧
      incoming.sequence ≠ 0 ∧
      (Manager.passedOver mode accepted (some current) incoming = false → current.sequence ≤ incoming.sequence)

theorem deliver {incoming : Task} {accepted : Bool} {result : Except Failure Unit × Manager}
    (hown : own ≠ "") (h : Anchored own ⟨m, past⟩) (hdelivered : Delivered mode incoming accepted (.ok ()) m result)
    (hkeeps : KeepsTask own mode m incoming accepted) : Anchored own ⟨result.2, past⟩ := by
  obtain ⟨hsource, hcurrent⟩ := hkeeps
  obtain ⟨hid, htasks, hstore, -⟩ := m.stampIncoming_frame incoming mode.origin
  have hcases := m.stampIncoming_cases incoming mode.origin
  -- the stamps given to an incoming task are not of the origin
  have hforeign : ∃ stamps, (m.stampIncoming incoming mode.origin).2.issued = stamps ++ m.issued ∧
      ∀ p ∈ stamps, p.1 ≠ own := by
    rcases hcases with ⟨hunstamped, sequence, hissued⟩ | ⟨-, -, hissued⟩
    · refine ⟨[(mode.origin, sequence)], hissued, fun p hp => ?_⟩
      obtain rfl := mem_singleton.mp hp
      exact hsource hunstamped
    · exact ⟨[], hissued, by simp⟩
  obtain ⟨_, hissued, hother⟩ := hforeign
  cases hdelivered with
  | refused => exact h
  | passed => exact h.same hstore hissued hother fun id => by rw [htasks]
  | taken t result hpassed hadopted =>
    have hput : result.2.tasks = m.tasks.put t := (hadopted.tasks rfl).trans (by rw [htasks])
    have hstored : Stored (.ok ()) t m.store result.2.store := hstore ▸ hadopted.stored
    rcases hadopted.stamp with ⟨horigin, hsequence, -, hissued'⟩ | ⟨hnone, horigin, hsequence, -, hissued'⟩
    · refine h.put hput hstored (hissued'.trans hissued) (fun p hp heq => absurd heq (hother p hp)) ?_
      intro c hc hc' p hp heq hle
      rw [hadopted.id, hid] at hc
      obtain ⟨ho, hs, hrise⟩ := hcurrent c hc hc'
      have hstamped : (m.stampIncoming incoming mode.origin).1 = incoming := by
        rcases hcases with ⟨hunstamped, -⟩ | ⟨-, heq, -⟩
        · rw [Task.unstamped, ho] at hunstamped
          simp [hown, hs] at hunstamped
        · exact heq
      rw [hstamped, hc] at hpassed
      rw [hstamped] at horigin hsequence
      exact ⟨horigin.trans ho, (hle.trans (hrise hpassed)).trans hsequence.ge⟩
    · rw [hissued, ← cons_append] at hissued'
      refine h.put hput hstored hissued' (fun p hp heq => ?_) fun c hc => ?_
      · rcases mem_cons.mp hp with rfl | hmem
        · exact ⟨horigin.trans heq, hsequence.ge⟩
        · exact absurd heq (hother p hmem)
      · rw [htasks, ← hadopted.id, hc] at hnone
        cases hnone

theorem syncTasksFrom (hown : own ≠ "") {batch : List (Task × Bool)} :
    ∀ {m : Manager} (now : Clocks), (batch.map (·.1.id)).Nodup → (∀ p ∈ batch, KeepsTask own mode m p.1 p.2) →
      Anchored own ⟨m, past⟩ → Anchored own ⟨(m.syncTasksFrom mode batch now fun _ => .ok ()).2, past⟩ := by
  induction batch with
  | nil => exact fun _ _ _ h => h
  | cons p rest ih =>
    intro m now hids hkeeps h
    obtain ⟨incoming, accepted⟩ := p
    rw [map_cons, nodup_cons] at hids
    have hdelivered := m.syncTask_delivered mode incoming accepted (now 0) (.ok ())
    have hturn := h.deliver hown hdelivered (hkeeps (incoming, accepted) mem_cons_self)
    have hothers : ∀ p ∈ rest, (m.syncTask mode incoming accepted (now 0) (.ok ())).2.tasks.get? p.1.id = m.tasks.get? p.1.id :=
      fun p hp => hdelivered.others fun heq => hids.1 (heq ▸ mem_map_of_mem hp)
    rw [Manager.syncTasksFrom]
    generalize m.syncTask mode incoming accepted (now 0) (.ok ()) = turn at *
    obtain ⟨result, _⟩ := turn
    cases result with
    | error => exact hturn
    | ok =>
      refine ih (fun i => now (i + 1)) hids.2 (fun p hp => ?_) hturn
      have hrest := hkeeps p (mem_cons_of_mem _ hp)
      exact ⟨hrest.1, fun current hcurrent => hrest.2 current ((hothers p hp).symm.trans hcurrent)⟩

theorem sync (hown : own ≠ "") {tasks : List Task} {deciding now : Clocks}
    (hkeeps : (Act.sync tasks mode deciding now).KeepsOwn own m) (h : Anchored own ⟨m, past⟩) :
    Anchored own ⟨(Act.sync tasks mode deciding now).run m, past⟩ := by
  obtain ⟨hids, hkeeps⟩ := hkeeps
  have hfst : (tasks.zip (m.replicaAccepted tasks mode deciding)).map (·.1.id) = tasks.map Task.id := by
    have hmap := congrArg (map Task.id) (m.map_fst_replicaAccepted tasks mode deciding)
    rwa [map_map] at hmap
  refine h.syncTasksFrom hown now (hfst ▸ hids) fun p hp => ?_
  obtain ⟨hunstamped, hcurrent⟩ := hkeeps p.1 (of_mem_zip hp).1
  refine ⟨hunstamped, fun current hget horigin => ?_⟩
  obtain ⟨ho, hs⟩ := hcurrent current hget horigin
  refine ⟨ho, hs, fun hpassed => ?_⟩
  refine Manager.passedOver_sequence hpassed (fun hmerge haccepted => ?_) (ho ▸ hown) (ho.trans horigin.symm)
  rw [m.replicaAccepted_outranks tasks mode deciding hids hmerge hp hget, Bool.and_eq_true] at haccepted
  exact haccepted.2

theorem restart (h : Restarted own store m)
    (hcovered : ∀ p ∈ past, p.1 = own → ∃ t ∈ store.vals, t.origin = own ∧ p.2 ≤ t.sequence) : Anchored own ⟨m, past⟩ := by
  obtain ⟨s, hs, himage⟩ := h.synced
  refine ⟨⟨s, hs, fun id => ?_⟩, fun p hp hown => ?_⟩
  · have hstamp := congrArg (Option.map Prod.snd) (himage id)
    rw [Option.map_map, Option.map_map] at hstamp
    exact hstamp
  rcases mem_append.mp hp with hmem | hmem
  · exact h.issued p hmem
  obtain ⟨t, ht, horigin, hle⟩ := hcovered p hmem hown
  obtain ⟨t', ht', horigin', hle'⟩ := h.held t ht horigin
  exact ⟨t', ht', horigin', hle.trans hle'⟩

end Anchored

theorem Reached.covered (hown : own ≠ "") (h : Reached (keptOrigin own) own n) :
    Reached (coveredRestarts own) own n ∧ Anchored own n := by
  induction h with
  | opened finalizer managerSyncID now m hopen =>
    exact ⟨.opened finalizer managerSyncID now m hopen,
      .restart (restarted hown roomToLoad_empty (.refl _) hopen) fun p hp => by cases hp⟩
  | step _ hstep ih =>
    obtain ⟨hreached, hanchored⟩ := ih
    cases hstep with
    | act a h =>
      refine ⟨.step hreached (.act _ a h.1), ?_⟩
      cases a with
      | call op => exact hanchored.call (hreached.counted hown) op h.1
      | sync => exact hanchored.sync hown h.2
    | restart store tasks finalizer managerSyncID now m hstore h htasks hopen =>
      have hcovered := hanchored.covers hstore
      refine ⟨.step hreached (.restart _ store tasks finalizer managerSyncID now m hstore ⟨h, hcovered⟩ htasks hopen), ?_⟩
      exact .restart (restarted hown h htasks hopen) hcovered

/-- In every history whose restarts are covered, each sequence that the origin assigns is past all it
assigned before, in this run of the manager and in those before it; and the restarts are covered if
batches leave the tasks of the origin to the origin. -/
theorem next_sequence_past (hown : own ≠ "") :
    (∀ n, Reached (coveredRestarts own) own n → ∀ a : Act, a.Room own n.manager →
      ∃ stamps, (a.run n.manager).issued = stamps ++ n.manager.issued ∧
        ∀ p ∈ stamps, p.1 = own → ∀ q ∈ n.assigned, q.1 = own → q.2 < p.2) ∧
      ∀ n, Reached (keptOrigin own) own n → Reached (coveredRestarts own) own n := by
  refine ⟨fun n hreached a hroom => ?_, fun n hreached => (hreached.covered hown).1⟩
  obtain ⟨_, q, hmints⟩ := act_mints a hroom
  obtain ⟨stamps, hissued, hrange⟩ := hmints.issued
  refine ⟨stamps, hissued, fun p hp hp' q hq hq' => ?_⟩
  have hcounter := (hreached.counted hown).counter q hq hq'
  exact hcounter.trans_lt (hrange p hp hp').1

/-! ### A task that a peer takes over -/

def createTask : Act := .call (.create "report" System.oneSubtask false System.noon)

def firstTask : Node := { manager := createTask.run System.emptyNode, past := [] }

def peerVersion : Task := { id := "task-1", origin := "task:peer", sequence := 7, status := .completed, updatedAt := 13 }

def takenOver : Node :=
  { firstTask with
    manager := (Act.sync [peerVersion] ⟨true, false, "task:peer"⟩ System.noon System.noon).run firstTask.manager }

def reopened (n : Node) : Node := { manager := System.restarted n.manager, past := n.assigned }

theorem firstTask_reached {conditions : Conditions} (h : conditions.act System.emptyNode createTask) :
    Reached conditions "task:node" firstTask :=
  .step (.opened false 1 System.loadClock System.emptyNode rfl) (.act _ createTask h)

theorem reopened_step {conditions : Conditions} (n : Node) (hstore : n.manager.store = some (n.manager.store.getD ∅))
    (h : conditions.restart n (n.manager.store.getD ∅))
    (hopen : (openManagerWithOrigin (n.manager.store.getD ∅) (n.manager.store.getD ∅).vals false "task:node" 1 System.loadClock
      fun _ => .ok ()).1 = .ok ()) : Step conditions "task:node" n (reopened n) :=
  .restart n _ _ false 1 System.loadClock _ hstore h (.refl _) (Prod.ext hopen rfl)

theorem taken_over_sequence_repeated :
    Reached anyHistory "task:node" (reopened takenOver) ∧ ("task:node", 1) ∈ (reopened takenOver).assigned ∧
      (createTask.run (reopened takenOver).manager).issued = [("task:node", 1)] := by
  have htaken : Reached anyHistory "task:node" takenOver := .step (firstTask_reached trivial) (.act firstTask _ trivial)
  exact ⟨.step htaken (reopened_step takenOver rfl trivial rfl), by decide, by decide⟩

theorem next_sequence_past_firstTask : Reached (keptOrigin "task:node") "task:node" (reopened firstTask) ∧
    (reopened firstTask).assigned = [("task:node", 2), ("task:node", 1)] ∧
    (createTask.run (reopened firstTask).manager).issued = [("task:node", 3), ("task:node", 2)] ∧
    ∃ stamps, (createTask.run (reopened firstTask).manager).issued = stamps ++ (reopened firstTask).manager.issued ∧
      ∀ p ∈ stamps, p.1 = "task:node" → ∀ q ∈ (reopened firstTask).assigned, q.1 = "task:node" → q.2 < p.2 := by
  have hroom : RoomToLoad "task:node" (firstTask.manager.store.getD ∅) := ⟨by decide, by decide⟩
  have hreached : Reached (keptOrigin "task:node") "task:node" (reopened firstTask) :=
    .step (firstTask_reached ⟨show (0 : Nat) + 1 < 2 ^ 64 by decide, trivial⟩) (reopened_step firstTask rfl hroom rfl)
  have hown : "task:node" ≠ "" := by decide
  obtain ⟨hpast, hcovered⟩ := next_sequence_past hown
  exact ⟨hreached, by decide, by decide, hpast _ (hcovered _ hreached) createTask (show (2 : Nat) + 1 < 2 ^ 64 by decide)⟩

end Node

end Maistr0.Taskmgr
