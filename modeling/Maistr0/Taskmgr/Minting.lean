import Maistr0.Taskmgr.Batches
import Maistr0.Taskmgr.Restamp

/-!
# What the counter of an origin does

Whatever a manager does between two restarts, the counter of an origin goes up, by at most the stamps
that are taken and the sequences that are met, and every stamp that is taken is one it passed on the way.
-/

namespace Maistr0.Taskmgr

open Go List

/-- From `m` to `m'` at most `k` stamps of `own` are taken and sequences of it up to `q` are met. -/
structure Mints (own : String) (k q : Nat) (m m' : Manager) : Prop where
  syncOrigin : m'.syncOrigin = m.syncOrigin
  lower : m.syncSeq.get own ≤ m'.syncSeq.get own
  upper : m'.syncSeq.get own ≤ max (m.syncSeq.get own) q + k
  issued : ∃ stamps, m'.issued = stamps ++ m.issued ∧
    ∀ p ∈ stamps, p.1 = own → m.syncSeq.get own < p.2 ∧ p.2 ≤ m'.syncSeq.get own

namespace Mints

variable {own origin : String} {k k' q q' n : Nat} {m m' m'' : Manager}

theorem same (horigin : m'.syncOrigin = m.syncOrigin) (hsyncSeq : m'.syncSeq = m.syncSeq) (hissued : m'.issued = m.issued) :
    Mints own 0 q m m' := by
  refine ⟨horigin, by rw [hsyncSeq], by rw [hsyncSeq]; omega, [], hissued, by simp⟩

theorem trans (h : Mints own k q m m') (h' : Mints own k' q m' m'') : Mints own (k + k') q m m'' := by
  obtain ⟨stamps, hstamps, hrange⟩ := h.issued
  obtain ⟨stamps', hstamps', hrange'⟩ := h'.issued
  have hlower := h.lower
  have hlower' := h'.lower
  have hupper := h.upper
  have hupper' := h'.upper
  refine ⟨h'.syncOrigin.trans h.syncOrigin, hlower.trans hlower', by omega, stamps' ++ stamps, ?_, fun p hp hown => ?_⟩
  · rw [hstamps', hstamps, append_assoc]
  rcases mem_append.mp hp with hmem | hmem
  · have := hrange' p hmem hown
    omega
  · have := hrange p hmem hown
    omega

theorem weaken (h : Mints own k q m m') (hk : k ≤ k') (hq : q ≤ q') : Mints own k' q' m m' := by
  have hupper := h.upper
  exact ⟨h.syncOrigin, h.lower, by omega, h.issued⟩

theorem next (horigin : m'.syncOrigin = m.syncOrigin) (hsyncSeq : m'.syncSeq = m.syncSeq.set origin (incr (m.syncSeq.get origin)))
    (hissued : m'.issued = (origin, incr (m.syncSeq.get origin)) :: m.issued) (hroom : m.syncSeq.get own + 1 < 2 ^ 64) :
    Mints own 1 q m m' := by
  have hget : m'.syncSeq.get own = if origin = own then m.syncSeq.get own + 1 else m.syncSeq.get own := by
    rw [hsyncSeq, Lib.Clock.get_set]
    split
    · subst origin
      exact incr_of_lt hroom
    · rfl
  have hbounds : m.syncSeq.get own ≤ m'.syncSeq.get own ∧ m'.syncSeq.get own ≤ m.syncSeq.get own + 1 := by
    rw [hget]
    split <;> omega
  refine ⟨horigin, hbounds.1, by omega, [(origin, incr (m.syncSeq.get origin))], hissued, fun p hp hown => ?_⟩
  obtain rfl := mem_singleton.mp hp
  change origin = own at hown
  subst hown
  rw [if_pos rfl] at hget
  rw [incr_of_lt hroom, hget]
  omega

theorem raise (horigin : m'.syncOrigin = m.syncOrigin) (hsyncSeq : m'.syncSeq = m.syncSeq.raise origin n)
    (hissued : m'.issued = m.issued) (hq : origin = own → n ≤ q) : Mints own 0 q m m' := by
  have hget : m'.syncSeq.get own = if origin = own then max (m.syncSeq.get own) n else m.syncSeq.get own := by
    rw [hsyncSeq, Lib.Clock.get_raise]
  have hbounds : m.syncSeq.get own ≤ m'.syncSeq.get own ∧ m'.syncSeq.get own ≤ max (m.syncSeq.get own) q := by
    rw [hget]
    split
    · have := hq ‹_›
      omega
    · omega
  exact ⟨horigin, hbounds.1, by omega, [], hissued, by simp⟩

theorem bound (h : Mints own k q m m') (hissued : ∀ p ∈ m.issued, p.1 = own → p.2 ≤ m.syncSeq.get own) :
    ∀ p ∈ m'.issued, p.1 = own → p.2 ≤ m'.syncSeq.get own := by
  obtain ⟨_, hstamps, hrange⟩ := h.issued
  intro p hp hown
  rw [hstamps] at hp
  rcases mem_append.mp hp with hmem | hmem
  · exact (hrange p hmem hown).2
  · exact (hissued p hmem hown).trans h.lower

end Mints

variable {own : String} {q : Nat} {m m' : Manager}

/-! ### Operations -/

theorem Effect.mints {keepsIDs hasWork freshID : Prop} {saved : Except String Unit}
    (h : Effect keepsIDs hasWork freshID saved m m') (hroom : m.syncSeq.get own + 1 < 2 ^ 64) : Mints own 1 q m m' := by
  have hnothing : ∀ {m₁ : Manager}, m₁.syncOrigin = m.syncOrigin → m₁.syncSeq = m.syncSeq → m₁.issued = m.issued →
      Mints own 1 q m m₁ := fun ho hs hi => (Mints.same ho hs hi).weaken (Nat.zero_le 1) le_rfl
  cases h with
  | refused h | configured _ h => exact hnothing (by rw [h]) (by rw [h]) (by rw [h])
  | updated _ _ _ _ _ _ hcommit h =>
    subst h
    exact .next hcommit.syncOrigin hcommit.syncSeq hcommit.issued hroom
  | uncommitted _ _ _ _ _ _ h => exact hnothing (by rw [h]; rfl) (by rw [h]; rfl) (by rw [h]; rfl)
  | created _ _ _ _ _ _ _ hcommit h =>
    rcases h with ⟨-, rfl⟩ | ⟨-, rfl⟩
    · exact .next hcommit.syncOrigin hcommit.syncSeq hcommit.issued hroom
    · exact .next hcommit.syncOrigin hcommit.syncSeq hcommit.issued hroom

/-! ### Batches -/

theorem Manager.stampIncoming_mints (incoming : Task) (source : String) (hq : incoming.origin = own → incoming.sequence ≤ q)
    (hroom : m.syncSeq.get own + 1 < 2 ^ 64) : Mints own 1 q m (m.stampIncoming incoming source).2 := by
  unfold stampIncoming
  split
  · exact .next rfl rfl rfl hroom
  have hraise : Mints own 0 q m { m with syncSeq := m.syncSeq.raise incoming.origin incoming.sequence } :=
    .raise rfl rfl rfl hq
  exact hraise.weaken (Nat.zero_le 1) le_rfl

theorem Delivered.mints {mode : SyncMode} {incoming : Task} {accepted : Bool} {saved : Except String Unit}
    {result : Except Failure Unit × Manager} (h : Delivered mode incoming accepted saved m result)
    (hq : incoming.origin = own → incoming.sequence ≤ q) (hroom : max (m.syncSeq.get own) q + 2 < 2 ^ 64) :
    Mints own 2 q m result.2 := by
  have hstamp : Mints own 1 q m (m.stampIncoming incoming mode.origin).2 :=
    m.stampIncoming_mints incoming mode.origin hq (by omega)
  cases h with
  | refused => exact (Mints.same rfl rfl rfl).weaken (Nat.zero_le 2) le_rfl
  | passed => exact hstamp.weaken (by omega) le_rfl
  | taken _ result _ h =>
    have hupper := hstamp.upper
    have hadopt : Mints own 1 q (m.stampIncoming incoming mode.origin).2 result.2 := by
      rcases h.stamp with ⟨-, -, hsyncSeq, hissued⟩ | ⟨-, -, -, hsyncSeq, hissued⟩
      · exact (Mints.same h.syncOrigin hsyncSeq hissued).weaken (Nat.zero_le 1) le_rfl
      · exact .next h.syncOrigin hsyncSeq hissued (by omega)
    exact hstamp.trans hadopt

theorem Manager.syncTasksFrom_mints (mode : SyncMode) {batch : List (Task × Bool)} :
    ∀ {m : Manager} (now : Clocks) (saves : Nat → Except String Unit),
      (∀ p ∈ batch, p.1.origin = own → p.1.sequence ≤ q) → max (m.syncSeq.get own) q + 2 * batch.length < 2 ^ 64 →
      Mints own (2 * batch.length) q m (m.syncTasksFrom mode batch now saves).2 := by
  induction batch with
  | nil =>
    intro m now saves _ _
    exact .same rfl rfl rfl
  | cons p _ ih =>
    intro m now saves hq hroom
    obtain ⟨incoming, accepted⟩ := p
    rw [length_cons] at hroom ⊢
    have hturn : Mints own 2 q m (m.syncTask mode incoming accepted (now 0) (saves 0)).2 :=
      (m.syncTask_delivered mode incoming accepted (now 0) (saves 0)).mints (hq (incoming, accepted) mem_cons_self) (by omega)
    rw [syncTasksFrom]
    generalize m.syncTask mode incoming accepted (now 0) (saves 0) = turn at *
    obtain ⟨result, m₁⟩ := turn
    cases result with
    | error => exact hturn.weaken (by omega) le_rfl
    | ok =>
      have hupper := hturn.upper
      have hrest := ih (m := m₁) (fun i => now (i + 1)) (fun i => saves (i + 1))
        (forall_mem_cons.mp hq).2 (by dsimp only at hupper; omega)
      exact (hturn.trans hrest).weaken (by omega) le_rfl

theorem Manager.syncTasks_mints (tasks : List Task) (mode : SyncMode) (deciding now : Clocks)
    (saves : Nat → Except String Unit) (hq : ∀ t ∈ tasks, t.origin = own → t.sequence ≤ q)
    (hroom : max (m.syncSeq.get own) q + 2 * tasks.length < 2 ^ 64) :
    Mints own (2 * tasks.length) q m (m.syncTasks tasks mode deciding now saves).2 := by
  unfold syncTasks
  generalize (if mode.mergeReplicas = true then _ else _ : List Bool) = flags
  have hlength : (tasks.zip flags).length ≤ tasks.length := by
    rw [length_zip]
    exact min_le_left _ _
  have hbatch : Mints own (2 * (tasks.zip flags).length) q m (m.syncTasksFrom mode (tasks.zip flags) now saves).2 :=
    syncTasksFrom_mints mode now saves (fun p hp => hq p.1 (of_mem_zip hp).1) (by omega)
  exact hbatch.weaken (by omega) le_rfl

/-! ### Restarts -/

theorem iterate_incr {c n : Nat} (h : c + n < 2 ^ 64) : incr^[n] c = c + n := by
  rw [incr_eq_next, Lib.Renumber.iterate_next (by omega) (by omega), if_pos h]

theorem Turn.mints {t : Task} {l : Loaded} (h : Turn m t l m') (hown : m.syncOrigin = own) (hq : t.sequenceOf own ≤ q)
    (hroom : max (m.syncSeq.get own) q + 2 < 2 ^ 64) :
    Mints own 2 q m m' ∧ t.sequenceOf own ≤ m'.syncSeq.get own ∧
      ∀ p ∈ m'.issued, p ∈ m.issued ∨ t.restamped = true ∧ p.2 ≤ m'.syncSeq.get own := by
  subst hown
  have hle := t.mints_le
  have hcounter : m'.syncSeq.get m.syncOrigin = max (m.syncSeq.get m.syncOrigin) (t.sequenceOf m.syncOrigin) + t.mints := by
    rw [h.counter, iterate_incr (by omega)]
  obtain ⟨stamps, hstamps, hrange⟩ := h.issued
  have hstamp : ∀ p ∈ stamps, 0 < t.mints ∧ m.syncSeq.get m.syncOrigin < p.2 ∧ p.2 ≤ m'.syncSeq.get m.syncOrigin := by
    intro p hp
    obtain ⟨-, _, hk, hk', heq⟩ := hrange p hp
    rw [iterate_incr (by omega)] at heq
    omega
  refine ⟨⟨h.syncOrigin, by omega, by omega, stamps, hstamps, fun p hp _ => (hstamp p hp).2⟩, by omega, fun p hp => ?_⟩
  rw [hstamps] at hp
  rcases mem_append.mp hp with hnew | hold
  · refine .inr ⟨Bool.eq_true_of_not_eq_false fun hkept => ?_, (hstamp p hnew).2.2⟩
    exact (hstamp p hnew).1.ne' (t.mints_eq_zero.mpr hkept)
  · exact .inl hold

/-- The whole first loop: the counter ends at or past every sequence found, each task ends with the stamp
it had or one of the own origin that is at least as high, and no stamp is taken past all of those. -/
theorem Manager.loadTasks_mints {tasks : List Task} :
    ∀ {m m' : Manager} {now : Nat → LoadClock} {loaded : List Loaded}, m.syncOrigin = own →
      m.loadTasks tasks now = .ok (loaded, m') → (∀ t ∈ tasks, t.sequenceOf own ≤ q) →
      max (m.syncSeq.get own) q + 2 * tasks.length < 2 ^ 64 →
      Mints own (2 * tasks.length) q m m' ∧ (∀ t ∈ tasks, t.sequenceOf own ≤ m'.syncSeq.get own) ∧
        Forall₂ (fun t l => l.task.id = t.id ∧ (l.task.origin = own ∧ t.sequenceOf own ≤ l.task.sequence ∨
            l.task.origin = t.origin ∧ l.task.sequence = t.sequence)) tasks loaded ∧
        ∀ p ∈ m'.issued, p ∈ m.issued ∨ ∃ l ∈ loaded, l.task.origin = own ∧ p.2 ≤ l.task.sequence := by
  induction tasks with
  | nil =>
    intro m m' now loaded _ h _ _
    obtain ⟨rfl, rfl⟩ := Prod.mk.inj (Except.ok.inj h)
    exact ⟨.same rfl rfl rfl, by simp, .nil, fun p hp => .inl hp⟩
  | cons t _ ih =>
    intro m m' now loaded hown h hq hroom
    obtain ⟨l, _, _, hturn, hrest, rfl⟩ := loadTasks_cons h
    rw [length_cons] at hroom ⊢
    obtain ⟨hmints, hfound, hstamps⟩ := hturn.mints hown (hq t mem_cons_self) (by omega)
    have hupper := hmints.upper
    obtain ⟨hmints', hfound', heach, hissued⟩ := ih (hturn.syncOrigin.trans hown) hrest
      (forall_mem_cons.mp hq).2 (by omega)
    have hid : l.task.id = t.id := (hturn.advances True True).id
    refine ⟨(hmints.trans hmints').weaken (by omega) le_rfl, ?_, .cons ⟨hid, ?_⟩ heach, ?_⟩
    · intro u hu
      rcases mem_cons.mp hu with rfl | hmem
      · exact hfound.trans hmints'.lower
      · exact hfound' u hmem
    · cases hrestamped : t.restamped with
      | true =>
        obtain ⟨horigin, hsequence⟩ := hturn.fresh hrestamped
        exact .inl ⟨horigin.trans hown, hsequence.trans_ge (hown ▸ hfound)⟩
      | false => exact .inr (hturn.kept hrestamped)
    · intro p hp
      rcases hissued p hp with hmem | ⟨l', hl', h'⟩
      · rcases hstamps p hmem with hold | ⟨hrestamped, hle⟩
        · exact .inl hold
        obtain ⟨horigin, hsequence⟩ := hturn.fresh hrestamped
        refine .inr ⟨l, mem_cons_self, horigin.trans hown, ?_⟩
        rwa [hsequence, hown]
      · exact .inr ⟨l', mem_cons_of_mem _ hl', h'⟩

end Maistr0.Taskmgr
