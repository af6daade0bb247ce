import Maistr0.Lib.Renumber
import Maistr0.Taskmgr.Finality

/-!
# New stamps at a restart

`load` takes new sequences while it is still reading the old ones. Seen from its counter it is a
numbering of the persisted tasks in their key order, each with the sequence found on it and the number of
sequences taken for it.
-/

namespace Maistr0.Taskmgr

open Go List
open Lib.Renumber (Ahead numbers)

namespace Task

variable {own : String}

def item (t : Task) (own : String) : Lib.Renumber.Item := { found := t.sequenceOf own, taken := t.mints }

theorem sequenceOf_own {t : Task} (hown : own ≠ "") (horigin : t.origin = own) : t.sequenceOf own = t.sequence := by
  by_cases hzero : t.sequence = 0 <;> simp [sequenceOf, unstamped, hzero, horigin, hown]

theorem of_sequenceOf_pos {t : Task} (h : 0 < t.sequenceOf own) : t.origin = own ∧ t.sequenceOf own = t.sequence := by
  unfold sequenceOf at h ⊢
  split
  · rename_i hstamped
    simp only [Bool.and_eq_true, decide_eq_true_eq] at hstamped
    exact ⟨hstamped.2, rfl⟩
  · rename_i hno
    rw [if_neg hno] at h
    exact absurd h (lt_irrefl 0)

theorem sequenceOf_le (t : Task) (own : String) : t.sequenceOf own ≤ t.sequence := by
  unfold sequenceOf
  split
  · exact le_rfl
  · exact Nat.zero_le _

theorem mints_eq_zero (t : Task) : t.mints = 0 ↔ t.restamped = false := by
  unfold mints restamped
  cases t.unstamped <;> cases t.inProgress <;> cases t.attemptHistoryChanged <;> simp

theorem mints_le (t : Task) : t.mints ≤ 2 := by
  unfold mints
  split <;> split <;> omega

theorem total_lt {tasks : List Task} (h : 2 * tasks.length < 2 ^ 64) :
    Lib.Renumber.total (tasks.map (·.item own)) < 2 ^ 64 := by
  refine lt_of_le_of_lt ?_ h
  induction tasks with
  | nil => exact le_rfl
  | cons t rest ih =>
    have hle := t.mints_le
    have hrest := ih (by rw [length_cons] at h; omega)
    change t.mints + Lib.Renumber.total (rest.map (·.item own)) ≤ 2 * (rest.length + 1)
    omega

end Task

theorem incr_eq_next : incr = Lib.Renumber.next (2 ^ 64) := by
  funext n
  unfold incr Lib.Renumber.next
  split <;> split <;> omega

theorem Turn.restamped_iff {m m' : Manager} {t : Task} {l : Loaded} (h : Turn m t l m') :
    t.restamped = true ↔ l.writeBack ≠ .unchanged := by
  rw [ne_eq, h.writeBack, Bool.not_eq_false]

theorem Manager.loadTasks_numbers {own : String} {tasks : List Task} :
    ∀ {m m' : Manager} {now : Nat → LoadClock} {loaded : List Loaded}, m.syncOrigin = own →
      m.loadTasks tasks now = .ok (loaded, m') →
      (loaded.filter (·.writeBack ≠ .unchanged)).map (·.task.sequence) =
        numbers (2 ^ 64) (m.syncSeq.get own) (tasks.map (·.item own)) := by
  induction tasks with
  | nil =>
    intro m m' now loaded _ h
    obtain ⟨rfl, rfl⟩ := Prod.mk.inj (Except.ok.inj h)
    rfl
  | cons t _ ih =>
    rintro m m' now loaded rfl h
    obtain ⟨l, _, m₁, hturn, hrest, rfl⟩ := loadTasks_cons h
    have hnumbers := ih hturn.syncOrigin hrest
    have hafter : m₁.syncSeq.get m.syncOrigin =
        Lib.Renumber.after (2 ^ 64) (m.syncSeq.get m.syncOrigin) (t.item m.syncOrigin) := by
      rw [hturn.counter, incr_eq_next]
      rfl
    rw [map_cons, numbers, ← hafter]
    by_cases hzero : (t.item m.syncOrigin).taken = 0
    · have hkept : l.writeBack = .unchanged := hturn.writeBack.mpr (t.mints_eq_zero.mp hzero)
      rw [if_pos hzero, filter_cons_of_neg (by simp [hkept]), hnumbers]
    have hrestamped : t.restamped = true := Bool.eq_true_of_not_eq_false fun h => hzero (t.mints_eq_zero.mpr h)
    have hwritten : l.writeBack ≠ .unchanged := hturn.restamped_iff.mp hrestamped
    rw [if_neg hzero, filter_cons_of_pos (by simp [hwritten]), map_cons, hnumbers, (hturn.fresh hrestamped).2]

def StampsUnique (tasks : Tasks) : Prop :=
  ∀ t ∈ tasks.vals, ∀ u ∈ tasks.vals, t.origin = u.origin → t.sequence = u.sequence → t = u

def RestampsPast (persisted : List Task) (tasks : Tasks) : Prop :=
  ∀ t ∈ persisted, t.restamped → ∃ t' ∈ tasks.vals, t'.id = t.id ∧
    ∀ p ∈ persisted, p.origin = t'.origin → p.sequence < t'.sequence

instance (tasks : Tasks) : Decidable (StampsUnique tasks) :=
  inferInstanceAs (Decidable (∀ t ∈ tasks.vals, ∀ u ∈ tasks.vals, t.origin = u.origin → t.sequence = u.sequence → t = u))

instance (persisted : List Task) (tasks : Tasks) : Decidable (RestampsPast persisted tasks) :=
  inferInstanceAs (Decidable (∀ t ∈ persisted, t.restamped → ∃ t' ∈ tasks.vals, t'.id = t.id ∧
    ∀ p ∈ persisted, p.origin = t'.origin → p.sequence < t'.sequence))

namespace LoadRun

variable {m m₁ : Manager} {s s' : Tasks} {tasks : List Task} {now : Nat → LoadClock}
  {result : Except Failure Unit × Manager} {loaded : List Loaded} {t : Task} {l : Loaded}

section

variable (h : LoadRun m s tasks now result loaded m₁ s')

include h

theorem restampsPast_iff : RestampsPast tasks result.2.tasks ↔
    ∀ l ∈ loaded, l.writeBack ≠ .unchanged → ∀ p ∈ tasks, p.origin = m.syncOrigin → p.sequence < l.task.sequence := by
  constructor
  · intro hpast l hl hwritten p hp hown
    obtain ⟨t, ht, m₂, m₃, hturn, horigin, hid⟩ := h.source hl
    have hrestamped : t.restamped = true := hturn.restamped_iff.mpr hwritten
    obtain ⟨t', ht', hid', hlt⟩ := hpast t ht hrestamped
    obtain ⟨t'', ht'', hcopy⟩ := h.held hl
    obtain rfl : t'' = t' :=
      Option.some.inj (ht''.symm.trans (Lib.Keyed.get?_eq_some.mpr ⟨ht', hid'.trans hid.symm⟩))
    have hfresh : t''.origin = m.syncOrigin := hcopy.origin.trans ((hturn.fresh hrestamped).1.trans horigin)
    exact (hlt p hp (hown.trans hfresh.symm)).trans_eq hcopy.sequence
  · intro hpast t ht hrestamped
    obtain ⟨l, hl, _, _, t', hturn, horigin, -, ht', hcopy⟩ := h.version ht
    obtain ⟨hmem, hid⟩ := Lib.Keyed.get?_eq_some.mp ht'
    refine ⟨t', hmem, hid, fun p hp heq => ?_⟩
    have hfresh : t'.origin = m.syncOrigin := hcopy.origin.trans ((hturn.fresh hrestamped).1.trans horigin)
    exact (hpast l hl (hturn.restamped_iff.mp hrestamped) p hp (heq.trans hfresh)).trans_eq hcopy.sequence.symm

theorem restampsPast_iff_ahead (hown : m.syncOrigin ≠ "") (hcounter : m.syncSeq.get m.syncOrigin = 0)
    (hsequence : ∀ t ∈ tasks, t.sequence < 2 ^ 64) (hlength : 2 * tasks.length < 2 ^ 64) :
    RestampsPast tasks result.2.tasks ↔ Ahead (2 ^ 64) (tasks.map (·.item m.syncOrigin)) := by
  have hfound : ∀ y ∈ tasks.map (·.item m.syncOrigin), y.found < 2 ^ 64 := by
    intro y hy
    obtain ⟨t, ht, rfl⟩ := mem_map.mp hy
    exact (t.sequenceOf_le _).trans_lt (hsequence t ht)
  have hnumbers := Manager.loadTasks_numbers rfl h.loads
  rw [hcounter] at hnumbers
  rw [h.restampsPast_iff]
  constructor
  · intro hpast
    rw [← Lib.Renumber.ahead_iff hfound (Task.total_lt hlength), ← hnumbers]
    intro n hn y hy hpos
    obtain ⟨l, hl, rfl⟩ := mem_map.mp hn
    obtain ⟨hl, hwritten⟩ := mem_filter.mp hl
    obtain ⟨p, hp, rfl⟩ := mem_map.mp hy
    obtain ⟨horigin, heq⟩ := Task.of_sequenceOf_pos hpos
    exact heq.trans_lt (hpast l hl (by simpa using hwritten) p hp horigin)
  · intro hahead l hl hwritten p hp horigin
    have hmem : l.task.sequence ∈ numbers (2 ^ 64) 0 (tasks.map (·.item m.syncOrigin)) := by
      rw [← hnumbers]
      exact mem_map_of_mem (mem_filter.mpr ⟨hl, by simpa using hwritten⟩)
    have hlt := hahead.numbers_spec.2 _ hmem _ (mem_map_of_mem hp)
    exact (Task.sequenceOf_own hown horigin).symm.trans_lt hlt

theorem stampsUnique (hm : m.tasks = ∅)
    (hunique : ∀ t ∈ tasks, ∀ u ∈ tasks, t.unstamped = false → t.origin = u.origin → t.sequence = u.sequence → t = u)
    (hpast : RestampsPast tasks result.2.tasks)
    (hrise : ((loaded.filter (·.writeBack ≠ .unchanged)).map (·.task.sequence)).Nodup) :
    StampsUnique result.2.tasks := by
  rw [h.restampsPast_iff] at hpast
  -- a stamp that was kept is not one of the new ones
  have happart : ∀ {t u l k m₂ m₃ n₂ n₃}, t ∈ tasks → k ∈ loaded → Turn m₂ t l m₃ → Turn n₂ u k n₃ →
      n₂.syncOrigin = m.syncOrigin → t.restamped = false → u.restamped = true → l.task.origin = k.task.origin →
      l.task.sequence ≠ k.task.sequence := by
    intro t u l k m₂ m₃ n₂ n₃ ht hk hl hturn hown hkept hnew horigin hsequence
    have hlt := hpast k hk (hturn.restamped_iff.mp hnew) t ht
      ((hl.kept hkept).1.symm.trans (horigin.trans ((hturn.fresh hnew).1.trans hown)))
    rw [← hsequence, (hl.kept hkept).2] at hlt
    exact lt_irrefl _ hlt
  intro a ha b hb horigin hsequence
  obtain ⟨t, ht, l, hl, _, _, hturn, hown, hid, hcopy⟩ := h.origin_of_task hm ha
  obtain ⟨u, hu, k, hk, _, _, hturn', hown', hid', hcopy'⟩ := h.origin_of_task hm hb
  rw [hcopy.origin, hcopy'.origin] at horigin
  rw [hcopy.sequence, hcopy'.sequence] at hsequence
  apply Lib.Keyed.eq_of_mem_vals ha hb
  cases hrestamped : t.restamped with
  | true =>
    cases hrestamped' : u.restamped with
    | true =>
      have heq : l = k := inj_on_of_nodup_map hrise
        (mem_filter.mpr ⟨hl, by simpa using hturn.restamped_iff.mp hrestamped⟩)
        (mem_filter.mpr ⟨hk, by simpa using hturn'.restamped_iff.mp hrestamped'⟩) hsequence
      rw [hcopy.id, hcopy'.id, heq]
    | false => exact absurd hsequence.symm (happart hu hl hturn' hturn hown hrestamped' hrestamped horigin.symm)
  | false =>
    cases hrestamped' : u.restamped with
    | true => exact absurd hsequence (happart ht hk hturn hturn' hown' hrestamped hrestamped' horigin)
    | false =>
      have hstamped : t.unstamped = false := by
        simp only [Task.restamped, Bool.or_eq_false_iff] at hrestamped
        exact hrestamped.1.1
      rw [(hturn.kept hrestamped).1, (hturn'.kept hrestamped').1] at horigin
      rw [(hturn.kept hrestamped).2, (hturn'.kept hrestamped').2] at hsequence
      rw [← hid, ← hid', hunique t ht u hu hstamped horigin hsequence]

end

end LoadRun

/-- A restart keeps the stamps unique and gives new ones past all persisted ones if and only if the first
task with a new stamp, in key order, is numbered past all persisted tasks of the own origin, with room
below the wrap for the rest. -/
theorem Manager.load_stamps_iff {m m' : Manager} {s : Tasks} {tasks : List Task} {now : Nat → LoadClock}
    {saves : Nat → Except String Unit} (hm : m.tasks = ∅) (hcounter : m.syncSeq = ∅) (hown : m.syncOrigin ≠ "")
    (hs : m.store = some s) (htasks : tasks.Perm s.vals)
    (hunique : ∀ t ∈ tasks, ∀ u ∈ tasks, t.unstamped = false → t.origin = u.origin → t.sequence = u.sequence → t = u)
    (hsequence : ∀ t ∈ tasks, t.sequence < 2 ^ 64) (hlength : 2 * tasks.length < 2 ^ 64)
    (hload : m.load tasks now saves = (.ok (), m')) :
    (StampsUnique m'.tasks ∧ RestampsPast tasks m'.tasks) ↔ Ahead (2 ^ 64) (tasks.map (·.item m.syncOrigin)) := by
  have hids : (tasks.map Task.id).Nodup := (htasks.map Task.id).nodup_iff.mpr s.nodup
  have hzero : m.syncSeq.get m.syncOrigin = 0 := by
    rw [hcounter]
    rfl
  rcases m.load_run hids hs now saves with ⟨err, herr⟩ | ⟨loaded, m₁, s', hrun⟩
  · rw [hload] at herr
    cases herr
  rw [hload] at hrun
  have hiff := hrun.restampsPast_iff_ahead hown hzero hsequence hlength
  refine ⟨fun h => hiff.mp h.2, fun hahead => ⟨?_, hiff.mpr hahead⟩⟩
  refine hrun.stampsUnique hm hunique (hiff.mpr hahead) ?_
  rw [Manager.loadTasks_numbers rfl hrun.loads, hzero]
  exact hahead.numbers_spec.1.imp fun hlt => hlt.ne

/-! ### Two tasks of one node -/

namespace System

def twoTasks : Tasks :=
  (calls emptyNode [(.create "one" oneSubtask false noon, .ok ()), (.create "two" oneSubtask false noon, .ok ()),
    (.startSubtask "task-1" "work" (noon 2), .ok ()), (.cancel "task-2" (noon 3), .ok ())]).store.getD ∅

def reread (s : Tasks) : Except Failure Unit × Manager :=
  openManagerWithOrigin s s.vals.reverse false "task:node" 1 loadClock fun _ => .ok ()

theorem restart_repeats_stamp :
    (twoTasks.vals.reverse.map fun t => (t.id, t.origin, t.sequence)) = [("task-1", "task:node", 3), ("task-2", "task:node", 4)] ∧
      (reread twoTasks).1 = .ok () ∧
      ((reread twoTasks).2.tasks.vals.map fun t => (t.id, t.origin, t.sequence)) =
        [("task-1", "task:node", 4), ("task-2", "task:node", 4)] ∧
      ¬ StampsUnique (reread twoTasks).2.tasks ∧ ¬ RestampsPast twoTasks.vals.reverse (reread twoTasks).2.tasks := by
  exact ⟨by decide, rfl, by decide, by decide, by decide⟩

def startedTask : Tasks :=
  (calls emptyNode [(.create "one" oneSubtask false noon, .ok ()), (.startSubtask "task-1" "work" (noon 2), .ok ())]).store.getD ∅

theorem load_stamps_startedTask :
    ((reread startedTask).2.tasks.vals.map fun t => (t.id, t.origin, t.sequence)) = [("task-1", "task:node", 3)] ∧
      StampsUnique (reread startedTask).2.tasks ∧ RestampsPast startedTask.vals.reverse (reread startedTask).2.tasks := by
  refine ⟨by decide, ?_⟩
  have hahead : Ahead (2 ^ 64) (startedTask.vals.reverse.map (·.item "task:node")) :=
    (Lib.Renumber.ahead_iff (by decide) (by decide)).mp (by decide)
  have hload : ({ newManager (some startedTask) false 1 with syncOrigin := "task:node" } : Manager).load
      startedTask.vals.reverse loadClock (fun _ => .ok ()) = (.ok (), (reread startedTask).2) := rfl
  exact (Manager.load_stamps_iff rfl rfl (by decide) rfl (reverse_perm _) (by decide) (by decide) (by decide) hload).mpr
    hahead

/-- A start that succeeds brings back the stored tasks and no others, none of them running, and the store has them as
they are in memory. -/
theorem opened_tasks_stored {store : Tasks} {tasks : List Task} (htasks : tasks.Perm store.vals) {finalizer : Bool}
    {origin : String} {managerSyncID : Nat} {now : Nat → LoadClock} {saves : Nat → Except String Unit} {m : Manager}
    (h : openManagerWithOrigin store tasks finalizer origin managerSyncID now saves = (.ok (), m)) :
    (∀ id, m.tasks.get? id = none ↔ store.get? id = none) ∧ (∀ t ∈ m.tasks.vals, t.status ≠ .running) ∧
      ∃ s, m.store = some s ∧ ∀ id, (s.get? id).map Task.image = (m.tasks.get? id).map Task.image := by
  obtain ⟨s, hs⟩ := reopened htasks finalizer origin managerSyncID now saves
  rw [h] at hs
  refine ⟨fun id => ⟨fun hnone => ?_, hs.nothingElse rfl id⟩, fun t ht => ?_, s, hs.store, hs.synced rfl⟩
  · rw [Option.eq_none_iff_forall_ne_some]
    intro t ht
    obtain ⟨_, hheld, -⟩ := hs.held rfl id t ht
    cases hnone.symm.trans hheld
  · obtain ⟨_, -, hrecovered⟩ := hs.recovered rfl (Lib.Keyed.get?_eq_some.mpr ⟨ht, rfl⟩)
    exact hrecovered.stopped

theorem opened_tasks_stored_twoTasks : (reread twoTasks).2.tasks.get? "task-1" ≠ none ∧
    ∀ t ∈ (reread twoTasks).2.tasks.vals, t.status ≠ .running :=
  ⟨by decide +kernel, (opened_tasks_stored (reverse_perm _) (Prod.ext rfl rfl)).2.1⟩

end System

end Maistr0.Taskmgr
