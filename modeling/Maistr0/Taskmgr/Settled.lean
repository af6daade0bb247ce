import Maistr0.Taskmgr.System

/-!
# Running tasks have work left

Over every history in which a resumed task has a subtask left to do, a running task has a subtask that
is pending or running and any other task has none. A resumed task without such a subtask is running
with nothing to run, and stays so.
-/

namespace Maistr0.Taskmgr

open Go List

namespace Task

def Settled (t : Task) : Prop :=
  (t.status = .running → ∃ r ∈ t.subtasks, r.active) ∧
  (t.status = .synthesis ∨ t.status = .awaitingApproval ∨ t.status = .completed ∨ t.status = .failed ∨
    t.status = .cancelled → ∀ r ∈ t.subtasks, r.active = false) ∧
  (t.status = .completed → ∀ r ∈ t.subtasks, r.status = .completed)

theorem settled_of_sound {t : Task} (h : t.ledger.Sound) : t.Settled := by
  have hidle : t.ledger.Idle → ∀ r ∈ t.subtasks, r.active = false := fun hidle r hr =>
    hidle r.entry (mem_map_of_mem hr)
  refine ⟨fun hrunning => ?_, fun hstatus => hidle (h.quiet fun hrunning => ?_), fun hcompleted r hr => ?_⟩
  · by_contra hnone
    unfold Ledger.Sound at h
    have hstatus : t.ledger.status = .running := hrunning
    rw [hstatus] at h
    refine h.1 fun e he => ?_
    obtain ⟨r, hr, rfl⟩ := mem_map.mp he
    by_contra hactive
    exact hnone ⟨r, hr, Bool.eq_true_of_not_eq_false hactive⟩
  · have hrunning : t.status = .running := hrunning
    rw [hrunning] at hstatus
    rcases hstatus with h | h | h | h | h <;> cases h
  · exact h.completed (.inr (.inr hcompleted)) r.entry (mem_map_of_mem hr)

end Task

namespace System

def resumesWork : Rules := { call := fun m op => op.HasWork m, stop := fun _ => True }

theorem kept_sound : Kept resumesWork fun t => t.ledger.Sound where
  opened _ hopened _ := hopened.sound
  same _ _ hsame h := hsame.ledger.symm ▸ h
  advances _ _ hcall _ _ hadvances h := hadvances.sound hcall h
  recovered _ _ hrec h := (hrec.advances True True).sound trivial h

theorem resume_run {m : Manager} {t : Task} {taskID : String} (ht : m.tasks.get? taskID = some t) (hresumable : t.resumable)
    (hstatus : t.status = .failed ∨ t.status = .cancelled) (now : Instant) (saved : Except String Unit) :
    (m.resumeTaskChecked taskID now saved).2 = (m.persistTaskAndCheckpointLocked (t.resume now) saved).2.2.put
      (m.persistTaskAndCheckpointLocked (t.resume now) saved).2.1 := by
  unfold Manager.resumeTaskChecked
  rw [ht]
  dsimp only
  rw [if_neg (by rcases hstatus with h | h <;> rw [h] <;> decide), if_neg (by simp [hresumable]), if_neg (by tauto)]

theorem resume_stuck {m : Manager} {op : Op} (saved : Except String Unit) (h : ¬ op.HasWork m) :
    ∃ t ∈ (op.run m saved).tasks.vals, ¬ t.Settled := by
  cases op with
  | resumeTask taskID now =>
    simp only [Op.HasWork, not_forall, not_exists, not_and, not_not] at h
    obtain ⟨t, ht, hresumable, hstatus, hdone⟩ := h
    change ∃ t ∈ (m.resumeTaskChecked taskID now saved).2.tasks.vals, ¬ t.Settled
    rw [resume_run ht hresumable hstatus]
    have hledger := (m.persistTaskAndCheckpointLocked_committed (t.resume now) saved).same.ledger
    refine ⟨_, mem_cons_self, fun hsettled => ?_⟩
    obtain ⟨r, hr, hactive⟩ := hsettled.1 (congrArg Ledger.status hledger)
    -- the reset finds nothing to reset
    have hentry : r.entry ∈ (t.resume now).ledger.entries := hledger ▸ mem_map_of_mem hr
    obtain ⟨_, hr', heq⟩ := mem_map.mp hentry
    obtain ⟨r₀, hr₀, rfl⟩ := mem_map.mp hr'
    rw [if_neg (by simpa using hdone r₀ hr₀)] at heq
    have hcompleted : r.status = .completed := (congrArg Entry.status heq).symm.trans (hdone r₀ hr₀)
    rw [SubtaskResult.active, hcompleted] at hactive
    cases hactive
  | _ => exact absurd trivial h

/-- Every task of every state that a history leads to is settled, as long as a resumed task has work left;
and the condition is the exact one for the next call. -/
theorem tasks_settled_iff {m : Manager} (h : Reachable resumesWork (.up m)) : (∀ t ∈ m.tasks.vals, t.Settled) ∧
    ∀ (op : Op) (saved : Except String Unit), (∀ t ∈ (op.run m saved).tasks.vals, t.Settled) ↔ op.HasWork m := by
  have hsound : Holds (fun t => t.ledger.Sound) (.up m) := kept_sound.reachable h
  refine ⟨fun t ht => Task.settled_of_sound (hsound.1 t ht), fun op saved => ⟨fun hsettled => ?_, fun hwork => ?_⟩⟩
  · by_contra hstuck
    obtain ⟨t, ht, hnot⟩ := resume_stuck saved hstuck
    exact hnot (hsettled t ht)
  · have hnext : Holds (fun t => t.ledger.Sound) (.up (op.run m saved)) := kept_sound.step (.call m op saved hwork) hsound
    exact fun t ht => Task.settled_of_sound (hnext.1 t ht)

/-! ### A task of one subtask -/

def oneSubtask : List Assignment := [{ subtask := { id := "work" } }]

theorem twelve_ne_zero : (12 : Time) ≠ 0 := by decide

def noon : Clocks := fun _ => ⟨12, twelve_ne_zero⟩

theorem tasks_settled_created :
    let m := (Op.create "report" oneSubtask false noon).run (newManager none false 1) (.ok ())
    Reachable resumesWork (.up m) ∧ (∀ t ∈ m.tasks.vals, t.Settled) ∧
      (∀ t ∈ ((Op.cancel "task-1" (noon 2)).run m (.ok ())).tasks.vals, t.Settled) := by
  have h : Reachable resumesWork
      (.up ((Op.create "report" oneSubtask false noon).run (newManager none false 1) (.ok ()))) :=
    ⟨_, .memory false 1, .single (.call _ _ _ trivial)⟩
  exact ⟨h, (tasks_settled_iff h).1, ((tasks_settled_iff h).2 _ _).mpr trivial⟩

def failedSynthesis : List (Op × Except String Unit) :=
  [(.create "report" oneSubtask false noon, .ok ()), (.startSubtask "task-1" "work" (noon 2), .ok ()),
   (.completeSubtask "task-1" "work" "done" none (noon 3), .ok ()),
   (.finishSynthesis "task-1" (.error "no model") (noon 4), .ok ()), (.resumeTask "task-1" (noon 5), .ok ())]

theorem resumed_synthesis_stuck : ∃ m, Reachable anything (.up m) ∧
    ∃ t ∈ m.tasks.vals, t.status = .running ∧ (∀ r ∈ t.subtasks, r.status = .completed) ∧ ¬ t.Settled := by
  refine ⟨calls (newManager none true 1) failedSynthesis, ⟨_, .memory true 1, calls_run _ _⟩, ?_⟩
  have hstuck : ∃ t ∈ (calls (newManager none true 1) failedSynthesis).tasks.vals,
      t.status = .running ∧ ∀ r ∈ t.subtasks, r.status = .completed := by decide
  obtain ⟨t, ht, hrunning, hdone⟩ := hstuck
  refine ⟨t, ht, hrunning, hdone, fun hsettled => ?_⟩
  obtain ⟨r, hr, hactive⟩ := hsettled.1 hrunning
  rw [SubtaskResult.active, hdone r hr] at hactive
  cases hactive

end System

end Maistr0.Taskmgr
