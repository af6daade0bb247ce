import Maistr0.Taskmgr.Operations

/-!
# Calls that failed because the store did

`CreateWithGraphAndOptionsChecked`, `ResumeTaskChecked` and `BeginDispatchAttemptChecked` answer with the
store's error, so that their callers can try again.
-/

namespace Maistr0.Taskmgr

open Go Lib.Keyed

inductive CheckedCall where
  | create (description : String) (assignments : List Assignment) (requireApproval : Bool) (now : Clocks)
  | resume (taskID : String) (now : Instant)
  | beginAttempt (taskID subtaskID : String) (assignment : Assignment) (now : Instant)

def CheckedCall.apply (m : Manager) (saved : Except String Unit) : CheckedCall → Except Failure Unit × Manager
  | create description assignments requireApproval now =>
    (m.createWithGraphAndOptionsChecked description assignments requireApproval now saved).map (·.map fun _ => ()) id
  | resume taskID now => (m.resumeTaskChecked taskID now saved).map (·.map fun _ => ()) id
  | beginAttempt taskID subtaskID assignment now =>
    (m.beginDispatchAttemptChecked taskID subtaskID assignment now saved).map (·.map fun _ => ()) id

def Task.progress (t : Task) : Status × String × List (Status × List DispatchAttempt) :=
  (t.status, t.error, t.subtasks.map fun r => (r.status, r.attempts))

variable {m : Manager} {t : Task} {taskID subtaskID : String} {now : Instant}

theorem Task.progress_modifySubtask_ne {r : SubtaskResult} (hr : t.subtask? subtaskID = some r)
    {f : SubtaskResult → SubtaskResult} (hf : (f r).attempts ≠ r.attempts) :
    (t.modifySubtask subtaskID f).progress ≠ t.progress := by
  intro hsame
  obtain ⟨i, hi, hset⟩ := modifyFirst_eq_set (f := f) hr
  have hlt : i < t.subtasks.length := (List.getElem?_eq_some_iff.mp hi).1
  have hattempts := congrArg (fun p => p.2.2[i]?.map Prod.snd) hsame
  simp only [progress, modifySubtask, hset, List.getElem?_map, List.getElem?_set_self hlt, hi] at hattempts
  exact hf (Option.some.inj hattempts)

namespace Manager

theorem persistTaskAndCheckpointLocked_unsaved (m : Manager) (t : Task) (err : String) :
    ∃ result, m.persistTaskAndCheckpointLocked t (.error err) = (result, m.stampLocked t) := by
  obtain ⟨_, _, _, _, _, store, _⟩ := m
  cases store with
  | none => exact ⟨_, rfl⟩
  | some => exact ⟨_, rfl⟩

theorem persistLocked_unsaved (m : Manager) (t : Task) (err : String) :
    ∃ result, m.persistLocked t (.error err) = (result, m.stampLocked t) := by
  obtain ⟨_, _, _, _, _, store, _⟩ := m
  cases store with
  | none => exact ⟨_, rfl⟩
  | some => exact ⟨_, rfl⟩

theorem get?_put_stampLocked (hid : t.id = taskID) :
    ((m.stampLocked t).2.put (m.stampLocked t).1).tasks.get? taskID = some (m.stampLocked t).1 := by
  refine (get?_put _ _ _).trans (if_pos ?_)
  exact hid

theorem create_unsaved {description err : String} {assignments : List Assignment} {requireApproval : Bool} {now : Clocks}
    {failure : Failure}
    (h : ((CheckedCall.create description assignments requireApproval now).apply m (.error err)).1 = .error failure) :
    ((CheckedCall.create description assignments requireApproval now).apply m (.error err)).2.tasks = m.tasks := by
  obtain ⟨_, _, _, _, _, store, _⟩ := m
  cases store with
  | none => cases h
  | some => rfl

theorem resume_unsaved (h : ((CheckedCall.resume taskID now).apply m (.ok ())).1 = .ok ()) (err : String) :
    ∃ t t', m.tasks.get? taskID = some t ∧ t.status ≠ .running ∧
      ((CheckedCall.resume taskID now).apply m (.error err)).2.tasks.get? taskID = some t' ∧ t'.status = .running := by
  simp only [CheckedCall.apply, resumeTaskChecked] at h ⊢
  cases ht : m.tasks.get? taskID with
  | none =>
    rw [ht] at h
    cases h
  | some t =>
    rw [ht] at h
    simp only at h ⊢
    split_ifs at h ⊢ with _ _ hstatus
    · cases h
    · cases h
    · cases h
    have hrunning : t.status ≠ .running := by
      intro hrunning
      exact hstatus ⟨by simp [hrunning], by simp [hrunning]⟩
    obtain ⟨_, hunsaved⟩ := m.persistTaskAndCheckpointLocked_unsaved (t.resume now) err
    rw [hunsaved]
    have hid : t.id = taskID := keyOf_get? ht
    exact ⟨t, _, rfl, hrunning, get?_put_stampLocked hid, rfl⟩

/-- A dispatch attempt that only the store can keep from beginning is recorded, whatever the store says. -/
theorem begin_unsaved {assignment : Assignment}
    (h : ((CheckedCall.beginAttempt taskID subtaskID assignment now).apply m (.ok ())).1 = .ok ()) (err : String) :
    ∃ t t', m.tasks.get? taskID = some t ∧
      ((CheckedCall.beginAttempt taskID subtaskID assignment now).apply m (.error err)).2.tasks.get? taskID = some t' ∧
      t'.progress ≠ t.progress := by
  simp only [CheckedCall.apply, beginDispatchAttemptChecked] at h ⊢
  cases ht : m.tasks.get? taskID with
  | none =>
    rw [ht] at h
    cases h
  | some t =>
    rw [ht] at h
    simp only at h ⊢
    cases hr : t.subtask? subtaskID with
    | none =>
      rw [hr] at h
      cases h
    | some r =>
      rw [hr] at h
      simp only at h ⊢
      split_ifs at h ⊢ with hstatus
      · cases h
      generalize hu : Task.modifySubtask t subtaskID _ = u
      obtain ⟨_, hunsaved⟩ := m.persistLocked_unsaved { u with updatedAt := now } err
      rw [hunsaved]
      have hid : t.id = taskID := keyOf_get? ht
      refine ⟨t, _, rfl, get?_put_stampLocked ?_, fun hsame => ?_⟩
      · subst hu
        exact hid
      · subst hu
        exact Task.progress_modifySubtask_ne hr (by simp) hsame

end Manager

/-- Of the calls that answer with the store's error, exactly creating a task leaves the tasks as they were,
and can then be made again with success. -/
theorem unsaved_call_keeps_tasks_iff (m : Manager) (c : CheckedCall) (err : String) (failure : Failure)
    (hfailed : (c.apply m (.error err)).1 = .error failure) (hsaved : (c.apply m (.ok ())).1 = .ok ()) :
    ((∀ id, ((c.apply m (.error err)).2.tasks.get? id).map Task.progress = (m.tasks.get? id).map Task.progress) ↔
      ∃ description assignments requireApproval now, c = .create description assignments requireApproval now) ∧
    ∀ description assignments requireApproval now, c = .create description assignments requireApproval now →
      (c.apply (c.apply m (.error err)).2 (.ok ())).1 = .ok () := by
  cases c with
  | create description assignments requireApproval now =>
    refine ⟨⟨fun _ => ⟨_, _, _, _, rfl⟩, fun _ id => ?_⟩, fun _ _ _ _ _ => ?_⟩
    · rw [Manager.create_unsaved hfailed]
    obtain ⟨_, _, _, _, _, store, _⟩ := m
    cases store with
    | none => cases hfailed
    | some => rfl
  | resume taskID now =>
    refine ⟨⟨fun hkept => ?_, nofun⟩, nofun⟩
    obtain ⟨t, t', ht, hrunning, ht', hrunning'⟩ := Manager.resume_unsaved hsaved err
    have hsame := hkept taskID
    rw [ht, ht'] at hsame
    have hstatus := congrArg Prod.fst (Option.some.inj hsame)
    exact absurd (hstatus.symm.trans hrunning') hrunning
  | beginAttempt taskID subtaskID assignment now =>
    refine ⟨⟨fun hkept => ?_, nofun⟩, nofun⟩
    obtain ⟨_, _, ht, ht', hprogress⟩ := Manager.begin_unsaved hsaved err
    have hsame := hkept taskID
    rw [ht, ht'] at hsame
    exact absurd (Option.some.inj hsame) hprogress

def interruptedManager : Manager :=
  { tasks := put ∅ { id := "task-1", status := .failed, error := "node lost", resumable := true }
    seq := 1, syncOrigin := "node-a", store := some ∅ }

theorem unsaved_create_keeps_tasks :
    (((CheckedCall.create "report" [] false fun _ => ⟨1, by decide⟩).apply interruptedManager (.error "disk full")).2.tasks.get?
      "task-1").map Task.progress = (interruptedManager.tasks.get? "task-1").map Task.progress :=
  (unsaved_call_keeps_tasks_iff interruptedManager (.create "report" [] false fun _ => ⟨1, by decide⟩) "disk full" _ rfl
    rfl).1.mpr ⟨_, _, _, _, rfl⟩ "task-1"

/-- The store fails while a task is being resumed: the task is left running without its error, and once the
store works again it cannot be resumed. -/
theorem unsaved_resume_not_repeated :
    let resumed := (CheckedCall.resume "task-1" ⟨1, by decide⟩).apply interruptedManager (.error "disk full")
    resumed.1 = .error { text := "taskmgr: persist task and checkpoint task-1: disk full" } ∧
      (resumed.2.tasks.get? "task-1").map Task.progress = some (.running, "", []) ∧
      ((CheckedCall.resume "task-1" ⟨1, by decide⟩).apply resumed.2 (.ok ())).1 =
        .error { text := "taskmgr: task task-1 is running: task is not resumable", cause := some .notResumable } :=
  ⟨rfl, rfl, rfl⟩

end Maistr0.Taskmgr
