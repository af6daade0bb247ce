import Maistr0.Taskmgr.Operations

/-!
# The effect of an operation

The local operations of a manager as one type, and the one theorem about all of them.
-/

namespace Maistr0.Taskmgr

open Go Manager

/-- A call of a local operation, with the clock readings it takes. -/
inductive Op where
  | setFinalizer (finalizer : Bool)
  | create (description : String) (assignments : List Assignment) (requireApproval : Bool) (now : Clocks)
  | cancel (id : String) (now : Instant)
  | startSubtask (taskID subtaskID : String) (now : Instant)
  | reassignSubtask (taskID subtaskID : String) (assignment : Assignment) (now : Instant)
  | completeSubtask (taskID subtaskID output : String) (taskErr : Option String) (now : Instant)
  | approve (taskID : String) (now : Instant)
  | finishSynthesis (taskID : String) (outcome : Except String String) (now : Instant)
  | resumeTask (taskID : String) (now : Instant)
  | beginDispatchAttempt (taskID subtaskID : String) (assignment : Assignment) (now : Instant)
  | finishDispatchAttempt (taskID subtaskID : String) (number : Int) (status : DispatchAttemptStatus)
      (failureClass : String) (httpStatus : Int) (attemptErr : Option String) (duration : Duration) (now : Instant)
  | completeDispatchAttempt (taskID subtaskID : String) (number : Int) (assignment : Option Assignment)
      (failureClass : String) (httpStatus : Int) (duration : Duration) (output : String) (now : Clocks)

namespace Op

/-- The manager after the call, when the store answers `saved` to what the call writes. -/
def run (m : Manager) (saved : Except String Unit) : Op → Manager
  | setFinalizer finalizer => m.setFinalizer finalizer
  | create description assignments requireApproval now =>
    (m.createWithGraphAndOptionsChecked description assignments requireApproval now saved).2
  | cancel id now => (m.cancelAndSnapshotChecked id now saved).2
  | startSubtask taskID subtaskID now => (m.startSubtaskChecked taskID subtaskID now saved).2
  | reassignSubtask taskID subtaskID assignment now => (m.reassignSubtaskChecked taskID subtaskID assignment now saved).2
  | completeSubtask taskID subtaskID output taskErr now =>
    (m.completeSubtaskChecked taskID subtaskID output taskErr now saved).2
  | approve taskID now => (m.approveChecked taskID now saved).2
  | finishSynthesis taskID outcome now => (m.finishSynthesis taskID outcome now saved).2
  | resumeTask taskID now => (m.resumeTaskChecked taskID now saved).2
  | beginDispatchAttempt taskID subtaskID assignment now =>
    (m.beginDispatchAttemptChecked taskID subtaskID assignment now saved).2
  | finishDispatchAttempt taskID subtaskID number status failureClass httpStatus attemptErr duration now =>
    (m.finishDispatchAttemptChecked taskID subtaskID number status failureClass httpStatus attemptErr duration now saved).2
  | completeDispatchAttempt taskID subtaskID number assignment failureClass httpStatus duration output now =>
    (m.completeDispatchAttemptWithAssignmentChecked taskID subtaskID number assignment failureClass httpStatus duration
      output now saved).2

def KeepsIDs : Op → Prop
  | reassignSubtask _ subtaskID assignment _ => assignment.subtask.id = subtaskID
  | completeDispatchAttempt _ subtaskID _ assignment _ _ _ _ _ => ∀ a ∈ assignment, a.subtask.id = subtaskID
  | _ => True

def HasWork (m : Manager) : Op → Prop
  | resumeTask taskID _ => ∀ t, m.tasks.get? taskID = some t → t.resumable →
      t.status = .failed ∨ t.status = .cancelled → ∃ r ∈ t.subtasks, r.status ≠ .completed
  | _ => True

def FreshID (m : Manager) : Op → Prop
  | create _ _ _ _ => m.tasks.get? (genID (m.seq + 1)) = none
  | _ => True

end Op

inductive Effect (keepsIDs hasWork freshID : Prop) (saved : Except String Unit) (m m' : Manager) : Prop
  | refused (h : m' = m)
  | configured (finalizer : Bool) (h : m' = { m with finalizer })
  | updated (t u t' : Task) (m₁ : Manager) (ht : m.tasks.get? t.id = some t) (hu : t.Advances keepsIDs hasWork u)
      (hcommit : Committed saved m u t' m₁) (h : m' = m₁.put t')
  | uncommitted (t t' : Task) (ht : m.tasks.get? t.id = some t) (ht' : t.Advances keepsIDs hasWork t')
      (hstamp : t'.origin = t.origin ∧ t'.sequence = t.sequence) (hids : ¬ keepsIDs) (h : m' = m.put t')
  | created (t t' : Task) (m₁ : Manager) (hid : t.id = genID (m.seq + 1)) (hfresh : freshID → m.tasks.get? t.id = none)
      (hopened : t.ledger.Opened) (hclosed : t.Closed) (hcommit : Committed saved { m with seq := m.seq + 1 } t t' m₁)
      (h : (m.store = none ∨ saved = .ok ()) ∧ m' = m₁.put t' ∨ (∃ err, saved = .error err) ∧ m' = m₁)

namespace Manager

theorem persistTaskAndCheckpointLocked_ok {m : Manager} {t : Task} {saved : Except String Unit} {r : Unit}
    (h : (m.persistTaskAndCheckpointLocked t saved).1 = .ok r) : m.store = none ∨ saved = .ok () := by
  obtain ⟨_, _, _, _, _, store, _⟩ := m
  cases store with
  | none => exact .inl rfl
  | some =>
    cases saved with
    | error => cases h
    | ok => exact .inr rfl

theorem persistTaskAndCheckpointLocked_error {m : Manager} {t : Task} {saved : Except String Unit} {err : Failure}
    (h : (m.persistTaskAndCheckpointLocked t saved).1 = .error err) : ∃ err, saved = .error err := by
  obtain ⟨_, _, _, _, _, store, _⟩ := m
  cases store with
  | none => cases h
  | some =>
    cases saved with
    | error err => exact ⟨err, rfl⟩
    | ok => cases h

end Manager

variable {keepsIDs hasWork freshID : Prop} {saved : Except String Unit} {m : Manager} {t u : Task} {taskID : String}

theorem Effect.checkpointed (ht : m.tasks.get? taskID = some t) (hu : t.Advances keepsIDs hasWork u) :
    Effect keepsIDs hasWork freshID saved m
      ((m.persistTaskAndCheckpointLocked u saved).2.2.put (m.persistTaskAndCheckpointLocked u saved).2.1) := by
  have hid : t.id = taskID := Lib.Keyed.keyOf_get? ht
  exact .updated t u _ _ (hid.symm ▸ ht) hu (m.persistTaskAndCheckpointLocked_committed u saved) rfl

theorem Effect.persisted (ht : m.tasks.get? taskID = some t) (hu : t.Advances keepsIDs hasWork u) :
    Effect keepsIDs hasWork freshID saved m ((m.persistLocked u saved).2.2.put (m.persistLocked u saved).2.1) := by
  have hid : t.id = taskID := Lib.Keyed.keyOf_get? ht
  exact .updated t u _ _ (hid.symm ▸ ht) hu (m.persistLocked_committed u saved) rfl

namespace Manager

theorem create_effect (description : String) (assignments : List Assignment) (requireApproval : Bool) (now : Clocks)
    (hfresh : freshID → m.tasks.get? (genID (m.seq + 1)) = none) :
    Effect keepsIDs hasWork freshID saved m
      (m.createWithGraphAndOptionsChecked description assignments requireApproval now saved).2 := by
  simp only [createWithGraphAndOptionsChecked]
  generalize ht : (if assignments = [] then _ else _ : Task) = t
  have hspec : t.id = genID (m.seq + 1) ∧ t.ledger.Opened ∧ t.Closed := by
    subst ht
    split
    · rename_i hnil
      exact ⟨rfl, .inr ⟨rfl, by simp [Task.ledger, hnil]⟩, fun h => by cases h⟩
    rename_i hne
    refine ⟨rfl, .inl ⟨rfl, by simpa [Task.ledger] using hne, ?_⟩, fun h => by cases h⟩
    intro e he
    simp only [Task.ledger, List.map_map, List.mem_map] at he
    obtain ⟨_, -, rfl⟩ := he
    rfl
  obtain ⟨hid, hopened, hclosed⟩ := hspec
  have hcommit := persistTaskAndCheckpointLocked_committed { m with seq := m.seq + 1 } t saved
  cases hresult : persistTaskAndCheckpointLocked { m with seq := m.seq + 1 } t saved with
  | mk result rest =>
    rw [hresult] at hcommit
    cases result with
    | error =>
      exact .created t rest.1 rest.2 hid (hid ▸ hfresh) hopened hclosed hcommit
        (.inr ⟨persistTaskAndCheckpointLocked_error (by rw [hresult]), rfl⟩)
    | ok =>
      exact .created t rest.1 rest.2 hid (hid ▸ hfresh) hopened hclosed hcommit
        (.inl ⟨persistTaskAndCheckpointLocked_ok (m := { m with seq := m.seq + 1 }) (t := t) (by rw [hresult]), rfl⟩)

theorem cancel_effect (id : String) (now : Instant) :
    Effect keepsIDs hasWork freshID saved m (m.cancelAndSnapshotChecked id now saved).2 := by
  unfold cancelAndSnapshotChecked
  cases ht : m.tasks.get? id with
  | none => exact .refused rfl
  | some t =>
    dsimp only
    split
    · exact .refused rfl
    · rename_i hstatus
      exact .checkpointed ht (Task.advances_cancel hstatus now)

theorem startSubtask_effect (subtaskID : String) (now : Instant) :
    Effect keepsIDs hasWork freshID saved m (m.startSubtaskChecked taskID subtaskID now saved).2 := by
  unfold startSubtaskChecked
  cases ht : m.tasks.get? taskID with
  | none => exact .refused rfl
  | some t =>
    dsimp only
    split
    · exact .refused rfl
    cases hr : t.subtask? subtaskID with
    | none => exact .refused rfl
    | some r =>
      dsimp only
      split
      · exact .refused rfl
      rename_i hactive
      have hedit : t.Advances keepsIDs hasWork (t.modifySubtask subtaskID fun r => { r with status := .running }) :=
        Task.advances_edit hr (by simpa using hactive) rfl nofun fun _ => rfl
      exact .persisted ht ⟨hedit.id, hedit.steps, hedit.step, hedit.closed⟩

theorem reassignSubtask_effect (subtaskID : String) (a : Assignment) (now : Instant)
    (hids : keepsIDs → a.subtask.id = subtaskID) :
    Effect keepsIDs hasWork freshID saved m (m.reassignSubtaskChecked taskID subtaskID a now saved).2 := by
  unfold reassignSubtaskChecked
  cases ht : m.tasks.get? taskID with
  | none => exact .refused rfl
  | some t =>
    dsimp only
    cases hr : t.subtask? subtaskID with
    | none => exact .refused rfl
    | some r =>
      dsimp only
      split
      · exact .refused rfl
      rename_i hactive
      have hactive : r.active := by simpa using hactive
      have hedit : t.Advances keepsIDs hasWork (t.modifySubtask subtaskID fun r => { r with assignment := a }) :=
        Task.advances_edit hr hactive hactive (fun h => h) fun h => (hids h).trans (Task.subtask?_id hr).symm
      exact .persisted ht ⟨hedit.id, hedit.steps, hedit.step, hedit.closed⟩

theorem approve_effect (now : Instant) : Effect keepsIDs hasWork freshID saved m (m.approveChecked taskID now saved).2 := by
  unfold approveChecked
  cases ht : m.tasks.get? taskID with
  | none => exact .refused rfl
  | some t =>
    dsimp only
    split
    · exact .refused rfl
    rename_i hstatus
    have hstatus : t.status = .awaitingApproval := not_not.mp hstatus
    split
    · exact .checkpointed ht (.of_step rfl (.release (.inl hstatus) (.inr (.inl rfl)) rfl) fun _ _ _ => rfl)
    · exact .checkpointed ht (.of_step rfl (.release (.inl hstatus) (.inl rfl) rfl) nofun)

theorem finishSynthesis_effect (outcome : Except String String) (now : Instant) :
    Effect keepsIDs hasWork freshID saved m (m.finishSynthesis taskID outcome now saved).2 := by
  unfold finishSynthesis
  cases ht : m.tasks.get? taskID with
  | none => exact .refused rfl
  | some t =>
    dsimp only
    split
    · exact .refused rfl
    · rename_i hstatus
      exact .checkpointed ht (Task.advances_synthesized (not_not.mp hstatus) outcome now)

theorem resumeTask_effect (now : Instant)
    (hwork : hasWork → ∀ t, m.tasks.get? taskID = some t → t.resumable → t.status = .failed ∨ t.status = .cancelled →
      ∃ r ∈ t.subtasks, r.status ≠ .completed) :
    Effect keepsIDs hasWork freshID saved m (m.resumeTaskChecked taskID now saved).2 := by
  unfold resumeTaskChecked
  cases ht : m.tasks.get? taskID with
  | none => exact .refused rfl
  | some t =>
    dsimp only
    split
    · exact .refused rfl
    split
    · exact .refused rfl
    rename_i hresumable
    split
    · exact .refused rfl
    rename_i hstatus
    refine .checkpointed ht (Task.advances_resume hstatus (fun h => ?_) now)
    exact hwork h t ht (by simpa using hresumable) (by tauto)

theorem beginDispatchAttempt_effect (subtaskID : String) (a : Assignment) (now : Instant) :
    Effect keepsIDs hasWork freshID saved m (m.beginDispatchAttemptChecked taskID subtaskID a now saved).2 := by
  unfold beginDispatchAttemptChecked
  cases ht : m.tasks.get? taskID with
  | none => exact .refused rfl
  | some t =>
    dsimp only
    cases hr : t.subtask? subtaskID with
    | none => exact .refused rfl
    | some =>
      dsimp only
      split
      · exact .refused rfl
      · refine .persisted ht (.touch (Task.same_touch ?_ now))
        exact fun _ => rfl

theorem finishDispatchAttempt_effect (subtaskID : String) (number : Int) (status : DispatchAttemptStatus)
    (failureClass : String) (httpStatus : Int) (attemptErr : Option String) (duration : Duration) (now : Instant) :
    Effect keepsIDs hasWork freshID saved m (m.finishDispatchAttemptChecked taskID subtaskID number status failureClass httpStatus
      attemptErr duration now saved).2 := by
  unfold finishDispatchAttemptChecked
  split
  · exact .refused rfl
  cases ht : m.tasks.get? taskID with
  | none => exact .refused rfl
  | some t =>
    dsimp only
    cases hr : t.subtask? subtaskID with
    | none => exact .refused rfl
    | some r =>
      dsimp only
      cases ha : attempt? r number with
      | none => exact .refused rfl
      | some =>
        dsimp only
        split
        · exact .refused rfl
        · refine .persisted ht (.touch (Task.same_touch ?_ now))
          exact fun _ => rfl

theorem completeSubtaskLocked_effect {r : SubtaskResult} {subtaskID output : String} {taskErr : Option String}
    {now : Instant} (ht : m.tasks.get? taskID = some t) (hr : u.subtask? subtaskID = some r)
    (hu : t.Advances keepsIDs hasWork ((u.recordOutcome subtaskID output taskErr).rollUp m.finalizer).2) :
    Effect keepsIDs hasWork freshID saved m (m.completeSubtaskLocked u subtaskID output taskErr now saved).2 := by
  unfold completeSubtaskLocked
  rw [hr]
  exact .checkpointed ht ⟨hu.id, hu.steps, hu.step, hu.closed⟩

theorem completeSubtask_effect (subtaskID output : String) (taskErr : Option String) (now : Instant) :
    Effect keepsIDs hasWork freshID saved m (m.completeSubtaskChecked taskID subtaskID output taskErr now saved).2 := by
  unfold completeSubtaskChecked
  cases ht : m.tasks.get? taskID with
  | none => exact .refused rfl
  | some t =>
    dsimp only
    split
    · exact .refused rfl
    rename_i hguard
    cases hr : t.subtask? subtaskID with
    | none =>
      unfold completeSubtaskLocked
      rw [hr]
      exact .refused rfl
    | some r =>
      have hactive : r.active := by
        by_contra hne
        exact hguard (.inr (by simpa [subtaskFinished, hr] using hne))
      obtain ⟨_, hi, -⟩ := Task.subtask?_entry hr fun r => r
      exact completeSubtaskLocked_effect ht hr (Task.advances_finish hr (Ledger.not_idle hi hactive) (fun _ => hactive)
        (Task.recordOutcome_ended output taskErr r) (fun _ => Task.recordOutcome_id output taskErr r) m.finalizer)

/-- What a dispatch attempt can come to: it is not recorded; it is recorded, but too late; it wins, but its
assignment takes the subtask away; or it wins and completes the subtask. -/
theorem completeDispatchAttempt_cases (m : Manager) (taskID subtaskID : String) (number : Int)
    (assignment : Option Assignment) (failureClass : String) (httpStatus : Int) (duration : Duration) (output : String)
    (now : Clocks) (saved : Except String Unit) :
    ∀ result, m.completeDispatchAttemptWithAssignmentChecked taskID subtaskID number assignment failureClass httpStatus
        duration output now saved = result →
      (result.1.1 = false ∧ result.2 = m) ∨
      ∃ t u r, m.tasks.get? taskID = some t ∧ t.Copy u ∧ u.subtask? subtaskID = some r ∧
        ((result.1.1 = false ∧ result.2 = (m.persistLocked u saved).2.2.put (m.persistLocked u saved).2.1) ∨
          (r.status = .running ∧ (u.reassigned subtaskID assignment).subtask? subtaskID = none ∧ result.1.1 = false ∧
            result.2 = m.put (u.reassigned subtaskID assignment)) ∨
          (r.status = .running ∧ (∃ r', (u.reassigned subtaskID assignment).subtask? subtaskID = some r') ∧
            result.1.1 = true ∧ result.2 =
              (m.completeSubtaskLocked (u.reassigned subtaskID assignment) subtaskID output none (now 1) saved).2)) := by
  rintro result rfl
  unfold completeDispatchAttemptWithAssignmentChecked
  cases ht : m.tasks.get? taskID with
  | none => exact .inl ⟨rfl, rfl⟩
  | some t =>
    dsimp only
    cases hr : t.subtask? subtaskID with
    | none => exact .inl ⟨rfl, rfl⟩
    | some r =>
      dsimp only
      cases ha : attempt? r number with
      | none => exact .inl ⟨rfl, rfl⟩
      | some a =>
        dsimp only
        split
        · exact .inl ⟨rfl, rfl⟩
        refine .inr ?_
        generalize hattempt : modifyAttempt t subtaskID number _ _ = u
        have hsame : t.Copy u := by
          subst hattempt
          refine ⟨Task.same_touch ?_ (now 0), rfl, rfl⟩
          exact fun _ => rfl
        have hr' : ∃ r', u.subtask? subtaskID = some r' ∧ r'.status = r.status := by
          subst hattempt
          exact ⟨_, find?_modifyFirst hr (by simpa using Task.subtask?_id hr), rfl⟩
        obtain ⟨r', hr', hstatus⟩ := hr'
        refine ⟨t, u, r', rfl, hsame, hr', ?_⟩
        split
        · exact .inl ⟨rfl, rfl⟩
        rename_i hlive
        have hrunning : r'.status = .running := by
          rw [hstatus]
          tauto
        refine .inr ?_
        unfold completeSubtaskLocked
        cases hfound : (u.reassigned subtaskID assignment).subtask? subtaskID with
        | none => exact .inl ⟨hrunning, rfl, rfl, rfl⟩
        | some r'' => exact .inr ⟨hrunning, ⟨r'', rfl⟩, rfl, rfl⟩

theorem completeDispatchAttempt_effect (subtaskID : String) (number : Int) (assignment : Option Assignment)
    (failureClass : String) (httpStatus : Int) (duration : Duration) (output : String) (now : Clocks)
    (hids : keepsIDs → ∀ a ∈ assignment, a.subtask.id = subtaskID) :
    Effect keepsIDs hasWork freshID saved m (m.completeDispatchAttemptWithAssignmentChecked taskID subtaskID number assignment
      failureClass httpStatus duration output now saved).2 := by
  rcases m.completeDispatchAttempt_cases taskID subtaskID number assignment failureClass httpStatus duration output now
    saved _ rfl with ⟨-, h⟩ | ⟨t, u, r, ht, hsame, hr, h⟩
  · exact .refused h
  rcases h with ⟨-, h⟩ | ⟨hrunning, hnone, -, h⟩ | ⟨hrunning, ⟨r', hr'⟩, -, h⟩
  · rw [h]
    exact .persisted ht (.touch hsame.toSame)
  · -- only an assignment for another subtask makes the subtask disappear
    cases assignment with
    | none => rw [Task.reassigned, hr] at hnone; cases hnone
    | some a =>
      have hother : ¬ keepsIDs := by
        intro hk
        have hfound : (u.reassigned subtaskID (some a)).subtask? subtaskID = some { r with assignment := a } :=
          find?_modifyFirst hr (by simpa using hids hk a rfl)
        exact absurd (hnone.symm.trans hfound) (by simp)
      rw [h]
      have hactive : r.active := by rw [SubtaskResult.active, hrunning]; rfl
      exact .uncommitted t _ (Lib.Keyed.keyOf_get? ht ▸ ht)
        (.after hsame.toSame (Task.advances_edit hr hactive hactive (fun h => h) fun hk => absurd hk hother))
        ⟨hsame.origin, hsame.sequence⟩ hother rfl
  · rw [h]
    have hactive : r.active := by rw [SubtaskResult.active, hrunning]; rfl
    obtain ⟨_, hi, -⟩ := Task.subtask?_entry hr fun r => r
    refine completeSubtaskLocked_effect ht hr' (.after hsame.toSame ?_)
    cases assignment with
    | none =>
      exact Task.advances_finish hr (Ledger.not_idle hi hactive) (fun _ => hactive) (.inl rfl) (fun _ => rfl) m.finalizer
    | some a => exact Task.advances_win hr hactive (fun hk => hids hk a rfl) output m.finalizer hr'

end Manager

theorem Op.effect (op : Op) (m : Manager) (saved : Except String Unit) :
    Effect op.KeepsIDs (op.HasWork m) (op.FreshID m) saved m (op.run m saved) := by
  cases op with
  | setFinalizer finalizer => exact .configured finalizer rfl
  | create description assignments requireApproval now =>
    exact create_effect description assignments requireApproval now fun h => h
  | cancel id now => exact cancel_effect id now
  | startSubtask _ subtaskID now => exact startSubtask_effect subtaskID now
  | reassignSubtask _ subtaskID assignment now =>
    exact reassignSubtask_effect subtaskID assignment now fun h => h
  | completeSubtask _ subtaskID output taskErr now =>
    exact completeSubtask_effect subtaskID output taskErr now
  | approve _ now => exact approve_effect now
  | finishSynthesis _ outcome now => exact finishSynthesis_effect outcome now
  | resumeTask _ now => exact resumeTask_effect now fun h => h
  | beginDispatchAttempt _ subtaskID assignment now =>
    exact beginDispatchAttempt_effect subtaskID assignment now
  | finishDispatchAttempt _ subtaskID number status failureClass httpStatus attemptErr duration now =>
    exact finishDispatchAttempt_effect subtaskID number status failureClass httpStatus attemptErr duration now
  | completeDispatchAttempt _ subtaskID number assignment failureClass httpStatus duration output now =>
    exact completeDispatchAttempt_effect subtaskID number assignment failureClass httpStatus duration output now
      fun h => h

end Maistr0.Taskmgr
