import Maistr0.Orchestrator.Hedging

/-!
# The attempts on record

Which (node, model) pairs the attempts of a subtask went to, and what the operations of the manager do to
that list: `BeginDispatchAttemptChecked` appends to the list of its subtask, whether or not the save that
follows succeeds, and nothing else changes any list.
-/

namespace Maistr0.Taskmgr

open Go Lib.Keyed Option Manager SubtaskResult

def DispatchAttempt.pair (a : DispatchAttempt) : String × String := (a.nodeID, a.model)

def SubtaskResult.record (r : SubtaskResult) : String × List (String × String) :=
  (r.id, r.attempts.map DispatchAttempt.pair)

namespace Task

def records (t : Task) : List (String × List (String × String)) := t.subtasks.map record

def pairs (t : Task) (subtaskID : String) : List (String × String) :=
  ((t.records.find? fun record => record.1 = subtaskID).map Prod.snd).getD []

theorem pairs_eq (t : Task) (subtaskID : String) :
    t.pairs subtaskID = ((t.subtask? subtaskID).map fun r => r.attempts.map DispatchAttempt.pair).getD [] := by
  rw [pairs, records, List.find?_map, map_map]
  rfl

theorem pairs_of_subtask? {t : Task} {subtaskID : String} {r : SubtaskResult} (h : t.subtask? subtaskID = some r) :
    t.pairs subtaskID = r.attempts.map DispatchAttempt.pair := by
  rw [pairs_eq, h]
  rfl

end Task

namespace Manager

def pairs (m : Manager) (taskID subtaskID : String) : List (String × String) :=
  (m.attempts taskID subtaskID).map DispatchAttempt.pair

theorem length_pairs (m : Manager) (taskID subtaskID : String) :
    (m.pairs taskID subtaskID).length = (m.attempts taskID subtaskID).length := List.length_map _

theorem pairs_eq (m : Manager) (taskID subtaskID : String) :
    m.pairs taskID subtaskID = ((m.tasks.get? taskID).map fun t => t.pairs subtaskID).getD [] := by
  unfold pairs attempts
  cases m.tasks.get? taskID with
  | none => rfl
  | some t =>
    rw [bind_some, map_some, getD_some, Task.pairs_eq]
    cases t.subtask? subtaskID <;> rfl

theorem pairs_put {m m' : Manager} {u : Task} (h : m'.tasks = m.tasks.put u) (taskID subtaskID : String) :
    m'.pairs taskID subtaskID = if u.id = taskID then u.pairs subtaskID else m.pairs taskID subtaskID := by
  rw [pairs_eq, pairs_eq, h, get?_put]
  split
  · rfl
  · rfl

theorem persistLocked_records (m : Manager) (t : Task) (saved : Except String Unit) :
    (m.persistLocked t saved).2.1.records = t.records := by
  unfold persistLocked
  dsimp only
  split
  · rfl
  · split <;> rfl

theorem persistLocked_ok (m : Manager) (t : Task) : (m.persistLocked t (.ok ())).1 = .ok () := by
  unfold persistLocked
  dsimp only
  split <;> rfl

theorem persistTaskAndCheckpointLocked_records (m : Manager) (t : Task) (saved : Except String Unit) :
    (m.persistTaskAndCheckpointLocked t saved).2.1.records = t.records := by
  unfold persistTaskAndCheckpointLocked saveTaskAndCheckpointLocked
  dsimp only
  split
  · rfl
  · split <;> rfl

end Manager

/-! ### Calls that record no attempt -/

inductive KeepsRecords (m m' : Manager) : Prop
  | same (h : m'.tasks = m.tasks)
  | changed (t u : Task) (ht : m.tasks.get? t.id = some t) (hid : u.id = t.id) (hrecords : u.records = t.records)
      (h : m'.tasks = m.tasks.put u)
  | created (u : Task) (hnone : m.tasks.get? u.id = none) (hrecords : ∀ record ∈ u.records, record.2 = [])
      (h : m'.tasks = m.tasks.put u)

namespace KeepsRecords

variable {m m' : Manager} {t u : Task} {taskID subtaskID : String} {saved : Except String Unit}

theorem pairs_eq (h : KeepsRecords m m') (taskID subtaskID : String) : m'.pairs taskID subtaskID = m.pairs taskID subtaskID := by
  cases h with
  | same h => rw [Manager.pairs_eq, Manager.pairs_eq, h]
  | changed t u ht hid hrecords h =>
    rw [pairs_put h]
    split
    · rename_i heq
      rw [Manager.pairs_eq, ← heq, hid, ht, map_some, getD_some, Task.pairs, Task.pairs, hrecords]
    · rfl
  | created u hnone hrecords h =>
    rw [pairs_put h]
    split
    · rename_i heq
      rw [Manager.pairs_eq, ← heq, hnone, Task.pairs]
      cases hrecord : u.records.find? fun record => record.1 = subtaskID with
      | none => rfl
      | some record => exact hrecords record (List.mem_of_find?_eq_some hrecord)
    · rfl

theorem persisted (ht : m.tasks.get? taskID = some t) (hid : u.id = t.id) (hrecords : u.records = t.records) :
    KeepsRecords m ((m.persistLocked u saved).2.2.put (m.persistLocked u saved).2.1) := by
  have hcommit := m.persistLocked_committed u saved
  have htask : t.id = taskID := keyOf_get? ht
  refine .changed t _ (htask.symm ▸ ht) (hcommit.same.id.trans hid) ((m.persistLocked_records u saved).trans hrecords) ?_
  rw [Manager.put, hcommit.tasks]

theorem checkpointed (ht : m.tasks.get? taskID = some t) (hid : u.id = t.id) (hrecords : u.records = t.records) :
    KeepsRecords m
      ((m.persistTaskAndCheckpointLocked u saved).2.2.put (m.persistTaskAndCheckpointLocked u saved).2.1) := by
  have hcommit := m.persistTaskAndCheckpointLocked_committed u saved
  have htask : t.id = taskID := keyOf_get? ht
  refine .changed t _ (htask.symm ▸ ht) (hcommit.same.id.trans hid)
    ((m.persistTaskAndCheckpointLocked_records u saved).trans hrecords) ?_
  rw [Manager.put, hcommit.tasks]

end KeepsRecords

namespace Task

variable {t : Task} {subtaskID : String}

variable {f : SubtaskResult → SubtaskResult}

theorem records_modifySubtask (h : ∀ r, r.id = subtaskID → (f r).record = r.record) :
    (t.modifySubtask subtaskID f).records = t.records := by
  exact map_modifyFirst (fun r hr => h r (by simpa using hr)) t.subtasks

theorem subtask?_modifySubtask {r : SubtaskResult} (h : t.subtask? subtaskID = some r) (hid : (f r).id = r.id) :
    (t.modifySubtask subtaskID f).subtask? subtaskID = some (f r) :=
  find?_modifyFirst h (decide_eq_true (hid.trans (subtask?_id h)))

theorem pairs_modifySubtask_ne {other : String} (hne : other ≠ subtaskID) (hid : ∀ r, (f r).id = r.id) :
    (t.modifySubtask subtaskID f).pairs other = t.pairs other := by
  have hfind : (t.modifySubtask subtaskID f).subtask? other = t.subtask? other := by
    unfold subtask? modifySubtask
    induction t.subtasks with
    | nil => rfl
    | cons r rest ih =>
      unfold modifyFirst
      split
      · rename_i hr
        have hr : r.id = subtaskID := by simpa using hr
        have hno : ¬ r.id = other := fun h => hne (h.symm.trans hr)
        rw [List.find?_cons_of_neg (by simpa [hid] using hno), List.find?_cons_of_neg (by simpa using hno)]
      · rw [List.find?_cons, List.find?_cons, ih]
  rw [pairs_eq, pairs_eq, hfind]

theorem records_modifyAttempt {f : DispatchAttempt → DispatchAttempt} (h : ∀ a, (f a).pair = a.pair) (number : Int)
    (now : Instant) : (modifyAttempt t subtaskID number f now).records = t.records := by
  refine records_modifySubtask fun r _ => ?_
  unfold record
  rw [map_modifyFirst (fun a _ => h a)]

theorem records_map (h : ∀ r, (f r).record = r.record) : (t.subtasks.map f).map record = t.records := by
  rw [records, List.map_map]
  exact List.map_congr_left fun r _ => h r

theorem records_recordOutcome (output : String) (taskErr : Option String) :
    (t.recordOutcome subtaskID output taskErr).records = t.records := by
  refine records_modifySubtask fun r _ => ?_
  cases taskErr <;> rfl

theorem records_rollUp (t : Task) (finalizer : Bool) : (t.rollUp finalizer).2.records = t.records := by
  unfold rollUp
  dsimp only
  split
  · rfl
  split
  · rfl
  split
  · rfl
  · split <;> rfl

theorem records_reassigned {assignment : Option Assignment} (h : ∀ a ∈ assignment, a.subtask.id = subtaskID) :
    (t.reassigned subtaskID assignment).records = t.records := by
  cases assignment with
  | none => rfl
  | some a =>
    refine records_modifySubtask fun r hr => ?_
    unfold record
    rw [show ({ r with assignment := a } : SubtaskResult).id = r.id from (h a rfl).trans hr.symm]

theorem synthesized_spec (t : Task) (outcome : Except String String) (now : Instant) :
    (t.synthesized outcome now).id = t.id ∧ (t.synthesized outcome now).records = t.records := by
  unfold synthesized
  cases outcome with
  | error => exact ⟨rfl, rfl⟩
  | ok =>
    dsimp only
    split <;> exact ⟨rfl, rfl⟩

end Task

namespace Manager

variable {m : Manager} {t : Task} {taskID subtaskID : String} {saved : Except String Unit}

theorem completeSubtaskLocked_keepsRecords {u : Task} (ht : m.tasks.get? taskID = some t) (hid : u.id = t.id)
    (hrecords : u.records = t.records) (output : String) (taskErr : Option String) (now : Instant) :
    KeepsRecords m (m.completeSubtaskLocked u subtaskID output taskErr now saved).2 := by
  unfold completeSubtaskLocked
  split
  · exact .same rfl
  · refine .checkpointed ht (((u.recordOutcome subtaskID output taskErr).rollUp_spec m.finalizer).1.trans hid) ?_
    exact (Task.records_rollUp _ _).trans ((Task.records_recordOutcome output taskErr).trans hrecords)

theorem create_keepsRecords (description : String) (assignments : List Assignment) (requireApproval : Bool) (now : Clocks)
    (hfresh : m.tasks.get? (genID (m.seq + 1)) = none) :
    KeepsRecords m (m.createWithGraphAndOptionsChecked description assignments requireApproval now saved).2 := by
  simp only [createWithGraphAndOptionsChecked]
  generalize ht : (if assignments = [] then _ else _ : Task) = t
  have hspec : t.id = genID (m.seq + 1) ∧ ∀ record ∈ t.records, record.2 = [] := by
    have hnew : ∀ record ∈ (assignments.map fun a => ({ assignment := a, status := .pending } : SubtaskResult)).map
        SubtaskResult.record, record.2 = [] := by
      simp [SubtaskResult.record]
    subst ht
    split <;> exact ⟨rfl, hnew⟩
  obtain ⟨hid, hattempts⟩ := hspec
  have hcommit := persistTaskAndCheckpointLocked_committed { m with seq := m.seq + 1 } t saved
  have hrecords := persistTaskAndCheckpointLocked_records { m with seq := m.seq + 1 } t saved
  cases hresult : persistTaskAndCheckpointLocked { m with seq := m.seq + 1 } t saved with
  | mk result rest =>
    rw [hresult] at hcommit hrecords
    cases result with
    | error => exact .same hcommit.tasks
    | ok =>
      refine .created rest.1 ?_ ?_ (congrArg (fun tasks => tasks.put rest.1) hcommit.tasks)
      · rw [hcommit.same.id, hid, hfresh]
      · rw [show rest.1.records = t.records from hrecords]
        exact hattempts

theorem cancel_keepsRecords (id : String) (now : Instant) : KeepsRecords m (m.cancelAndSnapshotChecked id now saved).2 := by
  unfold cancelAndSnapshotChecked
  cases ht : m.tasks.get? id with
  | none => exact .same rfl
  | some =>
    dsimp only
    split
    · exact .same rfl
    · refine .checkpointed ht rfl (Task.records_map fun r => ?_)
      split <;> rfl

theorem startSubtask_keepsRecords (now : Instant) : KeepsRecords m (m.startSubtaskChecked taskID subtaskID now saved).2 := by
  unfold startSubtaskChecked
  cases ht : m.tasks.get? taskID with
  | none => exact .same rfl
  | some =>
    dsimp only
    split
    · exact .same rfl
    split
    · exact .same rfl
    split
    · exact .same rfl
    · exact .persisted ht rfl (Task.records_modifySubtask fun _ _ => rfl)

theorem reassignSubtask_keepsRecords {a : Assignment} (hid : a.subtask.id = subtaskID) (now : Instant) :
    KeepsRecords m (m.reassignSubtaskChecked taskID subtaskID a now saved).2 := by
  unfold reassignSubtaskChecked
  cases ht : m.tasks.get? taskID with
  | none => exact .same rfl
  | some =>
    dsimp only
    split
    · exact .same rfl
    split
    · exact .same rfl
    refine .persisted ht rfl ?_
    have hids : ∀ b ∈ some a, b.subtask.id = subtaskID := fun _ h => some.inj h ▸ hid
    exact Task.records_reassigned hids

theorem completeSubtask_keepsRecords (output : String) (taskErr : Option String) (now : Instant) :
    KeepsRecords m (m.completeSubtaskChecked taskID subtaskID output taskErr now saved).2 := by
  unfold completeSubtaskChecked
  cases ht : m.tasks.get? taskID with
  | none => exact .same rfl
  | some =>
    dsimp only
    split
    · exact .same rfl
    · exact completeSubtaskLocked_keepsRecords ht rfl rfl output taskErr now

theorem approve_keepsRecords (now : Instant) : KeepsRecords m (m.approveChecked taskID now saved).2 := by
  unfold approveChecked
  cases ht : m.tasks.get? taskID with
  | none => exact .same rfl
  | some =>
    dsimp only
    split
    · exact .same rfl
    · split <;> exact .checkpointed ht rfl rfl

theorem finishSynthesis_keepsRecords (outcome : Except String String) (now : Instant) :
    KeepsRecords m (m.finishSynthesis taskID outcome now saved).2 := by
  unfold finishSynthesis
  cases ht : m.tasks.get? taskID with
  | none => exact .same rfl
  | some t =>
    dsimp only
    split
    · exact .same rfl
    · obtain ⟨hid, hrecords⟩ := t.synthesized_spec outcome now
      exact .checkpointed ht hid hrecords

theorem resumeTask_keepsRecords (now : Instant) : KeepsRecords m (m.resumeTaskChecked taskID now saved).2 := by
  unfold resumeTaskChecked
  cases ht : m.tasks.get? taskID with
  | none => exact .same rfl
  | some =>
    dsimp only
    split
    · exact .same rfl
    split
    · exact .same rfl
    split
    · exact .same rfl
    · refine .checkpointed ht rfl (Task.records_map fun r => ?_)
      split <;> rfl

theorem finishDispatchAttempt_keepsRecords (number : Int) (status : DispatchAttemptStatus) (failureClass : String)
    (httpStatus : Int) (attemptErr : Option String) (duration : Duration) (now : Instant) :
    KeepsRecords m (m.finishDispatchAttemptChecked taskID subtaskID number status failureClass httpStatus attemptErr duration
      now saved).2 := by
  unfold finishDispatchAttemptChecked
  split
  · exact .same rfl
  cases ht : m.tasks.get? taskID with
  | none => exact .same rfl
  | some =>
    dsimp only
    split
    · exact .same rfl
    split
    · exact .same rfl
    split
    · exact .same rfl
    · refine .persisted ht rfl (Task.records_modifyAttempt ?_ number now)
      exact fun _ => rfl

theorem completeDispatchAttempt_keepsRecords (number : Int) {assignment : Option Assignment}
    (hids : ∀ a ∈ assignment, a.subtask.id = subtaskID) (failureClass : String) (httpStatus : Int) (duration : Duration)
    (output : String) (now : Clocks) :
    KeepsRecords m (m.completeDispatchAttemptWithAssignmentChecked taskID subtaskID number assignment failureClass httpStatus
      duration output now saved).2 := by
  unfold completeDispatchAttemptWithAssignmentChecked
  cases ht : m.tasks.get? taskID with
  | none => exact .same rfl
  | some t =>
    dsimp only
    split
    · exact .same rfl
    split
    · exact .same rfl
    split
    · exact .same rfl
    generalize hattempt : modifyAttempt t subtaskID number _ _ = u
    have hu : u.id = t.id ∧ u.records = t.records := by
      subst hattempt
      refine ⟨rfl, Task.records_modifyAttempt ?_ number (now 0)⟩
      exact fun _ => rfl
    have hv : (u.reassigned subtaskID assignment).id = t.id ∧ (u.reassigned subtaskID assignment).records = t.records :=
      ⟨(by cases assignment <;> exact hu.1), (Task.records_reassigned hids).trans hu.2⟩
    split
    · exact .persisted ht hu.1 hu.2
    have hkeeps : KeepsRecords m
        (m.completeSubtaskLocked (u.reassigned subtaskID assignment) subtaskID output none (now 1) saved).2 :=
      completeSubtaskLocked_keepsRecords ht hv.1 hv.2 output none (now 1)
    have htask : t.id = taskID := keyOf_get? ht
    unfold completeSubtaskLocked at hkeeps ⊢
    cases hr : (u.reassigned subtaskID assignment).subtask? subtaskID with
    | none => exact .changed t _ (htask.symm ▸ ht) hv.1 hv.2 rfl
    | some =>
      rw [hr] at hkeeps
      exact hkeeps

end Manager

/-! ### The beginning of an attempt -/

namespace Manager

variable {m : Manager} {taskID subtaskID : String} {saved : Except String Unit}

theorem pairs_persisted {u : Task} (taskID subtaskID : String) :
    ((m.persistLocked u saved).2.2.put (m.persistLocked u saved).2.1).pairs taskID subtaskID =
      if u.id = taskID then u.pairs subtaskID else m.pairs taskID subtaskID := by
  have hcommit := m.persistLocked_committed u saved
  have hput : ((m.persistLocked u saved).2.2.put (m.persistLocked u saved).2.1).tasks =
      m.tasks.put (m.persistLocked u saved).2.1 := by
    rw [put, hcommit.tasks]
  rw [pairs_put hput, hcommit.same.id, Task.pairs, m.persistLocked_records u saved]
  rfl

theorem beginDispatchAttempt_records (m : Manager) (taskID subtaskID : String) (a : Assignment) (now : Instant)
    (saved : Except String Unit) :
    ∀ answer, m.beginDispatchAttemptChecked taskID subtaskID a now saved = answer →
      (answer.2 = m ∧ answer.1.toBool = false) ∨
      ((saved = .ok () → answer.1.toBool) ∧
        answer.2.pairs taskID subtaskID = m.pairs taskID subtaskID ++ [(a.nodeID, a.model)] ∧
        ∀ taskID' subtaskID', (taskID', subtaskID') ≠ (taskID, subtaskID) →
          answer.2.pairs taskID' subtaskID' = m.pairs taskID' subtaskID') := by
  rintro answer rfl
  unfold beginDispatchAttemptChecked
  cases ht : m.tasks.get? taskID with
  | none => exact .inl ⟨rfl, rfl⟩
  | some t =>
    dsimp only
    cases hr : t.subtask? subtaskID with
    | none => exact .inl ⟨rfl, rfl⟩
    | some r =>
      dsimp only
      split
      · exact .inl ⟨rfl, rfl⟩
      have hid : t.id = taskID := keyOf_get? ht
      refine .inr ⟨fun hsaved => ?_, ?_, fun taskID' subtaskID' hne => ?_⟩
      · subst hsaved
        rw [persistLocked_ok]
        rfl
      · refine (pairs_persisted _ _).trans ((if_pos hid).trans ?_)
        refine (Task.pairs_of_subtask? (Task.subtask?_modifySubtask hr rfl)).trans ?_
        rw [List.map_append, pairs_eq, ht, map_some, getD_some, Task.pairs_of_subtask? hr]
        rfl
      · refine (pairs_persisted _ _).trans ?_
        split
        · rename_i heq
          have heq : t.id = taskID' := heq
          have hother : subtaskID' ≠ subtaskID := fun h => hne (by rw [← heq, hid, h])
          refine (Task.pairs_modifySubtask_ne hother ?_).trans ?_
          · exact fun _ => rfl
          · rw [pairs_eq, ← heq, hid, ht]
            rfl
        · rfl

end Manager

namespace Op

variable {m : Manager} {saved : Except String Unit}

def Begins (taskID subtaskID : String) : Op → Prop
  | .beginDispatchAttempt taskID' subtaskID' _ _ => (taskID', subtaskID') = (taskID, subtaskID)
  | _ => False

theorem pairs_run {op : Op} (hids : op.KeepsIDs) (hfresh : op.FreshID m) {taskID subtaskID : String}
    (hbegins : ¬ op.Begins taskID subtaskID) : (op.run m saved).pairs taskID subtaskID = m.pairs taskID subtaskID := by
  cases op with
  | setFinalizer => rfl
  | create description assignments requireApproval now =>
    exact (create_keepsRecords description assignments requireApproval now hfresh).pairs_eq taskID subtaskID
  | cancel id now => exact (cancel_keepsRecords id now).pairs_eq taskID subtaskID
  | startSubtask _ _ now => exact (startSubtask_keepsRecords now).pairs_eq taskID subtaskID
  | reassignSubtask _ _ _ now =>
    exact (reassignSubtask_keepsRecords hids now).pairs_eq taskID subtaskID
  | completeSubtask _ _ output taskErr now =>
    exact (completeSubtask_keepsRecords output taskErr now).pairs_eq taskID subtaskID
  | approve _ now => exact (approve_keepsRecords now).pairs_eq taskID subtaskID
  | finishSynthesis _ outcome now => exact (finishSynthesis_keepsRecords outcome now).pairs_eq taskID subtaskID
  | resumeTask _ now => exact (resumeTask_keepsRecords now).pairs_eq taskID subtaskID
  | beginDispatchAttempt taskID' subtaskID' a now =>
    rcases m.beginDispatchAttempt_records taskID' subtaskID' a now saved _ rfl with ⟨hsame, -⟩ | ⟨-, -, hothers⟩
    · exact congrArg (fun m => Manager.pairs m taskID subtaskID) hsame
    · exact hothers taskID subtaskID fun h => hbegins h.symm
  | finishDispatchAttempt _ _ number status failureClass httpStatus attemptErr duration now =>
    exact (finishDispatchAttempt_keepsRecords number status failureClass httpStatus attemptErr duration
      now).pairs_eq taskID subtaskID
  | completeDispatchAttempt _ _ number _ failureClass httpStatus duration output now =>
    exact (completeDispatchAttempt_keepsRecords number hids failureClass httpStatus duration output
      now).pairs_eq taskID subtaskID

end Op

end Maistr0.Taskmgr
