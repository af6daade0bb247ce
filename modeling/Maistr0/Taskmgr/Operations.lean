import Maistr0.Taskmgr.Ledger

/-!
# What the operations do

Every local operation of a manager is one of few things: it is refused, or it changes one task in a
way its ledger allows, stamps it and commits it. `Op.effect` says so once for all of them; nothing
after this module unfolds an operation.
-/

namespace Maistr0.Taskmgr

open Go List

def SubtaskResult.entry (r : SubtaskResult) : Entry :=
  { assignment := r.assignment, status := r.status, output := r.output }

namespace Task

def ledger (t : Task) : Ledger := { status := t.status, result := t.result, entries := t.subtasks.map SubtaskResult.entry }

def Closed (t : Task) : Prop := t.status = .completed → t.resumable = false

/-- The same work under another stamp, time, checkpoint or attempt history. -/
structure Same (t t' : Task) : Prop where
  id : t'.id = t.id
  ledger : t'.ledger = t.ledger
  closed : t.Closed → t'.Closed

structure Copy (t t' : Task) : Prop extends Same t t' where
  origin : t'.origin = t.origin
  sequence : t'.sequence = t.sequence

theorem Same.refl (t : Task) : t.Same t := ⟨rfl, rfl, fun h => h⟩

theorem Same.trans {t t' t'' : Task} (h : t.Same t') (h' : t'.Same t'') : t.Same t'' :=
  ⟨h'.id.trans h.id, h'.ledger.trans h.ledger, fun hc => h'.closed (h.closed hc)⟩

theorem Copy.refl (t : Task) : t.Copy t := ⟨Same.refl t, rfl, rfl⟩

theorem Copy.trans {t t' t'' : Task} (h : t.Copy t') (h' : t'.Copy t'') : t.Copy t'' :=
  ⟨h.toSame.trans h'.toSame, h'.origin.trans h.origin, h'.sequence.trans h.sequence⟩

end Task

theorem cloneTask_copy (t : Task) : t.Copy (cloneTask t) := by
  refine ⟨⟨rfl, ?_, fun h => h⟩, rfl, rfl⟩
  simp only [Task.ledger, cloneTask, map_map, Ledger.mk.injEq, true_and]
  rfl

theorem checkpointForTask_copy (t : Task) : t.Copy (checkpointForTask t) := by
  refine ⟨⟨rfl, rfl, fun _ hcompleted => ?_⟩, rfl, rfl⟩
  change t.status = .completed at hcompleted
  simp [checkpointForTask, hcompleted]

/-! ### Commits -/

def Stored (saved : Except String Unit) (t : Task) (store store' : Option Tasks) : Prop :=
  match store, saved with
  | none, _ => store' = none
  | some s, .error _ => store' = some s
  | some s, .ok _ => ∃ copy, t.Copy copy ∧ store' = some (s.put copy)

/-- `m'` is `m` after `t` was stamped and handed to the store; in memory it is now `t'`, still to be put
into the map. -/
structure Committed (saved : Except String Unit) (m : Manager) (t t' : Task) (m' : Manager) : Prop where
  same : t.Same t'
  origin : t'.origin = m.syncOrigin
  sequence : t'.sequence = incr (m.syncSeq.get m.syncOrigin)
  tasks : m'.tasks = m.tasks
  seq : m'.seq = m.seq
  syncOrigin : m'.syncOrigin = m.syncOrigin
  syncSeq : m'.syncSeq = m.syncSeq.set m.syncOrigin (incr (m.syncSeq.get m.syncOrigin))
  finalizer : m'.finalizer = m.finalizer
  issued : m'.issued = (m.syncOrigin, incr (m.syncSeq.get m.syncOrigin)) :: m.issued
  stored : Stored saved t' m.store m'.store

namespace Manager

theorem persistLocked_committed (m : Manager) (t : Task) (saved : Except String Unit) :
    Committed saved m t (m.persistLocked t saved).2.1 (m.persistLocked t saved).2.2 := by
  have hsame : t.Same (m.stampLocked t).1 := ⟨rfl, rfl, fun h => h⟩
  obtain ⟨_, _, _, _, _, store, _⟩ := m
  cases store with
  | none => exact ⟨hsame, rfl, rfl, rfl, rfl, rfl, rfl, rfl, rfl, rfl⟩
  | some =>
    cases saved with
    | error => exact ⟨hsame, rfl, rfl, rfl, rfl, rfl, rfl, rfl, rfl, rfl⟩
    | ok => exact ⟨hsame, rfl, rfl, rfl, rfl, rfl, rfl, rfl, rfl, ⟨_, cloneTask_copy _, rfl⟩⟩

theorem saveTaskAndCheckpointLocked_copy (m : Manager) (t : Task) (saved : Except String Unit) :
    t.Copy (m.saveTaskAndCheckpointLocked t saved).2.1 ∧
      Stored saved (m.saveTaskAndCheckpointLocked t saved).2.1 m.store (m.saveTaskAndCheckpointLocked t saved).2.2.store ∧
      (m.saveTaskAndCheckpointLocked t saved).2.2 =
        { m with store := (m.saveTaskAndCheckpointLocked t saved).2.2.store } := by
  obtain ⟨_, _, _, _, _, store, _⟩ := m
  cases store with
  | none => exact ⟨Task.Copy.refl t, rfl, rfl⟩
  | some =>
    cases saved with
    | error => exact ⟨Task.Copy.refl t, rfl, rfl⟩
    | ok =>
      have hcopy : (cloneTask t).Copy (checkpointForTask (cloneTask t)) := checkpointForTask_copy _
      refine ⟨⟨⟨rfl, rfl, ?_⟩, rfl, rfl⟩, ⟨checkpointForTask (cloneTask t), ⟨⟨rfl, ?_, fun h => h⟩, rfl, rfl⟩, rfl⟩, rfl⟩
      · exact fun h => hcopy.closed h
      · exact (cloneTask_copy t).ledger

theorem persistTaskAndCheckpointLocked_committed (m : Manager) (t : Task) (saved : Except String Unit) :
    Committed saved m t (m.persistTaskAndCheckpointLocked t saved).2.1 (m.persistTaskAndCheckpointLocked t saved).2.2 := by
  have hsame : t.Same (m.stampLocked t).1 := ⟨rfl, rfl, fun h => h⟩
  obtain ⟨hcopy, hstored, hframe⟩ := (m.stampLocked t).2.saveTaskAndCheckpointLocked_copy (m.stampLocked t).1 saved
  unfold persistTaskAndCheckpointLocked
  refine ⟨hsame.trans hcopy.toSame, hcopy.origin, hcopy.sequence, ?_, ?_, ?_, ?_, ?_, ?_, hstored⟩ <;> rw [hframe] <;> rfl

end Manager

/-! ### Changes of a task -/

variable {α : Type} {p : α → Bool} {f : α → α} {l : List α} {a : α}

theorem modifyFirst_append {l₁ l₂ : List α} (hl₁ : ∀ x ∈ l₁, (!p x) = true) (ha : p a) :
    modifyFirst p f (l₁ ++ a :: l₂) = l₁ ++ f a :: l₂ := by
  induction l₁ with
  | nil => simp only [nil_append, modifyFirst, ha, if_true]
  | cons x l₁ ih =>
    obtain ⟨hx, hl₁⟩ := forall_mem_cons.mp hl₁
    rw [cons_append, modifyFirst, if_neg (by simpa using hx), ih hl₁, cons_append]

theorem modifyFirst_eq_set (h : l.find? p = some a) : ∃ i, l[i]? = some a ∧ modifyFirst p f l = l.set i (f a) := by
  obtain ⟨ha, l₁, l₂, rfl, hl₁⟩ := find?_eq_some_iff_append.mp h
  exact ⟨l₁.length, by simp, by rw [modifyFirst_append hl₁ ha]; simp⟩

theorem find?_modifyFirst (h : l.find? p = some a) (hf : p (f a)) : (modifyFirst p f l).find? p = some (f a) := by
  obtain ⟨ha, l₁, l₂, rfl, hl₁⟩ := find?_eq_some_iff_append.mp h
  rw [modifyFirst_append hl₁ ha]
  exact find?_eq_some_iff_append.mpr ⟨hf, l₁, l₂, rfl, hl₁⟩

theorem modifyFirst_modifyFirst {g : α → α} (h : l.find? p = some a) (hf : p (f a)) :
    modifyFirst p g (modifyFirst p f l) = modifyFirst p (fun a => g (f a)) l := by
  obtain ⟨ha, l₁, l₂, rfl, hl₁⟩ := find?_eq_some_iff_append.mp h
  rw [modifyFirst_append hl₁ ha, modifyFirst_append hl₁ hf, modifyFirst_append hl₁ ha]

theorem map_modifyFirst {β : Type} {g : α → β} (h : ∀ a, p a → g (f a) = g a) (l : List α) :
    (modifyFirst p f l).map g = l.map g := by
  induction l with
  | nil => rfl
  | cons x l ih =>
    unfold modifyFirst
    split
    · rename_i hp
      rw [map_cons, map_cons, h x hp]
    · rw [map_cons, map_cons, ih]

namespace Task

variable {keepsIDs hasWork : Prop} {t : Task} {subtaskID : String} {r : SubtaskResult}

variable {f : SubtaskResult → SubtaskResult} {t' : Task}

theorem ledger_modifySubtask (h : ∀ r, (f r).entry = r.entry) : (t.modifySubtask subtaskID f).ledger = t.ledger := by
  simp only [ledger, modifySubtask, map_modifyFirst fun r _ => h r]

theorem same_touch (h : ∀ r, (f r).entry = r.entry) (now : Instant) :
    t.Same { t.modifySubtask subtaskID f with updatedAt := now } := by
  have hledger : (t.modifySubtask subtaskID f).ledger = t.ledger := ledger_modifySubtask h
  exact ⟨rfl, hledger, fun h => h⟩

theorem subtask?_entry (h : t.subtask? subtaskID = some r) (f : SubtaskResult → SubtaskResult) :
    ∃ i : Nat, t.ledger.entries[i]? = some r.entry ∧
      (t.modifySubtask subtaskID f).ledger = { t.ledger with entries := t.ledger.entries.set i (f r).entry } := by
  obtain ⟨i, hi, hset⟩ := modifyFirst_eq_set (f := f) h
  refine ⟨i, by simp [ledger, hi], ?_⟩
  simp only [ledger, modifySubtask, hset, map_set]

theorem subtask?_id (h : t.subtask? subtaskID = some r) : r.id = subtaskID := by
  simpa using find?_some h

/-- What one operation can make of a task. It takes two steps only when a winning attempt brings an
assignment for another subtask: the one it ran for gets the assignment, the other one comes to an end. -/
structure Advances (keepsIDs hasWork : Prop) (t t' : Task) : Prop where
  id : t'.id = t.id
  steps : Relation.ReflTransGen (Ledger.Step keepsIDs hasWork) t.ledger t'.ledger
  step : keepsIDs → Ledger.Step keepsIDs hasWork t.ledger t'.ledger
  closed : t.ledger.Quiet → t.Closed → t'.Closed

theorem Advances.of_step (hid : t'.id = t.id) (h : Ledger.Step keepsIDs hasWork t.ledger t'.ledger)
    (hclosed : t.ledger.Quiet → t.Closed → t'.Closed) : Advances keepsIDs hasWork t t' :=
  ⟨hid, .single h, fun _ => h, hclosed⟩

theorem Advances.touch (h : t.Same t') : Advances keepsIDs hasWork t t' :=
  .of_step h.id (.touch h.ledger) fun _ => h.closed

theorem Advances.quiet (h : Advances keepsIDs hasWork t t') (ht : t.ledger.Quiet) : t'.ledger.Quiet := by
  have hsteps := h.steps
  generalize t'.ledger = L' at hsteps ⊢
  induction hsteps with
  | refl => exact ht
  | tail _ hstep ih => exact hstep.quiet ih

theorem Advances.sound (hwork : hasWork) (h : Advances keepsIDs hasWork t t') (ht : t.ledger.Sound) :
    t'.ledger.Sound := by
  have hsteps := h.steps
  generalize t'.ledger = L' at hsteps ⊢
  induction hsteps with
  | refl => exact ht
  | tail _ hstep ih => exact hstep.sound hwork ih

theorem advances_edit (h : t.subtask? subtaskID = some r) (hactive : r.active) (hf : (f r).active)
    (hstarted : (f r).status = .pending → r.status = .pending) (hid : keepsIDs → (f r).id = r.id) :
    Advances keepsIDs hasWork t (t.modifySubtask subtaskID f) := by
  obtain ⟨i, hi, hledger⟩ := subtask?_entry h f
  exact .of_step rfl (.edit i r.entry (f r).entry hi hactive hf hstarted hid hledger) fun _ h => h

theorem entries_mark (p : Status → Bool) (status : Status) (error : String) (subtasks : List SubtaskResult) :
    (subtasks.map fun r => if p r.status then { r with status, error } else r).map SubtaskResult.entry =
      Ledger.mark p status (subtasks.map SubtaskResult.entry) := by
  rw [Ledger.mark, map_map, map_map]
  apply map_congr_left
  intro r _
  cases hp : p r.status <;> simp [SubtaskResult.entry, hp]

theorem advances_cancel (hstatus : ¬ (t.status = .completed ∨ t.status = .failed ∨ t.status = .cancelled))
    (now : Instant) : Advances keepsIDs hasWork t (t.cancel now) := by
  refine .of_step rfl (.cancel (by simpa [ledger] using hstatus) ?_) nofun
  simp only [ledger, cancel, entries_mark Status.active]

theorem advances_interrupt (h : t.inProgress) (error : String) (now : Instant) :
    Advances keepsIDs hasWork t (t.interrupt error now) := by
  refine .of_step rfl (.interrupt (by simpa [inProgress, ledger] using h) ?_) nofun
  simp only [ledger, interrupt, entries_mark Status.active]

theorem advances_resume (hstatus : ¬ (t.status ≠ .failed ∧ t.status ≠ .cancelled))
    (hwork : hasWork → ∃ r ∈ t.subtasks, r.status ≠ .completed) (now : Instant) :
    Advances keepsIDs hasWork t (t.resume now) := by
  refine .of_step rfl (.resume (by simp only [ledger]; tauto) (fun h => ?_) ?_) nofun
  · obtain ⟨r, hr, hne⟩ := hwork h
    exact ⟨r.entry, mem_map_of_mem hr, hne⟩
  have hmark := entries_mark Ledger.unfinished .pending "" t.subtasks
  simp only [Ledger.unfinished, decide_eq_true_eq] at hmark
  simp only [ledger, resume, hmark]

theorem advances_synthesized (h : t.status = .synthesis) (outcome : Except String String) (now : Instant) :
    Advances keepsIDs hasWork t (t.synthesized outcome now) := by
  cases outcome with
  | error => exact .of_step rfl (.release (.inr h) (.inr (.inr rfl)) rfl) nofun
  | ok =>
    simp only [synthesized]
    split
    · exact .of_step rfl (.release (.inr h) (.inr (.inr rfl)) rfl) nofun
    · exact .of_step rfl (.release (.inr h) (.inr (.inl rfl)) rfl) fun _ _ _ => rfl

/-- What a roll-up makes of the status: nothing while work is left, and the outcome of the whole otherwise. -/
theorem rollUp_spec (t : Task) (finalizer : Bool) :
    (t.rollUp finalizer).2.id = t.id ∧ (t.rollUp finalizer).2.ledger.entries = t.ledger.entries ∧
      (¬ t.ledger.Idle → (t.rollUp finalizer).2.ledger = t.ledger ∧ (t.status ≠ .completed → (t.rollUp finalizer).2.Closed)) ∧
      (t.ledger.Idle → Ledger.RolledUp t.ledger.entries (t.rollUp finalizer).2.status ∧ (t.rollUp finalizer).2.Closed) := by
  have hidle : t.ledger.Idle ↔ t.subtasks.any SubtaskResult.active = false := by
    simp [Ledger.Idle, ledger, SubtaskResult.entry]
  have hfailed : t.ledger.entries.any (fun e => e.status = .failed) = t.subtasks.any fun r => r.status = .failed := by
    rw [ledger, any_map]
    rfl
  unfold rollUp
  cases hactive : t.subtasks.any SubtaskResult.active with
  | true =>
    have hwork : ¬ t.ledger.Idle := by simp [hidle, hactive]
    exact ⟨rfl, rfl, fun _ => ⟨rfl, fun hne hs => absurd hs hne⟩, fun h => absurd h hwork⟩
  | false =>
    have hdone : t.ledger.Idle := hidle.mpr hactive
    simp only [Bool.false_eq_true, if_false]
    split
    · rename_i hany
      refine ⟨rfl, rfl, fun h => absurd hdone h, fun _ => ⟨?_, nofun⟩⟩
      rw [Ledger.RolledUp, if_pos (by rw [hfailed]; exact hany)]
    rename_i hany
    have hrolled : ∀ s, (s = .awaitingApproval ∨ s = .synthesis ∨ s = .completed) → Ledger.RolledUp t.ledger.entries s := by
      intro s hs
      rw [Ledger.RolledUp, if_neg (by rw [hfailed]; exact hany)]
      exact hs
    split
    · exact ⟨rfl, rfl, fun h => absurd hdone h, fun _ => ⟨hrolled _ (.inl rfl), nofun⟩⟩
    split
    · exact ⟨rfl, rfl, fun h => absurd hdone h, fun _ => ⟨hrolled _ (.inr (.inl rfl)), nofun⟩⟩
    · exact ⟨rfl, rfl, fun h => absurd hdone h, fun _ => ⟨hrolled _ (.inr (.inr rfl)), fun _ => rfl⟩⟩

/-- A subtask comes to an end. The entry it is recorded in may have come to one before, if an ID is not
unique or was changed. -/
theorem advances_finish (h : t.subtask? subtaskID = some r) (hwork : ¬ t.ledger.Idle) (hactive : keepsIDs → r.active)
    (hf : (f r).status = .completed ∨ (f r).status = .failed) (hid : keepsIDs → (f r).id = r.id) (finalizer : Bool) :
    Advances keepsIDs hasWork t ((t.modifySubtask subtaskID f).rollUp finalizer).2 := by
  obtain ⟨hsame, hentries, hopen, hdone⟩ := rollUp_spec (t.modifySubtask subtaskID f) finalizer
  obtain ⟨i, hi, hledger⟩ := subtask?_entry h f
  have hidle : ((t.modifySubtask subtaskID f).rollUp finalizer).2.ledger.Idle ↔
      (t.modifySubtask subtaskID f).ledger.Idle := by
    unfold Ledger.Idle
    rw [hentries]
  refine .of_step hsame (.finish i r.entry (f r).entry hi hwork hactive hf hid (hentries.trans (by rw [hledger]))
    (fun hleft => ?_) (fun hleft => ?_)) fun hquiet _ => ?_
  · rw [(hopen (hidle.not.mp hleft)).1]
    exact ⟨rfl, rfl⟩
  · rw [hentries]
    exact (hdone (hidle.mp hleft)).1
  · by_cases hleft : (t.modifySubtask subtaskID f).ledger.Idle
    · exact (hdone hleft).2
    apply (hopen hleft).2
    have hrun : t.status = .running := hquiet.running hwork
    change t.status ≠ .completed
    rw [hrun]
    decide

theorem recordOutcome_ended (output : String) (taskErr : Option String) (r : SubtaskResult) :
    (r.recordOutcome output taskErr).status = .completed ∨ (r.recordOutcome output taskErr).status = .failed := by
  cases taskErr with
  | none => exact .inl rfl
  | some => exact .inr rfl

theorem recordOutcome_id (output : String) (taskErr : Option String) (r : SubtaskResult) :
    (r.recordOutcome output taskErr).id = r.id := by
  cases taskErr <;> rfl

theorem Advances.after {t u : Task} (hsame : t.Same u) (h : Advances keepsIDs hasWork u t') :
    Advances keepsIDs hasWork t t' where
  id := h.id.trans hsame.id
  steps := hsame.ledger ▸ h.steps
  step hids := hsame.ledger ▸ h.step hids
  closed hquiet hclosed := h.closed (hsame.ledger ▸ hquiet) (hsame.closed hclosed)

theorem advances_win {a : Assignment} (h : t.subtask? subtaskID = some r) (hactive : r.active)
    (hkeeps : keepsIDs → a.subtask.id = subtaskID) (output : String) (finalizer : Bool) {r' : SubtaskResult}
    (h' : (t.modifySubtask subtaskID fun r => { r with assignment := a }).subtask? subtaskID = some r') :
    Advances keepsIDs hasWork t
      (((t.modifySubtask subtaskID fun r => { r with assignment := a }).recordOutcome subtaskID output none).rollUp finalizer).2 := by
  have hedit : Advances keepsIDs hasWork t (t.modifySubtask subtaskID fun r => { r with assignment := a }) :=
    advances_edit h hactive hactive (fun h => h) fun hk => (hkeeps hk).trans (subtask?_id h).symm
  by_cases hid : a.subtask.id = subtaskID
  · -- both changes hit one subtask, so they are one
    have hone : (t.modifySubtask subtaskID fun r => { r with assignment := a }).recordOutcome subtaskID output none =
        t.modifySubtask subtaskID fun r => { r with assignment := a }.recordOutcome output none := by
      simp only [recordOutcome, modifySubtask]
      rw [modifyFirst_modifyFirst h (by simpa using hid)]
    rw [hone]
    obtain ⟨i, hi, -⟩ := subtask?_entry h fun r => r
    exact advances_finish h (Ledger.not_idle hi hactive) (fun _ => hactive) (.inl rfl)
      (fun _ => hid.trans (subtask?_id h).symm) finalizer
  · have hno : ¬ keepsIDs := fun hk => hid (hkeeps hk)
    obtain ⟨i, hi, hledger⟩ := subtask?_entry h fun r => { r with assignment := a }
    have hwork : ¬ (t.modifySubtask subtaskID fun r => { r with assignment := a }).ledger.Idle := by
      refine Ledger.not_idle (i := i) (e := { r with assignment := a }.entry) ?_ hactive
      rw [hledger]
      exact getElem?_set_self (List.getElem?_eq_some_iff.mp hi).1
    have hfinish : Advances keepsIDs hasWork _ _ := advances_finish h' hwork (fun hk => absurd hk hno)
      (recordOutcome_ended output none r') (fun _ => recordOutcome_id output none r') finalizer
    exact ⟨hfinish.id.trans hedit.id, hedit.steps.trans hfinish.steps, fun hk => absurd hk hno,
      fun hquiet hclosed => hfinish.closed (hedit.quiet hquiet) (hedit.closed hquiet hclosed)⟩

end Task

end Maistr0.Taskmgr
