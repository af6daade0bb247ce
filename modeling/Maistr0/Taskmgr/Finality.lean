import Maistr0.Taskmgr.Settled

/-!
# Finished work is kept

A completed subtask keeps its status, output and assignment, a completed task its status and result,
and one attempt wins a subtask, whatever calls follow. Across a restart that is so when the store had
the task as it was: a result whose save failed is in memory only, and a restart goes back to what was
saved.
-/

namespace Maistr0.Taskmgr

open Go Lib.Keyed Option

def Manager.Synced (m : Manager) : Prop :=
  ∀ store, m.store = some store → ∀ id, (store.get? id).map Task.ledger = (m.tasks.get? id).map Task.ledger

def Op.wins (m : Manager) (saved : Except String Unit) (taskID subtaskID : String) : Op → Bool
  | .completeDispatchAttempt taskID' subtaskID' number assignment failureClass httpStatus duration output now =>
    taskID' = taskID && subtaskID' = subtaskID &&
      (m.completeDispatchAttemptWithAssignmentChecked taskID' subtaskID' number assignment failureClass httpStatus duration
        output now saved).1.1
  | _ => false

theorem Task.entry?_ledger (t : Task) (subtaskID : String) :
    t.ledger.entry? subtaskID = (t.subtask? subtaskID).map SubtaskResult.entry := by
  rw [Ledger.entry?, ledger, List.find?_map]
  rfl

namespace Effect

variable {keepsIDs hasWork freshID : Prop} {saved : Except String Unit} {m m' : Manager} {id : String} {t t' : Task}

theorem task_cases (hids : keepsIDs) (h : Effect keepsIDs hasWork freshID saved m m') (ht' : m'.tasks.get? id = some t') :
    m.tasks.get? id = some t' ∨ (∃ t, m.tasks.get? id = some t ∧ Ledger.Step keepsIDs hasWork t.ledger t'.ledger) ∨
      (t'.ledger.Opened ∧ (freshID → m.tasks.get? id = none)) := by
  cases h with
  | refused h => exact .inl (h ▸ ht')
  | configured _ h =>
    subst h
    exact .inl ht'
  | updated t u v m₁ ht hu hcommit h =>
    subst h
    rw [Manager.put, hcommit.tasks, get?_put] at ht'
    split at ht'
    · rename_i hid
      obtain rfl := some.inj ht'
      have hid : t.id = id := (hcommit.same.id.trans hu.id).symm.trans hid
      exact .inr (.inl ⟨t, hid ▸ ht, hcommit.same.ledger ▸ hu.step hids⟩)
    · exact .inl ht'
  | uncommitted _ _ _ _ _ hno => exact absurd hids hno
  | created t v m₁ hid hfresh hopened hclosed hcommit h =>
    rcases h with ⟨-, rfl⟩ | ⟨-, rfl⟩
    · rw [Manager.put, hcommit.tasks, get?_put] at ht'
      split at ht'
      · rename_i heq
        obtain rfl := some.inj ht'
        have heq : t.id = id := hcommit.same.id.symm.trans heq
        exact .inr (.inr ⟨hcommit.same.ledger ▸ hopened, heq ▸ hfresh⟩)
      · exact .inl ht'
    · rw [hcommit.tasks] at ht'
      exact .inl ht'

theorem still_there (h : Effect keepsIDs hasWork freshID saved m m') (ht : m.tasks.get? id = some t) :
    ∃ t', m'.tasks.get? id = some t' := by
  have hput : ∀ (tasks : Tasks) (v : Task), tasks = m.tasks → ∃ t', (tasks.put v).get? id = some t' := by
    rintro tasks v rfl
    rw [get?_put]
    split
    · exact ⟨v, rfl⟩
    · exact ⟨t, ht⟩
  cases h with
  | refused h => exact ⟨t, h ▸ ht⟩
  | configured _ h =>
    subst h
    exact ⟨t, ht⟩
  | updated _ _ v _ _ _ hcommit h =>
    subst h
    exact hput _ v hcommit.tasks
  | uncommitted _ v _ _ _ _ h =>
    subst h
    exact hput _ v rfl
  | created _ v _ _ _ _ _ hcommit h =>
    rcases h with ⟨-, rfl⟩ | ⟨-, rfl⟩
    · exact hput _ v hcommit.tasks
    · exact ⟨_, hcommit.tasks ▸ ht⟩

theorem entry_kept (hids : keepsIDs) (hfresh : freshID) (h : Effect keepsIDs hasWork freshID saved m m')
    (ht : m.tasks.get? id = some t) {subtaskID : String} {e : Entry} (he : t.ledger.entry? subtaskID = some e) :
    ∃ t' e', m'.tasks.get? id = some t' ∧ t'.ledger.entry? subtaskID = some e' ∧
      (t.ledger.Quiet → e.status = .completed → e' = e) := by
  obtain ⟨t', ht'⟩ := h.still_there ht
  rcases h.task_cases hids ht' with hsame | ⟨t₀, ht₀, hstep⟩ | ⟨-, hnone⟩
  · cases ht.symm.trans hsame
    exact ⟨t, e, ht', he, fun _ _ => rfl⟩
  · cases ht.symm.trans ht₀
    obtain ⟨i, e', hi', hi, he'⟩ := Ledger.entry?_place (hstep.ids hids).symm he
    refine ⟨t', e', ht', he', fun hquiet hcompleted => ?_⟩
    exact some.inj (hi'.symm.trans ((hstep.keeps hids hquiet).entry i e hi hcompleted))
  · exact absurd (ht.symm.trans (hnone hfresh)) (by simp)

end Effect

namespace System

/-- Assignments keep the IDs of subtasks; the manager may stop at any moment. -/
def keepsIDs : Rules := { call := fun m op => op.KeepsIDs ∧ op.FreshID m, stop := fun _ => True }

def durable : Rules := { call := fun m op => op.KeepsIDs ∧ op.FreshID m, stop := Manager.Synced }

variable {taskID id : String} {L : Ledger} {m : Manager} {t t' : Task} {subtaskID : String} {s : System} {op : Op}
  {saved : Except String Unit} {s' : System}

theorem kept_quiet (rules : Rules) : Kept rules fun t => t.ledger.Quiet ∧ t.Closed where
  opened _ hopened hclosed := ⟨hopened.quiet, hclosed⟩
  same _ _ hsame h := ⟨hsame.ledger.symm ▸ h.1, hsame.closed h.2⟩
  advances _ _ _ _ _ hadvances h := ⟨hadvances.quiet h.1, hadvances.closed h.1 h.2⟩
  recovered _ _ hrec h := ⟨(hrec.advances True True).quiet h.1, (hrec.advances True True).closed h.1 h.2⟩

/-! ### What was completed stays -/

def task? (id : String) : System → Option Task
  | .up m => m.tasks.get? id
  | .down store => store.get? id

def Keeps (id : String) (L : Ledger) (s : System) : Prop := ∃ t, s.task? id = some t ∧ L.Keeps t.ledger

theorem Keeps.effect {m' : Manager} (hids : op.KeepsIDs) (hfresh : op.FreshID m)
    (hquiet : ∀ t ∈ m.tasks.vals, t.ledger.Quiet)
    (heffect : Effect op.KeepsIDs (op.HasWork m) (op.FreshID m) saved m m') (h : Keeps id L (.up m)) :
    Keeps id L (.up m') := by
  obtain ⟨t, ht, hkeeps⟩ := h
  obtain ⟨t', ht'⟩ := heffect.still_there ht
  refine ⟨t', ht', ?_⟩
  rcases heffect.task_cases hids ht' with hsame | ⟨t₀, ht₀, hstep⟩ | ⟨-, hnone⟩
  · cases ht.symm.trans hsame
    exact hkeeps
  · cases ht.symm.trans ht₀
    exact hkeeps.trans (hstep.keeps hids (hquiet t (get?_eq_some.mp ht₀).1))
  · exact absurd (ht.symm.trans (hnone hfresh)) (by simp)

theorem keeps_recovered (hrec : Recovered t t') (hquiet : t.ledger.Quiet) (h : L.Keeps t.ledger) : L.Keeps t'.ledger :=
  h.trans (((hrec.advances True True).step trivial).keeps trivial hquiet)

theorem Keeps.step (hstep : Step durable s s') (hquiet : Holds (fun t => t.ledger.Quiet ∧ t.Closed) s)
    (h : Keeps id L s) : Keeps id L s' := by
  cases hstep with
  | call m op saved hcall =>
    exact h.effect hcall.1 hcall.2 (fun t ht => (hquiet.1 t ht).1) (op.effect m saved)
  | stop m store hstore hsynced =>
    obtain ⟨t, ht, hkeeps⟩ := h
    have hledger := hsynced store hstore id
    rw [show m.tasks.get? id = some t from ht, map_some, map_eq_some_iff] at hledger
    obtain ⟨t', ht', heq⟩ := hledger
    exact ⟨t', ht', heq ▸ hkeeps⟩
  | opened _ _ finalizer origin managerSyncID now saves _ htasks hopen =>
    obtain ⟨store', hre⟩ := reopened htasks finalizer origin managerSyncID now saves
    rw [hopen] at hre
    obtain ⟨t, ht, hkeeps⟩ := h
    obtain ⟨t', ht', hrec⟩ := hre.held rfl id t ht
    exact ⟨t', ht', keeps_recovered hrec (hquiet t (get?_eq_some.mp ht).1).1 hkeeps⟩
  | failed store _ finalizer origin managerSyncID now saves _ _ store' htasks hopen hstore =>
    obtain ⟨store'', hre⟩ := reopened htasks finalizer origin managerSyncID now saves
    rw [hopen] at hre
    obtain rfl : store'' = store' := some.inj (hre.store.symm.trans hstore)
    obtain ⟨t, ht, hkeeps⟩ := h
    rcases hre.stored id with hsame | ⟨t₀, t', ht₀, ht', hrec⟩
    · exact ⟨t, hsame.trans ht, hkeeps⟩
    · obtain rfl : t₀ = t := some.inj (ht₀.symm.trans ht)
      exact ⟨t', ht', keeps_recovered hrec (hquiet t₀ (get?_eq_some.mp ht₀).1).1 hkeeps⟩

theorem Keeps.run (hrun : Relation.ReflTransGen (Step durable) s s')
    (hquiet : Holds (fun t => t.ledger.Quiet ∧ t.Closed) s) (h : Keeps id L s) : Keeps id L s' := by
  induction hrun with
  | refl => exact h
  | tail hrun hstep ih => exact ih.step hstep ((kept_quiet durable).run hrun hquiet)

/-! ### One attempt wins a subtask -/

theorem completeSubtaskLocked_recorded {output : String} {taskErr : Option String} {now : Instant}
    {r : SubtaskResult} (hr : t.subtask? subtaskID = some r)
    (ht' : (m.completeSubtaskLocked t subtaskID output taskErr now saved).2.tasks.get? t.id = some t') {e : Entry}
    (he : t'.ledger.entry? subtaskID = some e) : e.status = (r.recordOutcome output taskErr).status := by
  obtain ⟨hid, hentries, -⟩ := (t.recordOutcome subtaskID output taskErr).rollUp_spec m.finalizer
  have hrun : ∃ w, w.id = t.id ∧ w.ledger.entries = (t.recordOutcome subtaskID output taskErr).ledger.entries ∧
      (m.completeSubtaskLocked t subtaskID output taskErr now saved).2 =
        (m.persistTaskAndCheckpointLocked w saved).2.2.put (m.persistTaskAndCheckpointLocked w saved).2.1 := by
    unfold Manager.completeSubtaskLocked
    rw [hr]
    exact ⟨{ ((t.recordOutcome subtaskID output taskErr).rollUp m.finalizer).2 with updatedAt := now }, hid, hentries, rfl⟩
  obtain ⟨w, hw, hwentries, hrun⟩ := hrun
  have hsame := (m.persistTaskAndCheckpointLocked_committed w saved).same
  rw [hrun, Manager.put, get?_put, if_pos (hsame.id.trans hw)] at ht'
  obtain rfl := some.inj ht'
  have hfound : (t.recordOutcome subtaskID output taskErr).subtask? subtaskID = some (r.recordOutcome output taskErr) :=
    find?_modifyFirst hr (decide_eq_true ((Task.recordOutcome_id output taskErr r).trans (Task.subtask?_id hr)))
  have hentry : (t.recordOutcome subtaskID output taskErr).ledger.entry? subtaskID =
      some (r.recordOutcome output taskErr).entry := by
    rw [Task.entry?_ledger, hfound, map_some]
  rw [hsame.ledger, Ledger.entry?, hwentries] at he
  cases hentry.symm.trans he
  rfl

theorem wins_spec (h : op.wins m saved taskID subtaskID) :
    (∃ t e, m.tasks.get? taskID = some t ∧ t.ledger.entry? subtaskID = some e ∧ e.status = .running) ∧
      ∀ t', (op.run m saved).tasks.get? taskID = some t' → ∀ e, t'.ledger.entry? subtaskID = some e →
        e.status = .completed := by
  cases op with
  | completeDispatchAttempt taskID' subtaskID' number assignment failureClass httpStatus duration output now =>
    simp only [Op.wins, Bool.and_eq_true, decide_eq_true_eq] at h
    obtain ⟨⟨rfl, rfl⟩, hwins⟩ := h
    rcases m.completeDispatchAttempt_cases taskID' subtaskID' number assignment failureClass httpStatus duration output
      now saved _ rfl with ⟨hlost, -⟩ | ⟨t, u, r, ht, hsame, hr, h⟩
    · rw [hwins] at hlost
      cases hlost
    rcases h with ⟨hlost, -⟩ | ⟨-, -, hlost, -⟩ | ⟨hrunning, ⟨r', hr'⟩, -, hresult⟩
    · rw [hwins] at hlost
      cases hlost
    · rw [hwins] at hlost
      cases hlost
    have hid : (u.reassigned subtaskID' assignment).id = taskID' := by
      have hu : (u.reassigned subtaskID' assignment).id = u.id := by cases assignment <;> rfl
      exact hu.trans (hsame.id.trans (keyOf_get? ht))
    refine ⟨⟨t, r.entry, ht, ?_, hrunning⟩, fun t' ht' e he => ?_⟩
    · rw [← hsame.ledger, Task.entry?_ledger, hr, map_some]
    simp only [Op.run] at ht'
    rw [hresult, ← hid] at ht'
    exact completeSubtaskLocked_recorded hr' ht' he
  | _ => cases h

def Completed (taskID subtaskID : String) (m : Manager) : Prop :=
  ∃ t e, m.tasks.get? taskID = some t ∧ t.ledger.entry? subtaskID = some e ∧ e.status = .completed

theorem Completed.run (hids : op.KeepsIDs) (hfresh : op.FreshID m) (hquiet : ∀ t ∈ m.tasks.vals, t.ledger.Quiet)
    (h : Completed taskID subtaskID m) : Completed taskID subtaskID (op.run m saved) := by
  obtain ⟨t, _, ht, he, hcompleted⟩ := h
  obtain ⟨t', e', ht', he', hkept⟩ := (op.effect m saved).entry_kept hids hfresh ht he
  obtain rfl := hkept (hquiet t (get?_eq_some.mp ht).1) hcompleted
  exact ⟨t', e', ht', he', hcompleted⟩

theorem Completed.of_wins (hids : op.KeepsIDs) (hfresh : op.FreshID m) (h : op.wins m saved taskID subtaskID) :
    ¬ Completed taskID subtaskID m ∧ Completed taskID subtaskID (op.run m saved) := by
  obtain ⟨⟨_, _, ht, he, hrunning⟩, hafter⟩ := wins_spec h
  obtain ⟨t', e', ht', he', -⟩ := (op.effect m saved).entry_kept hids hfresh ht he
  refine ⟨?_, t', e', ht', he', hafter t' ht' e' he'⟩
  rintro ⟨_, _, hu, hx, hcompleted⟩
  cases ht.symm.trans hu
  cases he.symm.trans hx
  rw [hrunning] at hcompleted
  cases hcompleted

def Pending (taskID subtaskID : String) : System → Prop
  | .up m => ∃ t e, m.tasks.get? taskID = some t ∧ t.ledger.entry? subtaskID = some e ∧ e.status = .pending
  | .down _ => False

def Ended (taskID subtaskID : String) : System → Prop
  | .up m => ∀ t, m.tasks.get? taskID = some t → ∀ e, t.ledger.entry? subtaskID = some e → e.status.active = false
  | .down _ => True

theorem Ended.effect {m' : Manager} (hids : op.KeepsIDs)
    (heffect : Effect op.KeepsIDs (op.HasWork m) (op.FreshID m) saved m m') (h : Ended taskID subtaskID (.up m))
    (hreset : ¬ Pending taskID subtaskID (.up m')) : Ended taskID subtaskID (.up m') := by
  intro t' ht' e' he'
  rcases heffect.task_cases hids ht' with hsame | ⟨t, ht, hstep⟩ | ⟨hopened, -⟩
  · exact h t' hsame e' he'
  · rcases hstep.entry?_ended hids (h t ht) he' with hended | hpending
    · exact hended
    · exact absurd ⟨t', e', ht', he', hpending⟩ hreset
  · rcases hopened with ⟨-, -, hpending⟩ | ⟨-, hnil⟩
    · exact absurd ⟨t', e', ht', he', hpending e' (List.mem_of_find?_eq_some he')⟩ hreset
    · rw [Ledger.entry?, hnil] at he'
      cases he'

def Unreset (taskID subtaskID : String) (s s' : System) : Prop := Step keepsIDs s s' ∧ ¬ Pending taskID subtaskID s'

theorem Ended.step (hstep : Unreset taskID subtaskID s s')
    (hquiet : Holds (fun t => t.ledger.Quiet ∧ t.Closed) s) (h : Ended taskID subtaskID s) :
    Ended taskID subtaskID s' := by
  obtain ⟨hstep, hreset⟩ := hstep
  cases hstep with
  | call m op saved hcall => exact h.effect hcall.1 (op.effect m saved) hreset
  | stop => trivial
  | opened store tasks finalizer origin managerSyncID now saves _ htasks hopen =>
    -- a manager that has just loaded its tasks runs none of them
    obtain ⟨_, hre⟩ := reopened htasks finalizer origin managerSyncID now saves
    rw [hopen] at hre
    intro t' ht' e' he'
    obtain ⟨t, ht, hrec⟩ := hre.recovered rfl ht'
    have hidle := (hrec.advances True True).quiet (hquiet t (get?_eq_some.mp ht).1).1 hrec.stopped
    exact hidle e' (List.mem_of_find?_eq_some he')
  | failed => trivial

theorem Ended.run (hrun : Relation.ReflTransGen (Unreset taskID subtaskID) s s')
    (hquiet : Holds (fun t => t.ledger.Quiet ∧ t.Closed) s) (h : Ended taskID subtaskID s) :
    Ended taskID subtaskID s' := by
  have hboth : Ended taskID subtaskID s' ∧ Holds (fun t => t.ledger.Quiet ∧ t.Closed) s' := by
    induction hrun with
    | refl => exact ⟨h, hquiet⟩
    | tail _ hstep ih => exact ⟨ih.1.step hstep ih.2, (kept_quiet keepsIDs).step hstep.1 ih.2⟩
  exact hboth.1

/-! ### When the store is up to date -/

theorem synced_run (hsynced : m.Synced) (hids : op.KeepsIDs) : (op.run m (.ok ())).Synced := by
  -- a task and its copy are put in the same place
  have hput : ∀ (m' : Manager) (t' : Task), m'.tasks = m.tasks.put t' → Stored (.ok ()) t' m.store m'.store → m'.Synced := by
    intro m' t' htasks hstored store hstore id
    cases hs : m.store with
    | none =>
      rw [hs] at hstored
      rw [show m'.store = none from hstored] at hstore
      cases hstore
    | some s =>
      rw [hs] at hstored
      obtain ⟨_, hcopy, hstored⟩ := hstored
      cases hstored.symm.trans hstore
      rw [htasks, get?_put, get?_put, hcopy.id]
      split
      · rw [map_some, map_some, hcopy.ledger]
      · exact hsynced s hs id
  cases op.effect m (.ok ()) with
  | refused h | configured _ h =>
    rw [h]
    exact hsynced
  | updated _ _ t' _ _ _ hcommit h =>
    rw [h]
    exact hput _ t' (by rw [Manager.put, hcommit.tasks]) hcommit.stored
  | uncommitted _ _ _ _ _ hno => exact absurd hids hno
  | created _ t' _ _ _ _ _ hcommit h =>
    rcases h with ⟨-, h⟩ | ⟨⟨_, h⟩, -⟩
    · rw [h]
      exact hput _ t' (by rw [Manager.put, hcommit.tasks]) hcommit.stored
    · cases h

theorem synced_opened {rules : Rules} {s : Tasks} (h : Step rules (.down s) (.up m)) : m.Synced := by
  cases h with
  | opened _ _ finalizer origin managerSyncID now saves _ htasks hopen =>
    obtain ⟨_, hre⟩ := reopened htasks finalizer origin managerSyncID now saves
    rw [hopen] at hre
    intro s hs id
    cases hre.store.symm.trans hs
    have himage := congrArg (Option.map Prod.fst) (hre.synced rfl id)
    rw [map_map, map_map] at himage
    exact himage

/-- The work of a task, as a later state of it must show it. -/
structure KeptIn (t t' : Task) : Prop where
  id : t'.id = t.id
  subtask : ∀ (i : Nat) (r : SubtaskResult), t.subtasks[i]? = some r → r.status = .completed →
    ∃ r', t'.subtasks[i]? = some r' ∧ r'.status = .completed ∧ r'.output = r.output ∧ r'.assignment = r.assignment
  task : t.status = .completed →
    t.resumable = false ∧ t'.status = .completed ∧ t'.result = t.result ∧ t'.resumable = false

theorem keptIn_of_keeps (hid : t'.id = t.id) (h : t.ledger.Keeps t'.ledger) (hclosed : t.Closed)
    (hclosed' : t'.Closed) : KeptIn t t' where
  id := hid
  subtask i r hr hcompleted := by
    have hentry : t.ledger.entries[i]? = some r.entry := by simp [Task.ledger, hr]
    have hentry' := h.entry i r.entry hentry hcompleted
    simp only [Task.ledger, List.getElem?_map, map_eq_some_iff] at hentry'
    obtain ⟨r', hr', heq⟩ := hentry'
    exact ⟨r', hr', (congrArg Entry.status heq).trans hcompleted, congrArg Entry.output heq, congrArg Entry.assignment heq⟩
  task hs := ⟨hclosed hs, (h.task hs).1, (h.task hs).2, hclosed' (h.task hs).1⟩

/-- From any state that a history leads to: what is finished stays as it is, over every continuation that
stops only when the store is up to date; a subtask that an attempt has won is not won again before it is
reset, over every continuation; and the store is up to date after every call whose save succeeds. -/
theorem finished_work_kept {m m' : Manager} (h : Reachable anything (.up m)) :
    (Relation.ReflTransGen (Step durable) (.up m) (.up m') → ∀ t ∈ m.tasks.vals, ∃ t' ∈ m'.tasks.vals, KeptIn t t') ∧
    (∀ (op : Op) (saved : Except String Unit) (taskID subtaskID : String), op.wins m saved taskID subtaskID →
      Relation.ReflTransGen (Unreset taskID subtaskID) (.up (op.run m saved)) (.up m') →
        ∀ (op' : Op) (saved' : Except String Unit), op'.wins m' saved' taskID subtaskID = false) ∧
    (m.Synced → ∀ op : Op, op.KeepsIDs → (op.run m (.ok ())).Synced) := by
  have hquiet := (kept_quiet anything).reachable h
  refine ⟨fun hrun t ht => ?_, fun op saved taskID subtaskID hwins hrun op' saved' => ?_,
    fun hsynced op hids => synced_run hsynced hids⟩
  · have hget : m.tasks.get? t.id = some t := get?_eq_some.mpr ⟨ht, rfl⟩
    obtain ⟨t', ht', hkeeps⟩ := Keeps.run hrun hquiet ⟨t, hget, .refl _⟩
    obtain ⟨hmem, hid⟩ := get?_eq_some.mp ht'
    have hquiet' := (kept_quiet durable).run hrun hquiet
    exact ⟨t', hmem, keptIn_of_keeps hid hkeeps (hquiet.1 t ht).2 (hquiet'.1 t' hmem).2⟩
  · have hended : Ended taskID subtaskID (.up (op.run m saved)) := by
      intro t' ht' e he
      rw [(wins_spec hwins).2 t' ht' e he]
      rfl
    have hquiet₁ : Holds (fun t => t.ledger.Quiet ∧ t.Closed) (.up (op.run m saved)) :=
      (kept_quiet anything).step (.call m op saved trivial) hquiet
    -- a second attempt would have to find the subtask running
    by_contra hagain
    obtain ⟨⟨t, e, ht, he, hrunning⟩, -⟩ := wins_spec (Bool.eq_true_of_not_eq_false hagain)
    have hactive := Ended.run hrun hquiet₁ hended t ht e he
    rw [hrunning] at hactive
    cases hactive

/-! ### A result that was never saved -/

def loadClock : Nat → LoadClock := fun i => { attempt := fun _ _ => noon i, interrupted := noon i, history := noon i }

def emptyNode : Manager := (openManagerWithOrigin ∅ [] false "task:node" 1 loadClock fun _ => .ok ()).2

def lostResult : Manager :=
  calls emptyNode [(.create "report" oneSubtask false noon, .ok ()), (.startSubtask "task-1" "work" (noon 2), .ok ()),
    (.completeSubtask "task-1" "work" "done" none (noon 3), .error "disk full")]

def restarted (m : Manager) : Manager :=
  (openManagerWithOrigin (m.store.getD ∅) (m.store.getD ∅).vals false "task:node" 1 loadClock fun _ => .ok ()).2

theorem emptyNode_run : Relation.ReflTransGen (Step anything) (.down ∅) (.up emptyNode) :=
  .single (.opened ∅ [] false "task:node" 1 loadClock (fun _ => .ok ()) emptyNode (.refl _) rfl)

theorem lost_result_rewritten :
    Reachable anything (.up lostResult) ∧ Relation.ReflTransGen (Step keepsIDs) (.up lostResult) (.up (restarted lostResult)) ∧
      (lostResult.tasks.vals.map fun t => t.subtasks.map fun r => (r.status, r.output)) = [[(.completed, "done")]] ∧
      ((restarted lostResult).tasks.vals.map fun t => t.subtasks.map fun r => (r.status, r.output)) = [[(.failed, "")]] := by
  refine ⟨⟨_, .store, emptyNode_run.trans (calls_run _ _)⟩, ?_, by decide, by decide⟩
  refine .head (.stop lostResult (lostResult.store.getD ∅) rfl trivial) (.single ?_)
  exact .opened _ _ false "task:node" 1 loadClock (fun _ => .ok ()) _ (.refl _) rfl

def savedResult : Manager :=
  calls emptyNode [(.create "report" oneSubtask false noon, .ok ()), (.startSubtask "task-1" "work" (noon 2), .ok ()),
    (.completeSubtask "task-1" "work" "done" none (noon 3), .ok ())]

theorem savedResult_synced : savedResult.Synced := by
  have hempty : emptyNode.Synced := by
    have hopened : Step anything (.down ∅) (.up emptyNode) :=
      .opened ∅ [] false "task:node" 1 loadClock (fun _ => .ok ()) emptyNode (.refl _) rfl
    exact synced_opened hopened
  simp only [savedResult, calls, List.foldl_cons, List.foldl_nil]
  refine synced_run (synced_run (synced_run hempty ?_) ?_) ?_ <;> trivial

theorem finished_work_kept_restart : Reachable anything (.up savedResult) ∧
    Relation.ReflTransGen (Step durable) (.up savedResult) (.up (restarted savedResult)) ∧
    (savedResult.tasks.vals.map fun t => (t.status, t.result)) = [(.completed, "## \ndone")] ∧
    ∀ t ∈ savedResult.tasks.vals, ∃ t' ∈ (restarted savedResult).tasks.vals, KeptIn t t' := by
  have hreach : Reachable anything (.up savedResult) := ⟨_, .store, emptyNode_run.trans (calls_run _ _)⟩
  have hrun : Relation.ReflTransGen (Step durable) (.up savedResult) (.up (restarted savedResult)) := by
    refine .head (.stop savedResult (savedResult.store.getD ∅) rfl savedResult_synced) (.single ?_)
    exact .opened _ _ false "task:node" 1 loadClock (fun _ => .ok ()) _ (.refl _) rfl
  exact ⟨hreach, hrun, by decide, (finished_work_kept hreach).1 hrun⟩

end System

end Maistr0.Taskmgr
