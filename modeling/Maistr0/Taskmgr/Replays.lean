import Maistr0.Taskmgr.Replicas

/-!
# The same batch again

A batch that is applied a second time meets what it left behind the first time. A merge passes all of it over.
A replacement compares the tasks that arrive with the tasks as they are kept, which need not be the same.
-/

namespace Maistr0.Taskmgr

open Go List Lib.Clock

def SyncMode.Settles (mode : SyncMode) (current t : Task) : Prop :=
  if mode.replace then t.origin = current.origin ∧ t.sequence < current.sequence ∨ current = t
  else mode.mergeReplicas → replicaOutranks current t = false

theorem replicaOutranks_orphan {u t : Task} (hu : isInterruptedTask u)
    (hcount : completedSubtaskCount u = completedSubtaskCount t) (ht : t.inProgress) : replicaOutranks u t = false := by
  have hstatus : ¬ (t.status = .completed ∨ t.status = .awaitingApproval ∨ t.status = .cancelled ∨ t.status = .failed) := by
    simp only [Task.inProgress, decide_eq_true_eq] at ht
    rcases ht with h | h | h <;> simp [h]
  unfold replicaOutranks
  rw [if_pos hu, if_neg hstatus, hcount]
  simp

theorem completedSubtaskCount_interrupt (t : Task) (error : String) (now : Instant) :
    completedSubtaskCount (t.interrupt error now) = completedSubtaskCount t := by
  unfold completedSubtaskCount Task.interrupt
  rw [filter_map, length_map]
  congr 1
  refine filter_congr fun r _ => ?_
  by_cases hactive : r.active
  · have hne : r.status ≠ .completed := by
      intro h
      simp [h, Status.active] at hactive
    simp [hactive, hne]
  · simp [hactive]

namespace Manager

/-- The tasks of a batch that get past the checks: each becomes a new object, and the context of the object in
its place is cancelled. -/
def adoptions (m : Manager) (mode : SyncMode) : List (Task × Bool) → Clocks → (Nat → Except String Unit) → List Task
  | [], _, _ => []
  | (t, accepted) :: rest, now, saves =>
    match m.syncTask mode t accepted (now 0) (saves 0) with
    | (.error _, _) => []
    | (.ok _, m') =>
      let later := m'.adoptions mode rest (fun i => now (i + 1)) fun i => saves (i + 1)
      if passedOver mode accepted (m.tasks.get? t.id) (m.stampIncoming t mode.origin).1 then later else t :: later

structure Fits (m : Manager) (mode : SyncMode) (p : Task × Bool) : Prop where
  stamped : p.1.unstamped = false
  accepted : mode.mergeReplicas → ∀ current, m.tasks.get? p.1.id = some current →
    p.2 = (decide (p.1.id ≠ "") && replicaOutranks current p.1)

structure Turn (mode : SyncMode) (t : Task) (m m' : Manager) : Prop where
  store : m'.store.isSome = m.store.isSome
  syncOrigin : m'.syncOrigin = m.syncOrigin
  syncSeq : let raised := m.syncSeq.raise t.origin t.sequence
    m'.syncSeq = raised ∨ mode.mergeReplicas ∧ m'.syncSeq = raised.set m.syncOrigin (incr (raised.get m.syncOrigin))
  settled : ∃ current, m'.tasks.get? t.id = some current ∧ mode.Settles current t

variable {mode : SyncMode} {t : Task} {accepted : Bool} {m m' : Manager} {tasks : List Task} {pairs : List (Task × Bool)}

theorem syncTask_turn (hmode : mode.replace → mode.mergeReplicas = false) (hid : t.id ≠ "") (hfits : m.Fits mode (t, accepted))
    (hkept : mode.replace → keptVersion m.store.isSome t = t) (now : Instant) :
    (m.syncTask mode t accepted now (.ok ())).1 = .ok () ∧ Turn mode t m (m.syncTask mode t accepted now (.ok ())).2 := by
  have hsettles : mode.Settles (keptVersion m.store.isSome t) t := by
    unfold SyncMode.Settles
    split
    · exact .inr (hkept ‹_›)
    · exact fun _ => by rw [← replicaOutranks_kept m.store.isSome, replicaOutranks_irrefl]
  rw [syncTask, if_neg hid, m.stampIncoming_stamped hfits.stamped]
  dsimp only
  split
  · rename_i hpassed
    refine ⟨rfl, rfl, rfl, .inl rfl, ?_⟩
    unfold passedOver at hpassed
    unfold SyncMode.Settles
    split at hpassed
    · cases hpassed
    rename_i current hget
    refine ⟨current, hget, ?_⟩
    split
    · rw [if_pos ‹_›, decide_eq_true_eq] at hpassed
      exact hpassed.imp_left And.right
    rw [if_neg ‹_›] at hpassed
    intro hmerge
    have haccepted : accepted = _ := hfits.accepted hmerge current hget
    simpa [hmerge, haccepted, hid] using hpassed
  · by_cases horphan : (mode.mergeReplicas && (m.tasks.get? t.id).isNone && (cloneTask t).inProgress) = true
    · obtain ⟨⟨hmerge, -⟩, hprogress⟩ := by simpa only [Bool.and_eq_true] using horphan
      have hstays : ∀ u : Task, u.error = coordinatorChangedTaskError →
          u.subtasks = ((cloneTask t).interrupt coordinatorChangedTaskError now).subtasks → mode.Settles u t := by
        intro u herror hsubtasks
        have hcount := congrArg (fun l => (l.filter fun r : SubtaskResult => r.status = .completed).length) hsubtasks
        have hreplace : mode.replace ≠ true := fun h => by simp [hmode h] at hmerge
        rw [SyncMode.Settles, if_neg hreplace]
        refine fun _ => replicaOutranks_orphan (by simp [isInterruptedTask, herror]) (hcount.trans ?_) hprogress
        exact (completedSubtaskCount_interrupt _ _ _).trans (completedSubtaskCount_cloneTask t)
      simp only [adopt, horphan, if_true]
      rw [interruptOrphanedTask, if_pos hprogress]
      obtain ⟨tasks, seq, origin, syncSeq, finalizer, store, issued⟩ := m
      cases store <;>
        exact ⟨rfl, rfl, rfl, .inr ⟨hmerge, rfl⟩, _, (Lib.Keyed.get?_put tasks _ _).trans (if_pos rfl), hstays _ rfl rfl⟩
    · simp only [adopt, horphan, Bool.false_eq_true, if_false]
      obtain ⟨tasks, _, _, _, _, store, _⟩ := m
      cases store <;> exact ⟨rfl, rfl, rfl, .inl rfl, _, (Lib.Keyed.get?_put tasks _ _).trans (if_pos rfl), hsettles⟩

def Room (m : Manager) (mode : SyncMode) (tasks : List Task) : Prop :=
  mode.mergeReplicas → m.syncSeq.get m.syncOrigin + tasks.length < 2 ^ 64 ∧ ∀ t ∈ tasks, t.sequence + tasks.length < 2 ^ 64

theorem Turn.room (h : Turn mode t m m') (hroom : m.Room mode (t :: tasks)) :
    m'.Room mode tasks ∧ (∀ o, m.syncSeq.get o ≤ m'.syncSeq.get o) ∧ t.sequence ≤ m'.syncSeq.get t.origin := by
  have hraise : ∀ o, m.syncSeq.get o ≤ (m.syncSeq.raise t.origin t.sequence).get o := by
    intro o
    rw [get_raise]
    split <;> omega
  have ht : t.sequence ≤ (m.syncSeq.raise t.origin t.sequence).get t.origin := by simp
  have hbound : mode.mergeReplicas → (m.syncSeq.raise t.origin t.sequence).get m.syncOrigin + tasks.length + 1 < 2 ^ 64 := by
    intro hmerge
    obtain ⟨hown, htasks⟩ := hroom hmerge
    have hfirst := htasks t mem_cons_self
    rw [length_cons] at hown hfirst
    rw [get_raise]
    split <;> omega
  have hrest : mode.mergeReplicas → ∀ t ∈ tasks, t.sequence + tasks.length < 2 ^ 64 :=
    fun hmerge u hu => (Nat.lt_succ_self _).trans ((hroom hmerge).2 u (mem_cons_of_mem _ hu))
  unfold Room
  rw [h.syncOrigin]
  rcases h.syncSeq with hseq | ⟨hmerge, hseq⟩
  · rw [hseq]
    exact ⟨fun hmerge => ⟨(Nat.lt_succ_self _).trans (hbound hmerge), hrest hmerge⟩, hraise, ht⟩
  -- the own counter goes up by one
  have hup := hbound hmerge
  rw [incr_of_lt (by omega)] at hseq
  have hle : ∀ o, (m.syncSeq.raise t.origin t.sequence).get o ≤ m'.syncSeq.get o := by
    intro o
    rw [hseq, get_set]
    split
    · subst o
      exact Nat.le_succ _
    · exact le_rfl
  refine ⟨fun _ => ⟨?_, hrest hmerge⟩, fun o => (hraise o).trans (hle o), ht.trans (hle _)⟩
  rw [hseq, get_set, if_pos rfl]
  omega

def Knows (m : Manager) (mode : SyncMode) (t : Task) : Prop :=
  t.sequence ≤ m.syncSeq.get t.origin ∧ ∃ current, m.tasks.get? t.id = some current ∧ mode.Settles current t

theorem syncTasksFrom_knows (hmode : mode.replace → mode.mergeReplicas = false) (now : Clocks)
    (hids : ((pairs.map Prod.fst).map Task.id).Nodup) (hroom : m.Room mode (pairs.map Prod.fst))
    (hfits : ∀ p ∈ pairs, m.Fits mode p) (hkept : mode.replace → ∀ p ∈ pairs, keptVersion m.store.isSome p.1 = p.1) :
    let m' := (m.syncTasksFrom mode pairs now fun _ => .ok ()).2
    (∀ id, id ∉ (pairs.map Prod.fst).map Task.id → m'.tasks.get? id = m.tasks.get? id) ∧
      (∀ o, m.syncSeq.get o ≤ m'.syncSeq.get o) ∧
      ∀ t ∈ (pairs.map Prod.fst).takeWhile (·.id ≠ ""), m'.Knows mode t := by
  induction pairs generalizing m now with
  | nil => exact ⟨fun _ _ => rfl, fun _ => le_rfl, nofun⟩
  | cons p rest ih =>
    obtain ⟨t, accepted⟩ := p
    rw [map_cons] at hroom
    rw [map_cons, map_cons, nodup_cons] at hids
    by_cases hid : t.id = ""
    · simp [syncTasksFrom, syncTask, hid]
    have hothers := @Delivered.others _ _ _ _ _ (m.syncTask_delivered mode t accepted (now 0) (.ok ()))
    obtain ⟨hok, hturn⟩ := syncTask_turn hmode hid (hfits _ mem_cons_self) (fun h => hkept h _ mem_cons_self) (now 0)
    rw [syncTasksFrom]
    generalize m.syncTask mode t accepted (now 0) (.ok ()) = turn at *
    obtain ⟨_, m'⟩ := turn
    obtain rfl := hok
    obtain ⟨hroom', hle, hseq⟩ := hturn.room hroom
    have hfits' : ∀ p ∈ rest, m'.Fits mode p := by
      intro p hp
      obtain ⟨hstamped, haccepted⟩ := hfits p (mem_cons_of_mem _ hp)
      have hne : p.1.id ≠ t.id := fun heq => hids.1 (heq ▸ mem_map_of_mem (mem_map_of_mem hp))
      exact ⟨hstamped, hothers hne ▸ haccepted⟩
    obtain ⟨hget, hle', hknows⟩ := ih (fun i => now (i + 1)) hids.2 hroom' hfits' fun h p hp =>
      hturn.store ▸ hkept h p (mem_cons_of_mem _ hp)
    refine ⟨fun id hid => ?_, fun o => (hle o).trans (hle' o), fun u hu => ?_⟩
    · obtain ⟨hne, hnot⟩ := not_or.mp (mem_cons.not.mp hid)
      exact (hget id hnot).trans (hothers hne)
    rw [map_cons, takeWhile_cons_of_pos (by simpa using hid)] at hu
    rcases mem_cons.mp hu with rfl | hu
    · obtain ⟨current, hheld, hsettles⟩ := hturn.settled
      exact ⟨hseq.trans (hle' _), current, (hget _ hids.1).trans hheld, hsettles⟩
    · exact hknows u hu

theorem syncTask_known (hknows : m.Knows mode t) (hid : t.id ≠ "") (hfits : m.Fits mode (t, accepted)) (now : Instant)
    (saved : Except String Unit) : m.syncTask mode t accepted now saved = (.ok (), m) ∧
      passedOver mode accepted (m.tasks.get? t.id) (m.stampIncoming t mode.origin).1 := by
  obtain ⟨hseq, current, hget, hsettles⟩ := hknows
  obtain ⟨ht, haccepted⟩ := hfits
  have hraise : m.syncSeq.raise t.origin t.sequence = m.syncSeq := if_neg hseq.not_gt
  have hpassed : passedOver mode accepted (some current) t := by
    unfold SyncMode.Settles at hsettles
    unfold passedOver
    split at hsettles
    · have hstamped : t.origin ≠ "" := fun h => by simp [Task.unstamped, h] at ht
      simpa [‹mode.replace = true›, hstamped] using hsettles
    dsimp only
    rw [if_neg ‹_›]
    cases hmerge : mode.mergeReplicas with
    | false => rfl
    | true =>
      have hfalse : accepted = _ := haccepted hmerge current hget
      simp [hfalse, hsettles hmerge]
  rw [syncTask, if_neg hid, m.stampIncoming_stamped ht, hraise]
  dsimp only
  rw [hget, if_pos hpassed]
  exact ⟨rfl, hpassed⟩

theorem syncTasksFrom_known (hfits : ∀ p ∈ pairs, m.Fits mode p)
    (hknows : ∀ t ∈ (pairs.map Prod.fst).takeWhile (·.id ≠ ""), m.Knows mode t) (now : Clocks)
    (saves : Nat → Except String Unit) :
    (m.syncTasksFrom mode pairs now saves).2 = m ∧ m.adoptions mode pairs now saves = [] := by
  induction pairs generalizing now saves with
  | nil => exact ⟨rfl, rfl⟩
  | cons p _ ih =>
    obtain ⟨t, _⟩ := p
    obtain ⟨hfirst, hrest⟩ := forall_mem_cons.mp hfits
    by_cases hid : t.id = ""
    · simp [syncTasksFrom, adoptions, syncTask, hid]
    rw [map_cons, takeWhile_cons_of_pos (by simpa using hid)] at hknows
    obtain ⟨hknown, hlater⟩ := forall_mem_cons.mp hknows
    obtain ⟨hturn, hpassed⟩ := syncTask_known hknown hid hfirst (now 0) (saves 0)
    simp only [syncTasksFrom, adoptions, hturn, hpassed, if_true]
    exact ih hrest hlater _ _

def ofPeer (replace : Bool) : SyncMode := { replace, mergeReplicas := !replace, sourceOrigin := "task:peer" }

end Manager

end Maistr0.Taskmgr
