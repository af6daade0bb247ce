import Maistr0.Taskmgr.Operations
import Maistr0.Taskmgr.Sync

/-!
# What a batch from a peer does

One task of a batch is refused, passed over or adopted. An adopted task is saved under the stamp it came
with, or, if it lost its coordinator, under a new one of the manager itself.
-/

namespace Maistr0.Taskmgr

open Go List

structure Adopted (incoming : Task) (saved : Except String Unit) (m m' : Manager) (t : Task) : Prop where
  id : t.id = incoming.id
  stamp : (t.origin = incoming.origin ∧ t.sequence = incoming.sequence ∧ m'.syncSeq = m.syncSeq ∧ m'.issued = m.issued) ∨
    m.tasks.get? incoming.id = none ∧ t.origin = m.syncOrigin ∧ t.sequence = incr (m.syncSeq.get m.syncOrigin) ∧
      m'.syncSeq = m.syncSeq.set m.syncOrigin (incr (m.syncSeq.get m.syncOrigin)) ∧
      m'.issued = (m.syncOrigin, incr (m.syncSeq.get m.syncOrigin)) :: m.issued
  syncOrigin : m'.syncOrigin = m.syncOrigin
  stored : Stored saved t m.store m'.store
  tasks : saved = .ok () → m'.tasks = m.tasks.put t

inductive Delivered (mode : SyncMode) (incoming : Task) (accepted : Bool) (saved : Except String Unit) (m : Manager) :
    Except Failure Unit × Manager → Prop
  | refused (err : Failure) (hid : incoming.id = "") : Delivered mode incoming accepted saved m (.error err, m)
  | passed (hpassed : Manager.passedOver mode accepted (m.tasks.get? incoming.id) (m.stampIncoming incoming mode.origin).1) :
    Delivered mode incoming accepted saved m (.ok (), (m.stampIncoming incoming mode.origin).2)
  | taken (t : Task) (result : Except Failure Unit × Manager)
    (hpassed : Manager.passedOver mode accepted (m.tasks.get? incoming.id) (m.stampIncoming incoming mode.origin).1 = false)
    (h : Adopted (m.stampIncoming incoming mode.origin).1 saved (m.stampIncoming incoming mode.origin).2 result.2 t) :
    Delivered mode incoming accepted saved m result

namespace Manager

theorem stampIncoming_frame (m : Manager) (incoming : Task) (source : String) :
    (m.stampIncoming incoming source).1.id = incoming.id ∧ (m.stampIncoming incoming source).2.tasks = m.tasks ∧
      (m.stampIncoming incoming source).2.store = m.store ∧
      (m.stampIncoming incoming source).2.syncOrigin = m.syncOrigin := by
  unfold stampIncoming
  split <;> exact ⟨rfl, rfl, rfl, rfl⟩

theorem stampIncoming_stamped (m : Manager) {t : Task} (ht : t.unstamped = false) (source : String) :
    m.stampIncoming t source = (t, { m with syncSeq := m.syncSeq.raise t.origin t.sequence }) := by
  rw [stampIncoming, ht]
  rfl

theorem stampIncoming_cases (m : Manager) (incoming : Task) (source : String) : (incoming.unstamped = true ∧
    ∃ sequence, (m.stampIncoming incoming source).2.issued = (source, sequence) :: m.issued) ∨
    (incoming.unstamped = false ∧ (m.stampIncoming incoming source).1 = incoming ∧
      (m.stampIncoming incoming source).2.issued = m.issued) := by
  unfold stampIncoming
  cases incoming.unstamped with
  | true => exact .inl ⟨rfl, _, rfl⟩
  | false => exact .inr ⟨rfl, rfl, rfl⟩

theorem adopt_adopted (m : Manager) (mode : SyncMode) (incoming : Task) (now : Instant) (saved : Except String Unit) :
    ∃ t, Adopted incoming saved m (m.adopt mode incoming now saved).2 t := by
  unfold adopt
  dsimp only
  generalize hpair : (if (mode.mergeReplicas && (m.tasks.get? incoming.id).isNone && (cloneTask incoming).inProgress) = true then
    m.stampLocked (interruptOrphanedTask (cloneTask incoming) now) else (cloneTask incoming, m)) = pair
  obtain ⟨u, m₁⟩ := pair
  have hpre : u.id = incoming.id ∧ m₁.tasks = m.tasks ∧ m₁.store = m.store ∧ m₁.syncOrigin = m.syncOrigin ∧
      ((u.origin = incoming.origin ∧ u.sequence = incoming.sequence ∧ m₁.syncSeq = m.syncSeq ∧ m₁.issued = m.issued) ∨
        m.tasks.get? incoming.id = none ∧ u.origin = m.syncOrigin ∧ u.sequence = incr (m.syncSeq.get m.syncOrigin) ∧
          m₁.syncSeq = m.syncSeq.set m.syncOrigin (incr (m.syncSeq.get m.syncOrigin)) ∧
          m₁.issued = (m.syncOrigin, incr (m.syncSeq.get m.syncOrigin)) :: m.issued) := by
    split at hpair
    · rename_i horphan
      obtain ⟨rfl, rfl⟩ := Prod.mk.inj hpair
      simp only [Bool.and_eq_true, Option.isNone_iff_eq_none] at horphan
      refine ⟨?_, rfl, rfl, rfl, .inr ⟨horphan.1.2, rfl, rfl, rfl, rfl⟩⟩
      unfold interruptOrphanedTask
      split <;> rfl
    · obtain ⟨rfl, rfl⟩ := Prod.mk.inj hpair
      exact ⟨rfl, rfl, rfl, rfl, .inl ⟨rfl, rfl, rfl, rfl⟩⟩
  obtain ⟨hid, htasks, hstore, horigin, hstamp⟩ := hpre
  obtain ⟨hcopy, hstored, hframe⟩ := m₁.saveTaskAndCheckpointLocked_copy u saved
  have herror : ∀ err, (m₁.saveTaskAndCheckpointLocked u saved).1 = .error err → saved ≠ .ok () := by
    rintro err herr rfl
    unfold saveTaskAndCheckpointLocked at herr
    cases hm₁ : m₁.store <;> simp [hm₁] at herr
  generalize m₁.saveTaskAndCheckpointLocked u saved = result at *
  obtain ⟨answer, t, m₂⟩ := result
  dsimp only at hcopy hstored hframe
  rw [hstore] at hstored
  rw [← hcopy.origin, ← hcopy.sequence] at hstamp
  have hsyncSeq : m₂.syncSeq = m₁.syncSeq := by rw [hframe]
  have hissued : m₂.issued = m₁.issued := by rw [hframe]
  rw [← hsyncSeq, ← hissued] at hstamp
  have horigin₂ : m₂.syncOrigin = m.syncOrigin := by rw [hframe, horigin]
  have htasks₂ : m₂.tasks = m.tasks := by rw [hframe, htasks]
  cases answer with
  | error err => exact ⟨t, hcopy.id.trans hid, hstamp, horigin₂, hstored, fun hok => absurd hok (herror err rfl)⟩
  | ok => exact ⟨t, hcopy.id.trans hid, hstamp, horigin₂, hstored, fun _ => congrArg (Lib.Keyed.put · t) htasks₂⟩

theorem syncTask_delivered (m : Manager) (mode : SyncMode) (incoming : Task) (accepted : Bool) (now : Instant)
    (saved : Except String Unit) :
    Delivered mode incoming accepted saved m (m.syncTask mode incoming accepted now saved) := by
  obtain ⟨hid, htasks, -, -⟩ := m.stampIncoming_frame incoming mode.origin
  unfold syncTask
  split
  · exact .refused _ ‹_›
  dsimp only
  rw [hid, htasks]
  split
  · exact .passed ‹_›
  obtain ⟨t, h⟩ := (m.stampIncoming incoming mode.origin).2.adopt_adopted mode (m.stampIncoming incoming mode.origin).1
    now saved
  exact .taken t _ (Bool.eq_false_of_not_eq_true ‹_›) h

end Manager

theorem Delivered.others {mode : SyncMode} {incoming : Task} {accepted : Bool} {m : Manager}
    {result : Except Failure Unit × Manager} (h : Delivered mode incoming accepted (.ok ()) m result) {id : String}
    (hid : id ≠ incoming.id) : result.2.tasks.get? id = m.tasks.get? id := by
  obtain ⟨hid', htasks, -, -⟩ := m.stampIncoming_frame incoming mode.origin
  cases h with
  | refused => rfl
  | passed => exact congrArg (Lib.Keyed.get? · id) htasks
  | taken _ _ _ h =>
    rw [h.tasks rfl, htasks, Lib.Keyed.get?_put, if_neg fun heq => hid (heq.symm.trans (h.id.trans hid'))]

/-! ### Which versions win -/

theorem length_mergeReplicaTaskSlices (tasks : List Task) :
    ∀ (merged : Tasks) (now : Clocks), (mergeReplicaTaskSlices merged tasks now).length = tasks.length := by
  induction tasks with
  | nil => exact fun _ _ => rfl
  | cons _ _ ih =>
    intro merged now
    rw [mergeReplicaTaskSlices]
    split
    · exact congrArg (· + 1) (ih _ _)
    split
    · split <;> exact congrArg (· + 1) (ih _ _)
    · exact congrArg (· + 1) (ih _ _)

theorem replicaOutranks_sequence {current incoming : Task} (h : replicaOutranks current incoming) (hstamped : incoming.origin ≠ "")
    (horigin : incoming.origin = current.origin) : current.sequence ≤ incoming.sequence := by
  by_contra hlt
  have hless : incoming.sequence < current.sequence := by omega
  unfold replicaOutranks at h
  split at h
  · cases h
  split at h
  · rw [if_pos ⟨hstamped, horigin, hless⟩] at h
    cases h
  · rw [if_pos ⟨hstamped, horigin, hless.ne⟩, decide_eq_true_eq] at h
    omega

theorem mergeReplicaTaskSlices_accepted {tasks : List Task} (hids : (tasks.map Task.id).Nodup) :
    ∀ {merged : Tasks} {now : Clocks}, ∀ p ∈ tasks.zip (mergeReplicaTaskSlices merged tasks now),
      ∀ current, merged.get? p.1.id = some current → p.2 = (decide (p.1.id ≠ "") && replicaOutranks current p.1) := by
  induction tasks with
  | nil => simp
  | cons t rest ih =>
    intro merged now p hp current hcurrent
    rw [map_cons, nodup_cons] at hids
    -- whatever is done with the first task, the others are compared with the same versions
    have hlater : ∀ (flag : Bool) (merged' : Tasks), (∀ id, id ≠ t.id → merged'.get? id = merged.get? id) →
        p ∈ (t :: rest).zip (flag :: mergeReplicaTaskSlices merged' rest fun i => now (i + 1)) →
        (∀ current, merged.get? t.id = some current → flag = (decide (t.id ≠ "") && replicaOutranks current t)) →
        p.2 = (decide (p.1.id ≠ "") && replicaOutranks current p.1) := by
      intro flag merged' hother hmem hfirst
      rcases mem_cons.mp hmem with rfl | hmem
      · exact hfirst current hcurrent
      · have hne : p.1.id ≠ t.id := fun heq => hids.1 (heq ▸ mem_map_of_mem (of_mem_zip hmem).1)
        exact ih hids.2 p hmem current ((hother _ hne).trans hcurrent)
    have hput : ∀ (u : Task), u.id = t.id → ∀ id, id ≠ t.id → (merged.put u).get? id = merged.get? id := by
      intro u hu id hid
      rw [Lib.Keyed.get?_put, if_neg fun heq => hid (heq.symm.trans hu)]
    rw [mergeReplicaTaskSlices] at hp
    split at hp
    · rename_i hid
      exact hlater false merged (fun _ _ => rfl) hp fun _ _ => by simp [hid]
    rename_i hid
    split at hp
    · rename_i existing hexisting
      have hsame : ∀ flag, replicaOutranks existing t = flag → ∀ current, merged.get? t.id = some current →
          flag = (decide (t.id ≠ "") && replicaOutranks current t) := by
        intro flag hflag c hc
        cases hexisting.symm.trans hc
        simp [hid, hflag]
      split at hp
      · exact hlater true _ (hput (cloneTask t) rfl) hp (hsame true ‹_›)
      · exact hlater false merged (fun _ _ => rfl) hp (hsame false (Bool.eq_false_of_not_eq_true ‹_›))
    · rename_i hnone
      refine hlater true _ (hput _ ?_) hp fun c hc => ?_
      · unfold interruptOrphanedTask
        split <;> rfl
      · rw [hnone] at hc
        cases hc

namespace Manager

def replicaAccepted (m : Manager) (tasks : List Task) (mode : SyncMode) (deciding : Clocks) : List Bool :=
  if mode.mergeReplicas then mergeReplicaTaskSlices m.tasks tasks deciding else tasks.map fun _ => false

variable (m : Manager) (tasks : List Task) (mode : SyncMode) (deciding : Clocks)

theorem map_fst_replicaAccepted : (tasks.zip (m.replicaAccepted tasks mode deciding)).map Prod.fst = tasks := by
  refine map_fst_zip ?_
  unfold replicaAccepted
  split
  · exact (length_mergeReplicaTaskSlices tasks _ _).ge
  · exact (length_map _).ge

theorem replicaAccepted_outranks (hids : (tasks.map Task.id).Nodup) (hmode : mode.mergeReplicas) {p : Task × Bool}
    (hp : p ∈ tasks.zip (m.replicaAccepted tasks mode deciding)) {current : Task} (hget : m.tasks.get? p.1.id = some current) :
    p.2 = (decide (p.1.id ≠ "") && replicaOutranks current p.1) := by
  rw [replicaAccepted, if_pos hmode] at hp
  exact mergeReplicaTaskSlices_accepted hids p hp current hget

end Manager

theorem Manager.passedOver_sequence {mode : SyncMode} {accepted : Bool} {current incoming : Task}
    (hpassed : passedOver mode accepted (some current) incoming = false)
    (haccepted : mode.mergeReplicas → accepted → replicaOutranks current incoming)
    (hstamped : incoming.origin ≠ "") (horigin : incoming.origin = current.origin) : current.sequence ≤ incoming.sequence := by
  unfold passedOver at hpassed
  dsimp only at hpassed
  split at hpassed
  · simp only [decide_eq_false_iff_not, not_or, not_and, not_lt] at hpassed
    exact hpassed.1 hstamped horigin
  · simp only [Bool.or_eq_false_iff, Bool.not_eq_false'] at hpassed
    exact replicaOutranks_sequence (haccepted hpassed.1 hpassed.2) hstamped horigin

end Maistr0.Taskmgr
