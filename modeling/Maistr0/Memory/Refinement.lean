import Maistr0.Memory.InMemory

/-!
# The in-memory store is a replica of stamped records

What the replication argument needs of the store is its owner, its watermarks and the bag of its
records. Seen that way every method is a run of replica steps: local writes only forget and write,
and a merge section also adopts the records it is given. The other methods' bodies are not looked at
again after this module.

A sequence can wrap to zero, and a zero sequence reads as unstamped. `Unwrapped` says that this has
not happened; it is a condition on the history alone, and the history only grows.
-/

namespace Maistr0.Memory

open Go Relation List Lib.Keyed Record MemoryStore

namespace Record

def WellFormed (r : Record) : Prop :=
  ¬ Unstamped r.origin r.sequence ∧ match r with
    | experience e => e.createdAt ≠ 0
    | fact f => f.key ≠ "" ∧ f.scope ≠ ""
    | performance p => p.nodeID ≠ "" ∧ p.model ≠ "" ∧ p.taskType ≠ ""
    | dialogue d => d.id ≠ ""

end Record

variable [CaseFolding] {d : DialogueRecord}

namespace MemoryStore

def contents (s : MemoryStore) : Snapshot where
  experiences := s.experiences
  facts := s.facts.vals
  performances := s.performances.vals
  dialogues := s.dialogues.vals
  watermarks := s.watermarks

def records (s : MemoryStore) : List Record := s.contents.records

def view (s : MemoryStore) : Lib.Replica String Record where
  owner := s.origin
  clock := s.watermarks.get
  held := s.records

/-- No sequence handed out so far has wrapped around. -/
def Unwrapped (s : MemoryStore) : Prop := ∀ entry ∈ s.assigned, entry.2 ≠ 0

structure Valid (s : MemoryStore) : Prop where
  origin_ne : s.origin ≠ ""
  wellFormed : ∀ r ∈ s.records, r.WellFormed
  fingerprinted : ∀ e ∈ s.experiences, experienceFingerprint e ∈ s.fingerprints

variable {shown : Set Record} {s s' : MemoryStore} {o : String} {r : Record}

theorem coe_records (s : MemoryStore) : (s.records : Multiset Record) =
    (s.experiences.map experience : Multiset Record) + (s.facts.vals.map Record.fact : Multiset Record) +
      (s.performances.vals.map performance : Multiset Record) +
      (s.dialogues.vals.map dialogue : Multiset Record) := by
  simp only [records, Snapshot.records, contents, Multiset.coe_add]

theorem snapshot_records (s : MemoryStore) : s.snapshot.records.Perm s.records :=
  ((((reverse_perm _).map _).append ((perm_insertionSort _ _).map _)).append
    ((perm_insertionSort _ _).map _)).append ((perm_insertionSort _ _).map _)

/-! ### How a write changes the bag -/

theorem records_le (he : s'.experiences.Sublist s.experiences) (hf : s'.facts.vals.Sublist s.facts.vals)
    (hp : s'.performances.vals.Sublist s.performances.vals) (hd : s'.dialogues.vals.Sublist s.dialogues.vals) :
    (s'.records : Multiset Record) ≤ (s.records : Multiset Record) := by
  have hsub : s'.records.Sublist s.records :=
    (((he.map _).append (hf.map _)).append (hp.map _)).append (hd.map _)
  exact Multiset.coe_le.mpr hsub.subperm

/-- The new bag is the old one with `r` in place of what was held under its key. -/
def Replaces (s s' : MemoryStore) (r : Record) : Prop :=
  (s'.records : Multiset Record) ≤ r ::ₘ (s.records : Multiset Record).filter fun x => x.key ≠ r.key

theorem Replaces.le (h : Replaces s s' r) : (s'.records : Multiset Record) ≤ r ::ₘ (s.records : Multiset Record) :=
  le_trans h (Multiset.cons_le_cons _ (Multiset.filter_le _ _))

theorem records_append {e : Experience} (he : s'.experiences = s.experiences ++ [e]) (hf : s'.facts = s.facts)
    (hp : s'.performances = s.performances) (hd : s'.dialogues = s.dialogues) :
    (s'.records : Multiset Record) = .experience e ::ₘ (s.records : Multiset Record) := by
  rw [coe_records, coe_records, he, hf, hp, hd, map_append, ← Multiset.coe_add]
  simp only [map_cons, map_nil, Multiset.coe_singleton]
  rw [← Multiset.singleton_add]
  abel

theorem replaces_experience {e : Experience} (he : s'.experiences = s.experiences ++ [e]) (hf : s'.facts = s.facts)
    (hp : s'.performances = s.performances) (hd : s'.dialogues = s.dialogues)
    (hnew : ∀ x ∈ s.experiences, experienceFingerprint x ≠ experienceFingerprint e) :
    Replaces s s' (.experience e) := by
  unfold Replaces
  rw [records_append he hf hp hd, Multiset.filter_eq_self.mpr]
  intro x hx hkey
  cases x with
  | experience x =>
    rw [Multiset.mem_coe, records, Snapshot.mem_records_experience] at hx
    exact hnew x hx (Record.Key.experience.inj hkey)
  | fact | performance | dialogue => cases hkey

theorem replaces_put {V : Type} {keyOf : V → String} {m : Lib.Keyed keyOf} {v : V} {wrap : V → Record}
    (rest : Multiset Record) (hs : (s.records : Multiset Record) = (m.vals.map wrap : Multiset Record) + rest)
    (hs' : (s'.records : Multiset Record) = ((m.put v).vals.map wrap : Multiset Record) + rest)
    (hrest : ∀ x ∈ rest, x.key ≠ (wrap v).key) (hkey : ∀ w, (wrap w).key = (wrap v).key → keyOf w = keyOf v) :
    Replaces s s' (wrap v) := by
  unfold Replaces
  rw [hs', vals_put, map_cons, ← Multiset.cons_coe, Multiset.cons_add]
  apply Multiset.cons_le_cons
  rw [Multiset.le_filter, hs]
  refine ⟨?_, ?_⟩
  · rw [Multiset.add_le_add_iff_right, Multiset.coe_le]
    exact (Sublist.map wrap filter_sublist).subperm
  intro x hx
  rcases Multiset.mem_add.mp hx with hmap | hother
  · obtain ⟨w, hw, rfl⟩ := mem_map.mp (Multiset.mem_coe.mp hmap)
    have hne := (mem_filter.mp hw).2
    intro hsame
    simp [hkey w hsame] at hne
  · exact hrest x hother

theorem replaces_fact {f : Fact} (he : s'.experiences = s.experiences) (hf : s'.facts = s.facts.put f)
    (hp : s'.performances = s.performances) (hd : s'.dialogues = s.dialogues) :
    Replaces s s' (.fact f) := by
  refine replaces_put (m := s.facts) ((s.experiences.map experience : Multiset Record) +
    (s.performances.vals.map performance : Multiset Record) +
    (s.dialogues.vals.map dialogue : Multiset Record)) ?_ ?_ ?_ ?_
  · rw [coe_records]
    abel
  · rw [coe_records, he, hf, hp, hd]
    abel
  · intro x hx
    simp only [Multiset.mem_add, Multiset.mem_coe, mem_map] at hx
    obtain (⟨y, -, rfl⟩ | ⟨y, -, rfl⟩) | ⟨y, -, rfl⟩ := hx <;> exact Record.Key.noConfusion
  · intro w hw
    obtain ⟨hscope, hkey⟩ := Record.Key.fact.inj hw
    change factKey w.scope w.key = factKey f.scope f.key
    rw [hscope, hkey]

theorem replaces_performance {p : Performance} (he : s'.experiences = s.experiences) (hf : s'.facts = s.facts)
    (hp : s'.performances = s.performances.put p) (hd : s'.dialogues = s.dialogues) :
    Replaces s s' (.performance p) := by
  refine replaces_put (m := s.performances) ((s.experiences.map experience : Multiset Record) +
    (s.facts.vals.map Record.fact : Multiset Record) +
    (s.dialogues.vals.map dialogue : Multiset Record)) ?_ ?_ ?_ ?_
  · rw [coe_records]
    abel
  · rw [coe_records, he, hf, hp, hd]
    abel
  · intro x hx
    simp only [Multiset.mem_add, Multiset.mem_coe, mem_map] at hx
    obtain (⟨y, -, rfl⟩ | ⟨y, -, rfl⟩) | ⟨y, -, rfl⟩ := hx <;> exact Record.Key.noConfusion
  · intro w hw
    obtain ⟨hnode, hmodel, htask⟩ := Record.Key.performance.inj hw
    change perfKey w.nodeID w.model w.taskType = perfKey p.nodeID p.model p.taskType
    rw [hnode, hmodel, htask]

theorem replaces_dialogue (he : s'.experiences = s.experiences) (hf : s'.facts = s.facts)
    (hp : s'.performances = s.performances) (hd : s'.dialogues = s.dialogues.put d) :
    Replaces s s' (.dialogue d) := by
  refine replaces_put (m := s.dialogues) ((s.experiences.map experience : Multiset Record) +
    (s.facts.vals.map Record.fact : Multiset Record) +
    (s.performances.vals.map performance : Multiset Record)) ?_ ?_ ?_ ?_
  · rw [coe_records]
    abel
  · rw [coe_records, he, hf, hp, hd]
    abel
  · intro x hx
    simp only [Multiset.mem_add, Multiset.mem_coe, mem_map] at hx
    obtain (⟨y, -, rfl⟩ | ⟨y, -, rfl⟩) | ⟨y, -, rfl⟩ := hx <;> exact Record.Key.noConfusion
  · intro w hw
    exact Record.Key.dialogue.inj hw

/-! ### Steps -/

structure Refines (shown : Set Record) (s s' : MemoryStore) : Prop where
  steps : ReflTransGen (Lib.Replica.Step labels shown) s.view s'.view
  valid : s'.Valid

theorem Refines.trans {s'' : MemoryStore} (h : Refines shown s s') (h' : Refines shown s' s'') : Refines shown s s'' :=
  ⟨h.steps.trans h'.steps, h'.valid⟩

theorem Refines.watermarks_le (h : Refines shown s s') : s.watermarks.get ≤ s'.watermarks.get := by
  have hclock : ∀ v, ReflTransGen (Lib.Replica.Step labels shown) s.view v → s.view.clock ≤ v.clock := by
    intro v hv
    induction hv with
    | refl => exact le_rfl
    | tail _ hstep ih => exact ih.trans hstep.clock_le
  exact hclock s'.view h.steps

theorem Refines.mono {shown' : Set Record} (h : Refines shown s s') (hsub : shown ⊆ shown') : Refines shown' s s' :=
  ⟨ReflTransGen.mono (fun _ _ hstep => hstep.mono hsub) _ _ h.steps, h.valid⟩

theorem lt_nextSequence (hne : (s.nextSequenceLocked o).1 ≠ 0) : s.watermarks.get o < (s.nextSequenceLocked o).1 := by
  have hincr : (s.nextSequenceLocked o).1 = max (s.sequences.get o) (s.watermarks.get o) + 1 := incr_of_ne_zero hne
  have hle : s.watermarks.get o ≤ max (s.sequences.get o) (s.watermarks.get o) := le_max_right _ _
  omega

theorem watermarks_le_nextSequence (hne : (s.nextSequenceLocked o).1 ≠ 0) :
    s.watermarks.get ≤ (s.nextSequenceLocked o).2.watermarks.get := by
  intro o'
  change s.watermarks.get o' ≤ (s.watermarks.set o (s.nextSequenceLocked o).1).get o'
  rw [Lib.Clock.get_set]
  split
  · rename_i heq
    subst o'
    exact (lt_nextSequence hne).le
  · exact le_rfl

section

variable (hv : s.Valid)

include hv

theorem Valid.write (ho : s'.origin = s.origin)
    (hle : (s'.records : Multiset Record) ≤ r ::ₘ (s.records : Multiset Record)) (hr : r.WellFormed)
    (hfp : ∀ e ∈ s'.experiences, experienceFingerprint e ∈ s'.fingerprints) : s'.Valid where
  origin_ne := ho ▸ hv.origin_ne
  wellFormed := by
    intro x hx
    have hmem := Multiset.mem_of_le hle (Multiset.mem_coe.mpr hx)
    rcases Multiset.mem_cons.mp hmem with rfl | hold
    · exact hr
    · exact hv.wellFormed x (Multiset.mem_coe.mp hold)
  fingerprinted := hfp

theorem refines_write (ho : s'.origin = s.origin) (hw : s'.watermarks = (s.nextSequenceLocked s.origin).2.watermarks)
    (hstamp : r.stamp = (s.origin, (s.nextSequenceLocked s.origin).1)) (hr : r.WellFormed)
    (hle : (s'.records : Multiset Record) ≤ r ::ₘ (s.records : Multiset Record))
    (hfp : ∀ e ∈ s'.experiences, experienceFingerprint e ∈ s'.fingerprints) : Refines shown s s' := by
  have horigin : r.origin = s.origin := congrArg Prod.fst hstamp
  have hsequence : r.sequence = (s.nextSequenceLocked s.origin).1 := congrArg Prod.snd hstamp
  have hne : (s.nextSequenceLocked s.origin).1 ≠ 0 := by
    intro hzero
    exact hr.1 (.inr (hsequence.trans hzero))
  refine ⟨.single (.write r ho ?_ horigin ?_ ?_ hle), hv.write ho hle hr hfp⟩
  · change s.watermarks.get ≤ s'.watermarks.get
    rw [hw]
    exact watermarks_le_nextSequence hne
  · change s.watermarks.get s.origin < r.sequence
    rw [hsequence]
    exact lt_nextSequence hne
  · change r.sequence ≤ s'.watermarks.get s.origin
    rw [hw, hsequence]
    change _ ≤ (s.watermarks.set s.origin (s.nextSequenceLocked s.origin).1).get s.origin
    rw [Lib.Clock.get_set, if_pos rfl]

theorem refines_forget (ho : s'.origin = s.origin) (hclock : s.watermarks.get ≤ s'.watermarks.get)
    (hle : (s'.records : Multiset Record) ≤ (s.records : Multiset Record))
    (hfp : ∀ e ∈ s'.experiences, experienceFingerprint e ∈ s'.fingerprints) : Refines shown s s' where
  steps := .single (.forget ho hclock hle)
  valid :=
    { origin_ne := ho ▸ hv.origin_ne
      wellFormed := fun x hx => hv.wellFormed x (Multiset.mem_coe.mp (Multiset.mem_of_le hle (Multiset.mem_coe.mpr hx)))
      fingerprinted := hfp }

theorem refines_setPeerWatermarks {peer : String} {w : Watermarks} :
    Refines shown s (s.setPeerWatermarks peer w).2 := by
  unfold setPeerWatermarks
  split
  · exact ⟨.refl, hv⟩
  · exact refines_forget hv rfl le_rfl le_rfl hv.fingerprinted

theorem refines_nextSequence (hne : (s.nextSequenceLocked o).1 ≠ 0) : Refines shown s (s.nextSequenceLocked o).2 :=
  refines_forget hv rfl (watermarks_le_nextSequence hne) le_rfl hv.fingerprinted

theorem refines_writeFact {f : Fact} (hstamp : (Record.fact f).stamp = (s.origin, (s.nextSequenceLocked s.origin).1))
    (hwf : (Record.fact f).WellFormed) :
    Refines shown s { (s.nextSequenceLocked s.origin).2 with facts := s.facts.put f } := by
  have hle : Replaces s { (s.nextSequenceLocked s.origin).2 with facts := s.facts.put f }
      (.fact f) := replaces_fact rfl rfl rfl rfl
  exact refines_write hv rfl rfl hstamp hwf hle.le hv.fingerprinted

theorem refines_writePerformance {p : Performance}
    (hstamp : (performance p).stamp = (s.origin, (s.nextSequenceLocked s.origin).1))
    (hwf : (performance p).WellFormed) :
    Refines shown s { (s.nextSequenceLocked s.origin).2 with performances := s.performances.put p } := by
  have hle : Replaces s { (s.nextSequenceLocked s.origin).2 with performances := s.performances.put p }
      (.performance p) := replaces_performance rfl rfl rfl rfl
  exact refines_write hv rfl rfl hstamp hwf hle.le hv.fingerprinted

theorem refines_writeDialogue (hstamp : (dialogue d).stamp = (s.origin, (s.nextSequenceLocked s.origin).1))
    (hwf : (dialogue d).WellFormed) :
    Refines shown s { (s.nextSequenceLocked s.origin).2 with dialogues := s.dialogues.put d } := by
  have hle : Replaces s { (s.nextSequenceLocked s.origin).2 with dialogues := s.dialogues.put d }
      (.dialogue d) := replaces_dialogue rfl rfl rfl rfl
  exact refines_write hv rfl rfl hstamp hwf hle.le hv.fingerprinted

end

theorem Unwrapped.next_ne_zero (hu : s'.Unwrapped) (h : (s.nextSequenceLocked o).2.assigned <+: s'.assigned) :
    (s.nextSequenceLocked o).1 ≠ 0 :=
  hu (o, (s.nextSequenceLocked o).1) (h.subset (mem_append_right _ mem_cons_self))

end MemoryStore

/-! ### Local writes -/

inductive LocalWrite where
  | record (e : Experience) (now : Instant)
  | putFact (f : Fact) (now : Instant)
  | getFact (scope key : String)
  | deleteFact (scope key : String)
  | saveDialogue (d : DialogueRecord) (now : Instant)
  | appendDialogueTurns (id : String) (participants : List String) (topic : String) (turns : List Turn) (now : Clocks)
  | prune (cutoff : Time)

def LocalWrite.apply (s : MemoryStore) : LocalWrite → MemoryStore
  | record e now => (s.record e now).2
  | putFact f now => (s.putFact f now).2
  | getFact scope key => (s.getFact scope key).2
  | deleteFact scope key => s.deleteFact scope key
  | saveDialogue d now => (s.saveDialogue d now).2
  | appendDialogueTurns id participants topic turns now => (s.appendDialogueTurns id participants topic turns now).2
  | prune cutoff => (s.prune cutoff).2

namespace MemoryStore

variable {s : MemoryStore} {e : Experience} {now : Instant}

section

variable (hv : s.Valid)

include hv

theorem updatePerformance_wellFormed (hnode : e.nodeID ≠ "") (hmodel : e.model ≠ "") (k : String) {o : String}
    {n : Nat} (hstamp : ¬ Unstamped o n) :
    (performance { performanceAfterExperience (s.performances.get? k) e with
      origin := o, sequence := n }).WellFormed := by
  refine ⟨hstamp, ?_⟩
  cases hget : s.performances.get? k with
  | none =>
    exact ⟨hnode, hmodel, toLower_eq_empty.not.mpr (defaultTaskType_ne_empty e.taskType)⟩
  | some p =>
    have hmem : performance p ∈ s.records :=
      Snapshot.mem_records_performance.mpr (get?_eq_some.mp hget).1
    exact (hv.wellFormed _ hmem).2

theorem refines_updatePerformance (hnode : e.nodeID ≠ "") (hmodel : e.model ≠ "")
    (hu : (s.updatePerformanceLocked e).Unwrapped) :
    Refines ∅ s (s.updatePerformanceLocked e) := by
  have hne : (s.nextSequenceLocked s.origin).1 ≠ 0 := hu.next_ne_zero (prefix_refl _)
  have hwf := updatePerformance_wellFormed hv hnode hmodel (perfKey e.nodeID e.model e.taskType)
    (not_or.mpr ⟨hv.origin_ne, hne⟩)
  exact refines_writePerformance hv rfl hwf

theorem refines_record (hu : (s.record e now).2.Unwrapped) : Refines ∅ s (s.record e now).2 := by
  let e' : Experience := { prepareExperience e now with
    id := incr s.nextID, origin := s.origin, sequence := (s.nextSequenceLocked s.origin).1 }
  let s' : MemoryStore := { (s.nextSequenceLocked s.origin).2 with
    nextID := incr s.nextID
    experiences := s.experiences ++ [e']
    fingerprints := insert (experienceFingerprint e') s.fingerprints }
  have heq : (s.record e now).2 = if e'.nodeID ≠ "" ∧ e'.model ≠ "" then s'.updatePerformanceLocked e' else s' := rfl
  have hu' : s'.Unwrapped := by
    rw [heq] at hu
    split at hu
    · exact fun entry hmem => hu entry (mem_append_left _ hmem)
    · exact hu
  have hne : (s.nextSequenceLocked s.origin).1 ≠ 0 := hu'.next_ne_zero (prefix_refl _)
  have hwf : (experience e').WellFormed := by
    refine ⟨not_or.mpr ⟨hv.origin_ne, hne⟩, ?_⟩
    change (if e.createdAt = 0 then (now : Time) else e.createdAt) ≠ 0
    split
    · exact now.2
    · assumption
  have hfp : ∀ x ∈ s'.experiences, experienceFingerprint x ∈ s'.fingerprints := by
    intro x hx
    rcases mem_append.mp hx with hold | hnew
    · exact Finset.mem_insert_of_mem (hv.fingerprinted x hold)
    · rw [mem_singleton.mp hnew]
      exact Finset.mem_insert_self _ _
  have hle : (s'.records : Multiset Record) = .experience e' ::ₘ (s.records : Multiset Record) :=
    records_append rfl rfl rfl rfl
  have hfirst : Refines ∅ s s' := refines_write hv rfl rfl rfl hwf hle.le hfp
  rw [heq] at hu ⊢
  split
  · rename_i htracked
    rw [if_pos htracked] at hu
    exact hfirst.trans (refines_updatePerformance hfirst.valid htracked.1 htracked.2 hu)
  · exact hfirst

theorem refines_putFact {f : Fact} (hu : (s.putFact f now).2.Unwrapped) : Refines ∅ s (s.putFact f now).2 := by
  unfold putFact at hu ⊢
  split
  · exact ⟨.refl, hv⟩
  rename_i hkey
  rw [if_neg hkey] at hu
  have hne : (s.nextSequenceLocked s.origin).1 ≠ 0 := hu.next_ne_zero (prefix_refl _)
  exact refines_writeFact hv rfl ⟨not_or.mpr ⟨hv.origin_ne, hne⟩, hkey, defaultScope_ne_empty f.scope⟩

theorem refines_getFact {scope key : String} (hu : (s.getFact scope key).2.Unwrapped) :
    Refines ∅ s (s.getFact scope key).2 := by
  unfold getFact at hu ⊢
  cases hget : s.facts.get? (factKey (defaultScope scope) key) with
  | none => exact ⟨.refl, hv⟩
  | some f =>
    rw [hget] at hu
    have hne : (s.nextSequenceLocked s.origin).1 ≠ 0 := hu.next_ne_zero (prefix_refl _)
    have hmem : Record.fact f ∈ s.records := Snapshot.mem_records_fact.mpr (get?_eq_some.mp hget).1
    exact refines_writeFact hv rfl ⟨not_or.mpr ⟨hv.origin_ne, hne⟩, (hv.wellFormed _ hmem).2⟩

theorem refines_deleteFact {scope key : String} : Refines ∅ s (s.deleteFact scope key) :=
  refines_forget hv rfl le_rfl
    (records_le (Sublist.refl _) filter_sublist (Sublist.refl _) (Sublist.refl _)) hv.fingerprinted

theorem refines_prune {cutoff : Time} : Refines ∅ s (s.prune cutoff).2 :=
  refines_forget hv rfl le_rfl (records_le filter_sublist (Sublist.refl _) (Sublist.refl _) (Sublist.refl _))
    fun e he => hv.fingerprinted e (mem_of_mem_filter he)

theorem refines_saveDialogue (hu : (s.saveDialogue d now).2.Unwrapped) : Refines ∅ s (s.saveDialogue d now).2 := by
  unfold saveDialogue at hu ⊢
  split
  · exact ⟨.refl, hv⟩
  rename_i hid
  rw [if_neg hid] at hu
  have hne : (s.nextSequenceLocked s.origin).1 ≠ 0 := hu.next_ne_zero (prefix_refl _)
  exact refines_writeDialogue hv rfl ⟨not_or.mpr ⟨hv.origin_ne, hne⟩, hid⟩

end

theorem assigned_stampEach (s : MemoryStore) (d : DialogueRecord) (turns : List Turn) :
    s.assigned <+: (s.stampEach d turns).2.assigned := by
  induction turns generalizing s d with
  | nil => exact prefix_refl _
  | cons _ _ ih =>
    have hnext : s.assigned <+: (s.nextSequenceLocked s.origin).2.assigned := prefix_append _ _
    exact hnext.trans (ih _ _)

theorem refines_stampEach {turns : List Turn} (hv : s.Valid) (hd : d.id ≠ "")
    (hturns : turns ≠ []) (hu : (s.stampEach d turns).2.Unwrapped) :
    Refines ∅ s { (s.stampEach d turns).2 with
      dialogues := (s.stampEach d turns).2.dialogues.put (s.stampEach d turns).1 } := by
  induction turns generalizing s d with
  | nil => exact absurd rfl hturns
  | cons _ turns ih =>
    have hne : (s.nextSequenceLocked s.origin).1 ≠ 0 := hu.next_ne_zero (assigned_stampEach _ _ turns)
    cases turns with
    | nil => exact refines_writeDialogue hv rfl ⟨not_or.mpr ⟨hv.origin_ne, hne⟩, hd⟩
    | cons =>
      have hfirst : Refines ∅ s (s.nextSequenceLocked s.origin).2 := refines_nextSequence hv hne
      exact hfirst.trans (ih hfirst.valid hd (cons_ne_nil _ _) hu)

theorem refines_appendDialogueTurns {id : String} {participants : List String} {topic : String} {turns : List Turn}
    {now : Clocks} (hv : s.Valid) (hu : (s.appendDialogueTurns id participants topic turns now).2.Unwrapped) :
    Refines ∅ s (s.appendDialogueTurns id participants topic turns now).2 := by
  unfold appendDialogueTurns at hu ⊢
  split
  · exact ⟨.refl, hv⟩
  rename_i hid
  rw [if_neg hid] at hu
  split
  · exact ⟨.refl, hv⟩
  rename_i hturns
  rw [if_neg hturns] at hu
  refine refines_stampEach hv ?_ hturns hu
  cases hget : s.dialogues.get? id with
  | none => exact hid
  | some d =>
    change d.id ≠ ""
    rw [keyOf_get? hget]
    exact hid

end MemoryStore

theorem LocalWrite.refines {s : MemoryStore} {op : LocalWrite} (hv : s.Valid) (hu : (op.apply s).Unwrapped) :
    s.Refines ∅ (op.apply s) := by
  cases op with
  | record => exact refines_record hv hu
  | putFact => exact refines_putFact hv hu
  | getFact => exact refines_getFact hv hu
  | deleteFact => exact refines_deleteFact hv
  | saveDialogue => exact refines_saveDialogue hv hu
  | appendDialogueTurns => exact refines_appendDialogueTurns hv hu
  | prune => exact refines_prune hv

end Maistr0.Memory
