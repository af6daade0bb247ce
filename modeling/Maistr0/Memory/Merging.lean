import Maistr0.Memory.Refinement

/-!
# Merge sections are replica steps

Each lock section of `MergeSnapshotFrom` either passes the incoming record over, adopts it with its
stamp, or, for a dialogue that is already there, writes the joined transcript under a stamp of its
own. This needs the incoming records to be stamped and complete, which is what stores send.
-/

namespace Maistr0.Memory

open Go List

def MergeSection.records : MergeSection → List Record
  | .experience e => [.experience e]
  | .fact f => [.fact f]
  | .performances ps => ps.map .performance
  | .dialogue d => [.dialogue d]
  | .watermarks _ => []

theorem records_mergeSections {snapshot : Snapshot} {sec : MergeSection} (hsec : sec ∈ mergeSections snapshot)
    {r : Record} (hr : r ∈ sec.records) : r ∈ snapshot.records := by
  simp only [mergeSections, mem_append, mem_map, mem_singleton] at hsec
  obtain (((⟨e, he, rfl⟩ | ⟨f, hf, rfl⟩) | rfl) | ⟨d, hd, rfl⟩) | rfl := hsec
  · rw [mem_singleton.mp hr]
    exact Snapshot.mem_records_experience.mpr he
  · rw [mem_singleton.mp hr]
    exact Snapshot.mem_records_fact.mpr hf
  · obtain ⟨_, hp, rfl⟩ := mem_map.mp hr
    exact Snapshot.mem_records_performance.mpr hp
  · rw [mem_singleton.mp hr]
    exact Snapshot.mem_records_dialogue.mpr hd
  · cases hr

variable [CaseFolding]

namespace MemoryStore

variable {shown : Set Record} {s s' : MemoryStore}

variable {source : String} {now : Instant}

theorem observeRecordLocked_eq (s : MemoryStore) (o : String) (n : Nat) :
    ∃ w q, s.observeRecordLocked o n = { s with watermarks := w, sequences := q } ∧
      s.watermarks.get ≤ w.get ∧ (¬ Unstamped o n → n ≤ w.get o) := by
  unfold observeRecordLocked
  split
  · rename_i hun
    exact ⟨s.watermarks, s.sequences, rfl, le_rfl, fun h => absurd hun h⟩
  refine ⟨_, _, rfl, ?_, ?_⟩
  · intro o'
    rw [Lib.Clock.get_raise]
    split
    · exact le_max_left _ _
    · exact le_rfl
  · intro _
    rw [Lib.Clock.get_raise, if_pos rfl]
    exact le_max_right _ _

section

variable (hv : s.Valid)

include hv

theorem refines_adopt {r source : Record} (hshown : source ∈ shown) (hstamp : r.stamp = source.stamp)
    (hkey : r.key = source.key) (hwf : r.WellFormed) (ho : s'.origin = s.origin)
    (hclock : s.watermarks.get ≤ s'.watermarks.get) (hcover : r.sequence ≤ s'.watermarks.get r.origin)
    (hr : Replaces s s' r) (hfp : ∀ e ∈ s'.experiences, experienceFingerprint e ∈ s'.fingerprints) :
    Refines shown s s' where
  steps := .single (.adopt r source ho hclock hshown hstamp hkey hcover hr)
  valid := hv.write ho hr.le hwf hfp

theorem refines_observe {o : String} {n : Nat} : Refines shown s (s.observeRecordLocked o n) := by
  obtain ⟨_, _, hobs, hle, -⟩ := s.observeRecordLocked_eq o n
  rw [hobs]
  exact refines_forget hv rfl hle le_rfl hv.fingerprinted

theorem refines_mergeExperience {e : Experience} (hwf : (Record.experience e).WellFormed)
    (hshown : .experience e ∈ shown) :
    Refines shown s (s.mergeExperienceFrom e source now) := by
  obtain ⟨_, _, hobs, hle, hcover⟩ := s.observeRecordLocked_eq e.origin e.sequence
  have hstamped : ¬ Unstamped e.origin e.sequence := hwf.1
  have htime : e.createdAt ≠ 0 := hwf.2
  unfold mergeExperienceFrom
  simp only [hobs, hstamped, if_false, htime]
  split
  · exact refines_forget hv rfl hle le_rfl hv.fingerprinted
  rename_i hnew
  refine refines_adopt (r := .experience { e with id := incr s.nextID }) hv hshown rfl rfl hwf rfl hle (hcover hstamped) ?_ ?_
  · refine replaces_experience rfl rfl rfl rfl fun x hx hsame => hnew ?_
    have hfp := hv.fingerprinted x hx
    rwa [hsame] at hfp
  intro x hx
  rcases mem_append.mp hx with hold | hlast
  · exact Finset.mem_insert_of_mem (hv.fingerprinted x hold)
  · rw [mem_singleton.mp hlast]
    exact Finset.mem_insert_self _ _

theorem refines_mergeFact {f : Fact} (hwf : (Record.fact f).WellFormed) (hshown : .fact f ∈ shown) :
    Refines shown s (s.mergeFactFrom f source now).2 := by
  have hstamped : ¬ Unstamped f.origin f.sequence := hwf.1
  have hscope : defaultScope f.scope = f.scope := if_neg hwf.2.2
  unfold mergeFactFrom
  rw [if_neg hwf.2.1]
  obtain ⟨w, q, hobs, hle, hcover⟩ := s.observeRecordLocked_eq (normalizeFact f now).origin (normalizeFact f now).sequence
  simp only [hobs]
  split
  · exact refines_forget hv rfl hle le_rfl hv.fingerprinted
  -- carrying over times and hits from the current fact leaves stamp and key alone
  have hcarry : ∀ current : Option Fact,
      ∃ g, (current.map (carryFact (normalizeFact f now))).getD (normalizeFact f now) = g ∧
        g.origin = f.origin ∧ g.sequence = f.sequence ∧ g.scope = f.scope ∧ g.key = f.key := by
    intro current
    cases current with
    | none | some => exact ⟨_, rfl, rfl, rfl, hscope, rfl⟩
  obtain ⟨g, hg, horigin, hsequence, hgscope, hgkey⟩ := hcarry (s.facts.get? (normalizeFact f now).mapKey)
  have hgwf : (Record.fact g).WellFormed := by
    refine ⟨?_, ?_, ?_⟩
    · change ¬ Unstamped g.origin g.sequence
      rw [horigin, hsequence]
      exact hstamped
    · rw [hgkey]
      exact hwf.2.1
    · rw [hgscope]
      exact hwf.2.2
  simp only [hg]
  rw [if_neg (by rw [horigin, hsequence]; exact hstamped)]
  let t : MemoryStore := { s with watermarks := w, sequences := q }
  obtain ⟨_, _, hobs', hle', hcover'⟩ := t.observeRecordLocked_eq g.origin g.sequence
  change Refines shown s { t.observeRecordLocked g.origin g.sequence with
    facts := (t.observeRecordLocked g.origin g.sequence).facts.put g }
  rw [hobs']
  refine refines_adopt (r := .fact g) hv hshown ?_ ?_ hgwf rfl (le_trans hle hle') (hcover' hgwf.1) ?_ hv.fingerprinted
  · exact Prod.ext horigin hsequence
  · change Record.Key.fact g.scope g.key = Record.Key.fact f.scope f.key
    rw [hgscope, hgkey]
  · exact replaces_fact rfl rfl rfl rfl

theorem refines_mergePerformance {p : Performance} (hwf : (Record.performance p).WellFormed)
    (hshown : .performance p ∈ shown) :
    Refines shown s (s.mergePerformance p source) := by
  have hstamped : ¬ Unstamped p.origin p.sequence := hwf.1
  obtain ⟨hnode, hmodel, htask⟩ := hwf.2
  unfold mergePerformance
  rw [if_neg (not_or.mpr ⟨hnode, hmodel⟩)]
  have hdefault : defaultTaskType p.taskType = p.taskType := if_neg htask
  simp only [hdefault, if_neg hstamped]
  split
  · exact refines_observe hv
  obtain ⟨_, _, hobs, hle, hcover⟩ := s.observeRecordLocked_eq p.origin p.sequence
  simp only [hobs]
  refine refines_adopt (r := .performance p) hv hshown rfl rfl hwf rfl hle (hcover hstamped) ?_ hv.fingerprinted
  exact replaces_performance rfl rfl rfl rfl

theorem refines_mergePerformances {ps : List Performance} (hwf : ∀ p ∈ ps, (Record.performance p).WellFormed)
    (hshown : ∀ p ∈ ps, Record.performance p ∈ shown) :
    Refines shown s (s.mergePerformancesFrom ps source) := by
  refine foldlRecOn ps _ ⟨.refl, hv⟩ fun t ht p hp => ?_
  exact ht.trans (refines_mergePerformance ht.valid (hwf p hp) (hshown p hp))

theorem refines_mergeDialogue {d : DialogueRecord} (hwf : (Record.dialogue d).WellFormed)
    (hshown : .dialogue d ∈ shown) (hu : (s.mergeDialogueFrom d source).Unwrapped) :
    Refines shown s (s.mergeDialogueFrom d source) := by
  have hstamped : ¬ Unstamped d.origin d.sequence := hwf.1
  have hid : d.id ≠ "" := hwf.2
  obtain ⟨w, q, hobs, hle, hcover⟩ := s.observeRecordLocked_eq d.origin d.sequence
  let t : MemoryStore := { s with watermarks := w, sequences := q }
  have hfirst : Refines shown s t := refines_forget hv rfl hle le_rfl hv.fingerprinted
  unfold mergeDialogueFrom at hu ⊢
  simp only [if_neg hid, hobs, if_neg hstamped] at hu ⊢
  cases hget : s.dialogues.get? d.id with
  | none =>
    refine refines_adopt (r := .dialogue d) hv hshown rfl rfl hwf rfl hle (hcover hstamped) ?_ hv.fingerprinted
    exact replaces_dialogue rfl rfl rfl rfl
  | some current =>
    simp only [hget] at hu ⊢
    split
    · rename_i hchanged
      rw [if_pos hchanged] at hu
      have hne : (t.nextSequenceLocked t.origin).1 ≠ 0 := hu.next_ne_zero (prefix_refl _)
      have hcurrent : (mergeTranscript current d).1.id ≠ "" := by
        change current.id ≠ ""
        rw [Lib.Keyed.keyOf_get? hget]
        exact hid
      refine hfirst.trans ?_
      exact refines_writeDialogue hfirst.valid rfl ⟨not_or.mpr ⟨hv.origin_ne, hne⟩, hcurrent⟩
    · exact hfirst

end

theorem foldl_observe_eq (entries : List (String × Nat)) (s : MemoryStore) :
    ∃ w q, entries.foldl (fun s entry => s.observeRecordLocked entry.1 entry.2) s =
      { s with watermarks := w, sequences := q } ∧ s.watermarks.get ≤ w.get := by
  induction entries generalizing s with
  | nil => exact ⟨s.watermarks, s.sequences, rfl, le_rfl⟩
  | cons entry _ ih =>
    obtain ⟨w, q, hobs, hle, -⟩ := s.observeRecordLocked_eq entry.1 entry.2
    obtain ⟨w', q', hrest, hle'⟩ := ih { s with watermarks := w, sequences := q }
    refine ⟨w', q', ?_, le_trans hle hle'⟩
    rw [foldl_cons, hobs, hrest]

theorem refines_observeWatermarks {w : Watermarks} (hv : s.Valid) : Refines shown s (s.observeWatermarks w source) := by
  obtain ⟨_, _, hobs, hle⟩ := foldl_observe_eq w.vals s
  unfold observeWatermarks
  simp only [hobs]
  exact refines_forget hv rfl hle le_rfl hv.fingerprinted

theorem refines_mergeSection {sec : MergeSection} (hv : s.Valid) (hwf : ∀ r ∈ sec.records, r.WellFormed)
    (hshown : ∀ r ∈ sec.records, r ∈ shown) (hu : (s.mergeSection source now sec).2.Unwrapped) :
    Refines shown s (s.mergeSection source now sec).2 := by
  cases sec with
  | experience => exact refines_mergeExperience hv (hwf _ mem_cons_self) (hshown _ mem_cons_self)
  | fact => exact refines_mergeFact hv (hwf _ mem_cons_self) (hshown _ mem_cons_self)
  | performances =>
    exact refines_mergePerformances hv (fun p hp => hwf _ (mem_map_of_mem hp)) fun p hp => hshown _ (mem_map_of_mem hp)
  | dialogue => exact refines_mergeDialogue hv (hwf _ mem_cons_self) (hshown _ mem_cons_self) hu
  | watermarks => exact refines_observeWatermarks hv

end MemoryStore

end Maistr0.Memory
