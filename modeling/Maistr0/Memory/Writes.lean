import Maistr0.Memory.Merging
import Maistr0.Memory.Rules

/-!
# The writes a call is made of

Every method of `memoryStore` is a run of a few elementary writes: a counter moves, a record is filed, or
something is forgotten or noted. What each of these keeps, every call keeps.
-/

namespace Maistr0.Memory

open Go List

def Facts.Files (facts : Facts) (f : Fact) : Prop :=
  f.scope ≠ "" ∧ f.key ≠ "" ∧ f.updatedAt ≠ 0 ∨
    ∃ g ∈ facts.vals, f.scope = g.scope ∧ f.key = g.key ∧ f.updatedAt = g.updatedAt

theorem filed_carry {f : Fact} (hkey : f.key ≠ "") (now : Instant) (current : Option Fact) :
    ((current.map (carryFact (normalizeFact f now))).getD (normalizeFact f now)).scope ≠ "" ∧
      ((current.map (carryFact (normalizeFact f now))).getD (normalizeFact f now)).key ≠ "" ∧
      ((current.map (carryFact (normalizeFact f now))).getD (normalizeFact f now)).updatedAt ≠ 0 := by
  cases current <;> exact ⟨defaultScope_ne_empty f.scope, hkey, normalizeFact_updatedAt_ne f now⟩

theorem filledTime_ne (t : Time) (now : Instant) : (if t = 0 then (now : Time) else t) ≠ 0 := by
  split
  · exact now.2
  · assumption

theorem dialogueAfterTurns_id (dialogues : Dialogues) (id : String) (participants : List String) (topic : String)
    (turns : List Turn) (now : Clocks) : (dialogueAfterTurns (dialogues.get? id) id participants topic turns now).id = id := by
  cases hget : dialogues.get? id with
  | none => rfl
  | some d =>
    have hid : d.id = id := Lib.Keyed.keyOf_get? hget
    exact hid

variable [CaseFolding]

namespace MemoryStore

def notePeer (s : MemoryStore) (peer : String) (w : Watermarks) : MemoryStore :=
  { s with peerWatermarks := s.peerWatermarks.put (peer, mergeWatermarks (s.peerWatermarksOf peer) w) }

/-- An elementary write. A sequence that comes from outside is one of `seen`, what is noted about a peer is in
`noted`, and the watermark of its origin covers a record that is filed. -/
inductive Write (seen : Nat → Prop) (noted : String → Watermarks → Prop) (s : MemoryStore) : MemoryStore → Prop
  | mint (o : String) : Write seen noted s (s.nextSequenceLocked o).2
  | observe (o : String) {q : Nat} (hq : seen q) : Write seen noted s (s.observeRecordLocked o q)
  | experience (e : Experience) (id : Nat) (known : Finset Experience) (hdated : e.createdAt ≠ 0)
    (hq : e.sequence ≤ s.watermarks.get e.origin) :
    Write seen noted s { s with nextID := id, experiences := s.experiences ++ [e], fingerprints := known }
  | fact (f : Fact) (hfiled : s.facts.Files f) (hq : f.sequence ≤ s.watermarks.get f.origin) :
    Write seen noted s { s with facts := s.facts.put f }
  | performance (p : Performance) (hq : p.sequence ≤ s.watermarks.get p.origin) :
    Write seen noted s { s with performances := s.performances.put p }
  | dialogue (d : DialogueRecord) (hid : d.id ≠ "") (hq : d.sequence ≤ s.watermarks.get d.origin) :
    Write seen noted s { s with dialogues := s.dialogues.put d }
  | forget (es : List Experience) (facts : Facts) (hes : ∀ e ∈ es, e ∈ s.experiences)
    (hfacts : ∀ f ∈ facts.vals, f ∈ s.facts.vals) : Write seen noted s { s with experiences := es, facts := facts }
  | note (peer : String) (w : Watermarks) (hw : noted peer w) : Write seen noted s (s.notePeer peer w)

abbrev Writes (seen : Nat → Prop) (noted : String → Watermarks → Prop) : MemoryStore → MemoryStore → Prop :=
  Relation.ReflTransGen (Write seen noted)

variable {seen : Nat → Prop} {noted : String → Watermarks → Prop} {s : MemoryStore} {source : String}

theorem Writes.invariant {P : MemoryStore → Prop} (h : ∀ t t', P t → Write seen noted t t' → P t') {t : MemoryStore}
    (hrun : Writes seen noted s t) (hs : P s) : P t := by
  induction hrun with
  | refl => exact hs
  | tail _ hwrite ih => exact h _ _ ih hwrite

variable (s)

theorem writes_mint (o : String) : Writes seen noted s (s.nextSequenceLocked o).2 := .single (.mint o)

theorem writes_observe (o : String) {q : Nat} (hq : seen q) :
    Writes seen noted s (s.observeRecordLocked o q) := .single (.observe o hq)

theorem next_le (o : String) : (s.nextSequenceLocked o).1 ≤ (s.nextSequenceLocked o).2.watermarks.get o := by
  simp [nextSequenceLocked]

theorem le_observe {o : String} {q : Nat} (h : ¬ Unstamped o q) : q ≤ (s.observeRecordLocked o q).watermarks.get o := by
  obtain ⟨_, _, hobs, -, hle⟩ := s.observeRecordLocked_eq o q
  rw [hobs]
  exact hle h

/-! ### Merges -/

theorem writes_mergeExperience {e : Experience} (he : seen e.sequence) (source : String) (now : Instant) :
    Writes seen noted s (s.mergeExperienceFrom e source now) := by
  have hobs : Writes seen noted s (s.observeRecordLocked e.origin e.sequence) := s.writes_observe e.origin he
  unfold mergeExperienceFrom
  simp only
  split
  · exact hobs
  by_cases hstamp : Unstamped e.origin e.sequence
  · simp only [if_pos hstamp]
    exact (hobs.tail (.mint source)).tail <| .experience _ _ _ (filledTime_ne e.createdAt now) (next_le _ source)
  · simp only [if_neg hstamp]
    exact hobs.tail <| .experience _ _ _ (filledTime_ne e.createdAt now) (s.le_observe hstamp)

theorem writes_mergeFact {f : Fact} (hf : seen f.sequence) (source : String) (now : Instant) :
    Writes seen noted s (s.mergeFactFrom f source now).2 := by
  have hobs : Writes seen noted s (s.observeRecordLocked (normalizeFact f now).origin (normalizeFact f now).sequence) :=
    s.writes_observe _ hf
  unfold mergeFactFrom
  simp only
  split
  · exact .refl
  rename_i hkey
  split
  · exact hobs
  generalize s.observeRecordLocked (normalizeFact f now).origin (normalizeFact f now).sequence = t at hobs ⊢
  have hfiled := filed_carry hkey now (t.facts.get? (normalizeFact f now).mapKey)
  have hq := (stamp_carry (normalizeFact f now) (t.facts.get? (normalizeFact f now).mapKey)).2
  split
  · exact (hobs.tail (.mint source)).tail <| .fact _ (.inl hfiled) (next_le t source)
  · rename_i hstamp
    exact (hobs.tail (.observe _ (hq.symm ▸ hf))).tail <| .fact _ (.inl hfiled) (t.le_observe hstamp)

theorem writes_mergePerformance {p : Performance} (hp : seen p.sequence) (source : String) :
    Writes seen noted s (s.mergePerformance p source) := by
  unfold mergePerformance
  simp only
  split
  · exact .refl
  split
  · exact s.writes_observe _ hp
  split
  · exact (s.writes_mint source).tail <| .performance _ (s.next_le source)
  · rename_i hstamp
    exact (s.writes_observe _ hp).tail <| .performance _ (s.le_observe hstamp)

theorem writes_mergePerformances {ps : List Performance} (hps : ∀ p ∈ ps, seen p.sequence)
    (source : String) : Writes seen noted s (s.mergePerformancesFrom ps source) := by
  refine foldlRecOn ps _ .refl fun t ht p hp => ?_
  exact ht.trans (t.writes_mergePerformance (hps p hp) source)

theorem writes_mergeDialogue {d : DialogueRecord} (hd : seen d.sequence) (source : String) :
    Writes seen noted s (s.mergeDialogueFrom d source) := by
  have hobs : Writes seen noted s (s.observeRecordLocked d.origin d.sequence) := s.writes_observe d.origin hd
  unfold mergeDialogueFrom
  by_cases hid : d.id = ""
  · rw [if_pos hid]
  rw [if_neg hid]
  simp only
  cases hget : (s.observeRecordLocked d.origin d.sequence).dialogues.get? d.id with
  | none =>
    simp only
    split
    · exact (hobs.tail (.mint source)).tail <| .dialogue _ hid (next_le _ source)
    · rename_i hstamp
      exact hobs.tail <| .dialogue d hid (s.le_observe hstamp)
  | some c =>
    have hmerged : (mergeTranscript c d).1.id ≠ "" := (Lib.Keyed.keyOf_get? hget).trans_ne hid
    simp only
    split
    · exact (hobs.tail (.mint _)).tail <| .dialogue _ hmerged (next_le _ _)
    · exact hobs

theorem writes_observeWatermarks {w : Watermarks} (hw : ∀ entry ∈ w.vals, seen entry.2)
    (hnoted : noted source w) : Writes seen noted s (s.observeWatermarks w source) := by
  have hfold : Writes seen noted s (w.vals.foldl (fun s entry => s.observeRecordLocked entry.1 entry.2) s) := by
    refine foldlRecOn w.vals _ .refl fun t ht entry hentry => ?_
    exact ht.tail (.observe entry.1 (hw entry hentry))
  exact hfold.tail (.note source w hnoted)

theorem writes_mergeSection {sec : MergeSection} (hrecords : ∀ r ∈ sec.records, seen r.sequence)
    (hw : ∀ w, sec = .watermarks w → (∀ entry ∈ w.vals, seen entry.2) ∧ noted source w) (now : Instant) :
    Writes seen noted s (s.mergeSection source now sec).2 := by
  cases sec with
  | experience e => exact s.writes_mergeExperience (hrecords (.experience e) mem_cons_self) source now
  | fact f => exact s.writes_mergeFact (hrecords (.fact f) mem_cons_self) source now
  | performances =>
    exact s.writes_mergePerformances (fun p hp => hrecords (.performance p) (mem_map_of_mem hp)) source
  | dialogue d => exact s.writes_mergeDialogue (hrecords (.dialogue d) mem_cons_self) source
  | watermarks w => exact s.writes_observeWatermarks (hw w rfl).1 (hw w rfl).2

variable {s} in
theorem runSections_induct {source : String} {secs : List MergeSection} {P : MemoryStore → Prop}
    (hstep : ∀ t, P t → ∀ sec ∈ secs, ∀ now, P (t.mergeSection source now sec).2) (hs : P s) (now : Clocks) :
    P (s.runSections source secs now).2 := by
  induction secs generalizing s now with
  | nil => exact hs
  | cons sec rest ih =>
    have hone := hstep s hs sec mem_cons_self (now 0)
    unfold runSections
    split
    · rename_i heq
      rwa [heq] at hone
    rename_i heq
    rw [heq] at hone
    exact ih (fun t ht sec' hsec => hstep t ht sec' (mem_cons_of_mem _ hsec)) hone _

theorem writes_mergeSnapshot {S : Snapshot} (hrecords : ∀ r ∈ S.records, seen r.sequence)
    (hw : ∀ entry ∈ S.watermarks.vals, seen entry.2) {sourceOrigin : String}
    (hnoted : noted (sourceOrLegacy sourceOrigin) S.watermarks) (now : Clocks) :
    Writes seen noted s (s.mergeSnapshotFrom S sourceOrigin now).2 := by
  refine runSections_induct (fun t ht sec hsec now => ht.trans ?_) .refl now
  refine t.writes_mergeSection (fun r hr => hrecords r (records_mergeSections hsec hr)) ?_ now
  rintro w rfl
  obtain rfl : w = S.watermarks := by simpa [mergeSections] using hsec
  exact ⟨hw, hnoted⟩

/-! ### Local writes -/

theorem writes_updatePerformance (e : Experience) : Writes seen noted s (s.updatePerformanceLocked e) :=
  (s.writes_mint s.origin).tail <| .performance _ (s.next_le s.origin)

theorem writes_record (e : Experience) (now : Instant) : Writes seen noted s (s.record e now).2 := by
  have hfiled : ∀ id known, Writes seen noted s { (s.nextSequenceLocked s.origin).2 with
      nextID := id, experiences := _, fingerprints := known } := fun id known =>
    (s.writes_mint s.origin).tail <| .experience { prepareExperience e now with
        id := incr (s.nextSequenceLocked s.origin).2.nextID
        origin := s.origin
        sequence := (s.nextSequenceLocked s.origin).1 }
      id known (filledTime_ne e.createdAt now) (s.next_le s.origin)
  unfold record
  simp only
  split
  · exact (hfiled _ _).trans (writes_updatePerformance _ _)
  · exact hfiled _ _

theorem writes_stampEach (d : DialogueRecord) (turns : List Turn) :
    Writes seen noted s (s.stampEach d turns).2 ∧ (s.stampEach d turns).1.id = d.id ∧
      (turns ≠ [] → (s.stampEach d turns).1.sequence ≤ (s.stampEach d turns).2.watermarks.get (s.stampEach d turns).1.origin) := by
  induction turns generalizing s d with
  | nil => exact ⟨.refl, rfl, fun h => absurd rfl h⟩
  | cons turn turns ih =>
    obtain ⟨hwrites, hid, hq⟩ := ih (s.nextSequenceLocked s.origin).2
      { d with origin := s.origin, sequence := (s.nextSequenceLocked s.origin).1 }
    refine ⟨hwrites.head (.mint s.origin), hid, fun _ => ?_⟩
    cases turns with
    | nil => exact s.next_le s.origin
    | cons => exact hq (cons_ne_nil _ _)

end MemoryStore

theorem LocalWrite.writes {seen : Nat → Prop} {noted : String → Watermarks → Prop} (s : MemoryStore) (op : LocalWrite) :
    s.Writes seen noted (op.apply s) := by
  have hle := s.next_le s.origin
  cases op with
  | record e now => exact s.writes_record e now
  | putFact f now =>
    rw [apply, MemoryStore.putFact]
    split
    · exact .refl
    · rename_i hkey
      exact (s.writes_mint s.origin).tail <| .fact _ (.inl ⟨defaultScope_ne_empty f.scope, hkey, now.2⟩) hle
  | getFact scope key =>
    rw [apply, MemoryStore.getFact]
    cases hget : s.facts.get? (factKey (defaultScope scope) key) with
    | none => exact .refl
    | some f =>
      have hmem := (Lib.Keyed.get?_eq_some.mp hget).1
      exact (s.writes_mint s.origin).tail <| .fact _ (.inr ⟨f, hmem, rfl, rfl, rfl⟩) hle
  | deleteFact scope key => exact .single (.forget s.experiences _ (fun _ he => he) fun _ hf => mem_of_mem_filter hf)
  | saveDialogue d now =>
    rw [apply, MemoryStore.saveDialogue]
    split
    · exact .refl
    · rename_i hid
      exact (s.writes_mint s.origin).tail <| .dialogue _ hid hle
  | appendDialogueTurns id participants topic turns now =>
    rw [apply, MemoryStore.appendDialogueTurns]
    split
    · exact .refl
    rename_i hid
    split
    · exact .refl
    rename_i hturns
    have hfiled := dialogueAfterTurns_id s.dialogues id participants topic turns now
    generalize dialogueAfterTurns (s.dialogues.get? id) id participants topic turns now = d at hfiled
    obtain ⟨hwrites, hid', hq⟩ := s.writes_stampEach d turns
    exact hwrites.tail <| .dialogue _ ((hid'.trans hfiled).trans_ne hid) (hq hturns)
  | prune cutoff => exact .single (.forget _ s.facts (fun _ he => mem_of_mem_filter he) fun _ hf => hf)

end Maistr0.Memory
