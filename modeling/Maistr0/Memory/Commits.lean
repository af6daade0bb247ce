import Maistr0.Memory.Equivalence
import Maistr0.Memory.Visible

/-!
# The writes of the durable store

Every method of `boltStore` is a run of the elementary writes of `memoryStore`, on the buckets of the database.
-/

namespace Maistr0.Memory

open Go List

variable [CaseFolding]

def Call.Notes : Call → Prop
  | .setPeerWatermarks _ _ | .mergeSnapshotFrom _ _ _ => True
  | _ => False

namespace BoltStore

/-- An elementary write. A sequence that comes from outside is one of `seen`, the watermark of its origin
covers a record that is filed, experiences come and go only if `learned`, and something about a peer is written
down only if `noted`. -/
inductive Write (seen : Nat → Prop) (learned noted : Prop) (s : BoltStore) : BoltStore → Prop
  | mint (o : String) : Write seen learned noted s (s.nextOriginSequence o).2
  | observe (o : String) {q : Nat} (hq : seen q) : Write seen learned noted s (s.updateRecordWatermark o q)
  | experience (h : learned) (e : Experience) (id : Nat) (known : Finset Experience) (hdated : e.createdAt ≠ 0)
    (hq : e.sequence ≤ s.watermarks.get e.origin) :
    Write seen learned noted s { s with nextID := id, experiences := s.experiences.put e, fingerprints := known }
  | fact (f : Fact) (hfiled : s.facts.Files f) (hq : f.sequence ≤ s.watermarks.get f.origin) :
    Write seen learned noted s { s with facts := s.facts.put f }
  | performance (p : Performance) (hq : p.sequence ≤ s.watermarks.get p.origin) :
    Write seen learned noted s { s with performances := s.performances.put p }
  | dialogue (d : DialogueRecord) (hid : d.id ≠ "") (hq : d.sequence ≤ s.watermarks.get d.origin) :
    Write seen learned noted s { s with dialogues := s.dialogues.put d }
  | forget (h : learned) (es : Lib.Keyed Experience.id) (facts : Facts) (hes : ∀ e ∈ es.vals, e ∈ s.experiences.vals)
    (hfacts : ∀ f ∈ facts.vals, f ∈ s.facts.vals) : Write seen learned noted s { s with experiences := es, facts := facts }
  | note (peer : String) (w : Watermarks) (h : noted) : Write seen learned noted s (s.mergePeerWatermarksTx peer w)

abbrev Writes (seen : Nat → Prop) (learned noted : Prop) : BoltStore → BoltStore → Prop :=
  Relation.ReflTransGen (Write seen learned noted)

variable {seen : Nat → Prop} {learned noted : Prop} {s s' : BoltStore} {source : String}

theorem Writes.invariant {P : BoltStore → Prop} (h : ∀ t t', P t → Write seen learned noted t t' → P t') (hrun : Writes seen learned noted s s')
    (hs : P s) : P s' := by
  induction hrun with
  | refl => exact hs
  | tail _ hwrite ih => exact h _ _ ih hwrite

variable (s)

theorem writes_mint (o : String) : Writes seen learned noted s (s.nextOriginSequence o).2 := .single (.mint o)

theorem writes_observe (o : String) {q : Nat} (hq : seen q) : Writes seen learned noted s (s.updateRecordWatermark o q) :=
  .single (.observe o hq)

theorem next_le (o : String) : (s.nextOriginSequence o).1 ≤ (s.nextOriginSequence o).2.watermarks.get o := by
  simp [nextOriginSequence, saveWatermark]

theorem le_observe {o : String} {q : Nat} (h : ¬ Unstamped o q) :
    q ≤ (s.updateRecordWatermark o q).watermarks.get o := by
  simp [updateRecordWatermark, if_neg h, saveWatermark]

/-! ### Merges -/

theorem writes_mergeExperience {e : Experience} (he : seen e.sequence) (source : String) (now : Instant) :
    Writes seen True noted s (s.mergeExperienceTx e source now) := by
  have hobs : Writes seen True noted s (s.updateRecordWatermark e.origin e.sequence) := s.writes_observe e.origin he
  unfold mergeExperienceTx
  simp only
  split
  · exact hobs
  by_cases hstamp : Unstamped e.origin e.sequence
  · simp only [if_pos hstamp]
    exact (hobs.tail (.mint source)).tail <| .experience trivial _ _ _ (filledTime_ne e.createdAt now) (next_le _ source)
  · simp only [if_neg hstamp]
    exact hobs.tail <| .experience trivial _ _ _ (filledTime_ne e.createdAt now) (s.le_observe hstamp)

theorem writes_mergeExperiences {es : List Experience} (hes : ∀ e ∈ es, seen e.sequence) (source : String)
    (now : Clocks) : Writes seen True noted s (s.mergeExperiencesTx source es now) := by
  induction es generalizing s now with
  | nil => exact .refl
  | cons e _ ih =>
    exact (s.writes_mergeExperience (hes e mem_cons_self) source (now 0)).trans (ih _ (forall_mem_cons.mp hes).2 _)

variable {s} in
theorem writes_mergeFact {f : Fact} (hf : seen f.sequence) {now : Instant} (h : s.mergeFactTx f source now = .ok s') :
    Writes seen learned noted s s' := by
  have hobs : Writes seen learned noted s (s.updateRecordWatermark (normalizeFact f now).origin (normalizeFact f now).sequence) :=
    s.writes_observe _ hf
  unfold mergeFactTx at h
  simp only at h
  split at h
  · cases h
  rename_i hkey
  split at h
  · cases h
    exact hobs
  generalize s.updateRecordWatermark (normalizeFact f now).origin (normalizeFact f now).sequence = t at hobs h
  have hfiled := filed_carry hkey now (t.facts.get? (normalizeFact f now).mapKey)
  have hq := (stamp_carry (normalizeFact f now) (t.facts.get? (normalizeFact f now).mapKey)).2
  split at h
  · cases h
    exact (hobs.tail (.mint source)).tail <| .fact _ (.inl hfiled) (next_le t source)
  rename_i hstamp
  cases h
  exact (hobs.tail (.observe _ (hq.symm ▸ hf))).tail <| .fact _ (.inl hfiled) (t.le_observe hstamp)

variable {s} in
theorem writes_mergeFacts {fs : List Fact} (hfs : ∀ f ∈ fs, seen f.sequence) {now : Clocks}
    (h : s.mergeFactsTx source fs now = .ok s') : Writes seen learned noted s s' := by
  induction fs generalizing s now with
  | nil =>
    cases h
    exact .refl
  | cons f _ ih =>
    rw [mergeFactsTx] at h
    cases hf : s.mergeFactTx f source (now 0) with
    | error =>
      rw [hf] at h
      cases h
    | ok =>
      rw [hf] at h
      exact (writes_mergeFact (hfs f mem_cons_self) hf).trans (ih (forall_mem_cons.mp hfs).2 h)

theorem writes_mergePerformance {p : Performance} (hp : seen p.sequence) (source : String) :
    Writes seen learned noted s (s.mergePerformance p source) := by
  unfold mergePerformance
  simp only
  split
  · exact .refl
  split
  · exact s.writes_observe _ hp
  split
  · exact (s.writes_mint source).tail <| .performance _ (s.next_le source)
  · rename_i hstamp
    exact (s.writes_observe _ hp).tail <| .performance _ (s.le_observe hstamp)

theorem writes_mergePerformances {ps : List Performance} (hps : ∀ p ∈ ps, seen p.sequence)
    (source : String) : Writes seen learned noted s (s.mergePerformancesFrom ps source) := by
  refine foldlRecOn ps _ .refl fun t ht p hp => ?_
  exact ht.trans (t.writes_mergePerformance (hps p hp) source)

variable {s} in
/-- The last steps of `mergeDialogueTx`, whatever was made of the dialogue before. -/
theorem writes_mergedDialogue {t : BoltStore} (ht : Writes seen learned noted s t) {d : DialogueRecord} (hid : d.id ≠ "") {changed : Bool}
    (hq : changed = true → ¬ Unstamped d.origin d.sequence → d.sequence ≤ t.watermarks.get d.origin) :
    Writes seen learned noted s (if Unstamped d.origin d.sequence then
        { (t.nextOriginSequence source).2 with
          dialogues := (t.nextOriginSequence source).2.dialogues.put
            { d with origin := source, sequence := (t.nextOriginSequence source).1 } }
      else if changed then { t with dialogues := t.dialogues.put d } else t) := by
  split
  · exact (ht.tail (.mint source)).tail <| .dialogue _ hid (t.next_le source)
  rename_i hstamp
  split
  · rename_i hchanged
    exact ht.tail <| .dialogue d hid (hq hchanged hstamp)
  · exact ht

theorem writes_mergeDialogue {d : DialogueRecord} (hd : seen d.sequence) (source : String) :
    Writes seen learned noted s (s.mergeDialogueTx d source) := by
  have hobs : Writes seen learned noted s (s.updateRecordWatermark d.origin d.sequence) := s.writes_observe d.origin hd
  unfold mergeDialogueTx
  by_cases hid : d.id = ""
  · rw [if_pos hid]
  rw [if_neg hid]
  simp only
  cases hget : (s.updateRecordWatermark d.origin d.sequence).dialogues.get? d.id with
  | none => exact writes_mergedDialogue hobs hid fun _ => s.le_observe
  | some c =>
    have hmerged : (mergeTranscript c d).1.id ≠ "" := (Lib.Keyed.keyOf_get? hget).trans_ne hid
    simp only
    split
    · refine writes_mergedDialogue (hobs.tail (.mint _)) ?_ ?_
      · exact hmerged
      · exact fun _ _ => next_le _ _
    · exact writes_mergedDialogue hobs hmerged (absurd · Bool.false_ne_true)

theorem writes_mergeDialogues {ds : List DialogueRecord} (hds : ∀ d ∈ ds, seen d.sequence)
    (source : String) : Writes seen learned noted s (ds.foldl (fun s d => s.mergeDialogueTx d source) s) := by
  refine foldlRecOn ds _ .refl fun t ht d hd => ?_
  exact ht.trans (t.writes_mergeDialogue (hds d hd) source)

theorem writes_updateWatermarks {w : Watermarks} (hw : ∀ entry ∈ w.vals, seen entry.2) :
    Writes seen learned noted s (s.updateSnapshotWatermarks w) := by
  refine foldlRecOn w.vals _ .refl fun t ht entry hentry => ?_
  exact ht.tail (.observe entry.1 (hw entry hentry))

variable {s} in
theorem writes_transact {now : Clocks} {tx : MergeTransaction} (hrecords : ∀ r ∈ tx.records, seen r.sequence)
    (hw : ∀ ds w, tx = .dialogues ds w → noted ∧ ∀ entry ∈ w.vals, seen entry.2) (h : s.transact source now tx = .ok s') :
    Writes seen True noted s s' := by
  cases tx with
  | learned =>
    have hes : Writes seen True noted s _ := s.writes_mergeExperiences
      (fun e he => hrecords (.experience e) (mem_append_left _ (mem_map_of_mem he))) source now
    exact hes.trans (writes_mergeFacts (fun f hf => hrecords (.fact f) (mem_append_right _ (mem_map_of_mem hf))) h)
  | performances =>
    cases h
    exact s.writes_mergePerformances (fun p hp => hrecords (.performance p) (mem_map_of_mem hp)) source
  | dialogues ds w =>
    cases h
    have hds : Writes seen True noted s _ := s.writes_mergeDialogues (fun d hd => hrecords (.dialogue d) (mem_map_of_mem hd)) source
    obtain ⟨hnoted, hentries⟩ := hw ds w rfl
    exact (hds.trans (writes_updateWatermarks _ hentries)).tail (.note source w hnoted)

omit [CaseFolding] in
theorem mem_mergeTransactions {S : Snapshot} : ∀ tx ∈ mergeTransactions S, (∀ r ∈ tx.records, r ∈ S.records) ∧
    ∀ ds w, tx = .dialogues ds w → w = S.watermarks := by
  intro tx htx
  refine ⟨fun r hr => ?_, ?_⟩
  · rw [← records_mergeTransactions S]
    exact mem_flatMap.mpr ⟨tx, htx, hr⟩
  rintro ds w rfl
  unfold mergeTransactions at htx
  split at htx <;> split at htx <;> simp at htx <;> exact htx.2

theorem writes_mergeSnapshot {S : Snapshot} (hrecords : ∀ r ∈ S.records, seen r.sequence)
    (hw : ∀ entry ∈ S.watermarks.vals, seen entry.2) (hnoted : noted) (sourceOrigin : String) (now : Clocks) :
    Writes seen True noted s (s.mergeSnapshotFrom S sourceOrigin now).2 := by
  unfold mergeSnapshotFrom
  generalize (if sourceOrigin = "" then legacyOrigin else sourceOrigin) = source
  have htxs := mem_mergeTransactions (S := S)
  generalize mergeTransactions S = txs at htxs
  induction txs generalizing s with
  | nil => exact .refl
  | cons tx _ ih =>
    obtain ⟨htx, hsame⟩ := htxs tx mem_cons_self
    rw [runTransactions, mergeTransaction]
    cases hres : s.transact source now tx with
    | error => exact .refl
    | ok t =>
      have hhead : Writes seen True noted s t := by
        refine writes_transact (fun r hr => hrecords r (htx r hr)) ?_ hres
        rintro ds w rfl
        rw [hsame ds w rfl]
        exact ⟨hnoted, hw⟩
      exact hhead.trans (ih t (forall_mem_cons.mp htxs).2)

/-! ### Local writes -/

theorem writes_stampEach (d : DialogueRecord) (turns : List Turn) :
    Writes seen True noted s (s.stampEach d turns).2 ∧ (s.stampEach d turns).1.id = d.id ∧
      (turns ≠ [] → (s.stampEach d turns).1.sequence ≤ (s.stampEach d turns).2.watermarks.get (s.stampEach d turns).1.origin) := by
  induction turns generalizing s d with
  | nil => exact ⟨.refl, rfl, fun h => absurd rfl h⟩
  | cons turn turns ih =>
    obtain ⟨hwrites, hid, hq⟩ := ih (s.nextOriginSequence s.owner).2
      { d with origin := s.owner, sequence := (s.nextOriginSequence s.owner).1 }
    refine ⟨hwrites.head (.mint s.owner), hid, fun _ => ?_⟩
    cases turns with
    | nil => exact s.next_le s.owner
    | cons => exact hq (cons_ne_nil _ _)

theorem writes_record (e : Experience) (now : Instant) : Writes seen True noted s (s.record e now).2 := by
  have hfiled : ∀ id known, Writes seen True noted s { (s.nextOriginSequence s.owner).2 with
      nextID := id, experiences := _, fingerprints := known } := fun id known =>
    (s.writes_mint s.owner).tail <| .experience trivial { prepareExperience e now with
        id := incr s.nextID, origin := s.owner, sequence := (s.nextOriginSequence s.owner).1 }
      id known (filledTime_ne e.createdAt now) (s.next_le s.owner)
  unfold record
  simp only
  split
  · exact ((hfiled _ _).tail (.mint _)).tail <| .performance _ (next_le _ _)
  · exact hfiled _ _

theorem writes_call {c : Call} (hps : ∀ ps, c = .mergePerformances ps → ∀ p ∈ ps, seen p.sequence)
    (hS : ∀ S sourceOrigin now, c = .mergeSnapshotFrom S sourceOrigin now →
      (∀ r ∈ S.records, seen r.sequence) ∧ ∀ entry ∈ S.watermarks.vals, seen entry.2) (hnoted : c.Notes → noted) :
    Writes seen True noted s (c.onBolt s).2 := by
  cases c with
  | record e now => exact s.writes_record e now
  | putFact f now =>
    unfold Call.onBolt putFact
    simp only
    split
    · exact .refl
    rename_i hkey
    exact (s.writes_mint s.owner).tail <|
      .fact _ (.inl ⟨defaultScope_ne_empty f.scope, hkey, now.2⟩) (s.next_le s.owner)
  | getFact scope key =>
    unfold Call.onBolt getFact
    simp only
    cases hget : s.facts.get? (factKey (defaultScope scope) key) with
    | none => exact .refl
    | some f =>
      exact (s.writes_mint s.owner).tail <|
        .fact _ (.inr ⟨f, (Lib.Keyed.get?_eq_some.mp hget).1, rfl, rfl, rfl⟩) (s.next_le s.owner)
  | deleteFact scope key => exact .single (.forget trivial s.experiences _ (fun _ he => he) fun _ hf => mem_of_mem_filter hf)
  | saveDialogue d now =>
    unfold Call.onBolt saveDialogue
    simp only
    split
    · exact .refl
    · rename_i hid
      exact (s.writes_mint s.owner).tail <| .dialogue _ hid (s.next_le s.owner)
  | appendDialogueTurns id participants topic turns now =>
    unfold Call.onBolt appendDialogueTurns
    simp only
    split
    · exact .refl
    rename_i hid
    split
    · exact .refl
    rename_i hturns
    have hfiled := dialogueAfterTurns_id s.dialogues id participants topic turns now
    generalize dialogueAfterTurns (s.dialogues.get? id) id participants topic turns now = d at hfiled
    obtain ⟨hwrites, hid', hq⟩ := s.writes_stampEach d turns
    exact hwrites.tail <| .dialogue _ ((hid'.trans hfiled).trans_ne hid) (hq hturns)
  | mergePerformances ps => exact s.writes_mergePerformances (hps ps rfl) legacyOrigin
  | setPeerWatermarks peer w =>
    unfold Call.onBolt setPeerWatermarks
    simp only
    split
    · exact .refl
    · exact .single (.note peer w (hnoted trivial))
  | mergeSnapshotFrom S sourceOrigin now =>
    obtain ⟨hrecords, hw⟩ := hS S sourceOrigin now rfl
    exact s.writes_mergeSnapshot hrecords hw (hnoted trivial) sourceOrigin now

end BoltStore

end Maistr0.Memory
