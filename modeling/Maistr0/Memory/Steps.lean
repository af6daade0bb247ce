import Maistr0.Memory.Equivalence
import Maistr0.Memory.Knowledge

/-!
# The stores take merge steps

`MergeSnapshotFrom` of either store, when it succeeds, merges the records of the snapshot one after the
other and last takes over its watermarks.
-/

namespace Maistr0.Memory

open Go List Function Lib.Keyed Lib.Clock

variable {f : Fact} {now : Clocks}

def Knowledge.told (k : Knowledge) (source : String) (w : Watermarks) : Knowledge :=
  { k with
    watermarks := fun o => if o = "" then k.watermarks o else max (k.watermarks o) (w.get o)
    peers := Function.update k.peers source fun o => max (k.peers source o) (w.get o) }

theorem get_foldl_observe (w v : Watermarks) (o : String) :
    (v.vals.foldl (fun acc entry => if Unstamped entry.1 entry.2 then acc else acc.raise entry.1 entry.2) w).get o =
      if o = "" then w.get o else max (w.get o) (v.get o) := by
  have hjoin : v.vals.foldl (fun acc entry => if Unstamped entry.1 entry.2 then acc else acc.raise entry.1 entry.2) w =
      w.join (v.filter fun entry => ¬ Unstamped entry.1 entry.2) := by
    rw [join, vals_filter, foldl_filter]
    congr 1
    funext acc entry
    by_cases hstamp : Unstamped entry.1 entry.2
    · rw [if_pos hstamp, if_neg (by rwa [decide_eq_true_eq, not_not])]
    · rw [if_neg hstamp, if_pos (decide_eq_true hstamp)]
  rw [hjoin, get_join, get_filter]
  by_cases ho : o = ""
  · simp [ho, Unstamped]
  by_cases hzero : v.get o = 0
  · simp [hzero, ho]
  · simp [hzero, ho, Unstamped]

variable [CaseFolding]

/-! ### Filing a record -/

section Filing

variable {restamps : Bool} {source : String} {k : Knowledge}

omit [CaseFolding] in
theorem imported_filed (e : Experience) (now : Instant) (id : Nat) (o : String) (q : Nat) : Imported e
    { e with id, origin := o, sequence := q, createdAt := if e.createdAt = 0 then (now : Time) else e.createdAt } := by
  refine ⟨?_, fun hdated => ?_⟩
  · split
    · exact now.2
    · assumption
  · unfold experienceFingerprint
    simp only [if_neg hdated]

omit [CaseFolding] in
theorem Record.PassedOver.not_mergeable {r : Record} (hr : r.PassedOver) : ¬ r.Mergeable := by
  cases r with
  | performance => exact fun h => not_or.mpr h.2 hr
  | dialogue => exact fun h => h.2 hr
  | _ => exact hr.elim

theorem MergeStep.passed {r : Record} (hr : r.PassedOver) : MergeStep restamps source r k k := by
  have hobserved : observed k.watermarks r = k.watermarks := observed_eq_self fun h => absurd h hr.not_mergeable
  exact ⟨.passedOver hr, fun _ => hobserved.symm, fun _ o => (congrFun hobserved o).le⟩

theorem Merged.keptFact (hkey : f.key ≠ "") (now : Instant) (w : String → Nat)
    (h : (k.facts f.slot).any (factLoses (normalizeFact f now)) = true) :
    Merged restamps source (.fact f) k { k with watermarks := w } := by
  have hmerged : Merged restamps source (.fact f) k
      { k with facts := update k.facts f.slot (k.facts f.slot), watermarks := w } :=
    .fact now _ w hkey (by rw [FactRule, if_pos h])
  rwa [update_eq_self] at hmerged

theorem Merged.putFact {facts : Facts} (hkey : f.key ≠ "") (hk : k.facts = facts.get?) (now : Instant) (w : String → Nat)
    (h : ¬ (facts.get? f.slot).any (factLoses (normalizeFact f now)) = true) (o : String) (q : Nat) :
    Merged restamps source (.fact f) k { k with
        facts := (facts.put { ((facts.get? f.slot).map (carryFact (normalizeFact f now))).getD (normalizeFact f now) with
          origin := o, sequence := q }).get?
        watermarks := w } := by
  have hslot : Fact.mapKey { ((facts.get? f.slot).map (carryFact (normalizeFact f now))).getD (normalizeFact f now) with
      origin := o, sequence := q } = f.slot := by
    cases facts.get? f.slot <;> rfl
  rw [get?_put_eq_update, hslot, ← hk]
  exact .fact now _ w hkey (by rw [FactRule, hk, if_neg h]; exact ⟨o, q, rfl⟩)

theorem Merged.keptPerformance {p : Performance} (hp : ¬ (p.nodeID = "" ∨ p.model = "")) (w : String → Nat)
    (h : ((k.performances p.slot).any fun c => p.attempts ≤ c.attempts) = true) :
    Merged restamps source (.performance p) k { k with watermarks := w } := by
  have hmerged : Merged restamps source (.performance p) k
      { k with performances := update k.performances p.slot (k.performances p.slot), watermarks := w } :=
    .performance _ w hp (by rw [PerformanceRule, if_pos h])
  rwa [update_eq_self] at hmerged

theorem Merged.putPerformance {p : Performance} {performances : Performances} (hk : k.performances = performances.get?)
    (hp : ¬ (p.nodeID = "" ∨ p.model = "")) (w : String → Nat)
    (h : ¬ ((performances.get? p.slot).any fun c => p.attempts ≤ c.attempts) = true) (o : String) (q : Nat) :
    Merged restamps source (.performance p) k { k with
        performances := (performances.put
          { p with taskType := defaultTaskType p.taskType, origin := o, sequence := q }).get?
        watermarks := w } := by
  rw [get?_put_eq_update, ← hk]
  exact .performance _ w hp (by rw [PerformanceRule, hk, if_neg h]; exact ⟨o, q, rfl⟩)

theorem Merged.keptDialogue {d c : DialogueRecord} (hd : d.id ≠ "") (w : String → Nat) (hc : k.dialogues d.id = some c)
    (hold : Includes c d) (hstamp : StampSettled restamps source w c.origin c.sequence) :
    Merged restamps source (.dialogue d) k { k with watermarks := w } := by
  have hmerged : Merged restamps source (.dialogue d) k
      { k with dialogues := update k.dialogues d.id (k.dialogues d.id), watermarks := w } :=
    .dialogue _ w hd (by rw [hc]; exact .kept hold hstamp)
  rwa [update_eq_self] at hmerged

theorem Merged.putDialogue {d x : DialogueRecord} {dialogues : Dialogues} {current : Option DialogueRecord}
    (hk : k.dialogues = dialogues.get?) (hd : d.id ≠ "") (w : String → Nat) (hx : x.id = d.id)
    (hcurrent : dialogues.get? d.id = current)
    (hrule : DialogueRule (StampSettled restamps source k.watermarks) (StampSettled restamps source w) d current (some x)) :
    Merged restamps source (.dialogue d) k { k with dialogues := (dialogues.put x).get?, watermarks := w } := by
  rw [get?_put_eq_update, hx, ← hk]
  subst hcurrent
  exact .dialogue _ w hd (hk ▸ hrule)

end Filing

/-! ### The in-memory store -/

namespace MemoryStore

def knowledge (s : MemoryStore) : Knowledge where
  experiences := s.experiences
  known := s.fingerprints
  facts := s.facts.get?
  performances := s.performances.get?
  dialogues := s.dialogues.get?
  watermarks := s.watermarks.get
  peers peer := (s.peerWatermarksOf peer).get

inductive Touched (source : String) (r : Record) (s s' : MemoryStore) : Prop
  | passed (hr : r.PassedOver) (hs : s' = s)
  | seen (ho : s'.origin = s.origin) (hw : s'.watermarks = (s.observeRecordLocked r.origin r.sequence).watermarks)
      (hq : s'.sequences = (s.observeRecordLocked r.origin r.sequence).sequences)
  | minted (o : String) (hof : o = source ∨ o = s.origin) (ho : s'.origin = s.origin)
      (hw : s'.watermarks = ((s.observeRecordLocked r.origin r.sequence).nextSequenceLocked o).2.watermarks)
      (hq : s'.sequences = ((s.observeRecordLocked r.origin r.sequence).nextSequenceLocked o).2.sequences)

structure RecordMerged (source : String) (r : Record) (s s' : MemoryStore) : Prop where
  step : MergeStep false source r s.knowledge s'.knowledge
  counters : Touched source r s s'

variable {S : Snapshot} {source : String} {r : Record} {rs : List Record} {s s' : MemoryStore} {k : Nat} {o : String}

variable (s)

theorem observe_eq (hr : ¬ Unstamped r.origin r.sequence → r.Mergeable) :
    ∃ w q, s.observeRecordLocked r.origin r.sequence = { s with watermarks := w, sequences := q } ∧
      w.get = observed s.watermarks.get r := by
  unfold observeRecordLocked
  split
  · rename_i hun
    refine ⟨s.watermarks, s.sequences, rfl, ?_⟩
    funext o
    rw [observed, if_neg fun h => h.1.1 hun]
  rename_i hstamp
  refine ⟨_, _, rfl, ?_⟩
  funext o
  rw [observed, get_raise]
  simp only [hr hstamp, true_and]

theorem merged_experience (e : Experience) (source : String) (now : Instant) :
    RecordMerged source (.experience e) s (s.mergeExperienceFrom e source now) := by
  obtain ⟨w, q, hobs, hw⟩ := s.observe_eq (r := .experience e) fun h => ⟨h, trivial⟩
  have hlast : ∀ (x : Experience), ∀ y ∈ s.experiences ++ [x], y = x ∨ y ∈ s.experiences := by
    intro x y hy
    rcases mem_append.mp hy with hmem | hmem
    · exact .inr hmem
    · exact .inl (mem_singleton.mp hmem)
  unfold mergeExperienceFrom
  rw [show s.observeRecordLocked e.origin e.sequence = { s with watermarks := w, sequences := q } from hobs]
  simp only
  split
  · rename_i hold
    refine ⟨⟨.oldExperience w.get hold, fun _ => hw, nofun⟩, .seen rfl ?_ ?_⟩ <;> rw [hobs]
  rename_i hnew
  by_cases hstamp : Unstamped e.origin e.sequence
  · rw [if_pos hstamp]
    refine ⟨⟨.newExperience _ _ _ hnew (imported_filed e now _ _ _) (hlast _), fun h => absurd h hnew, nofun⟩,
      .minted source (.inl rfl) rfl ?_ ?_⟩ <;> rw [hobs]
  · rw [if_neg hstamp]
    refine ⟨⟨.newExperience _ _ _ hnew (imported_filed e now _ _ _) (hlast _), fun h => absurd h hnew, nofun⟩,
      .seen rfl ?_ ?_⟩ <;> rw [hobs]

theorem observe_observe (o : String) (n : Nat) :
    (s.observeRecordLocked o n).observeRecordLocked o n = s.observeRecordLocked o n := by
  unfold observeRecordLocked
  split
  · rfl
  · simp only [raise_raise]

theorem merged_fact (hkey : f.key ≠ "") (source : String) (now : Instant) :
    (s.mergeFactFrom f source now).1 = .ok () ∧ RecordMerged source (.fact f) s (s.mergeFactFrom f source now).2 := by
  obtain ⟨w, q, hobs, hw⟩ := s.observe_eq (r := .fact f) fun h => ⟨h, hkey⟩
  have hagain : observeRecordLocked { s with watermarks := w, sequences := q } (normalizeFact f now).origin
      (normalizeFact f now).sequence = { s with watermarks := w, sequences := q } := by
    have htwice := s.observe_observe f.origin f.sequence
    rwa [show s.observeRecordLocked f.origin f.sequence = { s with watermarks := w, sequences := q } from hobs] at htwice
  unfold mergeFactFrom
  rw [if_neg hkey]
  simp only
  rw [show s.observeRecordLocked (normalizeFact f now).origin (normalizeFact f now).sequence =
    { s with watermarks := w, sequences := q } from hobs]
  split
  · rename_i hloses
    refine ⟨rfl, ⟨.keptFact hkey now w.get hloses, fun _ => hw, (absurd · Bool.false_ne_true)⟩, .seen rfl ?_ ?_⟩ <;> rw [hobs]
  rename_i hwins
  have hnew : ¬ Absorbed false source (.fact f) s.knowledge := fun h => hwins (any_factLoses_iff.mpr (h now))
  by_cases hstamp : Unstamped f.origin f.sequence
  · rw [if_pos (by rw [(stamp_carry _ _).1, (stamp_carry _ _).2]; exact hstamp)]
    refine ⟨rfl, ⟨.putFact hkey rfl now _ hwins _ _, fun h => absurd h hnew, (absurd · Bool.false_ne_true)⟩,
      .minted source (.inl rfl) rfl ?_ ?_⟩ <;> rw [hobs]
  · rw [if_neg (by rw [(stamp_carry _ _).1, (stamp_carry _ _).2]; exact hstamp), (stamp_carry _ _).1,
      (stamp_carry _ _).2, hagain]
    refine ⟨rfl, ⟨.putFact hkey rfl now _ hwins _ _, fun h => absurd h hnew, (absurd · Bool.false_ne_true)⟩, .seen rfl ?_ ?_⟩ <;> rw [hobs]

theorem merged_performance (p : Performance) (source : String) :
    RecordMerged source (.performance p) s (s.mergePerformance p source) := by
  unfold mergePerformance
  by_cases hp : p.nodeID = "" ∨ p.model = ""
  · rw [if_pos hp]
    exact ⟨.passed hp, .passed hp rfl⟩
  rw [if_neg hp]
  obtain ⟨w, q, hobs, hw⟩ := s.observe_eq (r := .performance p) fun h => ⟨h, not_or.mp hp⟩
  have hcounters : s.observeRecordLocked p.origin p.sequence = { s with watermarks := w, sequences := q } := hobs
  simp only
  split
  · rename_i hloses
    rw [hcounters]
    refine ⟨⟨.keptPerformance hp w.get hloses, fun _ => hw, (absurd · Bool.false_ne_true)⟩, .seen rfl ?_ ?_⟩ <;> rw [hobs]
  rename_i hwins
  have hnew : ¬ Absorbed false source (.performance p) s.knowledge :=
    fun h => hwins (any_attempts_iff.mpr (h.resolve_left hp))
  by_cases hstamp : Unstamped p.origin p.sequence
  · have hsame : s.observeRecordLocked p.origin p.sequence = s := if_pos hstamp
    rw [if_pos hstamp]
    refine ⟨⟨.putPerformance rfl hp _ hwins _ _, fun h => absurd h hnew, (absurd · Bool.false_ne_true)⟩, .minted source (.inl rfl) rfl ?_ ?_⟩
    · rw [show s.observeRecordLocked (Record.performance p).origin (Record.performance p).sequence = s from hsame]
    · rw [show s.observeRecordLocked (Record.performance p).origin (Record.performance p).sequence = s from hsame]
  · rw [if_neg hstamp, hcounters]
    refine ⟨⟨.putPerformance rfl hp _ hwins _ _, fun h => absurd h hnew, (absurd · Bool.false_ne_true)⟩, .seen rfl ?_ ?_⟩ <;> rw [hobs]

theorem merged_dialogue (d : DialogueRecord) (source : String) :
    RecordMerged source (.dialogue d) s (s.mergeDialogueFrom d source) := by
  have hany : ∀ (w : String → Nat) (o : String) (n : Nat), StampSettled false source w o n := fun _ _ _ => (absurd · Bool.false_ne_true)
  unfold mergeDialogueFrom
  by_cases hd : d.id = ""
  · rw [if_pos hd]
    exact ⟨.passed hd, .passed hd rfl⟩
  obtain ⟨w, q, hobs, hw⟩ := s.observe_eq (r := .dialogue d) fun h => ⟨h, hd⟩
  rw [if_neg hd, show s.observeRecordLocked d.origin d.sequence = { s with watermarks := w, sequences := q } from hobs]
  simp only
  cases hget : s.dialogues.get? d.id with
  | none =>
    have hnew : ¬ Absorbed false source (.dialogue d) s.knowledge := by
      intro h
      obtain ⟨c, hc, -⟩ := h.resolve_left hd
      cases hget.symm.trans hc
    simp only
    split
    · refine ⟨⟨.putDialogue rfl hd _ rfl hget (.filed _ _ (hany _ _ _)), fun h => absurd h hnew, (absurd · Bool.false_ne_true)⟩,
        .minted source (.inl rfl) rfl ?_ ?_⟩ <;> rw [hobs]
    · refine ⟨⟨.putDialogue rfl hd _ rfl hget (.filed d.origin d.sequence (hany _ _ _)), fun h => absurd h hnew,
        (absurd · Bool.false_ne_true)⟩, .seen rfl ?_ ?_⟩ <;> rw [hobs]
  | some c =>
    have hid : c.id = d.id := keyOf_get? hget
    simp only
    split
    · rename_i hchanged
      have hnew : ¬ Includes c d := by
        intro h
        rw [mergeTranscript_unchanged_iff.mpr h] at hchanged
        cases hchanged
      have horigin : (if Unstamped d.origin d.sequence then source else s.origin) = source ∨
          (if Unstamped d.origin d.sequence then source else s.origin) = s.origin := by
        split
        · exact .inl rfl
        · exact .inr rfl
      refine ⟨⟨.putDialogue rfl hd _ hid hget (.changed _ _ hnew (hany _ _ _)), fun h => ?_, (absurd · Bool.false_ne_true)⟩,
        .minted _ horigin rfl ?_ ?_⟩
      · obtain ⟨_, hx, hin, -⟩ := h.resolve_left hd
        cases hget.symm.trans hx
        exact absurd hin hnew
      · rw [hobs]
      · rw [hobs]
    · rename_i hchanged
      have hold : Includes c d := mergeTranscript_unchanged_iff.mp (Bool.eq_false_of_not_eq_true hchanged)
      refine ⟨⟨.keptDialogue hd w.get hget hold (hany _ _ _), fun _ => hw, (absurd · Bool.false_ne_true)⟩, .seen rfl ?_ ?_⟩ <;> rw [hobs]

/-! A merge as a run of such steps. -/

theorem delivers_performances (ps : List Performance) (source : String) :
    Lib.Deliver (RecordMerged source) (ps.map .performance) s (s.mergePerformancesFrom ps source) := by
  induction ps generalizing s with
  | nil => exact .nil s
  | cons p _ ih => exact .cons (s.merged_performance p source) (ih _)

variable {s}

theorem delivers_mergeSection {now : Instant} {sec : MergeSection} (hsec : ∀ w, sec ≠ .watermarks w)
    (h : s.mergeSection source now sec = (.ok (), s')) :
    Lib.Deliver (RecordMerged source) sec.records s s' := by
  have hs' := congrArg Prod.snd h
  cases sec with
  | experience e =>
    subst hs'
    exact .cons (s.merged_experience e source now) (.nil _)
  | fact f =>
    have hkey : f.key ≠ "" := by
      intro hempty
      simp [mergeSection, mergeFactFrom, hempty] at h
    subst hs'
    exact .cons (s.merged_fact hkey source now).2 (.nil _)
  | performances ps =>
    subst hs'
    exact s.delivers_performances ps source
  | dialogue d =>
    subst hs'
    exact .cons (s.merged_dialogue d source) (.nil _)
  | watermarks w => exact absurd rfl (hsec w)

theorem delivers_runSections {secs : List MergeSection}
    (hsecs : ∀ sec ∈ secs, ∀ w, sec ≠ .watermarks w) (h : s.runSections source secs now = (.ok (), s')) :
    Lib.Deliver (RecordMerged source) (secs.flatMap MergeSection.records) s s' := by
  induction secs generalizing s now with
  | nil =>
    cases h
    exact .nil _
  | cons sec _ ih =>
    rw [runSections] at h
    cases hres : s.mergeSection source (now 0) sec with
    | mk result =>
      rw [hres] at h
      cases result with
      | error => cases h
      | ok =>
        rw [flatMap_cons]
        exact (delivers_mergeSection (hsecs sec mem_cons_self) hres).append (ih (forall_mem_cons.mp hsecs).2 h)

theorem knowledge_observeWatermarks (s : MemoryStore) (w : Watermarks) (source : String) :
    (s.observeWatermarks w source).knowledge = s.knowledge.told source w := by
  obtain ⟨q, hq⟩ : ∃ q, w.vals.foldl (fun s entry => s.observeRecordLocked entry.1 entry.2) s = { s with
        watermarks := w.vals.foldl (fun acc entry =>
          if Unstamped entry.1 entry.2 then acc else acc.raise entry.1 entry.2) s.watermarks
        sequences := q } := by
    refine foldl_rel (r := fun t v => ∃ q, t = { s with watermarks := v, sequences := q }) ⟨s.sequences, rfl⟩ ?_
    rintro _ - _ _ ⟨_, rfl⟩
    rw [observeRecordLocked]
    split <;> exact ⟨_, rfl⟩
  unfold observeWatermarks
  rw [hq]
  unfold knowledge Knowledge.told
  simp only [Knowledge.mk.injEq, true_and]
  refine ⟨funext fun o => get_foldl_observe s.watermarks w o, ?_⟩
  funext peer o
  refine (get_notePeer s source w peer o).trans ?_
  rw [update_apply]
  by_cases hpeer : peer = source
  · rw [if_pos hpeer.symm, if_pos hpeer, hpeer]
  · rw [if_neg (Ne.symm hpeer), if_neg hpeer]

omit [CaseFolding] in
theorem mergeSections_eq (S : Snapshot) : ∃ body, mergeSections S = body ++ [.watermarks S.watermarks] ∧
    (∀ sec ∈ body, ∀ w, sec ≠ .watermarks w) ∧ body.flatMap MergeSection.records = S.records := by
  refine ⟨_, rfl, fun sec hsec w => ?_, ?_⟩
  · rintro rfl
    simp at hsec
  · simp [Snapshot.records, MergeSection.records, flatMap_map, ← map_eq_flatMap]

theorem delivers_mergeSnapshot {sourceOrigin : String} (h : s.mergeSnapshotFrom S sourceOrigin now = (.ok (), s')) :
    ∃ t, Lib.Deliver (RecordMerged (sourceOrLegacy sourceOrigin)) S.records s t ∧
      s' = t.observeWatermarks S.watermarks (sourceOrLegacy sourceOrigin) := by
  obtain ⟨_, hsections, hbody, hrecords⟩ := mergeSections_eq S
  unfold mergeSnapshotFrom at h
  rw [hsections] at h
  have hok := runSections_ok_of_append (congrArg Prod.fst h)
  rw [runSections_append_ok hok] at h
  refine ⟨_, ?_, (congrArg Prod.snd h).symm⟩
  have hrun := delivers_runSections hbody (Prod.ext hok rfl)
  rwa [hrecords] at hrun

theorem mergeSnapshotFrom_ok (s : MemoryStore) (hkeys : ∀ f ∈ S.facts, f.key ≠ "") (sourceOrigin : String)
    (now : Clocks) : (s.mergeSnapshotFrom S sourceOrigin now).1 = .ok () := by
  have hsections : ∀ (secs : List MergeSection) (s : MemoryStore) (now : Clocks),
      (∀ f, .fact f ∈ secs → f.key ≠ "") → (s.runSections (sourceOrLegacy sourceOrigin) secs now).1 = .ok () := by
    intro secs
    induction secs with
    | nil => intro s now _; rfl
    | cons sec _ ih =>
      intro s now h
      have hsec : (s.mergeSection (sourceOrLegacy sourceOrigin) (now 0) sec).1 = .ok () := by
        cases sec with
        | fact f => exact (s.merged_fact (h f mem_cons_self) _ _).1
        | _ => rfl
      rw [runSections]
      cases hres : s.mergeSection (sourceOrLegacy sourceOrigin) (now 0) sec with
      | mk _ t =>
        rw [hres] at hsec
        cases hsec
        exact ih t _ fun f hf => h f (mem_cons_of_mem _ hf)
  refine hsections _ s now fun f hf => hkeys f ?_
  simpa [mergeSections] using hf

/-! Counters that do not wrap around. -/

/-- The counters the merge can assign from stay clear of the end for `k` more records, whatever is observed
of the records still to come. -/
def Room (k : Nat) (source : String) (rs : List Record) (s : MemoryStore) : Prop :=
  ∀ o, o = source ∨ o = s.origin →
    max (s.sequences.get o) (s.watermarks.get o) + k < 2 ^ 64 ∧ ∀ r ∈ rs, r.origin = o → r.sequence + k < 2 ^ 64

theorem get_observe (s : MemoryStore) (o : String) (n : Nat) (o' : String) :
    (s.observeRecordLocked o n).watermarks.get o' ≤ max (s.watermarks.get o') (if o = o' then n else 0) ∧
      (s.observeRecordLocked o n).sequences.get o' ≤ max (s.sequences.get o') (if o = o' then n else 0) := by
  unfold observeRecordLocked
  split
  · exact ⟨le_max_left _ _, le_max_left _ _⟩
  simp only [get_raise]
  split
  · exact ⟨le_rfl, le_rfl⟩
  · exact ⟨le_max_left _ _, le_max_left _ _⟩

theorem observed_le_observe (s : MemoryStore) (r : Record) (o : String) :
    observed s.watermarks.get r o ≤ (s.observeRecordLocked r.origin r.sequence).watermarks.get o := by
  by_cases hr : r.Mergeable
  · obtain ⟨w, q, hobs, hw⟩ := s.observe_eq fun _ => hr
    rw [hobs, ← hw]
  obtain ⟨_, _, hobs, hle, -⟩ := s.observeRecordLocked_eq r.origin r.sequence
  rw [hobs, observed, if_neg fun h => hr h.1]
  exact hle o

theorem Room.observe (h : s.Room k source (r :: rs)) :
    (s.observeRecordLocked r.origin r.sequence).Room k source rs := by
  obtain ⟨_, _, hobs, -⟩ := s.observeRecordLocked_eq r.origin r.sequence
  intro o ho
  obtain ⟨hw, hq⟩ := s.get_observe r.origin r.sequence o
  rw [hobs] at ho
  obtain ⟨htop, hcoming⟩ := h o ho
  refine ⟨?_, (forall_mem_cons.mp hcoming).2⟩
  by_cases horigin : r.origin = o
  · have := hcoming r mem_cons_self horigin
    simp only [if_pos horigin] at hw hq
    omega
  · simp only [if_neg horigin] at hw hq
    omega

theorem Room.mono {k' : Nat} {rs' : List Record} (h : s.Room k source rs) (hk : k' ≤ k) (hrs : ∀ r ∈ rs', r ∈ rs) :
    s.Room k' source rs' := by
  intro o ho
  obtain ⟨htop, hcoming⟩ := h o ho
  refine ⟨by omega, fun r hr hro => ?_⟩
  have := hcoming r (hrs r hr) hro
  omega

theorem Room.mint (h : s.Room (k + 1) source rs) (ho : o = source ∨ o = s.origin) :
    (∀ o', s.watermarks.get o' ≤ (s.nextSequenceLocked o).2.watermarks.get o') ∧ (s.nextSequenceLocked o).2.Room k source rs := by
  have htop := (h o ho).1
  have hincr : incr (max (s.sequences.get o) (s.watermarks.get o)) = max (s.sequences.get o) (s.watermarks.get o) + 1 :=
    incr_of_lt (by omega)
  refine ⟨fun o' => ?_, fun o' ho' => ⟨?_, fun r hr hro => ?_⟩⟩
  · simp only [nextSequenceLocked, hincr, get_set]
    split
    · rename_i heq
      subst heq
      omega
    · exact le_rfl
  · have := (h o' ho').1
    simp only [nextSequenceLocked, hincr, get_set]
    split <;> omega
  · have := (h o' ho').2 r hr hro
    omega

theorem Touched.rising (h : Touched source r s s') (hroom : s.Room (k + 1) source (r :: rs)) :
    (∀ o, observed s.watermarks.get r o ≤ s'.watermarks.get o) ∧ s'.Room k source rs := by
  cases h with
  | passed hr hs =>
    subst hs
    refine ⟨fun o => ?_, hroom.mono (Nat.le_succ k) fun x hx => mem_cons_of_mem _ hx⟩
    rw [observed, if_neg fun h => hr.not_mergeable h.1]
  | seen ho hw hq =>
    refine ⟨fun o => hw ▸ s.observed_le_observe r o, ?_⟩
    have hnext := hroom.observe.mono (Nat.le_succ k) fun _ hx => hx
    unfold Room at hnext ⊢
    rw [hw, hq, ho]
    obtain ⟨w, q, hobs, -⟩ := s.observeRecordLocked_eq r.origin r.sequence
    rw [hobs] at hnext ⊢
    exact hnext
  | minted o hof ho hw hq =>
    obtain ⟨_, _, hobs, -⟩ := s.observeRecordLocked_eq r.origin r.sequence
    have horigin : (s.observeRecordLocked r.origin r.sequence).origin = s.origin := by rw [hobs]
    obtain ⟨hle, hnext⟩ := hroom.observe.mint (o := o) (horigin ▸ hof)
    refine ⟨fun o' => hw ▸ (s.observed_le_observe r o').trans (hle o'), ?_⟩
    unfold Room at hnext ⊢
    rw [hw, hq, ho]
    rw [hobs] at hnext ⊢
    exact hnext

theorem rising_run {t : MemoryStore} (h : Lib.Deliver (RecordMerged source) rs s t)
    (hroom : s.Room rs.length source rs) :
    Lib.Deliver (fun r k k' => MergeStep false source r k k' ∧ ∀ o, observed k.watermarks r o ≤ k'.watermarks o) rs
      s.knowledge t.knowledge := by
  induction h with
  | nil => exact .nil _
  | cons hr _ ih =>
    obtain ⟨hrising, hrest⟩ := hr.counters.rising hroom
    exact .cons ⟨hr.step, hrising⟩ (ih hrest)

end MemoryStore

/-! ### The durable store -/

namespace BoltStore

def knowledge (s : BoltStore) : Knowledge where
  experiences := s.experiences.vals
  known := s.fingerprints
  facts := s.facts.get?
  performances := s.performances.get?
  dialogues := s.dialogues.get?
  watermarks := s.watermarks.get
  peers peer := (((s.peerWatermarks.get? peer).map Prod.snd).getD ∅).get

/-- Of the two counters of an origin the watermark is the larger, and it is a `uint64`. -/
structure Counted (s : BoltStore) : Prop where
  sequences : ∀ o, s.sequences.get o ≤ s.watermarks.get o
  bounded : ∀ o, s.watermarks.get o < 2 ^ 64

structure RecordMerged (source : String) (r : Record) (s s' : BoltStore) : Prop where
  step : MergeStep true source r s.knowledge s'.knowledge
  counted : s'.Counted

variable {s : BoltStore} {source : String}

theorem Counted.next_eq (h : s.Counted) (o : String) : s.nextOriginSequence o = (incr (s.watermarks.get o), { s with
        sequences := s.sequences.set o (incr (s.watermarks.get o))
        watermarks := s.watermarks.raise o (incr (s.watermarks.get o)) }) := by
  simp only [nextOriginSequence, saveWatermark, max_eq_right (h.sequences o)]

omit [CaseFolding] in
theorem incr_eq_zero {n : Nat} (hn : n < 2 ^ 64) : incr n = 0 ↔ n = 2 ^ 64 - 1 := by
  unfold incr
  split <;> omega

/-- Assigning a sequence never lowers a watermark. A counter that has come to its end gives `0` and moves none. -/
theorem Counted.mint (h : s.Counted) (o : String) :
    ∃ w q, (s.nextOriginSequence o).2 = { s with watermarks := w, sequences := q } ∧
      Counted { s with watermarks := w, sequences := q } ∧ (∀ o', s.watermarks.get o' ≤ w.get o') ∧
      ((s.nextOriginSequence o).1 = 0 → w = s.watermarks) := by
  rw [h.next_eq o]
  refine ⟨_, _, rfl, ⟨fun o' => ?_, fun o' => ?_⟩, fun o' => ?_, fun hzero => ?_⟩
  · have := h.sequences o'
    simp only [get_set, get_raise]
    split <;> omega
  · have := h.bounded o'
    have := h.bounded o
    simp only [get_raise, incr]
    split
    · split <;> omega
    · assumption
  · simp only [get_raise]
    split <;> omega
  · simp only at hzero
    simp only [hzero, raise, Nat.not_lt_zero, if_false]

theorem Counted.observe (h : s.Counted) {r : Record} (hr : ¬ Unstamped r.origin r.sequence → r.Mergeable)
    (hbound : r.sequence < 2 ^ 64) :
    ∃ w, s.updateRecordWatermark r.origin r.sequence = { s with watermarks := w } ∧
      w.get = observed s.watermarks.get r ∧ (∀ o, observed s.watermarks.get r o ≤ w.get o) ∧
      Counted { s with watermarks := w } := by
  unfold updateRecordWatermark
  split
  · rename_i hun
    have hsame : s.watermarks.get = observed s.watermarks.get r := by
      funext o
      rw [observed, if_neg fun h => h.1.1 hun]
    exact ⟨s.watermarks, rfl, hsame, fun o => (congrFun hsame o).ge, h⟩
  · rename_i hstamp
    have hraised : (s.watermarks.raise r.origin r.sequence).get = observed s.watermarks.get r := by
      funext o
      rw [observed, get_raise]
      simp only [hr hstamp, true_and]
    refine ⟨_, rfl, hraised, fun o => (congrFun hraised o).ge, fun o => ?_, fun o => ?_⟩
    · have := h.sequences o
      simp only [get_raise]
      split <;> omega
    · have := h.bounded o
      simp only [get_raise]
      split <;> omega

theorem Counted.settled_mint (h : s.Counted) (hsource : source ≠ "") {w : Watermarks}
    (hw : ∀ o, s.watermarks.get o ≤ w.get o) :
    StampSettled true source w.get source (s.nextOriginSequence source).1 := by
  intro _
  rw [h.next_eq source]
  by_cases hzero : incr (s.watermarks.get source) = 0
  · refine .inr ⟨rfl, hzero, ?_⟩
    rw [← (incr_eq_zero (h.bounded source)).mp hzero]
    exact hw source
  · exact .inl (not_or.mpr ⟨hsource, hzero⟩)

theorem merged_experience (h : s.Counted) (e : Experience) (hbound : e.sequence < 2 ^ 64) (source : String)
    (now : Instant) : RecordMerged source (.experience e) s (s.mergeExperienceTx e source now) := by
  obtain ⟨w, hobs, hw, hrises, hcounted⟩ := h.observe (r := .experience e) (fun h => ⟨h, trivial⟩) hbound
  have hput : ∀ (x : Experience), ∀ y ∈ (s.experiences.put x).vals, y = x ∨ y ∈ s.experiences.vals := by
    intro x y hy
    rw [vals_put, mem_cons, mem_filter] at hy
    exact hy.imp_right And.left
  unfold mergeExperienceTx
  rw [show s.updateRecordWatermark e.origin e.sequence = { s with watermarks := w } from hobs]
  simp only
  split
  · rename_i hold
    exact ⟨⟨.oldExperience w.get hold, fun _ => hw, fun _ => hrises⟩, hcounted⟩
  rename_i hnew
  by_cases hstamp : Unstamped e.origin e.sequence
  · obtain ⟨w', _, hmint, hcounted', hle, -⟩ := hcounted.mint source
    rw [if_pos hstamp, hmint]
    exact ⟨⟨.newExperience _ _ w'.get hnew (imported_filed e now _ _ _) (hput _), fun h => absurd h hnew, fun _ o =>
      (hrises o).trans (hle o)⟩, hcounted'.sequences, hcounted'.bounded⟩
  · rw [if_neg hstamp]
    exact ⟨⟨.newExperience _ _ w.get hnew (imported_filed e now _ _ _) (hput _), fun h => absurd h hnew, fun _ => hrises⟩,
      hcounted.sequences, hcounted.bounded⟩

theorem observe_observe (s : BoltStore) (o : String) (n : Nat) :
    (s.updateRecordWatermark o n).updateRecordWatermark o n = s.updateRecordWatermark o n := by
  unfold updateRecordWatermark
  split
  · rfl
  · simp only [saveWatermark, raise_raise]

theorem merged_fact (h : s.Counted) (hkey : f.key ≠ "") (hbound : f.sequence < 2 ^ 64) (source : String)
    (now : Instant) : ∃ s', s.mergeFactTx f source now = .ok s' ∧ RecordMerged source (.fact f) s s' := by
  obtain ⟨w, hobs, hw, hrises, hcounted⟩ := h.observe (r := .fact f) (fun h => ⟨h, hkey⟩) hbound
  have hagain : updateRecordWatermark { s with watermarks := w } (normalizeFact f now).origin
      (normalizeFact f now).sequence = { s with watermarks := w } := by
    have htwice := s.observe_observe f.origin f.sequence
    rwa [show s.updateRecordWatermark f.origin f.sequence = { s with watermarks := w } from hobs] at htwice
  unfold mergeFactTx
  rw [if_neg hkey]
  simp only
  rw [show s.updateRecordWatermark (normalizeFact f now).origin (normalizeFact f now).sequence =
    { s with watermarks := w } from hobs]
  split
  · rename_i hloses
    exact ⟨_, rfl, ⟨.keptFact hkey now w.get hloses, fun _ => hw, fun _ => hrises⟩, hcounted⟩
  rename_i hwins
  have hnew : ¬ Absorbed true source (.fact f) s.knowledge := fun h => hwins (any_factLoses_iff.mpr (h now))
  by_cases hstamp : Unstamped f.origin f.sequence
  · rw [if_pos (by rw [(stamp_carry _ _).1, (stamp_carry _ _).2]; exact hstamp)]
    obtain ⟨w', _, hmint, hcounted', hle, -⟩ := hcounted.mint source
    rw [hmint]
    exact ⟨_, rfl, ⟨.putFact hkey rfl now w'.get hwins _ _, fun h => absurd h hnew, fun _ o => (hrises o).trans (hle o)⟩,
      hcounted'.sequences, hcounted'.bounded⟩
  · rw [if_neg (by rw [(stamp_carry _ _).1, (stamp_carry _ _).2]; exact hstamp), (stamp_carry _ _).1,
      (stamp_carry _ _).2, hagain]
    exact ⟨_, rfl, ⟨.putFact hkey rfl now w.get hwins _ _, fun h => absurd h hnew, fun _ => hrises⟩,
      hcounted.sequences, hcounted.bounded⟩

theorem merged_performance (h : s.Counted) (p : Performance) (hbound : p.sequence < 2 ^ 64) (source : String) :
    RecordMerged source (.performance p) s (s.mergePerformance p source) := by
  unfold mergePerformance
  by_cases hp : p.nodeID = "" ∨ p.model = ""
  · rw [if_pos hp]
    exact ⟨.passed hp, h⟩
  rw [if_neg hp]
  obtain ⟨w, hobs, hw, hrises, hcounted⟩ := h.observe (r := .performance p) (fun h => ⟨h, not_or.mp hp⟩) hbound
  have hcounters : s.updateRecordWatermark p.origin p.sequence = { s with watermarks := w } := hobs
  simp only
  split
  · rename_i hloses
    rw [hcounters]
    exact ⟨⟨.keptPerformance hp w.get hloses, fun _ => hw, fun _ => hrises⟩, hcounted⟩
  rename_i hwins
  have hnew : ¬ Absorbed true source (.performance p) s.knowledge :=
    fun h => hwins (any_attempts_iff.mpr (h.resolve_left hp))
  by_cases hstamp : Unstamped p.origin p.sequence
  · rw [if_pos hstamp]
    have hobserved : observed s.knowledge.watermarks (.performance p) = s.knowledge.watermarks :=
      observed_eq_self fun h => absurd hstamp h.1
    obtain ⟨w', _, hmint, hcounted', hle, -⟩ := h.mint source
    rw [hmint]
    refine ⟨⟨.putPerformance rfl hp w'.get hwins _ _, fun h => absurd h hnew, fun _ o => ?_⟩,
      hcounted'.sequences, hcounted'.bounded⟩
    exact (congrFun hobserved o).le.trans (hle o)
  · rw [if_neg hstamp, hcounters]
    exact ⟨⟨.putPerformance rfl hp w.get hwins _ _, fun h => absurd h hnew, fun _ => hrises⟩,
      hcounted.sequences, hcounted.bounded⟩

theorem merged_dialogue (h : s.Counted) (d : DialogueRecord) (hbound : d.sequence < 2 ^ 64)
    (hsource : source ≠ "") : RecordMerged source (.dialogue d) s (s.mergeDialogueTx d source) := by
  unfold mergeDialogueTx
  by_cases hd : d.id = ""
  · rw [if_pos hd]
    exact ⟨.passed hd, h⟩
  obtain ⟨w, hobs, hw, hrises, hcounted⟩ := h.observe (r := .dialogue d) (fun h => ⟨h, hd⟩) hbound
  rw [if_neg hd, show s.updateRecordWatermark d.origin d.sequence = { s with watermarks := w } from hobs]
  cases hget : s.dialogues.get? d.id with
  | none =>
    have hnew : ¬ Absorbed true source (.dialogue d) s.knowledge := by
      intro h
      obtain ⟨c, hc, -⟩ := h.resolve_left hd
      cases hget.symm.trans hc
    simp only [hget, if_true]
    by_cases hstamp : Unstamped d.origin d.sequence
    · obtain ⟨w', q, hmint, hcounted', hle, -⟩ := hcounted.mint source
      rw [if_pos hstamp, hmint]
      exact ⟨⟨.putDialogue rfl hd w'.get rfl hget (.filed _ _ (hcounted.settled_mint hsource hle)),
        fun h => absurd h hnew, fun _ o => (hrises o).trans (hle o)⟩, hcounted'.sequences, hcounted'.bounded⟩
    · rw [if_neg hstamp]
      exact ⟨⟨.putDialogue rfl hd w.get rfl hget (.filed d.origin d.sequence fun _ => .inl hstamp),
        fun h => absurd h hnew, fun _ => hrises⟩, hcounted.sequences, hcounted.bounded⟩
  | some c =>
    have hid : c.id = d.id := keyOf_get? hget
    simp only [hget]
    cases hchanged : (mergeTranscript c d).2 with
    | true =>
      have hnew : ¬ Includes c d := by
        intro h
        rw [mergeTranscript_unchanged_iff.mpr h] at hchanged
        cases hchanged
      have hquiet : ¬ Absorbed true source (.dialogue d) s.knowledge := by
        intro h
        obtain ⟨x, hx, hin, -⟩ := h.resolve_left hd
        cases hget.symm.trans hx
        exact hnew hin
      obtain ⟨w', q, hmint, hcounted', hle, -⟩ := hcounted.mint s.owner
      simp only [if_true, hmint]
      split
      · obtain ⟨w'', _, hmint', hcounted'', hle', -⟩ := hcounted'.mint source
        rw [hmint']
        exact ⟨⟨.putDialogue rfl hd w''.get hid hget (.changed _ _ hnew (hcounted'.settled_mint hsource hle')),
          fun h => absurd h hquiet, fun _ o => (hrises o).trans ((hle o).trans (hle' o))⟩,
          hcounted''.sequences, hcounted''.bounded⟩
      · rename_i hstamp
        exact ⟨⟨.putDialogue rfl hd w'.get hid hget (.changed _ _ hnew fun _ => .inl hstamp),
          fun h => absurd h hquiet, fun _ o => (hrises o).trans (hle o)⟩, hcounted'.sequences, hcounted'.bounded⟩
    | false =>
      have hold : Includes c d := mergeTranscript_unchanged_iff.mp hchanged
      simp only [mergeTranscript_unchanged hchanged, Bool.false_eq_true, if_false]
      split
      · rename_i hstamp
        obtain ⟨w', _, hmint, hcounted', hle, hzero⟩ := hcounted.mint source
        rw [hmint]
        by_cases hsettled : c.origin = source ∧ c.sequence = 0 ∧ 2 ^ 64 - 1 ≤ s.watermarks.get source
        · -- the counter of the source has come to its end, and gives the dialogue the stamp it has
          obtain ⟨horigin, hsequence, hend⟩ := hsettled
          have hlast : w.get source = 2 ^ 64 - 1 := by
            have hge := hend.trans ((le_observed s.knowledge.watermarks _ source).trans (hrises source))
            have hlt := hcounted.bounded source
            change w.get source < 2 ^ 64 at hlt
            omega
          have hnext : (nextOriginSequence { s with watermarks := w } source).1 = 0 := by
            rw [hcounted.next_eq source]
            exact (incr_eq_zero (hcounted.bounded source)).mpr hlast
          have hsame : { c with origin := source, sequence := 0 } = c := by
            rw [← horigin, ← hsequence]
          obtain rfl : w' = w := hzero hnext
          rw [hnext, hsame]
          refine ⟨⟨.putDialogue rfl hd w'.get hid hget (.kept hold fun _ => .inr ⟨horigin, hsequence, hlast.ge⟩),
            fun _ => hw, fun _ => hrises⟩, hcounted'.sequences, hcounted'.bounded⟩
        · have hunsettled : ¬ StampSettled true source s.knowledge.watermarks c.origin c.sequence :=
            fun h => (h rfl).elim (absurd hstamp) hsettled
          refine ⟨⟨.putDialogue rfl hd w'.get hid hget
            (.restamped _ _ hold hunsettled (hcounted.settled_mint hsource hle)), fun h => ?_,
            fun _ o => (hrises o).trans (hle o)⟩, hcounted'.sequences, hcounted'.bounded⟩
          obtain ⟨_, hx, -, hset⟩ := h.resolve_left hd
          cases hget.symm.trans hx
          exact absurd hset hunsettled
      · rename_i hstamp
        exact ⟨⟨.keptDialogue hd w.get hget hold fun _ => .inl hstamp, fun _ => hw, fun _ => hrises⟩, hcounted⟩

/-! A merge as a run of such steps. -/

theorem delivers_experiences (h : s.Counted) {es : List Experience} (hes : ∀ e ∈ es, e.sequence < 2 ^ 64)
    (source : String) (now : Clocks) :
    Lib.Deliver (RecordMerged source) (es.map .experience) s (s.mergeExperiencesTx source es now) ∧
      (s.mergeExperiencesTx source es now).Counted := by
  induction es generalizing s now with
  | nil => exact ⟨.nil s, h⟩
  | cons e _ ih =>
    have hhead := merged_experience h e (hes e mem_cons_self) source (now 0)
    obtain ⟨hrest, hcounted⟩ := ih hhead.counted (forall_mem_cons.mp hes).2 fun n => now (n + 1)
    exact ⟨.cons hhead hrest, hcounted⟩

theorem delivers_facts (h : s.Counted) {fs : List Fact} (hfs : ∀ f ∈ fs, f.sequence < 2 ^ 64)
    {s' : BoltStore} (hok : s.mergeFactsTx source fs now = .ok s') :
    Lib.Deliver (RecordMerged source) (fs.map .fact) s s' ∧ s'.Counted := by
  induction fs generalizing s now with
  | nil =>
    cases hok
    exact ⟨.nil _, h⟩
  | cons f _ ih =>
    have hkey : f.key ≠ "" := by
      intro hempty
      rw [mergeFactsTx, mergeFactTx, if_pos hempty] at hok
      cases hok
    obtain ⟨_, ht, hhead⟩ := merged_fact h hkey (hfs f mem_cons_self) source (now 0)
    rw [mergeFactsTx, ht] at hok
    obtain ⟨hrest, hcounted⟩ := ih hhead.counted (forall_mem_cons.mp hfs).2 hok
    exact ⟨.cons hhead hrest, hcounted⟩

theorem delivers_foldl {α : Type} {record : α → Record} {merge : BoltStore → α → BoltStore} (h : s.Counted)
    {xs : List α} (hmerge : ∀ x ∈ xs, ∀ t : BoltStore, t.Counted → RecordMerged source (record x) t (merge t x)) :
    Lib.Deliver (RecordMerged source) (xs.map record) s (xs.foldl merge s) ∧ (xs.foldl merge s).Counted := by
  induction xs generalizing s with
  | nil => exact ⟨.nil s, h⟩
  | cons x _ ih =>
    have hhead := hmerge x mem_cons_self s h
    obtain ⟨hrest, hcounted⟩ := ih hhead.counted (forall_mem_cons.mp hmerge).2
    exact ⟨.cons hhead hrest, hcounted⟩

theorem foldl_updateRecordWatermark (entries : List (String × Nat)) (s : BoltStore) :
    entries.foldl (fun s entry => s.updateRecordWatermark entry.1 entry.2) s = { s with
        watermarks := entries.foldl (fun acc entry =>
          if Unstamped entry.1 entry.2 then acc else acc.raise entry.1 entry.2) s.watermarks } := by
  induction entries generalizing s with
  | nil => rfl
  | cons _ _ ih =>
    rw [foldl_cons, ih, foldl_cons, updateRecordWatermark]
    split <;> rfl

theorem knowledge_told (s : BoltStore) (w : Watermarks) (source : String) :
    ((s.updateSnapshotWatermarks w).mergePeerWatermarksTx source w).knowledge = s.knowledge.told source w := by
  unfold updateSnapshotWatermarks
  rw [foldl_updateRecordWatermark]
  unfold knowledge Knowledge.told mergePeerWatermarksTx
  simp only [Knowledge.mk.injEq, true_and]
  refine ⟨funext fun o => get_foldl_observe s.watermarks w o, ?_⟩
  funext peer o
  rw [get?_put, update_apply]
  by_cases hpeer : peer = source
  · rw [if_pos hpeer.symm, if_pos hpeer]
    exact get_join _ _ _
  · rw [if_neg (Ne.symm hpeer), if_neg hpeer]

theorem delivers_mergeSnapshot (h : s.Counted) {S : Snapshot} (hS : ∀ r ∈ S.records, r.sequence < 2 ^ 64)
    {sourceOrigin : String} {s' : BoltStore} (hok : s.mergeSnapshotFrom S sourceOrigin now = (.ok (), s')) :
    ∃ t, Lib.Deliver (RecordMerged (MemoryStore.sourceOrLegacy sourceOrigin)) S.records s t ∧ t.Counted ∧
      s' = (t.updateSnapshotWatermarks S.watermarks).mergePeerWatermarksTx (MemoryStore.sourceOrLegacy sourceOrigin)
        S.watermarks := by
  have hsource := sourceOrLegacy_ne sourceOrigin
  change s.runTransactions (MemoryStore.sourceOrLegacy sourceOrigin) now (mergeTransactions S) = _ at hok
  generalize MemoryStore.sourceOrLegacy sourceOrigin = source at *
  rw [runTransactions_mergeTransactions, runTransactions, mergeTransaction] at hok
  cases hlearned : s.transact source now (.learned S.experiences S.facts) with
  | error =>
    rw [hlearned] at hok
    cases hok
  | ok =>
    rw [hlearned] at hok
    obtain ⟨hexperiences, hcounted⟩ :=
      delivers_experiences h (fun e he => hS _ (Snapshot.mem_records_experience.mpr he)) source now
    obtain ⟨hfacts, hcounted⟩ :=
      delivers_facts hcounted (fun f hf => hS _ (Snapshot.mem_records_fact.mpr hf)) hlearned
    obtain ⟨hperformances, hcounted⟩ := delivers_foldl hcounted fun p hp t ht =>
      merged_performance ht p (hS _ (Snapshot.mem_records_performance.mpr hp)) source
    obtain ⟨hdialogues, hcounted⟩ := delivers_foldl hcounted fun d hd t ht =>
      merged_dialogue ht d (hS _ (Snapshot.mem_records_dialogue.mpr hd)) hsource
    exact ⟨_, ((hexperiences.append hfacts).append hperformances).append hdialogues, hcounted,
      (congrArg Prod.snd hok).symm⟩

theorem mergeFactsTx_ok (s : BoltStore) {fs : List Fact} (hkeys : ∀ f ∈ fs, f.key ≠ "") (source : String)
    (now : Clocks) : ∃ s', s.mergeFactsTx source fs now = .ok s' := by
  induction fs generalizing s now with
  | nil => exact ⟨s, rfl⟩
  | cons f _ ih =>
    obtain ⟨t, ht⟩ := s.mergeFactTx_ok (hkeys f mem_cons_self) source (now 0)
    rw [mergeFactsTx, ht]
    exact ih t (forall_mem_cons.mp hkeys).2 _

theorem mergeSnapshotFrom_ok (s : BoltStore) {S : Snapshot} (hkeys : ∀ f ∈ S.facts, f.key ≠ "") (sourceOrigin : String)
    (now : Clocks) : (s.mergeSnapshotFrom S sourceOrigin now).1 = .ok () := by
  unfold mergeSnapshotFrom
  generalize (if sourceOrigin = "" then legacyOrigin else sourceOrigin) = source
  obtain ⟨t, ht⟩ := mergeFactsTx_ok (s.mergeExperiencesTx source S.experiences now) hkeys source
    fun n => now (S.experiences.length + n)
  rw [runTransactions_mergeTransactions, runTransactions, mergeTransaction,
    show s.transact source now (.learned S.experiences S.facts) = .ok t from ht]
  rfl

end BoltStore

end Maistr0.Memory
