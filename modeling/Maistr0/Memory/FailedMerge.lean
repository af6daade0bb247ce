import Maistr0.Memory.Bolt
import Maistr0.Memory.InMemory
import Maistr0.Memory.Rules

/-!
# Merges that fail

The only error of `MergeSnapshotFrom` is a fact without a key. `boltStore` meets it in its first transaction and rolls
back. `memoryStore` has by then merged the experiences and the facts before it. What it merged shows: experiences are
only appended, and the rank of the fact at a place only rises.
-/

namespace Maistr0.Memory

open Go List

def sectionsBefore (S : Snapshot) : List MergeSection :=
  S.experiences.map .experience ++ (S.facts.takeWhile fun f => f.key ≠ "").map .fact

def placeRank : Option Fact → WithBot (Time ×ₗ Stringᵒᵈ ×ₗ String)
  | none => ⊥
  | some f => factRank f.label

theorem mergeSections_keyless {S : Snapshot} (h : ∃ f ∈ S.facts, f.key = "") :
    ∃ f rest, mergeSections S = sectionsBefore S ++ MergeSection.fact f :: rest ∧ f.key = "" := by
  have hsplit : ∀ fs : List Fact, (∃ f ∈ fs, f.key = "") →
      ∃ f rest, fs = (fs.takeWhile fun f => f.key ≠ "") ++ f :: rest ∧ f.key = "" := by
    intro fs
    induction fs with
    | nil => simp
    | cons f fs ih =>
      intro h
      by_cases hkey : f.key = ""
      · exact ⟨f, fs, by simp [hkey], hkey⟩
      · obtain ⟨g, rest, hfs, hg⟩ := ih (by simpa [hkey] using h)
        exact ⟨g, rest, by rw [takeWhile_cons_of_pos (by simpa using hkey), cons_append, ← hfs], hg⟩
  obtain ⟨f, rest, hfs, hkey⟩ := hsplit S.facts h
  refine ⟨f, rest.map .fact ++ [.performances S.performances] ++ S.dialogues.map .dialogue ++ [.watermarks S.watermarks],
    ?_, hkey⟩
  rw [mergeSections, sectionsBefore]
  conv_lhs => rw [hfs]
  simp only [map_append, map_cons, append_assoc, cons_append]

variable [CaseFolding]

namespace MemoryStore

structure Untouched (s s' : MemoryStore) : Prop where
  experiences : s'.experiences = s.experiences
  facts : s'.facts = s.facts
  performances : s'.performances = s.performances
  dialogues : s'.dialogues = s.dialogues
  fingerprints : s'.fingerprints = s.fingerprints
  watermarks : s'.watermarks = s.watermarks
  peerWatermarks : s'.peerWatermarks = s.peerWatermarks

def Seen (s : MemoryStore) (origin : String) (sequence : Nat) : Prop :=
  Unstamped origin sequence ∨ sequence ≤ s.watermarks.get origin

def Has (s : MemoryStore) (now : Instant) : MergeSection → Prop
  | .experience e => experienceFingerprint e ∈ s.fingerprints ∧ s.Seen e.origin e.sequence
  | .fact f => (s.facts.get? (normalizeFact f now).mapKey).any (factLoses (normalizeFact f now)) ∧ s.Seen f.origin f.sequence
  | _ => False

def HasAll (s : MemoryStore) : List MergeSection → Clocks → Prop
  | [], _ => True
  | sec :: rest, now => s.Has (now 0) sec ∧ s.HasAll rest fun n => now (n + 1)

def level (s : MemoryStore) : Nat × (String → WithBot (Time ×ₗ Stringᵒᵈ ×ₗ String)) :=
  (s.experiences.length, fun slot => placeRank (s.facts.get? slot))

theorem Untouched.level_eq {s s' : MemoryStore} (h : s.Untouched s') : s'.level = s.level := by
  rw [level, level, h.experiences, h.facts]

def Plain : MergeSection → Prop
  | .experience _ => True
  | .fact f => f.key ≠ ""
  | _ => False

theorem observe_frame (s : MemoryStore) (o : String) (n : Nat) :
    (s.observeRecordLocked o n).experiences = s.experiences ∧ (s.observeRecordLocked o n).facts = s.facts ∧
      (s.observeRecordLocked o n).fingerprints = s.fingerprints := by
  unfold observeRecordLocked
  split <;> exact ⟨rfl, rfl, rfl⟩

theorem level_lt_mergeExperience (s : MemoryStore) (e : Experience) (source : String) (now : Instant)
    (hnew : experienceFingerprint e ∉ s.fingerprints) : s.level < (s.mergeExperienceFrom e source now).level := by
  obtain ⟨hes, hfacts, hknown⟩ := s.observe_frame e.origin e.sequence
  have happend : ∃ x, (s.mergeExperienceFrom e source now).experiences = s.experiences ++ [x] ∧
      (s.mergeExperienceFrom e source now).facts = s.facts := by
    rw [mergeExperienceFrom, if_neg (hknown ▸ hnew)]
    by_cases hstamp : Unstamped e.origin e.sequence
    · simp only [if_pos hstamp]
      exact ⟨_, congrArg (· ++ [_]) hes, hfacts⟩
    · simp only [if_neg hstamp]
      exact ⟨_, congrArg (· ++ [_]) hes, hfacts⟩
  obtain ⟨_, hx, hsame⟩ := happend
  refine Prod.lt_iff.mpr (.inl ⟨?_, ?_⟩)
  · simp [level, hx]
  · simp only [level, hsame, le_refl]

theorem level_lt_mergeFact (s : MemoryStore) {f : Fact} (hkey : f.key ≠ "") (source : String) (now : Instant)
    (hwins : ¬ (s.facts.get? (normalizeFact f now).mapKey).any (factLoses (normalizeFact f now)) = true) :
    ∃ s', s.mergeFactFrom f source now = (.ok (), s') ∧ s.level < s'.level := by
  have hput : ∃ s' g, s.mergeFactFrom f source now = (.ok (), s') ∧ s'.experiences = s.experiences ∧
      s'.facts = s.facts.put g ∧ g.mapKey = (normalizeFact f now).mapKey ∧ g.label = (normalizeFact f now).label := by
    obtain ⟨hes, hfacts, -⟩ := s.observe_frame (normalizeFact f now).origin (normalizeFact f now).sequence
    have hcarry : ∀ current : Option Fact, ((current.map (carryFact (normalizeFact f now))).getD (normalizeFact f now)).mapKey =
        (normalizeFact f now).mapKey ∧ ((current.map (carryFact (normalizeFact f now))).getD (normalizeFact f now)).label =
        (normalizeFact f now).label := fun current => by cases current <;> exact ⟨rfl, rfl⟩
    rw [mergeFactFrom, if_neg hkey]
    simp only [hfacts, if_neg hwins]
    split
    · exact ⟨_, _, rfl, hes, congrArg (Lib.Keyed.put · _) hfacts, hcarry _⟩
    obtain ⟨hes', hfacts', -⟩ := (s.observeRecordLocked (normalizeFact f now).origin (normalizeFact f now).sequence).observe_frame
      (((s.facts.get? (normalizeFact f now).mapKey).map (carryFact (normalizeFact f now))).getD (normalizeFact f now)).origin
      (((s.facts.get? (normalizeFact f now).mapKey).map (carryFact (normalizeFact f now))).getD (normalizeFact f now)).sequence
    exact ⟨_, _, rfl, hes'.trans hes, congrArg (Lib.Keyed.put · _) (hfacts'.trans hfacts), hcarry _⟩
  obtain ⟨s', g, hmerge, hes, hfacts, hkey', hlabel⟩ := hput
  refine ⟨s', hmerge, Prod.lt_iff.mpr (.inr ⟨?_, ?_⟩)⟩
  · simp [level, hes]
  have hget : ∀ slot, s'.facts.get? slot = if g.mapKey = slot then some g else s.facts.get? slot := fun slot =>
    hfacts ▸ Lib.Keyed.get?_put _ _ _
  -- at its own place the fact outranks what was there, and everywhere else nothing moves
  have hlt : placeRank (s.facts.get? g.mapKey) < placeRank (some g) := by
    rw [← hkey', any_factLoses_iff] at hwins
    cases hc : s.facts.get? g.mapKey with
    | none => exact WithBot.bot_lt_coe _
    | some c => exact WithBot.coe_lt_coe.mpr (not_le.mp fun hle => hwins ⟨c, hc, hlabel ▸ hle⟩)
  refine Pi.lt_def.mpr ⟨fun slot => ?_, g.mapKey, ?_⟩
  · simp only [level, hget]
    split
    · rename_i hslot
      exact hslot ▸ hlt.le
    · exact le_rfl
  · simpa only [level, hget, if_pos] using hlt

theorem mergeSection_cases (s : MemoryStore) (source : String) (now : Instant) {sec : MergeSection} (hsec : Plain sec) :
    ∃ s', s.mergeSection source now sec = (.ok (), s') ∧
      ((∃ o n, s' = s.observeRecordLocked o n ∧ (s.Has now sec ↔ s.Seen o n)) ∨ (¬ s.Has now sec ∧ s.level < s'.level)) := by
  cases sec with
  | experience e =>
    refine ⟨_, rfl, ?_⟩
    by_cases hold : experienceFingerprint e ∈ s.fingerprints
    · refine .inl ⟨e.origin, e.sequence, ?_, and_iff_right hold⟩
      rw [mergeExperienceFrom, if_pos ((s.observe_frame _ _).2.2 ▸ hold)]
    · exact .inr ⟨fun h => hold h.1, s.level_lt_mergeExperience e source now hold⟩
  | fact f =>
    by_cases hloses : (s.facts.get? (normalizeFact f now).mapKey).any (factLoses (normalizeFact f now)) = true
    · refine ⟨_, ?_, .inl ⟨f.origin, f.sequence, rfl, and_iff_right hloses⟩⟩
      rw [mergeSection, mergeFactFrom, if_neg hsec]
      exact if_pos ((s.observe_frame _ _).2.1 ▸ hloses)
    · obtain ⟨s', hmerge, hlt⟩ := s.level_lt_mergeFact hsec source now hloses
      exact ⟨s', hmerge, .inr ⟨fun h => hloses h.1, hlt⟩⟩
  | _ => cases hsec

theorem untouched_observe {s : MemoryStore} {o : String} {n : Nat} (h : s.Seen o n) : s.Untouched (s.observeRecordLocked o n) := by
  unfold observeRecordLocked
  split
  · exact ⟨rfl, rfl, rfl, rfl, rfl, rfl, rfl⟩
  · rename_i hstamp
    exact ⟨rfl, rfl, rfl, rfl, rfl, if_neg (Nat.not_lt_of_le (h.resolve_left hstamp)), rfl⟩

theorem observe_of_not_seen {s : MemoryStore} {o : String} {n : Nat} (h : ¬ s.Seen o n) :
    s.watermarks.get o < (s.observeRecordLocked o n).watermarks.get o := by
  obtain ⟨hstamp, hlt⟩ := not_or.mp h
  simp only [observeRecordLocked, if_neg hstamp, Lib.Clock.get_raise, if_true]
  omega

theorem watermarks_le_observe (s : MemoryStore) (o : String) (n : Nat) (o' : String) :
    s.watermarks.get o' ≤ (s.observeRecordLocked o n).watermarks.get o' := by
  unfold observeRecordLocked
  split
  · exact le_rfl
  rw [Lib.Clock.get_raise]
  split
  · exact le_max_left _ _
  · exact le_rfl

theorem Untouched.trans {s s' s'' : MemoryStore} (h : s.Untouched s') (h' : s'.Untouched s'') : s.Untouched s'' :=
  ⟨h'.1.trans h.1, h'.2.trans h.2, h'.3.trans h.3, h'.4.trans h.4, h'.5.trans h.5, h'.6.trans h.6, h'.7.trans h.7⟩

theorem Untouched.has_iff {s s' : MemoryStore} (h : s.Untouched s') (now : Instant) (sec : MergeSection) :
    s'.Has now sec ↔ s.Has now sec := by
  cases sec <;> simp only [Has, Seen, h.facts, h.fingerprints, h.watermarks]

/-- Plain sections all succeed. They leave a store as it was exactly if it has all the records, for the level does not
fall, and while it stays the watermarks do not fall. -/
theorem runSections_plain (source : String) {secs : List MergeSection} (hplain : ∀ sec ∈ secs, Plain sec)
    (tail : List MergeSection) (s : MemoryStore) (now : Clocks) :
    ∃ t now', s.runSections source (secs ++ tail) now = t.runSections source tail now' ∧ s.level ≤ t.level ∧
      (t.level = s.level → ∀ o, s.watermarks.get o ≤ t.watermarks.get o) ∧
      ∀ s₀ : MemoryStore, s₀.Untouched s → (s₀.Untouched t ↔ s₀.HasAll secs now) := by
  induction secs generalizing s now with
  | nil => exact ⟨s, now, rfl, le_rfl, fun _ _ => le_rfl, fun s₀ h => iff_of_true h trivial⟩
  | cons sec _ ih =>
    obtain ⟨s', hmerge, hcases⟩ := s.mergeSection_cases source (now 0) (hplain sec mem_cons_self)
    obtain ⟨t, now', hrun, hlevel, hwater, huntouched⟩ :=
      ih (forall_mem_cons.mp hplain).2 s' fun n => now (n + 1)
    refine ⟨t, now', by rw [← hrun, cons_append, runSections, hmerge], ?_⟩
    rcases hcases with ⟨o, n, rfl, hhas⟩ | ⟨hnew, hlt⟩
    · have hsame : (s.observeRecordLocked o n).level = s.level := by
        obtain ⟨hes, hfacts, -⟩ := s.observe_frame o n
        rw [level, level, hes, hfacts]
      rw [hsame] at hlevel hwater
      refine ⟨hlevel, fun heq o' => (s.watermarks_le_observe o n o').trans (hwater heq o'), fun s₀ h => ?_⟩
      by_cases hseen : s.Seen o n
      · rw [huntouched s₀ (h.trans (untouched_observe hseen)), HasAll]
        exact (and_iff_right ((h.has_iff _ _).mp (hhas.mpr hseen))).symm
      refine iff_of_false (fun ht => ?_) fun hall => hseen (hhas.mp ((h.has_iff _ _).mpr hall.1))
      have hle := hwater (ht.level_eq.trans h.level_eq.symm) o
      rw [ht.watermarks, ← h.watermarks] at hle
      exact absurd (observe_of_not_seen hseen) (Nat.not_lt_of_le hle)
    · have hrises := hlt.trans_le hlevel
      exact ⟨hrises.le, fun heq => absurd heq hrises.ne', fun s₀ h => iff_of_false
        (fun ht => hrises.ne' (ht.level_eq.trans h.level_eq.symm)) fun hall => hnew ((h.has_iff _ _).mpr hall.1)⟩

end MemoryStore

theorem BoltStore.mergeFactsTx_keyless {fs : List Fact} (h : ∃ f ∈ fs, f.key = "") (b : BoltStore) (source : String)
    (now : Clocks) : b.mergeFactsTx source fs now = .error "memory: fact key is required" := by
  induction fs generalizing b now with
  | nil => simp at h
  | cons f fs ih =>
    by_cases hkey : f.key = ""
    · simp only [mergeFactsTx, mergeFactTx, if_pos hkey]
      rfl
    have hrest : ∃ f ∈ fs, f.key = "" := by simpa [hkey] using h
    obtain ⟨b', hb'⟩ := b.mergeFactTx_ok hkey source (now 0)
    simp only [mergeFactsTx, hb']
    exact ih hrest b' _

end Maistr0.Memory

namespace Maistr0.Memory

end Maistr0.Memory
