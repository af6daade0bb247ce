import Maistr0.Lib.Stages
import Maistr0.Memory.Bolt
import Maistr0.Memory.Growth

/-!
# What a reader sees during a merge

`MergeSnapshotFrom` takes the lock anew for every record in `memoryStore` and commits up to three
transactions in `boltStore`. A snapshot read in between advertises watermarks that the records merged
so far have raised. This module says which snapshots can be merged without such a reader being told
of a sequence whose record is still to come.
-/

namespace Maistr0.Memory

open Go List Lib.Clock MergeTransaction

/-- What both stores need of an incoming record so as not to pass it over. -/
def Record.Mergeable (r : Record) : Prop :=
  ¬ Unstamped r.origin r.sequence ∧ match r with
    | .experience _ => True
    | .fact f => f.key ≠ ""
    | .performance p => p.nodeID ≠ "" ∧ p.model ≠ ""
    | .dialogue d => d.id ≠ ""

instance : DecidablePred Record.Mergeable
  | .experience _ => inferInstanceAs (Decidable (_ ∧ True))
  | .fact _ => inferInstanceAs (Decidable (_ ∧ _ ≠ _))
  | .performance _ => inferInstanceAs (Decidable (_ ∧ _ ≠ _ ∧ _ ≠ _))
  | .dialogue _ => inferInstanceAs (Decidable (_ ∧ _ ≠ _))

def raiseAll (w : Watermarks) (rs : List Record) : Watermarks :=
  rs.foldl (fun w r => w.raise r.origin r.sequence) w

theorem raiseAll_append (w : Watermarks) (rs rs' : List Record) :
    raiseAll w (rs ++ rs') = raiseAll (raiseAll w rs) rs' := foldl_append

variable {rs : List Record} {o : String} {n : Nat}

theorem raiseAll_lt {w : Watermarks} :
    (raiseAll w rs).get o < n ↔ w.get o < n ∧ ∀ r ∈ rs, r.origin = o → r.sequence < n := by
  unfold raiseAll
  induction rs generalizing w with
  | nil => simp
  | cons _ _ ih =>
    rw [foldl_cons, ih, get_raise_lt, forall_mem_cons, and_assoc]

/-- A record still to be merged that the advertised watermarks cover is one the store had before. -/
def Covers (known : Watermarks) (snapshot : Snapshot) (pending : List Record) : Prop :=
  ∀ r ∈ pending, r.sequence ≤ snapshot.watermarks.get r.origin → r.sequence ≤ known.get r.origin

def NumberedBefore (known : Watermarks) (group later : List Record) : Prop :=
  ∀ a ∈ group, ∀ b ∈ later, a.origin = b.origin → known.get b.origin < b.sequence → a.sequence < b.sequence

instance (known : Watermarks) (group later : List Record) : Decidable (NumberedBefore known group later) :=
  inferInstanceAs (Decidable (∀ a ∈ group, ∀ b ∈ later, _ → _ → _))

/-! ### Stages of records -/

section Stages

variable {σ γ : Type} {items : γ → List Record} {known : Watermarks} {own : String}

/-- Records at or below the watermarks from before the merge are accounted for, and so are the store's own. -/
def numbering (items : γ → List Record) (known : Watermarks) (own : String) : Lib.Stages.Numbering γ Record String where
  items
  origin := Record.origin
  number := Record.sequence
  known r := r.sequence ≤ known.get r.origin ∨ r.origin = own

def OwnKnown (known : Watermarks) (own : String) (rs : List Record) : Prop :=
  ∀ r ∈ rs, r.origin = own → r.sequence ≤ known.get own

instance (known : Watermarks) (own : String) (rs : List Record) : Decidable (OwnKnown known own rs) :=
  inferInstanceAs (Decidable (∀ r ∈ rs, _ → _))

theorem OwnKnown.known_iff (h : OwnKnown known own rs) {r : Record} (hr : r ∈ rs) :
    (numbering items known own).known r ↔ r.sequence ≤ known.get r.origin := by
  refine ⟨fun hknown => ?_, .inl⟩
  rcases hknown with hle | ho
  · exact hle
  · rw [ho]
    exact h r hr ho

theorem safe_iff_covers {clock : σ → Watermarks} {point : σ × List γ} (h : OwnKnown known own (point.2.flatMap items)) :
    Lib.Stages.Safe (numbering items known own) (fun s => (clock s).get) point ↔
      ∀ r ∈ point.2.flatMap items, r.sequence ≤ (clock point.1).get r.origin → r.sequence ≤ known.get r.origin := by
  refine forall₂_congr fun r hr => ?_
  rw [h.known_iff hr]
  change (_ → (clock point.1).get r.origin < r.sequence) ↔ _
  omega

theorem pairwise_inOrder_iff {stages : List γ} (h : OwnKnown known own (stages.flatMap items)) :
    stages.Pairwise (Lib.Stages.InOrder (numbering items known own)) ↔
      (stages.map items).Pairwise (NumberedBefore known) := by
  rw [pairwise_map]
  refine Pairwise.iff_of_mem fun {g later} _ hlater => ?_
  refine forall₄_congr fun a _ b hb => forall_congr' fun _ => ?_
  rw [h.known_iff (mem_flatMap.mpr ⟨later, hlater, hb⟩), not_le]
  rfl

/-- Every reader is told the truth exactly if the groups come in the order of their numbers. -/
theorem visible_covers_iff {ε : Type} {run : σ → γ → Except ε Unit × σ} (clock : σ → Watermarks) {I : σ → Prop}
    {stages body : List γ} {last : γ} {s : σ} (hstages : stages = body ++ [last])
    (hbody : ∀ g ∈ body, Lib.Stages.Raises (numbering items (clock s) own) (fun s => (clock s).get) run I g)
    (hs : I s) (hlast : ∀ s, I s → (run s last).1 = .ok ())
    (hown : OwnKnown (clock s) own (stages.flatMap items)) :
    (∀ point ∈ Lib.Stages.visible run s stages, ∀ r ∈ point.2.flatMap items,
        r.sequence ≤ (clock point.1).get r.origin → r.sequence ≤ (clock s).get r.origin) ↔
      (stages.map items).Pairwise (NumberedBefore (clock s)) := by
  subst hstages
  have hstart : Lib.Stages.Safe (numbering items (clock s) own) (fun s => (clock s).get) (s, body ++ [last]) :=
    (safe_iff_covers hown).mpr fun _ _ hle => hle
  rw [← pairwise_inOrder_iff hown, ← Lib.Stages.safe_iff hbody hs hlast hstart]
  refine forall₂_congr fun point hpoint => (safe_iff_covers fun r hr => hown r ?_).symm
  obtain ⟨g, hg, hr⟩ := mem_flatMap.mp hr
  exact mem_flatMap.mpr ⟨g, (Lib.Stages.suffix_of_mem_visible hpoint).subset hg, hr⟩

end Stages

theorem covers_selectForPeer {known : Watermarks} {snapshot : Snapshot} :
    (∀ full remote, Covers known (selectForPeer full snapshot remote) rs) ↔ Covers known snapshot rs := by
  constructor
  · intro h
    exact h true ∅
  · intro h full remote
    cases full <;> exact h

variable [CaseFolding]

namespace MemoryStore

variable {s : MemoryStore}

/-! ### The watermarks after a section -/

theorem watermarks_observe (h : ¬ Unstamped o n) : (s.observeRecordLocked o n).watermarks = s.watermarks.raise o n := by
  rw [observeRecordLocked, if_neg h]

theorem watermarks_mergeExperience {e : Experience} (h : ¬ Unstamped e.origin e.sequence) (source : String)
    (now : Instant) : (s.mergeExperienceFrom e source now).watermarks = s.watermarks.raise e.origin e.sequence := by
  rw [← watermarks_observe h]
  unfold mergeExperienceFrom
  simp only [if_neg h]
  split
  · rfl
  · rfl

theorem mergeFactFrom_stamped {f : Fact} (hkey : f.key ≠ "") (h : ¬ Unstamped f.origin f.sequence) (source : String)
    (now : Instant) : (s.mergeFactFrom f source now).1 = .ok () ∧
      (s.mergeFactFrom f source now).2.watermarks = s.watermarks.raise f.origin f.sequence := by
  have hnormal : ¬ Unstamped (normalizeFact f now).origin (normalizeFact f now).sequence := h
  have hobs := watermarks_observe (s := s) hnormal
  unfold mergeFactFrom
  rw [if_neg hkey]
  simp only
  split
  · exact ⟨rfl, hobs⟩
  obtain ⟨ho, hn⟩ := stamp_carry (normalizeFact f now)
    ((s.observeRecordLocked (normalizeFact f now).origin (normalizeFact f now).sequence).facts.get?
      (normalizeFact f now).mapKey)
  rw [ho, hn, if_neg hnormal]
  refine ⟨rfl, ?_⟩
  rw [watermarks_observe hnormal, hobs, raise_raise]
  rfl

theorem watermarks_mergePerformance {p : Performance} (hnode : p.nodeID ≠ "") (hmodel : p.model ≠ "")
    (h : ¬ Unstamped p.origin p.sequence) (source : String) :
    (s.mergePerformance p source).watermarks = s.watermarks.raise p.origin p.sequence := by
  rw [← watermarks_observe h]
  unfold mergePerformance
  rw [if_neg (not_or.mpr ⟨hnode, hmodel⟩)]
  simp only [if_neg h]
  split
  · rfl
  · rfl

theorem watermarks_mergePerformances {ps : List Performance}
    (h : ∀ p ∈ ps, Record.Mergeable (.performance p)) (source : String) :
    (s.mergePerformancesFrom ps source).watermarks = raiseAll s.watermarks (ps.map .performance) := by
  rw [raiseAll, foldl_map]
  refine foldl_rel (r := fun (t : MemoryStore) w => t.watermarks = w) rfl ?_
  rintro p hp t _ rfl
  obtain ⟨hstamp, hnode, hmodel⟩ := h p hp
  exact watermarks_mergePerformance hnode hmodel hstamp source

theorem watermarks_mergeDialogue {d : DialogueRecord} (hid : d.id ≠ "") (h : ¬ Unstamped d.origin d.sequence)
    (source : String) (ho : s.origin ≠ o) :
    (s.mergeDialogueFrom d source).watermarks.get o = (s.watermarks.raise d.origin d.sequence).get o := by
  rw [← watermarks_observe h]
  unfold mergeDialogueFrom
  have horigin : (s.observeRecordLocked d.origin d.sequence).origin ≠ o := by
    rw [observeRecordLocked, if_neg h]
    exact ho
  simp only [if_neg hid, if_neg h]
  split
  · rfl
  split
  · exact (get_set _ _ _ _).trans (if_neg horigin)
  · rfl

theorem mergeSection_raises {sec : MergeSection} (hsec : ∀ r ∈ sec.records, r.Mergeable)
    (hlast : ∀ w, sec ≠ .watermarks w) (source : String) (now : Instant) :
    (s.mergeSection source now sec).1 = .ok () ∧ ∀ o, s.origin ≠ o →
        (s.mergeSection source now sec).2.watermarks.get o = (raiseAll s.watermarks sec.records).get o := by
  cases sec with
  | experience e =>
    have h := (hsec (.experience e) mem_cons_self).1
    exact ⟨rfl, fun o _ => congrArg (get · o) (watermarks_mergeExperience h source now)⟩
  | fact f =>
    obtain ⟨h, hkey⟩ := hsec (.fact f) mem_cons_self
    obtain ⟨hok, hw⟩ := mergeFactFrom_stamped (s := s) hkey h source now
    exact ⟨hok, fun o _ => congrArg (get · o) hw⟩
  | performances ps =>
    have h : ∀ p ∈ ps, Record.Mergeable (.performance p) := fun p hp => hsec _ (mem_map_of_mem hp)
    exact ⟨rfl, fun o _ => congrArg (get · o) (watermarks_mergePerformances h source)⟩
  | dialogue d =>
    obtain ⟨h, hid⟩ := hsec (.dialogue d) mem_cons_self
    exact ⟨rfl, fun o ho => watermarks_mergeDialogue hid h source ho⟩
  | watermarks w => exact absurd rfl (hlast w)

/-! ### The states between the sections -/

def timed : List MergeSection → Clocks → List (Instant × MergeSection)
  | [], _ => []
  | sec :: rest, now => (now 0, sec) :: timed rest fun n => now (n + 1)

omit [CaseFolding] in
theorem map_snd_timed (secs : List MergeSection) (now : Clocks) : (timed secs now).map Prod.snd = secs := by
  induction secs generalizing now with
  | nil => rfl
  | cons _ _ ih => rw [timed, map_cons, ih]

omit [CaseFolding] in
theorem mem_of_mem_timed {secs : List MergeSection} {now : Clocks} {g : Instant × MergeSection}
    (h : g ∈ timed secs now) : g.2 ∈ secs := by
  rw [← map_snd_timed secs now]
  exact mem_map_of_mem h

def visible (s : MemoryStore) (snapshot : Snapshot) (sourceOrigin : String) (now : Clocks) :
    List (MemoryStore × List (Instant × MergeSection)) :=
  Lib.Stages.visible (fun s g => s.mergeSection (sourceOrLegacy sourceOrigin) g.1 g.2) s
    (timed (mergeSections snapshot) now)

def pending (stages : List (Instant × MergeSection)) : List Record := stages.flatMap (·.2.records)

def ReadsCovered (s : MemoryStore) (S : Snapshot) (sourceOrigin : String) (now : Clocks) : Prop :=
  ∀ point ∈ s.visible S sourceOrigin now, ∀ full remote,
    Covers s.watermarks (selectForPeer full point.1.snapshot remote) (pending point.2)

omit [CaseFolding] in
theorem timed_append (secs secs' : List MergeSection) (now : Clocks) :
    timed (secs ++ secs') now = timed secs now ++ timed secs' fun n => now (n + secs.length) := by
  induction secs generalizing now with
  | nil => rfl
  | cons _ _ ih =>
    rw [cons_append, timed, ih, timed, cons_append]
    rfl

theorem raises_mergeSection {known : Watermarks} {source own : String} {g : Instant × MergeSection}
    (hrec : ∀ r ∈ g.2.records, r.Mergeable) (hsec : ∀ w, g.2 ≠ .watermarks w) :
    Lib.Stages.Raises (numbering (·.2.records) known own) (fun s => s.watermarks.get)
      (fun (s : MemoryStore) (g : Instant × MergeSection) => s.mergeSection source g.1 g.2)
      (fun s => s.origin = own) g where
  ok t _ := (mergeSection_raises hrec hsec source g.1).1
  keeps t ht := (t.keeps_mergeSection source g.1 hsec).origin_eq.trans ht
  clock_lt t ht b hb := by
    have ho : t.origin ≠ b.origin := fun heq => hb (.inr (heq.symm.trans ht))
    change (t.mergeSection source g.1 g.2).2.watermarks.get b.origin < b.sequence ↔ _
    rw [(mergeSection_raises hrec hsec source g.1).2 _ ho, raiseAll_lt]
    rfl

theorem readsCovered_iff {S : Snapshot} (hS : ∀ r ∈ S.records, r.Mergeable)
    (hown : OwnKnown s.watermarks s.origin S.records) (sourceOrigin : String) (now : Clocks) :
    s.ReadsCovered S sourceOrigin now ↔
      ((mergeSections S).map MergeSection.records).Pairwise (NumberedBefore s.watermarks) := by
  obtain ⟨body, hbody, hsec⟩ : ∃ body, mergeSections S = body ++ [.watermarks S.watermarks] ∧
      ∀ sec ∈ body, ∀ w, sec ≠ .watermarks w := by
    refine ⟨_, rfl, fun sec hsec w => ?_⟩
    rintro rfl
    simp at hsec
  have hstages : timed (mergeSections S) now = timed body now ++ [(now body.length, .watermarks S.watermarks)] := by
    rw [hbody, timed_append]
    simp only [timed, Nat.zero_add]
  have hrecords : ∀ g ∈ timed (mergeSections S) now, ∀ r ∈ g.2.records, r ∈ S.records :=
    fun g hg r hr => records_mergeSections (mem_of_mem_timed hg) hr
  have hgroups : (mergeSections S).map MergeSection.records = (timed (mergeSections S) now).map (·.2.records) := by
    conv_lhs => rw [← map_snd_timed (mergeSections S) now]
    rw [map_map]
    rfl
  have hraises : ∀ g ∈ timed body now, Lib.Stages.Raises (numbering (·.2.records) s.watermarks s.origin)
      (fun s => s.watermarks.get)
      (fun (s : MemoryStore) (g : Instant × MergeSection) => s.mergeSection (sourceOrLegacy sourceOrigin) g.1 g.2)
      (fun t => t.origin = s.origin) g := by
    intro g hg
    have hmem : g ∈ timed (mergeSections S) now := by
      rw [hstages]
      exact mem_append_left _ hg
    exact raises_mergeSection (fun r hr => hS r (hrecords g hmem r hr)) (hsec g.2 (mem_of_mem_timed hg))
  have hownStages : OwnKnown s.watermarks s.origin ((timed (mergeSections S) now).flatMap (·.2.records)) := by
    intro r hr
    obtain ⟨g, hg, hr⟩ := mem_flatMap.mp hr
    exact hown r (hrecords g hg r hr)
  rw [hgroups, ← visible_covers_iff watermarks hstages hraises rfl (fun _ _ => rfl) hownStages]
  simp only [ReadsCovered, covers_selectForPeer]
  rfl

end MemoryStore

namespace BoltStore

variable {s : BoltStore}

/-! ### The watermarks after a transaction -/

theorem watermarks_update (h : ¬ Unstamped o n) :
    (s.updateRecordWatermark o n).watermarks = s.watermarks.raise o n := by
  rw [updateRecordWatermark, if_neg h]
  rfl

theorem watermarks_mergeExperience {e : Experience} (h : ¬ Unstamped e.origin e.sequence) (source : String)
    (now : Instant) : (s.mergeExperienceTx e source now).watermarks = s.watermarks.raise e.origin e.sequence := by
  rw [← watermarks_update h]
  unfold mergeExperienceTx
  simp only [if_neg h]
  split
  · rfl
  · rfl

theorem mergeFactTx_stamped {f : Fact} (hkey : f.key ≠ "") (h : ¬ Unstamped f.origin f.sequence) (source : String)
    (now : Instant) : ∃ s', s.mergeFactTx f source now = .ok s' ∧
      s'.watermarks = s.watermarks.raise f.origin f.sequence := by
  have hnormal : ¬ Unstamped (normalizeFact f now).origin (normalizeFact f now).sequence := h
  have hobs := watermarks_update (s := s) hnormal
  unfold mergeFactTx
  rw [if_neg hkey]
  simp only
  split
  · exact ⟨_, rfl, hobs⟩
  obtain ⟨ho, hn⟩ := stamp_carry (normalizeFact f now)
    ((s.updateRecordWatermark (normalizeFact f now).origin (normalizeFact f now).sequence).facts.get?
      (normalizeFact f now).mapKey)
  rw [ho, hn, if_neg hnormal]
  refine ⟨_, rfl, ?_⟩
  rw [watermarks_update hnormal, hobs, raise_raise]
  rfl

theorem watermarks_mergePerformance {p : Performance} (hnode : p.nodeID ≠ "") (hmodel : p.model ≠ "")
    (h : ¬ Unstamped p.origin p.sequence) (source : String) :
    (s.mergePerformance p source).watermarks = s.watermarks.raise p.origin p.sequence := by
  rw [← watermarks_update h]
  unfold mergePerformance
  rw [if_neg (not_or.mpr ⟨hnode, hmodel⟩)]
  simp only [if_neg h]
  split
  · rfl
  · rfl

theorem watermarks_mergePerformances {ps : List Performance}
    (h : ∀ p ∈ ps, Record.Mergeable (.performance p)) (source : String) :
    (s.mergePerformancesFrom ps source).watermarks = raiseAll s.watermarks (ps.map .performance) := by
  rw [raiseAll, foldl_map]
  refine foldl_rel (r := fun (t : BoltStore) w => t.watermarks = w) rfl ?_
  rintro p hp t _ rfl
  obtain ⟨hstamp, hnode, hmodel⟩ := h p hp
  exact watermarks_mergePerformance hnode hmodel hstamp source

theorem watermarks_mergeExperiences {es : List Experience} (h : ∀ e ∈ es, Record.Mergeable (.experience e))
    (source : String) (now : Clocks) :
    (s.mergeExperiencesTx source es now).watermarks = raiseAll s.watermarks (es.map .experience) := by
  induction es generalizing s now with
  | nil => rfl
  | cons e _ ih =>
    have hhead := watermarks_mergeExperience (s := s) (h e mem_cons_self).1 source (now 0)
    have htail := ih (s := s.mergeExperienceTx e source (now 0)) (forall_mem_cons.mp h).2 fun n => now (n + 1)
    rw [hhead] at htail
    exact htail

theorem mergeFactsTx_stamped {fs : List Fact} (h : ∀ f ∈ fs, Record.Mergeable (.fact f)) (source : String)
    (now : Clocks) : ∃ s', s.mergeFactsTx source fs now = .ok s' ∧
      s'.watermarks = raiseAll s.watermarks (fs.map .fact) := by
  induction fs generalizing s now with
  | nil => exact ⟨s, rfl, rfl⟩
  | cons f _ ih =>
    obtain ⟨hstamp, hkey⟩ := h f mem_cons_self
    obtain ⟨s', hs', hhead⟩ := mergeFactTx_stamped (s := s) hkey hstamp source (now 0)
    obtain ⟨s'', hs'', htail⟩ := ih (s := s') (forall_mem_cons.mp h).2 fun n => now (n + 1)
    refine ⟨s'', ?_, ?_⟩
    · rw [mergeFactsTx, hs']
      exact hs''
    · rw [htail, hhead]
      rfl

end BoltStore

def MergeTransaction.records : MergeTransaction → List Record
  | .learned es fs => es.map .experience ++ fs.map .fact
  | .performances ps => ps.map .performance
  | .dialogues ds _ => ds.map .dialogue

omit [CaseFolding] in
theorem records_mergeTransactions (S : Snapshot) : (mergeTransactions S).flatMap records = S.records := by
  unfold mergeTransactions Snapshot.records
  split <;> split <;> simp [records, *]

namespace BoltStore

variable {s : BoltStore}

theorem mergeTransaction_raises {tx : MergeTransaction} (htx : ∀ r ∈ tx.records, r.Mergeable)
    (hlast : ∀ ds w, tx ≠ .dialogues ds w) (source : String) (now : Clocks) :
    (s.mergeTransaction source now tx).1 = .ok () ∧
      (s.mergeTransaction source now tx).2.watermarks = raiseAll s.watermarks tx.records := by
  cases tx with
  | learned es fs =>
    have hexperience : ∀ e ∈ es, Record.Mergeable (.experience e) :=
      fun e he => htx _ (mem_append_left _ (mem_map_of_mem he))
    have hfact : ∀ f ∈ fs, Record.Mergeable (.fact f) :=
      fun f hf => htx _ (mem_append_right _ (mem_map_of_mem hf))
    have hes := watermarks_mergeExperiences (s := s) hexperience source now
    obtain ⟨s', hs', hfs⟩ := mergeFactsTx_stamped (s := s.mergeExperiencesTx source es now) hfact source
      fun n => now (es.length + n)
    have htransact : s.transact source now (.learned es fs) = .ok s' := hs'
    rw [mergeTransaction, htransact]
    refine ⟨rfl, ?_⟩
    rw [records, raiseAll_append, ← hes]
    exact hfs
  | performances =>
    have hps := watermarks_mergePerformances (s := s) (fun p hp => htx _ (mem_map_of_mem hp)) source
    exact ⟨rfl, hps⟩
  | dialogues ds w => exact absurd rfl (hlast ds w)

def visible (s : BoltStore) (snapshot : Snapshot) (sourceOrigin : String) (now : Clocks) :
    List (BoltStore × List MergeTransaction) :=
  Lib.Stages.visible (fun s tx => s.mergeTransaction (if sourceOrigin = "" then legacyOrigin else sourceOrigin) now tx) s
    (mergeTransactions snapshot)

def pending (stages : List MergeTransaction) : List Record := stages.flatMap records

def ReadsCovered (s : BoltStore) (S : Snapshot) (sourceOrigin : String) (now : Clocks) : Prop :=
  ∀ point ∈ s.visible S sourceOrigin now, ∀ full remote,
    Covers s.watermarks (selectForPeer full point.1.snapshot remote) (pending point.2)

theorem readsCovered_iff {S : Snapshot} (hS : ∀ r ∈ S.records, r.Mergeable) (sourceOrigin : String) (now : Clocks) :
    s.ReadsCovered S sourceOrigin now ↔ ((mergeTransactions S).map records).Pairwise (NumberedBefore s.watermarks) := by
  obtain ⟨body, hbody, htx⟩ : ∃ body, mergeTransactions S = body ++ [.dialogues S.dialogues S.watermarks] ∧
      ∀ tx ∈ body, ∀ ds w, tx ≠ .dialogues ds w := by
    refine ⟨_, rfl, fun tx htx ds w => ?_⟩
    rintro rfl
    split at htx <;> split at htx <;> simp at htx
  have hrecords : ∀ tx ∈ mergeTransactions S, ∀ r ∈ tx.records, r ∈ S.records := by
    intro tx htx r hr
    rw [← records_mergeTransactions]
    exact mem_flatMap.mpr ⟨tx, htx, hr⟩
  have hraises : ∀ tx ∈ body, Lib.Stages.Raises (numbering records s.watermarks "") (fun s => s.watermarks.get)
      (fun (s : BoltStore) (tx : MergeTransaction) =>
        s.mergeTransaction (if sourceOrigin = "" then legacyOrigin else sourceOrigin) now tx)
      (fun _ => True) tx := by
    intro tx hmem
    have hmergeable : ∀ r ∈ tx.records, r.Mergeable := by
      intro r hr
      refine hS r (hrecords tx ?_ r hr)
      rw [hbody]
      exact mem_append_left _ hmem
    refine ⟨fun t _ => (mergeTransaction_raises hmergeable (htx tx hmem) _ now).1, fun _ _ => trivial, ?_⟩
    intro t _ b _
    rw [(mergeTransaction_raises hmergeable (htx tx hmem) _ now).2, raiseAll_lt]
    rfl
  -- Only dialogues are stamped by the store itself, and those come in the last transaction.
  have hown : OwnKnown s.watermarks "" ((mergeTransactions S).flatMap records) := by
    rw [records_mergeTransactions]
    exact fun r hr ho => absurd (.inl ho) (hS r hr).1
  rw [← visible_covers_iff watermarks hbody hraises trivial (fun _ _ => rfl) hown]
  simp only [ReadsCovered, covers_selectForPeer]
  rfl

end BoltStore

end Maistr0.Memory

namespace Maistr0.Memory

open Go

def noon : Clocks := fun _ => ⟨12, by decide⟩

def workThenTalk : Snapshot :=
  (((newInMemoryStore "node-b").record { kind := "task" } (noon 0)).2.saveDialogue { id := "d" } (noon 1)).2.snapshot

def talkThenWork : Snapshot :=
  (((newInMemoryStore "node-b").saveDialogue { id := "d" } (noon 0)).2.record { kind := "task" } (noon 1)).2.snapshot

end Maistr0.Memory
