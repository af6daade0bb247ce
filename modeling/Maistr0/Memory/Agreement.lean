import Maistr0.Memory.Bolt
import Maistr0.Memory.Growth

/-!
# The two stores agree

A relation between `memoryStore` and `boltStore` that every call keeps as long as no counter wraps
around and no unstamped dialogue changes one that is already there. The stores keep two counters for
an origin, its sequence and its watermark, and move them differently; what they hand out depends only
on the larger one, which is always the watermark.
-/

namespace Maistr0.Memory

open Go List Lib.Keyed Lib.Clock MemoryStore

variable [CaseFolding] {source : String} {now : Clocks}

/-- The stores hold the same, and in both the watermark of an origin is its larger counter. -/
structure Agree (m : MemoryStore) (b : BoltStore) : Prop where
  owner : b.owner = m.origin
  nextID : b.nextID = m.nextID
  watermarks : b.watermarks = m.watermarks
  peers : b.peerWatermarks = m.peerWatermarks
  experiences : b.experiences.vals = m.experiences.reverse
  fingerprints : b.fingerprints = m.fingerprints
  facts : b.facts = m.facts
  performances : b.performances = m.performances
  dialogues : b.dialogues = m.dialogues
  memory_sequences : ∀ o, m.sequences.get o ≤ m.watermarks.get o
  bolt_sequences : ∀ o, b.sequences.get o ≤ b.watermarks.get o
  ids : ∀ e ∈ m.experiences, e.id ≤ m.nextID
  rising : m.experiences.Pairwise fun e e' => e.id < e'.id
  origin_ne : m.origin ≠ ""
  stamped : ∀ d ∈ m.dialogues.vals, ¬ Unstamped d.origin d.sequence
  unnamed : m.peerWatermarks.get? "" = none

namespace Agree

variable {m : MemoryStore} {b : BoltStore}

theorem start {owner : String} (howner : owner ≠ "") : Agree (newInMemoryStore owner) (openBoltStore owner) where
  owner := rfl
  nextID := rfl
  watermarks := rfl
  peers := rfl
  experiences := rfl
  fingerprints := rfl
  facts := rfl
  performances := rfl
  dialogues := rfl
  memory_sequences o := by
    change (set ∅ owner 0).get o ≤ 0
    rw [get_set]
    split
    · exact le_rfl
    · exact le_rfl
  bolt_sequences _ := le_rfl
  ids _ he := by cases he
  rising := Pairwise.nil
  origin_ne := howner
  stamped _ hd := by cases hd
  unnamed := rfl

/-! ### Counters -/

theorem mint (h : Agree m b) {o : String} (hroom : m.watermarks.get o + 1 < 2 ^ 64) :
    (b.nextOriginSequence o).1 = (m.nextSequenceLocked o).1 ∧
      Agree (m.nextSequenceLocked o).2 (b.nextOriginSequence o).2 := by
  have hm : max (m.sequences.get o) (m.watermarks.get o) = m.watermarks.get o := max_eq_right (h.memory_sequences o)
  have hb : max (b.sequences.get o) (b.watermarks.get o) = m.watermarks.get o := by
    rw [max_eq_right (h.bolt_sequences o), h.watermarks]
  have hincr : incr (m.watermarks.get o) = m.watermarks.get o + 1 := incr_of_lt hroom
  have hraise : b.watermarks.raise o (m.watermarks.get o + 1) = m.watermarks.set o (m.watermarks.get o + 1) := by
    rw [h.watermarks, raise, if_pos (Nat.lt_succ_self _)]
  refine ⟨?_, ?_⟩
  · simp only [BoltStore.nextOriginSequence, nextSequenceLocked, hm, hb]
  simp only [BoltStore.nextOriginSequence, nextSequenceLocked, BoltStore.saveWatermark, hm, hb, hincr, hraise]
  refine { h with watermarks := rfl, memory_sequences := ?_, bolt_sequences := ?_ }
  · intro o'
    simp only [get_set]
    split
    · exact le_rfl
    · exact h.memory_sequences o'
  · intro o'
    simp only [get_set]
    split
    · exact le_rfl
    · rw [← h.watermarks]
      exact h.bolt_sequences o'

theorem mergePeer (h : Agree m b) {peer : String} (hpeer : peer ≠ "") (w : Watermarks) :
    Agree { m with peerWatermarks := m.peerWatermarks.put (peer, mergeWatermarks (m.peerWatermarksOf peer) w) }
      (b.mergePeerWatermarksTx peer w) := by
  refine { h with peers := ?_, unnamed := ?_ }
  · simp only [BoltStore.mergePeerWatermarksTx, h.peers, peerWatermarksOf]
  · exact (get?_put _ _ _).trans ((if_neg hpeer).trans h.unnamed)

theorem observe (h : Agree m b) (o : String) (n : Nat) :
    Agree (m.observeRecordLocked o n) (b.updateRecordWatermark o n) := by
  unfold observeRecordLocked BoltStore.updateRecordWatermark
  split
  · exact h
  refine { h with watermarks := ?_, memory_sequences := ?_, bolt_sequences := ?_ }
  · change b.watermarks.raise o n = m.watermarks.raise o n
    rw [h.watermarks]
  · intro o'
    have := h.memory_sequences o'
    simp only [get_raise]
    split <;> omega
  · intro o'
    have := h.bolt_sequences o'
    change b.sequences.get o' ≤ (b.watermarks.raise o n).get o'
    rw [get_raise]
    split <;> omega

end Agree

structure Within (k j : Nat) (m : MemoryStore) (b : BoltStore) : Prop extends Agree m b where
  stamps : ∀ o, m.watermarks.get o + k < 2 ^ 64
  room : m.nextID + j < 2 ^ 64

namespace Within

variable {k k' j j' : Nat} {m : MemoryStore} {b : BoltStore}

theorem mono (h : Within k j m b) (hk : k' ≤ k) (hj : j' ≤ j) : Within k' j' m b where
  toAgree := h.toAgree
  stamps o := by have := h.stamps o; omega
  room := by have := h.room; omega

theorem mint_ne_zero (h : Within (k + 1) j m b) (o : String) : (m.nextSequenceLocked o).1 ≠ 0 := by
  have hroom := h.stamps o
  have hmax : max (m.sequences.get o) (m.watermarks.get o) = m.watermarks.get o := max_eq_right (h.memory_sequences o)
  have hincr : incr (m.watermarks.get o) = m.watermarks.get o + 1 := incr_of_lt (by omega)
  simp only [nextSequenceLocked, hmax, hincr]
  omega

theorem mint (h : Within (k + 1) j m b) (o : String) : (b.nextOriginSequence o).1 = (m.nextSequenceLocked o).1 ∧
    Within k j (m.nextSequenceLocked o).2 (b.nextOriginSequence o).2 := by
  have hroom := h.stamps o
  obtain ⟨hseq, hagree⟩ := h.toAgree.mint (o := o) (by omega)
  refine ⟨hseq, hagree, ?_, h.room⟩
  intro o'
  have hmax : max (m.sequences.get o) (m.watermarks.get o) = m.watermarks.get o := max_eq_right (h.memory_sequences o)
  have ho := h.stamps o'
  have hincr : incr (m.watermarks.get o) = m.watermarks.get o + 1 := incr_of_lt (by omega)
  simp only [nextSequenceLocked, hmax, hincr, get_set]
  split <;> omega

theorem observe (h : Within k j m b) {o : String} {n : Nat} (hn : n + k < 2 ^ 64) :
    Within k j (m.observeRecordLocked o n) (b.updateRecordWatermark o n) := by
  refine ⟨h.toAgree.observe o n, ?_, ?_⟩
  · intro o'
    have ho := h.stamps o'
    unfold observeRecordLocked
    split
    · exact ho
    · simp only [get_raise]
      split <;> omega
  · unfold observeRecordLocked
    split <;> exact h.room

/-! ### Filing a record -/

theorem putFacts (h : Within k j m b) {f f' : Fact} (heq : f' = f) :
    Within k j { m with facts := m.facts.put f } { b with facts := b.facts.put f' } := by
  subst heq
  exact { h with facts := congrArg (·.put f') h.facts }

theorem putPerformances (h : Within k j m b) {p p' : Performance} (heq : p' = p) :
    Within k j { m with performances := m.performances.put p } { b with performances := b.performances.put p' } := by
  subst heq
  exact { h with performances := congrArg (·.put p') h.performances }

theorem putDialogues (h : Within k j m b) {d d' : DialogueRecord} (heq : d' = d)
    (hd : ¬ Unstamped d.origin d.sequence) :
    Within k j { m with dialogues := m.dialogues.put d } { b with dialogues := b.dialogues.put d' } := by
  subst heq
  refine { h with dialogues := congrArg (·.put d') h.dialogues, stamped := ?_ }
  intro x hx
  simp only [vals_put, mem_cons, mem_filter] at hx
  rcases hx with rfl | ⟨hmem, -⟩
  · exact hd
  · exact h.stamped x hmem

theorem putExperience (h : Within k (j + 1) m b) {e e' key key' : Experience} (hid : e.id = incr m.nextID)
    (heq : e' = e) (hkey : key' = key) :
    Within k j { m with
        nextID := incr m.nextID
        experiences := m.experiences ++ [e]
        fingerprints := insert key m.fingerprints }
      { b with
        nextID := incr b.nextID
        experiences := b.experiences.put e'
        fingerprints := insert key' b.fingerprints } := by
  subst heq hkey
  have hroom := h.room
  have hincr : incr m.nextID = m.nextID + 1 := incr_of_lt (by omega)
  refine ⟨{ h with nextID := ?_, experiences := ?_, fingerprints := ?_, ids := ?_, rising := ?_ }, h.stamps, ?_⟩
  · exact congrArg incr h.nextID
  · simp only [vals_put, reverse_append, reverse_cons, reverse_nil, nil_append, cons_append, h.experiences]
    congr 1
    rw [filter_eq_self]
    intro x hx
    have hle := h.ids x (mem_reverse.mp hx)
    simp only [ne_eq, decide_eq_true_eq]
    omega
  · simp only [h.fingerprints]
  · intro x hx
    simp only [hincr] at hx ⊢
    rcases mem_append.mp hx with hmem | hmem
    · have := h.ids x hmem
      omega
    · rw [mem_singleton.mp hmem]
      omega
  · refine pairwise_append.mpr ⟨h.rising, pairwise_singleton _ _, ?_⟩
    intro x hx y hy
    have := h.ids x hx
    rw [mem_singleton.mp hy]
    omega
  · simp only [hincr]
    omega

/-! ### Local writes -/

theorem recordPerformance (h : Within (k + 1) j m b) {e e' : Experience} (heq : e' = e) :
    Within k j (m.updatePerformanceLocked e) (b.recordPerformance e') := by
  subst heq
  obtain ⟨hseq, hnext⟩ := h.mint m.origin
  unfold updatePerformanceLocked BoltStore.recordPerformance
  simp only [h.owner, h.performances]
  exact hnext.putPerformances (by simp only [hseq, hnext.owner])

theorem record (h : Within (k + 2) (j + 1) m b) (e : Experience) (now : Instant) :
    Within k j (m.record e now).2 (b.record e now).2 := by
  obtain ⟨hseq, hnext⟩ := h.mint m.origin
  have hsame : { prepareExperience e now with
      id := incr b.nextID, origin := b.owner, sequence := (b.nextOriginSequence m.origin).1 } =
      { prepareExperience e now with
        id := incr m.nextID, origin := m.origin, sequence := (m.nextSequenceLocked m.origin).1 } := by
    simp only [h.owner, h.nextID, hseq]
  have hfile := hnext.putExperience rfl hsame (congrArg experienceFingerprint hsame)
  unfold MemoryStore.record BoltStore.record
  rw [h.owner]
  by_cases htrack : (prepareExperience e now).nodeID ≠ "" ∧ (prepareExperience e now).model ≠ ""
  · simp only [if_pos htrack]
    exact hfile.recordPerformance hsame
  · simp only [if_neg htrack]
    exact hfile.mono (Nat.le_succ k) le_rfl

theorem putFact (h : Within (k + 1) j m b) (f : Fact) (now : Instant) :
    Within k j (m.putFact f now).2 (b.putFact f now).2 := by
  unfold MemoryStore.putFact BoltStore.putFact
  split
  · exact h.mono (Nat.le_succ k) le_rfl
  obtain ⟨hseq, hnext⟩ := h.mint m.origin
  simp only [h.owner, h.facts]
  exact hnext.putFacts (by simp only [hseq, hnext.owner])

theorem getFact (h : Within (k + 1) j m b) (scope key : String) :
    Within k j (m.getFact scope key).2 (b.getFact scope key).2 := by
  unfold MemoryStore.getFact BoltStore.getFact
  rw [h.facts]
  cases m.facts.get? (factKey (defaultScope scope) key) with
  | none => exact h.mono (Nat.le_succ k) le_rfl
  | some =>
    obtain ⟨hseq, hnext⟩ := h.mint m.origin
    simp only [h.owner]
    exact hnext.putFacts (by simp only [hseq, hnext.owner])

theorem deleteFact (h : Within k j m b) (scope key : String) :
    Within k j (m.deleteFact scope key) (b.deleteFact scope key) :=
  { h with facts := congrArg (·.erase (factKey (defaultScope scope) key)) h.facts }

theorem saveDialogue (h : Within (k + 1) j m b) (d : DialogueRecord) (now : Instant) :
    Within k j (m.saveDialogue d now).2 (b.saveDialogue d now).2 := by
  unfold MemoryStore.saveDialogue BoltStore.saveDialogue
  split
  · exact h.mono (Nat.le_succ k) le_rfl
  obtain ⟨hseq, hnext⟩ := h.mint m.origin
  simp only [h.owner]
  exact hnext.putDialogues (by simp only [hseq, hnext.owner]) (not_or.mpr ⟨h.origin_ne, h.mint_ne_zero m.origin⟩)

theorem stampEach {turns : List Turn} (h : Within (k + turns.length) j m b) (d : DialogueRecord) :
    (b.stampEach d turns).1 = (m.stampEach d turns).1 ∧ Within k j (m.stampEach d turns).2 (b.stampEach d turns).2 ∧
      (turns ≠ [] ∨ ¬ Unstamped d.origin d.sequence →
        ¬ Unstamped (m.stampEach d turns).1.origin (m.stampEach d turns).1.sequence) := by
  induction turns generalizing m b d with
  | nil => exact ⟨rfl, h, fun hd => hd.resolve_left (· rfl)⟩
  | cons _ turns ih =>
    obtain ⟨hseq, hnext⟩ := mint (k := k + turns.length) h m.origin
    unfold stampEach BoltStore.stampEach
    simp only [h.owner, hnext.owner, hseq]
    obtain ⟨hd, hwithin, hstamp⟩ := ih hnext
      { d with origin := (m.nextSequenceLocked m.origin).2.origin, sequence := (m.nextSequenceLocked m.origin).1 }
    refine ⟨hd, hwithin, fun _ => hstamp (.inr ?_)⟩
    exact not_or.mpr ⟨h.origin_ne, mint_ne_zero (k := k + turns.length) h m.origin⟩

theorem appendDialogueTurns {turns : List Turn} (h : Within (k + turns.length) j m b) (id : String)
    (participants : List String) (topic : String) (now : Clocks) :
    Within k j (m.appendDialogueTurns id participants topic turns now).2
      (b.appendDialogueTurns id participants topic turns now).2 := by
  have hmono := h.mono (Nat.le_add_right k turns.length) (le_refl j)
  unfold MemoryStore.appendDialogueTurns BoltStore.appendDialogueTurns
  split
  · exact hmono
  split
  · exact hmono
  rename_i hturns
  obtain ⟨hd, hnext, hstamp⟩ :=
    h.stampEach (dialogueAfterTurns (m.dialogues.get? id) id participants topic turns now)
  simp only [h.dialogues]
  exact hnext.putDialogues hd (hstamp (.inl hturns))

/-! ### Merges -/

theorem mergeExperience (h : Within (k + 1) (j + 1) m b) {e : Experience} (hn : e.sequence + (k + 1) < 2 ^ 64)
    (source : String) (now : Instant) :
    Within k j (m.mergeExperienceFrom e source now) (b.mergeExperienceTx e source now) := by
  have hobs := h.observe (o := e.origin) hn
  unfold mergeExperienceFrom BoltStore.mergeExperienceTx
  simp only [hobs.fingerprints]
  split
  · exact hobs.mono (Nat.le_succ k) (Nat.le_succ j)
  by_cases hstamp : Unstamped e.origin e.sequence
  · obtain ⟨hseq, hnext⟩ := hobs.mint source
    simp only [if_pos hstamp]
    exact hnext.putExperience rfl (by simp only [hseq, hnext.nextID]) rfl
  · simp only [if_neg hstamp]
    exact (hobs.mono (Nat.le_succ k) le_rfl).putExperience rfl (by simp only [hobs.nextID]) rfl

theorem mergeFact (h : Within (k + 1) j m b) {f : Fact} (hn : f.sequence + (k + 1) < 2 ^ 64) (source : String)
    (now : Instant) (hkey : f.key ≠ "") :
    (m.mergeFactFrom f source now).1 = .ok () ∧
      ∃ b', b.mergeFactTx f source now = .ok b' ∧ Within k j (m.mergeFactFrom f source now).2 b' := by
  have hobs := h.observe (o := (normalizeFact f now).origin) (n := (normalizeFact f now).sequence) hn
  unfold mergeFactFrom BoltStore.mergeFactTx
  simp only [if_neg hkey, hobs.facts]
  split
  · exact ⟨rfl, _, rfl, hobs.mono (Nat.le_succ k) le_rfl⟩
  split
  · obtain ⟨hseq, hnext⟩ := hobs.mint source
    exact ⟨rfl, _, rfl, hnext.putFacts (by simp only [hseq])⟩
  refine ⟨rfl, _, rfl, ?_⟩
  refine putFacts ((hobs.mono (Nat.le_succ k) le_rfl).observe ?_) rfl
  rw [(stamp_carry _ _).2]
  exact Nat.lt_of_succ_lt hn

theorem mergePerformance (h : Within (k + 1) j m b) {p : Performance} (hn : p.sequence + (k + 1) < 2 ^ 64)
    (source : String) : Within k j (m.mergePerformance p source) (b.mergePerformance p source) := by
  have hmono := h.mono (Nat.le_succ k) (le_refl j)
  have hobs := hmono.observe (o := p.origin) (n := p.sequence) (by omega)
  unfold MemoryStore.mergePerformance BoltStore.mergePerformance
  split
  · exact hmono
  simp only [h.performances]
  split
  · exact hobs
  split
  · obtain ⟨hseq, hnext⟩ := h.mint source
    exact hnext.putPerformances (by simp only [hseq])
  · exact hobs.putPerformances rfl

theorem mergePerformances {ps : List Performance} (h : Within (k + ps.length) j m b)
    (hn : ∀ p ∈ ps, p.sequence + (k + ps.length) < 2 ^ 64) (source : String) :
    Within k j (m.mergePerformancesFrom ps source) (b.mergePerformancesFrom ps source) := by
  induction ps generalizing m b with
  | nil => exact h
  | cons p ps ih =>
    have hhead := mergePerformance (k := k + ps.length) h (hn p mem_cons_self) source
    refine ih hhead fun q hq => ?_
    have := hn q (mem_cons_of_mem _ hq)
    simp only [length_cons] at this
    omega

/-- The one place where the stores differ: `memoryStore` stamps a dialogue that an unstamped one has
changed under the source, `boltStore` under its owner. -/
def Settled (m : MemoryStore) (source : String) (d : DialogueRecord) : Prop :=
  ¬ Unstamped d.origin d.sequence ∨ source = m.origin ∨
    ∀ current, m.dialogues.get? d.id = some current → (mergeTranscript current d).2 = false

theorem mergeDialogue (h : Within (k + 1) j m b) {d : DialogueRecord} (hn : d.sequence + (k + 1) < 2 ^ 64)
    (hsource : source ≠ "") (hd : Settled m source d) :
    Within k j (m.mergeDialogueFrom d source) (b.mergeDialogueTx d source) := by
  have hobs := h.observe (o := d.origin) hn
  have hmono := hobs.mono (Nat.le_succ k) (le_refl j)
  unfold mergeDialogueFrom BoltStore.mergeDialogueTx
  split
  · exact h.mono (Nat.le_succ k) le_rfl
  simp only [hobs.dialogues]
  have hfound : (m.observeRecordLocked d.origin d.sequence).dialogues = m.dialogues := by
    unfold observeRecordLocked
    split <;> rfl
  have horigin : (m.observeRecordLocked d.origin d.sequence).origin = m.origin := by
    unfold observeRecordLocked
    split <;> rfl
  cases hget : (m.observeRecordLocked d.origin d.sequence).dialogues.get? d.id with
  | none =>
    by_cases hstamp : Unstamped d.origin d.sequence
    · obtain ⟨hseq, hnext⟩ := hobs.mint source
      simp only [if_pos hstamp]
      exact hnext.putDialogues (by simp only [hseq]) (not_or.mpr ⟨hsource, hobs.mint_ne_zero source⟩)
    · simp only [if_neg hstamp]
      exact hmono.putDialogues rfl hstamp
  | some current =>
    have hcurrent : ¬ Unstamped current.origin current.sequence :=
      hobs.stamped current (get?_eq_some.mp hget).1
    cases hchanged : (mergeTranscript current d).2 with
    | false =>
      have hmerged : ¬ Unstamped (mergeTranscript current d).1.origin (mergeTranscript current d).1.sequence := hcurrent
      simp only [hchanged, if_neg hmerged, Bool.false_eq_true, if_false]
      exact hmono
    | true =>
      have hunder : (if Unstamped d.origin d.sequence then source else m.origin) = m.origin := by
        split
        · rename_i hstamp
          rcases hd with hd | hd | hd
          · exact absurd hstamp hd
          · exact hd
          rw [hfound] at hget
          rw [hd current hget] at hchanged
          cases hchanged
        · rfl
      obtain ⟨hseq, hnext⟩ := hobs.mint m.origin
      have hnew : ¬ Unstamped m.origin (m.observeRecordLocked d.origin d.sequence |>.nextSequenceLocked m.origin).1 :=
        not_or.mpr ⟨h.origin_ne, hobs.mint_ne_zero m.origin⟩
      have howner : ((b.updateRecordWatermark d.origin d.sequence).nextOriginSequence m.origin).2.owner = m.origin :=
        hnext.owner.trans horigin
      simp only [hchanged, if_true, horigin, hunder, hobs.owner, hseq]
      rw [if_neg (by rw [howner]; exact hnew)]
      exact hnext.putDialogues (by rw [howner]) hnew

theorem observeWatermarks (h : Within k j m b) (w : Watermarks) (hsource : source ≠ "") :
    Agree (m.observeWatermarks w source) ((b.updateSnapshotWatermarks w).mergePeerWatermarksTx source w) := by
  have hfold : Agree (w.vals.foldl (fun s entry => s.observeRecordLocked entry.1 entry.2) m)
      (w.vals.foldl (fun s entry => s.updateRecordWatermark entry.1 entry.2) b) := by
    refine foldl_rel (r := Agree) h.toAgree fun entry _ m b hagree => ?_
    exact hagree.observe entry.1 entry.2
  exact hfold.mergePeer hsource w

theorem mergeExperiences {es : List Experience} (h : Within (k + es.length) (j + es.length) m b)
    (hn : ∀ e ∈ es, e.sequence + (k + es.length) < 2 ^ 64) (source : String) (now : Clocks) :
    (m.runSections source (es.map .experience) now).1 = .ok () ∧
      Within k j (m.runSections source (es.map .experience) now).2 (b.mergeExperiencesTx source es now) := by
  induction es generalizing m b now with
  | nil => exact ⟨rfl, h⟩
  | cons e es ih =>
    have hhead := mergeExperience (k := k + es.length) (j := j + es.length) h (hn e mem_cons_self) source (now 0)
    refine ih hhead (fun x hx => ?_) fun n => now (n + 1)
    have := hn x (mem_cons_of_mem _ hx)
    simp only [length_cons] at this
    omega

theorem mergeFacts {fs : List Fact} (h : Within (k + fs.length) j m b)
    (hn : ∀ f ∈ fs, f.sequence + (k + fs.length) < 2 ^ 64) (source : String) (now : Clocks)
    (hok : (m.runSections source (fs.map .fact) now).1 = .ok ()) :
    ∃ b', b.mergeFactsTx source fs now = .ok b' ∧ Within k j (m.runSections source (fs.map .fact) now).2 b' := by
  induction fs generalizing m b now with
  | nil => exact ⟨b, rfl, h⟩
  | cons f fs ih =>
    have hkey : f.key ≠ "" := by
      intro hempty
      simp [runSections, mergeSection, mergeFactFrom, hempty] at hok
    obtain ⟨hfirst, b', hb', hwithin⟩ :=
      mergeFact (k := k + fs.length) h (hn f mem_cons_self) source (now 0) hkey
    have hrun : m.runSections source ((f :: fs).map .fact) now =
        (m.mergeFactFrom f source (now 0)).2.runSections source (fs.map .fact) fun n => now (n + 1) := by
      rw [map_cons, runSections, mergeSection]
      cases hres : m.mergeFactFrom f source (now 0) with
      | mk =>
        rw [hres] at hfirst
        cases hfirst
        rfl
    rw [hrun] at hok ⊢
    obtain ⟨b'', hb'', hrest⟩ := ih hwithin (fun x hx => by
      have := hn x (mem_cons_of_mem _ hx)
      simp only [length_cons] at this
      omega) (fun n => now (n + 1)) hok
    refine ⟨b'', ?_, hrest⟩
    rw [BoltStore.mergeFactsTx, hb']
    exact hb''

end Within

/-! ### Whole merges -/

namespace MemoryStore

section

variable (m : MemoryStore)

include m

theorem get?_mergeDialogue {d : DialogueRecord} {id : String} (hne : d.id ≠ id) (source : String) :
    (m.mergeDialogueFrom d source).dialogues.get? id = m.dialogues.get? id := by
  obtain ⟨_, _, hobs, -⟩ := m.observeRecordLocked_eq d.origin d.sequence
  have hdialogues : (m.observeRecordLocked d.origin d.sequence).dialogues = m.dialogues := by rw [hobs]
  unfold mergeDialogueFrom
  split
  · rfl
  rw [← hdialogues]
  generalize m.observeRecordLocked d.origin d.sequence = t
  simp only
  cases hget : t.dialogues.get? d.id with
  | none =>
    simp only
    split
    · exact (get?_put _ _ _).trans (if_neg hne)
    · exact (get?_put _ _ _).trans (if_neg hne)
  | some current =>
    simp only
    have hcurrent : current.id ≠ id := by
      rw [keyOf_get? hget]
      exact hne
    split
    · exact (get?_put _ _ _).trans (if_neg hcurrent)
    · rfl

theorem dialogues_observe (o : String) (n : Nat) : (m.observeRecordLocked o n).dialogues = m.dialogues := by
  obtain ⟨_, _, hobs, -⟩ := m.observeRecordLocked_eq o n
  rw [hobs]

theorem dialogues_mergeSection {sec : MergeSection} (hsec : ∀ d, sec ≠ .dialogue d) (source : String) (now : Instant) :
    (m.mergeSection source now sec).2.dialogues = m.dialogues := by
  cases sec with
  | experience =>
    simp only [mergeSection, mergeExperienceFrom]
    split
    · exact m.dialogues_observe _ _
    · split <;> exact m.dialogues_observe _ _
  | fact =>
    simp only [mergeSection, mergeFactFrom]
    split
    · rfl
    split
    · exact m.dialogues_observe _ _
    split
    · exact m.dialogues_observe _ _
    · exact (dialogues_observe _ _ _).trans (m.dialogues_observe _ _)
  | performances ps =>
    induction ps generalizing m with
    | nil => rfl
    | cons _ _ ih =>
      refine (ih _ fun d hd => by cases hd).trans ?_
      simp only [mergePerformance]
      split
      · rfl
      split
      · exact m.dialogues_observe _ _
      split
      · rfl
      · exact m.dialogues_observe _ _
  | dialogue d => exact absurd rfl (hsec d)
  | watermarks w =>
    obtain ⟨_, _, hobs, -⟩ := foldl_observe_eq w.vals m
    simp only [mergeSection, observeWatermarks, hobs]

variable {secs : List MergeSection}

theorem frame_runSections (hsecs : ∀ sec ∈ secs, ∀ d, sec ≠ .dialogue d) (source : String) (now : Clocks) :
    (m.runSections source secs now).2.dialogues = m.dialogues ∧ (m.runSections source secs now).2.origin = m.origin := by
  refine runSections_induct (P := fun t => t.dialogues = m.dialogues ∧ t.origin = m.origin) ?_ ⟨rfl, rfl⟩ now
  rintro t ⟨hd, ho⟩ sec hsec now
  exact ⟨(t.dialogues_mergeSection (hsecs sec hsec) source now).trans hd,
    (t.grows_mergeSection source now sec).origin_eq.trans ho⟩

theorem runSections_append (source : String) (secs secs' : List MergeSection) (now : Clocks) :
    m.runSections source (secs ++ secs') now = match m.runSections source secs now with
      | (.error err, m') => (.error err, m')
      | (.ok _, m') => m'.runSections source secs' fun n => now (secs.length + n) := by
  induction secs generalizing m now with
  | nil =>
    simp only [nil_append, length_nil, Nat.zero_add]
    rfl
  | cons sec _ ih =>
    rw [cons_append, runSections, runSections]
    cases m.mergeSection source (now 0) sec with
    | mk result =>
      cases result with
      | error => rfl
      | ok =>
        simp only [ih, length_cons, Nat.add_right_comm]

end

theorem runSections_append_ok {m : MemoryStore}
    (h : (m.runSections source secs now).1 = .ok ()) (secs' : List MergeSection) :
    m.runSections source (secs ++ secs') now =
      (m.runSections source secs now).2.runSections source secs' fun n => now (secs.length + n) := by
  rw [runSections_append]
  cases hres : m.runSections source secs now with
  | mk =>
    rw [hres] at h
    cases h
    rfl

theorem runSections_ok_of_append {m : MemoryStore} {secs' : List MergeSection}
    (h : (m.runSections source (secs ++ secs') now).1 = .ok ()) : (m.runSections source secs now).1 = .ok () := by
  rw [runSections_append] at h
  cases hres : m.runSections source secs now with
  | mk result =>
    rw [hres] at h
    cases result with
    | error => cases h
    | ok => rfl

end MemoryStore

/-- The unstamped dialogues of a batch change nothing that is already there, neither in the store nor
earlier in the batch, unless the source is the store's own origin. -/
def AllSettled (m : MemoryStore) (source : String) (ds : List DialogueRecord) : Prop :=
  source = m.origin ∨ (∀ d ∈ ds, Unstamped d.origin d.sequence →
      ∀ current, m.dialogues.get? d.id = some current → (mergeTranscript current d).2 = false) ∧
    ds.Pairwise fun d d' => Unstamped d'.origin d'.sequence → d.id ≠ d'.id

namespace Within

variable {k j : Nat} {m : MemoryStore} {b : BoltStore}

theorem mergeDialogues {ds : List DialogueRecord} (h : Within (k + ds.length) j m b)
    (hn : ∀ d ∈ ds, d.sequence + (k + ds.length) < 2 ^ 64) (hsource : source ≠ "")
    (hds : AllSettled m source ds) (now : Clocks) :
    (m.runSections source (ds.map .dialogue) now).1 = .ok () ∧
      Within k j (m.runSections source (ds.map .dialogue) now).2
        (ds.foldl (fun s d => s.mergeDialogueTx d source) b) := by
  induction ds generalizing m b now with
  | nil => exact ⟨rfl, h⟩
  | cons d ds ih =>
    have hd : Settled m source d := by
      by_cases hstamp : Unstamped d.origin d.sequence
      · exact .inr (hds.imp_right fun hds => hds.1 d mem_cons_self hstamp)
      · exact .inl hstamp
    have hhead := mergeDialogue (k := k + ds.length) h (hn d mem_cons_self) hsource hd
    refine ih hhead (fun x hx => ?_) ?_ fun n => now (n + 1)
    · have := hn x (mem_cons_of_mem _ hx)
      simp only [length_cons] at this
      omega
    refine hds.imp (·.trans (m.keeps_mergeSection source (now 0)
      (nofun : ∀ w, MergeSection.dialogue d ≠ .watermarks w)).origin_eq.symm) ?_
    rintro ⟨hcurrent, hpairwise⟩
    obtain ⟨hne, hrest⟩ := pairwise_cons.mp hpairwise
    refine ⟨fun x hx hstamp current hget => ?_, hrest⟩
    rw [m.get?_mergeDialogue (hne x hx hstamp)] at hget
    exact hcurrent x (mem_cons_of_mem _ hx) hstamp current hget

end Within

theorem BoltStore.runTransactions_mergeTransactions (b : BoltStore) (source : String) (now : Clocks) (S : Snapshot) :
    b.runTransactions source now (mergeTransactions S) = b.runTransactions source now
        [.learned S.experiences S.facts, .performances S.performances, .dialogues S.dialogues S.watermarks] := by
  unfold mergeTransactions
  split
  · rename_i hlearned
    rw [hlearned.1, hlearned.2]
    split
    · rename_i hperformances
      rw [hperformances]
      rfl
    · rfl
  · split
    · rename_i hperformances
      rw [hperformances]
      rfl
    · rfl

namespace Within

variable {k j : Nat} {m : MemoryStore} {b : BoltStore}

theorem mergeLearned {es : List Experience} {fs : List Fact} (h : Within (k + fs.length + es.length) (j + es.length) m b)
    (hes : ∀ e ∈ es, e.sequence + (k + fs.length + es.length) < 2 ^ 64)
    (hfs : ∀ f ∈ fs, f.sequence + (k + fs.length + es.length) < 2 ^ 64)
    (hok : (m.runSections source (es.map .experience ++ fs.map .fact) now).1 = .ok ()) :
    ∃ b', b.transact source now (.learned es fs) = .ok b' ∧
      Within k j (m.runSections source (es.map .experience ++ fs.map .fact) now).2 b' := by
  obtain ⟨hfirst, hexperiences⟩ := mergeExperiences h hes source now
  rw [runSections_append_ok hfirst, length_map] at hok ⊢
  exact mergeFacts hexperiences (fun f hf => by have := hfs f hf; omega) source _ hok

/-- A merge that succeeds in memory succeeds in the database, and the stores still agree. -/
theorem mergeSnapshot {S : Snapshot} (h : Within S.records.length S.records.length m b)
    (hn : ∀ r ∈ S.records, r.sequence + S.records.length < 2 ^ 64) (hsource : source ≠ "")
    (hds : AllSettled m source S.dialogues) (hok : (m.runSections source (mergeSections S) now).1 = .ok ()) :
    (b.runTransactions source now (mergeTransactions S)).1 = .ok () ∧
      Agree (m.runSections source (mergeSections S) now).2 (b.runTransactions source now (mergeTransactions S)).2 := by
  have hsize : S.records.length =
      0 + S.dialogues.length + S.performances.length + S.facts.length + S.experiences.length := by
    simp only [Snapshot.records, length_append, length_map]
    omega
  rw [hsize] at h hn
  have hsections : mergeSections S = S.experiences.map .experience ++ S.facts.map .fact ++
      ([.performances S.performances] ++ (S.dialogues.map .dialogue ++ [.watermarks S.watermarks])) := by
    simp only [mergeSections, append_assoc]
  rw [hsections] at hok ⊢
  -- Experiences and facts, which are one transaction of the database.
  have hlearnedOk := runSections_ok_of_append hok
  obtain ⟨b₁, hb₁, hlearned⟩ := mergeLearned (j := 0) (h.mono le_rfl (by omega))
    (fun e he => hn _ (Snapshot.mem_records_experience.mpr he))
    (fun f hf => hn _ (Snapshot.mem_records_fact.mpr hf)) hlearnedOk
  have hnot : ∀ sec ∈ S.experiences.map MergeSection.experience ++ S.facts.map .fact ++ [.performances S.performances],
      ∀ d, sec ≠ .dialogue d := by
    rintro sec hsec d rfl
    simp at hsec
  obtain ⟨hdialogues, horigin⟩ := m.frame_runSections hnot source now
  rw [runSections_append_ok hlearnedOk] at hok hdialogues horigin ⊢
  generalize (m.runSections source (S.experiences.map .experience ++ S.facts.map .fact) now).2 = m₁ at *
  -- Performances.
  have hperformances := mergePerformances hlearned (fun p hp => by
    have := hn _ (Snapshot.mem_records_performance.mpr hp)
    change p.sequence + _ < _ at this
    omega) source
  rw [runSections_append_ok rfl] at hok ⊢
  change (m₁.mergePerformancesFrom S.performances source).dialogues = _ at hdialogues
  change (m₁.mergePerformancesFrom S.performances source).origin = _ at horigin
  change _ ∧ Agree ((m₁.mergePerformancesFrom S.performances source).runSections _ _ _).2 _
  -- Dialogues, and last the watermarks of the snapshot.
  have hsettled : AllSettled (m₁.mergePerformancesFrom S.performances source) source S.dialogues := by
    unfold AllSettled
    rw [hdialogues, horigin]
    exact hds
  obtain ⟨hdialoguesOk, hmerged⟩ := mergeDialogues hperformances (fun d hd => by
    have := hn _ (Snapshot.mem_records_dialogue.mpr hd)
    change d.sequence + _ < _ at this
    omega) hsource hsettled fun n => now ((S.experiences.map MergeSection.experience ++
      S.facts.map MergeSection.fact).length + ([MergeSection.performances S.performances].length + n))
  rw [runSections_append_ok hdialoguesOk]
  have hbolt : b.runTransactions source now (mergeTransactions S) =
      (.ok (), (((S.dialogues.foldl (fun s d => s.mergeDialogueTx d source)
        (b₁.mergePerformancesFrom S.performances source)).updateSnapshotWatermarks S.watermarks).mergePeerWatermarksTx
          source S.watermarks)) := by
    rw [BoltStore.runTransactions_mergeTransactions, BoltStore.runTransactions, BoltStore.mergeTransaction, hb₁]
    rfl
  rw [hbolt]
  exact ⟨rfl, hmerged.observeWatermarks S.watermarks hsource⟩

end Within

end Maistr0.Memory
