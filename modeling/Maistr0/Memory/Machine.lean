import Maistr0.Memory.Stores

/-!
# Counters are machine values

Sequences and watermarks are `uint64` in the source and natural numbers here. The calls of a store keep
all of them below `2 ^ 64`, so the snapshot of a store that calls can reach is one that another store can
merge.
-/

namespace Maistr0.Memory

open Go List Lib.Keyed Lib.Clock

theorem incr_lt {n : Nat} (h : n < 2 ^ 64) : incr n < 2 ^ 64 := by
  unfold incr
  split <;> omega

variable [CaseFolding]

/-- The sequences of all records are values of `uint64`, and dialogues have IDs. -/
structure Sequenced (es : List Experience) (facts : Facts) (performances : Performances) (dialogues : Dialogues) :
    Prop where
  experiences : ∀ e ∈ es, e.sequence < 2 ^ 64
  facts : ∀ f ∈ facts.vals, f.sequence < 2 ^ 64
  performances : ∀ p ∈ performances.vals, p.sequence < 2 ^ 64
  dialogues : ∀ d ∈ dialogues.vals, d.id ≠ "" ∧ d.sequence < 2 ^ 64

namespace Sequenced

variable {es es' : List Experience} {facts : Facts} {performances : Performances} {dialogues : Dialogues}

section

variable (h : Sequenced es facts performances dialogues)

include h

theorem withExperiences (hes : ∀ e ∈ es', e ∈ es ∨ e.sequence < 2 ^ 64) : Sequenced es' facts performances dialogues :=
  ⟨fun e he => (hes e he).elim (h.experiences e) id, h.facts, h.performances, h.dialogues⟩

theorem putFact {f : Fact} (hf : f.sequence < 2 ^ 64) : Sequenced es (facts.put f) performances dialogues :=
  ⟨h.experiences, forall_mem_put h.facts hf, h.performances, h.dialogues⟩

theorem putPerformance {p : Performance} (hp : p.sequence < 2 ^ 64) :
    Sequenced es facts (performances.put p) dialogues :=
  ⟨h.experiences, h.facts, forall_mem_put h.performances hp, h.dialogues⟩

theorem putDialogue {d : DialogueRecord} (hd : d.id ≠ "" ∧ d.sequence < 2 ^ 64) :
    Sequenced es facts performances (dialogues.put d) :=
  ⟨h.experiences, h.facts, h.performances, forall_mem_put h.dialogues hd⟩

theorem forget {facts' : Facts} (hes : ∀ e ∈ es', e ∈ es) (hfacts : ∀ f ∈ facts'.vals, f ∈ facts.vals) :
    Sequenced es' facts' performances dialogues :=
  ⟨fun e he => h.experiences e (hes e he), fun f hf => h.facts f (hfacts f hf), h.performances, h.dialogues⟩

end

end Sequenced

/-! ### The in-memory store -/

namespace MemoryStore

structure Machine (s : MemoryStore) : Prop where
  records : Sequenced s.experiences s.facts s.performances s.dialogues
  watermarks : ∀ o, s.watermarks.get o < 2 ^ 64
  sequences : ∀ o, s.sequences.get o < 2 ^ 64

variable {s : MemoryStore}

theorem Machine.next_lt (h : s.Machine) (o : String) : (s.nextSequenceLocked o).1 < 2 ^ 64 :=
  incr_lt (max_lt (h.sequences o) (h.watermarks o))

theorem Machine.next (h : s.Machine) (o : String) : (s.nextSequenceLocked o).2.Machine := by
  have hlt := h.next_lt o
  refine ⟨h.records, fun o' => ?_, fun o' => ?_⟩
  · change (s.watermarks.set o (s.nextSequenceLocked o).1).get o' < 2 ^ 64
    rw [get_set]
    split
    · exact hlt
    · exact h.watermarks o'
  · change (s.sequences.set o (s.nextSequenceLocked o).1).get o' < 2 ^ 64
    rw [get_set]
    split
    · exact hlt
    · exact h.sequences o'

theorem Machine.observe (h : s.Machine) {q : Nat} (hq : q < 2 ^ 64) (o : String) : (s.observeRecordLocked o q).Machine := by
  unfold observeRecordLocked
  split
  · exact h
  refine ⟨h.records, fun o' => ?_, fun o' => ?_⟩
  · have := h.watermarks o'
    simp only [get_raise]
    split <;> omega
  · have := h.sequences o'
    simp only [get_raise]
    split <;> omega

theorem Writes.machine {noted : String → Watermarks → Prop} {t : MemoryStore} (h : Writes (· < 2 ^ 64) noted s t)
    (hs : s.Machine) : t.Machine := by
  refine h.invariant (fun t t' ht hwrite => ?_) hs
  cases hwrite with
  | mint o => exact ht.next o
  | observe o hq => exact ht.observe hq o
  | experience e _ _ _ hq =>
    refine ⟨ht.records.withExperiences fun x hx => ?_, ht.watermarks, ht.sequences⟩
    rcases mem_append.mp hx with hmem | hmem
    · exact .inl hmem
    · exact .inr (mem_singleton.mp hmem ▸ hq.trans_lt (ht.watermarks _))
  | fact _ _ hq => exact ⟨ht.records.putFact (hq.trans_lt (ht.watermarks _)), ht.watermarks, ht.sequences⟩
  | performance _ hq => exact ⟨ht.records.putPerformance (hq.trans_lt (ht.watermarks _)), ht.watermarks, ht.sequences⟩
  | dialogue _ hid hq =>
    exact ⟨ht.records.putDialogue ⟨hid, hq.trans_lt (ht.watermarks _)⟩, ht.watermarks, ht.sequences⟩
  | forget _ _ hes hfacts => exact ⟨ht.records.forget hes hfacts, ht.watermarks, ht.sequences⟩
  | note => exact ⟨ht.records, ht.watermarks, ht.sequences⟩

theorem machine_call (h : s.Machine) {c : Call} (hc : c.Machine) : (c.onMemory s).2.Machine := by
  refine (s.writes_call ?_ ?_).machine h
  · rintro ps rfl
    exact hc
  · rintro S sourceOrigin now rfl
    exact ⟨hc.records, hc.watermarks⟩

end MemoryStore

/-! ### The durable store -/

namespace BoltStore

structure Machine (s : BoltStore) : Prop extends s.Counted where
  records : Sequenced s.experiences.vals s.facts s.performances s.dialogues

variable {s : BoltStore}

theorem Writes.machine {t : BoltStore} (h : Writes (· < 2 ^ 64) True True s t) (hs : s.Machine) : t.Machine := by
  refine h.invariant (fun t t' ht hwrite => ?_) hs
  have hcounted : ∀ {u : BoltStore}, u.watermarks = t.watermarks → u.sequences = t.sequences → u.Counted :=
    fun hw hq => ⟨fun o => by rw [hw, hq]; exact ht.sequences o, fun o => by rw [hw]; exact ht.bounded o⟩
  cases hwrite with
  | mint o =>
    obtain ⟨_, _, hmint, hcounted, -⟩ := ht.toCounted.mint o
    rw [hmint]
    exact ⟨hcounted, ht.records⟩
  | observe o hq =>
    refine ⟨ht.toCounted.updateRecordWatermark hq o, ?_⟩
    rw [updateRecordWatermark_eq]
    exact ht.records
  | experience _ e _ _ _ hq =>
    refine ⟨hcounted rfl rfl, ?_⟩
    exact ⟨forall_mem_put ht.records.experiences (hq.trans_lt (ht.bounded _)), ht.records.facts, ht.records.performances, ht.records.dialogues⟩
  | fact _ _ hq => exact ⟨hcounted rfl rfl, ht.records.putFact (hq.trans_lt (ht.bounded _))⟩
  | performance _ hq => exact ⟨hcounted rfl rfl, ht.records.putPerformance (hq.trans_lt (ht.bounded _))⟩
  | dialogue _ hid hq => exact ⟨hcounted rfl rfl, ht.records.putDialogue ⟨hid, hq.trans_lt (ht.bounded _)⟩⟩
  | forget _ _ _ hes hfacts => exact ⟨hcounted rfl rfl, ht.records.forget hes hfacts⟩
  | note => exact ⟨hcounted rfl rfl, ht.records⟩

theorem machine_call (h : s.Machine) {c : Call} (hc : c.Machine) : (c.onBolt s).2.Machine := (s.writes_machine_call hc).machine h

end BoltStore

/-! ### Either store -/

namespace Store

def Machine : Store → Prop
  | memory s => s.Machine
  | bolt s => s.Machine

variable {s : Store}

theorem Machine.mergeSnapshot (h : s.Machine) {S : Snapshot} (hS : S.Machine) (sourceOrigin : String)
    (now : Clocks) : (s.mergeSnapshotFrom S sourceOrigin now).2.Machine := by
  cases s with
  | memory => exact MemoryStore.machine_call (c := .mergeSnapshotFrom S sourceOrigin now) h hS
  | bolt => exact BoltStore.machine_call (c := .mergeSnapshotFrom S sourceOrigin now) h hS

theorem Reachable.sound_machine (h : s.Reachable) : s.Sound ∧ s.Machine := by
  induction h with
  | newInMemoryStore origin =>
    have hnone : ∀ {α : Type} (p : α → Prop), ∀ x ∈ [], p x := fun p => forall_mem_nil p
    refine ⟨⟨hnone _, hnone _⟩, ⟨hnone _, hnone _, hnone _, hnone _⟩, fun _ => Nat.two_pow_pos 64, fun o => ?_⟩
    change (set ∅ origin 0).get o < 2 ^ 64
    rw [get_set]
    split <;> exact Nat.two_pow_pos 64
  | openBoltStore owner =>
    have hcounted : (Memory.openBoltStore owner).Counted := ⟨fun _ => le_rfl, fun _ => Nat.two_pow_pos 64⟩
    exact ⟨⟨hcounted, forall_mem_nil _, forall_mem_nil _⟩, hcounted, forall_mem_nil _, forall_mem_nil _, forall_mem_nil _,
      forall_mem_nil _⟩
  | @call s h c hc ih =>
    cases s with
    | memory => exact ⟨MemoryStore.dated_call ih.1 c, MemoryStore.machine_call ih.2 hc⟩
    | bolt => exact ⟨BoltStore.sound_call ih.1 hc, BoltStore.machine_call ih.2 hc⟩
  | @prune s h cutoff ih =>
    cases s with
    | memory s =>
      have hwrites : s.Writes (· < 2 ^ 64) (fun _ _ => True) _ := (LocalWrite.prune cutoff).writes s
      exact ⟨hwrites.dated ih.1, hwrites.machine ih.2⟩
    | bolt s =>
      have hwrites : s.Writes (· < 2 ^ 64) True True _ := s.writes_prune cutoff
      exact ⟨hwrites.sound ih.1, hwrites.machine ih.2⟩
  | reopen _ hrecords owner ih =>
    obtain ⟨⟨hcounted, hdated⟩, hmachine⟩ := ih
    have hids := fun d hd => (hmachine.records.dialogues d hd).1
    have hwrites : BoltStore.Writes (· < 2 ^ 64) True True _ _ := BoltStore.writes_reopen hdated hids hrecords owner
    exact ⟨hwrites.sound ⟨⟨hcounted.sequences, hcounted.bounded⟩, hdated⟩,
      hwrites.machine ⟨⟨hcounted.sequences, hcounted.bounded⟩, hmachine.records⟩⟩

theorem Reachable.sound (h : s.Reachable) : s.Sound := h.sound_machine.1

theorem Reachable.machine (h : s.Reachable) : s.Machine := h.sound_machine.2

theorem machine_snapshot {S : Snapshot} {es : List Experience} {facts : Facts} {performances : Performances}
    {dialogues : Dialogues} (h : Sequenced es facts performances dialogues) (hes : ∀ e ∈ S.experiences, e ∈ es)
    (hfacts : ∀ f ∈ S.facts, f ∈ facts.vals) (hperformances : ∀ p ∈ S.performances, p ∈ performances.vals)
    (hdialogues : ∀ d ∈ S.dialogues, d ∈ dialogues.vals) (hw : ∀ o, S.watermarks.get o < 2 ^ 64) : S.Machine := by
  refine ⟨fun r hr => ?_, fun entry hentry => ?_⟩
  · cases r with
    | experience e => exact h.experiences e (hes e (Snapshot.mem_records_experience.mp hr))
    | fact f => exact h.facts f (hfacts f (Snapshot.mem_records_fact.mp hr))
    | performance p => exact h.performances p (hperformances p (Snapshot.mem_records_performance.mp hr))
    | dialogue d => exact (h.dialogues d (hdialogues d (Snapshot.mem_records_dialogue.mp hr))).2
  · rw [← Lib.Clock.get_of_mem hentry]
    exact hw entry.1

theorem Machine.snapshot (h : s.Machine) : s.snapshot.Machine := by
  cases s with
  | memory =>
    exact machine_snapshot h.records (fun e he => mem_reverse.mp he) (fun f hf => (mem_insertionSort _).mp hf)
      (fun p hp => (mem_insertionSort _).mp hp) (fun d hd => (mem_insertionSort _).mp hd) h.watermarks
  | bolt =>
    exact machine_snapshot h.records (fun e he => (mem_insertionSort _).mp he)
      (fun f hf => (mem_insertionSort _).mp hf) (fun p hp => (mem_insertionSort _).mp hp)
      (fun d hd => (mem_insertionSort _).mp hd) h.bounded

end Store

end Maistr0.Memory
