import Maistr0.Memory.Machine

/-!
# Replaying a batch

Merging a snapshot a second time changes nothing: no record, no stamp, no watermark. In `boltStore` this
holds of every snapshot; in `memoryStore` as long as no counter the merge assigns from comes to its end,
because there a counter that wraps around takes the watermark down with it.
-/

namespace Maistr0.Memory

open Go MemoryStore

variable [CaseFolding]

section Told

variable {restamps : Bool} {source : String} {r : Record} {k : Knowledge} {w : Watermarks}

omit [CaseFolding] in
theorem Knowledge.le_told (k : Knowledge) (source : String) (w : Watermarks) (o : String) :
    k.watermarks o ≤ (k.told source w).watermarks o := by
  change k.watermarks o ≤ if o = "" then k.watermarks o else max (k.watermarks o) (w.get o)
  split
  · exact le_rfl
  · exact le_max_left _ _

omit [CaseFolding] in
theorem Knowledge.told_told (k : Knowledge) (source : String) (w : Watermarks) :
    (k.told source w).told source w = k.told source w := by
  unfold told
  simp only [Knowledge.mk.injEq, true_and, Function.update_self, Function.update_idem]
  refine ⟨funext fun o => ?_, ?_⟩
  · split
    · rfl
    · exact max_eq_left (le_max_right _ _)
  · congr 1
    funext o
    exact max_eq_left (le_max_right _ _)

theorem Absorbed.told (h : Absorbed restamps source r k) (w : Watermarks) :
    Absorbed restamps source r (k.told source w) := by
  cases r with
  | dialogue =>
    refine h.imp_right ?_
    rintro ⟨c, hc, hin, hstamp⟩
    exact ⟨c, hc, hin, hstamp.mono fun _ => k.le_told source w⟩
  | _ => exact h

end Told

namespace Store

/-- No counter that merging `S` can assign from comes to its end, whatever of `S` is observed before. -/
def RoomFor (s : Store) (S : Snapshot) (sourceOrigin : String) : Prop :=
  match s with
  | memory m => m.Room S.records.length (sourceOrLegacy sourceOrigin) S.records
  | bolt _ => True

variable {s s₁ : Store} {S : Snapshot} {sourceOrigin : String} {now : Clocks}

theorem delivers_rising (hs : s.Sound) (hS : S.Machine) (hroom : s.RoomFor S sourceOrigin)
    (h : s.mergeSnapshotFrom S sourceOrigin now = (.ok (), s₁)) :
    ∃ k, Lib.Deliver (fun r k k' => MergeStep s.restamps (sourceOrLegacy sourceOrigin) r k k' ∧
        ∀ o, observed k.watermarks r o ≤ k'.watermarks o) S.records s.knowledge k ∧
      s₁.knowledge = k.told (sourceOrLegacy sourceOrigin) S.watermarks := by
  cases s with
  | memory =>
    obtain ⟨hok, rfl⟩ := Prod.ext_iff.mp h
    obtain ⟨t, hrun, ht⟩ := delivers_mergeSnapshot (Prod.ext hok rfl)
    exact ⟨t.knowledge, rising_run hrun hroom,
      (congrArg MemoryStore.knowledge ht).trans (t.knowledge_observeWatermarks _ _)⟩
  | bolt =>
    obtain ⟨-, -, k, hrun, hk⟩ := delivers hs hS h
    refine ⟨k, (hrun.strengthen (I := fun _ => True) (fun r _ k k' _ hstep => ?_) trivial).1, hk⟩
    exact ⟨⟨hstep, hstep.rising rfl⟩, trivial⟩

end Store

end Maistr0.Memory

namespace Maistr0.Memory.Store

def twoVersions : Snapshot :=
  { facts := [{ key := "k", value := "old", origin := "node-c", sequence := 4, updatedAt := 1 },
      { key := "k", value := "new", origin := "node-b", sequence := 2, updatedAt := 2 }]
    dialogues := [{ id := "d", topic := "plans" }] }

def lastSequence : Snapshot :=
  { experiences := [{ origin := "node-b", sequence := 2 ^ 64 - 1, createdAt := 1 }]
    facts := [{ key := "k", updatedAt := 1 }] }

end Maistr0.Memory.Store
