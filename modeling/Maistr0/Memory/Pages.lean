import Maistr0.SyncPage
import Maistr0.Memory.Refinement

/-!
# Pages of a snapshot

`PageSnapshot` of `sync_pages.go`. Only the last page carries watermarks, the upper bound of the whole
transfer. The lengths of JSON texts are a parameter.
-/

namespace Maistr0.Memory

open List

/-- The lengths of the JSON texts that decide where a page ends. -/
structure Encoding where
  record : Record → Except String Nat
  base : Watermarks → Except String Nat

def experiencePageKey (id : Nat) : String :=
  "experience:" ++ String.ofList (leftpad 20 '0' (Nat.toDigits 10 id))

def Record.pageKey : Record → String
  | experience e => experiencePageKey e.id
  | fact f => "fact:" ++ f.scope ++ "\x00" ++ f.key
  | performance p => "performance:" ++ p.nodeID ++ "\x00" ++ p.model ++ "\x00" ++ p.taskType
  | dialogue d => "dialogue:" ++ d.id

def Record.toPage (r : Record) : SyncPage.Record Record where
  value := r
  origin := r.origin
  sequence := r.sequence
  key := r.pageKey

def Snapshot.ofRecords (records : List Record) : Snapshot where
  experiences := records.filterMap fun | .experience e => some e | _ => none
  facts := records.filterMap fun | .fact f => some f | _ => none
  performances := records.filterMap fun | .performance p => some p | _ => none
  dialogues := records.filterMap fun | .dialogue d => some d | _ => none
  syncVersion := syncProtocolVersion

theorem Snapshot.mem_ofRecords {records : List Record} {r : Record} : r ∈ (ofRecords records).records ↔ r ∈ records := by
  cases r
  all_goals
    simp only [mem_records_experience, mem_records_fact, mem_records_performance, mem_records_dialogue, ofRecords,
      mem_filterMap]
    refine ⟨?_, fun h => ⟨_, h, rfl⟩⟩
    rintro ⟨x, hx, hsome⟩
    cases x <;> simp_all

structure Page where
  snapshot : Snapshot
  cursor : Watermarks
  more : Bool

def pageSnapshot (encoding : Encoding) (snapshot : Snapshot) (cursor upper : Watermarks) (maxBytes : Int)
    (envelopeBytes : Nat) : Except String Page := do
  let base ← encoding.base upper
  let (values, nextCursor, more) ←
    SyncPage.next (snapshot.records.map Record.toPage) cursor upper maxBytes (base + envelopeBytes) encoding.record
  let page := Snapshot.ofRecords values
  return { snapshot := if more then page else { page with watermarks := upper }, cursor := nextCursor, more }

structure Page.Covers (page : Page) (snapshot : Snapshot) (cursor upper : Watermarks) : Prop where
  cursor_le : ∀ o, cursor.get o ≤ page.cursor.get o
  cursor_le_upper : ∀ o, page.cursor.get o ≤ max (cursor.get o) (upper.get o)
  complete : ∀ r ∈ snapshot.records, cursor.get r.origin < r.sequence → r.sequence ≤ upper.get r.origin →
    r ∈ page.snapshot.records ∨ (page.more = true ∧ page.cursor.get r.origin < r.sequence)
  watermarks : page.more = false → page.snapshot.watermarks = upper
  cursor_of_more : page.more = true → page.cursor.isEmpty = false

section

variable {encoding : Encoding} {snapshot : Snapshot} {cursor upper : Watermarks} {maxBytes : Int} {envelopeBytes : Nat}
  {page : Page}

theorem pageSnapshot_eq_ok (h : pageSnapshot encoding snapshot cursor upper maxBytes envelopeBytes = .ok page) :
    ∃ base values, SyncPage.next (snapshot.records.map Record.toPage) cursor upper maxBytes base encoding.record =
        .ok (values, page.cursor, page.more) ∧
      (∀ r, r ∈ page.snapshot.records ↔ r ∈ values) ∧ (page.more = false → page.snapshot.watermarks = upper) := by
  unfold pageSnapshot at h
  cases hbase : encoding.base upper with
  | error => simp [hbase, bind, Except.bind] at h
  | ok base =>
    cases hnext : SyncPage.next (snapshot.records.map Record.toPage) cursor upper maxBytes (base + envelopeBytes)
      encoding.record with
    | error => simp [hbase, hnext, bind, Except.bind] at h
    | ok result =>
      obtain ⟨values, nextCursor, more⟩ := result
      have hpage : { snapshot := if more then Snapshot.ofRecords values
            else { Snapshot.ofRecords values with watermarks := upper }, cursor := nextCursor, more } = page := by
        simpa [hbase, hnext, bind, Except.bind, pure, Except.pure] using h
      subst hpage
      have hrecords : ∀ r, r ∈ (if more then Snapshot.ofRecords values
          else { Snapshot.ofRecords values with watermarks := upper }).records ↔ r ∈ values := by
        intro r
        cases more with
        | true | false => exact Snapshot.mem_ofRecords
      refine ⟨_, values, hnext, hrecords, fun hmore => ?_⟩
      change more = false at hmore
      rw [hmore]
      rfl

theorem mem_of_pageSnapshot (h : pageSnapshot encoding snapshot cursor upper maxBytes envelopeBytes = .ok page)
    {r : Record} (hr : r ∈ page.snapshot.records) : r ∈ snapshot.records := by
  obtain ⟨_, _, hnext, hmem, -⟩ := pageSnapshot_eq_ok h
  obtain ⟨_, hx, rfl⟩ := SyncPage.mem_of_next hnext ((hmem r).mp hr)
  obtain ⟨_, hy, rfl⟩ := mem_map.mp hx
  exact hy

theorem pageSnapshot_covers (hstamped : ∀ r ∈ snapshot.records, ¬ Unstamped r.origin r.sequence)
    (hdistinct : (snapshot.records.map Record.stamp).Nodup)
    (h : pageSnapshot encoding snapshot cursor upper maxBytes envelopeBytes = .ok page) :
    page.Covers snapshot cursor upper := by
  obtain ⟨_, values, hnext, hmem, hwatermarks⟩ := pageSnapshot_eq_ok h
  have hfilled : SyncPage.Filled upper.get (snapshot.records.map Record.toPage) [] cursor values page.cursor page.more := by
    refine SyncPage.next_filled ?_ ?_ hnext
    · intro r hr
      obtain ⟨x, hx, rfl⟩ := mem_map.mp hr
      exact hstamped x hx
    · rw [map_map]
      exact hdistinct
  refine ⟨hfilled.cursor_le, hfilled.cursor_le_bound, fun r hr hpast hwithin => ?_, hwatermarks, fun hmore => ?_⟩
  · rw [hmem]
    exact hfilled.complete r.toPage (mem_map_of_mem hr) ⟨hpast, hwithin⟩
  · rw [hmore] at hnext
    exact (SyncPage.fills_of_fill hnext).cursor_of_more fun h => absurd rfl h

end

end Maistr0.Memory
