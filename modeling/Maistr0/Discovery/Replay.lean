import Maistr0.Discovery.Announcements
import Maistr0.Lib.ReplayGuard

/-!
# No announcement is accepted twice

A keyed listener refuses what is too old for the clock and what is not newer than its entry for the ID. It drops
entries that are older than the first check permits, so the table and the clock together form a replay guard.
-/

namespace Maistr0.Discovery

open Go Lib.ReplayGuard List Lib.Keyed

namespace Listener

/-- What happens to a listener: a packet arrives, or one of its methods is called. -/
inductive Event where
  | packet (packet : Option Announcement) (now : Time)
  | snapshot (now : Time)
  | excludePeer (id : String)
  | includePeer (id : String)
deriving DecidableEq

def Event.now? : Event → Option Time
  | .packet _ now => some now
  | .snapshot now => some now
  | _ => none

def Event.cutoff (floor : Int) (event : Event) : Int :=
  match event.now? with
  | some now => now - announcementMaxClockSkew
  | none => floor

def handle [AnnouncementMAC] (l : Listener) : Event → Listener × Option Announcement
  | .packet packet now => ((l.serve packet now).1, if (l.serve packet now).2 then packet else none)
  | .snapshot now => ((l.snapshot now).1, none)
  | .excludePeer id => (l.excludePeer id, none)
  | .includePeer id => (l.includePeer id, none)

def accepted [AnnouncementMAC] (l : Listener) : List Event → List Announcement
  | [] => []
  | event :: events => (l.handle event).2.toList ++ (l.handle event).1.accepted events

def newest (l : Listener) (id : String) : Option Int := (l.lastSeen.get? id).map Prod.snd

def stampOf (ann : Announcement) : String × Int := (ann.id, ann.issuedAtUnixNS)

@[simp] theorem newest_store (l : Listener) (ann : Announcement) (now : Time) : (l.store ann now).newest = l.newest := by
  unfold store
  split <;> rfl

@[simp] theorem authKey_store (l : Listener) (ann : Announcement) (now : Time) :
    (l.store ann now).authKey = l.authKey := by
  unfold store
  split <;> rfl

@[simp] theorem newest_excludePeer (l : Listener) (id : String) : (l.excludePeer id).newest = l.newest := by
  unfold excludePeer
  split <;> rfl

@[simp] theorem newest_includePeer (l : Listener) (id : String) : (l.includePeer id).newest = l.newest := by
  unfold includePeer
  split <;> rfl

variable {l : Listener}

theorem seenBefore_eq_false {ann : Announcement} :
    l.seenBefore ann = false ↔ ∀ newest, l.newest ann.id = some newest → newest < ann.issuedAtUnixNS := by
  unfold seenBefore newest
  cases l.lastSeen.get? ann.id with
  | none | some => simp

theorem newest_remember (l : Listener) (ann : Announcement) (now : Time) (id : String) (t : Int)
    (h : Function.update l.newest ann.id (some ann.issuedAtUnixNS) id = some t)
    (hge : now - announcementMaxClockSkew ≤ t) : (l.remember ann now).newest id = some t := by
  have hput : (l.lastSeen.put (ann.id, ann.issuedAtUnixNS)).get? id = some (id, t) := by
    rw [get?_put]
    by_cases hid : ann.id = id
    · subst hid
      rw [Function.update_self] at h
      rw [if_pos rfl, Option.some.inj h]
    · rw [Function.update_of_ne (Ne.symm hid)] at h
      obtain ⟨entry, hget, rfl⟩ := Option.map_eq_some_iff.mp h
      have hkey : entry.1 = id := keyOf_get? hget
      rw [if_neg hid, hget, ← hkey]
  have hmem := (get?_eq_some.mp hput).1
  refine Option.map_eq_some_iff.mpr ⟨(id, t), get?_eq_some.mpr ⟨?_, rfl⟩, rfl⟩
  rw [remember, vals_filter, mem_filter]
  exact ⟨hmem, by simpa using hge⟩

theorem cutoff_le {event : Event} {events : List Event} {floor : Int}
    (hfloor : ∀ now ∈ (event :: events).filterMap Event.now?, floor ≤ now - announcementMaxClockSkew)
    (hclock : ((event :: events).filterMap Event.now?).Pairwise (· ≤ ·)) :
    floor ≤ event.cutoff floor ∧
      ∀ now ∈ events.filterMap Event.now?, event.cutoff floor ≤ now - announcementMaxClockSkew := by
  unfold Event.cutoff
  cases hnow : event.now? with
  | none =>
    rw [filterMap_cons_none hnow] at hfloor
    exact ⟨le_rfl, hfloor⟩
  | some first =>
    rw [filterMap_cons_some hnow] at hfloor hclock
    refine ⟨hfloor first mem_cons_self, fun now hmem => ?_⟩
    exact Int.sub_le_sub_right (rel_of_pairwise_cons hclock hmem) _

section

variable [AnnouncementMAC]

theorem serve_cases (hkey : l.authKey ≠ []) (packet : Option Announcement) (now : Time) :
    l.serve packet now = (l, false) ∨
      ∃ ann, packet = some ann ∧ l.serve packet now = ((l.remember ann now).store ann now, true) ∧
        Admits (now - announcementMaxClockSkew) l.newest ann.id ann.issuedAtUnixNS := by
  cases packet with
  | none => exact .inl rfl
  | some ann =>
    simp only [serve, acceptAnnouncement, if_pos hkey]
    by_cases hself : ann.id = "" ∨ ann.id ∈ l.selfIDs
    · rw [if_pos hself]
      exact .inl rfl
    rw [if_neg hself]
    by_cases hverify : verifyAnnouncement ann l.authKey now = false
    · rw [if_pos hverify]
      exact .inl rfl
    rw [if_neg hverify]
    by_cases hseen : l.seenBefore ann = true
    · rw [if_pos hseen]
      exact .inl rfl
    rw [if_neg hseen]
    have hwindow := window_of_verifyAnnouncement (Bool.not_eq_false _ ▸ hverify)
    have hnewer := seenBefore_eq_false.mp (Bool.not_eq_true _ ▸ hseen)
    exact .inr ⟨ann, rfl, rfl, hwindow.1, hnewer⟩

theorem handle_guards (hkey : l.authKey ≠ []) (event : Event) {floor : Int}
    {past : List (String × Int)} (hguards : Guards floor l.newest past) (hfloor : floor ≤ event.cutoff floor) :
    (l.handle event).1.authKey ≠ [] ∧
      Guards (event.cutoff floor) (l.handle event).1.newest ((l.handle event).2.toList.map stampOf ++ past) ∧
      ∀ ann ∈ (l.handle event).2.toList, ∀ m ∈ past, m.1 = ann.id → m.2 < ann.issuedAtUnixNS := by
  have hraised := hguards.raise hfloor
  have hnone : ∀ ann ∈ (none : Option Announcement).toList, ∀ m ∈ past, m.1 = ann.id → m.2 < ann.issuedAtUnixNS :=
    fun _ hann => absurd hann not_mem_nil
  cases event with
  | snapshot => exact ⟨hkey, hraised, hnone⟩
  | excludePeer =>
    refine ⟨?_, by simpa [handle] using hraised, hnone⟩
    simp only [handle, excludePeer]
    split <;> exact hkey
  | includePeer =>
    refine ⟨?_, by simpa [handle] using hraised, hnone⟩
    simp only [handle, includePeer]
    split <;> exact hkey
  | packet packet now =>
    rcases serve_cases hkey packet now with hrefused | ⟨ann, rfl, haccepted, hadmits⟩
    · simp only [handle, hrefused]
      exact ⟨hkey, hraised, hnone⟩
    simp only [handle, haccepted]
    refine ⟨by simpa [remember] using hkey, ?_, ?_⟩
    · rw [newest_store]
      exact (hraised.record hadmits).forget (newest_remember l ann now)
    intro other hother
    obtain rfl := mem_singleton.mp hother
    exact hraised.lt_of_admits hadmits

theorem accepted_newer (events : List Event) : ∀ {l : Listener}, l.authKey ≠ [] → ∀ {floor : Int}
    {past : List (String × Int)}, Guards floor l.newest past →
    (∀ now ∈ events.filterMap Event.now?, floor ≤ now - announcementMaxClockSkew) →
    (events.filterMap Event.now?).Pairwise (· ≤ ·) →
    (∀ ann ∈ l.accepted events, ∀ m ∈ past, m.1 = ann.id → m.2 < ann.issuedAtUnixNS) ∧
      (l.accepted events).Pairwise fun older newer =>
        older.id = newer.id → older.issuedAtUnixNS < newer.issuedAtUnixNS := by
  -- `past` collects what was accepted before the events that remain
  induction events with
  | nil => exact fun _ _ _ _ _ _ => ⟨fun _ hann => absurd hann not_mem_nil, Pairwise.nil⟩
  | cons event events ih =>
    intro l hkey floor past hguards hfloor hclock
    obtain ⟨hraise, hlater⟩ := cutoff_le hfloor hclock
    obtain ⟨hkey', hguards', hnewer⟩ := handle_guards hkey event hguards hraise
    have hsub : (events.filterMap Event.now?).Sublist ((event :: events).filterMap Event.now?) :=
      (sublist_cons_self event events).filterMap _
    obtain ⟨hpast, hpairwise⟩ := ih hkey' hguards' hlater (hclock.sublist hsub)
    constructor
    · intro ann hann m hm
      rcases mem_append.mp hann with hann | hann
      · exact hnewer ann hann m hm
      · exact hpast ann hann m (mem_append_right _ hm)
    · refine pairwise_append.mpr ⟨?_, hpairwise, fun older holder newer hnewer hid => ?_⟩
      · cases (l.handle event).2 with
        | none => exact Pairwise.nil
        | some ann => exact pairwise_singleton _ ann
      · exact hpast newer hnewer (stampOf older) (mem_append_left _ (mem_map_of_mem holder)) hid

/-- However packets are repeated, reordered or re-sent, and whatever the table forgets, what a keyed listener accepts
for one ID has strictly increasing times of issue, so it accepts nothing twice. -/
theorem accepted_increasing (secret : List UInt8) (hsecret : secret ≠ []) (selfIDs : List String) (events : List Event)
    (hclock : (events.filterMap Event.now?).Pairwise (· ≤ ·)) :
    ((listenWithSecret secret selfIDs).accepted events).Pairwise (fun older newer =>
        older.id = newer.id → older.issuedAtUnixNS < newer.issuedAtUnixNS) ∧
      ((listenWithSecret secret selfIDs).accepted events).Nodup := by
  obtain ⟨floor, hfloor⟩ : ∃ floor : Int, ∀ now ∈ events.filterMap Event.now?, floor ≤ now - announcementMaxClockSkew := by
    cases hnows : events.filterMap Event.now? with
    | nil => exact ⟨0, fun _ hmem => absurd hmem not_mem_nil⟩
    | cons first =>
      rw [hnows] at hclock
      refine ⟨first - announcementMaxClockSkew, fun now hmem => ?_⟩
      rcases mem_cons.mp hmem with rfl | hmem
      · exact le_rfl
      · exact Int.sub_le_sub_right (rel_of_pairwise_cons hclock hmem) _
  have hincreasing := (accepted_newer events (l := listenWithSecret secret selfIDs) hsecret guards_nil hfloor hclock).2
  exact ⟨hincreasing, hincreasing.imp fun h heq => absurd (h (congrArg Announcement.id heq)) (heq ▸ lt_irrefl _)⟩

end

/-- A packet is heard, captured and sent again: at once, and after the entry that guarded against it is dropped. -/
theorem accepted_increasing_replayed : let mac := "0000000000000000000000000000000000000000000000000000000000000000"
    let first : Announcement := { role := .node, id := "a", issuedAtUnixNS := 100000000000, hmacSHA256 := mac }
    let second : Announcement := { role := .node, id := "b", issuedAtUnixNS := 200000000000, hmacSHA256 := mac }
    let events : List Event := [.packet (some first) 100000000000, .packet (some first) 110000000000,
      .packet (some second) 200000000000, .packet (some first) 200000000000]
    (listenWithSecret [1] ["self"]).accepted events = [first, second] ∧
      ((listenWithSecret [1] ["self"]).accepted events).Pairwise (fun older newer =>
        older.id = newer.id → older.issuedAtUnixNS < newer.issuedAtUnixNS) ∧
      ((listenWithSecret [1] ["self"]).accepted events).Nodup := by
  intro mac first second events
  exact ⟨by decide, accepted_increasing [1] (by decide) ["self"] events (by decide)⟩

end Listener

end Maistr0.Discovery
