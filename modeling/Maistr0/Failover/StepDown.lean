import Maistr0.Orchestrator.Election

/-!
# Promoted orchestrators that step down

`watch` of `failover.go` over the network of `electionComponent`s: a promoted orchestrator periodically looks for one that
should lead instead, asks it whether it is elected, and steps down if the same one says so on two checks in a row. The
answer to a probe is on its way while everything else goes on, and the step-down itself has two steps: the coordinator
gives up the server, then the server retires.
-/

namespace Maistr0.Failover

open Go Discovery Orchestrator Relation List Function Option

/-! ### The challengers -/

def challenges (self : Announcement) (replacedID : String) (isTrusted : String → Bool) (peer : Peer) : Bool :=
  if peer.role ≠ .orchestrator ∨ peer.id = self.id ∨ peer.announcement.peerAddr = "" ∨ isTrusted peer.id = false then false
  else
    let original := decide (replacedID ≠ "") && decide (peer.id = replacedID) &&
      decide (self.members ≤ peer.announcement.members)
    outranks peer.announcement self || original || decide (self.members < peer.announcement.members)

def leadsMore (p q : Peer) : Prop :=
  if p.announcement.members ≠ q.announcement.members then q.announcement.members < p.announcement.members
  else if p.announcement.score ≠ q.announcement.score then q.announcement.score < p.announcement.score
  else p.id < q.id

instance : DecidableRel leadsMore := fun p q => by unfold leadsMore; infer_instance

def stepDownCandidates (self : Announcement) (replacedID : String) (peers : List Peer) (isTrusted : String → Bool) :
    List Peer :=
  (peers.filter (challenges self replacedID isTrusted)).insertionSort leadsMore

theorem role_of_mem_stepDownCandidates {self : Announcement} {replacedID : String} {peers : List Peer}
    {isTrusted : String → Bool} {p : Peer} (h : p ∈ stepDownCandidates self replacedID peers isTrusted) :
    p ∈ peers ∧ p.role = .orchestrator := by
  obtain ⟨hmem, hchallenges⟩ := mem_filter.mp ((mem_insertionSort leadsMore).mp h)
  refine ⟨hmem, ?_⟩
  by_contra hrole
  rw [challenges, if_pos (.inl hrole)] at hchallenges
  exact absurd hchallenges Bool.false_ne_true

/-! ### The watch -/

/-- Where the watch over a promoted server stands: between two checks, with the challengers it has left to ask, with the
answer of a challenger on its way, and on the way down. -/
inductive Watch where
  | waiting (pending : String)
  | probing (pending : String) (left : List Peer)
  | answered (pending : String) (target : Peer) (left : List Peer)
  | decided (target : Peer)
  | leaving (target : Peer)
  | retired (target : Peer)
  | ended
deriving DecidableEq

structure Sites (ι : Type) where
  address : ι → String
  replacedID : ι → String

structure Contest (ι : Type) where
  net : Network ι
  promoted : ι → Bool
  watch : ι → Watch

def snapshot (e : ElectionComponent) (now : Time) : ElectionComponent × List Peer :=
  match e.discovery with
  | none => (e, [])
  | some l => ({ e with discovery := some (l.snapshot now).1 }, (l.snapshot now).2)

namespace Contest

variable {ι : Type} [DecidableEq ι]

def setWatch (c : Contest ι) (i : ι) (w : Watch) : Contest ι := { c with watch := Function.update c.watch i w }

def setComponent (c : Contest ι) (i : ι) (e : ElectionComponent) : Contest ι := { c with net := c.net.update i e [] }

def drop (c : Contest ι) (i : ι) : Contest ι := { c with promoted := Function.update c.promoted i false }

/-- The component after `LeadershipAnnouncement` and `Snapshot`, and the challengers it sees. -/
def look (c : Contest ι) (sites : Sites ι) (i : ι) (members : Nat) (elected : Bool) (isTrusted : String → Bool) :
    ElectionComponent × List Peer :=
  let self := (c.net.component i).selfAnnouncement (c.net.clock i) members elected
  let seen := snapshot self.1 (c.net.clock i)
  (seen.1, stepDownCandidates self.2 (sites.replacedID i) seen.2 isTrusted)

/-- An instance has told another one that it is elected, or something else has happened. -/
inductive Event (ι : Type) where
  | other
  | answered (responder : ι)

inductive Step [AnnouncementMAC] (sites : Sites ι) : Contest ι → Event ι → Contest ι → Prop
  -- the network
  | tick {c : Contest ι} (i : ι) (t : Time) (hle : c.net.clock i ≤ t) :
      Step sites c .other { c with net := { c.net with clock := Function.update c.net.clock i t } }
  | announced {c : Contest ι} (i : ι) (sentAt : Time) (members : Nat) (elected : Bool) (httpAddr : String)
      (e : ElectionComponent) (ann : Option Announcement)
      (hbeacon : (c.net.component i).beacon (c.net.clock i) sentAt members elected httpAddr (sites.address i) = (e, ann)) :
      Step sites c .other { c with net := c.net.update i e (ann.toList.map (some i, ·)) }
  | nodeAnnounced {c : Contest ι} (ann : Announcement) (hrole : ann.role ≠ .orchestrator) :
      Step sites c .other { c with net := { c.net with sent := (none, ann) :: c.net.sent } }
  | delivered {c : Contest ι} (i : ι) (sender : Option ι) (ann : Announcement) (hsent : (sender, ann) ∈ c.net.sent) :
      Step sites c .other { c with net := c.net.onListener i fun l => (l.serve (some ann) (c.net.clock i)).1 }
  | excluded {c : Contest ι} (i : ι) (id : String) :
      Step sites c .other { c with net := c.net.onListener i (·.excludePeer id) }
  | included {c : Contest ι} (i : ι) (id : String) :
      Step sites c .other { c with net := c.net.onListener i (·.includePeer id) }
  | rescored {c : Contest ι} (i : ι) (score : Rat) :
      Step sites c .other (c.setComponent i { c.net.component i with selfScore := score })
  -- `watch`
  | checked {c : Contest ι} (i : ι) {pending : String} (members : Nat) (elected : Bool) (isTrusted : String → Bool)
      (hwatch : c.watch i = .waiting pending) :
      Step sites c .other ((c.setComponent i (c.look sites i members elected isTrusted).1).setWatch i
        (.probing pending (c.look sites i members elected isTrusted).2))
  | answered {c : Contest ι} (i j : ι) {pending : String} {target : Peer} {left : List Peer}
      (hwatch : c.watch i = .probing pending (target :: left)) (haddress : sites.address j = target.announcement.peerAddr)
      (helected : ((c.net.component j).isElectedOrchestrator (c.net.clock j)).2 = true) :
      Step sites c (.answered j) ((c.setComponent j ((c.net.component j).isElectedOrchestrator (c.net.clock j)).1).setWatch i
        (.answered pending target left))
  | declined {c : Contest ι} (i j : ι) {pending : String} {target : Peer} {left : List Peer}
      (hwatch : c.watch i = .probing pending (target :: left)) (haddress : sites.address j = target.announcement.peerAddr)
      (helected : ((c.net.component j).isElectedOrchestrator (c.net.clock j)).2 = false) :
      Step sites c .other ((c.setComponent j ((c.net.component j).isElectedOrchestrator (c.net.clock j)).1).setWatch i
        (.probing pending left))
  | unreachable {c : Contest ι} (i : ι) {pending : String} {target : Peer} {left : List Peer}
      (hwatch : c.watch i = .probing pending (target :: left)) :
      Step sites c .other (c.setWatch i (.probing pending left))
  | lost {c : Contest ι} (i : ι) {pending : String} {target : Peer} {left : List Peer}
      (hwatch : c.watch i = .answered pending target left) : Step sites c .other (c.setWatch i (.probing pending left))
  | unchallenged {c : Contest ι} (i : ι) {pending : String} (hwatch : c.watch i = .probing pending []) :
      Step sites c .other (c.setWatch i (.waiting ""))
  | first {c : Contest ι} (i : ι) {pending : String} {target : Peer} {left : List Peer}
      (hwatch : c.watch i = .answered pending target left) (hpending : pending ≠ target.id) :
      Step sites c .other (c.setWatch i (.waiting target.id))
  | second {c : Contest ι} (i : ι) {pending : String} {target : Peer} {left : List Peer}
      (hwatch : c.watch i = .answered pending target left) (hpending : pending = target.id) :
      Step sites c .other (c.setWatch i (.decided target))
  | cancelled {c : Contest ι} (i : ι) {pending : String} (hwatch : c.watch i = .waiting pending) :
      Step sites c .other (c.setWatch i .ended)
  -- the server stops, or the coordinator is closed
  | dropped {c : Contest ι} (i : ι) : Step sites c .other (c.drop i)
  -- `stepDown`
  | stale {c : Contest ι} (i : ι) {target : Peer} (hwatch : c.watch i = .decided target) (hpromoted : c.promoted i = false) :
      Step sites c .other (c.setWatch i .ended)
  | stepDown {c : Contest ι} (i : ι) {target : Peer} (hwatch : c.watch i = .decided target) (hpromoted : c.promoted i = true) :
      Step sites c .other ((c.drop i).setWatch i (.leaving target))
  | retired {c : Contest ι} (i : ι) {target : Peer} (hwatch : c.watch i = .leaving target) :
      Step sites c .other ((c.setComponent i ((c.net.component i).setRetired true)).setWatch i (.retired target))

/-- The watch has the answer that makes it step down, and the server has not retired yet. -/
def OnTheWayDown : Watch → Prop
  | .answered pending target _ => pending = target.id
  | .decided _ | .leaving _ => True
  | _ => False

def Steady (c : Contest ι) : Event ι → Prop
  | .other => True
  | .answered responder => ¬ OnTheWayDown (c.watch responder)

def Run [AnnouncementMAC] (sites : Sites ι) (allowed : Contest ι → Event ι → Prop) : Contest ι → Contest ι → Prop :=
  ReflTransGen fun c c' => ∃ event, Step sites c event c' ∧ allowed c event

def BothSteppedDown (c : Contest ι) (i j : ι) : Prop :=
  ∃ ti tj, c.watch i = .retired ti ∧ ti.id = (c.net.component j).selfID ∧
    c.watch j = .retired tj ∧ tj.id = (c.net.component i).selfID

/-! ### What the instances know of each other -/

def Genuine (sites : Sites ι) (ids : ι → String) (ann : Announcement) : Prop :=
  ann.role = .orchestrator → ∃ k, ann.id = ids k ∧ ann.peerAddr = sites.address k

structure Knows (sites : Sites ι) (ids : ι → String) (i : ι) (e : ElectionComponent) : Prop where
  selfID : e.selfID = ids i
  table : ∀ l, e.discovery = some l → ∀ p ∈ l.peers.vals, Genuine sites ids p.announcement

section Knows

omit [DecidableEq ι]

variable {sites : Sites ι} {ids : ι → String} {i : ι} {e : ElectionComponent} {now : Time}

theorem Knows.onListener (h : Knows sites ids i e) {f : Listener → Listener}
    (hpeers : ∀ l, ∀ p ∈ (f l).peers.vals, p ∈ l.peers.vals ∨ Genuine sites ids p.announcement) :
    Knows sites ids i { e with discovery := e.discovery.map f } where
  selfID := h.selfID
  table l hl p hp := by
    obtain ⟨l₀, hl₀, rfl⟩ := map_eq_some_iff.mp hl
    exact (hpeers l₀ p hp).elim (h.table l₀ hl₀ p) id

theorem Knows.snapshot (h : Knows sites ids i e) (now : Time) :
    Knows sites ids i (snapshot e now).1 ∧ ∀ p ∈ (snapshot e now).2, Genuine sites ids p.announcement := by
  unfold Failover.snapshot
  split
  · exact ⟨h, by simp⟩
  rename_i l hl
  refine ⟨⟨h.selfID, fun l' hl' p hp => ?_⟩, fun p hp => h.table l hl p (Listener.mem_peers_snapshot.mp hp).1⟩
  obtain rfl := some.inj hl'
  exact h.table l hl p (mem_of_mem_filter hp)

theorem Knows.isElectedOrchestrator (h : Knows sites ids i e) (now : Time) :
    Knows sites ids i (e.isElectedOrchestrator now).1 := by
  unfold ElectionComponent.isElectedOrchestrator
  split
  · exact h
  split
  · exact h
  rename_i l hl
  split
  · exact h
  refine ⟨h.selfID, fun l' hl' p hp => ?_⟩
  obtain rfl := some.inj hl'
  exact h.table l hl p (mem_of_mem_filter hp)

theorem retired_isElectedOrchestrator (e : ElectionComponent) (now : Time) :
    (e.isElectedOrchestrator now).1.retired = e.retired := by
  unfold ElectionComponent.isElectedOrchestrator
  split
  · rfl
  split
  · rfl
  · split <;> rfl

theorem retired_snapshot (e : ElectionComponent) (now : Time) : (snapshot e now).1.retired = e.retired := by
  unfold Failover.snapshot
  split <;> rfl

end Knows

end Contest

def Watch.peers : Watch → List Peer
  | .probing _ left => left
  | .answered _ target left => target :: left
  | .decided target | .leaving target | .retired target => [target]
  | _ => []

def Watch.LeansTo : Watch → String → Prop
  | .answered pending target _, id => pending = target.id ∧ target.id = id
  | .decided target, id | .leaving target, id | .retired target, id => target.id = id
  | _, _ => False

namespace Contest

variable {ι : Type} [DecidableEq ι]

structure Inv (sites : Sites ι) (ids : ι → String) (c : Contest ι) : Prop where
  knows : ∀ i, Knows sites ids i (c.net.component i)
  sent : ∀ m ∈ c.net.sent, Genuine sites ids m.2
  probing : ∀ i, ∀ p ∈ (c.watch i).peers, ∃ k, p.id = ids k ∧ p.announcement.peerAddr = sites.address k
  retired : ∀ i t, c.watch i = .retired t → (c.net.component i).retired = true
  apart : ∀ i j, i ≠ j → (c.watch i).LeansTo (ids j) → ¬ (c.watch j).LeansTo (ids i)

section Steps

variable {sites : Sites ι} {ids : ι → String} {c c' : Contest ι} {i : ι}

variable {e : ElectionComponent} {w : Watch}

section

variable (h : Inv sites ids c)

include h

theorem Inv.update {more : List (Option ι × Announcement)} (he : Knows sites ids i e)
    (hmore : ∀ m ∈ more, Genuine sites ids m.2) (hretired : (c.net.component i).retired = true → e.retired = true) :
    Inv sites ids { c with net := c.net.update i e more } where
  knows j := by
    change Knows sites ids j (Function.update c.net.component i e j)
    by_cases hj : j = i
    · subst hj
      rw [update_self]
      exact he
    · rw [update_of_ne hj]
      exact h.knows j
  sent m hm := (mem_append.mp hm).elim (hmore m) (h.sent m)
  probing := h.probing
  retired j t ht := by
    change (Function.update c.net.component i e j).retired = true
    by_cases hj : j = i
    · subst hj
      rw [update_self]
      exact hretired (h.retired j t ht)
    · rw [update_of_ne hj]
      exact h.retired j t ht
  apart := h.apart

theorem Inv.setComponent (he : Knows sites ids i e)
    (hretired : (c.net.component i).retired = true → e.retired = true) : Inv sites ids (c.setComponent i e) :=
  h.update he (fun _ hm => absurd hm not_mem_nil) hretired

theorem Inv.onListener (i : ι) {f : Listener → Listener}
    (hpeers : ∀ l, ∀ p ∈ (f l).peers.vals, p ∈ l.peers.vals ∨ Genuine sites ids p.announcement) :
    Inv sites ids { c with net := c.net.onListener i f } :=
  h.update ((h.knows i).onListener hpeers) (fun _ hm => absurd hm not_mem_nil) fun hretired => hretired

theorem Inv.setWatch (hprobing : ∀ p ∈ w.peers, ∃ k, p.id = ids k ∧ p.announcement.peerAddr = sites.address k)
    (hretired : ∀ t, w = .retired t → (c.net.component i).retired = true)
    (hapart : ∀ j, i ≠ j → w.LeansTo (ids j) → ¬ (c.watch j).LeansTo (ids i)) :
    Inv sites ids (c.setWatch i w) where
  knows := h.knows
  sent := h.sent
  probing j := by
    change ∀ p ∈ (Function.update c.watch i w j).peers, _
    by_cases hj : j = i
    · rw [hj, update_self]
      exact hprobing
    · rw [update_of_ne hj]
      exact h.probing j
  retired j t ht := by
    change Function.update c.watch i w j = .retired t at ht
    by_cases hj : j = i
    · rw [hj, update_self] at ht
      rw [hj]
      exact hretired t ht
    · rw [update_of_ne hj] at ht
      exact h.retired j t ht
  apart j k hne := by
    change (Function.update c.watch i w j).LeansTo (ids k) → ¬ (Function.update c.watch i w k).LeansTo (ids j)
    by_cases hj : j = i
    · subst hj
      rw [update_self, update_of_ne (Ne.symm hne)]
      exact hapart k hne
    by_cases hk : k = i
    · subst hk
      rw [update_self, update_of_ne hj]
      exact fun hleans hback => hapart j (Ne.symm hj) hback hleans
    · rw [update_of_ne hj, update_of_ne hk]
      exact h.apart j k hne

theorem Inv.moveOn (hpeers : ∀ p ∈ w.peers, p ∈ (c.watch i).peers) (hretired : ∀ t, w ≠ .retired t)
    (hleans : ∀ id, w.LeansTo id → (c.watch i).LeansTo id) :
    Inv sites ids (c.setWatch i w) :=
  h.setWatch (fun p hp => h.probing i p (hpeers p hp)) (fun t ht => absurd ht (hretired t))
    fun j hne hw => h.apart i j hne (hleans _ hw)

end

theorem leansTo_cases {id : String} (h : w.LeansTo id) : OnTheWayDown w ∨ ∃ t, w = .retired t := by
  cases w with
  | answered => exact .inl h.1
  | decided | leaving => exact .inl trivial
  | retired target => exact .inr ⟨target, rfl⟩
  | _ => exact h.elim

theorem not_elected_of_retired {now : Time} (h : e.retired = true) : (e.isElectedOrchestrator now).2 = false := by
  rw [ElectionComponent.isElectedOrchestrator, if_pos h]

/-- The answer comes from an instance that leads and is not on its way down, so that one does not lean back. -/
theorem Inv.answer (h : Inv sites ids c) (hids : Injective ids) (haddresses : Injective sites.address) {j : ι}
    {pending : String} {target : Peer} {left : List Peer} (hwatch : c.watch i = .probing pending (target :: left))
    (haddress : sites.address j = target.announcement.peerAddr)
    (helected : ((c.net.component j).isElectedOrchestrator (c.net.clock j)).2 = true)
    (hsteady : ¬ OnTheWayDown (c.watch j)) :
    Inv sites ids ((c.setComponent j ((c.net.component j).isElectedOrchestrator (c.net.clock j)).1).setWatch i
      (.answered pending target left)) := by
  have hset := h.setComponent (i := j) ((h.knows j).isElectedOrchestrator (c.net.clock j)) fun hretired =>
    (retired_isElectedOrchestrator _ _).trans hretired
  have hpeers := h.probing i
  rw [hwatch] at hpeers
  refine hset.setWatch hpeers (fun _ => Watch.noConfusion) ?_
  rintro k - ⟨-, hid⟩ hback
  obtain ⟨_, hid', haddress'⟩ := hpeers target mem_cons_self
  obtain rfl : j = k := haddresses (haddress.trans (haddress'.trans (congrArg _ (hids (hid'.symm.trans hid)))))
  rcases leansTo_cases hback with hdown | ⟨t, ht⟩
  · exact hsteady hdown
  · rw [not_elected_of_retired (h.retired j t ht)] at helected
    exact Bool.false_ne_true helected

theorem Inv.step [AnnouncementMAC] (h : Inv sites ids c) (hids : Injective ids)
    (haddresses : Injective sites.address) {event : Event ι} (hstep : Step sites c event c')
    (hsteady : c.Steady event) : Inv sites ids c' := by
  cases hstep with
  | tick | dropped => exact ⟨h.knows, h.sent, h.probing, h.retired, h.apart⟩
  | announced i _ _ _ _ _ ann hbeacon =>
    obtain ⟨hcomponent, hann⟩ := ElectionComponent.beacon_spec hbeacon
    have hmore : ∀ m ∈ ann.toList.map (some i, ·), Genuine sites ids m.2 := by
      intro m hm
      obtain ⟨ann', hmem, rfl⟩ := mem_map.mp hm
      obtain ⟨⟨hid, -, haddress⟩, -⟩ := hann ann' (mem_toList.mp hmem)
      exact fun _ => ⟨i, hid.trans (h.knows i).selfID, haddress⟩
    rcases hcomponent with ⟨-, rfl⟩ | rfl
    · exact h.update (h.knows i) hmore fun hretired => hretired
    · exact h.update ((h.knows i).isElectedOrchestrator _) hmore fun hretired =>
        (retired_isElectedOrchestrator _ _).trans hretired
  | nodeAnnounced _ hrole =>
    refine ⟨h.knows, fun m hm => ?_, h.probing, h.retired, h.apart⟩
    rcases mem_cons.mp hm with rfl | hm
    · exact fun horchestrator => absurd horchestrator hrole
    · exact h.sent m hm
  | delivered i _ _ hsent =>
    refine h.onListener i fun l p hp => (Listener.mem_peers_serve hp).imp_right fun ⟨hpacket, _⟩ => ?_
    obtain rfl := some.inj hpacket
    exact h.sent _ hsent
  | excluded i => exact h.onListener i fun l p hp => .inl (Listener.mem_peers_excludePeer hp)
  | included i =>
    refine h.onListener i fun l p hp => .inl ?_
    rwa [Listener.peers_includePeer] at hp
  | rescored i => exact h.setComponent ⟨(h.knows i).selfID, (h.knows i).table⟩ fun hretired => hretired
  | checked i =>
    have hself := (h.knows i).isElectedOrchestrator (c.net.clock i)
    obtain ⟨hknows, hseen⟩ := hself.snapshot (c.net.clock i)
    have hset := h.setComponent (i := i) hknows fun hretired =>
      (retired_snapshot _ _).trans ((retired_isElectedOrchestrator _ _).trans hretired)
    refine hset.setWatch (fun p hp => ?_) (fun _ => Watch.noConfusion) fun _ _ hleans => hleans.elim
    obtain ⟨hmem, hrole⟩ := role_of_mem_stepDownCandidates hp
    exact hseen p hmem hrole
  | answered _ _ hwatch haddress helected => exact h.answer hids haddresses hwatch haddress helected hsteady
  | declined i j hwatch =>
    have hset := h.setComponent (i := j) ((h.knows j).isElectedOrchestrator (c.net.clock j)) fun hretired =>
      (retired_isElectedOrchestrator _ _).trans hretired
    refine hset.moveOn (fun p hp => ?_) (fun _ => Watch.noConfusion) fun _ hid => hid.elim
    change p ∈ (c.watch i).peers
    rw [hwatch]
    exact mem_cons_of_mem _ hp
  | unreachable _ hwatch | lost _ hwatch =>
    refine h.moveOn (fun p hp => ?_) (fun _ => Watch.noConfusion) fun _ hid => hid.elim
    rw [hwatch]
    exact mem_cons_of_mem _ hp
  | unchallenged | first | cancelled | stale =>
    exact h.moveOn (fun _ hp => absurd hp not_mem_nil) (fun _ => Watch.noConfusion) fun _ hid => hid.elim
  | second _ hwatch hpending =>
    refine h.moveOn (fun p hp => ?_) (fun _ => Watch.noConfusion) fun id hid => ?_
    · rw [hwatch, mem_singleton.mp hp]
      exact mem_cons_self
    · rw [hwatch]
      exact ⟨hpending, hid⟩
  | stepDown i hwatch =>
    have hdrop : Inv sites ids (c.drop i) := ⟨h.knows, h.sent, h.probing, h.retired, h.apart⟩
    refine hdrop.moveOn (fun p hp => ?_) (fun _ => Watch.noConfusion) fun id hid => ?_
    · change p ∈ (c.watch i).peers
      rw [hwatch]
      exact hp
    · change (c.watch i).LeansTo id
      rw [hwatch]
      exact hid
  | retired i hwatch =>
    have hset := h.setComponent (i := i) (e := (c.net.component i).setRetired true)
      ⟨(h.knows i).selfID, (h.knows i).table⟩ fun _ => rfl
    have hprobing := h.probing i
    have hapart := h.apart i
    rw [hwatch] at hprobing hapart
    refine hset.setWatch hprobing (fun t _ => ?_) hapart
    change (Function.update c.net.component i ((c.net.component i).setRetired true) i).retired = true
    rw [update_self]
    rfl

end Steps

/-- Promoted orchestrators that have not checked yet. What they have heard of orchestrators is genuine. -/
structure Starts (sites : Sites ι) (c : Contest ι) : Prop where
  promoted : ∀ i, c.promoted i = true ∧ (c.net.component i).retired = false
  watch : ∀ i, c.watch i = .waiting ""
  table : ∀ i l, (c.net.component i).discovery = some l →
    ∀ p ∈ l.peers.vals, Genuine sites (fun k => (c.net.component k).selfID) p.announcement
  sent : ∀ m ∈ c.net.sent, Genuine sites (fun k => (c.net.component k).selfID) m.2

omit [DecidableEq ι] in
theorem Starts.inv {sites : Sites ι} {c : Contest ι} (h : c.Starts sites) :
    Inv sites (fun k => (c.net.component k).selfID) c where
  knows i := ⟨rfl, h.table i⟩
  sent := h.sent
  probing i p hp := by
    rw [h.watch i] at hp
    exact absurd hp not_mem_nil
  retired i t ht := by
    rw [h.watch i] at ht
    exact Watch.noConfusion ht
  apart i j _ hleans := by
    rw [h.watch i] at hleans
    exact hleans.elim

theorem Inv.run [AnnouncementMAC] {sites : Sites ι} {ids : ι → String} {c c' : Contest ι} (h : Inv sites ids c)
    (hids : Injective ids) (haddresses : Injective sites.address) (hrun : Run sites Steady c c') :
    Inv sites ids c' := by
  induction hrun with
  | refl => exact h
  | tail _ hstep ih =>
    obtain ⟨_, hstep, hsteady⟩ := hstep
    exact ih.step hids haddresses hstep hsteady

/-- Two promoted orchestrators never step down in favour of each other, as long as none that is on its way down tells
another one that it is elected. -/
theorem never_both_step_down [AnnouncementMAC] (sites : Sites ι) (start c : Contest ι) (hstart : start.Starts sites)
    (hids : Function.Injective fun k => (start.net.component k).selfID) (haddresses : Function.Injective sites.address)
    (hrun : Run sites Steady start c) (i j : ι) (hne : i ≠ j) : ¬ c.BothSteppedDown i j := by
  have hinv := hstart.inv.run hids haddresses hrun
  rintro ⟨_, _, hi, hij, hj, hji⟩
  refine hinv.apart i j hne ?_ ?_
  · rw [hi]
    exact hij.trans (hinv.knows j).selfID
  · rw [hj]
    exact hji.trans (hinv.knows i).selfID

def pair : Sites Bool where
  address i := if i then "https://b" else "https://a"
  replacedID _ := ""

def pairStart : Contest Bool where
  net :=
    { component := fun i =>
        { selfID := if i then "b" else "a", selfScore := if i then 2 else 1
          discovery := some (Listener.listenWithSecret [] [if i then "b" else "a"]) }
      clock := fun _ => 1 }
  promoted _ := true
  watch _ := .waiting ""

theorem pairStart_starts : pairStart.Starts pair := by
  refine ⟨fun i => ⟨rfl, rfl⟩, fun i => rfl, fun i l hl p hp => ?_, fun m hm => absurd hm not_mem_nil⟩
  obtain rfl := some.inj hl
  exact absurd hp not_mem_nil

/-- What the weaker instance `a`, which leads five members, and the stronger instance `b` announce. -/
def pairAnnouncement (i : Bool) : Announcement :=
  { role := .orchestrator, id := if i then "b" else "a", score := if i then 2 else 1, members := if i then 0 else 5
    peerAddr := pair.address i }

theorem never_both_step_down_pair :
    ∃ c, Run pair Steady pairStart c ∧ (∃ t, c.watch true = .retired t) ∧ ¬ c.BothSteppedDown true false := by
  have hrun : Run pair Steady pairStart _ := .refl
  have hrun := hrun.tail ⟨_, .announced false 1 5 false "" _ _ rfl, trivial⟩
  have hrun := hrun.tail ⟨_, .delivered true (some false) (pairAnnouncement false) (by decide), trivial⟩
  have hrun := hrun.tail ⟨_, .checked true 0 false (fun _ => true) rfl, trivial⟩
  have hrun := hrun.tail ⟨_, .answered true false rfl rfl (by decide), not_false⟩
  have hrun := hrun.tail ⟨_, .first true rfl (by decide), trivial⟩
  have hrun := hrun.tail ⟨_, .checked true 0 false (fun _ => true) rfl, trivial⟩
  have hrun := hrun.tail ⟨_, .answered true false rfl rfl (by decide), not_false⟩
  have hrun := hrun.tail ⟨_, .second true rfl (by decide), trivial⟩
  have hrun := hrun.tail ⟨_, .stepDown true rfl rfl, trivial⟩
  have hrun := hrun.tail ⟨_, .retired true rfl, trivial⟩
  exact ⟨_, hrun, ⟨_, rfl⟩, never_both_step_down pair _ _ pairStart_starts (by decide) (by decide) hrun true false (by decide)⟩

/-- Between its second answer and its retirement `b` still tells `a` that it is elected, and both are gone: `a` has lost
sight of `b` when `b` asks, and has heard from it again when it asks itself. -/
theorem both_step_down : ∃ c, Run pair (fun _ _ => True) pairStart c ∧ c.BothSteppedDown true false := by
  have hrun : Run pair (fun _ _ => True) pairStart _ := .refl
  -- `b` hears of the members of `a` and checks for the first time
  have hrun := hrun.tail ⟨_, .announced false 1 5 false "" _ _ rfl, trivial⟩
  have hrun := hrun.tail ⟨_, .delivered true (some false) (pairAnnouncement false) (by decide), trivial⟩
  have hrun := hrun.tail ⟨_, .checked true 0 false (fun _ => true) rfl, trivial⟩
  have hrun := hrun.tail ⟨_, .answered true false rfl rfl (by decide), trivial⟩
  have hrun := hrun.tail ⟨_, .first true rfl (by decide), trivial⟩
  -- `a` hears of the score of `b` and checks for the first time
  have hrun := hrun.tail ⟨_, .announced true 1 0 false "" _ _ rfl, trivial⟩
  have hrun := hrun.tail ⟨_, .delivered false (some true) (pairAnnouncement true) (by decide), trivial⟩
  have hrun := hrun.tail ⟨_, .checked false 5 false (fun _ => true) rfl, trivial⟩
  have hrun := hrun.tail ⟨_, .answered false true rfl rfl (by decide), trivial⟩
  have hrun := hrun.tail ⟨_, .first false rfl (by decide), trivial⟩
  -- the entry of `b` expires, and `b` checks for the second time
  have hrun := hrun.tail ⟨_, .tick false 15000000001 (by decide), trivial⟩
  have hrun := hrun.tail ⟨_, .checked true 0 false (fun _ => true) rfl, trivial⟩
  have hrun := hrun.tail ⟨_, .answered true false rfl rfl (by decide), trivial⟩
  -- the next announcement of `b` arrives, and `a` checks for the second time
  have hrun := hrun.tail ⟨_, .announced true 1 0 false "" _ _ rfl, trivial⟩
  have hrun := hrun.tail ⟨_, .delivered false (some true) (pairAnnouncement true) (by decide), trivial⟩
  have hrun := hrun.tail ⟨_, .checked false 5 false (fun _ => true) rfl, trivial⟩
  have hrun := hrun.tail ⟨_, .answered false true rfl rfl (by decide), trivial⟩
  have hrun := hrun.tail ⟨_, .second true rfl (by decide), trivial⟩
  have hrun := hrun.tail ⟨_, .second false rfl (by decide), trivial⟩
  have hrun := hrun.tail ⟨_, .stepDown true rfl rfl, trivial⟩
  have hrun := hrun.tail ⟨_, .stepDown false rfl rfl, trivial⟩
  have hrun := hrun.tail ⟨_, .retired true rfl, trivial⟩
  have hrun := hrun.tail ⟨_, .retired false rfl, trivial⟩
  exact ⟨_, hrun, _, _, rfl, rfl, rfl, rfl⟩

end Contest

end Maistr0.Failover
