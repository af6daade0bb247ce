import Maistr0.Discovery.Election

/-!
# Orchestrators that hear each other

`electionComponent`: a running orchestrator asks what it sees whether it is elected and announces itself as
orchestrator or candidate accordingly. Around it is a network of any number of such instances. Every announcement
may be lost, delayed, repeated and reordered, entries expire by each instance's own clock, peers are excluded and
included again at any time, and nodes announce themselves on the same wire.
-/

namespace Maistr0.Orchestrator

open Go Discovery Relation List Option

structure ElectionComponent where
  selfID : String
  selfScore : Rat
  discoveryEnabled : Bool := true
  discoveryHMACKey : List UInt8 := []
  retired : Bool := false
  discovery : Option Listener := none

namespace ElectionComponent

def self (e : ElectionComponent) : Announcement := { role := .orchestrator, id := e.selfID, score := e.selfScore }

/-- The component with the table `Snapshot` leaves, and the answer. -/
def isElectedOrchestrator (e : ElectionComponent) (now : Time) : ElectionComponent × Bool :=
  if e.retired then (e, false)
  else
    match e.discovery with
    | none => (e, true)
    | some l =>
      if !e.discoveryEnabled then (e, true)
      else ({ e with discovery := some (l.snapshot now).1 }, Discovery.isElectedOrchestrator e.self (l.snapshot now).2)

def selfAnnouncement (e : ElectionComponent) (now : Time) (members : Nat) (elected : Bool) :
    ElectionComponent × Announcement :=
  ((e.isElectedOrchestrator now).1,
    { role := if (e.isElectedOrchestrator now).2 then .orchestrator else .candidate, id := e.selfID, score := e.selfScore,
      members := members, elected := elected })

def setRetired (e : ElectionComponent) (retired : Bool) : ElectionComponent := { e with retired := retired }

/-- One turn of the beacon: what it sends, if anything. An announcement without an ID, which is also what a retired
instance hands to the beacon, is not sent. -/
def beacon [AnnouncementMAC] (e : ElectionComponent) (now sentAt : Time) (members : Nat) (elected : Bool)
    (httpAddr peerAddr : String) : ElectionComponent × Option Announcement :=
  if e.retired then (e, none)
  else
    let ann := { (e.selfAnnouncement now members elected).2 with httpAddr := httpAddr, peerAddr := peerAddr }
    ((e.selfAnnouncement now members elected).1,
      if ann.id = "" then none
      else if e.discoveryHMACKey ≠ [] then (signAnnouncement ann e.discoveryHMACKey sentAt).toOption
      else some ann)

structure Participates (e : ElectionComponent) (l : Listener) : Prop where
  discoveryEnabled : e.discoveryEnabled = true
  retired : e.retired = false
  discovery : e.discovery = some l
  selfID : e.selfID ∈ l.selfIDs

variable {e : ElectionComponent} {l : Listener} {now : Time}

theorem Participates.isElectedOrchestrator (h : e.Participates l) (now : Time) : e.isElectedOrchestrator now =
    ({ e with discovery := some (l.snapshot now).1 }, Discovery.isElectedOrchestrator e.self (l.snapshot now).2) := by
  simp [ElectionComponent.isElectedOrchestrator, h.retired, h.discovery, h.discoveryEnabled]

/-- The beacon changes the table as the question does. What it sends names the instance, its score, whether it is elected,
and the address it is given. -/
theorem beacon_spec [AnnouncementMAC] {sentAt : Time} {members : Nat} {elected : Bool} {httpAddr peerAddr : String}
    {e' : ElectionComponent} {sent : Option Announcement}
    (h : e.beacon now sentAt members elected httpAddr peerAddr = (e', sent)) :
    (e.retired = true ∧ e' = e ∨ e' = (e.isElectedOrchestrator now).1) ∧
      ∀ ann, sent = some ann → (ann.id = e.selfID ∧ ann.score = e.selfScore ∧ ann.peerAddr = peerAddr) ∧
        ann.role = if (e.isElectedOrchestrator now).2 then .orchestrator else .candidate := by
  unfold ElectionComponent.beacon at h
  split at h
  · rename_i hretired
    obtain ⟨rfl, rfl⟩ := Prod.mk.inj h
    exact ⟨.inl ⟨hretired, rfl⟩, nofun⟩
  obtain ⟨rfl, rfl⟩ := Prod.mk.inj h
  refine ⟨.inr rfl, fun ann hann => ?_⟩
  split at hann
  · exact absurd hann (by simp)
  split at hann
  · unfold signAnnouncement at hann
    split at hann
    · exact absurd hann (by simp [Except.toOption])
    · obtain rfl := some.inj hann
      exact ⟨⟨rfl, rfl, rfl⟩, rfl⟩
  · obtain rfl := some.inj hann
    exact ⟨⟨rfl, rfl, rfl⟩, rfl⟩

end ElectionComponent

/-! ### The network -/

/-- The instances, their clocks, and everything sent so far with its sender, `none` for a node. -/
structure Network (ι : Type) where
  component : ι → ElectionComponent
  clock : ι → Time
  sent : List (Option ι × Announcement) := []

namespace Network

variable {ι : Type}

def update [DecidableEq ι] (net : Network ι) (i : ι) (e : ElectionComponent)
    (more : List (Option ι × Announcement)) : Network ι :=
  { net with component := Function.update net.component i e, sent := more ++ net.sent }

def onListener [DecidableEq ι] (net : Network ι) (i : ι) (f : Listener → Listener) : Network ι :=
  net.update i { net.component i with discovery := (net.component i).discovery.map f } []

inductive Step [DecidableEq ι] [AnnouncementMAC] : Network ι → Network ι → Prop
  | tick {net : Network ι} (i : ι) (t : Time) (hle : net.clock i ≤ t) :
      Step net { net with clock := Function.update net.clock i t }
  | asked {net : Network ι} (i : ι) :
      Step net (net.update i ((net.component i).isElectedOrchestrator (net.clock i)).1 [])
  | announced {net : Network ι} (i : ι) (sentAt : Time) (members : Nat) (elected : Bool) (httpAddr peerAddr : String)
      (e : ElectionComponent) (ann : Option Announcement)
      (hbeacon : (net.component i).beacon (net.clock i) sentAt members elected httpAddr peerAddr = (e, ann)) :
      Step net (net.update i e (ann.toList.map (some i, ·)))
  | nodeAnnounced {net : Network ι} (ann : Announcement) (hrole : ann.role ≠ .orchestrator) :
      Step net { net with sent := (none, ann) :: net.sent }
  | delivered {net : Network ι} (i : ι) (sender : Option ι) (ann : Announcement) (hsent : (sender, ann) ∈ net.sent) :
      Step net (net.onListener i fun l => (l.serve (some ann) (net.clock i)).1)
  | excluded {net : Network ι} (i : ι) (id : String) : Step net (net.onListener i (·.excludePeer id))
  | included {net : Network ι} (i : ι) (id : String) : Step net (net.onListener i (·.includePeer id))

def Run [DecidableEq ι] [AnnouncementMAC] : Network ι → Network ι → Prop := ReflTransGen Step

structure Starts (net : Network ι) : Prop where
  participates : ∀ i, ∃ l, (net.component i).Participates l ∧ l.peers = ∅
  sent : net.sent = []

def Holds (net : Network ι) (i j : ι) : Prop :=
  ∃ l, (net.component i).discovery = some l ∧
    ∃ p ∈ l.peers.vals, (some j, p.announcement) ∈ net.sent ∧ l.visible (net.clock i) p = true

def answer (net : Network ι) (i : ι) : Bool := ((net.component i).isElectedOrchestrator (net.clock i)).2

/-! ### What the members know -/

/-- A node does not announce itself as orchestrator; an instance announces its own rank, and the top one always
announces itself as orchestrator. -/
def Genuine (start : Network ι) (top : ι) : Option ι → Announcement → Prop
  | none, ann => ann.role ≠ .orchestrator
  | some i, ann => rank ann = rank (start.component i).self ∧ (i = top → ann.role = .orchestrator)

/-- An instance keeps its rank, takes part in discovery, and its table holds only what others have sent. -/
def MemberSound (start : Network ι) (sent : List (Option ι × Announcement)) (i : ι) (e : ElectionComponent) : Prop :=
  ∃ l, e.Participates l ∧ e.self = (start.component i).self ∧
    ∀ p ∈ l.peers.vals, p.id ∉ l.selfIDs ∧ ∃ sender, (sender, p.announcement) ∈ sent

structure Sound (start : Network ι) (top : ι) (net : Network ι) : Prop where
  member : ∀ i, MemberSound start net.sent i (net.component i)
  sent : ∀ m ∈ net.sent, Genuine start top m.1 m.2

section Soundness

variable {start net : Network ι} {top i : ι} {e : ElectionComponent} {sent sent' : List (Option ι × Announcement)}

section

variable (h : MemberSound start sent i e)

include h

theorem MemberSound.mono (hsub : ∀ m ∈ sent, m ∈ sent') : MemberSound start sent' i e := by
  obtain ⟨l, hpart, hself, hpeers⟩ := h
  refine ⟨l, hpart, hself, fun p hp => ?_⟩
  obtain ⟨hother, sender, hmem⟩ := hpeers p hp
  exact ⟨hother, sender, hsub _ hmem⟩

theorem MemberSound.onListener {f : Listener → Listener} (hself : ∀ l, (f l).selfIDs = l.selfIDs)
    (hpeers : ∀ l, ∀ p ∈ (f l).peers.vals,
      p ∈ l.peers.vals ∨ (p.id ∉ l.selfIDs ∧ ∃ sender, (sender, p.announcement) ∈ sent)) :
    MemberSound start sent i { e with discovery := e.discovery.map f } := by
  obtain ⟨l, hpart, hrank, hknown⟩ := h
  refine ⟨f l, ⟨hpart.discoveryEnabled, hpart.retired, ?_, ?_⟩, hrank, fun p hp => ?_⟩
  · simp [hpart.discovery]
  · rw [hself]
    exact hpart.selfID
  · rw [hself]
    rcases hpeers l p hp with hp | hnew
    · exact hknown p hp
    · exact hnew

theorem MemberSound.isElectedOrchestrator (now : Time) : MemberSound start sent i (e.isElectedOrchestrator now).1 := by
  obtain ⟨l, hpart, hrank, hknown⟩ := h
  rw [hpart.isElectedOrchestrator]
  refine ⟨(l.snapshot now).1, ⟨hpart.discoveryEnabled, hpart.retired, rfl, hpart.selfID⟩, hrank, fun p hp => ?_⟩
  exact hknown p (mem_of_mem_filter hp)

end

theorem Sound.answer_top (h : Sound start top net) (htop : ∀ j, j ≠ top → rank (start.component j).self < rank (start.component top).self) :
    net.answer top = true := by
  obtain ⟨l, hpart, hself, hknown⟩ := h.member top
  have hids : ∀ p ∈ (l.snapshot (net.clock top)).2, p.id ≠ (net.component top).self.id := fun p hp hid =>
    (hknown p (Listener.mem_peers_snapshot.mp hp).1).1 (hid ▸ hpart.selfID)
  unfold answer
  rw [hpart.isElectedOrchestrator]
  by_cases hactive : ∃ p ∈ (l.snapshot (net.clock top)).2, p.role = .orchestrator
  · refine (isElectedOrchestrator_of_active hids hactive).mpr fun p hp hrole => ?_
    obtain ⟨-, sender, hsent⟩ := hknown p (Listener.mem_peers_snapshot.mp hp).1
    have hgenuine := h.sent _ hsent
    cases sender with
    | none => exact absurd hrole hgenuine
    | some j =>
      -- the table of the top member has no entry under its own ID
      have hne : j ≠ top := by
        rintro rfl
        exact hids p hp (id_eq_of_rank_eq (hgenuine.1.trans (congrArg rank hself.symm)))
      rw [hself, hgenuine.1]
      exact htop j hne
  · exact isElectedOrchestrator_of_alone rfl fun p hp hrole => hactive ⟨p, hp, hrole⟩

theorem Sound.answer_of_holds (h : Sound start top net)
    (hlt : rank (start.component i).self < rank (start.component top).self) (hholds : net.Holds i top) :
    net.answer i = false := by
  obtain ⟨_, hpart, hself, hknown⟩ := h.member i
  obtain ⟨l', hdiscovery, p, hp, hsent, hvisible⟩ := hholds
  obtain rfl := some.inj (hdiscovery.symm.trans hpart.discovery)
  obtain ⟨hrank, hrole⟩ := h.sent _ hsent
  have hmem := Listener.mem_peers_snapshot.mpr ⟨hp, hvisible⟩
  have hids : ∀ q ∈ (l'.snapshot (net.clock i)).2, q.id ≠ (net.component i).self.id := fun q hq hid =>
    (hknown q (Listener.mem_peers_snapshot.mp hq).1).1 (hid ▸ hpart.selfID)
  unfold answer
  rw [hpart.isElectedOrchestrator, ← Bool.not_eq_true, isElectedOrchestrator_of_active hids ⟨p, hmem, hrole rfl⟩, hself]
  intro habove
  exact lt_asymm (hrank ▸ habove p hmem (hrole rfl)) hlt

theorem Starts.sound (h : start.Starts) (top : ι) : Sound start top start where
  member i := by
    obtain ⟨l, hpart, hempty⟩ := h.participates i
    refine ⟨l, hpart, rfl, fun p hp => ?_⟩
    rw [hempty] at hp
    exact absurd hp not_mem_nil
  sent m hm := by
    rw [h.sent] at hm
    exact absurd hm not_mem_nil

variable [DecidableEq ι]

theorem Sound.update (h : Sound start top net) {more : List (Option ι × Announcement)}
    (he : MemberSound start net.sent i e) (hmore : ∀ m ∈ more, Genuine start top m.1 m.2) :
    Sound start top (net.update i e more) where
  member j := by
    have hsub : ∀ m ∈ net.sent, m ∈ more ++ net.sent := fun m hm => mem_append_right _ hm
    change MemberSound start (more ++ net.sent) j (Function.update net.component i e j)
    by_cases hij : j = i
    · subst hij
      rw [Function.update_self]
      exact he.mono hsub
    · rw [Function.update_of_ne hij]
      exact (h.member j).mono hsub
  sent m hm := (mem_append.mp hm).elim (hmore m) (h.sent m)

theorem Sound.onListener (h : Sound start top net) (i : ι) {f : Listener → Listener}
    (hself : ∀ l, (f l).selfIDs = l.selfIDs)
    (hpeers : ∀ l, ∀ p ∈ (f l).peers.vals,
      p ∈ l.peers.vals ∨ (p.id ∉ l.selfIDs ∧ ∃ sender, (sender, p.announcement) ∈ net.sent)) :
    Sound start top (net.onListener i f) :=
  h.update ((h.member i).onListener hself hpeers) fun _ hm => absurd hm not_mem_nil

theorem Sound.step [AnnouncementMAC] {net' : Network ι}
    (htop : ∀ j, j ≠ top → rank (start.component j).self < rank (start.component top).self)
    (h : Sound start top net) (hstep : Step net net') : Sound start top net' := by
  cases hstep with
  | tick => exact ⟨h.member, h.sent⟩
  | asked i => exact h.update ((h.member i).isElectedOrchestrator _) fun _ hm => absurd hm not_mem_nil
  | announced i _ _ _ _ _ _ _ hbeacon =>
    obtain ⟨l, hpart, hself, -⟩ := h.member i
    obtain ⟨hcomponent, hann⟩ := ElectionComponent.beacon_spec hbeacon
    obtain rfl := hcomponent.resolve_left fun hretired => absurd (hpart.retired.symm.trans hretired.1) Bool.false_ne_true
    refine h.update ((h.member i).isElectedOrchestrator _) fun m hm => ?_
    obtain ⟨ann', hsent, rfl⟩ := mem_map.mp hm
    obtain ⟨⟨hid, hscore, -⟩, hrole⟩ := hann ann' (mem_toList.mp hsent)
    refine ⟨?_, fun hi => ?_⟩
    · rw [← hself]
      exact congrArg toLex (Prod.ext hscore (congrArg OrderDual.toDual hid))
    subst hi
    rw [hrole]
    exact if_pos (h.answer_top htop)
  | nodeAnnounced _ hrole =>
    refine ⟨fun j => (h.member j).mono fun m hm => mem_cons_of_mem _ hm, fun m hm => ?_⟩
    rcases mem_cons.mp hm with rfl | hm
    · exact hrole
    · exact h.sent m hm
  | delivered i sender _ hsent =>
    refine h.onListener i (fun l => l.selfIDs_serve _ _) fun l p hp => ?_
    refine (Listener.mem_peers_serve hp).imp_right fun ⟨hpacket, hother⟩ => ⟨hother, sender, ?_⟩
    obtain rfl := some.inj hpacket
    exact hsent
  | excluded i id =>
    exact h.onListener i (fun l => l.selfIDs_excludePeer id) fun l p hp => .inl (Listener.mem_peers_excludePeer hp)
  | included i id =>
    refine h.onListener i (fun l => l.selfIDs_includePeer id) fun l p hp => .inl ?_
    rwa [Listener.peers_includePeer] at hp

theorem Sound.run [AnnouncementMAC] {net' : Network ι}
    (htop : ∀ j, j ≠ top → rank (start.component j).self < rank (start.component top).self)
    (h : Sound start top net) (hrun : Run net net') : Sound start top net' := by
  induction hrun with
  | refl => exact h
  | tail _ hstep ih => exact ih.step htop hstep

end Soundness

/-- Whatever is lost, late, repeated or expired, the top-ranked orchestrator answers that it is elected, and as soon as
every other one holds an announcement of it, all of those answer that they are not. -/
theorem orchestrators_agree [DecidableEq ι] [AnnouncementMAC] (start net : Network ι) (hstart : start.Starts) (hrun : Run start net)
    (hranks : Function.Injective fun i => ((start.component i).selfScore, (start.component i).selfID))
    (top : ι) (htop : ∀ j, outranks (start.component j).self (start.component top).self = false)
    (hheld : ∀ i, i ≠ top → net.Holds i top) :
    net.answer top = true ∧ ∀ i, i ≠ top → net.answer i = false := by
  have hbelow : ∀ j, j ≠ top → rank (start.component j).self < rank (start.component top).self := by
    intro j hne
    refine lt_of_le_of_ne (not_lt.mp fun hlt => ?_) fun heq => hne (hranks ?_)
    · exact absurd (outranks_iff.mpr hlt) (by rw [htop j]; exact Bool.false_ne_true)
    · obtain ⟨hscore, hid⟩ := Prod.ext_iff.mp (toLex_inj.mp heq)
      exact Prod.ext hscore (OrderDual.toDual_inj.mp hid)
  have hsound := (hstart.sound top).run hbelow hrun
  exact ⟨hsound.answer_top hbelow, fun i hne => hsound.answer_of_holds (hbelow i hne) (hheld i hne)⟩

/-- Two orchestrators, and one announcement of the stronger one reaches the other. -/
theorem orchestrators_agree_twoMembers :
    ∃ start net : Network Bool, start.Starts ∧ Run start net ∧ net.Holds false true ∧
      net.answer true = true ∧ net.answer false = false := by
  let start : Network Bool :=
    { component := fun i =>
        { selfID := if i then "b" else "a", selfScore := if i then 2 else 1
          discovery := some (Listener.listenWithSecret [] [if i then "b" else "a"]) }
      clock := fun _ => 1 }
  have hstart : start.Starts := ⟨fun i => ⟨_, ⟨rfl, rfl, rfl, mem_singleton_self _⟩, rfl⟩, rfl⟩
  let ann : Announcement := { role := .orchestrator, id := "b", score := 2 }
  let announced := start.update true ((start.component true).beacon 1 1 0 false "" "").1 [(some true, ann)]
  let net := announced.onListener false fun l => (l.serve (some ann) 1).1
  have hrun : Run start net := (ReflTransGen.single (.announced true 1 0 false "" "" _ _ rfl)).tail
    (.delivered false (some true) ann (by decide))
  have hheld : net.Holds false true := ⟨_, rfl, ⟨ann, 1⟩, by decide, by decide, by decide⟩
  obtain ⟨htop, hother⟩ := orchestrators_agree start net hstart hrun (by decide) true (by decide) fun i hne => by
    obtain rfl := Bool.eq_false_of_not_eq_true hne
    exact hheld
  exact ⟨start, net, hstart, hrun, hheld, htop, hother false (by decide)⟩

end Network

end Maistr0.Orchestrator
