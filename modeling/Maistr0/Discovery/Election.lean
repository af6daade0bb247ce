import Maistr0.Discovery.Announcements

/-!
# The election on a fully visible network

Higher scores win and the lower ID breaks ties: the rank of an announcement is its score and then its ID, read
downwards. Every rule of the election is a comparison of ranks, so among members that all see each other the
answers depend only on who is on top among the orchestrators, and among all of them.
-/

namespace Maistr0.Discovery

open List

/-- What `outranks` compares. -/
def rank (a : Announcement) : Rat ×ₗ Stringᵒᵈ := toLex (a.score, OrderDual.toDual a.id)

variable {self a : Announcement} {peers : List Peer}

theorem outranks_iff {candidate incumbent : Announcement} :
    outranks candidate incumbent = true ↔ rank incumbent < rank candidate := by
  rw [outranks, Bool.or_eq_true, Bool.and_eq_true, decide_eq_true_iff, decide_eq_true_iff, decide_eq_true_iff, rank, rank,
    Prod.Lex.toLex_lt_toLex]
  exact or_congr_right (and_congr_left fun _ => eq_comm)

theorem id_eq_of_rank_eq {b : Announcement} (h : rank a = rank b) : a.id = b.id :=
  congrArg OrderDual.ofDual (Prod.ext_iff.mp (toLex_inj.mp h)).2

theorem rank_lt_of_le {b : Announcement} (h : rank a ≤ rank b) (hid : a.id ≠ b.id) : rank a < rank b :=
  lt_of_le_of_ne h fun heq => hid (id_eq_of_rank_eq heq)

/-! ### The best candidate -/

/-- Whether the loop of `BestOrchestratorCandidate` looks at a peer. -/
def Stands (p : Peer) : Prop := p.role = .orchestrator ∨ p.role = .candidate

theorem betterCandidate_cases (best : Announcement) (p : Peer) :
    (betterCandidate best p = best ∧ (Stands p → rank p.announcement ≤ rank best)) ∨
      (betterCandidate best p = p.announcement ∧ Stands p ∧ rank best < rank p.announcement) := by
  unfold betterCandidate Stands
  by_cases hskip : p.role ≠ .orchestrator ∧ p.role ≠ .candidate
  · rw [if_pos hskip]
    exact .inl ⟨rfl, fun hstands => absurd hstands (not_or.mpr hskip)⟩
  rw [if_neg hskip]
  have hstands : p.role = .orchestrator ∨ p.role = .candidate := by
    rw [← not_or, not_not] at hskip
    exact hskip
  by_cases hout : outranks p.announcement best = true
  · rw [if_pos hout]
    exact .inr ⟨rfl, hstands, outranks_iff.mp hout⟩
  · rw [if_neg hout]
    exact .inl ⟨rfl, fun _ => not_lt.mp fun hlt => hout (outranks_iff.mpr hlt)⟩

theorem bestOrchestratorCandidate_spec (self : Announcement) (peers : List Peer) :
    (bestOrchestratorCandidate self peers = self ∨
        ∃ p ∈ peers, Stands p ∧ bestOrchestratorCandidate self peers = p.announcement) ∧
      rank self ≤ rank (bestOrchestratorCandidate self peers) ∧
      ∀ p ∈ peers, Stands p → rank p.announcement ≤ rank (bestOrchestratorCandidate self peers) := by
  unfold bestOrchestratorCandidate
  induction peers generalizing self with
  | nil => exact ⟨.inl rfl, le_rfl, fun _ hp => absurd hp not_mem_nil⟩
  | cons p _ ih =>
    rw [foldl_cons]
    obtain ⟨hfrom, hbest, hall⟩ := ih (betterCandidate self p)
    -- after the first peer the loop goes on from the better of the two
    rcases betterCandidate_cases self p with ⟨heq, hle⟩ | ⟨heq, hstands, hlt⟩ <;> rw [heq] at hfrom hbest hall ⊢
    · refine ⟨hfrom.imp_right fun ⟨q, hq, h⟩ => ⟨q, mem_cons_of_mem p hq, h⟩, hbest, fun q hq hstands => ?_⟩
      rcases mem_cons.mp hq with rfl | hq
      · exact (hle hstands).trans hbest
      · exact hall q hq hstands
    refine ⟨.inr ?_, hlt.le.trans hbest, fun q hq hstands => ?_⟩
    · rcases hfrom with hp | ⟨q, hq, h⟩
      · exact ⟨p, mem_cons_self, hstands, hp⟩
      · exact ⟨q, mem_cons_of_mem p hq, h⟩
    · rcases mem_cons.mp hq with rfl | hq
      · exact hbest
      · exact hall q hq hstands

theorem isBestOrchestratorCandidate_iff (hids : ∀ p ∈ peers, p.id ≠ self.id) :
    isBestOrchestratorCandidate self peers = true ↔ ∀ p ∈ peers, Stands p → rank p.announcement < rank self := by
  obtain ⟨hfrom, hself, hall⟩ := bestOrchestratorCandidate_spec self peers
  rw [isBestOrchestratorCandidate, decide_eq_true_iff]
  constructor
  · intro hid p hp hstands
    rcases hfrom with hbest | ⟨q, hq, -, hbest⟩
    · exact rank_lt_of_le (hbest ▸ hall p hp hstands) (hids p hp)
    · rw [hbest] at hid
      exact absurd hid (hids q hq)
  · intro habove
    rcases hfrom with hbest | ⟨q, hq, hstands, hbest⟩
    · rw [hbest]
    · rw [hbest] at hself
      exact absurd (habove q hq hstands) (not_lt.mpr hself)

/-! ### Who is elected -/

theorem isElectedOrchestrator_of_active (hids : ∀ p ∈ peers, p.id ≠ self.id)
    (hactive : ∃ p ∈ peers, p.role = .orchestrator) :
    isElectedOrchestrator self peers = true ↔ ∀ p ∈ peers, p.role = .orchestrator → rank p.announcement < rank self := by
  obtain ⟨p, hp, hrole⟩ := hactive
  have hmem : p ∈ peers.filter fun peer => peer.role = .orchestrator :=
    mem_filter.mpr ⟨hp, decide_eq_true hrole⟩
  rw [isElectedOrchestrator, if_pos (length_pos_of_mem hmem),
    isBestOrchestratorCandidate_iff fun q hq => hids q (mem_of_mem_filter hq)]
  constructor
  · intro habove q hq hrole
    exact habove q (mem_filter.mpr ⟨hq, decide_eq_true hrole⟩) (.inl hrole)
  · intro habove q hq _
    obtain ⟨hq, hrole⟩ := mem_filter.mp hq
    exact habove q hq (of_decide_eq_true hrole)

theorem filter_active_eq_nil (hnone : ∀ p ∈ peers, p.role ≠ .orchestrator) :
    (peers.filter fun peer => peer.role = .orchestrator) = [] :=
  filter_eq_nil_iff.mpr fun p hp hrole => hnone p hp (of_decide_eq_true hrole)

theorem isElectedOrchestrator_of_alone (hself : self.role = .orchestrator)
    (hnone : ∀ p ∈ peers, p.role ≠ .orchestrator) : isElectedOrchestrator self peers = true := by
  rw [isElectedOrchestrator, filter_active_eq_nil hnone]
  exact if_pos hself

theorem isElectedOrchestrator_of_candidates (hids : ∀ p ∈ peers, p.id ≠ self.id) (hself : self.role ≠ .orchestrator)
    (hnone : ∀ p ∈ peers, p.role ≠ .orchestrator) :
    isElectedOrchestrator self peers = true ↔ ∀ p ∈ peers, Stands p → rank p.announcement < rank self := by
  rw [isElectedOrchestrator, filter_active_eq_nil hnone, ← isBestOrchestratorCandidate_iff hids]
  exact Iff.of_eq (congrArg (· = true) (if_neg hself))

/-! ### Members that all see each other -/

def Sees (members : Lib.Keyed Announcement.id) (self : Announcement) (peers : List Peer) : Prop :=
  ∀ a, a ∈ peers.map Peer.announcement ↔ a ∈ members.vals ∧ a ≠ self

section Members

variable {members : Lib.Keyed Announcement.id} {self : Announcement} {peers : List Peer}

section

variable (h : Sees members self peers)

include h

theorem Sees.mem {p : Peer} (hp : p ∈ peers) : p.announcement ∈ members.vals ∧ p.announcement ≠ self :=
  (h p.announcement).mp (mem_map_of_mem hp)

theorem Sees.id_ne (hself : self ∈ members.vals) : ∀ p ∈ peers, p.id ≠ self.id :=
  fun _ hp hid => (h.mem hp).2 (Lib.Keyed.eq_of_mem_vals (h.mem hp).1 hself hid)

theorem Sees.peer (ha : a ∈ members.vals) (hne : a ≠ self) : ∃ p ∈ peers, p.announcement = a :=
  mem_map.mp ((h a).mpr ⟨ha, hne⟩)

theorem Sees.forall_iff {P : Announcement → Prop} :
    (∀ p ∈ peers, P p.announcement) ↔ ∀ a ∈ members.vals, a ≠ self → P a := by
  constructor
  · intro hall a ha hne
    obtain ⟨p, hp, rfl⟩ := h.peer ha hne
    exact hall p hp
  · exact fun hall p hp => hall _ (h.mem hp).1 (h.mem hp).2

theorem Sees.elected_iff_of_active (hself : self ∈ members.vals)
    (hactive : ∃ o ∈ members.vals, o.role = .orchestrator) :
    isElectedOrchestrator self peers = true ↔
      ∀ o ∈ members.vals, o ≠ self → o.role = .orchestrator → rank o < rank self := by
  rw [← h.forall_iff (P := fun a => a.role = .orchestrator → rank a < rank self)]
  by_cases hother : ∃ p ∈ peers, p.role = .orchestrator
  · exact isElectedOrchestrator_of_active (h.id_ne hself) hother
  have hnone : ∀ p ∈ peers, p.role ≠ .orchestrator := fun p hp hrole => hother ⟨p, hp, hrole⟩
  obtain ⟨o, ho, hrole⟩ := hactive
  have hrole : self.role = .orchestrator := by
    by_cases heq : o = self
    · exact heq ▸ hrole
    · obtain ⟨p, hp, rfl⟩ := h.peer ho heq
      exact absurd hrole (hnone p hp)
  exact iff_of_true (isElectedOrchestrator_of_alone hrole hnone) fun p hp hrole => absurd hrole (hnone p hp)

theorem Sees.elected_iff_of_candidates (hself : self ∈ members.vals)
    (hroles : ∀ m ∈ members.vals, m.role = .candidate) :
    isElectedOrchestrator self peers = true ↔ ∀ c ∈ members.vals, c ≠ self → rank c < rank self := by
  have hnone : ∀ p ∈ peers, p.role ≠ .orchestrator := fun p hp hrole => by
    have hcandidate := hroles _ (h.mem hp).1
    exact absurd (hcandidate.symm.trans hrole) Role.noConfusion
  rw [isElectedOrchestrator_of_candidates (h.id_ne hself) (by rw [hroles self hself]; exact Role.noConfusion) hnone,
    ← h.forall_iff (P := fun a => rank a < rank self)]
  exact forall₂_congr fun p hp => forall_prop_of_true (.inr (hroles _ (h.mem hp).1))

end

theorem exists_top {P : Announcement → Prop} [DecidablePred P] (h : ∃ a ∈ members.vals, P a) :
    ∃ top ∈ members.vals, P top ∧ ∀ a ∈ members.vals, P a → a ≠ top → rank a < rank top := by
  obtain ⟨a, ha, hP⟩ := h
  obtain ⟨top, htop, hmax⟩ := (members.vals.toFinset.filter P).exists_max_image rank
    ⟨a, Finset.mem_filter.mpr ⟨mem_toFinset.mpr ha, hP⟩⟩
  obtain ⟨hmem, hPtop⟩ := Finset.mem_filter.mp htop
  rw [mem_toFinset] at hmem
  refine ⟨top, hmem, hPtop, fun b hb hPb hne => rank_lt_of_le ?_ fun hid => ?_⟩
  · exact hmax b (Finset.mem_filter.mpr ⟨mem_toFinset.mpr hb, hPb⟩)
  · exact hne (Lib.Keyed.eq_of_mem_vals hb hmem hid)

theorem Sees.refused_iff (h : Sees members self peers) (hself : self ∈ members.vals) (hrole : self.role = .candidate)
    (hactive : ∃ o ∈ members.vals, o.role = .orchestrator) :
    isElectedOrchestrator self peers = false ↔ ∃ o ∈ members.vals, o.role = .orchestrator ∧ outranks o self = true := by
  rw [← Bool.not_eq_true, h.elected_iff_of_active hself hactive]
  push Not
  constructor
  · rintro ⟨o, ho, hne, horole, hle⟩
    refine ⟨o, ho, horole, outranks_iff.mpr (rank_lt_of_le hle fun hid => hne ?_)⟩
    exact (Lib.Keyed.eq_of_mem_vals hself ho hid).symm
  · rintro ⟨o, ho, horole, hout⟩
    refine ⟨o, ho, fun heq => ?_, horole, (outranks_iff.mp hout).le⟩
    rw [heq, hrole] at horole
    exact Role.noConfusion horole

def others (members : Lib.Keyed Announcement.id) (self : Announcement) : List Peer :=
  (members.vals.filter (· ≠ self)).map fun a => { announcement := a, lastSeen := 0 }

theorem sees_others (members : Lib.Keyed Announcement.id) (self : Announcement) :
    Sees members self (others members self) := by
  intro a
  simp [others]

end Members

section Election

variable (members : Lib.Keyed Announcement.id) (view : Announcement → List Peer)

def ElectsOne : Prop := ∃! m, m ∈ members.vals ∧ isElectedOrchestrator m (view m) = true

def NeverPreempts : Prop :=
  (∃ o ∈ members.vals, o.role = .orchestrator) →
    ∀ c ∈ members.vals, c.role = .candidate → isElectedOrchestrator c (view c) = false

variable {members view}

theorem electsOne_of_candidates (hmembers : members.vals ≠ []) (hroles : ∀ m ∈ members.vals, m.role = .candidate)
    (hview : ∀ m ∈ members.vals, Sees members m (view m)) : ElectsOne members view := by
  obtain ⟨first, hfirst⟩ := exists_mem_of_ne_nil _ hmembers
  obtain ⟨top, htop, -, habove⟩ := exists_top (P := fun _ => True) ⟨first, hfirst, trivial⟩
  refine ⟨top, ⟨htop, ?_⟩, ?_⟩
  · exact ((hview top htop).elected_iff_of_candidates htop hroles).mpr fun c hc hne => habove c hc trivial hne
  rintro m ⟨hm, helected⟩
  by_contra hne
  have hover := ((hview m hm).elected_iff_of_candidates hm hroles).mp helected top htop (Ne.symm hne)
  exact lt_asymm hover (habove m hm trivial hne)

theorem electsOne_of_neverPreempts (hactive : ∃ o ∈ members.vals, o.role = .orchestrator)
    (hroles : ∀ m ∈ members.vals, m.role = .orchestrator ∨ m.role = .candidate)
    (hview : ∀ m ∈ members.vals, Sees members m (view m)) (hnever : NeverPreempts members view) :
    ElectsOne members view := by
  obtain ⟨top, htop, hrole, habove⟩ := exists_top hactive
  refine ⟨top, ⟨htop, ?_⟩, ?_⟩
  · exact ((hview top htop).elected_iff_of_active htop hactive).mpr fun o ho hne horole => habove o ho horole hne
  rintro m ⟨hm, helected⟩
  rcases hroles m hm with hmrole | hcandidate
  · by_contra hne
    have hover := ((hview m hm).elected_iff_of_active hm hactive).mp helected top htop (Ne.symm hne) hrole
    exact lt_asymm hover (habove m hm hmrole hne)
  · rw [hnever hactive m hm hcandidate] at helected
    exact absurd helected Bool.false_ne_true

/-- Exactly one member is elected, and no candidate while there is an orchestrator, if and only if every candidate is
outranked by some orchestrator then. -/
theorem elects_one_iff (members : Lib.Keyed Announcement.id) (hmembers : members.vals ≠ [])
    (hroles : ∀ m ∈ members.vals, m.role = .orchestrator ∨ m.role = .candidate)
    (view : Announcement → List Peer) (hview : ∀ m ∈ members.vals, Sees members m (view m)) :
    ElectsOne members view ∧ NeverPreempts members view ↔
      ∀ c ∈ members.vals, c.role = .candidate → (∃ o ∈ members.vals, o.role = .orchestrator) →
        ∃ o ∈ members.vals, o.role = .orchestrator ∧ outranks o c = true := by
  by_cases hactive : ∃ o ∈ members.vals, o.role = .orchestrator
  · have hrefused := fun c hc hrole => (hview c hc).refused_iff hc hrole hactive
    constructor
    · rintro ⟨-, hnever⟩ c hc hrole -
      exact (hrefused c hc hrole).mp (hnever hactive c hc hrole)
    · intro hcondition
      have hnever : NeverPreempts members view := fun _ c hc hrole =>
        (hrefused c hc hrole).mpr (hcondition c hc hrole hactive)
      exact ⟨electsOne_of_neverPreempts hactive hroles hview hnever, hnever⟩
  · have hcandidates : ∀ m ∈ members.vals, m.role = .candidate := fun m hm =>
      (hroles m hm).resolve_left fun hrole => hactive ⟨m, hm, hrole⟩
    exact iff_of_true ⟨electsOne_of_candidates hmembers hcandidates hview, fun h => absurd h hactive⟩
      fun _ _ _ h => absurd h hactive

theorem elects_one_iff_threeMembers : let members : Lib.Keyed Announcement.id :=
    ⟨[{ role := .orchestrator, id := "a", score := 1 }, { role := .candidate, id := "b", score := 2 },
      { role := .orchestrator, id := "c", score := 3 }], by decide⟩
    ElectsOne members (others members) ∧ NeverPreempts members (others members) := by
  intro members
  exact (elects_one_iff members (by decide) (by decide) (others members) fun m _ => sees_others members m).mpr (by decide)

/-- A candidate that outranks the only orchestrator is elected beside it. -/
theorem candidate_preempts_orchestrator :
    ∃ (members : Lib.Keyed Announcement.id) (view : Announcement → List Peer), members.vals ≠ [] ∧
      (∀ m ∈ members.vals, m.role = .orchestrator ∨ m.role = .candidate) ∧
      (∀ m ∈ members.vals, Sees members m (view m)) ∧ ¬ ElectsOne members view ∧ ¬ NeverPreempts members view := by
  let members : Lib.Keyed Announcement.id :=
    ⟨[{ role := .orchestrator, id := "a", score := 1 }, { role := .candidate, id := "b", score := 2 }], by decide⟩
  refine ⟨members, others members, by decide, by decide, fun m _ => sees_others members m, ?_, ?_⟩
  · rintro ⟨_, -, hunique⟩
    have ha := hunique { role := .orchestrator, id := "a", score := 1 } (by decide)
    have hb := hunique { role := .candidate, id := "b", score := 2 } (by decide)
    exact absurd (ha.trans hb.symm) (by decide)
  · intro hnever
    have hrefused := hnever (by decide) { role := .candidate, id := "b", score := 2 } (by decide) rfl
    exact absurd hrefused (by decide)

end Election

end Maistr0.Discovery
