import Maistr0.Memory.Machine

/-!
# Which version stays

Several versions of one fact, or of one performance aggregate, reach a store in merges, in some order and
some of them more than once. Which one stays, and with which creation time and hit count, is a matter of
the place alone: the versions arrive there one after the other under the rules of `Rules`.
-/

namespace Maistr0.Memory

open Go List Record

section Arrivals

variable [CaseFolding]

structure Delivery where
  snapshot : Snapshot
  source : String
  now : Clocks

namespace Store

def Merges : List Delivery → Store → Store → Prop :=
  Lib.Deliver fun d s s' => d.snapshot.Machine ∧ s.mergeSnapshotFrom d.snapshot d.source d.now = (.ok (), s')

end Store

def Record.factAt (slot : String) : Record → List Fact
  | .fact f => if f.slot = slot then [f] else []
  | _ => []

def Record.performanceAt (slot : String) : Record → List Performance
  | .performance p => if ¬ (p.nodeID = "" ∨ p.model = "") ∧ p.slot = slot then [p] else []
  | _ => []

def factVersions (slot : String) (ds : List Delivery) : List Fact :=
  ds.flatMap fun d => d.snapshot.records.flatMap (factAt slot)

def performanceVersions (slot : String) (ds : List Delivery) : List Performance :=
  ds.flatMap fun d => d.snapshot.records.flatMap (performanceAt slot)

def Delivery.Valid (d : Delivery) : Prop := d.snapshot.Machine ∧ ∀ f ∈ d.snapshot.facts, f.key ≠ ""

def Delivery.alone (S : Snapshot) : Delivery := ⟨S, "", fun _ => ⟨1, one_ne_zero⟩⟩

variable {l : List Fact} {f : Fact} {next : Option Fact}

omit [CaseFolding] in
theorem records_facts (l : List Fact) : ({ facts := l } : Snapshot).records = l.map Record.fact := by
  simp [Snapshot.records]

omit [CaseFolding] in
theorem records_performances (l : List Performance) :
    ({ performances := l } : Snapshot).records = l.map performance := by
  simp [Snapshot.records]

variable {slot : String}

omit [CaseFolding] in
theorem factVersions_alone (hslot : ∀ f ∈ l, f.slot = slot) : factVersions slot [.alone { facts := l }] = l := by
  have hitems : ∀ f ∈ l, factAt slot (.fact f) = [f] := fun f hf => if_pos (hslot f hf)
  calc factVersions slot [.alone { facts := l }] = l.flatMap fun f => factAt slot (.fact f) := by
        simp [factVersions, Delivery.alone, records_facts, flatMap_map]
    _ = l := (flatMap_congr hitems).trans (flatMap_singleton' l)

theorem performanceVersions_alone {l : List Performance}
    (hplace : ∀ p ∈ l, ¬ (p.nodeID = "" ∨ p.model = "") ∧ p.slot = slot) :
    performanceVersions slot [.alone { performances := l }] = l := by
  have hitems : ∀ p ∈ l, performanceAt slot (.performance p) = [p] := fun p hp => if_pos (hplace p hp)
  calc performanceVersions slot [.alone { performances := l }] =
        l.flatMap fun p => performanceAt slot (.performance p) := by
        simp [performanceVersions, Delivery.alone, records_performances, flatMap_map]
    _ = l := (flatMap_congr hitems).trans (flatMap_singleton' l)

omit [CaseFolding] in
theorem Delivery.valid_alone {S : Snapshot} (hrecords : ∀ r ∈ S.records, r.sequence < 2 ^ 64)
    (hwatermarks : S.watermarks = ∅) (hkeys : ∀ f ∈ S.facts, f.key ≠ "") : (Delivery.alone S).Valid := by
  refine ⟨⟨hrecords, ?_⟩, hkeys⟩
  change ∀ entry ∈ S.watermarks.vals, _
  rw [hwatermarks]
  nofun

def FactArrival (f : Fact) (current next : Option Fact) : Prop := ∃ now, FactRule (normalizeFact f now) current next

omit [CaseFolding] in
theorem FactArrival.ranked {current : Option Fact} (h : FactArrival f current next)
    (hdated : f.updatedAt ≠ 0 ∨ f.createdAt ≠ 0) (hcurrent : ∀ c, current = some c → c.updatedAt ≠ 0) :
    Lib.Ranked Fact.mergeLabel factRank f current next ∧ ∀ c, next = some c → c.updatedAt ≠ 0 := by
  obtain ⟨now, hrule⟩ := h
  have hnext : ∀ c, next = some c → c.updatedAt ≠ 0 := by
    intro c hc
    rcases hrule.cases hc with hsame | ⟨-, -, hlabel⟩
    · exact hcurrent c hsame
    · rw [show c.updatedAt = (normalizeFact f now).updatedAt from congrArg Prod.fst hlabel]
      exact normalizeFact_updatedAt_ne f now
  have hlabel := normalizeFact_label hdated now
  refine ⟨?_, hnext⟩
  rcases hrule.ranked with ⟨c, hc, hle, hsame⟩ | ⟨hlt, c, hc, heq⟩
  · refine .inl ⟨c, hc, ?_, hsame⟩
    rwa [mergeLabel_eq (hcurrent c hc), ← hlabel]
  refine .inr ⟨fun d hd => ?_, c, hc, ?_⟩
  · rw [mergeLabel_eq (hcurrent d hd), ← hlabel]
    exact hlt d hd
  · rw [mergeLabel_eq (hnext c hc), ← hlabel, heq]

omit [CaseFolding] in
theorem FactArrival.winner (h : Lib.Deliver FactArrival l none next) (hl : l ≠ [])
    (hdated : ∀ f ∈ l, f.updatedAt ≠ 0 ∨ f.createdAt ≠ 0) :
    ∃ c, next = some c ∧ (∃ f ∈ l, c.label = f.mergeLabel) ∧ ∀ f ∈ l, factRank f.mergeLabel ≤ factRank c.label := by
  obtain ⟨hrun, hnext⟩ := h.strengthen (I := fun current => ∀ c, current = some c → c.updatedAt ≠ 0)
    (fun f hf _ _ hcurrent hstep => hstep.ranked (hdated f hf) hcurrent) nofun
  obtain ⟨c, rfl, hwinner, hall⟩ := Lib.Ranked.winner hrun hl
  rw [mergeLabel_eq (hnext c rfl)] at hwinner hall
  exact ⟨c, rfl, hwinner, hall⟩

structure Carried (l : List Fact) (c : Fact) : Prop where
  winner : ∃ f ∈ l, c.label = f.mergeLabel ∧ c.createdAt ≤ f.createdAt ∧ f.hits ≤ c.hits
  created : ∃ f ∈ l, c.createdAt = f.createdAt
  hits : ∃ f ∈ l, c.hits = f.hits

omit [CaseFolding] in
theorem Carried.arrival (hf : f ∈ l) (hcreated : f.createdAt ≠ 0) (hle : f.createdAt ≤ f.updatedAt)
    {current : Option Fact} (h : FactArrival f current next) (hcurrent : ∀ c, current = some c → Carried l c) :
    ∀ c, next = some c → Carried l c := by
  obtain ⟨now, hrule⟩ := h
  have hlabel := normalizeFact_label (.inr hcreated) now
  have hkept := normalizeFact_createdAt hcreated hle now
  unfold FactRule at hrule
  split at hrule
  · rw [hrule]
    exact hcurrent
  obtain ⟨_, _, rfl⟩ := hrule
  rintro _ ⟨rfl⟩
  cases current with
  | none => exact ⟨⟨f, hf, hlabel, hkept.le, le_rfl⟩, ⟨f, hf, hkept⟩, ⟨f, hf, rfl⟩⟩
  | some d =>
    obtain ⟨-, hdcreated, hdhits⟩ := hcurrent d rfl
    refine ⟨⟨f, hf, hlabel, ?_, ?_⟩, ?_, ?_⟩
    all_goals simp only [Option.map_some, Option.getD_some, carryFact, hkept]; split
    · exact le_of_lt ‹_›
    · exact le_rfl
    · exact le_of_lt ‹_›
    · exact le_rfl
    · exact hdcreated
    · exact ⟨f, hf, rfl⟩
    · exact hdhits
    · exact ⟨f, hf, rfl⟩

omit [CaseFolding] in
theorem FactArrival.first (h : Lib.Deliver FactArrival (f :: l) none next)
    (hdated : ∀ g ∈ f :: l, g.createdAt ≠ 0 ∧ g.createdAt ≤ g.updatedAt)
    (hmax : ∀ g ∈ l, factRank g.mergeLabel ≤ factRank f.mergeLabel) :
    ∃ c, next = some c ∧ c.createdAt = f.createdAt ∧ c.hits = f.hits := by
  cases h with
  | cons hf hrest =>
    obtain ⟨hcreated, hle⟩ := hdated f mem_cons_self
    -- the first version is filed with its own creation time and hits
    have hnone : ∀ c : Fact, none = some c → c.updatedAt ≠ 0 := nofun
    obtain ⟨-, hfiled⟩ := hf.ranked (.inr hcreated) hnone
    obtain ⟨now, _, _, rfl⟩ := hf
    -- the others find it there and lose
    have hrun := (hrest.strengthen (I := fun current => ∀ c, current = some c → c.updatedAt ≠ 0)
      (fun g hg _ _ hcurrent hstep => hstep.ranked (.inr (hdated g (mem_cons_of_mem _ hg)).1) hcurrent) hfiled).1
    refine ⟨_, Lib.Ranked.stays_highest hrun fun g hg => ?_, normalizeFact_createdAt hcreated hle now, rfl⟩
    rw [mergeLabel_eq (hfiled _ rfl)]
    exact (hmax g hg).trans (congrArg factRank (normalizeFact_label (.inr hcreated) now)).ge

namespace Store

variable {s s' : Store} {ds : List Delivery}

theorem arrivals {V : Type} (place : Knowledge → Option V) {rule : V → Option V → Option V → Prop}
    (versions : Record → List V) (htold : ∀ k source w, place (Knowledge.told k source w) = place k) (hs : s.Sound)
    (h : Merges ds s s')
    (hstep : ∀ restamps source r k k', MergeStep restamps source r k k' →
      Lib.Deliver rule (versions r) (place k) (place k')) :
    Lib.Deliver rule (ds.flatMap fun d => d.snapshot.records.flatMap versions) (place s.knowledge) (place s'.knowledge) := by
  have hsound := (h.strengthen (I := Sound)
    (fun d _ s t hs hst => ⟨(⟨hs, hst⟩ : s.Sound ∧ _), (delivers hs hst.1 hst.2).1⟩) hs).1
  refine hsound.flatMap (fun s => place s.knowledge) _ fun d s t hst => ?_
  obtain ⟨hs, hmachine, hok⟩ := hst
  obtain ⟨-, -, k, hrun, hk⟩ := delivers hs hmachine hok
  simp only [hk, htold]
  exact hrun.flatMap place versions fun r k k' hr => hstep _ _ r k k' hr

theorem facts_arrive (hs : s.Sound) (h : Merges ds s s') (slot : String) :
    Lib.Deliver FactArrival (factVersions slot ds) (s.knowledge.facts slot) (s'.knowledge.facts slot) := by
  refine arrivals (fun k => k.facts slot) (factAt slot) (fun _ _ _ => rfl) hs h fun _ _ r k k' hr => ?_
  cases hr.merged with
  | @fact _ f now next w hkey hrule =>
    simp only [factAt, Function.update_apply]
    by_cases hslot : f.slot = slot
    · subst hslot
      rw [if_pos rfl, if_pos rfl]
      exact .cons ⟨now, hrule⟩ (.nil _)
    · rw [if_neg hslot, if_neg (Ne.symm hslot)]
      exact .nil _
  | passedOver hpassed =>
    cases r with
    | fact => exact hpassed.elim
    | _ => exact .nil _
  | _ => exact .nil _

theorem performances_arrive (hs : s.Sound) (h : Merges ds s s') (slot : String) :
    Lib.Deliver (Lib.Ranked Performance.aggregate Prod.fst) (performanceVersions slot ds) (s.knowledge.performances slot)
      (s'.knowledge.performances slot) := by
  refine arrivals (fun k => k.performances slot) (performanceAt slot) (fun _ _ _ => rfl) hs h fun _ _ r k k' hr => ?_
  cases hr.merged with
  | @performance _ p next w hp hrule =>
    simp only [performanceAt, Function.update_apply]
    by_cases hslot : p.slot = slot
    · subst hslot
      rw [if_pos ⟨hp, rfl⟩, if_pos rfl]
      exact .cons hrule.ranked (.nil _)
    · rw [if_neg fun h => hslot h.2, if_neg (Ne.symm hslot)]
      exact .nil _
  | passedOver hpassed =>
    cases r with
    | performance =>
      rw [performanceAt, if_neg fun h => h.1 hpassed]
      exact .nil _
    | _ => exact .nil _
  | _ => exact .nil _

theorem merges_ok (s : Store) (hds : ∀ d ∈ ds, d.Valid) : ∃ s', Merges ds s s' := by
  induction ds generalizing s with
  | nil => exact ⟨s, .nil s⟩
  | cons d _ ih =>
    obtain ⟨t, ht⟩ := s.mergeSnapshotFrom_ok (hds d mem_cons_self).2 d.source d.now
    obtain ⟨s', hs'⟩ := ih t (forall_mem_cons.mp hds).2
    exact ⟨s', .cons ⟨(hds d mem_cons_self).1, ht⟩ hs'⟩

end Store

end Arrivals

/-! ### The fact that wins -/

namespace Store

section

variable [CaseFolding]

/-- Whatever the order and the repetitions, the same version of a fact wins. -/
theorem facts_converge (slot : String) {l : List Fact} (hl : l ≠ []) (hdated : ∀ f ∈ l, f.updatedAt ≠ 0) : ∃ f ∈ l,
    (∀ g ∈ l, g.updatedAt < f.updatedAt ∨
      g.updatedAt = f.updatedAt ∧ (f.source < g.source ∨ g.source = f.source ∧ g.value ≤ f.value)) ∧
    ∀ s : Store, s.Reachable → s.knowledge.facts slot = none →
      ∀ ds : List Delivery, (∀ d ∈ ds, d.Valid) → (∀ g, g ∈ factVersions slot ds ↔ g ∈ l) →
        ∃ s' c, Merges ds s s' ∧ s'.knowledge.facts slot = some c ∧
          c.value = f.value ∧ c.source = f.source ∧ c.updatedAt = f.updatedAt := by
  obtain ⟨f, hf, hmax⟩ := l.toFinset.exists_max_image (fun g => factRank g.label) (by simpa using hl)
  rw [mem_toFinset] at hf
  refine ⟨f, hf, fun g hg => factRank_le_iff.mp (hmax g (mem_toFinset.mpr hg)), ?_⟩
  intro s hs habsent ds hds hversions
  obtain ⟨s', h⟩ := s.merges_ok hds
  have harrive := facts_arrive hs.sound h slot
  rw [habsent] at harrive
  obtain ⟨c, hc, ⟨g, hg, heq⟩, hall⟩ := FactArrival.winner harrive (ne_nil_of_mem ((hversions f).mpr hf))
    fun g hg => .inl (hdated g ((hversions g).mp hg))
  rw [hversions] at hg
  rw [mergeLabel_eq (hdated g hg)] at heq
  have hfc := hall f ((hversions f).mpr hf)
  rw [mergeLabel_eq (hdated f hf), heq] at hfc
  have hsame : c.label = f.label := heq.trans (factRank_injective (le_antisymm (hmax g (mem_toFinset.mpr hg)) hfc))
  simp only [Fact.label, Prod.mk.injEq] at hsame
  exact ⟨s', c, h, hc, hsame.2.2, hsame.2.1, hsame.1⟩

end

def report : Fact := { key := "k", value := "draft", origin := "node-b", sequence := 1, updatedAt := 2, createdAt := 2, hits := 1 }

def correction : Fact := { report with value := "final", sequence := 2, updatedAt := 3 }

theorem facts_converge_correction : ∃ f ∈ [report, correction],
    ∃ s' c, Merges [.alone { facts := [correction, report] }, .alone { facts := [report] }]
        (memory (newInMemoryStore "node-a")) s' ∧
      s'.knowledge.facts "cluster|k" = some c ∧ c.value = f.value ∧ c.source = f.source ∧ c.updatedAt = f.updatedAt := by
  obtain ⟨f, hf, -, hall⟩ := facts_converge "cluster|k" (l := [report, correction]) nofun (by decide)
  refine ⟨f, hf, hall _ (.newInMemoryStore "node-a") rfl _ ?_ ?_⟩
  · rw [forall_mem_cons, forall_mem_singleton]
    exact ⟨Delivery.valid_alone (by decide) rfl (by decide), Delivery.valid_alone (by decide) rfl (by decide)⟩
  intro g
  change g ∈ [correction, report, report] ↔ _
  simp [or_comm]

/-! ### Its creation time and hits -/

section

variable [CaseFolding] {s : Store}

/-- The creation time and the hits that stay are the earliest and the most for every order of arrival, exactly
if they are those of every version that no other ranks above. -/
theorem creation_and_hits_converge_iff (hs : s.Reachable) {slot : String} (habsent : s.knowledge.facts slot = none)
    {l : List Fact} (hl : l ≠ []) (hplace : ∀ f ∈ l, f.key ≠ "" ∧ f.slot = slot ∧ f.sequence < 2 ^ 64)
    (hdated : ∀ f ∈ l, f.createdAt ≠ 0 ∧ f.createdAt ≤ f.updatedAt) :
    (∀ ds s', Merges ds s s' → (factVersions slot ds).Perm l → ∃ c, s'.knowledge.facts slot = some c ∧
        ((∃ f ∈ l, c.createdAt = f.createdAt) ∧ ∀ f ∈ l, c.createdAt ≤ f.createdAt) ∧
        ((∃ f ∈ l, c.hits = f.hits) ∧ ∀ f ∈ l, f.hits ≤ c.hits)) ↔
      ∀ f ∈ l, (∀ g ∈ l, factRank g.mergeLabel ≤ factRank f.mergeLabel) →
        ∀ g ∈ l, f.createdAt ≤ g.createdAt ∧ g.hits ≤ f.hits := by
  constructor
  · -- a version that none ranks above comes first, in one snapshot with the others
    intro hall f hf hmax g hg
    have hperm : (f :: l.erase f).Perm l := (perm_cons_erase hf).symm
    have hsub : ∀ {h}, h ∈ f :: l.erase f → h ∈ l := fun hh => hperm.mem_iff.mp hh
    have hversions := factVersions_alone (l := f :: l.erase f) fun g hg => (hplace g (hsub hg)).2.1
    have hvalid : (Delivery.alone { facts := f :: l.erase f }).Valid := by
      refine Delivery.valid_alone (fun r hr => ?_) rfl fun g hg => (hplace g (hsub hg)).1
      rw [records_facts] at hr
      obtain ⟨g, hg, rfl⟩ := mem_map.mp hr
      exact (hplace g (hsub hg)).2.2
    obtain ⟨s', h⟩ := s.merges_ok (forall_mem_singleton.mpr hvalid)
    obtain ⟨c, hc, ⟨-, hcreated⟩, -, hhits⟩ := hall _ s' h (by rwa [hversions])
    have harrive := facts_arrive hs.sound h slot
    rw [habsent, hversions] at harrive
    obtain ⟨_, hc', heq, heq'⟩ := FactArrival.first harrive (fun g hg => hdated g (hsub hg))
      fun g hg => hmax g (mem_of_mem_erase hg)
    cases hc.symm.trans hc'
    exact ⟨heq ▸ hcreated g hg, heq' ▸ hhits g hg⟩
  · intro hbest ds s' h hperm
    have harrive := facts_arrive hs.sound h slot
    rw [habsent] at harrive
    have hmem : ∀ {f}, f ∈ factVersions slot ds ↔ f ∈ l := hperm.mem_iff
    obtain ⟨c, hc, -, hall⟩ := FactArrival.winner harrive (fun hnil => hl (nil_perm.mp (hnil ▸ hperm)))
      fun f hf => .inr (hdated f (hmem.mp hf)).1
    have hcarried := harrive.invariant (I := fun current => ∀ c, current = some c → Carried l c)
      (fun f hf _ _ hcurrent hstep =>
        have hdated := hdated f (hmem.mp hf)
        Carried.arrival (hmem.mp hf) hdated.1 hdated.2 hstep hcurrent) nofun c hc
    obtain ⟨⟨f, hf, hlabel, hcreated, hhits⟩, hcreated', hhits'⟩ := hcarried
    have hfbest := hbest f hf fun g hg => hlabel ▸ hall g (hmem.mpr hg)
    exact ⟨c, hc, ⟨hcreated', fun g hg => hcreated.trans (hfbest g hg).1⟩,
      ⟨hhits', fun g hg => (hfbest g hg).2.trans hhits⟩⟩

end

theorem creation_and_hits_converge_correction :
    (bolt (openBoltStore "node-a")).Reachable ∧ ∀ ds s', Merges ds (bolt (openBoltStore "node-a")) s' →
      (factVersions "cluster|k" ds).Perm [report, correction] → ∃ c, s'.knowledge.facts "cluster|k" = some c ∧
        ((∃ f ∈ [report, correction], c.createdAt = f.createdAt) ∧ ∀ f ∈ [report, correction], c.createdAt ≤ f.createdAt) ∧
        ((∃ f ∈ [report, correction], c.hits = f.hits) ∧ ∀ f ∈ [report, correction], f.hits ≤ c.hits) :=
  ⟨.openBoltStore "node-a",
    (creation_and_hits_converge_iff (.openBoltStore "node-a") rfl (cons_ne_nil _ _) (by decide) (by decide)).mpr
      (by decide)⟩

def earlierReport : Fact := { report with createdAt := 1, hits := 5 }

/-- The earlier report comes after its correction: neither its creation time nor its hits are kept. -/
theorem late_report_is_dropped : (memory (newInMemoryStore "node-a")).Reachable ∧
    (∀ f ∈ [correction, earlierReport], f.createdAt ≠ 0 ∧ f.createdAt ≤ f.updatedAt) ∧
    ∃ s' c, Merges [.alone { facts := [correction, earlierReport] }] (memory (newInMemoryStore "node-a")) s' ∧
      factVersions "cluster|k" [.alone { facts := [correction, earlierReport] }] = [correction, earlierReport] ∧
      s'.knowledge.facts "cluster|k" = some c ∧ c.createdAt = 2 ∧ earlierReport.createdAt = 1 ∧
      c.hits = 1 ∧ earlierReport.hits = 5 :=
  ⟨.newInMemoryStore "node-a", by decide, _, _,
    .cons ⟨(Delivery.valid_alone (by decide) rfl (by decide)).1, rfl⟩ (.nil _), by decide, rfl, rfl, rfl, rfl, rfl⟩

/-! ### The aggregate that stays -/

section

variable [CaseFolding] {s s' : Store} {ds : List Delivery} {l : List Performance}

theorem highest_first (hs : s.Reachable) (habsent : s.knowledge.performances slot = none)
    (hplace : ∀ p ∈ l, p.nodeID ≠ "" ∧ p.model ≠ "" ∧ p.slot = slot ∧ p.sequence < 2 ^ 64)
    {p : Performance} (hp : p ∈ l) (hmax : ∀ r ∈ l, r.attempts ≤ p.attempts) :
    ∃ ds s', Merges ds s s' ∧ (performanceVersions slot ds).Perm l ∧
      ∃ c, s'.knowledge.performances slot = some c ∧ c.aggregate = p.aggregate := by
  have hperm : (p :: l.erase p).Perm l := (perm_cons_erase hp).symm
  have hsub : ∀ {q}, q ∈ p :: l.erase p → q ∈ l := fun hq => hperm.mem_iff.mp hq
  have hversions := performanceVersions_alone (l := p :: l.erase p) fun q hq =>
    have hq := hplace q (hsub hq)
    ⟨not_or.mpr ⟨hq.1, hq.2.1⟩, hq.2.2.1⟩
  have hvalid : (Delivery.alone { performances := p :: l.erase p }).Valid := by
    refine Delivery.valid_alone (fun r hr => ?_) rfl nofun
    rw [records_performances] at hr
    obtain ⟨q, hq, rfl⟩ := mem_map.mp hr
    exact (hplace q (hsub hq)).2.2.2
  obtain ⟨s', h⟩ := s.merges_ok (forall_mem_singleton.mpr hvalid)
  have harrive := performances_arrive hs.sound h slot
  rw [habsent, hversions] at harrive
  exact ⟨_, s', h, by rwa [hversions], Lib.Ranked.first_of_highest harrive fun q hq => hmax q (mem_of_mem_erase hq)⟩

theorem performances_end (hs : s.Reachable) (habsent : s.knowledge.performances slot = none)
    (h : Merges ds s s') (hl : l ≠ []) (hperm : (performanceVersions slot ds).Perm l) :
    ∃ c, s'.knowledge.performances slot = some c ∧
      ∃ p ∈ l, c.aggregate = p.aggregate ∧ ∀ r ∈ l, r.attempts ≤ p.attempts := by
  have harrive := performances_arrive hs.sound h slot
  rw [habsent] at harrive
  obtain ⟨c, hc, ⟨p, hp, heq⟩, hall⟩ := Lib.Ranked.winner harrive fun hnil => hl (nil_perm.mp (hnil ▸ hperm))
  refine ⟨c, hc, p, hperm.mem_iff.mp hp, heq, fun r hr => ?_⟩
  have hle := hall r (hperm.mem_iff.mpr hr)
  rwa [heq] at hle

/-- The same aggregate stays for every order of arrival, exactly if the versions with the most attempts agree. -/
theorem performances_converge_iff {t : Store} (hs : s.Reachable) (ht : t.Reachable) {slot : String}
    (habsent : s.knowledge.performances slot = none) (habsent' : t.knowledge.performances slot = none)
    {l : List Performance} (hl : l ≠ [])
    (hplace : ∀ p ∈ l, p.nodeID ≠ "" ∧ p.model ≠ "" ∧ p.slot = slot ∧ p.sequence < 2 ^ 64) :
    (∀ ds s' es t', Merges ds s s' → Merges es t t' →
      (performanceVersions slot ds).Perm l → (performanceVersions slot es).Perm l →
      ∃ c c', s'.knowledge.performances slot = some c ∧ t'.knowledge.performances slot = some c' ∧
        c.aggregate = c'.aggregate) ↔
      ∀ p ∈ l, ∀ q ∈ l, (∀ r ∈ l, r.attempts ≤ p.attempts) → (∀ r ∈ l, r.attempts ≤ q.attempts) →
        p.aggregate = q.aggregate := by
  constructor
  · intro hall p hp q hq hpmax hqmax
    obtain ⟨ds, s', h, hds, c, hc, heq⟩ := highest_first hs habsent hplace hp hpmax
    obtain ⟨es, t', h', hes, c', hc', heq'⟩ := highest_first ht habsent' hplace hq hqmax
    obtain ⟨_, _, hd, hd', hsame⟩ := hall ds s' es t' h h' hds hes
    cases hc.symm.trans hd
    cases hc'.symm.trans hd'
    exact heq.symm.trans (hsame.trans heq')
  · intro hagree ds s' es t' h h' hds hes
    obtain ⟨c, hc, p, hp, heq, hpmax⟩ := performances_end hs habsent h hl hds
    obtain ⟨c', hc', q, hq, heq', hqmax⟩ := performances_end ht habsent' h' hl hes
    exact ⟨c, c', hc, hc', heq.trans ((hagree p hp q hq hpmax hqmax).trans heq'.symm)⟩

end

def oneSuccess : Performance :=
  { nodeID := "node-a", model := "m", taskType := "code", attempts := 1, successes := 1, origin := "node-a", sequence := 1 }

def oneFailure : Performance :=
  { oneSuccess with successes := 0, failures := 1, origin := "node-b" }

def threeAttempts : Performance := { oneSuccess with attempts := 3, successes := 3, sequence := 2 }

theorem performances_converge_threeAttempts :
    (memory (newInMemoryStore "node-c")).Reachable ∧ (bolt (openBoltStore "node-d")).Reachable ∧
      ∀ ds s' es t', Merges ds (memory (newInMemoryStore "node-c")) s' → Merges es (bolt (openBoltStore "node-d")) t' →
      (performanceVersions threeAttempts.slot ds).Perm [oneFailure, threeAttempts] →
      (performanceVersions threeAttempts.slot es).Perm [oneFailure, threeAttempts] →
      ∃ c c', s'.knowledge.performances threeAttempts.slot = some c ∧
        t'.knowledge.performances threeAttempts.slot = some c' ∧ c.aggregate = c'.aggregate :=
  ⟨.newInMemoryStore "node-c", .openBoltStore "node-d",
    (performances_converge_iff (.newInMemoryStore "node-c") (.openBoltStore "node-d") rfl rfl (cons_ne_nil _ _)
      (by decide)).mpr (by decide)⟩

/-- With equal attempts the version that comes first stays. -/
theorem tied_aggregates_diverge : (memory (newInMemoryStore "node-c")).Reachable ∧ ∃ s' t' c c',
      Merges [.alone { performances := [oneSuccess, oneFailure] }] (memory (newInMemoryStore "node-c")) s' ∧
      Merges [.alone { performances := [oneFailure, oneSuccess] }] (memory (newInMemoryStore "node-c")) t' ∧
      oneSuccess.slot = oneFailure.slot ∧
      s'.knowledge.performances oneSuccess.slot = some c ∧ t'.knowledge.performances oneSuccess.slot = some c' ∧
      c.aggregate = (1, 1, 0, 0, 0) ∧ c'.aggregate = (1, 0, 1, 0, 0) :=
  ⟨.newInMemoryStore "node-c", _, _, _, _, .cons ⟨(Delivery.valid_alone (by decide) rfl (by decide)).1, rfl⟩ (.nil _),
    .cons ⟨(Delivery.valid_alone (by decide) rfl (by decide)).1, rfl⟩ (.nil _), rfl, rfl, rfl, rfl, rfl⟩

end Store

end Maistr0.Memory
