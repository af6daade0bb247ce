import Maistr0.Memory.Replay

/-!
# Two stores exchange their snapshots

After `A` merged the snapshot of `B`, `B` that of `A` and `A` that of `B` again, each store has absorbed
everything the other holds. From then on merges in either direction change no record: a dialogue that was
merged and got a new stamp on the way is not news to the side it comes back to.
-/

namespace Maistr0.Memory

open Go List Function Lib.Keyed

variable [CaseFolding] {r : Record}

def Holdings.Holds (h : Holdings) : Record → Prop
  | .experience e => e ∈ h.experiences
  | .fact f => h.facts f.slot = some f
  | .performance p => h.performances p.slot = some p
  | .dialogue d => h.dialogues d.id = some d

def DialogueRecord.turnKeys (d : DialogueRecord) : List (Time × String × String) :=
  d.turns.map fun turn => (turn.at_, turn.speaker, turn.content)

structure DialogueRecord.Joins (x c d : DialogueRecord) : Prop where
  turns : ∀ turn, turn ∈ x.turnKeys ↔ turn ∈ c.turnKeys ∨ turn ∈ d.turnKeys
  participants : ∀ p, p ∈ x.participants ↔ p ∈ c.participants ∨ p ∈ d.participants
  updatedAt : x.updatedAt = max c.updatedAt d.updatedAt

omit [CaseFolding] in
theorem Includes.turnKeys {c d : DialogueRecord} (h : Includes c d) : ∀ turn ∈ d.turnKeys, turn ∈ c.turnKeys := by
  intro _ hturn
  obtain ⟨turn, hmem, rfl⟩ := mem_map.mp hturn
  exact any_sameTurn_iff.mp (h.turns turn hmem)

omit [CaseFolding] in
theorem Includes.joins {x c d : DialogueRecord} (hc : Includes x c) (hd : Includes x d)
    (hx : Includes (mergeTranscript c d).1 x) : x.Joins c d := by
  obtain ⟨_, _, hturns, hpeople, heq, -⟩ := mergeTranscript_eq c d
  rw [heq] at hx
  refine ⟨fun turn => ⟨fun hturn => ?_, fun hturn => hturn.elim (hc.turnKeys turn) (hd.turnKeys turn)⟩,
    fun p => ⟨fun hp => ?_, fun hp => hp.elim (hc.participants p) (hd.participants p)⟩,
    le_antisymm hx.updatedAt (max_le hc.updatedAt hd.updatedAt)⟩
  · have hmem := hx.turnKeys turn hturn
    rw [DialogueRecord.turnKeys, map_append, mem_append] at hmem
    refine hmem.imp_right fun hnew => ?_
    obtain ⟨u, hu, rfl⟩ := mem_map.mp hnew
    exact mem_map_of_mem (hturns.incoming u hu)
  · exact (mem_append.mp (hx.participants p hp)).imp_right (hpeople.incoming p)

section Runs

variable {restamps : Bool} {source : String} {l : List Record} {k k' : Knowledge}

section

variable (h : Lib.Deliver (MergeStep restamps source) l k k') {id : String}

include h

theorem experiences_of_run : (∀ x ∈ k.known, x ∈ k'.known) ∧ ∀ y ∈ k'.experiences, y ∈ k.experiences ∨
      ∃ e, .experience e ∈ l ∧ Imported e y ∧ experienceFingerprint e ∉ k.known := by
  refine h.invariant (I := fun t => (∀ x ∈ k.known, x ∈ t.known) ∧ ∀ y ∈ t.experiences, y ∈ k.experiences ∨
    ∃ e, .experience e ∈ l ∧ Imported e y ∧ experienceFingerprint e ∉ k.known) (fun r hr s t hs hst => ?_)
    ⟨fun _ hx => hx, fun _ hy => .inl hy⟩
  cases hst.merged with
  | @newExperience _ e x xs w hnew hx hxs =>
    refine ⟨fun z hz => Finset.mem_insert_of_mem (hs.1 z hz), fun y hy => ?_⟩
    rcases hxs y hy with rfl | hold
    · exact .inr ⟨e, hr, hx, fun hknown => hnew (hs.1 _ hknown)⟩
    · exact hs.2 y hold
  | _ => exact hs

theorem fact_of_run {slot : String} {f : Fact} (hf : k'.facts slot = some f) :
    k.facts slot = some f ∨ ∃ g now, .fact g ∈ l ∧ g.slot = slot ∧ f.label = (normalizeFact g now).label := by
  refine h.invariant (I := fun t => ∀ f, t.facts slot = some f →
    k.facts slot = some f ∨ ∃ g now, .fact g ∈ l ∧ g.slot = slot ∧ f.label = (normalizeFact g now).label)
    (fun r hr s t hs hst => ?_) (fun _ hf => .inl hf) f hf
  cases hst.merged with
  | @fact _ g now next w hkey hrule =>
    intro f hf
    simp only [update_apply] at hf
    split at hf
    · rename_i heq
      rcases hrule.cases hf with hold | ⟨-, -, hlabel⟩
      · exact hs f (heq ▸ hold)
      · exact .inr ⟨g, now, hr, heq.symm, hlabel⟩
    · exact hs f hf
  | _ => exact hs

theorem performance_of_run {slot : String} {p : Performance} (hp : k'.performances slot = some p) :
    k.performances slot = some p ∨ ∃ g, .performance g ∈ l ∧ g.slot = slot ∧ p.aggregate = g.aggregate := by
  refine h.invariant (I := fun t => ∀ p, t.performances slot = some p →
    k.performances slot = some p ∨ ∃ g, .performance g ∈ l ∧ g.slot = slot ∧ p.aggregate = g.aggregate)
    (fun r hr s t hs hst => ?_) (fun _ hp => .inl hp) p hp
  cases hst.merged with
  | @performance _ g next w hg hrule =>
    intro p hp
    simp only [update_apply] at hp
    split at hp
    · rename_i heq
      rcases hrule.ranked with ⟨c, hc, -, hsame⟩ | ⟨-, c, hc, hlabel⟩
      · exact hs p (heq ▸ hsame ▸ hp)
      · cases hc.symm.trans hp
        exact .inr ⟨g, hr, heq.symm, hlabel⟩
    · exact hs p hp
  | _ => exact hs

theorem dialogue_grows {c : DialogueRecord} (hc : k.dialogues id = some c) :
    ∃ x, k'.dialogues id = some x ∧ Includes x c := by
  refine h.invariant (I := fun t => ∃ x, t.dialogues id = some x ∧ Includes x c) (fun r hr s t hs hst => ?_)
    ⟨c, hc, .refl c⟩
  cases hst.merged with
  | @dialogue _ d next w hd hrule =>
    obtain ⟨x, hx, hin⟩ := hs
    simp only [update_apply]
    split
    · rename_i heq
      obtain ⟨y, hy, hyx⟩ := hrule.grows (heq ▸ hx)
      exact ⟨y, hy, hyx.trans hin⟩
    · exact ⟨x, hx, hin⟩
  | _ => exact hs

theorem dialogue_within {u : DialogueRecord} (hk : ∀ c, k.dialogues id = some c → Includes u c)
    (hl : ∀ d, .dialogue d ∈ l → d.id = id → Includes u d) :
    ∀ c, k'.dialogues id = some c → Includes u c := by
  refine h.invariant (I := fun t => ∀ c, t.dialogues id = some c → Includes u c) (fun r hr s t hs hst => ?_) hk
  cases hst.merged with
  | @dialogue _ d next w hd hrule =>
    simp only [update_apply]
    split
    · rename_i heq
      exact hrule.within (heq ▸ hs) (hl d hr heq.symm)
    · exact hs
  | _ => exact hs

theorem dialogue_of_run {x : DialogueRecord} (hx : k'.dialogues id = some x) :
    (∃ c, k.dialogues id = some c) ∨ ∃ d, .dialogue d ∈ l ∧ d.id = id := by
  refine h.invariant (I := fun t => ∀ x, t.dialogues id = some x →
    (∃ c, k.dialogues id = some c) ∨ ∃ d, .dialogue d ∈ l ∧ d.id = id) (fun r hr s t hs hst => ?_)
    (fun x hx => .inl ⟨x, hx⟩) x hx
  cases hst.merged with
  | @dialogue _ d next w hd hrule =>
    intro x hx
    simp only [update_apply] at hx
    split at hx
    · rename_i heq
      exact .inr ⟨d, hr, heq.symm⟩
    · exact hs x hx
  | _ => exact hs

theorem quiet_run (hdated : ∀ r ∈ l, r.Dated) (habsorbed : ∀ r ∈ l, Absorbed restamps source r k) :
    k'.toHoldings = k.toHoldings ∧
      ∀ o, k'.watermarks o = k.watermarks o ∨ ∃ r ∈ l, r.origin = o ∧ r.sequence = k'.watermarks o := by
  refine ⟨(absorbing_holdings restamps source).still_run (h.with_items hdated) habsorbed, ?_⟩
  refine (h.invariant (I := fun t => (∀ r ∈ l, Absorbed restamps source r t) ∧
      ∀ o, t.watermarks o = k.watermarks o ∨ ∃ r ∈ l, r.origin = o ∧ r.sequence = t.watermarks o)
    (fun r hr s t hs hst => ?_) ⟨habsorbed, fun _ => .inl rfl⟩).2
  refine ⟨fun c hc => hst.keeps (hs.1 c hc), fun o => ?_⟩
  rw [hst.quiet (hs.1 r hr)]
  unfold observed
  split
  · rename_i horigin
    rcases max_choice (s.watermarks o) r.sequence with hmax | hmax <;> rw [hmax]
    · exact hs.2 o
    · exact .inr ⟨r, hr, horigin.2, rfl⟩
  · exact hs.2 o

end

end Runs

omit [CaseFolding] in
theorem Fact.slot_of_scope {f : Fact} (h : f.scope ≠ "") : f.slot = f.mapKey := by
  unfold Fact.slot defaultScope
  rw [if_neg h]

theorem Performance.slot_eq (p : Performance) : p.slot = p.mapKey := by
  have htwice : defaultTaskType (defaultTaskType p.taskType) = defaultTaskType p.taskType := by
    unfold defaultTaskType
    split
    · rfl
    · rfl
  change perfKey p.nodeID p.model (defaultTaskType p.taskType) = perfKey p.nodeID p.model p.taskType
  unfold perfKey
  rw [htwice]

theorem mem_records_iff {S : Snapshot} {h : Holdings} {facts : Facts} {performances : Performances}
    {dialogues : Dialogues} (hes : ∀ e, e ∈ S.experiences ↔ e ∈ h.experiences)
    (hscopes : ∀ f ∈ facts.vals, f.scope ≠ "")
    (hfacts : ∀ f, f ∈ S.facts ↔ f ∈ facts.vals) (hfactsOf : h.facts = facts.get?)
    (hperformances : ∀ p, p ∈ S.performances ↔ p ∈ performances.vals) (hperformancesOf : h.performances = performances.get?)
    (hdialogues : ∀ d, d ∈ S.dialogues ↔ d ∈ dialogues.vals) (hdialoguesOf : h.dialogues = dialogues.get?) :
    r ∈ S.records ↔ h.Holds r := by
  cases r with
  | experience e => exact Snapshot.mem_records_experience.trans (hes e)
  | fact f =>
    rw [Snapshot.mem_records_fact, hfacts, Holdings.Holds, hfactsOf, get?_eq_some]
    exact ⟨fun hf => ⟨hf, (Fact.slot_of_scope (hscopes f hf)).symm⟩, And.left⟩
  | performance p =>
    rw [Snapshot.mem_records_performance, hperformances, Holdings.Holds, hperformancesOf, get?_eq_some]
    exact ⟨fun hp => ⟨hp, p.slot_eq.symm⟩, And.left⟩
  | dialogue =>
    rw [Snapshot.mem_records_dialogue, hdialogues, Holdings.Holds, hdialoguesOf, get?_eq_some]
    exact ⟨fun hd => ⟨hd, rfl⟩, And.left⟩

theorem Dated.filed {es : List Experience} {facts : Facts} (h : Dated es facts) {k : Holdings} (hes : k.experiences = es)
    (hfacts : k.facts = facts.get?) (hr : k.Holds r) : r.Filed := by
  cases r with
  | experience e => exact h.experiences e (hes ▸ hr)
  | fact f =>
    rw [Holdings.Holds, hfacts] at hr
    exact h.facts f (get?_eq_some.mp hr).1
  | performance | dialogue => trivial

namespace Store

structure Fine (s : Store) : Prop where
  sound : s.Sound
  machine : s.Machine

theorem Reachable.fine {s : Store} (h : s.Reachable) : s.Fine := ⟨h.sound, h.machine⟩

theorem mem_snapshot_iff {s : Store} (hs : s.Sound) : r ∈ s.snapshot.records ↔ s.knowledge.Holds r := by
  cases s with
  | memory =>
    exact mem_records_iff (fun e => mem_reverse) (fun f hf => (hs.facts f hf).1)
      (fun f => mem_insertionSort _) rfl (fun p => mem_insertionSort _) rfl
      (fun d => mem_insertionSort _) rfl
  | bolt =>
    exact mem_records_iff (fun e => mem_insertionSort _) (fun f hf => (hs.dated.facts f hf).1)
      (fun f => mem_insertionSort _) rfl (fun p => mem_insertionSort _) rfl
      (fun d => mem_insertionSort _) rfl

theorem filed_of_holds {s : Store} (hs : s.Sound) (hr : s.knowledge.Holds r) : r.Filed := by
  cases s with
  | memory => exact hs.filed rfl rfl hr
  | bolt => exact hs.dated.filed rfl rfl hr

def Knows (s : Store) (source : String) (t : Store) : Prop :=
  ∀ r, t.knowledge.Holds r → Absorbed s.restamps (MemoryStore.sourceOrLegacy source) r s.knowledge

section Merge

variable {s t s' : Store} {source : String} {now : Clocks}

theorem dated_snapshot (ht : t.Sound) : ∀ r ∈ t.snapshot.records, r.Dated := by
  intro r hr
  have hfiled := filed_of_holds ht ((mem_snapshot_iff ht).mp hr)
  cases r with
  | fact => exact ⟨hfiled.2.1, .inl hfiled.2.2⟩
  | _ => trivial

theorem merge_ok (ht : t.Sound) (s : Store) (source : String) (now : Clocks) :
    ∃ s', s.mergeSnapshotFrom t.snapshot source now = (.ok (), s') :=
  s.mergeSnapshotFrom_ok (fun f hf => (dated_snapshot ht (.fact f) (Snapshot.mem_records_fact.mpr hf)).1) source now

theorem merge_knows (hs : s.Fine) (ht : t.Fine) (h : s.mergeSnapshotFrom t.snapshot source now = (.ok (), s')) :
    s'.Fine ∧ s'.restamps = s.restamps ∧ s'.Knows source t ∧
      ∃ k, Lib.Deliver (MergeStep s.restamps (MemoryStore.sourceOrLegacy source)) t.snapshot.records s.knowledge k ∧
        s'.knowledge = k.told (MemoryStore.sourceOrLegacy source) t.snapshot.watermarks := by
  obtain ⟨hsound, hkind, k, hrun, hk⟩ := delivers hs.sound ht.machine.snapshot h
  have hmachine := hs.machine.mergeSnapshot ht.machine.snapshot source now
  rw [h] at hmachine
  refine ⟨⟨hsound, hmachine⟩, hkind, fun r hr => ?_, k, hrun, hk⟩
  have habsorbed := (absorbing_holdings s.restamps (MemoryStore.sourceOrLegacy source)).absorbs_run
    (hrun.with_items (dated_snapshot ht.sound)) r ((mem_snapshot_iff ht.sound).mpr hr)
  rw [hkind, hk]
  exact habsorbed.told _

theorem merge_quiet (hs : s.Fine) (ht : t.Fine) (hknows : s.Knows source t)
    (h : s.mergeSnapshotFrom t.snapshot source now = (.ok (), s')) :
    s'.knowledge.toHoldings = s.knowledge.toHoldings ∧
      ∀ o, s'.knowledge.watermarks o = s.knowledge.watermarks o ∨ t.snapshot.watermarks.get o = s'.knowledge.watermarks o ∨
        ∃ r ∈ t.snapshot.records, r.origin = o ∧ r.sequence = s'.knowledge.watermarks o := by
  obtain ⟨-, -, -, k, hrun, hk⟩ := merge_knows hs ht h
  obtain ⟨hsame, hwatermarks⟩ := quiet_run hrun (dated_snapshot ht.sound)
    fun r hr => hknows r ((mem_snapshot_iff ht.sound).mp hr)
  rw [hk]
  refine ⟨hsame, fun o => ?_⟩
  change (if o = "" then k.watermarks o else max (k.watermarks o) (t.snapshot.watermarks.get o)) = _ ∨ _ =
    (if o = "" then k.watermarks o else max (k.watermarks o) (t.snapshot.watermarks.get o)) ∨ ∃ r ∈ _, _ ∧ _ =
    (if o = "" then k.watermarks o else max (k.watermarks o) (t.snapshot.watermarks.get o))
  have hold : k.watermarks o = s.knowledge.watermarks o ∨ t.snapshot.watermarks.get o = k.watermarks o ∨
      ∃ r ∈ t.snapshot.records, r.origin = o ∧ r.sequence = k.watermarks o := (hwatermarks o).imp_right .inr
  split
  · exact hold
  rcases max_choice (k.watermarks o) (t.snapshot.watermarks.get o) with hmax | hmax <;> rw [hmax]
  · exact hold
  · exact .inr (.inl rfl)

end Merge

section Exchange

variable {A B a₁ b₁ a₂ : Store} {nameA nameB : String} {now₁ now₂ now₃ : Clocks}

variable {id : String} {c : DialogueRecord}

theorem id_of_dialogue {s : Store} (h : s.knowledge.dialogues id = some c) : c.id = id := by
  cases s with
  | memory | bolt => exact keyOf_get? h

theorem knows_after_exchange (hA : A.Fine) (hB : B.Fine) (h₁ : A.mergeSnapshotFrom B.snapshot nameB now₁ = (.ok (), a₁))
    (h₂ : B.mergeSnapshotFrom a₁.snapshot nameA now₂ = (.ok (), b₁))
    (h₃ : a₁.mergeSnapshotFrom b₁.snapshot nameB now₃ = (.ok (), a₂)) : b₁.Knows nameA a₂ := by
  obtain ⟨ha₁, -, hknows₁, -⟩ := merge_knows hA hB h₁
  obtain ⟨hb₁, -, hknows₂, _, hrun₂, hk₂⟩ := merge_knows hB ha₁ h₂
  obtain ⟨ha₂, -, -, _, hrun₃, hk₃⟩ := merge_knows ha₁ hb₁ h₃
  have hof₂ : ∀ {r}, r ∈ a₁.snapshot.records → a₁.knowledge.Holds r := (mem_snapshot_iff ha₁.sound).mp
  have hof₃ : ∀ {r}, r ∈ b₁.snapshot.records → b₁.knowledge.Holds r := (mem_snapshot_iff hb₁.sound).mp
  intro r hr
  have hfiled := filed_of_holds ha₂.sound hr
  cases r with
  | experience y =>
    rw [hk₃] at hr
    rcases (experiences_of_run hrun₃).2 y hr with hold | ⟨e, he, himported, hnew⟩
    · exact hknows₂ (.experience y) hold
    -- it came from `b₁`, so `B` did not have it and got it from `a₁`
    have heb := hof₃ he
    have hcreated : e.createdAt ≠ 0 := filed_of_holds hb₁.sound heb
    rw [hk₂] at heb
    rcases (experiences_of_run hrun₂).2 e heb with hold | ⟨e', he', himported', -⟩
    · exact absurd (hknows₁ (.experience e) hold) hnew
    have hknown := hknows₂ (.experience e') (hof₂ he')
    change experienceFingerprint y ∈ b₁.knowledge.known
    rw [himported.2 hcreated, himported'.2 (filed_of_holds ha₁.sound (hof₂ he'))]
    exact hknown
  | fact f =>
    rw [hk₃] at hr
    rcases fact_of_run hrun₃ hr with hold | ⟨g, now, hg, hslot, hlabel⟩
    · exact hknows₂ (.fact f) hold
    have hgb := hof₃ hg
    have hdated : g.updatedAt ≠ 0 := (filed_of_holds hb₁.sound hgb).2.2
    rw [normalizeFact_label (.inl hdated), mergeLabel_eq hdated] at hlabel
    intro now'
    refine ⟨g, hslot ▸ hgb, ?_⟩
    rw [normalizeFact_label (.inl hfiled.2.2), mergeLabel_eq hfiled.2.2, hlabel]
  | performance p =>
    rw [hk₃] at hr
    rcases performance_of_run hrun₃ hr with hold | ⟨g, hg, hslot, haggregate⟩
    · exact hknows₂ (.performance p) hold
    · exact .inr ⟨g, hslot ▸ hof₃ hg, (congrArg Prod.fst haggregate).le⟩
  | dialogue x =>
    rcases eq_or_ne x.id "" with hempty | hid
    · exact .inl hempty
    rw [hk₃] at hr
    -- `a₁` has the dialogue, because `B` or `a₁` had it before `b₁`
    obtain ⟨c, hc⟩ : ∃ c, a₁.knowledge.dialogues x.id = some c := by
      rcases dialogue_of_run hrun₃ hr with hold | ⟨d, hd, hdid⟩
      · exact hold
      have hdb := hof₃ hd
      rw [hk₂] at hdb
      rcases dialogue_of_run hrun₂ hdb with ⟨c, hc⟩ | ⟨d', hd', hdid'⟩
      · have hcid := id_of_dialogue hc
        have habsorbed := hknows₁ (.dialogue c) (by rw [Holdings.Holds, hcid]; exact hc)
        obtain ⟨y, hy, -⟩ := habsorbed.resolve_left (by rw [hcid, hdid]; exact hid)
        exact ⟨y, by rw [← hdid, ← hcid]; exact hy⟩
      · exact ⟨d', by rw [← hdid, ← hdid']; exact hof₂ hd'⟩
    -- and `b₁` includes what `a₁` had and what it sends itself
    have hcid := id_of_dialogue hc
    have habsorbed := hknows₂ (.dialogue c) (by rw [Holdings.Holds, hcid]; exact hc)
    obtain ⟨y, hy, hin, hsettled⟩ := habsorbed.resolve_left (by rw [hcid]; exact hid)
    rw [hcid] at hy
    refine .inr ⟨y, hy, dialogue_within hrun₃ (fun c' hc' => ?_) (fun d hd hdid => ?_) x hr, hsettled⟩
    · cases hc.symm.trans hc'
      exact hin
    have hdb := hof₃ hd
    rw [Holdings.Holds, hdid] at hdb
    cases hy.symm.trans hdb
    exact .refl _

theorem Machine.id_ne_empty {s : Store} (h : s.Machine) (hc : s.knowledge.dialogues id = some c) : id ≠ "" := by
  rw [← id_of_dialogue hc]
  cases s with
  | memory | bolt => exact (h.records.dialogues c (get?_eq_some.mp hc).1).1

theorem Knows.includes {s t : Store} {source : String} (h : s.Knows source t) (ht : t.Machine)
    (hc : t.knowledge.dialogues id = some c) :
    ∃ x, s.knowledge.dialogues id = some x ∧ Includes x c := by
  have hid := id_of_dialogue hc
  obtain ⟨x, hx, hin, -⟩ := (h (.dialogue c) (by rw [Holdings.Holds, hid]; exact hc)).resolve_left
    (by rw [hid]; exact ht.id_ne_empty hc)
  exact ⟨x, hid ▸ hx, hin⟩

theorem merge_within {s t s' : Store} {source : String} {now : Clocks} (hs : s.Fine) (ht : t.Fine)
    (h : s.mergeSnapshotFrom t.snapshot source now = (.ok (), s')) {u : DialogueRecord}
    (hown : ∀ c, s.knowledge.dialogues id = some c → Includes u c)
    (hother : ∀ c, t.knowledge.dialogues id = some c → Includes u c) :
    ∀ c, s'.knowledge.dialogues id = some c → Includes u c := by
  obtain ⟨-, -, -, _, hrun, hk⟩ := merge_knows hs ht h
  rw [hk]
  refine dialogue_within hrun hown fun d hd hid => hother d ?_
  have hholds := (mem_snapshot_iff ht.sound).mp hd
  rwa [Holdings.Holds, hid] at hholds

inductive Exchange (nameA nameB : String) : Store × Store → Store × Store → Prop
  | toFirst {a b a' : Store} (now : Clocks) (h : a.mergeSnapshotFrom b.snapshot nameB now = (.ok (), a')) :
      Exchange nameA nameB (a, b) (a', b)
  | toSecond {a b b' : Store} (now : Clocks) (h : b.mergeSnapshotFrom a.snapshot nameA now = (.ok (), b')) :
      Exchange nameA nameB (a, b) (a, b')

structure Level (nameA nameB : String) (p : Store × Store) : Prop where
  first : p.1.Fine
  second : p.2.Fine
  knows : p.1.Knows nameB p.2
  known : p.2.Knows nameA p.1

theorem Level.exchange {p p' : Store × Store} (h : Level nameA nameB p) (hstep : Exchange nameA nameB p p') :
    Level nameA nameB p' ∧ p'.1.knowledge.toHoldings = p.1.knowledge.toHoldings ∧
      p'.2.knowledge.toHoldings = p.2.knowledge.toHoldings := by
  cases hstep with
  | toFirst _ hmerge =>
    obtain ⟨hfine, -, hknows, -⟩ := merge_knows h.first h.second hmerge
    obtain ⟨hsame, -⟩ := merge_quiet h.first h.second h.knows hmerge
    exact ⟨⟨hfine, h.second, hknows, fun r hr => h.known r (hsame ▸ hr)⟩, hsame, rfl⟩
  | toSecond _ hmerge =>
    obtain ⟨hfine, -, hknows, -⟩ := merge_knows h.second h.first hmerge
    obtain ⟨hsame, -⟩ := merge_quiet h.second h.first h.known hmerge
    exact ⟨⟨h.first, hfine, fun r hr => h.knows r (hsame ▸ hr), hknows⟩, rfl, hsame⟩

theorem Level.run {p p' : Store × Store} (h : Level nameA nameB p) (hrun : Relation.ReflTransGen (Exchange nameA nameB) p p') :
    Level nameA nameB p' ∧ p'.1.knowledge.toHoldings = p.1.knowledge.toHoldings ∧
      p'.2.knowledge.toHoldings = p.2.knowledge.toHoldings := by
  induction hrun with
  | refl => exact ⟨h, rfl, rfl⟩
  | tail _ hstep ih =>
    obtain ⟨hlevel, hfirst, hsecond⟩ := ih.1.exchange hstep
    exact ⟨hlevel, hfirst.trans ih.2.1, hsecond.trans ih.2.2⟩

def AssignsNothing (s : Store) (S : Snapshot) (s' : Store) : Prop :=
  ∀ o, s'.knowledge.watermarks o = s.knowledge.watermarks o ∨ S.watermarks.get o = s'.knowledge.watermarks o ∨
    ∃ r ∈ S.records, r.origin = o ∧ r.sequence = s'.knowledge.watermarks o

/-- Three merges bring both sides of a dialogue together in both stores; from then on merges in either
direction, in any order, change no record and assign no sequence. -/
theorem exchange_goes_quiet (hA : A.Reachable) (hB : B.Reachable) (nameA nameB : String) (now₁ now₂ now₃ : Clocks) :
    ∃ a₁ b₁ a₂, A.mergeSnapshotFrom B.snapshot nameB now₁ = (.ok (), a₁) ∧
      B.mergeSnapshotFrom a₁.snapshot nameA now₂ = (.ok (), b₁) ∧
      a₁.mergeSnapshotFrom b₁.snapshot nameB now₃ = (.ok (), a₂) ∧
      (∀ id c d, A.knowledge.dialogues id = some c → B.knowledge.dialogues id = some d →
        ∃ x y, a₂.knowledge.dialogues id = some x ∧ b₁.knowledge.dialogues id = some y ∧ x.Joins c d ∧ y.Joins c d) ∧
      ∀ a b, Relation.ReflTransGen (Exchange nameA nameB) (a₂, b₁) (a, b) →
        a.knowledge.toHoldings = a₂.knowledge.toHoldings ∧ b.knowledge.toHoldings = b₁.knowledge.toHoldings ∧
        (∀ now a', a.mergeSnapshotFrom b.snapshot nameB now = (.ok (), a') → AssignsNothing a b.snapshot a') ∧
        ∀ now b', b.mergeSnapshotFrom a.snapshot nameA now = (.ok (), b') → AssignsNothing b a.snapshot b' := by
  obtain ⟨a₁, h₁⟩ := merge_ok hB.sound A nameB now₁
  obtain ⟨ha₁, -, hknows₁, k₁, hrun₁, hk₁⟩ := merge_knows hA.fine hB.fine h₁
  obtain ⟨b₁, h₂⟩ := merge_ok ha₁.sound B nameA now₂
  obtain ⟨hb₁, -, hknows₂, -⟩ := merge_knows hB.fine ha₁ h₂
  obtain ⟨a₂, h₃⟩ := merge_ok hb₁.sound a₁ nameB now₃
  obtain ⟨ha₂, -, hknows₃, -⟩ := merge_knows ha₁ hb₁ h₃
  refine ⟨a₁, b₁, a₂, h₁, h₂, h₃, fun id c d hc hd => ?_, fun a b hrun => ?_⟩
  · -- both versions are included in every later one
    obtain ⟨_, hz, hzc⟩ := dialogue_grows hrun₁ hc
    rw [← show a₁.knowledge.dialogues id = k₁.dialogues id by rw [hk₁]; rfl] at hz
    obtain ⟨_, hz', hzd⟩ := hknows₁.includes hB.machine hd
    cases hz.symm.trans hz'
    obtain ⟨y, hy, hyz⟩ := hknows₂.includes ha₁.machine hz
    obtain ⟨x, hx, hxy⟩ := hknows₃.includes hb₁.machine hy
    -- and none of them has more than the merge of the two
    have hcmax : ∀ e, A.knowledge.dialogues id = some e → Includes (mergeTranscript c d).1 e := by
      intro e he
      cases hc.symm.trans he
      exact includes_mergeTranscript_left c d
    have hdmax : ∀ e, B.knowledge.dialogues id = some e → Includes (mergeTranscript c d).1 e := by
      intro e he
      cases hd.symm.trans he
      exact includes_mergeTranscript_right c d
    have hmax₁ := merge_within hA.fine hB.fine h₁ hcmax hdmax
    have hmax₂ := merge_within hB.fine ha₁ h₂ hdmax hmax₁
    have hmax₃ := merge_within ha₁ hb₁ h₃ hmax₁ hmax₂
    exact ⟨x, y, hx, hy, (hxy.trans (hyz.trans hzc)).joins (hxy.trans (hyz.trans hzd)) (hmax₃ x hx),
      (hyz.trans hzc).joins (hyz.trans hzd) (hmax₂ y hy)⟩
  · have hlevel : Level nameA nameB (a₂, b₁) :=
      ⟨ha₂, hb₁, hknows₃, knows_after_exchange hA.fine hB.fine h₁ h₂ h₃⟩
    obtain ⟨hlevel, hfirst, hsecond⟩ := hlevel.run hrun
    exact ⟨hfirst, hsecond, fun now a' hmerge => (merge_quiet hlevel.first hlevel.second hlevel.knows hmerge).2,
      fun now b' hmerge => (merge_quiet hlevel.second hlevel.first hlevel.known hmerge).2⟩

end Exchange

end Store

end Maistr0.Memory

namespace Maistr0.Memory.Store

def asking : DialogueRecord := { id := "d", participants := ["ada"], turns := [{ speaker := "ada", content := "why", at_ := 1 }] }

def answering : DialogueRecord := { id := "d", participants := ["bob"], turns := [{ speaker := "bob", content := "so", at_ := 2 }] }

def asker : Store := (memory (newInMemoryStore "node-a")).call (.saveDialogue asking ⟨3, by decide⟩)

def answerer : Store := (bolt (openBoltStore "node-b")).call (.saveDialogue answering ⟨4, by decide⟩)

theorem exchange_goes_quiet_asking :
    ∃ c d x y a₁ b₁ a₂, asker.knowledge.dialogues "d" = some c ∧ answerer.knowledge.dialogues "d" = some d ∧
      asker.mergeSnapshotFrom answerer.snapshot "node-b" (fun _ => ⟨5, by decide⟩) = (.ok (), a₁) ∧
      answerer.mergeSnapshotFrom a₁.snapshot "node-a" (fun _ => ⟨6, by decide⟩) = (.ok (), b₁) ∧
      a₁.mergeSnapshotFrom b₁.snapshot "node-b" (fun _ => ⟨7, by decide⟩) = (.ok (), a₂) ∧
      a₂.knowledge.dialogues "d" = some x ∧ b₁.knowledge.dialogues "d" = some y ∧ x.Joins c d ∧ y.Joins c d := by
  obtain ⟨a₁, b₁, a₂, h₁, h₂, h₃, hall, -⟩ := exchange_goes_quiet (A := asker) (B := answerer)
    (.call (.newInMemoryStore "node-a") _ trivial) (.call (.openBoltStore "node-b") _ trivial) "node-a" "node-b"
    (fun _ => ⟨5, by decide⟩) (fun _ => ⟨6, by decide⟩) fun _ => ⟨7, by decide⟩
  obtain ⟨x, y, hx, hy, hxjoin, hyjoin⟩ := hall "d" _ _ rfl rfl
  exact ⟨_, _, x, y, a₁, b₁, a₂, rfl, rfl, h₁, h₂, h₃, hx, hy, hxjoin, hyjoin⟩

end Maistr0.Memory.Store
