import Maistr0.Lib.Deliver
import Maistr0.Memory.Records

/-!
# What a merge makes of one record

Facts, performance aggregates and dialogues are filed one to a place, and both stores decide by the same
rule what stands at the place after an incoming version. The rules leave open which stamp a record gets:
that is where the stores differ. Facts and aggregates are ranked, so a place keeps the highest rank it
has seen; dialogues only ever gain turns, participants, a topic and a later time.
-/

namespace Maistr0.Memory

open Go List

/-! ### Facts -/

def Fact.slot (f : Fact) : String := factKey (defaultScope f.scope) f.key

def Fact.label (f : Fact) : Time × String × String := (f.updatedAt, f.source, f.value)

/-- The later update ranks higher, then the smaller source, then the larger value. -/
def factRank (label : Time × String × String) : Time ×ₗ Stringᵒᵈ ×ₗ String :=
  toLex (label.1, toLex (OrderDual.toDual label.2.1, label.2.2))

/-- What stands at the place of a fact after `f`, which has its scope and times, was merged. -/
def FactRule (f : Fact) (current next : Option Fact) : Prop :=
  if current.any (factLoses f) then next = current
  else ∃ o q, next = some { (current.map (carryFact f)).getD f with origin := o, sequence := q }

variable {f : Fact} {c : DialogueRecord} {current : Option Fact}

theorem factRank_le_iff {c : Fact} : factRank f.label ≤ factRank c.label ↔ f.updatedAt < c.updatedAt ∨
      f.updatedAt = c.updatedAt ∧ (c.source < f.source ∨ f.source = c.source ∧ f.value ≤ c.value) := by
  rw [factRank, factRank, Prod.Lex.toLex_le_toLex, Prod.Lex.toLex_le_toLex]
  exact Iff.rfl

theorem factRank_injective : Function.Injective factRank := by
  rintro ⟨_, _, _⟩ ⟨_, _, _⟩ h
  simpa [factRank] using h

theorem factLoses_iff {c : Fact} : factLoses f c = true ↔ factRank f.label ≤ factRank c.label := by
  rw [factRank_le_iff]
  simp only [factLoses, factWinsTie, Bool.or_eq_true, Bool.and_eq_true, decide_eq_true_eq, Bool.not_eq_true']
  refine or_congr Iff.rfl (and_congr Iff.rfl ?_)
  by_cases hsource : f.source = c.source
  · simp only [hsource, ne_eq, not_true_eq_false, if_false, decide_eq_false_iff_not, not_lt, lt_irrefl, true_and,
      false_or]
  rw [if_pos hsource, decide_eq_false_iff_not, not_lt]
  simp only [hsource, false_and, or_false]
  exact ⟨fun h => lt_of_le_of_ne h (Ne.symm hsource), le_of_lt⟩

theorem any_factLoses_iff : current.any (factLoses f) = true ↔ Lib.Outranked Fact.label factRank f current := by
  cases current with
  | none => exact ⟨fun h => (by cases h), fun ⟨_, hc, _⟩ => (by cases hc)⟩
  | some c =>
    rw [Option.any_some, factLoses_iff]
    exact ⟨fun h => ⟨c, rfl, h⟩, fun ⟨_, hc, hle⟩ => (by cases hc; exact hle)⟩

theorem FactRule.ranked {next : Option Fact} (h : FactRule f current next) :
    Lib.Ranked Fact.label factRank f current next := by
  unfold FactRule at h
  split at h
  · rename_i hloses
    obtain ⟨c, hc, hle⟩ := any_factLoses_iff.mp hloses
    exact .inl ⟨c, hc, hle, h⟩
  rename_i hwins
  obtain ⟨_, _, rfl⟩ := h
  refine .inr ⟨fun c hc => ?_, _, rfl, ?_⟩
  · rw [any_factLoses_iff] at hwins
    exact not_le.mp fun hle => hwins ⟨c, hc, hle⟩
  · cases current <;> rfl

theorem normalizeFact_eq (hdated : f.updatedAt ≠ 0 ∨ f.createdAt ≠ 0) (now now' : Instant) :
    normalizeFact f now = normalizeFact f now' := by
  unfold normalizeFact
  by_cases hupdated : f.updatedAt = 0
  · have hcreated : f.createdAt ≠ 0 := hdated.resolve_left (not_not.mpr hupdated)
    simp only [if_pos hupdated, if_neg hcreated]
  · simp only [if_neg hupdated]

def Fact.mergeLabel (f : Fact) : Time × String × String :=
  (if f.updatedAt = 0 then f.createdAt else f.updatedAt, f.source, f.value)

theorem mergeLabel_eq (hdated : f.updatedAt ≠ 0) : f.mergeLabel = f.label := by
  unfold Fact.mergeLabel
  rw [if_neg hdated]
  rfl

theorem normalizeFact_label (hdated : f.updatedAt ≠ 0 ∨ f.createdAt ≠ 0) (now : Instant) :
    (normalizeFact f now).label = f.mergeLabel := by
  have hne : (if f.updatedAt = 0 then f.createdAt else f.updatedAt) ≠ 0 := by
    split
    · exact hdated.resolve_left (not_not.mpr ‹_›)
    · assumption
  unfold normalizeFact Fact.label Fact.mergeLabel
  simp only [if_neg hne]

theorem normalizeFact_createdAt (hcreated : f.createdAt ≠ 0) (hle : f.createdAt ≤ f.updatedAt) (now : Instant) :
    (normalizeFact f now).createdAt = f.createdAt := by
  have hle' : f.createdAt ≤ if f.updatedAt = 0 then f.createdAt else f.updatedAt := by
    split
    · exact le_rfl
    · exact hle
  have hlabel := congrArg Prod.fst (normalizeFact_label (.inr hcreated) now)
  change (if f.createdAt = 0 ∨ (normalizeFact f now).label.1 < f.createdAt then _ else f.createdAt) = f.createdAt
  rw [hlabel, if_neg]
  exact not_or.mpr ⟨hcreated, not_lt.mpr hle'⟩

theorem normalizeFact_updatedAt_ne (f : Fact) (now : Instant) : (normalizeFact f now).updatedAt ≠ 0 := by
  unfold normalizeFact
  generalize (if f.updatedAt = 0 then f.createdAt else f.updatedAt) = updatedAt
  change (if updatedAt = 0 then (now : Time) else updatedAt) ≠ 0
  split
  · exact now.2
  · assumption

/-- What stands at the place was there, or is the incoming fact but for its stamp, creation time and hits. -/
theorem FactRule.cases {g : Fact} {next : Option Fact} (h : FactRule f current next) (hg : next = some g) :
    current = some g ∨ g.scope = f.scope ∧ g.key = f.key ∧ g.label = f.label := by
  unfold FactRule at h
  split at h
  · exact .inl (h.symm.trans hg)
  obtain ⟨_, _, rfl⟩ := h
  cases hg
  cases current <;> exact .inr ⟨rfl, rfl, rfl⟩

/-! ### Performance aggregates -/

variable [CaseFolding] in
def Performance.slot (p : Performance) : String :=
  Performance.mapKey { p with taskType := defaultTaskType p.taskType }

def Performance.aggregate (p : Performance) : Int × Int × Int × Int × Rat :=
  (p.attempts, p.successes, p.failures, p.totalDuration, p.ratingSum)

/-- What stands at the place of an aggregate after `p` was merged. -/
def PerformanceRule (p : Performance) (current next : Option Performance) : Prop :=
  if current.any fun c => p.attempts ≤ c.attempts then next = current
  else ∃ o q, next = some { p with taskType := defaultTaskType p.taskType, origin := o, sequence := q }

theorem any_attempts_iff {p : Performance} {current : Option Performance} :
    (current.any fun c => p.attempts ≤ c.attempts) = true ↔ Lib.Outranked Performance.aggregate Prod.fst p current := by
  cases current with
  | none => exact ⟨fun h => (by cases h), fun ⟨_, hc, _⟩ => (by cases hc)⟩
  | some c =>
    rw [Option.any_some, decide_eq_true_eq]
    exact ⟨fun h => ⟨c, rfl, h⟩, fun ⟨_, hc, hle⟩ => (by cases hc; exact hle)⟩

theorem PerformanceRule.ranked {p : Performance} {current next : Option Performance}
    (h : PerformanceRule p current next) : Lib.Ranked Performance.aggregate Prod.fst p current next := by
  unfold PerformanceRule at h
  split at h
  · rename_i hloses
    obtain ⟨c, hc, hle⟩ := any_attempts_iff.mp hloses
    exact .inl ⟨c, hc, hle, h⟩
  · rename_i hwins
    obtain ⟨_, _, rfl⟩ := h
    rw [any_attempts_iff] at hwins
    exact .inr ⟨fun c hc => not_le.mp fun hle => hwins ⟨c, hc, hle⟩, _, rfl, rfl⟩

/-! ### Dialogues -/

structure Appended {α : Type} (found : α → α → Bool) (l xs extra : List α) : Prop where
  incoming : ∀ x ∈ extra, x ∈ xs
  complete : ∀ x ∈ xs, (l ++ extra).any (found · x) = true
  nothing : (∀ x ∈ xs, l.any (found · x) = true) → extra = []

theorem foldl_appendUnless {α : Type} (found : α → α → Bool) (hrefl : ∀ a, found a a = true) (xs l : List α)
    (changed : Bool) :
    ∃ extra, xs.foldl (appendUnless found) (l, changed) = (l ++ extra, changed || !extra.isEmpty) ∧
      Appended found l xs extra := by
  induction xs generalizing l changed with
  | nil => exact ⟨[], by simp, by simp, by simp, fun _ => rfl⟩
  | cons x _ ih =>
    rw [foldl_cons]
    by_cases hfound : l.any (found · x) = true
    · obtain ⟨extra, heq, h⟩ := ih l changed
      refine ⟨extra, ?_, fun y hy => mem_cons_of_mem _ (h.incoming y hy), ?_,
        fun hall => h.nothing (forall_mem_cons.mp hall).2⟩
      · rw [appendUnless, if_pos hfound, heq]
      · rw [forall_mem_cons]
        exact ⟨by rw [any_append, hfound, Bool.true_or], h.complete⟩
    · obtain ⟨extra, heq, h⟩ := ih (l ++ [x]) true
      refine ⟨x :: extra, ?_, ?_, ?_, fun hall => absurd (hall x mem_cons_self) hfound⟩
      · rw [appendUnless, if_neg hfound, heq]
        simp
      · rw [forall_mem_cons]
        exact ⟨mem_cons_self, fun y hy => mem_cons_of_mem _ (h.incoming y hy)⟩
      · rw [append_cons, forall_mem_cons]
        refine ⟨?_, h.complete⟩
        simp [hrefl]

theorem sameTurn_iff {a b : Turn} :
    sameTurn a b = true ↔ (a.at_, a.speaker, a.content) = (b.at_, b.speaker, b.content) := by
  simp [sameTurn, and_assoc]

theorem any_sameTurn_iff {turns : List Turn} {turn : Turn} : turns.any (sameTurn · turn) = true ↔
    (turn.at_, turn.speaker, turn.content) ∈ turns.map fun u => (u.at_, u.speaker, u.content) := by
  simp only [any_eq_true, sameTurn_iff, mem_map]

theorem any_decide_eq_iff {l : List String} {p : String} : l.any (fun a => decide (a = p)) = true ↔ p ∈ l := by
  simp

theorem mergeTranscript_eq (c d : DialogueRecord) : ∃ turns people, Appended sameTurn c.turns d.turns turns ∧
    Appended (fun a b => decide (a = b)) c.participants d.participants people ∧
    (mergeTranscript c d).1 = { c with
        turns := c.turns ++ turns
        participants := c.participants ++ people
        topic := if c.topic = "" then d.topic else c.topic
        updatedAt := max c.updatedAt d.updatedAt } ∧
    ((mergeTranscript c d).2 = false ↔
      turns = [] ∧ people = [] ∧ (c.topic = "" → d.topic = "") ∧ d.updatedAt ≤ c.updatedAt) := by
  obtain ⟨turns, hturns, htold⟩ := foldl_appendUnless sameTurn (fun _ => sameTurn_iff.mpr rfl) d.turns c.turns false
  obtain ⟨people, hpeople, hcame⟩ :=
    foldl_appendUnless (fun a b : String => decide (a = b)) (fun _ => decide_eq_true rfl) d.participants c.participants
      (false || !turns.isEmpty)
  refine ⟨turns, people, htold, hcame, ?_, ?_⟩
  · have hmax : (if c.updatedAt < d.updatedAt then d.updatedAt else c.updatedAt) = max c.updatedAt d.updatedAt := by
      split
      · exact (max_eq_right (le_of_lt (by assumption))).symm
      · exact (max_eq_left (not_lt.mp (by assumption))).symm
    rw [← hmax]
    unfold mergeTranscript
    rw [hturns]
    simp only [hpeople]
  · unfold mergeTranscript
    rw [hturns]
    simp only [hpeople, Bool.or_eq_false_iff, decide_eq_false_iff_not, not_lt]
    by_cases htopic : c.topic = ""
    · simp [htopic, and_assoc, and_comm, and_left_comm]
    · simp [htopic, and_assoc, and_comm]

structure Includes (c d : DialogueRecord) : Prop where
  turns : ∀ turn ∈ d.turns, c.turns.any (sameTurn · turn) = true
  participants : ∀ p ∈ d.participants, p ∈ c.participants
  topic : c.topic = "" → d.topic = ""
  updatedAt : d.updatedAt ≤ c.updatedAt

theorem Includes.refl (c : DialogueRecord) : Includes c c where
  turns turn h := by
    rw [any_sameTurn_iff]
    exact mem_map_of_mem h
  participants _ h := h
  topic h := h
  updatedAt := le_rfl

theorem Includes.trans {d e : DialogueRecord} (h : Includes c d) (h' : Includes d e) : Includes c e where
  turns turn hturn := by
    have hmid := h'.turns turn hturn
    rw [any_sameTurn_iff, mem_map] at hmid
    obtain ⟨u, hu, heq⟩ := hmid
    have htop := h.turns u hu
    rw [any_sameTurn_iff] at htop ⊢
    rw [← heq]
    exact htop
  participants p hp := h.participants p (h'.participants p hp)
  topic htopic := h'.topic (h.topic htopic)
  updatedAt := h'.updatedAt.trans h.updatedAt

theorem Includes.stamped {d : DialogueRecord} (h : Includes c d) (o : String) (q : Nat) :
    Includes { c with origin := o, sequence := q } d :=
  ⟨h.turns, h.participants, h.topic, h.updatedAt⟩

theorem includes_mergeTranscript_left (c d : DialogueRecord) : Includes (mergeTranscript c d).1 c := by
  obtain ⟨_, _, -, -, heq, -⟩ := mergeTranscript_eq c d
  rw [heq]
  refine ⟨fun turn hturn => ?_, fun p hp => mem_append_left _ hp, fun htopic => ?_, le_max_left _ _⟩
  · rw [any_append, (Includes.refl c).turns turn hturn, Bool.true_or]
  · by_contra hne
    exact hne (by rwa [if_neg hne] at htopic)

theorem includes_mergeTranscript_right (c d : DialogueRecord) : Includes (mergeTranscript c d).1 d := by
  obtain ⟨_, _, hturns, hpeople, heq, -⟩ := mergeTranscript_eq c d
  rw [heq]
  refine ⟨hturns.complete, fun p hp => any_decide_eq_iff.mp (hpeople.complete p hp), fun htopic => ?_, le_max_right _ _⟩
  by_cases hempty : c.topic = ""
  · rwa [if_pos hempty] at htopic
  · exact absurd (by rwa [if_neg hempty] at htopic) hempty

theorem Includes.merged {u d : DialogueRecord} (hc : Includes u c) (hd : Includes u d) :
    Includes u (mergeTranscript c d).1 := by
  obtain ⟨_, _, hturns, hpeople, heq, -⟩ := mergeTranscript_eq c d
  rw [heq]
  refine ⟨fun turn hturn => ?_, fun p hp => ?_, fun htopic => ?_, max_le hc.updatedAt hd.updatedAt⟩
  · rcases mem_append.mp hturn with hold | hnew
    · exact hc.turns turn hold
    · exact hd.turns turn (hturns.incoming turn hnew)
  · rcases mem_append.mp hp with hold | hnew
    · exact hc.participants p hold
    · exact hd.participants p (hpeople.incoming p hnew)
  · simp only [hc.topic htopic, hd.topic htopic, if_true]

theorem mergeTranscript_unchanged {d : DialogueRecord} (h : (mergeTranscript c d).2 = false) :
    (mergeTranscript c d).1 = c := by
  obtain ⟨_, _, -, -, heq, hchanged⟩ := mergeTranscript_eq c d
  obtain ⟨rfl, rfl, htopic, hle⟩ := hchanged.mp h
  rw [heq, append_nil, append_nil, max_eq_left hle]
  by_cases hempty : c.topic = ""
  · rw [if_pos hempty, htopic hempty, ← hempty]
  · rw [if_neg hempty]

theorem mergeTranscript_unchanged_iff {d : DialogueRecord} : (mergeTranscript c d).2 = false ↔ Includes c d := by
  constructor
  · intro h
    have hright := includes_mergeTranscript_right c d
    rwa [mergeTranscript_unchanged h] at hright
  · intro h
    obtain ⟨_, _, hturns, hpeople, -, hchanged⟩ := mergeTranscript_eq c d
    refine hchanged.mpr ⟨hturns.nothing h.turns, hpeople.nothing fun p hp => ?_, h.topic, h.updatedAt⟩
    exact any_decide_eq_iff.mpr (h.participants p hp)

/-- What stands at the place of a dialogue after `d` was merged. A dialogue that gains something gets a new
stamp; one that does not may get one if its stamp is not settled. A stamp given is settled. -/
inductive DialogueRule (settled settled' : String → Nat → Prop) (d : DialogueRecord) :
    Option DialogueRecord → Option DialogueRecord → Prop
  | filed (o : String) (q : Nat) (hstamp : settled' o q) :
      DialogueRule settled settled' d none (some { d with origin := o, sequence := q })
  | changed {c : DialogueRecord} (o : String) (q : Nat) (hnew : ¬ Includes c d) (hstamp : settled' o q) :
      DialogueRule settled settled' d (some c) (some { (mergeTranscript c d).1 with origin := o, sequence := q })
  | kept {c : DialogueRecord} (hold : Includes c d) (hstamp : settled' c.origin c.sequence) :
      DialogueRule settled settled' d (some c) (some c)
  | restamped {c : DialogueRecord} (o : String) (q : Nat) (hold : Includes c d)
      (hunsettled : ¬ settled c.origin c.sequence) (hstamp : settled' o q) :
      DialogueRule settled settled' d (some c) (some { c with origin := o, sequence := q })

/-- The place holds a dialogue that `d` adds nothing to, under a settled stamp. -/
def Included (settled : String → Nat → Prop) (d : DialogueRecord) (current : Option DialogueRecord) : Prop :=
  ∃ c, current = some c ∧ Includes c d ∧ settled c.origin c.sequence

section DialogueRule

variable {settled settled' : String → Nat → Prop} {d e : DialogueRecord} {current next : Option DialogueRecord}

section

variable (h : DialogueRule settled settled' d current next)

include h

theorem DialogueRule.included : Included settled' d next := by
  cases h with
  | filed o q hstamp => exact ⟨_, rfl, (Includes.refl d).stamped o q, hstamp⟩
  | changed o q _ hstamp => exact ⟨_, rfl, (includes_mergeTranscript_right _ d).stamped o q, hstamp⟩
  | kept hold hstamp => exact ⟨_, rfl, hold, hstamp⟩
  | restamped o q hold _ hstamp => exact ⟨_, rfl, hold.stamped o q, hstamp⟩

theorem DialogueRule.grows {c : DialogueRecord} (hc : current = some c) : ∃ x, next = some x ∧ Includes x c := by
  cases h with
  | filed => cases hc
  | changed o q =>
    cases hc
    exact ⟨_, rfl, (includes_mergeTranscript_left c d).stamped o q⟩
  | kept => exact ⟨c, hc, .refl c⟩
  | restamped o q =>
    cases hc
    exact ⟨_, rfl, (Includes.refl c).stamped o q⟩

theorem DialogueRule.within {u : DialogueRecord} (hcurrent : ∀ c, current = some c → Includes u c)
    (hd : Includes u d) : ∀ c, next = some c → Includes u c := by
  rintro x hx
  cases h with
  | filed =>
    cases hx
    exact ⟨hd.turns, hd.participants, hd.topic, hd.updatedAt⟩
  | @changed c o q _ _ =>
    cases hx
    have hmerged := (hcurrent c rfl).merged hd
    exact ⟨hmerged.turns, hmerged.participants, hmerged.topic, hmerged.updatedAt⟩
  | kept => exact hcurrent x hx
  | @restamped c o q _ _ _ =>
    cases hx
    have hold := hcurrent c rfl
    exact ⟨hold.turns, hold.participants, hold.topic, hold.updatedAt⟩

theorem Included.keeps (he : Included settled e current) : Included settled' e next := by
  obtain ⟨c, rfl, hin, -⟩ := he
  cases h with
  | changed o q _ hstamp => exact ⟨_, rfl, ((includes_mergeTranscript_left c d).trans hin).stamped o q, hstamp⟩
  | kept _ hstamp => exact ⟨c, rfl, hin, hstamp⟩
  | restamped o q _ _ hstamp => exact ⟨_, rfl, hin.stamped o q, hstamp⟩

theorem Included.still (hd : Included settled d current) : next = current := by
  obtain ⟨_, rfl, hin, hset⟩ := hd
  cases h with
  | changed _ _ hnew => exact absurd hin hnew
  | kept => rfl
  | restamped _ _ _ hunsettled => exact absurd hset hunsettled

end

end DialogueRule

end Maistr0.Memory
