import Maistr0.Memory.Visible

/-!
# What a store knows

The knowledge of a store is what can be asked of it: which experiences it holds or has seen, what stands
at each place for a fact, an aggregate or a dialogue, and its watermarks. Merging one record is a step on
knowledge, the same for both stores up to the stamps they give. The stores are shown to take these steps
when they merge a snapshot.
-/

namespace Maistr0.Memory

open Go Function

structure Holdings where
  experiences : List Experience
  known : Finset Experience
  facts : String → Option Fact
  performances : String → Option Performance
  dialogues : String → Option DialogueRecord

structure Knowledge extends Holdings where
  watermarks : String → Nat
  peers : String → String → Nat

def observed (w : String → Nat) (r : Record) (o : String) : Nat :=
  if r.Mergeable ∧ r.origin = o then max (w o) r.sequence else w o

theorem le_observed (w : String → Nat) (r : Record) (o : String) : w o ≤ observed w r o := by
  unfold observed
  split
  · exact le_max_left _ _
  · exact le_rfl

theorem sequence_le_observed {r : Record} (hr : r.Mergeable) (w : String → Nat) :
    r.sequence ≤ observed w r r.origin := by
  unfold observed
  rw [if_pos ⟨hr, rfl⟩]
  exact le_max_right _ _

theorem observed_eq_self {w : String → Nat} {r : Record} (h : r.Mergeable → r.sequence ≤ w r.origin) :
    observed w r = w := by
  funext o
  unfold observed
  split
  · rename_i hr
    exact max_eq_left (hr.2 ▸ h hr.1)
  · rfl

variable [CaseFolding]

/-! ### Merging one record -/

/-- Whether a merge from `source` leaves the stamp of a dialogue alone. A store that stamps dialogues without
a stamp leaves those that have one, and those it could only give the same stamp again because the counter
of the source has come to its end. -/
def StampSettled (restamps : Bool) (source : String) (w : String → Nat) (o : String) (q : Nat) : Prop :=
  restamps = true → ¬ Unstamped o q ∨ (o = source ∧ q = 0 ∧ 2 ^ 64 - 1 ≤ w source)

def Imported (e x : Experience) : Prop :=
  x.createdAt ≠ 0 ∧ (e.createdAt ≠ 0 → experienceFingerprint x = experienceFingerprint e)

def Record.PassedOver : Record → Prop
  | .performance p => p.nodeID = "" ∨ p.model = ""
  | .dialogue d => d.id = ""
  | _ => False

/-- What merging a record from `source` does to everything but the watermarks, which may move. -/
inductive Merged (restamps : Bool) (source : String) : Record → Knowledge → Knowledge → Prop
  | oldExperience {k : Knowledge} {e : Experience} (w : String → Nat) (hold : experienceFingerprint e ∈ k.known) :
      Merged restamps source (.experience e) k { k with watermarks := w }
  | newExperience {k : Knowledge} {e : Experience} (x : Experience) (xs : List Experience) (w : String → Nat)
      (hnew : experienceFingerprint e ∉ k.known) (hx : Imported e x) (hxs : ∀ y ∈ xs, y = x ∨ y ∈ k.experiences) :
      Merged restamps source (.experience e) k
        { k with experiences := xs, known := insert (experienceFingerprint e) k.known, watermarks := w }
  | fact {k : Knowledge} {f : Fact} (now : Instant) (next : Option Fact) (w : String → Nat) (hkey : f.key ≠ "")
      (hrule : FactRule (normalizeFact f now) (k.facts f.slot) next) :
      Merged restamps source (.fact f) k { k with facts := update k.facts f.slot next, watermarks := w }
  | performance {k : Knowledge} {p : Performance} (next : Option Performance) (w : String → Nat)
      (hp : ¬ (p.nodeID = "" ∨ p.model = "")) (hrule : PerformanceRule p (k.performances p.slot) next) :
      Merged restamps source (.performance p) k
        { k with performances := update k.performances p.slot next, watermarks := w }
  | dialogue {k : Knowledge} {d : DialogueRecord} (next : Option DialogueRecord) (w : String → Nat) (hd : d.id ≠ "")
      (hrule : DialogueRule (StampSettled restamps source k.watermarks) (StampSettled restamps source w) d
        (k.dialogues d.id) next) :
      Merged restamps source (.dialogue d) k { k with dialogues := update k.dialogues d.id next, watermarks := w }
  | passedOver {k : Knowledge} {r : Record} (hr : r.PassedOver) : Merged restamps source r k k

/-- Merging the record again would change nothing but watermarks. -/
def Absorbed (restamps : Bool) (source : String) (r : Record) (k : Knowledge) : Prop :=
  match r with
  | .experience e => experienceFingerprint e ∈ k.known
  | .fact f => ∀ now, Lib.Outranked Fact.label factRank (normalizeFact f now) (k.facts f.slot)
  | .performance p =>
    (p.nodeID = "" ∨ p.model = "") ∨ Lib.Outranked Performance.aggregate Prod.fst p (k.performances p.slot)
  | .dialogue d =>
    d.id = "" ∨ Included (StampSettled restamps source k.watermarks) d (k.dialogues d.id)

/-- What merging a record does. If it changes nothing, it assigns no sequence; and a store that stamps
dialogues without a stamp never lowers a watermark. -/
structure MergeStep (restamps : Bool) (source : String) (r : Record) (k k' : Knowledge) : Prop where
  merged : Merged restamps source r k k'
  quiet : Absorbed restamps source r k → k'.watermarks = observed k.watermarks r
  rising : restamps = true → ∀ o, observed k.watermarks r o ≤ k'.watermarks o

def Record.Dated : Record → Prop
  | .fact f => f.key ≠ "" ∧ (f.updatedAt ≠ 0 ∨ f.createdAt ≠ 0)
  | _ => True

section Absorbing

variable {restamps : Bool} {source : String} {r c : Record} {k k' : Knowledge}

omit [CaseFolding] in
theorem StampSettled.mono {w w' : String → Nat} (h : restamps = true → ∀ o, w o ≤ w' o) {o : String} {q : Nat}
    (hs : StampSettled restamps source w o q) : StampSettled restamps source w' o q := by
  intro hrestamps
  refine (hs hrestamps).imp_right ?_
  rintro ⟨ho, hq, hend⟩
  exact ⟨ho, hq, hend.trans (h hrestamps source)⟩

theorem Merged.absorbed (h : Merged restamps source r k k') (hdated : r.Dated) : Absorbed restamps source r k' := by
  cases h with
  | oldExperience _ hold => exact hold
  | newExperience => exact Finset.mem_insert_self _ _
  | fact now _ _ _ hrule =>
    intro now'
    simp only [normalizeFact_eq hdated.2 now' now, update_self]
    exact hrule.ranked.outranked
  | performance _ _ _ hrule =>
    refine .inr ?_
    simp only [update_self]
    exact hrule.ranked.outranked
  | dialogue _ _ _ hrule =>
    refine .inr ?_
    simp only [update_self]
    exact hrule.included
  | passedOver hr =>
    cases r with
    | experience | fact => exact hr.elim
    | performance | dialogue => exact .inl hr

theorem MergeStep.keeps (h : MergeStep restamps source r k k') (hc : Absorbed restamps source c k) :
    Absorbed restamps source c k' := by
  have hsettled : ∀ {o q}, StampSettled restamps source k.watermarks o q →
      StampSettled restamps source k'.watermarks o q :=
    fun hs => hs.mono fun hrestamps o => (le_observed _ r o).trans (h.rising hrestamps o)
  have hdialogue : ∀ {d : DialogueRecord} {current : Option DialogueRecord},
      Included (StampSettled restamps source k.watermarks) d current →
        Included (StampSettled restamps source k'.watermarks) d current :=
    fun ⟨x, hx, hin, hs⟩ => ⟨x, hx, hin, hsettled hs⟩
  have hmerged := h.merged
  cases c with
  | experience =>
    cases hmerged with
    | newExperience => exact Finset.mem_insert_of_mem hc
    | _ => exact hc
  | fact f =>
    cases hmerged with
    | fact now next w hkey hrule =>
      intro now'
      simp only [update_apply]
      split
      · rename_i heq
        exact Lib.Outranked.keeps hrule.ranked (heq ▸ hc now')
      · exact hc now'
    | _ => exact hc
  | performance p =>
    refine hc.imp_right fun hc => ?_
    cases hmerged with
    | performance next w hp hrule =>
      simp only [update_apply]
      split
      · rename_i heq
        exact Lib.Outranked.keeps hrule.ranked (heq ▸ hc)
      · exact hc
    | _ => exact hc
  | dialogue d =>
    refine hc.imp_right fun hc => ?_
    cases hmerged with
    | dialogue next w hd hrule =>
      simp only [update_apply]
      split
      · rename_i heq
        exact Included.keeps hrule (heq ▸ hc)
      · exact hdialogue hc
    | _ => exact hdialogue hc

theorem Merged.still (h : Merged restamps source r k k') (hr : Absorbed restamps source r k) :
    k'.toHoldings = k.toHoldings := by
  cases h with
  | oldExperience => rfl
  | newExperience _ _ _ hnew => exact absurd hr hnew
  | fact now _ _ _ hrule => simp only [Lib.Outranked.still hrule.ranked (hr now), update_eq_self]
  | performance _ _ hp hrule =>
    simp only [Lib.Outranked.still hrule.ranked (hr.resolve_left hp), update_eq_self]
  | dialogue _ _ hd hrule => simp only [Included.still hrule (hr.resolve_left hd), update_eq_self]
  | passedOver => rfl

theorem Merged.peers_eq (h : Merged restamps source r k k') : k'.peers = k.peers := by
  cases h <;> rfl

variable (restamps source) in
theorem absorbing_holdings :
    Lib.Absorbing (fun r k k' => r.Dated ∧ MergeStep restamps source r k k') (Absorbed restamps source)
      Knowledge.toHoldings where
  absorbs h := h.2.merged.absorbed h.1
  keeps h hc := h.2.keeps hc
  still h hs := h.2.merged.still hs

def Covered (r : Record) (k : Knowledge) : Prop := r.Mergeable → r.sequence ≤ k.watermarks r.origin

theorem MergeStep.stays (h : MergeStep restamps source r k k') (hr : Absorbed restamps source r k) (hcovered : Covered r k) :
    k' = k := by
  have hholdings := h.merged.still hr
  have hpeers := h.merged.peers_eq
  have hwatermarks := h.quiet hr
  rw [observed_eq_self hcovered] at hwatermarks
  cases k
  cases k'
  simp only at hholdings hwatermarks hpeers
  rw [hholdings, hwatermarks, hpeers]

variable (restamps source) in
theorem absorbing_knowledge : Lib.Absorbing
    (fun r k k' => r.Dated ∧ MergeStep restamps source r k k' ∧ ∀ o, observed k.watermarks r o ≤ k'.watermarks o)
    (fun r k => Absorbed restamps source r k ∧ Covered r k) id where
  absorbs := by
    rintro r k k' ⟨hdated, hstep, hrising⟩
    exact ⟨hstep.merged.absorbed hdated, fun hr => (sequence_le_observed hr _).trans (hrising _)⟩
  keeps := by
    rintro r _ k k' ⟨-, hstep, hrising⟩ ⟨habsorbed, hcovered⟩
    exact ⟨hstep.keeps habsorbed, fun hc => (hcovered hc).trans ((le_observed _ r _).trans (hrising _))⟩
  still := by
    rintro _ _ _ ⟨-, hstep, -⟩ ⟨habsorbed, hcovered⟩
    exact hstep.stays habsorbed hcovered

end Absorbing

end Maistr0.Memory
