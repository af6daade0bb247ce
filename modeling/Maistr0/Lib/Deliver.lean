import Mathlib

/-!
# Deliveries

Items are delivered to a state one after the other, and a relation says what one delivery may do. Two
things are said about such runs. A relation is *absorbing* if a delivered item stays delivered and shows
no effect when it comes again; then a whole batch can be replayed. A place is *ranked* if a value takes it
only by ranking above the one that is there; then the place ends with a value of the highest rank.
-/

namespace Maistr0.Lib

open List

variable {β γ σ τ : Type}

inductive Deliver (step : β → σ → σ → Prop) : List β → σ → σ → Prop
  | nil (s : σ) : Deliver step [] s s
  | cons {b : β} {l : List β} {s t u : σ} (h : step b s t) (rest : Deliver step l t u) : Deliver step (b :: l) s u

namespace Deliver

variable {step : β → σ → σ → Prop} {l l' : List β} {s t u : σ}

theorem append (h : Deliver step l s t) (h' : Deliver step l' t u) : Deliver step (l ++ l') s u := by
  induction h with
  | nil => exact h'
  | cons hstep _ ih => exact .cons hstep (ih h')

theorem flatMap (view : σ → τ) (items : β → List γ) {small : γ → τ → τ → Prop} (h : Deliver step l s t)
    (hstep : ∀ b s t, step b s t → Deliver small (items b) (view s) (view t)) :
    Deliver small (l.flatMap items) (view s) (view t) := by
  induction h with
  | nil s => exact .nil (view s)
  | cons hb _ ih =>
    rw [flatMap_cons]
    exact (hstep _ _ _ hb).append ih

theorem map (view : σ → τ) {small : β → τ → τ → Prop} (h : Deliver step l s t)
    (hstep : ∀ b s t, step b s t → small b (view s) (view t)) : Deliver small l (view s) (view t) := by
  induction h with
  | nil s => exact .nil (view s)
  | cons hb _ ih => exact .cons (hstep _ _ _ hb) ih

/-- Each delivery does more than was said, from states where `I` holds. -/
theorem strengthen {I : σ → Prop} {step' : β → σ → σ → Prop}
    (hstep : ∀ b ∈ l, ∀ s t, I s → step b s t → step' b s t ∧ I t) (h : Deliver step l s t) (hs : I s) :
    Deliver step' l s t ∧ I t := by
  induction h with
  | nil s => exact ⟨.nil s, hs⟩
  | @cons b l s t u hb _ ih =>
    obtain ⟨hb', ht⟩ := hstep b mem_cons_self s t hs hb
    obtain ⟨hrest, hu⟩ := ih (forall_mem_cons.mp hstep).2 ht
    exact ⟨.cons hb' hrest, hu⟩

theorem with_items {P : β → Prop} (hP : ∀ b ∈ l, P b) (h : Deliver step l s t) :
    Deliver (fun b s t => P b ∧ step b s t) l s t :=
  (h.strengthen (I := fun _ => True) (fun b hb _ _ _ hst => ⟨⟨hP b hb, hst⟩, trivial⟩) trivial).1

theorem invariant {I : σ → Prop} (hstep : ∀ b ∈ l, ∀ s t, I s → step b s t → I t) (h : Deliver step l s t) (hs : I s) :
    I t :=
  (h.strengthen (fun b hb s t hI hst => ⟨hst, hstep b hb s t hI hst⟩) hs).2

theorem stays (hstep : ∀ b ∈ l, ∀ t, step b s t → t = s) (h : Deliver step l s t) : t = s :=
  h.invariant (I := fun t => t = s) (fun b hb _ u hs hst => hstep b hb u (hs ▸ hst)) rfl

end Deliver

/-! ### Replays -/

/-- A delivered item stays delivered, and delivering it again shows no effect. -/
structure Absorbing (step : β → σ → σ → Prop) (absorbed : β → σ → Prop) (view : σ → τ) : Prop where
  absorbs : ∀ {b s t}, step b s t → absorbed b t
  keeps : ∀ {b c s t}, step b s t → absorbed c s → absorbed c t
  still : ∀ {b s t}, step b s t → absorbed b s → view t = view s

namespace Absorbing

variable {step : β → σ → σ → Prop} {absorbed : β → σ → Prop} {view : σ → τ} {l : List β} {s t u : σ}

section

variable (h : Absorbing step absorbed view)

include h

theorem keeps_run (hrun : Deliver step l s t) {c : β} (hc : absorbed c s) : absorbed c t :=
  hrun.invariant (fun _ _ _ _ hs hst => h.keeps hst hs) hc

theorem absorbs_run (hrun : Deliver step l s t) : ∀ b ∈ l, absorbed b t := by
  induction hrun with
  | nil => intro b hb; cases hb
  | cons hb hrest ih =>
    intro c hc
    rcases mem_cons.mp hc with rfl | hc
    · exact h.keeps_run hrest (h.absorbs hb)
    · exact ih c hc

theorem still_run (hrun : Deliver step l s t) (hs : ∀ b ∈ l, absorbed b s) : view t = view s := by
  induction hrun with
  | nil => rfl
  | cons hb _ ih =>
    exact (ih fun c hc => h.keeps hb (hs c (mem_cons_of_mem _ hc))).trans (h.still hb (hs _ mem_cons_self))

end

end Absorbing

/-! ### Ranked places -/

section Ranked

variable {V L R : Type} [LinearOrder R] (label : V → L) (rank : L → R)

/-- A value takes the place if it ranks above the one that is there; what stands there then bears its label. -/
def Ranked (v : V) (current next : Option V) : Prop :=
  (∃ c, current = some c ∧ rank (label v) ≤ rank (label c) ∧ next = current) ∨
    ((∀ c, current = some c → rank (label c) < rank (label v)) ∧ ∃ c, next = some c ∧ label c = label v)

def Outranked (v : V) (current : Option V) : Prop := ∃ c, current = some c ∧ rank (label v) ≤ rank (label c)

variable {label rank} {v : V} {l : List V} {current next : Option V}

section

variable (h : Ranked label rank v current next)

include h

theorem Ranked.outranked : Outranked label rank v next := by
  rcases h with ⟨c, hc, hle, rfl⟩ | ⟨-, c, rfl, heq⟩
  · exact ⟨c, hc, hle⟩
  · exact ⟨c, rfl, (congrArg rank heq).ge⟩

theorem Outranked.keeps {u : V} (hu : Outranked label rank u current) : Outranked label rank u next := by
  obtain ⟨c, hc, hle⟩ := hu
  rcases h with ⟨-, -, -, rfl⟩ | ⟨hlt, d, rfl, heq⟩
  · exact ⟨c, hc, hle⟩
  · exact ⟨d, rfl, hle.trans (heq ▸ hlt c hc).le⟩

theorem Outranked.still (hv : Outranked label rank v current) : next = current := by
  obtain ⟨c, hc, hle⟩ := hv
  rcases h with ⟨-, -, -, rfl⟩ | ⟨hlt, -⟩
  · rfl
  · exact absurd (hlt c hc) (not_lt.mpr hle)

end

variable (label rank) in
theorem Ranked.absorbing : Absorbing (Ranked label rank) (Outranked label rank) id where
  absorbs h := h.outranked
  keeps h hc := hc.keeps h
  still h hs := hs.still h

theorem Ranked.label_of_run (h : Deliver (Ranked label rank) l current next) {c : V} (hc : next = some c) :
    current = some c ∨ ∃ v ∈ l, label c = label v := by
  induction h with
  | nil => exact .inl hc
  | cons hv _ ih =>
    rcases ih hc with rfl | ⟨u, hu, heq⟩
    · rcases hv with ⟨d, hd, -, hsame⟩ | ⟨-, d, hd, heq⟩
      · exact .inl hsame.symm
      · cases hd
        exact .inr ⟨_, mem_cons_self, heq⟩
    · exact .inr ⟨u, mem_cons_of_mem _ hu, heq⟩

theorem Ranked.winner (h : Deliver (Ranked label rank) l none next) (hl : l ≠ []) :
    ∃ c, next = some c ∧ (∃ v ∈ l, label c = label v) ∧ ∀ v ∈ l, rank (label v) ≤ rank (label c) := by
  have hall := (Ranked.absorbing label rank).absorbs_run h
  obtain ⟨v, hv⟩ := exists_mem_of_ne_nil l hl
  obtain ⟨c, rfl, -⟩ := hall v hv
  refine ⟨c, rfl, (Ranked.label_of_run h rfl).resolve_left (by simp), fun u hu => ?_⟩
  obtain ⟨_, hd, hle⟩ := hall u hu
  cases hd
  exact hle

theorem Ranked.stays_highest {c : V} (h : Deliver (Ranked label rank) l (some c) next)
    (hmax : ∀ u ∈ l, rank (label u) ≤ rank (label c)) : next = some c :=
  (Ranked.absorbing label rank).still_run h fun u hu => ⟨c, rfl, hmax u hu⟩

theorem Ranked.first_of_highest (h : Deliver (Ranked label rank) (v :: l) none next)
    (hmax : ∀ u ∈ l, rank (label u) ≤ rank (label v)) : ∃ c, next = some c ∧ label c = label v := by
  cases h with
  | cons hv hrest =>
    rcases hv with ⟨c, hc, -⟩ | ⟨-, c, rfl, heq⟩
    · cases hc
    · exact ⟨c, Ranked.stays_highest hrest (by rwa [heq]), heq⟩

end Ranked

end Maistr0.Lib
