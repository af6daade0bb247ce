import Mathlib

/-!
# Batches applied in stages

A batch of numbered items is applied stage by stage, and a reader may look at the state between any
two stages. The state keeps a counter for each origin that a stage raises to the largest number it
applies. A reader that finds a counter at `n` takes every item up to `n` as applied, so an item that
is still waiting must be numbered above the counter, unless it was accounted for beforehand.

`safe_iff` says when this holds at every point a reader can see: exactly when no stage applies an
item of an origin that is numbered at or above one left for a later stage.
-/

namespace Maistr0.Lib.Stages

open List

variable {σ γ ρ Ω ε : Type}

def visible (run : σ → γ → Except ε Unit × σ) (s : σ) : List γ → List (σ × List γ)
  | [] => [(s, [])]
  | g :: rest =>
    (s, g :: rest) :: match run s g with
      | (.ok _, s') => visible run s' rest
      | (.error _, s') => [(s', g :: rest)]

/-- How the items of a batch are read, and which of them were accounted for before it. -/
structure Numbering (γ ρ Ω : Type) where
  items : γ → List ρ
  origin : ρ → Ω
  number : ρ → Nat
  known : ρ → Prop

variable (N : Numbering γ ρ Ω) (clock : σ → Ω → Nat)

/-- No counter has passed an item that is still waiting. -/
def Safe (point : σ × List γ) : Prop :=
  ∀ r ∈ point.2.flatMap N.items, ¬ N.known r → clock point.1 (N.origin r) < N.number r

/-- A stage applies nothing of an origin numbered at or above what a later stage applies. -/
def InOrder (g h : γ) : Prop :=
  ∀ a ∈ N.items g, ∀ b ∈ N.items h, N.origin a = N.origin b → ¬ N.known b → N.number a < N.number b

variable {N clock} {run : σ → γ → Except ε Unit × σ} {s : σ}

/-- The counters after a stage are the maximum of the counters before it and what it applied. -/
structure Raises (N : Numbering γ ρ Ω) (clock : σ → Ω → Nat) (run : σ → γ → Except ε Unit × σ) (I : σ → Prop)
    (g : γ) : Prop where
  ok : ∀ s, I s → (run s g).1 = .ok ()
  keeps : ∀ s, I s → I (run s g).2
  clock_lt : ∀ s, I s → ∀ b, ¬ N.known b → (clock (run s g).2 (N.origin b) < N.number b ↔
      clock s (N.origin b) < N.number b ∧ ∀ a ∈ N.items g, N.origin a = N.origin b → N.number a < N.number b)

theorem visible_cons_ok {g : γ} {rest : List γ} (hok : (run s g).1 = .ok ()) :
    visible run s (g :: rest) = (s, g :: rest) :: visible run (run s g).2 rest := by
  rw [visible]
  cases hrun : run s g with
  | mk =>
    rw [hrun] at hok
    cases hok
    rfl

theorem head_mem_visible (run : σ → γ → Except ε Unit × σ) (s : σ) (stages : List γ) :
    (s, stages) ∈ visible run s stages := by
  cases stages with
  | nil => exact mem_singleton_self _
  | cons => exact mem_cons_self

theorem suffix_of_mem_visible {stages : List γ} {point : σ × List γ} (h : point ∈ visible run s stages) :
    point.2 <:+ stages := by
  induction stages generalizing s with
  | nil =>
    obtain rfl := mem_singleton.mp h
    exact suffix_refl _
  | cons g rest ih =>
    rw [visible] at h
    rcases mem_cons.mp h with rfl | hmem
    · exact suffix_refl _
    cases hrun : run s g with
    | mk result =>
      rw [hrun] at hmem
      cases result with
      | error =>
        obtain rfl := mem_singleton.mp hmem
        exact suffix_refl _
      | ok => exact (ih hmem).trans (suffix_cons g rest)

/-- What is still waiting after a stage is safe exactly if it was before and the stage is in order. -/
theorem Raises.safe_next {I : σ → Prop} {g : γ} (h : Raises N clock run I g) (hs : I s) {rest : List γ}
    (hsafe : Safe N clock (s, g :: rest)) :
    Safe N clock ((run s g).2, rest) ↔ ∀ later ∈ rest, InOrder N g later := by
  constructor
  · intro hnext later hlater a ha b hb ho hb'
    have hmem : b ∈ rest.flatMap N.items := mem_flatMap.mpr ⟨later, hlater, hb⟩
    exact ((h.clock_lt s hs b hb').mp (hnext b hmem hb')).2 a ha ho
  · intro horder b hb hb'
    obtain ⟨later, hlater, hmem⟩ := mem_flatMap.mp hb
    refine (h.clock_lt s hs b hb').mpr ⟨?_, fun a ha ho => horder later hlater a ha b hmem ho hb'⟩
    refine hsafe b ?_ hb'
    rw [flatMap_cons]
    exact mem_append_right _ hb

/-- The last stage may do what it likes to the counters: nothing is waiting after it. -/
theorem safe_iff {I : σ → Prop} {body : List γ} {last : γ} (hbody : ∀ g ∈ body, Raises N clock run I g)
    (hs : I s) (hlast : ∀ s, I s → (run s last).1 = .ok ()) (hstart : Safe N clock (s, body ++ [last])) :
    (∀ point ∈ visible run s (body ++ [last]), Safe N clock point) ↔ (body ++ [last]).Pairwise (InOrder N) := by
  induction body generalizing s with
  | nil =>
    rw [nil_append, visible_cons_ok (hlast s hs)]
    simp only [visible, mem_cons, not_mem_nil, or_false, forall_eq_or_imp, forall_eq, pairwise_singleton, iff_true]
    refine ⟨hstart, ?_⟩
    intro r hr
    cases hr
  | cons g rest ih =>
    have hg : Raises N clock run I g := hbody g mem_cons_self
    rw [cons_append] at hstart ⊢
    have hnext := hg.safe_next hs hstart
    have hrest : ∀ g ∈ rest, Raises N clock run I g := (forall_mem_cons.mp hbody).2
    rw [visible_cons_ok (hg.ok s hs), pairwise_cons, ← hnext, forall_mem_cons]
    constructor
    · rintro ⟨-, hall⟩
      have hpoint := hall _ (head_mem_visible run _ _)
      exact ⟨hpoint, (ih hrest (hg.keeps s hs) hpoint).mp hall⟩
    · rintro ⟨hpoint, horder⟩
      exact ⟨hstart, (ih hrest (hg.keeps s hs) hpoint).mpr horder⟩

end Maistr0.Lib.Stages
