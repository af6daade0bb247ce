import Mathlib

/-!
# One place, many candidates

A place holds one value. Candidates arrive one after the other, and each takes the place if it beats the
value that is there. `beats` is any relation that no value has to itself. `outcome_perm_iff` says when the
order of arrival does not matter: some value is beaten by no candidate, and it is there from the start or
beats every value that may be there before it arrives.
-/

namespace Maistr0.Lib.Arrival

open List

variable {α : Type} (beats : α → α → Bool)

def arrive (x v : α) : α := if beats x v then v else x

def outcome (c : α) (l : List α) : α := l.foldl (arrive beats) c

def Before (c : α) (l : List α) (w x : α) : Prop :=
  Relation.ReflTransGen (fun x y => y ∈ l ∧ y ≠ w ∧ beats x y = true) c x

/-- `w` is beaten by no candidate, and it is there from the start or beats whatever it may find. -/
def Settles (c : α) (l : List α) (w : α) : Prop :=
  (w = c ∨ w ∈ l ∧ ∀ x, Before beats c l w x → beats x w = true) ∧ ∀ v ∈ l, beats w v = false

variable {beats} {c w x y : α} {l l' p : List α}

theorem outcome_append (c : α) (l l' : List α) : outcome beats c (l ++ l') = outcome beats (outcome beats c l) l' :=
  foldl_append

theorem arrive_eq_or (beats : α → α → Bool) (x v : α) : arrive beats x v = x ∨ arrive beats x v = v := by
  unfold arrive
  split
  · exact .inr rfl
  · exact .inl rfl

theorem outcome_mem (beats : α → α → Bool) (c : α) (l : List α) : outcome beats c l = c ∨ outcome beats c l ∈ l := by
  induction l generalizing c with
  | nil => exact .inl rfl
  | cons v l ih =>
    change outcome beats (arrive beats c v) l = c ∨ outcome beats (arrive beats c v) l ∈ v :: l
    rcases ih (arrive beats c v) with heq | hmem
    · rw [heq]
      rcases arrive_eq_or beats c v with h | h
      · exact .inl h
      · exact .inr (by rw [h]; exact mem_cons_self)
    · exact .inr (mem_cons_of_mem _ hmem)

theorem outcome_of_unbeaten (h : ∀ v ∈ l, beats x v = false) : outcome beats x l = x := by
  induction l with
  | nil => rfl
  | cons v l ih =>
    have hstay : arrive beats x v = x := by simp [arrive, h v mem_cons_self]
    change outcome beats (arrive beats x v) l = x
    rw [hstay]
    exact ih (forall_mem_cons.mp h).2

theorem outcome_of_before (hbefore : Before beats c l w x) (hwins : ∀ x, Before beats c l w x → beats x w = true)
    (hunbeaten : ∀ v ∈ l, beats w v = false) (hsub : ∀ v ∈ l', v ∈ l) (hw : w ∈ l') : outcome beats x l' = w := by
  induction l' generalizing x with
  | nil => cases hw
  | cons v rest ih =>
    change outcome beats (arrive beats x v) rest = w
    by_cases hv : v = w
    · have harrive : arrive beats x v = w := by simp [arrive, hv, hwins x hbefore]
      rw [harrive]
      exact outcome_of_unbeaten fun u hu => hunbeaten u (hsub u (mem_cons_of_mem _ hu))
    have hrest : w ∈ rest := (mem_cons.mp hw).resolve_left fun h => hv h.symm
    refine ih ?_ (forall_mem_cons.mp hsub).2 hrest
    unfold arrive
    split
    · exact hbefore.tail ⟨hsub v mem_cons_self, hv, ‹_›⟩
    · exact hbefore

theorem Settles.outcome_eq (h : Settles beats c l w) (hperm : l'.Perm l) : outcome beats c l' = w := by
  obtain ⟨hwins, hunbeaten⟩ := h
  rcases hwins with rfl | ⟨hw, hwins⟩
  · exact outcome_of_unbeaten fun v hv => hunbeaten v (hperm.mem_iff.mp hv)
  · exact outcome_of_before .refl hwins hunbeaten (fun v hv => hperm.mem_iff.mp hv) (hperm.mem_iff.mpr hw)

theorem settles_of_beats_all (hw : w ∈ l) (hc : w ≠ c) (hwins : ∀ x ∈ c :: l, x ≠ w → beats x w = true)
    (hunbeaten : ∀ v ∈ l, beats w v = false) : Settles beats c l w := by
  refine ⟨.inr ⟨hw, fun x hbefore => ?_⟩, hunbeaten⟩
  induction hbefore with
  | refl => exact hwins c mem_cons_self hc.symm
  | tail _ hstep => exact hwins _ (mem_cons_of_mem _ hstep.1) hstep.2.1

/-! ### The order that brings out a given value -/

inductive Leads (beats : α → α → Bool) (c : α) : List α → α → Prop
  | nil : Leads beats c [] c
  | snoc {p : List α} {x y : α} (h : Leads beats c p x) (hbeats : beats x y = true) : Leads beats c (p ++ [y]) y

theorem Leads.outcome_eq (h : Leads beats c p x) : outcome beats c p = x := by
  induction h with
  | nil => rfl
  | snoc _ hbeats ih =>
    rw [outcome_append, ih]
    exact if_pos hbeats

theorem Leads.mem_of_ne (h : Leads beats c p x) (hx : x ≠ c) : x ∈ p := by
  cases h with
  | nil => exact absurd rfl hx
  | snoc => exact mem_append_right _ mem_cons_self

theorem Leads.to_mem (h : Leads beats c p x) (hy : y ∈ p) : ∃ q, Leads beats c q y ∧ q <+: p := by
  induction h with
  | nil => cases hy
  | @snoc p x z h hbeats ih =>
    rcases mem_append.mp hy with hmem | hmem
    · obtain ⟨q, hq, hpre⟩ := ih hmem
      exact ⟨q, hq, hpre.trans (prefix_append p [z])⟩
    · obtain rfl := mem_singleton.mp hmem
      exact ⟨p ++ [y], .snoc h hbeats, prefix_rfl⟩

/-- What may be there before `w` is left by candidates that are all different. -/
theorem Before.leads (h : Before beats c l w x) : ∃ p, Leads beats c p x ∧ p.Nodup ∧ ∀ y ∈ p, y ∈ l ∧ y ≠ w := by
  induction h with
  | refl => exact ⟨[], .nil, nodup_nil, by simp⟩
  | @tail x y _ hstep ih =>
    obtain ⟨p, hp, hnodup, hmem⟩ := ih
    by_cases hy : y ∈ p
    · obtain ⟨q, hq, hpre⟩ := hp.to_mem hy
      exact ⟨q, hq, hnodup.sublist hpre.sublist, fun z hz => hmem z (hpre.subset hz)⟩
    refine ⟨p ++ [y], .snoc hp hstep.2.2, ?_, fun z hz => ?_⟩
    · rw [nodup_append]
      refine ⟨hnodup, nodup_singleton y, fun a ha b hb heq => ?_⟩
      obtain rfl := mem_singleton.mp hb
      exact hy (heq ▸ ha)
    · rcases mem_append.mp hz with hz | hz
      · exact hmem z hz
      · obtain rfl := mem_singleton.mp hz
        exact ⟨hstep.1, hstep.2.1⟩

theorem unbeaten_of_outcome [DecidableEq α] (hirrefl : ∀ x, beats x x = false)
    (h : ∀ l', l'.Perm l → outcome beats c l' = w) : ∀ v ∈ l, beats w v = false := by
  intro v hv
  -- `v` comes last
  have hlast := h (l.erase v ++ [v]) (perm_append_comm.trans (perm_cons_erase hv).symm)
  rw [outcome_append] at hlast
  change arrive beats (outcome beats c (l.erase v)) v = w at hlast
  unfold arrive at hlast
  split at hlast
  · rw [← hlast]
    exact hirrefl v
  rename_i hloses
  rw [hlast] at hloses
  exact Bool.eq_false_of_not_eq_true hloses

theorem beats_of_outcome [DecidableEq α] (h : ∀ l', l'.Perm l → outcome beats c l' = w) (hc : w ≠ c)
    (hbefore : Before beats c l w x) : beats x w = true := by
  obtain ⟨p, hp, hnodup, hmem⟩ := hbefore.leads
  obtain ⟨_, hq, hsub⟩ := hnodup.subperm fun y hy => (hmem y hy).1
  obtain ⟨r, hr⟩ := hsub.exists_perm_append
  -- first what leads to `x`, then every `w`, then the rest
  have hsplit := filter_append_perm (fun y => y = w) r
  have horder := h (p ++ (r.filter (fun y => y = w) ++ r.filter fun y => !decide (y = w)))
    ((hsplit.append_left p).trans ((hq.append_right r).symm.trans hr.symm))
  rw [outcome_append, outcome_append, hp.outcome_eq] at horder
  by_contra hloses
  have hstay : outcome beats x (r.filter fun y => y = w) = x := by
    apply outcome_of_unbeaten
    intro v hv
    rw [mem_filter, decide_eq_true_eq] at hv
    rw [hv.2]
    exact Bool.eq_false_of_not_eq_true hloses
  rw [hstay] at horder
  rcases outcome_mem beats x (r.filter fun y => !decide (y = w)) with heq | hrest
  · have hx : x ∈ p := hp.mem_of_ne fun hxc => hc (horder.symm.trans (heq.trans hxc))
    exact (hmem x hx).2 (heq.symm.trans horder)
  · rw [horder, mem_filter] at hrest
    simp at hrest

theorem settles_of_outcome [DecidableEq α] (hirrefl : ∀ x, beats x x = false)
    (h : ∀ l', l'.Perm l → outcome beats c l' = w) : Settles beats c l w := by
  refine ⟨?_, unbeaten_of_outcome hirrefl h⟩
  by_cases hc : w = c
  · exact .inl hc
  have houtcome := outcome_mem beats c l
  rw [h l (.refl l)] at houtcome
  exact .inr ⟨houtcome.resolve_left hc, fun x hbefore => beats_of_outcome h hc hbefore⟩

/-- The order of arrival does not matter if and only if one value settles it. -/
theorem outcome_perm_iff [DecidableEq α] (hirrefl : ∀ x, beats x x = false) :
    (∀ l₁ l₂, l₁.Perm l → l₂.Perm l → outcome beats c l₁ = outcome beats c l₂) ↔ ∃ w, Settles beats c l w := by
  constructor
  · intro h
    exact ⟨outcome beats c l, settles_of_outcome hirrefl fun l' hl' => h l' l hl' (.refl l)⟩
  · rintro ⟨_, hw⟩ _ _ hl₁ hl₂
    rw [hw.outcome_eq hl₁, hw.outcome_eq hl₂]

end Maistr0.Lib.Arrival
