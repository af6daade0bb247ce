import Maistr0.Lib.Keyed

/-!
# Version clocks

A clock is a finite map from origins to counters, where an absent origin counts as `0`. Clocks are
only ever read pointwise, so what the operations do is said once through `get`.
-/

namespace Maistr0.Lib

variable {Ω : Type}

abbrev Clock (Ω : Type) := Keyed (Prod.fst : Ω × Nat → Ω)

namespace Clock

variable [DecidableEq Ω] {w : Clock Ω}

def get (w : Clock Ω) (o : Ω) : Nat := ((w.get? o).map Prod.snd).getD 0

def set (w : Clock Ω) (o : Ω) (n : Nat) : Clock Ω := w.put (o, n)

def raise (w : Clock Ω) (o : Ω) (n : Nat) : Clock Ω := if w.get o < n then set w o n else w

def join (w v : Clock Ω) : Clock Ω := v.vals.foldl (fun acc p => raise acc p.1 p.2) w

def anyAhead (w v : Clock Ω) : Bool := v.vals.any fun p => get w p.1 < p.2

@[simp] theorem get_set (w : Clock Ω) (o : Ω) (n : Nat) (o' : Ω) :
    get (set w o n) o' = if o = o' then n else get w o' := by
  unfold get set
  rw [Keyed.get?_put]
  split <;> rfl

@[simp] theorem get_raise (w : Clock Ω) (o : Ω) (n : Nat) (o' : Ω) :
    get (raise w o n) o' = if o = o' then max (get w o') n else get w o' := by
  unfold raise
  split
  · rename_i hlt
    rw [get_set]
    split
    · subst o'
      exact (max_eq_right hlt.le).symm
    · rfl
  · rename_i hle
    split
    · subst o'
      exact (max_eq_left (Nat.le_of_not_lt hle)).symm
    · rfl

theorem get_raise_lt {o o' : Ω} {n k : Nat} : get (raise w o n) o' < k ↔ get w o' < k ∧ (o = o' → n < k) := by
  rw [get_raise]
  split
  · simp only [*, Nat.max_lt, forall_const]
  · simp only [*, false_implies, and_true]

theorem raise_raise (w : Clock Ω) (o : Ω) (n : Nat) : raise (raise w o n) o n = raise w o n := by
  have hle : ¬ get (raise w o n) o < n := by
    rw [get_raise, if_pos rfl]
    exact not_lt.mpr (le_max_right _ _)
  exact if_neg hle

theorem get_of_mem {p : Ω × Nat} (h : p ∈ w.vals) : get w p.1 = p.2 := by
  have hget : w.get? p.1 = some p := Keyed.get?_eq_some.mpr ⟨h, rfl⟩
  unfold get
  rw [hget]
  rfl

theorem mem_of_get_ne_zero {o : Ω} (h : get w o ≠ 0) : (o, get w o) ∈ w.vals := by
  unfold get at h ⊢
  cases hget : w.get? o with
  | none => simp [hget] at h
  | some =>
    obtain ⟨hmem, rfl⟩ := Keyed.get?_eq_some.mp hget
    exact hmem

theorem get_foldl_raise_lt {l : List (Ω × Nat)} {o : Ω} {k : Nat} :
    get (l.foldl (fun acc p => raise acc p.1 p.2) w) o < k ↔ get w o < k ∧ ∀ p ∈ l, p.1 = o → p.2 < k := by
  induction l generalizing w with
  | nil => simp
  | cons _ _ ih => rw [List.foldl_cons, ih, get_raise_lt, List.forall_mem_cons, and_assoc]

@[simp] theorem get_join (w v : Clock Ω) (o : Ω) : get (join w v) o = max (get w o) (get v o) := by
  refine eq_of_forall_gt_iff fun k => ?_
  rw [join, get_foldl_raise_lt, Nat.max_lt]
  refine and_congr_right fun hw => ⟨fun h => ?_, ?_⟩
  · by_cases hzero : get v o = 0
    · rw [hzero]
      exact Nat.zero_lt_of_lt hw
    · exact h _ (mem_of_get_ne_zero hzero) rfl
  · rintro h p hp rfl
    rwa [← get_of_mem hp]

theorem get_filter (w : Clock Ω) (p : Ω × Nat → Bool) (o : Ω) :
    get (w.filter p) o = if p (o, get w o) then get w o else 0 := by
  by_cases hzero : get (w.filter p) o = 0
  · rw [hzero]
    split
    · rename_i hkeep
      by_contra hne
      have hmem : (o, get w o) ∈ (w.filter p).vals := List.mem_filter.mpr ⟨mem_of_get_ne_zero (Ne.symm hne), hkeep⟩
      exact hne (hzero.symm.trans (get_of_mem hmem))
    · rfl
  · obtain ⟨hmem, hkeep⟩ := List.mem_filter.mp (mem_of_get_ne_zero hzero)
    rw [get_of_mem hmem, if_pos hkeep]

theorem get_filter_le (w : Clock Ω) (p : Ω × Nat → Bool) (o : Ω) : get (w.filter p) o ≤ get w o := by
  rw [get_filter]
  split
  · exact le_rfl
  · exact Nat.zero_le _

end Clock

end Maistr0.Lib
