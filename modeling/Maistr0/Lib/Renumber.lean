import Mathlib

/-!
# Numbering while counting up

A list of items is read once. Each item may carry a number found on it and may take new numbers from a
counter, which wraps at `limit`; the counter is raised to every number found on the way. New numbers are
meant to be larger than every number found. `ahead_iff` says when they are: the first item that takes
one has to take it past all numbers still to be found, and the counter must not wrap.
-/

namespace Maistr0.Lib.Renumber

open List

def next (limit n : Nat) : Nat := if n + 1 = limit then 0 else n + 1

structure Item where
  found : Nat
  taken : Nat

def after (limit c : Nat) (x : Item) : Nat := (next limit)^[x.taken] (max c x.found)

def numbers (limit : Nat) : Nat → List Item → List Nat
  | _, [] => []
  | c, x :: xs =>
    if x.taken = 0 then numbers limit (after limit c x) xs
    else after limit c x :: numbers limit (after limit c x) xs

def top (items : List Item) : Nat := (items.map Item.found).foldr max 0

def total (items : List Item) : Nat := (items.map Item.taken).sum

variable {limit c : Nat} {items pre post : List Item} {x : Item}

/-- The first item that takes a number takes it past all numbers found anywhere, with room for the rest. -/
def Ahead (limit : Nat) (items : List Item) : Prop :=
  ∀ (pre : List Item) (x : Item) (post : List Item), items = pre ++ x :: post → (∀ y ∈ pre, y.taken = 0) → 0 < x.taken →
    (∀ y ∈ items, y.found < top (pre ++ [x]) + x.taken) ∧ top (pre ++ [x]) + total items < limit

theorem iterate_next (hc : c < limit) {k : Nat} (hk : k < limit) :
    (next limit)^[k] c = if c + k < limit then c + k else c + k - limit := by
  induction k with
  | zero => simp [hc]
  | succ _ ih =>
    rw [Function.iterate_succ_apply', ih (by omega), next]
    split <;> split <;> split <;> omega

theorem after_of_room (hc : max c x.found + x.taken < limit) : after limit c x = max c x.found + x.taken := by
  rw [after, iterate_next (by omega) (by omega), if_pos hc]

theorem top_found (h : 0 < top items) : ∃ x ∈ items, x.found = top items := by
  induction items with
  | nil => exact absurd h (lt_irrefl 0)
  | cons y ys ih =>
    change 0 < max y.found (top ys) at h
    change ∃ x ∈ y :: ys, x.found = max y.found (top ys)
    by_cases hle : top ys ≤ y.found
    · exact ⟨y, mem_cons_self, (max_eq_left hle).symm⟩
    rw [max_eq_right (by omega)] at h ⊢
    obtain ⟨x, hx, heq⟩ := ih h
    exact ⟨x, mem_cons_of_mem _ hx, heq⟩

theorem top_append_singleton (pre : List Item) (x : Item) : top (pre ++ [x]) = max (top pre) x.found := by
  induction pre with
  | nil => simp [top]
  | cons y ys ih =>
    change max y.found (top (ys ++ [x])) = max (max y.found (top ys)) x.found
    rw [ih, max_assoc]

theorem numbers_append (h : ∀ y ∈ pre, y.taken = 0) (c : Nat) :
    numbers limit c (pre ++ items) = numbers limit (max c (top pre)) items := by
  induction pre generalizing c with
  | nil => simp [top]
  | cons y ys ih =>
    have hy : y.taken = 0 := h y mem_cons_self
    have hafter : after limit c y = max c y.found := by simp [after, hy]
    rw [cons_append, numbers, if_pos hy, hafter, ih (forall_mem_cons.mp h).2]
    change _ = numbers limit (max c (max y.found (top ys))) items
    rw [max_assoc]

theorem numbers_rise (hfound : ∀ y ∈ items, y.found < c) (hroom : c + total items < limit) :
    (numbers limit c items).Pairwise (· < ·) ∧ ∀ n ∈ numbers limit c items, c < n := by
  induction items generalizing c with
  | nil => simp [numbers]
  | cons y ys ih =>
    have hy : max c y.found = c := max_eq_left (hfound y mem_cons_self).le
    have htotal : total (y :: ys) = y.taken + total ys := rfl
    have hafter : after limit c y = c + y.taken := by
      rw [after_of_room (by omega), hy]
    obtain ⟨hpairs, hlt⟩ := ih (c := c + y.taken)
      (fun z hz => (hfound z (mem_cons_of_mem _ hz)).trans_le (Nat.le_add_right _ _)) (by omega)
    rw [numbers, hafter]
    split
    · rename_i hzero
      rw [hzero, Nat.add_zero] at hpairs hlt ⊢
      exact ⟨hpairs, hlt⟩
    refine ⟨pairwise_cons.mpr ⟨hlt, hpairs⟩, fun n hn => ?_⟩
    rcases mem_cons.mp hn with rfl | hmem
    · omega
    · have := hlt n hmem
      omega

/-- Conversely there must have been room: a counter that wraps starts again below `base`. -/
theorem room_of_numbers {base : Nat} (hfound : ∀ y ∈ items, y.found < c) (hc : c < limit) (hbase : base ≤ c)
    (htotal : c - base + total items < limit) (hn : ∀ n ∈ numbers limit c items, base ≤ n) :
    c + total items < limit := by
  induction items generalizing c with
  | nil => simpa [total] using hc
  | cons y ys ih =>
    have hy : max c y.found = c := max_eq_left (hfound y mem_cons_self).le
    have hsum : total (y :: ys) = y.taken + total ys := rfl
    have hafter : after limit c y = if c + y.taken < limit then c + y.taken else c + y.taken - limit := by
      rw [after, hy, iterate_next hc (by omega)]
    have hroom : c + y.taken < limit := by
      by_cases hzero : y.taken = 0
      · omega
      have hle := hn (after limit c y) (by rw [numbers, if_neg hzero]; exact mem_cons_self)
      rw [hafter] at hle
      split at hle
      · assumption
      · omega
    rw [if_pos hroom] at hafter
    have hrest := ih (c := c + y.taken)
      (fun z hz => (hfound z (mem_cons_of_mem _ hz)).trans_le (Nat.le_add_right _ _)) hroom (by omega) (by omega)
      (fun n hmem => hn n (by
        rw [numbers, hafter]
        split
        · exact hmem
        · exact mem_cons_of_mem _ hmem))
    omega

theorem split_taken (items : List Item) : (∀ y ∈ items, y.taken = 0) ∨
    ∃ pre x post, items = pre ++ x :: post ∧ (∀ y ∈ pre, y.taken = 0) ∧ 0 < x.taken := by
  induction items with
  | nil => exact .inl (by simp)
  | cons y ys ih =>
    by_cases hy : y.taken = 0
    · rcases ih with hnone | ⟨pre, x, post, rfl, hpre, hx⟩
      · exact .inl (forall_mem_cons.mpr ⟨hy, hnone⟩)
      · exact .inr ⟨y :: pre, x, post, rfl, forall_mem_cons.mpr ⟨hy, hpre⟩, hx⟩
    · exact .inr ⟨[], y, ys, rfl, by simp, Nat.pos_of_ne_zero hy⟩

theorem total_split (hpre : ∀ y ∈ pre, y.taken = 0) : total (pre ++ x :: post) = x.taken + total post := by
  have hzero : (pre.map Item.taken).sum = 0 := sum_eq_zero (by simpa using hpre)
  simp [total, hzero]

theorem numbers_split (hpre : ∀ y ∈ pre, y.taken = 0) (hx : 0 < x.taken) : numbers limit 0 (pre ++ x :: post) =
    (next limit)^[x.taken] (top (pre ++ [x])) :: numbers limit ((next limit)^[x.taken] (top (pre ++ [x]))) post := by
  rw [numbers_append hpre, numbers, if_neg (by omega), after, top_append_singleton, Nat.zero_max]

theorem Ahead.numbers_spec (h : Ahead limit items) :
    (numbers limit 0 items).Pairwise (· < ·) ∧ ∀ n ∈ numbers limit 0 items, ∀ y ∈ items, y.found < n := by
  rcases split_taken items with hnone | ⟨pre, x, post, rfl, hpre, hx⟩
  · have hnil : numbers limit 0 items = [] := by
      have happend : numbers limit 0 (items ++ []) = numbers limit (max 0 (top items)) [] := numbers_append hnone 0
      rwa [append_nil] at happend
    simp [hnil]
  obtain ⟨hfound, hroom⟩ := h pre x post rfl hpre hx
  rw [total_split hpre] at hroom
  have hfirst : (next limit)^[x.taken] (top (pre ++ [x])) = top (pre ++ [x]) + x.taken := by
    rw [iterate_next (by omega) (by omega), if_pos (by omega)]
  have hrise : (numbers limit (top (pre ++ [x]) + x.taken) post).Pairwise (· < ·) ∧
      ∀ n ∈ numbers limit (top (pre ++ [x]) + x.taken) post, top (pre ++ [x]) + x.taken < n :=
    numbers_rise (fun y hy => hfound y (by simp [hy])) (by omega)
  obtain ⟨hpairs, hlt⟩ := hrise
  rw [numbers_split hpre hx, hfirst]
  refine ⟨pairwise_cons.mpr ⟨hlt, hpairs⟩, fun n hn y hy => ?_⟩
  rcases mem_cons.mp hn with rfl | hmem
  · exact hfound y hy
  · exact (hfound y hy).trans (hlt n hmem)

/-- The new numbers are larger than every number found if and only if the first of them is taken past all
of those and the counter does not wrap. -/
theorem ahead_iff (hfound : ∀ y ∈ items, y.found < limit) (htotal : total items < limit) :
    (∀ n ∈ numbers limit 0 items, ∀ y ∈ items, 0 < y.found → y.found < n) ↔ Ahead limit items := by
  refine ⟨?_, fun h n hn y hy _ => h.numbers_spec.2 n hn y hy⟩
  rintro h pre x post rfl hpre hx
  rw [total_split hpre] at htotal
  rw [numbers_split hpre hx] at h
  have hsub : ∀ y ∈ pre ++ [x], y ∈ pre ++ x :: post := by
    intro y hy
    simp only [mem_append, mem_cons, not_mem_nil, or_false] at hy ⊢
    tauto
  -- the counter is at a number that was found, so a new number is not below it
  have hbase : ∀ n ∈ (next limit)^[x.taken] (top (pre ++ [x])) ::
      numbers limit ((next limit)^[x.taken] (top (pre ++ [x]))) post, top (pre ++ [x]) ≤ n := by
    intro n hn
    by_cases hzero : top (pre ++ [x]) = 0
    · omega
    · obtain ⟨y, hy, heq⟩ := top_found (Nat.pos_of_ne_zero hzero)
      exact heq ▸ (h n hn y (hsub y hy) (by omega)).le
  have htop : top (pre ++ [x]) < limit := by
    by_cases hzero : top (pre ++ [x]) = 0
    · omega
    · obtain ⟨y, hy, heq⟩ := top_found (Nat.pos_of_ne_zero hzero)
      exact heq ▸ hfound y (hsub y hy)
  have hroom : top (pre ++ [x]) + x.taken < limit := by
    have hle := hbase _ mem_cons_self
    rw [iterate_next htop (by omega)] at hle
    split at hle
    · assumption
    · omega
  rw [iterate_next htop (by omega), if_pos hroom] at h hbase
  have hpast : ∀ y ∈ pre ++ x :: post, y.found < top (pre ++ [x]) + x.taken := by
    intro y hy
    by_cases hzero : y.found = 0
    · omega
    · exact h _ mem_cons_self y hy (Nat.pos_of_ne_zero hzero)
  refine ⟨hpast, ?_⟩
  have hrest := room_of_numbers (fun y hy => hpast y (by simp [hy])) hroom (Nat.le_add_right _ _) (by omega)
    (forall_mem_cons.mp hbase).2
  rw [total_split hpre]
  omega

end Maistr0.Lib.Renumber
