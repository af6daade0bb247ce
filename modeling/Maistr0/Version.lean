import Mathlib

/-!
# Release numbers

`Compare` of `version.go`. Two numeric versions of three or more components are compared component by component
without ever reading a number: leading zeros are cut off, a longer component is the larger one, and components
of one length are compared as text. On numeric versions that is the order of the numbers. If one version is of the
legacy format, both are compared as `float64`, which is left open at first and then taken as exact.
-/

namespace Maistr0.Version

open List

def split (version : String) : List (List Char) := version.toList.splitOn '.'

def numeric (parts : List (List Char)) : Bool := parts.all fun part => !part.isEmpty && part.all Char.isDigit

def trimZeros (part : List Char) : List Char := part.dropWhile (· = '0')

def compareComponent (l r : List Char) : Int :=
  if l.length < r.length ∨ l.length = r.length ∧ l < r then -1
  else if r.length < l.length ∨ l.length = r.length ∧ r < l then 1
  else 0

/-- The loop over the components; a missing one is empty. -/
def compareParts : Nat → List (List Char) → List (List Char) → Int
  | 0, _, _ => 0
  | count + 1, left, right =>
    let c := compareComponent (trimZeros (left.headD [])) (trimZeros (right.headD []))
    if c = 0 then compareParts count left.tail right.tail else c

def compare (legacy : String → String → Int) (left right : String) : Int :=
  let leftParts := split left
  let rightParts := split right
  if 3 ≤ leftParts.length ∧ 3 ≤ rightParts.length then
    if numeric leftParts ∧ numeric rightParts then compareParts (max leftParts.length rightParts.length) leftParts rightParts
    else 0
  else legacy left right

def IsRelease (version : String) : Prop :=
  ((split version).length = 3 ∨ (split version).length = 4) ∧ numeric (split version)

instance (version : String) : Decidable (IsRelease version) := inferInstanceAs (Decidable (_ ∧ _))

theorem IsRelease.ne_empty {version : String} (h : IsRelease version) : version ≠ "" := by
  rintro rfl
  exact absurd h (by decide)

/-! ### The numbers -/

def value : List Char → Nat
  | [] => 0
  | c :: cs => (c.toNat - '0'.toNat) * 10 ^ cs.length + value cs

def numbers (parts : List (List Char)) (i : Nat) : Nat := value (parts.getD i [])

def Older (left right : String) : Prop := toLex (numbers (split left)) < toLex (numbers (split right))

theorem Older.trans {a b c : String} (hab : Older a b) (hbc : Older b c) : Older a c := lt_trans hab hbc

theorem not_older_self (a : String) : ¬ Older a a := lt_irrefl _

section

variable {c d : Char} {l r : List Char}

theorem digit_le (h : c.isDigit) : '0'.toNat ≤ c.toNat ∧ c.toNat - '0'.toNat ≤ 9 := by
  simp only [Char.isDigit, Bool.and_eq_true, decide_eq_true_eq] at h
  obtain ⟨hlo, hhi⟩ := h
  have hlo : 48 ≤ c.toNat := hlo
  have hhi : c.toNat ≤ 57 := hhi
  have hzero : '0'.toNat = 48 := rfl
  omega

theorem value_lt (h : l.all Char.isDigit) : value l < 10 ^ l.length := by
  induction l with
  | nil => exact Nat.one_pos
  | cons c cs ih =>
    rw [all_cons, Bool.and_eq_true] at h
    have hdigit := (digit_le h.1).2
    have hrest := ih h.2
    have hbound : (c.toNat - '0'.toNat) * 10 ^ cs.length ≤ 9 * 10 ^ cs.length := Nat.mul_le_mul_right _ hdigit
    rw [value, length_cons, pow_succ]
    omega

theorem value_trimZeros (l : List Char) : value (trimZeros l) = value l := by
  induction l with
  | nil => rfl
  | cons c cs ih =>
    unfold trimZeros
    rw [dropWhile_cons]
    split
    · rename_i hzero
      have hzero : c = '0' := by simpa using hzero
      rw [value, hzero, Nat.sub_self, Nat.zero_mul, Nat.zero_add]
      exact ih
    · rfl

theorem lt_iff_value_lt (hl : l.all Char.isDigit) (hr : r.all Char.isDigit) (hlength : l.length = r.length) :
    l < r ↔ value l < value r := by
  induction l generalizing r with
  | nil =>
    obtain rfl := eq_nil_of_length_eq_zero hlength.symm
    simp
  | cons c cs ih =>
    cases r with
    | nil => cases hlength
    | cons d ds =>
      rw [all_cons, Bool.and_eq_true] at hl hr
      have hlength : cs.length = ds.length := Nat.succ.inj hlength
      have hc := value_lt hl.2
      have hd := value_lt hr.2
      have hlow := digit_le hl.1
      have hlow' := digit_le hr.1
      rw [cons_lt_cons_iff, ih hl.2 hr.2 hlength, value, value, ← hlength]
      rw [← hlength] at hd
      rcases lt_trichotomy c.toNat d.toNat with hlt | heq | hgt
      · have hstep : (c.toNat - '0'.toNat + 1) * 10 ^ cs.length ≤ (d.toNat - '0'.toNat) * 10 ^ cs.length :=
          Nat.mul_le_mul_right _ (by omega)
        rw [Nat.add_mul] at hstep
        refine iff_of_true (.inl hlt) (by omega)
      · have hsame : c = d := Char.toNat_inj.mp heq
        subst hsame
        constructor
        · rintro (hlt | ⟨-, hlt⟩)
          · exact absurd hlt (Nat.lt_irrefl c.toNat)
          · omega
        · intro hlt
          exact .inr ⟨rfl, by omega⟩
      · have hstep : (d.toNat - '0'.toNat + 1) * 10 ^ cs.length ≤ (c.toNat - '0'.toNat) * 10 ^ cs.length :=
          Nat.mul_le_mul_right _ (by omega)
        rw [Nat.add_mul] at hstep
        refine iff_of_false ?_ (by omega)
        rintro (hlt | ⟨rfl, -⟩)
        · exact absurd (show c.toNat < d.toNat from hlt) (by omega)
        · omega

theorem all_trimZeros (h : l.all Char.isDigit) : (trimZeros l).all Char.isDigit :=
  all_eq_true.mpr fun c hc => all_eq_true.mp h c ((dropWhile_sublist _).subset hc)

theorem pow_le_value (h : l.all Char.isDigit) (hne : trimZeros l ≠ []) : 10 ^ ((trimZeros l).length - 1) ≤ value l := by
  rw [← value_trimZeros l]
  have hdigits := all_trimZeros h
  cases htrim : trimZeros l with
  | nil => exact absurd htrim hne
  | cons c cs =>
    have hhead : c ≠ '0' := by
      have hhead := head_dropWhile_not (fun c : Char => decide (c = '0')) hne
      have hc : (trimZeros l).head hne = c := by simp [htrim]
      rw [show (l.dropWhile fun c => decide (c = '0')).head hne = c from hc] at hhead
      simpa using hhead
    rw [htrim, all_cons, Bool.and_eq_true] at hdigits
    have hlow := (digit_le hdigits.1).1
    have hpos : 1 ≤ c.toNat - '0'.toNat := by
      have hne : c.toNat ≠ '0'.toNat := fun heq => hhead (Char.toNat_inj.mp heq)
      omega
    rw [value, length_cons, Nat.add_sub_cancel]
    calc 10 ^ cs.length = 1 * 10 ^ cs.length := (Nat.one_mul _).symm
      _ ≤ (c.toNat - '0'.toNat) * 10 ^ cs.length := Nat.mul_le_mul_right _ hpos
      _ ≤ _ := Nat.le_add_right _ _

theorem value_lt_of_length_lt (hl : l.all Char.isDigit) (hr : r.all Char.isDigit)
    (hlength : (trimZeros l).length < (trimZeros r).length) : value l < value r := by
  have hne : trimZeros r ≠ [] := ne_nil_of_length_pos (Nat.zero_lt_of_lt hlength)
  calc value l = value (trimZeros l) := (value_trimZeros l).symm
    _ < 10 ^ (trimZeros l).length := value_lt (all_trimZeros hl)
    _ ≤ 10 ^ ((trimZeros r).length - 1) := Nat.pow_le_pow_right (by decide) (by omega)
    _ ≤ value r := pow_le_value hr hne

theorem shorter_iff (hl : l.all Char.isDigit) (hr : r.all Char.isDigit) : ((trimZeros l).length < (trimZeros r).length ∨
    (trimZeros l).length = (trimZeros r).length ∧ trimZeros l < trimZeros r) ↔ value l < value r := by
  rcases lt_trichotomy (trimZeros l).length (trimZeros r).length with hlt | heq | hgt
  · exact iff_of_true (.inl hlt) (value_lt_of_length_lt hl hr hlt)
  · rw [lt_iff_value_lt (all_trimZeros hl) (all_trimZeros hr) heq, value_trimZeros, value_trimZeros]
    constructor
    · rintro (hlt | ⟨-, hlt⟩)
      · exact absurd heq hlt.ne
      · exact hlt
    · exact fun hlt => .inr ⟨heq, hlt⟩
  · have hvalue := value_lt_of_length_lt hr hl hgt
    exact iff_of_false (by omega) (by omega)

theorem compareComponent_eq (hl : l.all Char.isDigit) (hr : r.all Char.isDigit) :
    compareComponent (trimZeros l) (trimZeros r) = if value l < value r then -1 else if value r < value l then 1 else 0 := by
  have hflip := shorter_iff hr hl
  rw [@eq_comm Nat (trimZeros r).length] at hflip
  unfold compareComponent
  rw [if_congr (shorter_iff hl hr) rfl rfl, if_congr hflip rfl rfl]

end

/-! ### The order of versions -/

section

variable {left right : List (List Char)}

theorem numbers_tail (parts : List (List Char)) (i : Nat) : numbers parts.tail i = numbers parts (i + 1) := by
  cases parts <;> simp [numbers]

theorem numbers_zero (parts : List (List Char)) : numbers parts 0 = value (parts.headD []) := by
  cases parts <;> simp [numbers]

theorem digits_headD (h : ∀ part ∈ left, part.all Char.isDigit) : (left.headD []).all Char.isDigit := by
  cases left with
  | nil => rfl
  | cons part => exact h part mem_cons_self

theorem compareParts_neg_iff (count : Nat) (hleft : ∀ part ∈ left, part.all Char.isDigit)
    (hright : ∀ part ∈ right, part.all Char.isDigit) :
    compareParts count left right < 0 ↔
      ∃ i < count, (∀ j < i, numbers left j = numbers right j) ∧ numbers left i < numbers right i := by
  induction count generalizing left right with
  | zero => simp [compareParts]
  | succ _ ih =>
    unfold compareParts
    have hfirst := compareComponent_eq (digits_headD hleft) (digits_headD hright)
    rw [← numbers_zero, ← numbers_zero] at hfirst
    have htail := ih (fun part hpart => hleft part (mem_of_mem_tail hpart))
      (fun part hpart => hright part (mem_of_mem_tail hpart))
    simp only [numbers_tail] at htail
    rcases lt_trichotomy (numbers left 0) (numbers right 0) with hlt | heq | hgt
    · rw [hfirst, if_pos hlt, if_neg (by decide)]
      exact iff_of_true (by decide) ⟨0, Nat.succ_pos _, fun j hj => absurd hj (Nat.not_lt_zero j), hlt⟩
    · -- the first component decides nothing
      rw [if_neg heq.not_lt, if_neg heq.not_gt] at hfirst
      rw [if_pos hfirst, htail]
      constructor
      · rintro ⟨i, hi, hsame, hless⟩
        refine ⟨i + 1, Nat.succ_lt_succ hi, fun j hj => ?_, hless⟩
        cases j with
        | zero => exact heq
        | succ j => exact hsame j (Nat.lt_of_succ_lt_succ hj)
      · rintro ⟨i, hi, hsame, hless⟩
        cases i with
        | zero => exact absurd heq hless.ne
        | succ i => exact ⟨i, Nat.lt_of_succ_lt_succ hi, fun j hj => hsame (j + 1) (Nat.succ_lt_succ hj), hless⟩
    · rw [hfirst, if_neg hgt.not_gt, if_pos hgt, if_neg (by decide)]
      refine iff_of_false (by decide) ?_
      rintro ⟨i, hi, hsame, hless⟩
      cases i with
      | zero => omega
      | succ i => exact absurd (hsame 0 (Nat.succ_pos i)) hgt.ne'

end

theorem digits_of_numeric {parts : List (List Char)} (h : numeric parts) : ∀ part ∈ parts, part.all Char.isDigit := by
  intro part hpart
  have hall := all_eq_true.mp h part hpart
  rw [Bool.and_eq_true] at hall
  exact hall.2

theorem compareParts_neg_iff_older {left right : String} (hleft : numeric (split left)) (hright : numeric (split right)) :
    compareParts (max (split left).length (split right).length) (split left) (split right) < 0 ↔ Older left right := by
  rw [compareParts_neg_iff _ (digits_of_numeric hleft) (digits_of_numeric hright)]
  constructor
  · rintro ⟨i, -, hsame, hless⟩
    exact ⟨i, hsame, hless⟩
  · rintro ⟨i, hsame, hless⟩
    refine ⟨i, ?_, hsame, hless⟩
    -- past the last component both numbers are zero
    by_contra hlast
    have hpast : (split right).length ≤ i := le_trans (le_max_right _ _) (Nat.le_of_not_lt hlast)
    have hzero : numbers (split right) i = 0 := by
      unfold numbers
      rw [getD_eq_getElem?_getD, getElem?_eq_none hpast]
      rfl
    exact absurd (hzero ▸ hless : numbers (split left) i < 0) (Nat.not_lt_zero _)

/-- `Compare` puts releases in the order of their numbers. -/
theorem compare_neg_iff (legacy : String → String → Int) {left right : String} (hleft : IsRelease left) (hright : IsRelease right) :
    compare legacy left right < 0 ↔ Older left right := by
  have hlengths : 3 ≤ (split left).length ∧ 3 ≤ (split right).length := by
    have hl := hleft.1
    have hr := hright.1
    omega
  unfold compare
  rw [if_pos hlengths, if_pos ⟨hleft.2, hright.2⟩, compareParts_neg_iff_older hleft.2 hright.2]

/-! ### Versions of either format -/

/-- `numericVersion` of a numeric version, as the exact number: all components but the first are decimals. -/
def numericVersion (version : String) : Rat :=
  let decimals := (split version).tail.flatten
  value ((split version).headD []) + value decimals / 10 ^ decimals.length

def compareNumeric (left right : String) : Int :=
  if numericVersion left < numericVersion right then -1 else if numericVersion right < numericVersion left then 1 else 0

abbrev IsVersion (version : String) : Prop := 2 ≤ (split version).length ∧ numeric (split version)

abbrev IsSemantic (version : String) : Prop := 3 ≤ (split version).length

abbrev OneMethod (a b c : String) : Prop :=
  (IsSemantic a ∧ IsSemantic b ↔ IsSemantic b ∧ IsSemantic c) ∧ (IsSemantic a ∧ IsSemantic b ↔ IsSemantic a ∧ IsSemantic c)

theorem compareParts_swap {left right : List (List Char)} (count : Nat) (hleft : ∀ part ∈ left, part.all Char.isDigit)
    (hright : ∀ part ∈ right, part.all Char.isDigit) : compareParts count left right = -compareParts count right left := by
  induction count generalizing left right with
  | zero => rfl
  | succ _ ih =>
    have hrest := ih (fun part hpart => hleft part (mem_of_mem_tail hpart)) fun part hpart => hright part (mem_of_mem_tail hpart)
    unfold compareParts
    rw [compareComponent_eq (digits_headD hleft) (digits_headD hright),
      compareComponent_eq (digits_headD hright) (digits_headD hleft), hrest]
    grind

variable {a b c : String}

theorem compare_nonpos_of_not_semantic (h : ¬ (IsSemantic a ∧ IsSemantic b)) :
    compare compareNumeric a b ≤ 0 ↔ numericVersion a ≤ numericVersion b := by
  unfold compare
  rw [if_neg h]
  unfold compareNumeric
  grind

section

variable (ha : IsVersion a) (hb : IsVersion b)

include ha hb

theorem compare_semantic (h : IsSemantic a ∧ IsSemantic b) :
    compare compareNumeric a b = compareParts (max (split a).length (split b).length) (split a) (split b) := by
  unfold compare
  rw [if_pos h, if_pos ⟨ha.2, hb.2⟩]

theorem compare_swap : compare compareNumeric a b = -compare compareNumeric b a := by
  by_cases h : IsSemantic a ∧ IsSemantic b
  · rw [compare_semantic ha hb h, compare_semantic hb ha h.symm, max_comm]
    exact compareParts_swap _ (digits_of_numeric ha.2) (digits_of_numeric hb.2)
  · unfold compare compareNumeric
    grind

theorem compare_nonpos_of_semantic (h : IsSemantic a ∧ IsSemantic b) :
    compare compareNumeric a b ≤ 0 ↔ toLex (numbers (split a)) ≤ toLex (numbers (split b)) := by
  rw [compare_swap ha hb, neg_nonpos, ← not_lt, compare_semantic hb ha h.symm, compareParts_neg_iff_older hb.2 ha.2]
  exact not_lt

end

end Maistr0.Version
