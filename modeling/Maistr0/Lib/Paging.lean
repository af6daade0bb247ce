import Mathlib

/-!
# Listings read page by page

A reader asks for a page, goes on at the cursor it was given, and stops at a page that is said to be the last. The
listing may change between two pages.
-/

namespace Maistr0.Lib.Paging

open List

variable {α κ ε σ : Type} {next : σ → κ → Except ε (List α × κ × Bool)} {stores : List σ}

/-- The pages from a cursor on, each cut from the next of the states given, until the last page or an error. There is
no result if the states run out before. -/
def traverse (next : σ → κ → Except ε (List α × κ × Bool)) : List σ → κ → Option (Except ε (List (List α)))
  | [], _ => none
  | s :: later, c =>
    match next s c with
    | .error err => some (.error err)
    | .ok (page, _, false) => some (.ok [page])
    | .ok (page, c', true) => (traverse next later c').map (Except.map (page :: ·))

theorem traverse_error {c : κ} {err : ε} (h : traverse next stores c = some (.error err)) :
    ∃ s ∈ stores, ∃ c', next s c' = .error err := by
  induction stores generalizing c with
  | nil => cases h
  | cons s _ ih =>
    rw [traverse] at h
    match hnext : next s c, h with
    | .error _, rfl => exact ⟨s, mem_cons_self, c, hnext⟩
    | .ok (page, c', true), h =>
      obtain ⟨result, hlater, hresult⟩ := Option.map_eq_some_iff.mp h
      cases result with
      | ok => cases hresult
      | error =>
        obtain ⟨t, ht, herr⟩ := ih (hlater.trans (congrArg (some ∘ Except.error) (Except.error.inj hresult)))
        exact ⟨t, mem_cons_of_mem _ ht, herr⟩

/-- Every page is the beginning of the rest, and the last one is all of it. -/
structure Serves (next : κ → Except ε (List α × κ × Bool)) (rest : κ → List α) : Prop where
  last : ∀ {c page c'}, next c = .ok (page, c', false) → rest c = page
  more : ∀ {c page c'}, next c = .ok (page, c', true) → page ≠ [] ∧ rest c = page ++ rest c'

/-- As long as the listing does not change, one call more than it has items is enough. -/
theorem Serves.traverse {rest : κ → List α} (h : ∀ s ∈ stores, Serves (next s) rest) {c : κ}
    (hn : (rest c).length < stores.length) :
    (∃ s ∈ stores, ∃ c' err, next s c' = .error err ∧ traverse next stores c = some (.error err)) ∨
      ∃ pages, traverse next stores c = some (.ok pages) ∧ pages.flatten = rest c ∧ ∀ page ∈ pages.dropLast, page ≠ [] := by
  induction stores generalizing c with
  | nil => exact absurd hn (Nat.not_lt_zero _)
  | cons s _ ih =>
    have hs := h s mem_cons_self
    rw [Paging.traverse]
    match hnext : next s c with
    | .error err => exact .inl ⟨s, mem_cons_self, c, err, hnext, rfl⟩
    | .ok (page, c', false) => exact .inr ⟨[page], rfl, by simp [hs.last hnext], by simp⟩
    | .ok (page, c', true) =>
      obtain ⟨hne, hrest⟩ := hs.more hnext
      have hpage := length_pos_of_ne_nil hne
      have hlength := congrArg length hrest
      rw [length_append] at hlength
      rcases ih (forall_mem_cons.mp h).2 (c := c') (by simp at hn; omega) with
        ⟨t, ht, c'', err, herr, hrun⟩ | ⟨pages, hrun, hpages, hfull⟩
      · exact .inl ⟨t, mem_cons_of_mem _ ht, c'', err, herr, by simp [hrun, Except.map]⟩
      refine .inr ⟨page :: pages, by simp [hrun, Except.map], by simp [hpages, hrest], fun q hq => ?_⟩
      cases pages with
      | nil => simp at hq
      | cons =>
        rcases mem_cons.mp hq with rfl | hq
        · exact hne
        · exact hfull q hq

/-- Pages of an ordered listing whose cursor is the last item that was read. -/
structure Ordered (R : α → α → Prop) (content : σ → List α) (after : κ → α → Bool)
    (next : σ → κ → Except ε (List α × κ × Bool)) : Prop where
  irrefl : ∀ x, ¬ R x x
  trans : ∀ {x y z}, R x y → R y z → R x z
  sorted : ∀ s, (content s).Pairwise R
  after_of : ∀ {c x y}, after c x = true → R x y → after c y = true
  last : ∀ {s c page c'}, next s c = .ok (page, c', false) → (content s).filter (after c) = page
  more : ∀ {s c page c'}, next s c = .ok (page, c', true) → ∃ front x tail, page = front ++ [x] ∧
    (content s).filter (after c) = page ++ tail ∧ ∀ y, after c' y = true ↔ R x y

namespace Ordered

variable {R : α → α → Prop} {content : σ → List α} {after : κ → α → Bool}

section

variable (h : Ordered R content after next)

include h

theorem serves (s : σ) : Serves (next s) fun c => (content s).filter (after c) where
  last := h.last
  more {c page c'} hnext := by
    obtain ⟨front, x, tail, rfl, hrest, hafter⟩ := h.more hnext
    refine ⟨by simp, ?_⟩
    have hsorted : (front ++ [x] ++ tail).Pairwise R := hrest ▸ (h.sorted s).filter _
    have hx : after c x = true := (mem_filter.mp (hrest ▸ by simp : x ∈ (content s).filter (after c))).2
    have hwithin : (content s).filter (after c') = ((content s).filter (after c)).filter (after c') := by
      rw [filter_filter]
      refine filter_congr fun y _ => ?_
      cases hy : after c' y with
      | false => rfl
      | true => simp [h.after_of hx ((hafter y).mp hy)]
    simp only [append_assoc, singleton_append, pairwise_append, pairwise_cons] at hsorted
    have hfront : front.filter (after c') = [] := filter_eq_nil_iff.mpr fun y hy hlater =>
      h.irrefl y (h.trans (hsorted.2.2 y hy x mem_cons_self) ((hafter y).mp hlater))
    have hself : after c' x = false := Bool.eq_false_iff.mpr fun hlater => h.irrefl x ((hafter x).mp hlater)
    have htail : tail.filter (after c') = tail :=
      filter_eq_self.mpr fun y hy => (hafter y).mpr (hsorted.2.1.1 y hy)
    rw [hwithin, hrest, filter_append, filter_append, hfront, htail]
    simp [hself]

/-- What is read is in order, so nothing comes twice, and what is there all the time is read. -/
theorem read {c : κ} {pages : List (List α)} (hrun : Paging.traverse next stores c = some (.ok pages)) :
    (∀ page ∈ pages.dropLast, page ≠ []) ∧ pages.flatten.Pairwise R ∧
      (∀ x ∈ pages.flatten, after c x = true ∧ ∃ s ∈ stores, x ∈ content s) ∧
      ∀ x, after c x = true → (∀ s ∈ stores.take pages.length, x ∈ content s) → x ∈ pages.flatten := by
  induction stores generalizing c pages with
  | nil => cases hrun
  | cons s later ih =>
    rw [Paging.traverse] at hrun
    match hnext : next s c, hrun with
    | .ok (page, c', false), rfl =>
      have hpage := h.last hnext
      simp only [flatten_cons, flatten_nil, append_nil, ← hpage]
      refine ⟨by simp, (h.sorted s).filter _, fun x hx => ?_, fun x hx hthere => ?_⟩
      · obtain ⟨hx, hafter⟩ := mem_filter.mp hx
        exact ⟨hafter, s, mem_cons_self, hx⟩
      · exact mem_filter.mpr ⟨hthere s (by simp), hx⟩
    | .ok (page, c', true), hrun =>
      obtain ⟨rest, hlater, rfl⟩ : ∃ rest, Paging.traverse next later c' = some (.ok rest) ∧ page :: rest = pages := by
        obtain ⟨result, hlater, hresult⟩ := Option.map_eq_some_iff.mp hrun
        cases result with
        | error => cases hresult
        | ok rest => exact ⟨rest, hlater, Except.ok.inj hresult⟩
      obtain ⟨hfull, hsorted, hwithin, hall⟩ := ih hlater
      obtain ⟨front, x, tail, rfl, hrest, hafter⟩ := h.more hnext
      have hpage : (front ++ [x] ++ tail).Pairwise R := hrest ▸ (h.sorted s).filter _
      have hmem : ∀ y ∈ front ++ [x], y ∈ content s ∧ after c y = true := fun y hy =>
        mem_filter.mp (hrest ▸ mem_append_left _ hy)
      have hx := (hmem x (by simp)).2
      rw [flatten_cons]
      refine ⟨fun page hmem => ?_, pairwise_append.mpr ⟨(pairwise_append.mp hpage).1, hsorted, fun y hy z hz => ?_⟩,
        fun y hy => ?_, fun y hy hthere => ?_⟩
      · cases rest with
        | nil => simp at hmem
        | cons =>
          rcases mem_cons.mp hmem with rfl | hmem
          · simp
          · exact hfull page hmem
      · have hz := (hafter z).mp (hwithin z hz).1
        rcases mem_append.mp hy with hy | hy
        · exact h.trans ((pairwise_append.mp (pairwise_append.mp hpage).1).2.2 y hy x (by simp)) hz
        · rwa [mem_singleton.mp hy]
      · rcases mem_append.mp hy with hy | hy
        · exact ⟨(hmem y hy).2, s, mem_cons_self, (hmem y hy).1⟩
        · obtain ⟨hy, t, ht, hcontent⟩ := hwithin y hy
          exact ⟨h.after_of hx ((hafter y).mp hy), t, mem_cons_of_mem _ ht, hcontent⟩
      · have hthere' : y ∈ front ++ [x] ++ tail := hrest ▸ mem_filter.mpr ⟨hthere s (by simp), hy⟩
        refine (mem_append.mp hthere').elim (mem_append_left _) fun htail => mem_append_right _ ?_
        refine hall y ((hafter y).mpr ((pairwise_append.mp hpage).2.2 x (by simp) y htail)) fun t ht => ?_
        exact hthere t (by simp [ht])

/-- If the items that follow the cursor are numbered, falling, one call more than the highest number is enough. -/
theorem ends {rank : α → Nat} (hrank : ∀ {x y}, R x y → rank y < rank x) {s : σ} {later : List σ} {c : κ}
    (hbound : ∀ x ∈ content s, after c x = true → rank x < later.length) :
    Paging.traverse next (s :: later) c ≠ none := by
  induction later generalizing s c with
  | nil =>
    rw [Paging.traverse]
    match hnext : next s c with
    | .error err => simp
    | .ok (page, c', false) => simp
    | .ok (page, c', true) =>
      obtain ⟨front, x, tail, rfl, hrest, -⟩ := h.more hnext
      obtain ⟨hx, hafter⟩ := mem_filter.mp (hrest ▸ by simp : x ∈ (content s).filter (after c))
      exact absurd (hbound x hx hafter) (Nat.not_lt_zero _)
  | cons t later ih =>
    rw [Paging.traverse]
    match hnext : next s c with
    | .error err => simp
    | .ok (page, c', false) => simp
    | .ok (page, c', true) =>
      obtain ⟨_, x, _, rfl, hrest, hlater⟩ := h.more hnext
      obtain ⟨hx, hafter⟩ := mem_filter.mp (hrest ▸ by simp : x ∈ (content s).filter (after c))
      have hlength : rank x < later.length + 1 := hbound x hx hafter
      have hrun := ih (s := t) (c := c') fun y _ hy => by
        have := hrank ((hlater y).mp hy)
        omega
      simpa using hrun

end

end Ordered

end Maistr0.Lib.Paging
