import Mathlib

/-!
# Finite maps whose values know their key

A map is the list of its values, no two of them under one key. `keyOf` reads the key off a value,
so a value can only be filed under its own key.
-/

namespace Maistr0.Lib

open List

/-- A finite map from `K` to `V` in which every value is filed under `keyOf` of itself. -/
structure Keyed {V K : Type} (keyOf : V → K) where
  vals : List V
  nodup : (vals.map keyOf).Nodup

namespace Keyed

variable {V K : Type} {keyOf : V → K}

instance : EmptyCollection (Keyed keyOf) := ⟨⟨[], nodup_nil⟩⟩

variable {m : Keyed keyOf} {v : V}

@[simp] theorem vals_empty : (∅ : Keyed keyOf).vals = [] := rfl

def isEmpty (m : Keyed keyOf) : Bool := m.vals.isEmpty

theorem eq_of_mem_vals {w : V} (hv : v ∈ m.vals) (hw : w ∈ m.vals) (hkey : keyOf v = keyOf w) : v = w :=
  inj_on_of_nodup_map m.nodup hv hw hkey

def filter (m : Keyed keyOf) (p : V → Bool) : Keyed keyOf :=
  ⟨m.vals.filter p, m.nodup.sublist ((filter_sublist).map keyOf)⟩

@[simp] theorem vals_filter (m : Keyed keyOf) (p : V → Bool) : (m.filter p).vals = m.vals.filter p := rfl

def mapVals (m : Keyed keyOf) (f : V → V) (hf : ∀ v, keyOf (f v) = keyOf v) : Keyed keyOf where
  vals := m.vals.map f
  nodup := by
    rw [map_map, show keyOf ∘ f = keyOf from funext hf]
    exact m.nodup

variable [DecidableEq K]

def get? (m : Keyed keyOf) (k : K) : Option V := m.vals.find? fun v => keyOf v = k

def erase (m : Keyed keyOf) (k : K) : Keyed keyOf := m.filter fun v => keyOf v ≠ k

def put (m : Keyed keyOf) (v : V) : Keyed keyOf where
  vals := v :: (m.erase (keyOf v)).vals
  nodup := by
    rw [map_cons, nodup_cons]
    refine ⟨fun hmem => ?_, (m.erase (keyOf v)).nodup⟩
    obtain ⟨_, hw, hkey⟩ := mem_map.mp hmem
    simp [erase, hkey] at hw

@[simp] theorem vals_erase (m : Keyed keyOf) (k : K) : (m.erase k).vals = m.vals.filter fun v => keyOf v ≠ k := rfl

@[simp] theorem vals_put (m : Keyed keyOf) (v : V) :
    (m.put v).vals = v :: m.vals.filter fun w => keyOf w ≠ keyOf v := rfl

theorem get?_eq_some {k : K} : m.get? k = some v ↔ v ∈ m.vals ∧ keyOf v = k := by
  unfold get?
  constructor
  · intro h
    exact ⟨mem_of_find?_eq_some h, by simpa using find?_some h⟩
  · rintro ⟨hmem, rfl⟩
    cases hfind : m.vals.find? fun w => keyOf w = keyOf v with
    | none => simpa using find?_eq_none.mp hfind v hmem
    | some w =>
      have hkey : keyOf w = keyOf v := by simpa using find?_some hfind
      rw [eq_of_mem_vals (mem_of_find?_eq_some hfind) hmem hkey]

theorem keyOf_get? {k : K} (h : m.get? k = some v) : keyOf v = k :=
  (get?_eq_some.mp h).2

theorem perm_cons_erase (h : v ∈ m.vals) : m.vals.Perm (v :: (m.erase (keyOf v)).vals) := by
  have hnodup : m.vals.Nodup := Nodup.of_map keyOf m.nodup
  apply (perm_ext_iff_of_nodup hnodup (Nodup.of_map keyOf (m.put v).nodup)).mpr
  intro w
  simp only [vals_put, mem_cons, mem_filter, decide_eq_true_eq]
  constructor
  · intro hw
    by_cases hkey : keyOf w = keyOf v
    · exact .inl (eq_of_mem_vals hw h hkey)
    · exact .inr ⟨hw, hkey⟩
  · rintro (rfl | ⟨hw, -⟩)
    · exact h
    · exact hw

theorem get?_put (m : Keyed keyOf) (v : V) (k : K) : (m.put v).get? k = if keyOf v = k then some v else m.get? k := by
  ext w
  by_cases hkey : keyOf v = k
  · simp only [hkey, if_true, get?_eq_some, vals_put, mem_cons, mem_filter, Option.some.injEq]
    constructor
    · rintro ⟨rfl | ⟨-, hne⟩, hw⟩
      · rfl
      · simp [hw] at hne
    · rintro rfl
      exact ⟨.inl rfl, hkey⟩
  · simp only [hkey, if_false, get?_eq_some, vals_put, mem_cons, mem_filter]
    constructor
    · rintro ⟨rfl | ⟨hmem, -⟩, hw⟩
      · exact absurd hw hkey
      · exact ⟨hmem, hw⟩
    · rintro ⟨hmem, rfl⟩
      exact ⟨.inr ⟨hmem, by simpa using Ne.symm hkey⟩, rfl⟩

theorem forall_mem_put {P : V → Prop} (h : ∀ x ∈ m.vals, P x) (hv : P v) : ∀ x ∈ (m.put v).vals, P x := by
  intro x hx
  rw [vals_put, mem_cons, mem_filter] at hx
  rcases hx with rfl | ⟨hmem, -⟩
  · exact hv
  · exact h x hmem

theorem get?_put_eq_update (m : Keyed keyOf) (v : V) : (m.put v).get? = Function.update m.get? (keyOf v) (some v) := by
  funext k
  rw [get?_put, Function.update_apply]
  exact if_congr eq_comm rfl rfl

theorem get?_erase (m : Keyed keyOf) (k k' : K) : (m.erase k).get? k' = if k = k' then none else m.get? k' := by
  ext w
  by_cases hkey : k = k'
  · simp [hkey, get?_eq_some]
  simp only [hkey, if_false, get?_eq_some, vals_erase, mem_filter]
  constructor
  · rintro ⟨⟨hmem, -⟩, hw⟩
    exact ⟨hmem, hw⟩
  · rintro ⟨hmem, rfl⟩
    exact ⟨⟨hmem, by simpa using Ne.symm hkey⟩, rfl⟩

theorem get?_mapVals (m : Keyed keyOf) (f : V → V) (hf : ∀ v, keyOf (f v) = keyOf v) (k : K) :
    (m.mapVals f hf).get? k = (m.get? k).map f := by
  unfold get? mapVals
  rw [find?_map]
  congr 2
  funext v
  exact congrArg (fun x => decide (x = k)) (hf v)

theorem get?_filter_of_keep {p : V → Bool} {k : K} (h : m.get? k = some v) (hkeep : p v = true) :
    (m.filter p).get? k = some v := by
  obtain ⟨hmem, hkey⟩ := get?_eq_some.mp h
  exact get?_eq_some.mpr ⟨mem_filter.mpr ⟨hmem, hkeep⟩, hkey⟩

end Keyed

end Maistr0.Lib
