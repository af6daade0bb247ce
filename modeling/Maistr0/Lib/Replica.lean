import Mathlib

/-!
# Replicas of stamped records

Each record carries a stamp, an origin with a sequence number of that origin, and a key. A replica
holds a bag of records and a clock, and changes in three ways only: it forgets records, it writes a
record under its own origin with a sequence its clock has not reached, or it adopts a record it was
shown, replacing whatever it held under that key. In a fleet of replicas with distinct owners that is
enough for a stamp to name one key everywhere, and one record within a replica.
-/

namespace Maistr0.Lib

open Function Multiset

structure Labels (Ω κ R : Type) where
  origin : R → Ω
  sequence : R → Nat
  key : R → κ

def Labels.stamp {Ω κ R : Type} (L : Labels Ω κ R) (r : R) : Ω × Nat := (L.origin r, L.sequence r)

structure Replica (Ω R : Type) where
  owner : Ω
  clock : Ω → Nat
  held : Multiset R

variable {ι Ω κ R : Type}

namespace Replica

variable {L : Labels Ω κ R} {shown : Set R} {v v' : Replica Ω R}

def Covered (L : Labels Ω κ R) (v : Replica Ω R) : Prop := ∀ r ∈ v.held, L.sequence r ≤ v.clock (L.origin r)

def Distinct (L : Labels Ω κ R) (v : Replica Ω R) : Prop := (v.held.map L.stamp).Nodup

theorem stamp_ne_of_ahead (hv : v.Covered L) {x r : R} (hx : x ∈ v.held) (horigin : L.origin r = v.owner)
    (hahead : v.clock v.owner < L.sequence r) : L.stamp x ≠ L.stamp r := by
  intro hstamp
  obtain ⟨ho, hs⟩ := Prod.mk.inj hstamp
  have hle := hv x hx
  rw [ho, hs, horigin] at hle
  exact absurd hle (Nat.not_le_of_lt hahead)

structure Fresh (L : Labels Ω κ R) (shown : Set R) (v v' : Replica Ω R) (r : R) : Prop where
  held : r ∈ v'.held
  origin_eq : L.origin r = v.owner
  ahead : v.clock v.owner < L.sequence r
  notShown : ∀ x ∈ shown, L.stamp x ≠ L.stamp r

theorem Fresh.not_held {r x : R} (hr : Fresh L shown v v' r) (hv : v.Covered L) (hx : x ∈ v.held) :
    L.stamp x ≠ L.stamp r :=
  stamp_ne_of_ahead hv hx hr.origin_eq hr.ahead

variable [DecidableEq κ]

variable (L) in
inductive Step (shown : Set R) (v v' : Replica Ω R) : Prop
  | forget (howner : v'.owner = v.owner) (hclock : v.clock ≤ v'.clock) (hheld : v'.held ≤ v.held)
  | write (r : R) (howner : v'.owner = v.owner) (hclock : v.clock ≤ v'.clock)
      (horigin : L.origin r = v.owner) (hfresh : v.clock v.owner < L.sequence r)
      (hcover : L.sequence r ≤ v'.clock v.owner) (hheld : v'.held ≤ r ::ₘ v.held)
  | adopt (r source : R) (howner : v'.owner = v.owner) (hclock : v.clock ≤ v'.clock)
      (hshown : source ∈ shown) (hstamp : L.stamp r = L.stamp source) (hkey : L.key r = L.key source)
      (hcover : L.sequence r ≤ v'.clock (L.origin r))
      (hheld : v'.held ≤ r ::ₘ v.held.filter fun x => L.key x ≠ L.key r)

theorem Step.owner_eq (h : Step L shown v v') : v'.owner = v.owner := by
  cases h with
  | forget howner => exact howner
  | write _ howner => exact howner
  | adopt _ _ howner => exact howner

theorem Step.clock_le (h : Step L shown v v') : v.clock ≤ v'.clock := by
  cases h with
  | forget _ hclock => exact hclock
  | write _ _ hclock => exact hclock
  | adopt _ _ _ hclock => exact hclock

theorem Step.mono {shown' : Set R} (hsub : shown ⊆ shown') (h : Step L shown v v') : Step L shown' v v' := by
  cases h with
  | forget howner hclock hheld => exact .forget howner hclock hheld
  | write r howner hclock horigin hfresh hcover hheld =>
    exact .write r howner hclock horigin hfresh hcover hheld
  | adopt r source howner hclock hshown hstamp hkey hcover hheld =>
    exact .adopt r source howner hclock (hsub hshown) hstamp hkey hcover hheld

section

variable (h : Step L shown v v')

include h

theorem Step.mem_held {r : R} (hr : r ∈ v'.held) :
    r ∈ v.held ∨ (L.origin r = v.owner ∧ v.clock v.owner < L.sequence r) ∨
      ∃ source ∈ shown, L.stamp r = L.stamp source ∧ L.key r = L.key source := by
  cases h with
  | forget _ _ hheld => exact .inl (mem_of_le hheld hr)
  | write _ _ _ horigin hfresh _ hheld =>
    rcases mem_cons.mp (mem_of_le hheld hr) with rfl | hmem
    · exact .inr (.inl ⟨horigin, hfresh⟩)
    · exact .inl hmem
  | adopt _ source _ _ hshown hstamp hkey _ hheld =>
    rcases mem_cons.mp (mem_of_le hheld hr) with rfl | hmem
    · exact .inr (.inr ⟨source, hshown, hstamp, hkey⟩)
    · exact .inl (mem_of_mem_filter hmem)

theorem Step.covered (hv : v.Covered L) : v'.Covered L := by
  intro r hr
  have hold : r ∈ v.held → L.sequence r ≤ v'.clock (L.origin r) := fun hmem =>
    (hv r hmem).trans (h.clock_le _)
  cases h with
  | forget _ _ hheld => exact hold (mem_of_le hheld hr)
  | write _ _ _ horigin _ hcover hheld =>
    rcases mem_cons.mp (mem_of_le hheld hr) with rfl | hmem
    · rw [horigin]
      exact hcover
    · exact hold hmem
  | adopt _ _ _ _ _ _ _ hcover hheld =>
    rcases mem_cons.mp (mem_of_le hheld hr) with rfl | hmem
    · exact hcover
    · exact hold (mem_of_mem_filter hmem)

/-- Stamps stay distinct as long as a held record and a shown one with the same stamp have the same key:
an adopted record then displaces the one it would clash with. -/
theorem Step.distinct (hcov : v.Covered L) (hv : v.Distinct L)
    (hfun : ∀ x ∈ v.held, ∀ y ∈ shown, L.stamp x = L.stamp y → L.key x = L.key y) : v'.Distinct L := by
  have hadd : ∀ (r : R) (held : Multiset R), held ≤ v.held → (∀ x ∈ held, L.stamp x ≠ L.stamp r) →
      v'.held ≤ r ::ₘ held → v'.Distinct L := by
    intro r held hsub hnew hle
    refine nodup_of_le (map_le_map hle) ?_
    rw [map_cons, nodup_cons]
    refine ⟨fun hmem => ?_, nodup_of_le (map_le_map hsub) hv⟩
    obtain ⟨x, hx, hstamp⟩ := mem_map.mp hmem
    exact hnew x hx hstamp
  cases h with
  | forget _ _ hheld => exact nodup_of_le (map_le_map hheld) hv
  | write r _ _ horigin hfresh _ hheld =>
    exact hadd r v.held le_rfl (fun x hx => stamp_ne_of_ahead hcov hx horigin hfresh) hheld
  | adopt r source _ _ hshown hstamp hkey _ hheld =>
    refine hadd r _ (filter_le _ _) (fun x hx hsame => ?_) hheld
    obtain ⟨hmem, hne⟩ := mem_filter.mp hx
    exact hne ((hfun x hmem source hshown (hsame.trans hstamp)).trans hkey.symm)

theorem Step.fresh_unique (hv : v.Covered L) {r r' : R} (hr : Fresh L shown v v' r) (hr' : Fresh L shown v v' r') :
    r = r' := by
  cases h with
  | forget _ _ hheld => exact absurd rfl (hr.not_held hv (mem_of_le hheld hr.held))
  | write z _ _ _ _ _ hheld =>
    have hwritten : ∀ x, Fresh L shown v v' x → x = z := by
      intro x hx
      rcases mem_cons.mp (mem_of_le hheld hx.held) with rfl | hmem
      · rfl
      · exact absurd rfl (hx.not_held hv hmem)
    rw [hwritten r hr, hwritten r' hr']
  | adopt _ source _ _ hshown hstamp _ _ hheld =>
    rcases mem_cons.mp (mem_of_le hheld hr.held) with rfl | hmem
    · exact absurd hstamp.symm (hr.notShown source hshown)
    · exact absurd rfl (hr.not_held hv (mem_of_mem_filter hmem))

end

structure LocalRun (L : Labels Ω κ R) (v v' : Replica Ω R) : Prop where
  owner_eq : v'.owner = v.owner
  clock_le : v.clock ≤ v'.clock
  mem_held : ∀ r ∈ v'.held, r ∈ v.held ∨ (L.origin r = v.owner ∧ v.clock v.owner < L.sequence r)
  covered : v.Covered L → v'.Covered L
  distinct : v.Covered L → v.Distinct L → v'.Distinct L

theorem localRun (h : Relation.ReflTransGen (Step L ∅) v v') : LocalRun L v v' := by
  induction h with
  | refl => exact ⟨rfl, le_rfl, fun r hr => .inl hr, fun hc => hc, fun _ hd => hd⟩
  | tail _ hstep ih =>
    refine ⟨hstep.owner_eq.trans ih.owner_eq, ih.clock_le.trans hstep.clock_le, fun r hr => ?_,
      fun hc => hstep.covered (ih.covered hc), fun hc hd => ?_⟩
    · rcases hstep.mem_held hr with hmem | ⟨ho, hlt⟩ | ⟨_, hshown, -⟩
      · exact ih.mem_held r hmem
      · rw [ih.owner_eq] at ho hlt
        exact .inr ⟨ho, (ih.clock_le v.owner).trans_lt hlt⟩
      · exact absurd hshown (Set.notMem_empty _)
    · exact hstep.distinct (ih.covered hc) (ih.distinct hc hd) fun _ _ y hy => absurd hy (Set.notMem_empty y)

end Replica

structure Fleet (ι Ω R : Type) where
  replica : ι → Replica Ω R
  seen : Set R

namespace Fleet

variable (L : Labels Ω κ R) (owner : ι → Ω)

def advance [DecidableEq ι] (c : Fleet ι Ω R) (i : ι) (v : Replica Ω R) : Fleet ι Ω R where
  replica := Function.update c.replica i v
  seen := c.seen ∪ { r | r ∈ v.held }

def Step [DecidableEq ι] [DecidableEq κ] (c c' : Fleet ι Ω R) : Prop :=
  ∃ i v, Replica.Step L c.seen (c.replica i) v ∧ c' = c.advance i v

/-- What every state of a fleet satisfies: the owner of an origin has counted past every stamp of that
origin in circulation, and a stamp in circulation names one key. -/
structure Coherent (c : Fleet ι Ω R) : Prop where
  owner_eq : ∀ i, (c.replica i).owner = owner i
  minted : ∀ r ∈ c.seen, ∃ i, L.origin r = owner i ∧ 1 ≤ L.sequence r ∧ L.sequence r ≤ (c.replica i).clock (owner i)
  functional : ∀ r ∈ c.seen, ∀ r' ∈ c.seen, L.stamp r = L.stamp r' → L.key r = L.key r'
  held_seen : ∀ i, ∀ r ∈ (c.replica i).held, r ∈ c.seen
  covered : ∀ i, (c.replica i).Covered L
  distinct : ∀ i, (c.replica i).Distinct L

variable {L} {owner} {c c' : Fleet ι Ω R} {i : ι}

theorem Coherent.empty (hheld : ∀ i, (c.replica i).held = 0) (hseen : c.seen = ∅)
    (howner : ∀ i, (c.replica i).owner = owner i) : Coherent L owner c where
  owner_eq := howner
  minted := by simp [hseen]
  functional := by simp [hseen]
  held_seen i r hr := by simp [hheld i] at hr
  covered i r hr := by simp [hheld i] at hr
  distinct i := by simp [Replica.Distinct, hheld i]

theorem Coherent.new_stamp (hinj : Injective owner) (hc : Coherent L owner c) {r x : R}
    (horigin : L.origin r = (c.replica i).owner)
    (hfresh : (c.replica i).clock (c.replica i).owner < L.sequence r) (hx : x ∈ c.seen) :
    L.stamp x ≠ L.stamp r := by
  intro hstamp
  obtain ⟨ho, hs⟩ := Prod.mk.inj hstamp
  obtain ⟨j, hj, -, hle⟩ := hc.minted x hx
  rw [hc.owner_eq i] at horigin hfresh
  have hij : j = i := hinj (by rw [← hj, ho, horigin])
  subst j
  rw [hs] at hle
  exact absurd hle (Nat.not_le_of_lt hfresh)

variable [DecidableEq κ] {v : Replica Ω R}

theorem Coherent.mem_held (hc : Coherent L owner c)
    (hstep : Replica.Step L c.seen (c.replica i) v) {r : R} (hr : r ∈ c.seen ∨ r ∈ v.held) :
    (∃ x ∈ c.seen, L.stamp r = L.stamp x ∧ L.key r = L.key x) ∨
      (r ∈ v.held ∧ L.origin r = (c.replica i).owner ∧ (c.replica i).clock (c.replica i).owner < L.sequence r) := by
  rcases hr with hseen | hr
  · exact .inl ⟨r, hseen, rfl, rfl⟩
  rcases hstep.mem_held hr with hmem | hfresh | hshown
  · exact .inl ⟨r, hc.held_seen i r hmem, rfl, rfl⟩
  · exact .inr ⟨hr, hfresh⟩
  · exact .inl hshown

variable [DecidableEq ι]

omit [DecidableEq κ] in
theorem forall_advance {P : ι → Replica Ω R → Prop} (hv : P i v)
    (hc : ∀ j, P j (c.replica j)) (j : ι) : P j ((c.advance i v).replica j) := by
  change P j (update c.replica i v j)
  by_cases hij : j = i
  · subst hij
    rw [update_self]
    exact hv
  · rw [update_of_ne hij]
    exact hc j

theorem Coherent.step (hinj : Injective owner) (hc : Coherent L owner c) (h : Step L c c') : Coherent L owner c' := by
  obtain ⟨i, v, hstep, rfl⟩ := h
  have hclock : ∀ j, (c.replica j).clock ≤ ((c.advance i v).replica j).clock :=
    forall_advance (P := fun j w => (c.replica j).clock ≤ w.clock) hstep.clock_le fun j => le_rfl
  have hcovered : v.Covered L := hstep.covered (hc.covered i)
  have howner : v.owner = owner i := hstep.owner_eq.trans (hc.owner_eq i)
  refine ⟨forall_advance (P := fun j w => w.owner = owner j) howner hc.owner_eq, ?minted, ?functional, ?held,
    forall_advance (P := fun _ w => w.Covered L) hcovered hc.covered, ?distinct⟩
  case minted =>
    intro r hr
    rcases hc.mem_held hstep hr with ⟨x, hx, hstamp, -⟩ | ⟨hmem, ho, hlt⟩
    · obtain ⟨hxo, hxs⟩ := Prod.mk.inj hstamp
      obtain ⟨j, hj, hone, hle⟩ := hc.minted x hx
      exact ⟨j, hxo.trans hj, hxs ▸ hone, hxs ▸ hle.trans (hclock j _)⟩
    rw [hc.owner_eq i] at ho
    refine ⟨i, ho, Nat.one_le_of_lt hlt, ?_⟩
    have hle := hcovered r hmem
    rw [ho] at hle
    change _ ≤ (update c.replica i v i).clock (owner i)
    rwa [update_self]
  case functional =>
    intro r hr r' hr' hstamp
    rcases hc.mem_held hstep hr with ⟨x, hx, hxs, hxk⟩ | ⟨hmem, hfresh⟩ <;>
      rcases hc.mem_held hstep hr' with ⟨x', hx', hxs', hxk'⟩ | ⟨hmem', hfresh'⟩
    · rw [hxk, hxk']
      exact hc.functional x hx x' hx' (by rw [← hxs, ← hxs', hstamp])
    · exact absurd (hxs.symm.trans hstamp) (hc.new_stamp hinj hfresh'.1 hfresh'.2 hx)
    · exact absurd (hxs'.symm.trans hstamp.symm) (hc.new_stamp hinj hfresh.1 hfresh.2 hx')
    have hsame : r = r' := hstep.fresh_unique (hc.covered i)
      ⟨hmem, hfresh.1, hfresh.2, fun x hx => hc.new_stamp hinj hfresh.1 hfresh.2 hx⟩
      ⟨hmem', hfresh'.1, hfresh'.2, fun x hx => hc.new_stamp hinj hfresh'.1 hfresh'.2 hx⟩
    rw [hsame]
  case held =>
    refine forall_advance (P := fun _ w => ∀ r ∈ w.held, r ∈ (c.advance i v).seen) ?_ ?_
    · exact fun r hr => .inr hr
    · exact fun j r hr => .inl (hc.held_seen j r hr)
  case distinct =>
    refine forall_advance (P := fun _ w => w.Distinct L) ?_ hc.distinct
    exact hstep.distinct (hc.covered i) (hc.distinct i) fun x hx y hy => hc.functional x (hc.held_seen i x hx) y hy

theorem Coherent.run (hinj : Injective owner) (hc : Coherent L owner c)
    (h : Relation.ReflTransGen (Replica.Step L c.seen) (c.replica i) v) :
    ∃ c', Coherent L owner c' ∧ c'.replica = update c.replica i v ∧ c.seen ⊆ c'.seen := by
  induction h with
  | refl => exact ⟨c, hc, (update_eq_self i c.replica).symm, subset_rfl⟩
  | @tail v v' _ hstep ih =>
    obtain ⟨c', hc', hreplica, hseen⟩ := ih
    have hv : c'.replica i = v := by rw [hreplica, update_self]
    refine ⟨c'.advance i v', hc'.step hinj ⟨i, v', ?_, rfl⟩, ?_, hseen.trans Set.subset_union_left⟩
    · rw [hv]
      exact hstep.mono hseen
    · change update c'.replica i v' = _
      rw [hreplica, update_idem]

end Fleet

end Maistr0.Lib
