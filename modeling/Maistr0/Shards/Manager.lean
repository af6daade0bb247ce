import Maistr0.Shards.Stages

/-!
# The groups of the shard manager

All groups of one manager: a step is a step of one of them, in which the manager answers whether another group owns
the model or a member, the creation of a group, or a restart of the process. A model's name stands for what names that
are equal under `strings.EqualFold` have in common. A request that `Create` refuses as invalid changes nothing.
-/

namespace Maistr0.Shards

open Lib.Guarded List Shard

/-- The groups in the order of their creation, with the names of their models. -/
abbrev ShardManager := List (String × Shard)

def Shard.isPresent (s : Shard) : Bool := s.stage ≠ .gone

def Shard.operates (s : Shard) : Bool := s.stage ≠ .gone ∧ s.stage ≠ .idle ∧ s.stage ≠ .loaded

def Shard.isLive (s : Shard) : Bool := s.isPresent && s.group.state ≠ .failed

def ShardGroupMember.engine (x : ShardGroupMember) : String × String := (x.nodeID, x.engineID)

namespace ShardManager

def anyOther (m : ShardManager) (id : Nat) (p : String × Shard → Bool) : Bool := m.zipIdx.any fun x => x.2 ≠ id && p x.1

def owned (m : ShardManager) (id : Nat) (model : String) : Bool :=
  m.anyOther id fun x => x.2.isPresent && x.1 = model && (x.2.group.state ≠ .failed || x.2.operates)

/-- The conflict that `claimMembers` finds. -/
def claimed (m : ShardManager) (id : Nat) (members : List ShardGroupMember) : Bool :=
  m.anyOther id fun x => x.2.isPresent && x.2.group.state ≠ .stopped && x.2.group.members.any fun existing =>
    (x.2.group.state ≠ .failed || existing.started) && members.any fun member => member.engine = existing.engine

def answer (m : ShardManager) (id : Nat) (model : String) (s : Shard) : ShardInput → ShardInput
  | .proceed true => .proceed (s.stage ≠ .owning || !m.owned id model)
  | .claim members => if s.stage = .planning ∧ m.claimed id members then .proceed false else .claim members
  | i => i

end ShardManager

inductive ManagerInput
  | create (model : String)
  | group (id : Nat) (i : ShardInput)
  | restart

namespace ShardManager

def step (m : ShardManager) : ManagerInput → ShardManager
  | .create model => if m.owned m.length model then m else m ++ [(model, {})]
  | .group id i =>
    match m[id]? with
    | none => m
    | some (model, s) => m.set id (model, s.step (m.answer id model s i))
  | .restart => m.map fun x => (x.1, x.2.load)

def isFailed (m : ShardManager) (id : Nat) : Bool := (m[id]?.map fun x => decide (x.2.group.state = .failed)).getD true

/-- `GroupForModel`, with the order in which the map is read and the order of creation, update and ID. -/
def groupForModel (m : ShardManager) (newer : Nat → Nat → Bool) (model : String) (selected : Option Nat) (id : Nat) :
    Option Nat :=
  match m[id]? with
  | none => selected
  | some x =>
    if !x.2.isPresent || x.1 ≠ model then selected
    else
      match selected with
      | none => some id
      | some old =>
        if (m.isFailed old && !m.isFailed id) || (m.isFailed old == m.isFailed id && newer id old) then some id else selected

variable {x : String × Shard} {m : ShardManager}

theorem anyOther_eq_false {id : Nat} {p : String × Shard → Bool} (h : m.anyOther id p = false) {j : Nat}
    (hx : m[j]? = some x) (hne : j ≠ id) : p x = false := by
  unfold anyOther at h
  rw [any_eq_false] at h
  have hmem : (x, j) ∈ m.zipIdx := mk_mem_zipIdx_iff_getElem?.mpr hx
  simpa [hne] using h _ hmem

def Pairs (m : ShardManager) (R : String × Shard → String × Shard → Prop) : Prop :=
  ∀ (i j : Nat) (x y : String × Shard), m[i]? = some x → m[j]? = some y → i ≠ j → R x y

theorem Pairs.set {R : String × Shard → String × Shard → Prop} (hsymm : ∀ x y, R x y → R y x)
    (h : m.Pairs R) {id : Nat} {x' : String × Shard} (hnew : ∀ (j : Nat) y, m[j]? = some y → j ≠ id → R x' y) :
    Pairs (m.set id x') R := by
  intro i j x y hx hy hne
  rw [getElem?_set] at hx hy
  split at hx
  · subst_vars
    rw [if_neg hne] at hy
    split at hx
    · exact Option.some.inj hx ▸ hnew j y hy hne.symm
    · cases hx
  · split at hy
    · subst_vars
      split at hy
      · exact Option.some.inj hy ▸ hsymm _ _ (hnew i x hx hne)
      · cases hy
    · exact h i j x y hx hy hne

theorem Pairs.concat {R : String × Shard → String × Shard → Prop} (hsymm : ∀ x y, R x y → R y x)
    (h : m.Pairs R) {x' : String × Shard} (hnew : ∀ (j : Nat) y, m[j]? = some y → j ≠ m.length → R x' y) :
    Pairs (m ++ [x']) R := by
  have hcases {k : Nat} {x : String × Shard} (hx : (m ++ [x'])[k]? = some x) :
      m[k]? = some x ∧ k < m.length ∨ k = m.length ∧ x' = x := by
    rw [getElem?_append] at hx
    split at hx
    · exact .inl ⟨hx, by assumption⟩
    obtain ⟨hk, hx⟩ := List.getElem?_eq_some_iff.mp hx
    rw [length_singleton] at hk
    exact .inr ⟨by omega, by simpa using hx⟩
  intro i j x y hx hy hne
  rcases hcases hx with ⟨hx, hi⟩ | ⟨hi, rfl⟩
  · rcases hcases hy with ⟨hy, -⟩ | ⟨-, rfl⟩
    · exact h i j x y hx hy hne
    · exact hsymm _ _ (hnew i x hx (Nat.ne_of_lt hi))
  · rcases hcases hy with ⟨hy, hj⟩ | ⟨hj, -⟩
    · exact hnew j y hy (Nat.ne_of_lt hj)
    · exact absurd (hi.trans hj.symm) hne

theorem forall_step {P : Shard → Prop} (hstart : P {}) (hload : ∀ s, P s → P s.load)
    (hstep : ∀ s i, P s → P (s.step i)) (h : ∀ x ∈ m, P x.2) (i : ManagerInput) : ∀ x ∈ m.step i, P x.2 := by
  intro x hx
  cases i with
  | create =>
    dsimp only [step] at hx
    split at hx
    · exact h x hx
    rcases mem_append.mp hx with hx | hx
    · exact h x hx
    · rw [mem_singleton.mp hx]
      exact hstart
  | group id i =>
    dsimp only [step] at hx
    split at hx
    · exact h x hx
    rename_i hget
    rcases mem_or_eq_of_mem_set hx with hx | rfl
    · exact h x hx
    · exact hstep _ _ (h _ (mem_of_getElem? hget))
  | restart =>
    obtain ⟨y, hy, rfl⟩ := mem_map.mp hx
    exact hload _ (h y hy)

end ShardManager

/-! ### One live group for each model -/

variable {s : Shard} {m : ShardManager}

theorem Teardown.not_fits_failed (t : Teardown) (before : ShardGroupState) : ¬ t.Fits before .failed := by
  cases t <;> simp [Teardown.Fits]

theorem Shard.failed_proceed (hfits : s.Fits) (hfailed : s.group.state = .failed)
    (hlook : s.stage = .begun → s.call = .checkHealth) (ok : Bool) : (s.proceed ok).group.state = .failed := by
  unfold Shard.Fits at hfits
  rw [hfailed] at hfits
  cases hstage : s.stage with
  | idle | gone => simp only [proceed, hstage, hfailed]
  | loaded => simp [proceed, hstage, recover, hfailed]
  | begun => simp [proceed, hstage, Shard.look, hlook hstage, hfailed, Shard.goTo]
  | saving =>
    cases ok with
    | true => simpa [proceed, hstage] using hfailed
    | false => simpa [proceed, hstage, Shard.goTo] using hfailed
  | confirming | done => simpa [proceed, hstage, Shard.goTo] using hfailed
  | waiting t =>
    rw [hstage] at hfits
    exact absurd hfits.1 (t.not_fits_failed _)
  | stopping t _ _ | finishing t _ =>
    rw [hstage] at hfits
    exact absurd hfits (t.not_fits_failed _)
  | failing =>
    rw [hstage] at hfits
    exact absurd rfl hfits.1
  | launching =>
    rw [hstage] at hfits
    rcases hfits with h | h <;> cases h
  | completing | owning | replanning | planning | reserving | readying | unready =>
    rw [hstage] at hfits
    cases hfits

theorem Shard.gone_step (hgone : s.stage = .gone) (i : ShardInput) : (s.step i).stage = .gone := by
  cases i with
  | proceed => simp [Shard.step, proceed, hgone]
  | call | claim | notReady | skip | check | giveUp => simp [Shard.step, hgone]
  | take | recheck | release =>
    dsimp only [Shard.step]
    repeat' split
    all_goals exact hgone

theorem Shard.live_step (hfits : s.Fits) (i : ShardInput) (h : (s.step i).isLive = true)
    (hlook : ∀ ok, i = .proceed ok → s.group.state = .failed → s.stage = .begun → s.call = .checkHealth) :
    s.isLive = true := by
  simp only [isLive, isPresent, ne_eq, decide_not, Bool.and_eq_true, Bool.not_eq_true', decide_eq_false_iff_not] at h ⊢
  refine ⟨fun hgone => h.1 (gone_step hgone i), fun hfailed => h.2 ?_⟩
  cases i with
  | proceed ok => exact failed_proceed hfits hfailed (hlook ok rfl hfailed) ok
  | claim members =>
    dsimp only [Shard.step]
    split
    · rename_i hstage
      unfold Shard.Fits at hfits
      rw [hstage, hfailed] at hfits
      cases hfits
    · exact hfailed
  | call | notReady | skip | check | giveUp | take | recheck | release =>
    dsimp only [Shard.step]
    repeat' split
    all_goals exact hfailed

/-- A call looks at a failed group only if the model has no other live group, and the process starts again only when
what has failed or is gone was saved so. -/
def revivesAlone (m : ShardManager) : ManagerInput → Bool
  | .group id (.proceed _) =>
    match m[id]? with
    | none => true
    | some (model, s) =>
      s.stage ≠ .begun || s.group.state ≠ .failed || s.call = .checkHealth ||
        !m.anyOther id fun x => x.1 = model && x.2.isLive
  | .restart => m.all fun x => x.2.isLive || x.2.saved.all fun g => g.state = .failed
  | _ => true

def OneLive (x y : String × Shard) : Prop := x.1 = y.1 → ¬ (x.2.isLive = true ∧ y.2.isLive = true)

theorem oneLive_step (hfits : ∀ x ∈ m, x.2.Fits) (h : m.Pairs OneLive) (i : ManagerInput)
    (halone : revivesAlone m i = true) : (m.step i).Pairs OneLive := by
  have hsymm : ∀ x y, OneLive x y → OneLive y x := fun x y h hmodel hlive => h hmodel.symm hlive.symm
  cases i with
  | create model =>
    dsimp only [ShardManager.step]
    split
    · exact h
    rename_i hfree
    refine h.concat hsymm fun j y hy hne hmodel hlive => ?_
    have hother := ShardManager.anyOther_eq_false (Bool.not_eq_true _ ▸ hfree) hy hne
    have hy := hlive.2
    unfold isLive at hy
    simp_all
  | group id i =>
    dsimp only [ShardManager.step]
    split
    · exact h
    rename_i model s hget
    refine h.set hsymm fun j y hy hne hmodel hlive => ?_
    by_cases hs : s.isLive = true
    · exact h id j _ y hget hy hne.symm hmodel ⟨hs, hlive.2⟩
    refine hs (live_step (hfits _ (mem_of_getElem? hget)) _ hlive.1 fun ok hi hfailed hbegun => ?_)
    by_contra hcall
    cases i with
    | proceed =>
      simp only [revivesAlone, hget, hbegun, hfailed, hcall] at halone
      have hother := ShardManager.anyOther_eq_false (by simpa using halone) hy hne
      have hmodel : model = y.1 := hmodel
      simp [← hmodel, hlive.2] at hother
    | claim =>
      rw [ShardManager.answer, if_neg (by simp [hbegun])] at hi
      cases hi
    | _ => cases hi
  | restart =>
    intro i j x y hx hy hne hmodel hlive
    rw [ShardManager.step, getElem?_map] at hx hy
    obtain ⟨x', hx', rfl⟩ := Option.map_eq_some_iff.mp hx
    obtain ⟨y', hy', rfl⟩ := Option.map_eq_some_iff.mp hy
    have hbefore {z : String × Shard} (hz : z ∈ m) (h : z.2.load.isLive = true) : z.2.isLive = true := by
      have hall := all_eq_true.mp halone z hz
      rw [Bool.or_eq_true] at hall
      refine hall.resolve_right fun hsaved => ?_
      unfold Shard.load at h
      split at h
      · cases h
      · simp_all [isLive]
    exact h i j x' y' hx' hy' hne hmodel ⟨hbefore (mem_of_getElem? hx') hlive.1, hbefore (mem_of_getElem? hy') hlive.2⟩

theorem ShardManager.isFailed_eq {i : Nat} (hx : m[i]? = some x) :
    m.isFailed i = decide (x.2.group.state = .failed) := by
  simp [isFailed, hx]

theorem ShardManager.foldl_groupForModel (h : m.Pairs OneLive) {i : Nat} (hx : m[i]? = some x)
    (hlive : x.2.isLive = true) (newer : Nat → Nat → Bool) (order : List Nat) (selected : Option Nat)
    (hselected : selected = some i ∨ i ∈ order ∧ ∀ old, selected = some old → m.isFailed old = true) :
    order.foldl (m.groupForModel newer x.1) selected = some i := by
  induction order generalizing selected with
  | nil => exact hselected.resolve_right fun h => nomatch h.1
  | cons id order ih =>
    rw [foldl_cons]
    refine ih _ ?_
    have hx' := hlive
    simp only [isLive, ne_eq, decide_not, Bool.and_eq_true, Bool.not_eq_true', decide_eq_false_iff_not] at hx'
    have hfailed : m.isFailed i = false := by simp [isFailed_eq hx, hx'.2]
    -- the other groups of the model have failed
    have hothers {z : String × Shard} (hz : m[id]? = some z) (hpresent : z.2.isPresent = true) (hmodel : z.1 = x.1)
        (hne : id ≠ i) : m.isFailed id = true := by
      by_contra hnot
      refine h i id x z hx hz hne.symm hmodel.symm ⟨hlive, ?_⟩
      simpa [isLive, hpresent, isFailed_eq hz] using hnot
    have hlater (hne : id ≠ i) : selected = some i ∨ i ∈ order ∧ ∀ old, selected = some old → m.isFailed old = true :=
      hselected.imp_right fun h => ⟨(mem_cons.mp h.1).resolve_left hne.symm, h.2⟩
    unfold groupForModel
    by_cases hid : id = i
    · subst hid
      rw [hx]
      simp only [hx'.1, Bool.not_true, ne_eq, not_true_eq_false, decide_false, Bool.or_false, Bool.false_eq_true, if_false]
      split
      · exact .inl rfl
      rename_i old
      refine .inl ?_
      split
      · rfl
      rename_i hnot
      refine hselected.resolve_right fun h => hnot ?_
      simp [h.2 old rfl, hfailed]
    · split
      · exact hlater hid
      rename_i z hz
      split
      · exact hlater hid
      rename_i hrelevant
      simp only [Bool.or_eq_true, Bool.not_eq_true', decide_eq_true_eq, not_or, not_not, Bool.not_eq_false] at hrelevant
      have hz := hothers hz hrelevant.1 hrelevant.2 hid
      split
      · exact .inr ⟨((hlater hid).resolve_left nofun).1, by rintro _ ⟨⟩; exact hz⟩
      rename_i old
      rcases hlater hid with hold | ⟨hi, hold⟩
      · obtain rfl := Option.some.inj hold
        simp [hfailed, hz]
      refine .inr ⟨hi, ?_⟩
      split
      · rintro _ ⟨⟩
        exact hz
      · exact hold

def ofGroup (id : Nat) (inputs : List ShardInput) : List ManagerInput := inputs.map (.group id)

def failsToPlan : List ShardInput := List.replicate 7 (.proceed true)

end Maistr0.Shards
