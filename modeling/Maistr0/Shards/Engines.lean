import Maistr0.Shards.Manager

/-!
# The engines of the shard groups

A group keeps the engines that it has started, those it has claimed until they are started, and after a restart those
it may have started before. No two groups keep the same engine, unless what was saved has them both do so.
-/

namespace Maistr0.Shards

open Lib.Guarded List Shard

variable {s : Shard} {g : ShardGroup}

/-- The group keeps its members whether they are started or not. -/
def Stage.claims (state : ShardGroupState) : Stage → Bool
  | .saving ok fail => ok.claims state || fail.claims state
  | .reserving | .launching _ | .stopping .abandon _ _ => true
  | .loaded => state = .degraded
  | _ => false

def Shard.claims (s : Shard) : Bool := s.stage.claims s.group.state

def Shard.Keeps (s : Shard) (engine : String × String) : Prop :=
  s.isPresent = true ∧ ∃ x ∈ s.group.members, x.engine = engine ∧ (x.started = true ∨ s.claims = true)

def ShardGroup.Runs (g : ShardGroup) (i : Nat) : Prop := ∃ x, g.members[i]? = some x ∧ x.started = true

theorem ShardGroup.mem_startedMembers {i : Nat} : i ∈ g.startedMembers ↔ g.Runs i := by
  unfold startedMembers Runs
  simp only [mem_filter, mem_reverse, mem_range, beq_iff_eq, Option.map_eq_some_iff]
  refine ⟨fun h => h.2, fun h => ⟨?_, h⟩⟩
  obtain ⟨_, hx, -⟩ := h
  exact (List.getElem?_eq_some_iff.mp hx).1

theorem ShardGroup.nodup_startedMembers : g.startedMembers.Nodup :=
  (nodup_reverse.mpr nodup_range).filter _

theorem ShardGroup.runs_modify {i j : Nat} {started : Bool} {state : ShardGroupState} :
    ShardGroup.Runs { state, members := g.members.modify i ({ · with started }) } j ↔
      if i = j then started = true ∧ j < g.members.length else g.Runs j := by
  unfold Runs
  simp only [getElem?_modify]
  split
  · subst_vars
    simp only [Option.map_eq_map, Option.map_eq_some_iff]
    refine ⟨?_, fun h => ⟨_, ⟨_, getElem?_eq_getElem h.2, rfl⟩, h.1⟩⟩
    rintro ⟨-, ⟨_, hx, rfl⟩, hstarted⟩
    exact ⟨hstarted, (List.getElem?_eq_some_iff.mp hx).1⟩
  · simp

def ShardGroup.Sound (g : ShardGroup) : Prop := g.state = .stopped → ∀ i, ¬ g.Runs i

def Stage.Todo (g : ShardGroup) : Stage → Prop
  | .saving ok fail => ok.Todo g ∧ fail.Todo g
  | .stopping t todo failed =>
    todo.Nodup ∧ (t ≠ .abandon → ∀ i ∈ todo, g.Runs i) ∧ (failed = false → ∀ i, g.Runs i → i ∈ todo)
  | .finishing _ failed => failed = false → ∀ i, ¬ g.Runs i
  | _ => True

structure Tracks (s : Shard) : Prop where
  todo : s.stage.Todo s.group
  sound : s.group.Sound
  saved : ∀ g, s.saved = some g → g.Sound

namespace Tracks

theorem todo_startedMembers (t : Teardown) : (Stage.stopping t g.startedMembers false).Todo g :=
  ⟨ShardGroup.nodup_startedMembers, fun _ _ => ShardGroup.mem_startedMembers.mp,
    fun _ _ => ShardGroup.mem_startedMembers.mpr⟩

theorem look (h : Tracks s) (ok : Bool) : Tracks (s.look ok) := by
  have hlook := s.look_spec ok
  generalize s.look ok = s' at hlook ⊢
  cases hlook with
  | done | own | replan | wait => exact ⟨trivial, h.sound, h.saved⟩
  | degrade | stop | delete | close => exact ⟨⟨trivial, trivial⟩, nofun, h.saved⟩

theorem finish (h : Tracks s) (t : Teardown) (failed ok : Bool) (hnone : failed = false → ∀ i, ¬ s.group.Runs i) :
    Tracks (s.finish failed ok t) := by
  have hfailed (f : Option ShardFailure) : Tracks (s.setState .failed (.done f) (.done f)) :=
    ⟨⟨trivial, trivial⟩, nofun, h.saved⟩
  cases t with
  | stopGroup =>
    cases failed with
    | true => exact hfailed _
    | false =>
      refine ⟨⟨?_, trivial⟩, fun _ => hnone rfl, h.saved⟩
      unfold afterStop
      split
      all_goals trivial
  | delete =>
    cases failed with
    | true => exact hfailed _
    | false =>
      cases ok with
      | true => exact ⟨trivial, h.sound, nofun⟩
      | false => exact hfailed _
  | checkHealth =>
    refine ⟨trivial, h.sound, fun g hg => ?_⟩
    cases ok with
    | true =>
      obtain rfl := Option.some.inj hg
      exact nofun
    | false => exact h.saved g hg
  | close | failCreate => exact hfailed _
  | finishStop =>
    cases failed with
    | true => exact hfailed _
    | false => exact ⟨⟨trivial, trivial⟩, fun _ => hnone rfl, h.saved⟩
  | abandon => exact ⟨⟨trivial, trivial⟩, nofun, h.saved⟩

theorem stopMember (h : Tracks s) {t : Teardown} {i : Nat} {todo : List Nat} {failed : Bool}
    (htodo : (Stage.stopping t (i :: todo) failed).Todo s.group) :
    Tracks { s.setStarted i false (.stopping t todo failed) (.stopping t todo true) with sent := true } := by
  obtain ⟨hnodup, hruns, hall⟩ := htodo
  rw [nodup_cons] at hnodup
  have hkept (ht : t ≠ .abandon) (j : Nat) (hj : j ∈ todo) : (s.setStarted i false .idle .idle).group.Runs j := by
    refine ShardGroup.runs_modify.mpr ?_
    rw [if_neg fun hij : i = j => hnodup.1 (hij ▸ hj)]
    exact hruns ht j (mem_cons_of_mem _ hj)
  have hold {j : Nat} (hj : (s.setStarted i false .idle .idle).group.Runs j) : i ≠ j ∧ s.group.Runs j := by
    have hj := ShardGroup.runs_modify.mp hj
    split at hj
    · cases hj.1
    · exact ⟨by assumption, hj⟩
  refine ⟨⟨⟨hnodup.2, hkept, fun hf j hj => ?_⟩, hnodup.2, hkept, nofun⟩, fun hs j hj => h.sound hs j (hold hj).2, h.saved⟩
  exact (mem_cons.mp (hall hf j (hold hj).2)).resolve_left (hold hj).1.symm

theorem proceed (hfits : s.Fits) (h : Tracks s) (ok : Bool) : Tracks (s.proceed ok) := by
  have htodo := h.todo
  unfold Shard.Fits at hfits
  unfold Shard.proceed
  split
  all_goals rename_i hstage; rw [hstage] at htodo hfits
  · exact h
  · exact h
  · unfold recover
    repeat' split
    · exact ⟨trivial, h.sound, h.saved⟩
    · exact ⟨todo_startedMembers _, h.sound, h.saved⟩
    · exact ⟨trivial, h.sound, h.saved⟩
    refine ⟨⟨nodup_reverse.mpr nodup_range, absurd rfl, fun _ i hi => ?_⟩, h.sound, h.saved⟩
    obtain ⟨_, hx, -⟩ := hi
    exact mem_reverse.mpr (mem_range.mpr (List.getElem?_eq_some_iff.mp hx).1)
  · exact h.look ok
  · split
    · refine ⟨htodo.1, h.sound, fun g hg => ?_⟩
      exact Option.some.inj hg ▸ h.sound
    · exact ⟨htodo.2, h.sound, h.saved⟩
  · rename_i t
    split
    · cases t with
      | stopGroup => exact ⟨⟨trivial, trivial⟩, fun hs => absurd hs hfits.1.2, h.saved⟩
      | close => exact ⟨todo_startedMembers _, h.sound, h.saved⟩
      | _ => exact ⟨trivial, h.sound, h.saved⟩
    · split
      · exact h
      · exact ⟨todo_startedMembers t, h.sound, h.saved⟩
  · have hnone := fun hf i hi => (nomatch htodo.2.2 hf i hi : False)
    unfold releaseReservation
    repeat' split
    all_goals exact ⟨hnone, h.sound, h.saved⟩
  · split
    · exact h.stopMember htodo
    rename_i t i todo failed _
    have hnodup := (nodup_cons.mp htodo.1).2
    exact ⟨⟨hnodup, fun ht j hj => htodo.2.1 ht j (mem_cons_of_mem _ hj), nofun⟩, h.sound, h.saved⟩
  · exact h.finish _ _ ok htodo
  · exact ⟨trivial, nofun, h.saved⟩
  · split
    · exact ⟨⟨trivial, trivial⟩, nofun, h.saved⟩
    · exact ⟨trivial, h.sound, h.saved⟩
  · exact ⟨⟨trivial, trivial⟩, nofun, h.saved⟩
  · exact ⟨trivial, h.sound, h.saved⟩
  · exact ⟨todo_startedMembers _, h.sound, h.saved⟩
  · split
    all_goals exact ⟨trivial, h.sound, h.saved⟩
  · have hstate : s.group.state ≠ .stopped := by rcases hfits with h | h <;> simp [h]
    unfold launch
    repeat' split
    · exact ⟨⟨trivial, trivial⟩, nofun, h.saved⟩
    · exact ⟨trivial, h.sound, h.saved⟩
    · exact ⟨⟨trivial, trivial⟩, nofun, h.saved⟩
    · exact ⟨⟨trivial, trivial⟩, fun hs => absurd hs hstate, h.saved⟩
  · exact ⟨⟨trivial, trivial⟩, nofun, h.saved⟩
  · exact ⟨trivial, h.sound, h.saved⟩
  · unfold releaseReservation
    split
    all_goals exact ⟨trivial, h.sound, h.saved⟩
  · exact ⟨trivial, h.sound, h.saved⟩

theorem step (hfits : s.Fits) (h : Tracks s) (i : ShardInput) : Tracks (s.step i) := by
  cases i with
  | proceed ok => exact h.proceed hfits ok
  | claim =>
    dsimp only [Shard.step]
    split
    · exact ⟨⟨trivial, trivial⟩, nofun, h.saved⟩
    · exact h
  | notReady =>
    dsimp only [Shard.step]
    split
    · rename_i hstage
      unfold Shard.Fits at hfits
      rw [hstage] at hfits
      have hstate : s.group.state ≠ .stopped := by rcases hfits with h | h <;> simp [h]
      split
      · exact h
      · exact ⟨⟨trivial, trivial⟩, fun hs => absurd hs hstate, h.saved⟩
    · exact h
  | call | skip =>
    dsimp only [Shard.step]
    split
    · exact ⟨trivial, h.sound, h.saved⟩
    · exact h
  | check | giveUp | take | recheck | release =>
    dsimp only [Shard.step]
    repeat' split
    all_goals exact ⟨h.todo, h.sound, h.saved⟩

theorem load (h : Tracks s) : Tracks s.load := by
  unfold Shard.load
  split
  · exact ⟨trivial, nofun, nofun⟩
  rename_i g hg
  refine ⟨trivial, fun hs => h.saved g hg ?_, fun g' hg' => Option.some.inj hg' ▸ h.saved g hg⟩
  split at hs
  · exact hs
  · cases hs

end Tracks

/-! ### What a group keeps -/

theorem Shard.claims_proceed (hfits : s.Fits) (ok : Bool) (h : (s.proceed ok).claims = true) : s.claims = true := by
  unfold Shard.Fits at hfits
  unfold claims
  unfold proceed at h
  split at h
  all_goals rename_i hstage; rw [hstage] at hfits ⊢
  · rw [← hstage]; exact h
  · rw [← hstage]; exact h
  · unfold recover at h
    split at h
    · cases h
    rename_i hknown
    push Not at hknown
    exact decide_eq_true (hfits.resolve_right fun h => h.elim hknown.2.1 hknown.2.2)
  · have hlook := s.look_spec ok
    generalize s.look ok = s' at hlook h
    cases hlook <;> cases h
  · cases ok with
    | true => exact Bool.or_eq_true_iff.mpr (.inl h)
    | false => exact Bool.or_eq_true_iff.mpr (.inr h)
  · rename_i t
    split at h
    · cases t <;> cases h
    split at h
    · rw [← hstage]; exact h
    cases t with
    | abandon => exact absurd rfl hfits.2.2
    | _ => cases h
  · split at h
    · cases h
    · unfold releaseReservation at h
      split at h <;> cases h
  · rename_i t _ _ _
    cases t with
    | abandon => rfl
    | _ => cases ok <;> cases h
  · rename_i t failed
    cases t <;> cases failed <;> cases ok <;> first | cases h | skip
    all_goals (unfold finish afterStop at h; simp only [Bool.false_eq_true, if_false] at h; split at h <;> cases h)
  · cases h
  · split at h <;> cases h
  · cases h
  · cases h
  · cases h
  · rfl
  · rfl
  · cases h
  · cases h
  · unfold releaseReservation at h
    split at h <;> cases h
  · cases h

theorem Shard.members_proceed (s : Shard) (ok : Bool) : (s.proceed ok).group.members = s.group.members ∨
    ∃ i started, (s.proceed ok).group.members = s.group.members.modify i ({ · with started }) ∧
      (started = true → s.claims = true) := by
  unfold proceed
  split
  all_goals try exact .inl rfl
  · unfold recover
    repeat' split
    all_goals exact .inl rfl
  · unfold Shard.look
    repeat' split
    all_goals exact .inl rfl
  · split
    all_goals exact .inl rfl
  · unfold cancel
    repeat' split
    all_goals exact .inl rfl
  · unfold releaseReservation
    repeat' split
    all_goals exact .inl rfl
  · split
    · exact .inr ⟨_, false, rfl, nofun⟩
    · exact .inl rfl
  · unfold finish
    repeat' split
    all_goals exact .inl rfl
  · split
    all_goals exact .inl rfl
  · split
    all_goals exact .inl rfl
  · rename_i hstage
    unfold launch
    repeat' split
    · exact .inl rfl
    · exact .inl rfl
    · exact .inl rfl
    · exact .inr ⟨_, true, rfl, fun _ => by simp [claims, hstage, Stage.claims]⟩
  · unfold releaseReservation
    split
    all_goals exact .inl rfl

theorem Shard.keeps_step (hfits : s.Fits) (i : ShardInput) (hclaim : ∀ members, i = .claim members → s.stage ≠ .planning)
    {engine : String × String} (h : (s.step i).Keeps engine) : s.Keeps engine := by
  obtain ⟨hpresent, y, hy, rfl, hheld⟩ := h
  refine ⟨?_, ?_⟩
  · by_contra hgone
    have hgone : s.stage = .gone := by simpa [isPresent] using hgone
    simp [isPresent, gone_step hgone i] at hpresent
  have hmembers : (s.step i).group.members = s.group.members ∨
      ∃ j started, (s.step i).group.members = s.group.members.modify j ({ · with started }) ∧
        (started = true → s.claims = true) := by
    cases i with
    | proceed ok => exact s.members_proceed ok
    | claim members =>
      dsimp only [Shard.step]
      rw [if_neg (hclaim members rfl)]
      exact .inl rfl
    | notReady =>
      dsimp only [Shard.step]
      repeat' split
      · exact .inl rfl
      · exact .inr ⟨_, true, rfl, fun _ => by simp [claims, *, Stage.claims]⟩
      · exact .inl rfl
    | call | skip | check | giveUp | take | recheck | release =>
      dsimp only [Shard.step]
      repeat' split
      all_goals exact .inl rfl
  have hclaims (h : (s.step i).claims = true) : s.claims = true := by
    cases i with
    | proceed ok => exact claims_proceed hfits ok h
    | claim members =>
      dsimp only [Shard.step] at h
      rw [if_neg (hclaim members rfl)] at h
      exact h
    | notReady =>
      dsimp only [Shard.step] at h
      repeat' split at h
      · exact h
      · cases h
      · exact h
    | call | skip =>
      dsimp only [Shard.step] at h
      split at h
      · cases h
      · exact h
    | check | giveUp | take | recheck | release =>
      dsimp only [Shard.step] at h
      repeat' split at h
      all_goals exact h
  rcases hmembers with heq | ⟨j, started, heq, hstarted⟩
  · exact ⟨y, heq ▸ hy, rfl, hheld.imp_right hclaims⟩
  rw [heq] at hy
  obtain ⟨_, hk⟩ := mem_iff_getElem?.mp hy
  rw [getElem?_modify] at hk
  split at hk
  · obtain ⟨x, hx, rfl⟩ := Option.map_eq_some_iff.mp hk
    exact ⟨x, mem_of_getElem? hx, rfl, .inr (hheld.elim hstarted hclaims)⟩
  · exact ⟨y, mem_of_getElem? (by simpa using hk), rfl, hheld.imp_right hclaims⟩

def ShardGroup.keeps (g : ShardGroup) (x : ShardGroupMember) : Bool :=
  x.started || (g.state ≠ .failed && g.state ≠ .stopped)

/-- The process starts again only when no two saved groups keep an engine: those that a group lists as started, and
all that it lists unless it is failed or stopped. -/
def savedApart (m : ShardManager) : ManagerInput → Bool
  | .restart => m.zipIdx.all fun x => !m.anyOther x.2 fun y => x.1.2.saved.any fun g => y.2.saved.any fun h =>
      g.members.any fun a => h.members.any fun b => a.engine = b.engine && g.keeps a && h.keeps b
  | _ => true

def Apart (x y : String × Shard) : Prop := ∀ engine, ¬ (x.2.Keeps engine ∧ y.2.Keeps engine)

theorem Shard.Keeps.load {engine : String × String} (h : s.load.Keeps engine) :
    ∃ g, s.saved = some g ∧ ∃ x ∈ g.members, x.engine = engine ∧ g.keeps x = true := by
  obtain ⟨hpresent, x, hx, hengine, hheld⟩ := h
  unfold Shard.load at hpresent hx hheld
  split at hx
  · cases hx
  rename_i g hg
  refine ⟨g, hg, x, hx, hengine, ?_⟩
  rw [ShardGroup.keeps, Bool.or_eq_true]
  refine hheld.imp_right fun h => ?_
  rw [hg] at h
  have h : (if g.state = .failed ∨ g.state = .stopped then g.state else ShardGroupState.degraded) = .degraded :=
    of_decide_eq_true h
  split at h
  · rename_i hstate
    rw [h] at hstate
    rcases hstate with hstate | hstate <;> cases hstate
  · rename_i hstate
    simpa [not_or] using hstate

theorem Stage.live_of_claims {stage : Stage} {before state : ShardGroupState} (hfits : stage.Fits before state)
    (h : stage.claims state = true) : state ≠ .failed ∧ state ≠ .stopped := by
  induction stage with
  | saving _ _ ihok ihfail =>
    rcases Bool.or_eq_true_iff.mp h with h | h
    · exact ihok hfits.1 h
    · exact ihfail hfits.2 h
  | reserving =>
    obtain rfl : state = .startingWorkers := hfits
    exact ⟨nofun, nofun⟩
  | launching => rcases hfits with rfl | rfl <;> exact ⟨nofun, nofun⟩
  | stopping t =>
    cases t with
    | abandon =>
      obtain rfl : state = .degraded := hfits
      exact ⟨nofun, nofun⟩
    | _ => cases h
  | loaded =>
    obtain rfl : state = .degraded := of_decide_eq_true h
    exact ⟨nofun, nofun⟩
  | _ => cases h

theorem apart_step {m : ShardManager} (hm : ∀ x ∈ m, x.2.Fits ∧ Tracks x.2) (h : m.Pairs Apart) (i : ManagerInput)
    (hsaved : savedApart m i = true) : (m.step i).Pairs Apart := by
  have hsymm : ∀ x y, Apart x y → Apart y x := fun x y h engine hboth => h engine hboth.symm
  cases i with
  | create =>
    dsimp only [ShardManager.step]
    split
    · exact h
    refine h.concat hsymm fun j y _ _ engine hboth => ?_
    obtain ⟨-, x, hx, -⟩ := hboth.1
    cases hx
  | group id i =>
    dsimp only [ShardManager.step]
    split
    · exact h
    rename_i model s hget
    refine h.set hsymm fun j y hy hne engine hboth => ?_
    have hs := hm _ (mem_of_getElem? hget)
    by_cases hclaim : ∀ members, m.answer id model s i = .claim members → s.stage ≠ .planning
    · exact h id j _ y hget hy hne.symm engine ⟨keeps_step hs.1 _ hclaim hboth.1, hboth.2⟩
    -- the group claims its members, which are not those of a group that keeps them
    push Not at hclaim
    obtain ⟨members, hanswer, hplanning⟩ := hclaim
    obtain ⟨⟨-, x, hx, rfl, -⟩, hpresent, z, hz, hengine, hkept⟩ := hboth
    have hfree : m.claimed id members = false := by
      cases i with
      | claim =>
        dsimp only [ShardManager.answer] at hanswer
        split at hanswer
        · cases hanswer
        · cases hanswer
          simpa [hplanning] using (by assumption : ¬ (s.stage = .planning ∧ m.claimed id members = true))
      | proceed ok => cases ok <;> cases hanswer
      | _ => cases hanswer
    rw [hanswer] at hx
    simp only [Shard.step, hplanning, if_true, mem_map] at hx
    obtain ⟨x, hx, rfl⟩ := hx
    have hother := ShardManager.anyOther_eq_false hfree hy hne
    have hy := hm y (mem_of_getElem? hy)
    have hengine : x.engine = z.engine := hengine.symm
    have hconflict (hstate : y.2.group.state ≠ .stopped) (hheld : y.2.group.state ≠ .failed ∨ z.started = true) : False := by
      refine Bool.false_ne_true (hother.symm.trans ?_)
      simp only [hpresent, ne_eq, hstate, not_false_eq_true, decide_true, Bool.and_true, Bool.true_and, any_eq_true]
      exact ⟨z, hz, by simpa using ⟨hheld, x, hx, hengine⟩⟩
    by_cases hstopped : y.2.group.state = .stopped
    · rcases hkept with hstarted | hclaims
      · obtain ⟨k, hk⟩ := mem_iff_getElem?.mp hz
        exact hy.2.sound hstopped k ⟨z, hk, hstarted⟩
      · exact (Stage.live_of_claims hy.1 hclaims).2 hstopped
    · exact hconflict hstopped (hkept.symm.imp_left fun hclaims => (Stage.live_of_claims hy.1 hclaims).1)
  | restart =>
    intro i j x y hx hy hne engine hboth
    rw [ShardManager.step, getElem?_map] at hx hy
    obtain ⟨_, hx', rfl⟩ := Option.map_eq_some_iff.mp hx
    obtain ⟨_, hy', rfl⟩ := Option.map_eq_some_iff.mp hy
    obtain ⟨_, hg, a, ha, rfl, hka⟩ := hboth.1.load
    obtain ⟨_, hk, b, hb, hengine, hkb⟩ := hboth.2.load
    have hall := all_eq_true.mp hsaved _ (mk_mem_zipIdx_iff_getElem?.mpr hx')
    have hother := ShardManager.anyOther_eq_false (by simpa using hall) hy' hne.symm
    simp only [hg, hk, Option.any_some, any_eq_false] at hother
    refine hother a ha (any_eq_true.mpr ⟨b, hb, ?_⟩)
    simp [hengine, hka, hkb]

end Maistr0.Shards
