import Maistr0.Shards.Group

/-!
# What an operation on a shard group leaves behind

Where the operation is determines the state of the group, up to the few states in which it may be there. From this
come what a failed call leaves behind, and that requests and teardowns exclude each other.
-/

namespace Maistr0.Shards

open Lib.Guarded

variable {s : Shard}

def Teardown.Fits (before state : ShardGroupState) : Teardown → Prop
  | .stopGroup => state = .stopping ∧ before ≠ .stopped
  | .delete | .close => state = .stopping
  | .checkHealth | .finishStop | .abandon => state = .degraded
  | .failCreate _ => state ≠ .failed ∧ state ≠ .stopped

def Stage.Fits (before state : ShardGroupState) : Stage → Prop
  | .idle | .gone | .done _ => True
  | .loaded => state = .degraded ∨ state = .failed ∨ state = .stopped
  | .begun => state = before
  | .saving ok fail => ok.Fits before state ∧ fail.Fits before state
  | .waiting t => t.Fits before state ∧ state ≠ .ready ∧ t ≠ .abandon
  | .stopping t _ _ | .finishing t _ => t.Fits before state
  | .completing | .readying => state = .degraded
  | .owning | .replanning => state = .stopped
  | .planning => state = .planning
  | .failing _ => state ≠ .failed ∧ state ≠ .stopped
  | .reserving => state = .startingWorkers
  | .launching _ => state = .startingWorkers ∨ state = .startingHead
  | .confirming => state = .ready ∨ state = .failed
  | .unready => state = .ready

def Shard.Fits (s : Shard) : Prop := s.stage.Fits s.before s.group.state

inductive Look (s : Shard) : Shard → Prop
  | done (failure : Option ShardFailure) (h : failure = none ∨ failure = some .other) : Look s (s.goTo (.done failure))
  | degrade (hcall : s.call = .checkHealth) : Look s (s.setState .degraded (.done none) (.done (some .other)))
  | own (h : s.group.state = .stopped) : Look s (s.goTo .owning)
  | replan (hcall : s.call = .reconfigure) (h : s.group.state = .stopped) : Look s (s.goTo .replanning)
  | wait (hcall : s.call = .checkHealth) (h : s.group.state = .degraded) : Look s (s.goTo (.waiting .checkHealth))
  | stop (hcall : s.call ≠ .delete) (h : s.group.state ≠ .stopped) :
      Look s (s.setState .stopping (.waiting .stopGroup) (.done (some .stopping)))
  | delete (hcall : s.call = .delete) : Look s (s.setState .stopping (.waiting .delete) (.done (some .stopping)))
  | close (hcall : s.call = .close) : Look s (s.setState .stopping (.waiting .close) (.waiting .close))

theorem Shard.look_spec (s : Shard) (ok : Bool) : Look s (s.look ok) := by
  have hstop (hcall : s.call = .reconfigure) (h : s.group.state ≠ .stopped) : Look s
      (if ok then s.setState .stopping (.waiting .stopGroup) (.done (some .stopping)) else s.goTo (.done (some .other))) := by
    split
    · exact .stop (by simp [hcall]) h
    · exact .done _ (.inr rfl)
  unfold Shard.look
  split
  · split
    · exact .done _ (.inl rfl)
    · exact .degrade (by assumption)
  · exact .wait (by assumption) (by assumption)
  · exact .done _ (.inl rfl)
  · exact .done _ (.inl rfl)
  · exact .done _ (.inl rfl)
  · exact .own (by assumption)
  · exact .own (by assumption)
  · exact .stop (by simp [*]) (by simp [*])
  · exact .stop (by simp [*]) (by assumption)
  · exact .stop (by simp [*]) (by assumption)
  · split
    · exact .replan (by assumption) (by assumption)
    · exact .done _ (.inr rfl)
  · exact hstop (by assumption) (by simp [*])
  · exact hstop (by assumption) (by simp [*])
  · exact hstop (by assumption) (by simp [*])
  · exact .done _ (.inr rfl)
  · exact .done _ (.inr rfl)
  · exact .done _ (.inr rfl)
  · exact .delete (by assumption)
  · exact .close (by assumption)

namespace Shard.Fits

theorem afterStop (s : Shard) (before : ShardGroupState) : s.afterStop.Fits before .stopped := by
  unfold Shard.afterStop
  split
  · exact rfl
  · exact rfl
  · exact rfl
  · trivial

theorem look (hbegun : s.group.state = s.before) (ok : Bool) : (s.look ok).Fits := by
  have hlook := s.look_spec ok
  generalize s.look ok = s' at hlook ⊢
  cases hlook with
  | done => trivial
  | degrade => exact ⟨trivial, trivial⟩
  | own h | replan _ h => exact h
  | wait _ h => exact ⟨h, fun hready => (nomatch h.symm.trans hready), nofun⟩
  | stop _ h => exact ⟨⟨⟨rfl, hbegun ▸ h⟩, nofun, nofun⟩, trivial⟩
  | delete => exact ⟨⟨rfl, nofun, nofun⟩, trivial⟩
  | close => exact ⟨⟨rfl, nofun, nofun⟩, ⟨rfl, nofun, nofun⟩⟩

theorem recover (h : s.group.state = .degraded ∨ s.group.state = .failed ∨ s.group.state = .stopped) (ok : Bool) :
    (s.recover ok).Fits := by
  unfold Shard.recover
  split
  · trivial
  rename_i hknown
  push Not at hknown
  have hdegraded := h.resolve_right fun h => h.elim hknown.2.1 hknown.2.2
  split
  · exact hdegraded
  split
  · exact hdegraded
  · exact hdegraded

theorem finish (t : Teardown) (h : t.Fits s.before s.group.state) (failed ok : Bool) : (s.finish failed ok t).Fits := by
  cases t with
  | stopGroup =>
    cases failed with
    | true => exact ⟨trivial, trivial⟩
    | false => exact ⟨afterStop s s.before, trivial⟩
  | delete =>
    cases failed with
    | true => exact ⟨trivial, trivial⟩
    | false =>
      cases ok with
      | true => trivial
      | false => exact ⟨trivial, trivial⟩
  | checkHealth => exact h
  | close | failCreate => exact ⟨trivial, trivial⟩
  | finishStop =>
    cases failed with
    | true | false => exact ⟨trivial, trivial⟩
  | abandon => exact ⟨.inr rfl, trivial⟩

theorem launch (h : s.group.state = .startingWorkers ∨ s.group.state = .startingHead) (i : Nat) (ok : Bool) :
    (s.launch i ok).Fits := by
  have hlive : s.group.state ≠ .failed ∧ s.group.state ≠ .stopped := by
    rcases h with h | h <;> simp [h]
  unfold Shard.launch
  split
  · exact ⟨.inl rfl, nofun, nofun⟩
  split
  · exact hlive
  split
  · exact ⟨.inr rfl, nofun, nofun⟩
  · exact ⟨h, hlive⟩

theorem proceed (h : s.Fits) (ok : Bool) : (s.proceed ok).Fits := by
  have hs := h
  unfold Shard.Fits at h
  unfold Shard.proceed
  split
  all_goals rename_i hstage; rw [hstage] at h
  · exact hs
  · exact hs
  · exact recover h ok
  · exact look h ok
  · split
    · exact h.1
    · exact h.2
  · split
    · unfold Shard.cancel
      split
      · exact ⟨trivial, trivial⟩
      · exact h.1
      · trivial
    · split
      · exact hs
      · exact h.1
  · split
    · exact h
    unfold Shard.releaseReservation
    split
    · exact h
    · exact h
  · split
    · exact ⟨h, h⟩
    · exact h
  · exact finish _ h _ ok
  · trivial
  · split
    · exact ⟨rfl, nofun, nofun⟩
    · trivial
  · exact ⟨rfl, trivial⟩
  · have h : s.group.state = .planning := h
    exact ⟨h ▸ nofun, h ▸ nofun⟩
  · exact h
  · have h : s.group.state = .startingWorkers := h
    split
    · exact .inl h
    · exact ⟨h ▸ nofun, h ▸ nofun⟩
  · exact launch h _ ok
  · exact ⟨.inl rfl, rfl⟩
  · trivial
  · trivial
  · trivial

theorem step (h : s.Fits) (i : ShardInput) : (s.step i).Fits := by
  cases i with
  | call =>
    dsimp only [Shard.step]
    split
    · exact rfl
    · exact h
  | proceed ok => exact h.proceed ok
  | claim =>
    dsimp only [Shard.step]
    split
    · exact ⟨rfl, nofun, nofun⟩
    · exact h
  | notReady =>
    dsimp only [Shard.step]
    split
    · rename_i hstage
      split
      · exact h
      unfold Shard.Fits at h
      rw [hstage] at h
      have hlive : s.group.state ≠ .failed ∧ s.group.state ≠ .stopped := by
        rcases h with h | h <;> simp [h]
      exact ⟨hlive, hlive⟩
    · exact h
  | skip =>
    dsimp only [Shard.step]
    split
    · trivial
    · exact h
  | check | take | release =>
    dsimp only [Shard.step]
    split
    · exact h
    · exact h
  | giveUp => exact h
  | recheck =>
    dsimp only [Shard.step]
    split
    · exact h
    split
    · exact h
    · exact h

theorem load (s : Shard) : s.load.Fits := by
  unfold Shard.load
  split
  · trivial
  rename_i g _
  split
  · right
    assumption
  · exact .inl rfl

end Shard.Fits

/-! ### Failed calls -/

def Teardown.Known : Teardown → Prop
  | .failCreate cause => cause = .save ∨ cause = .other
  | _ => True

def Stage.Leaves (call : ShardCall) (before state : ShardGroupState) : Stage → Prop
  | .done (some .cancelled) => state = if call = .delete then .stopping else before
  | .done (some .stopping) => state = .stopping
  | .done (some .stopped) => state = .stopped ∧ before ≠ .stopped
  | .done (some .save) => call = .reconfigure ∨ state = .failed
  | .saving ok fail => ok.Leaves call before state ∧ fail.Leaves call before state
  | .waiting .stopGroup => call ≠ .delete
  | .waiting .delete => call = .delete ∧ state = .stopping
  | .waiting .checkHealth => call ≠ .delete ∧ state = before
  | .waiting .close | .idle | .begun => True
  | .waiting _ => False
  | .failing cause => cause = .save ∨ cause = .other
  | .stopping t _ _ | .finishing t _ => t.Known
  | .replanning => call = .reconfigure
  | _ => True

def Shard.Leaves (s : Shard) : Prop := s.stage.Leaves s.call s.before s.group.state

namespace Shard.Leaves

theorem look (hbegun : s.group.state = s.before) (ok : Bool) : (s.look ok).Leaves := by
  have hlook := s.look_spec ok
  generalize s.look ok = s' at hlook ⊢
  cases hlook with
  | done _ h =>
    rcases h with rfl | rfl
    · trivial
    · trivial
  | degrade | close => exact ⟨trivial, trivial⟩
  | own => trivial
  | replan hcall => exact hcall
  | wait hcall => exact ⟨fun h => (nomatch hcall.symm.trans h), hbegun⟩
  | stop hcall => exact ⟨hcall, rfl⟩
  | delete hcall => exact ⟨⟨hcall, rfl⟩, rfl⟩

theorem cancel (t : Teardown) (h : (Stage.waiting t).Leaves s.call s.before s.group.state) : (s.cancel t).Leaves := by
  cases t with
  | stopGroup => exact ⟨(if_neg h).symm, (if_neg h).symm⟩
  | delete => exact h.2.trans (if_pos h.1).symm
  | checkHealth => exact h.2.trans (if_neg h.1).symm
  | close => trivial
  | failCreate | finishStop | abandon => exact h.elim

theorem finish (t : Teardown) (hfits : t.Fits s.before s.group.state) (failed ok : Bool)
    (h : t.Known) : (s.finish failed ok t).Leaves := by
  cases t with
  | stopGroup =>
    cases failed with
    | true => exact ⟨trivial, trivial⟩
    | false =>
      refine ⟨?_, rfl, hfits.2⟩
      unfold Shard.afterStop
      split
      · trivial
      · trivial
      · assumption
      · trivial
  | delete =>
    cases failed with
    | true => exact ⟨trivial, trivial⟩
    | false =>
      cases ok with
      | true => trivial
      | false => exact ⟨.inr rfl, .inr rfl⟩
  | failCreate =>
    rcases h with rfl | rfl
    · exact ⟨.inr rfl, .inr rfl⟩
    · exact ⟨trivial, trivial⟩
  | checkHealth => trivial
  | finishStop =>
    cases failed with
    | true | false => exact ⟨trivial, trivial⟩
  | close | abandon => exact ⟨trivial, trivial⟩

theorem proceed (hfits : s.Fits) (h : s.Leaves) (ok : Bool) : (s.proceed ok).Leaves := by
  have hs := h
  unfold Shard.Leaves at h
  unfold Shard.Fits at hfits
  unfold Shard.proceed
  split
  all_goals rename_i hstage; rw [hstage] at h hfits
  · exact hs
  · exact hs
  · unfold Shard.recover
    repeat' split
    all_goals trivial
  · exact look hfits ok
  · split
    · exact h.1
    · exact h.2
  · rename_i t
    split
    · exact cancel t h
    split
    · exact hs
    cases t with
    | stopGroup | delete | checkHealth | close => trivial
    | failCreate | finishStop | abandon => exact h.elim
  · split
    · exact h
    unfold Shard.releaseReservation
    split
    · exact h
    · exact h
  · split
    · exact ⟨h, h⟩
    · exact h
  · exact finish _ hfits _ ok h
  · trivial
  · split
    · exact ⟨trivial, .inl rfl⟩
    · trivial
  · exact ⟨trivial, .inl h⟩
  · exact .inr rfl
  · exact h
  · split
    · trivial
    · exact .inr rfl
  · unfold Shard.launch
    split
    · exact ⟨trivial, .inl rfl⟩
    split
    · exact .inr rfl
    split
    · exact ⟨trivial, .inl rfl⟩
    · exact ⟨trivial, .inl rfl⟩
  · exact ⟨trivial, trivial⟩
  · trivial
  · trivial
  · trivial

theorem step (hfits : s.Fits) (h : s.Leaves) (i : ShardInput) : (s.step i).Leaves := by
  cases i with
  | proceed ok => exact proceed hfits h ok
  | call | skip =>
    dsimp only [Shard.step]
    split
    · trivial
    · exact h
  | claim =>
    dsimp only [Shard.step]
    split
    · exact ⟨trivial, .inl rfl⟩
    · exact h
  | notReady =>
    dsimp only [Shard.step]
    split
    · split
      · exact h
      · exact ⟨.inr rfl, .inl rfl⟩
    · exact h
  | check | take | release | giveUp | recheck =>
    dsimp only [Shard.step]
    repeat' split
    all_goals exact h

end Shard.Leaves

def Restores (call : ShardCall) (before : ShardGroupState) : ShardFailure → Prop
  | .cancelled => call ≠ .delete ∨ before = .stopping
  | .stopping => before = .stopping
  | .stopped => False
  | .save => before = .failed
  | .other => True

/-- A `Stop`, `Restart` or `Delete` that returns an error because the wait was cancelled or a save has failed leaves
the group in the state it had exactly if the call restores it. -/
theorem failed_teardown_restores_iff (s₀ s : Shard) (hidle : s₀.stage = .idle) (inputs : List ShardInput)
    (hrun : run Shard.step (fun _ _ => true) s₀ inputs = some s) (f : ShardFailure) (hf : f ≠ .other)
    (hdone : s.stage = .done (some f)) (hcall : s.call = .stop ∨ s.call = .restart ∨ s.call = .delete) :
    s.group.state = s.before ↔ Restores s.call s.before f := by
  have hs : s.Fits ∧ s.Leaves := by
    refine run_invariant (P := fun s => s.Fits ∧ s.Leaves) (fun s i h _ => ⟨h.1.step i, h.2.step h.1 i⟩) ?_ hrun
    unfold Shard.Fits Shard.Leaves
    rw [hidle]
    exact ⟨trivial, trivial⟩
  have hleaves := hs.2
  unfold Shard.Leaves at hleaves
  rw [hdone] at hleaves
  cases f with
  | cancelled =>
    have hstate : s.group.state = if s.call = .delete then .stopping else s.before := hleaves
    rw [hstate]
    by_cases hdelete : s.call = .delete
    · simp [Restores, hdelete, eq_comm]
    · simp [Restores, hdelete]
  | stopping =>
    have hstate : s.group.state = .stopping := hleaves
    rw [hstate]
    exact eq_comm
  | stopped => exact ⟨fun h => hleaves.2 (h.symm.trans hleaves.1), False.elim⟩
  | save =>
    have hstate : s.group.state = .failed := hleaves.resolve_left (by rcases hcall with h | h | h <;> simp [h])
    rw [hstate]
    exact eq_comm
  | other => exact absurd rfl hf

def comesUp : List ShardInput :=
  .proceed true :: .claim [{ nodeID := "n", engineID := "e" }] :: List.replicate 10 (.proceed true)

def serving : Shard := (comesUp ++ [ShardInput.check, .take, .recheck]).foldl Shard.step {}

theorem cancelled_stop_restores : serving.stage = .idle ∧ ∃ s,
    run Shard.step (fun _ _ => true) serving [.call .stop, .proceed true, .proceed true, .proceed false, .proceed true] =
        some s ∧ s.sent = false ∧ s.group.state = s.before := by
  have hidle : serving.stage = .idle := rfl
  have hrun : run Shard.step (fun _ _ => true) serving
    [.call .stop, .proceed true, .proceed true, .proceed false, .proceed true] = some _ := rfl
  refine ⟨hidle, _, hrun, rfl, ?_⟩
  exact (failed_teardown_restores_iff serving _ hidle _ hrun .cancelled nofun rfl (.inl rfl)).mpr (.inl nofun)

/-- A `Delete` whose wait for the outstanding request is cancelled leaves a ready group stopping. -/
theorem cancelled_delete_keeps_stopping : ∃ s,
    run Shard.step (fun _ _ => true) serving [.call .delete, .proceed true, .proceed true, .proceed false] = some s ∧
      s.stage = .done (some .cancelled) ∧ s.sent = false ∧ s.before = .ready ∧ s.group.state = .stopping :=
  ⟨_, rfl, rfl, rfl, rfl, rfl⟩

end Maistr0.Shards
