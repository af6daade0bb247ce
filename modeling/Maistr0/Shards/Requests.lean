import Maistr0.Shards.Stages

/-!
# The requests and the reservation of a shard group

Two things that an operation takes over step by step: the one request that may be outstanding, which has to be gone
before a member is stopped, and the capacity reserved for the members, which has to be given back.
-/

namespace Maistr0.Shards

open Lib.Guarded Shard

variable {s s' : Shard}

/-! ### Requests -/

/-- The operation has waited for the outstanding request, and the group is not ready again. -/
def Stage.past : Stage → Bool
  | .saving ok _ => ok.past
  | .loaded | .waiting .close | .stopping _ _ _ | .finishing _ _ | .completing | .owning | .replanning | .planning | .failing _
  | .reserving | .launching _ => true
  | _ => false

def savesSucceed (s : Shard) : ShardInput → Bool
  | .proceed false =>
    match s.stage with
    | .saving _ _ | .finishing .checkHealth _ => false
    | _ => true
  | .call .close => false
  | _ => true

theorem Shard.gate_proceed (s : Shard) (ok : Bool) :
    (s.proceed ok).tokens = s.tokens ∧ (s.proceed ok).taken = s.taken ∧ (s.proceed ok).outstanding = s.outstanding := by
  unfold proceed Shard.look recover cancel finish launch releaseReservation
  repeat' split
  all_goals exact ⟨rfl, rfl, rfl⟩

theorem Shard.call_proceed (s : Shard) (ok : Bool) : (s.proceed ok).call = s.call := by
  unfold proceed Shard.look recover cancel finish launch releaseReservation
  repeat' split
  all_goals rfl

structure Exclusive (s : Shard) : Prop where
  open_ : s.call ≠ .close
  tokens : s.tokens + s.taken + s.outstanding = 1
  past : s.stage.past = true → s.group.state ≠ .ready ∧ s.outstanding = 0
  stopped : s.group.state = .stopped → s.outstanding = 0

/-- A step of the operation reaches the stages past the wait from there, through the wait, or from a stopped group. -/
structure Passes (s s' : Shard) : Prop where
  past : s'.stage.past = true →
    s'.group.state ≠ .ready ∧ (s.stage.past = true ∨ s.tokens ≠ 0 ∨ s.group.state = .stopped)
  stopped : s'.group.state = .stopped → s.stage.past = true ∨ s.group.state = .stopped

theorem Passes.of_past (hpast : s.stage.past = true)
    (h : s'.stage.past = true → s'.group.state ≠ .ready) : Passes s s' :=
  ⟨fun h' => ⟨h h', .inl hpast⟩, fun _ => .inl hpast⟩

theorem Passes.of_not_past (hpast : s'.stage.past = false)
    (h : s'.group.state = s.group.state ∨ s'.group.state ≠ .stopped) : Passes s s' :=
  ⟨fun h' => (nomatch hpast.symm.trans h'), fun h' => .inr (h.resolve_right (absurd h') ▸ h')⟩

theorem Passes.look (hcall : s.call ≠ .close) (ok : Bool) : Passes s (s.look ok) := by
  have hlook := s.look_spec ok
  generalize s.look ok = s' at hlook ⊢
  cases hlook with
  | done | wait => exact .of_not_past rfl (.inl rfl)
  | degrade | stop | delete => exact .of_not_past rfl (.inr nofun)
  | own h | replan _ h => exact ⟨fun _ => ⟨fun hready => (nomatch h.symm.trans hready), .inr (.inr h)⟩, .inr⟩
  | close h => exact absurd h hcall

theorem Exclusive.passes (hfits : s.Fits) (h : Exclusive s) (ok : Bool) (hsaves : savesSucceed s (.proceed ok) = true) :
    Passes s (s.proceed ok) := by
  have hsame : Passes s s := ⟨fun hpast => ⟨(h.past hpast).1, .inl hpast⟩, .inr⟩
  unfold Shard.Fits at hfits
  have hkeeps {s' : Shard} (hpast : s.stage.past = true) (hstate : s'.group.state = s.group.state) : Passes s s' :=
    .of_past hpast fun _ => hstate ▸ (h.past hpast).1
  unfold proceed
  split
  all_goals rename_i hstage
  · exact hsame
  · exact hsame
  · unfold recover
    repeat' split
    all_goals exact hkeeps (by rw [hstage]; rfl) rfl
  · exact .look h.open_ ok
  · cases ok with
    | true => exact ⟨fun hpast => hsame.past (by rw [hstage]; exact hpast), hsame.stopped⟩
    | false => simp [savesSucceed, hstage] at hsaves
  · rename_i t
    rw [hstage] at hfits
    split
    · cases t with
      | stopGroup => exact .of_not_past rfl (.inr hfits.1.2)
      | close => exact hkeeps (by rw [hstage]; rfl) rfl
      | _ => exact .of_not_past rfl (.inl rfl)
    · split
      · exact hsame
      · exact ⟨fun _ => ⟨hfits.2.1, .inr (.inl (by assumption))⟩, .inr⟩
  · refine hkeeps (by rw [hstage]; rfl) ?_
    unfold releaseReservation
    repeat' split
    all_goals rfl
  · split
    all_goals exact hkeeps (by rw [hstage]; rfl) rfl
  · rename_i t failed
    have hpast : s.stage.past = true := by rw [hstage]; rfl
    cases t with
    | checkHealth => exact hkeeps hpast rfl
    | stopGroup | finishStop =>
      cases failed with
      | true | false => exact .of_past hpast fun _ => nofun
    | delete =>
      cases failed with
      | true => exact .of_past hpast fun _ => nofun
      | false =>
        cases ok with
        | true => exact hkeeps hpast rfl
        | false => exact .of_past hpast fun _ => nofun
    | close | failCreate | abandon => exact .of_past hpast fun _ => nofun
  · exact .of_not_past rfl (.inr nofun)
  · split
    · exact .of_past (by rw [hstage]; rfl) fun _ => nofun
    · exact .of_not_past rfl (.inl rfl)
  · exact .of_past (by rw [hstage]; rfl) fun _ => nofun
  · exact hkeeps (by rw [hstage]; rfl) rfl
  · exact hkeeps (by rw [hstage]; rfl) rfl
  · split
    all_goals exact hkeeps (by rw [hstage]; rfl) rfl
  · have hpast : s.stage.past = true := by rw [hstage]; rfl
    unfold launch
    repeat' split
    · exact .of_past hpast nofun
    · exact hkeeps hpast rfl
    · exact .of_past hpast fun _ => nofun
    · exact hkeeps hpast rfl
  · exact .of_not_past rfl (.inr nofun)
  · exact .of_not_past rfl (.inl rfl)
  · refine .of_not_past rfl (.inl ?_)
    unfold releaseReservation
    split
    all_goals rfl
  · exact .of_not_past rfl (.inl rfl)

theorem Exclusive.step (hfits : s.Fits) (h : Exclusive s) (i : ShardInput) (hsaves : savesSucceed s i = true) :
    Exclusive (s.step i) := by
  have htokens := h.tokens
  cases i with
  | proceed ok =>
    obtain ⟨hpast, hstopped⟩ := h.passes hfits ok hsaves
    obtain ⟨ht, hk, ho⟩ := s.gate_proceed ok
    have hcall : (s.proceed ok).call = s.call := s.call_proceed ok
    refine ⟨hcall ▸ h.open_, by rw [Shard.step, ht, hk, ho]; exact htokens, fun hp => ⟨(hpast hp).1, ?_⟩, fun hs => ?_⟩
    · rw [Shard.step, ho]
      rcases (hpast hp).2 with hp | ht | hs
      · exact (h.past hp).2
      · omega
      · exact h.stopped hs
    · rw [Shard.step, ho]
      exact (hstopped hs).elim (fun hp => (h.past hp).2) h.stopped
  | call c =>
    dsimp only [Shard.step]
    split
    · refine ⟨fun hclose => ?_, htokens, nofun, h.stopped⟩
      obtain rfl : c = .close := hclose
      cases hsaves
    · exact h
  | claim members =>
    dsimp only [Shard.step]
    split
    · rename_i hplanning
      have hidle := (h.past (by rw [hplanning]; rfl)).2
      exact ⟨h.open_, htokens, fun _ => ⟨nofun, hidle⟩, nofun⟩
    · exact h
  | notReady =>
    dsimp only [Shard.step]
    split
    · rename_i hstage
      split
      · exact h
      · exact ⟨h.open_, htokens, fun _ => h.past (by rw [hstage]; rfl), h.stopped⟩
    · exact h
  | skip =>
    dsimp only [Shard.step]
    split
    · exact ⟨h.open_, htokens, nofun, h.stopped⟩
    · exact h
  | check =>
    dsimp only [Shard.step]
    split
    · exact ⟨h.open_, htokens, h.past, h.stopped⟩
    · exact h
  | giveUp => exact ⟨h.open_, htokens, h.past, h.stopped⟩
  | take =>
    dsimp only [Shard.step]
    split
    · exact ⟨h.open_, by dsimp only; omega, h.past, h.stopped⟩
    · exact h
  | recheck =>
    dsimp only [Shard.step]
    split
    · exact h
    split
    · rename_i hready
      refine ⟨h.open_, by dsimp only; omega, fun hp => absurd hready.1 (h.past hp).1, fun hs => ?_⟩
      exact nomatch hready.1.symm.trans hs
    · exact ⟨h.open_, by dsimp only; omega, h.past, h.stopped⟩
  | release =>
    dsimp only [Shard.step]
    split
    · exact h
    refine ⟨h.open_, by dsimp only; omega, fun hp => ⟨(h.past hp).1, ?_⟩, fun hs => ?_⟩
    · exact absurd (h.past hp).2 (by assumption)
    · exact absurd (h.stopped hs) (by assumption)

/-- A group has at most one outstanding request, and none while the next engine is to be stopped. -/
theorem requests_and_teardown_exclude (inputs : List ShardInput) (s : Shard)
    (hrun : run Shard.step savesSucceed {} inputs = some s) :
    s.outstanding ≤ 1 ∧ ∀ t i todo failed, s.stage = .stopping t (i :: todo) failed → s.outstanding = 0 := by
  have hstart : Exclusive {} := ⟨nofun, rfl, fun _ => ⟨nofun, rfl⟩, nofun⟩
  have hs : Exclusive s := (run_invariant (P := fun s => s.Fits ∧ Exclusive s)
    (fun s i h hsaves => ⟨h.1.step i, h.2.step h.1 i hsaves⟩) ⟨⟨rfl, trivial⟩, hstart⟩ hrun).2
  have htokens := hs.tokens
  refine ⟨by omega, fun t i todo failed hstage => (hs.past ?_).2⟩
  rw [hstage]
  rfl

/-- A stop that has waited for the request that was outstanding. -/
theorem request_gone_before_stop : ∃ s, run Shard.step savesSucceed {}
    (comesUp ++ [ShardInput.check, .take, .recheck, .call .stop, .proceed true, .proceed true, .release, .proceed true]) =
      some s ∧ s.stage = .stopping .stopGroup [0] false ∧ s.outstanding = 0 := by
  have hrun : run Shard.step savesSucceed {} (comesUp ++ [ShardInput.check, .take, .recheck, .call .stop, .proceed true,
    .proceed true, .release, .proceed true]) = some _ := rfl
  exact ⟨_, hrun, rfl, (requests_and_teardown_exclude _ _ hrun).2 _ _ _ _ rfl⟩

/-! ### The reservation -/

def Consistent (state : ShardGroupState) (reservation : Option Nat) : Prop :=
  (state = .ready → reservation ≠ none) ∧ (state = .stopped ∨ state = .failed → reservation = none)

/-- Not where `stopGroup` goes on after a failure, nor where `Recover` gives up a ready group. -/
def Stage.spared : Stage → Bool
  | .unready | .stopping .stopGroup _ true => false
  | _ => true

def Stage.Holds (before state : ShardGroupState) (reservation : Option Nat) : Stage → Prop
  | .idle | .begun | .confirming | .done _ => Consistent state reservation
  | .gone | .loaded | .finishing _ _ | .completing | .owning | .replanning | .planning | .reserving => reservation = none
  | .launching _ | .readying => reservation ≠ none
  | .saving ok fail =>
    ok.Holds before state reservation ∧ (fail.spared = true → fail.Holds before state reservation)
  | .waiting t =>
    Consistent state reservation ∧ (t = .stopGroup → Consistent before reservation) ∧ t ≠ .finishStop
  | .stopping t _ failed => (t = .stopGroup → failed = false) ∧ (t = .finishStop → reservation = none)
  | .failing _ => True
  | .unready => False

def Shard.Holds (s : Shard) : Prop := s.stage.Holds s.before s.group.state s.reservation

def Shard.stepOrLoad (s : Shard) : Option ShardInput → Shard
  | none => s.load
  | some i => s.step i

/-- Every stop of a member by `stopGroup` succeeds and is saved, and `Recover` can save that a group is ready. -/
def keepsCapacity (s : Shard) : Option ShardInput → Bool
  | some (.proceed false) =>
    match s.stage with
    | .saving _ fail => fail.spared
    | .stopping .stopGroup (_ :: _) _ => false
    | _ => true
  | _ => true

namespace Shard.Holds

theorem look (hbegun : s.group.state = s.before) (h : Consistent s.group.state s.reservation) (ok : Bool) :
    (s.look ok).Holds := by
  have hlook := s.look_spec ok
  generalize s.look ok = s' at hlook ⊢
  cases hlook with
  | done => exact h
  | degrade => exact ⟨⟨nofun, nofun⟩, fun _ => ⟨nofun, nofun⟩⟩
  | own hstopped | replan _ hstopped => exact h.2 (.inl hstopped)
  | wait => exact ⟨h, nofun, nofun⟩
  | stop => exact ⟨⟨⟨nofun, nofun⟩, fun _ => hbegun ▸ h, nofun⟩, fun _ => ⟨nofun, nofun⟩⟩
  | delete => exact ⟨⟨⟨nofun, nofun⟩, nofun, nofun⟩, fun _ => ⟨nofun, nofun⟩⟩
  | close => exact ⟨⟨⟨nofun, nofun⟩, nofun, nofun⟩, fun _ => ⟨⟨nofun, nofun⟩, nofun, nofun⟩⟩

theorem finish (t : Teardown) (h : s.reservation = none) (failed ok : Bool) : (s.finish failed ok t).Holds := by
  have hfailed : Consistent .failed s.reservation := ⟨nofun, fun _ => h⟩
  have hstopped : Consistent .stopped s.reservation := ⟨nofun, fun _ => h⟩
  cases t with
  | stopGroup =>
    cases failed with
    | true => exact ⟨hfailed, fun _ => hfailed⟩
    | false =>
      refine ⟨?_, fun _ => hstopped⟩
      unfold afterStop
      split
      · exact h
      · exact h
      · exact h
      · exact hstopped
  | delete =>
    cases failed with
    | true => exact ⟨hfailed, fun _ => hfailed⟩
    | false =>
      cases ok with
      | true => exact h
      | false => exact ⟨hfailed, fun _ => hfailed⟩
  | checkHealth => exact h
  | close | failCreate | abandon => exact ⟨hfailed, fun _ => hfailed⟩
  | finishStop =>
    cases failed with
    | true => exact ⟨hfailed, fun _ => hfailed⟩
    | false => exact ⟨hstopped, fun _ => hstopped⟩

theorem proceed (hfits : s.Fits) (h : s.Holds) (ok : Bool) (hkeeps : keepsCapacity s (some (.proceed ok)) = true) :
    (s.proceed ok).Holds := by
  have hs := h
  unfold Shard.Holds at h
  unfold Shard.Fits at hfits
  unfold Shard.proceed
  split
  all_goals rename_i hstage; rw [hstage] at h hfits
  · exact hs
  · exact hs
  · have hnone : s.reservation = none := h
    unfold recover
    split
    · refine ⟨fun hready => ?_, fun _ => hnone⟩
      rcases hfits with h | h | h <;> exact nomatch h.symm.trans hready
    repeat' split
    · exact ⟨nofun, fun _ => hnone⟩
    · exact nofun
    · exact ⟨nofun, nofun⟩
  · exact look hfits h ok
  · cases ok with
    | true => exact h.1
    | false => exact h.2 (by simpa [keepsCapacity, hstage] using hkeeps)
  · rename_i t
    split
    · cases t with
      | stopGroup => exact ⟨h.2.1 rfl, fun _ => h.2.1 rfl⟩
      | close => exact ⟨nofun, nofun⟩
      | _ => exact h.1
    · split
      · exact hs
      · exact ⟨fun _ => rfl, fun ht => absurd ht h.2.2⟩
  · rename_i t failed
    split
    · rename_i hkept
      rcases hkept.2 with ht | ht
      · exact nomatch (h.1 ht).symm.trans hkept.1
      · exact h.2 ht
    · unfold releaseReservation
      split
      · assumption
      · rfl
  · rename_i t i todo failed
    cases ok with
    | true =>
      refine ⟨h, fun hspared => ⟨fun ht => ?_, h.2⟩⟩
      subst ht
      cases hspared
    | false =>
      refine ⟨fun ht => ?_, h.2⟩
      subst ht
      simp [keepsCapacity, hstage] at hkeeps
  · exact finish _ h _ ok
  · exact ⟨nofun, fun _ => h⟩
  · have hstopped : s.group.state = .stopped := hfits
    split
    · exact ⟨h, fun _ => trivial⟩
    · exact ⟨fun hready => (nomatch hstopped.symm.trans hready), fun _ => h⟩
  · exact ⟨h, fun _ => ⟨nofun, nofun⟩⟩
  · trivial
  · exact ⟨nofun, nofun⟩
  · split
    · exact nofun
    · trivial
  · unfold launch
    split
    · exact ⟨⟨fun _ => h, nofun⟩, fun _ => trivial⟩
    split
    · trivial
    split
    · exact ⟨h, fun _ => trivial⟩
    · exact ⟨h, fun _ => trivial⟩
  · exact ⟨⟨fun _ => h, nofun⟩, nofun⟩
  · exact h
  · exact h.elim
  · exact h

theorem step (hfits : s.Fits) (h : s.Holds) (i : ShardInput) (hkeeps : keepsCapacity s (some i) = true) :
    (s.step i).Holds := by
  cases i with
  | proceed ok => exact proceed hfits h ok hkeeps
  | call c =>
    dsimp only [Shard.step]
    split
    · rename_i hc
      unfold Shard.Holds at h
      rw [hc.1] at h
      exact h
    · exact h
  | claim members =>
    dsimp only [Shard.step]
    split
    · rename_i hplanning
      unfold Shard.Holds at h
      rw [hplanning] at h
      exact ⟨h, fun _ => trivial⟩
    · exact h
  | notReady =>
    dsimp only [Shard.step]
    split
    · split
      · exact h
      · exact ⟨trivial, fun _ => trivial⟩
    · exact h
  | skip =>
    dsimp only [Shard.step]
    split
    · rename_i hloaded
      unfold Shard.Holds at h
      unfold Shard.Fits at hfits
      rw [hloaded] at h hfits
      refine ⟨fun hready => ?_, fun _ => h⟩
      rcases hfits with h | h | h <;> exact nomatch h.symm.trans hready
    · exact h
  | check | take | release | giveUp | recheck =>
    dsimp only [Shard.step]
    repeat' split
    all_goals exact h

end Shard.Holds

def Shard.ledger (s : Shard) : Option Nat × Nat × List Nat := (s.reservation, s.obtained, s.released)

structure Accounts (s : Shard) : Prop where
  held : ∀ r, s.reservation = some r → r < s.obtained ∧ r ∉ s.released
  rest : ∀ r < s.obtained, s.reservation = some r ∨ s.released.count r = 1
  old : ∀ r ∈ s.released, r < s.obtained

namespace Accounts

theorem of_ledger (h : Accounts s) (heq : s'.ledger = s.ledger) : Accounts s' := by
  simp only [ledger, Prod.mk.injEq] at heq
  obtain ⟨hr, ho, hl⟩ := heq
  exact ⟨by rw [hr, ho, hl]; exact h.held, by rw [hr, ho, hl]; exact h.rest, by rw [ho, hl]; exact h.old⟩

theorem releaseReservation (h : Accounts s) : Accounts s.releaseReservation := by
  unfold Shard.releaseReservation
  split
  · exact ⟨h.held, h.rest, h.old⟩
  rename_i r hr
  obtain ⟨hlt, hnew⟩ := h.held r hr
  rw [if_neg hnew]
  refine ⟨nofun, fun q hq => .inr ?_, fun q hq => ?_⟩
  · by_cases hqr : q = r
    · rw [hqr, List.count_cons_self, List.count_eq_zero.mpr hnew]
    · rw [List.count_cons_of_ne (Ne.symm hqr)]
      exact (h.rest q hq).resolve_left fun hq => hqr (Option.some.inj (hq.symm.trans hr))
  · rcases List.mem_cons.mp hq with rfl | hq
    · exact hlt
    · exact h.old q hq

theorem reserve (h : Accounts s) (hnone : s.reservation = none) (stage : Stage) : Accounts (s.reserve stage) := by
  refine ⟨fun r hr => ?_, fun r hr => ?_, fun r hr => Nat.lt_succ_of_lt (h.old r hr)⟩
  · obtain rfl : s.obtained = r := Option.some.inj hr
    exact ⟨Nat.lt_succ_self _, fun hmem => Nat.lt_irrefl _ (h.old _ hmem)⟩
  rcases Nat.lt_succ_iff_lt_or_eq.mp hr with hr | rfl
  · exact .inr ((h.rest r hr).resolve_left (by simp [hnone]))
  · exact .inl rfl

end Accounts

theorem Shard.ledger_proceed (s : Shard) (ok : Bool) :
    (s.proceed ok).ledger = s.ledger ∨ (s.proceed ok).ledger = s.releaseReservation.ledger ∨
      (s.stage = .reserving ∨ s.stage = .loaded) ∧ (s.proceed ok).ledger = (s.reserve .idle).ledger := by
  unfold proceed
  split
  all_goals try exact .inl rfl
  · unfold recover
    repeat' split
    · exact .inl rfl
    · exact .inl rfl
    · exact .inr (.inr ⟨.inr (by assumption), rfl⟩)
    · exact .inl rfl
  · unfold Shard.look
    repeat' split
    all_goals exact .inl rfl
  · split
    all_goals exact .inl rfl
  · unfold cancel
    repeat' split
    all_goals exact .inl rfl
  · split
    · exact .inl rfl
    · exact .inr (.inl rfl)
  · split
    all_goals exact .inl rfl
  · unfold finish
    repeat' split
    all_goals exact .inl rfl
  · split
    all_goals exact .inl rfl
  · split
    · exact .inr (.inr ⟨.inl (by assumption), rfl⟩)
    · exact .inl rfl
  · unfold launch
    repeat' split
    all_goals exact .inl rfl
  · exact .inr (.inl rfl)

theorem Accounts.stepOrLoad (hholds : s.Holds) (h : Accounts s) (i : Option ShardInput) : Accounts (s.stepOrLoad i) := by
  match i with
  | none =>
    change Accounts s.load
    unfold Shard.load
    split
    all_goals exact ⟨nofun, nofun, nofun⟩
  | some (.proceed ok) =>
    rcases s.ledger_proceed ok with heq | heq | ⟨hstage, heq⟩
    · exact h.of_ledger heq
    · exact h.releaseReservation.of_ledger heq
    refine (h.reserve ?_ .idle).of_ledger heq
    unfold Shard.Holds at hholds
    rcases hstage with hstage | hstage
    all_goals rw [hstage] at hholds; exact hholds
  | some (.call _) | some (.claim _) | some .notReady | some .skip | some .check | some .giveUp | some .take
  | some .recheck | some .release =>
    refine h.of_ledger ?_
    dsimp only [Shard.stepOrLoad, Shard.step]
    repeat' split
    all_goals rfl

/-- Between operations, a ready group holds one reservation that is not released, a stopped or failed group holds none,
and every reservation that was obtained is held or was released once. -/
theorem capacity_held_iff_ready (inputs : List (Option ShardInput)) (s : Shard)
    (hrun : run stepOrLoad keepsCapacity {} inputs = some s) (hidle : s.stage = .idle) :
    (s.group.state = .ready → ∃ r, s.reservation = some r ∧ r ∉ s.released) ∧
      (s.group.state = .stopped ∨ s.group.state = .failed → s.reservation = none) ∧
      ∀ r < s.obtained, s.reservation = some r ∧ r ∉ s.released ∨ s.reservation ≠ some r ∧ s.released.count r = 1 := by
  have hs : s.Fits ∧ s.Holds ∧ Accounts s := by
    refine run_invariant (P := fun s => s.Fits ∧ s.Holds ∧ Accounts s) (fun s i h hkeeps => ?_) ?_ hrun
    · refine ⟨?_, ?_, h.2.2.stepOrLoad h.2.1 i⟩
      · cases i with
        | none => exact Shard.Fits.load s
        | some i => exact h.1.step i
      cases i with
      | none =>
        change s.load.Holds
        unfold Shard.load
        split
        all_goals exact rfl
      | some i => exact h.2.1.step h.1 i hkeeps
    · exact ⟨⟨rfl, trivial⟩, ⟨rfl, fun _ => rfl⟩, nofun, nofun, nofun⟩
  obtain ⟨-, hholds, haccounts⟩ := hs
  unfold Shard.Holds at hholds
  rw [hidle] at hholds
  refine ⟨fun hready => ?_, hholds.2, fun r hr => ?_⟩
  · obtain ⟨r, hr⟩ := Option.ne_none_iff_exists'.mp (hholds.1 hready)
    exact ⟨r, hr, (haccounts.held r hr).2⟩
  by_cases hheld : s.reservation = some r
  · exact .inl ⟨hheld, (haccounts.held r hheld).2⟩
  · exact .inr ⟨hheld, (haccounts.rest r hr).resolve_left hheld⟩

theorem ready_group_holds_capacity : ∃ s, run stepOrLoad keepsCapacity {} (comesUp.map some) = some s ∧
    s.group.state = .ready ∧ ∃ r, s.reservation = some r ∧ r ∉ s.released := by
  have hrun : run stepOrLoad keepsCapacity {} (comesUp.map some) = some _ := rfl
  exact ⟨_, hrun, rfl, (capacity_held_iff_ready _ _ hrun rfl).1 rfl⟩

/-- A `Stop` whose engine does not stop leaves a failed group with its reservation, and a `Recover` that cannot save
leaves a ready group without one. -/
theorem failed_group_holds_capacity :
    (∃ inputs s, run stepOrLoad (fun _ _ => true) {} inputs = some s ∧ s.stage = .idle ∧
      s.group.state = .failed ∧ s.reservation = some 0) ∧
    ∃ inputs s, run stepOrLoad (fun _ _ => true) {} inputs = some s ∧ s.stage = .idle ∧
      s.group.state = .ready ∧ s.reservation = none :=
  ⟨⟨(comesUp ++ [ShardInput.call .stop, .proceed true, .proceed true, .proceed true, .proceed false, .proceed true,
      .proceed true, .proceed true, .proceed true]).map some, _, rfl, rfl, rfl, rfl⟩,
    comesUp.map some ++ none :: [ShardInput.proceed true, .proceed true, .proceed false, .proceed true,
      .proceed true].map some, _, rfl, rfl, rfl, rfl⟩

end Maistr0.Shards
