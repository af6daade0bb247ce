import Maistr0.NodeAgent.Supervisor

/-!
# The process of a managed engine

`launch` looks at the control generation but not at whether the engine has a process. As long as it is only reached
without one, the process that the engine knows is the only one, and an engine that was stopped has none until
someone resets the flag that stopped it.
-/

namespace Maistr0.NodeAgent

open Lib.Interleaving ManagedEngine Option

variable {g g' : ManagedEngine} {t t' : EngineOp} {e : EngineEvent} {i c : Nat}

structure Owned (g : ManagedEngine) : Prop where
  alive : ∀ i p, g.procs[i]? = some p → p.alive = true → g.command = some i
  last : ∀ i, g.command = some i → g.isLast i ∧ ¬ g.isDone i

theorem Owned.of_eq (h : Owned g) (hprocs : g'.procs = g.procs) (hcommand : g'.command = g.command) : Owned g' := by
  obtain ⟨halive, hlast⟩ := h
  refine ⟨?_, ?_⟩
  · rw [hprocs, hcommand]
    exact halive
  unfold isLast isDone
  rw [hprocs, hcommand]
  exact hlast

theorem Owned.launched (h : Owned g) (hfree : g.command = none) (c : Nat) (k : Launcher) : Owned (g.launched c k) where
  alive i p hp halive := by
    change (g.procs ++ [_])[i]? = some p at hp
    rw [List.getElem?_append] at hp
    split at hp
    · have hcommand := h.alive i p hp halive
      rw [hfree] at hcommand
      cases hcommand
    obtain ⟨hlt, -⟩ := List.getElem?_eq_some_iff.mp hp
    have hi : i = g.procs.length := by
      simp at hlt
      omega
    rw [hi]
    rfl
  last i hi := by
    obtain rfl := some.inj hi
    refine ⟨by simp [ManagedEngine.isLast, ManagedEngine.launched], ?_⟩
    rintro ⟨p, hp, hdone⟩
    change (g.procs ++ [_])[g.procs.length]? = some p at hp
    rw [List.getElem?_concat_length] at hp
    cases hp
    cases hdone

theorem Owned.cleared (h : Owned g) {procs : List Proc} (hlast : g.isLast i) (hcommand : g'.command = none)
    (hprocs : g'.procs = procs) (hothers : ∀ j p, procs[j]? = some p → p.alive = true → j ≠ i ∧ g.procs[j]? = some p) :
    Owned g' where
  alive j p hp halive := by
    rw [hprocs] at hp
    obtain ⟨hne, hp⟩ := hothers j p hp halive
    have hj := (h.last j (h.alive j p hp halive)).1
    unfold isLast at hj hlast
    omega
  last j hj := by
    rw [hcommand] at hj
    cases hj

theorem getElem?_set_proc {procs : List Proc} {j : Nat} {p q : Proc} (h : (procs.set i q)[j]? = some p) :
    j = i ∧ p = q ∨ j ≠ i ∧ procs[j]? = some p := by
  rw [List.getElem?_set] at h
  split at h
  · split at h
    · exact .inl ⟨(by assumption : i = j).symm, (some.inj h).symm⟩
    · cases h
  · exact .inr ⟨Ne.symm (by assumption), h⟩

theorem ProcessSteps.owned (h : ProcessSteps g e g') (hg : Owned g) : Owned g' := by
  cases h with
  | @exit i p hp =>
    refine ⟨fun j q hq halive => ?_, fun j hj => ⟨?_, ?_⟩⟩
    · rcases getElem?_set_proc hq with ⟨-, rfl⟩ | ⟨-, hq⟩
      · cases halive
      · exact hg.alive j q hq halive
    · simpa [isLast] using (hg.last j hj).1
    · rintro ⟨q, hq, hdone⟩
      refine (hg.last j hj).2 ?_
      rcases getElem?_set_proc hq with ⟨rfl, rfl⟩ | ⟨-, hq⟩
      · exact ⟨p, hp, hdone⟩
      · exact ⟨q, hq, hdone⟩
  | @reap i p hp halive hdone =>
    have hothers : ∀ j q, (g.procs.set i { p with done := true })[j]? = some q → q.alive = true →
        j ≠ i ∧ g.procs[j]? = some q := by
      intro j q hq hqalive
      rcases getElem?_set_proc hq with ⟨-, rfl⟩ | hq
      · rw [halive] at hqalive
        cases hqalive
      · exact hq
    unfold reaped
    split
    · rename_i hlast
      exact hg.cleared hlast rfl rfl hothers
    rename_i hnot
    refine ⟨fun j q hq hqalive => hg.alive j q (hothers j q hq hqalive).2 hqalive, fun j hj => ⟨?_, ?_⟩⟩
    · simpa [isLast] using (hg.last j hj).1
    rintro ⟨q, hq, hqdone⟩
    rcases getElem?_set_proc hq with ⟨rfl, -⟩ | ⟨-, hq⟩
    · exact hnot (hg.last j hj).1
    · exact (hg.last j hj).2 ⟨q, hq, hqdone⟩

theorem Owned.aborted (h : Owned g) (hdone : g.isDone i) (hlast : g.isLast i) (hprocs : g'.procs = g.procs)
    (hcommand : g'.command = none) : Owned g' := by
  refine h.cleared hlast hcommand hprocs fun j p hp halive => ⟨?_, hp⟩
  rintro rfl
  exact (h.last j (h.alive j p hp halive)).2 hdone

theorem EngineMoves.owned (h : EngineMoves g t e g' t') (hallowed : e = .launch → g.command = none) (hg : Owned g) :
    Owned g' := by
  cases h with
  | launch => exact hg.launched (hallowed rfl) _ _
  | aborted hdone hlast => exact hg.aborted hdone hlast rfl rfl
  | abortTimeout => split <;> exact hg.of_eq rfl rfl
  | _ => exact hg.of_eq rfl rfl

/-! ### Stopped engines -/

def LaunchesIdle (g : ManagedEngine) (e : EngineEvent) : Prop := e = .launch → g.command = none

/-- While `userStopped` is not reset, it stays, and no process comes. -/
structure Quiet (g g' : ManagedEngine) : Prop where
  resumes : g.resumes ≤ g'.resumes
  stopped : g'.resumes = g.resumes → g.userStopped = true → g'.userStopped = true
  command : g'.resumes = g.resumes → g.userStopped = true → ∀ i, g'.command = some i → g.command = some i

theorem EngineMoves.quiet (h : EngineMoves g t e g' t') : Quiet g g' := by
  cases h with
  | start | attempt => exact ⟨Nat.le_succ _, fun h => absurd h (Nat.succ_ne_self _), fun h => absurd h (Nat.succ_ne_self _)⟩
  | launch _ hstop | notStarted _ hstop =>
    refine ⟨Nat.le_refl _, fun _ => id, fun _ hstopped => ?_⟩
    rw [hstop] at hstopped
    cases hstopped
  | stopIdle | stop | abortStartup => exact ⟨Nat.le_refl _, fun _ _ => rfl, fun _ _ _ => id⟩
  | aborted => exact ⟨Nat.le_refl _, fun _ => id, nofun⟩
  | abortTimeout => split <;> exact ⟨Nat.le_refl _, fun _ => id, fun _ _ _ => id⟩
  | _ => exact ⟨Nat.le_refl _, fun _ => id, fun _ _ _ => id⟩

theorem ProcessSteps.quiet (h : ProcessSteps g e g') : Quiet g g' := by
  cases h with
  | exit => exact ⟨Nat.le_refl _, fun _ => id, fun _ _ _ => id⟩
  | reap =>
    unfold reaped
    split
    · exact ⟨Nat.le_refl _, fun _ => id, nofun⟩
    · exact ⟨Nat.le_refl _, fun _ => id, fun _ _ _ => id⟩

/-- What a `Stop` call has achieved, if nobody has reset the flag since. -/
def Halts (g : ManagedEngine) : EngineOp → Prop
  | .waiting i _ n => n ≤ g.resumes ∧ (g.resumes = n → g.userStopped = true ∧ ∀ j, g.command = some j → j = i)
  | .stopped n => n ≤ g.resumes ∧ (g.resumes = n → g.userStopped = true ∧ g.command = none)
  | _ => True

theorem Halts.mono (h : Halts g t) (hquiet : Quiet g g') : Halts g' t := by
  have hresumes : ∀ n, n ≤ g.resumes → g'.resumes = n → g'.resumes = g.resumes := fun n hn hn' =>
    Nat.le_antisymm (hn' ▸ hn) hquiet.resumes
  cases t with
  | waiting _ _ n =>
    refine ⟨Nat.le_trans h.1 hquiet.resumes, fun hn => ?_⟩
    have hsame := hresumes n h.1 hn
    obtain ⟨hstopped, hcommand⟩ := h.2 (hsame ▸ hn)
    exact ⟨hquiet.stopped hsame hstopped, fun j hj => hcommand j (hquiet.command hsame hstopped j hj)⟩
  | stopped n =>
    refine ⟨Nat.le_trans h.1 hquiet.resumes, fun hn => ?_⟩
    have hsame := hresumes n h.1 hn
    obtain ⟨hstopped, hcommand⟩ := h.2 (hsame ▸ hn)
    refine ⟨hquiet.stopped hsame hstopped, ?_⟩
    rw [eq_none_iff_forall_ne_some]
    intro j hj
    have hcommand' := hquiet.command hsame hstopped j hj
    rw [hcommand] at hcommand'
    cases hcommand'
  | _ => trivial

theorem EngineMoves.halts (h : EngineMoves g t e g' t') (hg : Owned g) (ht : Halts g t) : Halts g' t' := by
  cases h with
  | stopIdle restarts hcommand =>
    cases restarts
    · exact ⟨Nat.le_refl _, fun _ => ⟨rfl, hcommand⟩⟩
    · trivial
  | stop _ hcommand =>
    exact ⟨Nat.le_refl _, fun _ => ⟨rfl, fun j hj => some.inj (hj.symm.trans hcommand)⟩⟩
  | @stopped i resumes restarts hdone hcommand =>
    cases restarts
    · exact ⟨ht.1, fun hn => ⟨(ht.2 hn).1, hcommand⟩⟩
    · trivial
  | @stoppedBusy i resumes restarts hdone hcommand =>
    cases restarts
    · refine ⟨ht.1, fun hn => ⟨(ht.2 hn).1, ?_⟩⟩
      rw [eq_none_iff_forall_ne_some]
      intro j hj
      obtain rfl := (ht.2 hn).2 j hj
      exact (hg.last j hj).2 hdone
    · trivial
  | abortStale | aborted | abortedStale => split <;> trivial
  | _ => trivial

theorem keeps_halts : Keeps (supervisor.restrict LaunchesIdle) Owned Halts where
  move h hg ht := ⟨h.1.owned h.2 hg, h.1.halts hg ht, fun _ hu => hu.mono h.1.quiet⟩
  disturb h hg := ⟨h.1.owned hg, fun _ hu => hu.mono h.1.quiet⟩
  start h _ := by rcases h with rfl | rfl | rfl | rfl <;> trivial

/-- Once a `Stop` has returned, and as long as no `Start` and no attempt of a `Restart` has come since it began, no
process is alive. -/
theorem stopped_engine_stays_stopped (s : State ManagedEngine EngineOp)
    (h : Run (supervisor.restrict LaunchesIdle) ⟨{}, []⟩ s) (n : Nat) (hstopped : .stopped n ∈ s.tasks)
    (hn : s.shared.resumes = n) : ∀ p ∈ s.shared.procs, p.alive = false := by
  obtain ⟨howned, htasks⟩ := keeps_halts.run h ⟨⟨nofun, nofun⟩, nofun⟩
  have hcommand := ((htasks _ hstopped).2 hn).2
  intro p hp
  rw [Bool.eq_false_iff]
  intro halive
  obtain ⟨i, hi⟩ := List.mem_iff_getElem?.mp hp
  rw [howned.alive i p hi halive] at hcommand
  cases hcommand

/-- A process is started and stopped. -/
theorem started_engine_stopped : ∃ s : State ManagedEngine EngineOp,
    Run (supervisor.restrict LaunchesIdle) ⟨{}, []⟩ s ∧ .stopped 1 ∈ s.tasks ∧ s.shared.resumes = 1 ∧
      s.shared.procs ≠ [] ∧ ∀ p ∈ s.shared.procs, p.alive = false := by
  have hrun : Run (supervisor.restrict LaunchesIdle) ⟨{}, []⟩ _ := .refl
  have hrun := hrun.start (.inl rfl)
  have hrun := hrun.move [] [] ⟨.start rfl ⟨nofun, nofun, nofun⟩, nofun⟩
  have hrun := hrun.move [] [] ⟨.prepared _ _, nofun⟩
  have hrun := hrun.move [] [] ⟨.launch rfl rfl, fun _ => rfl⟩
  have hrun := hrun.move [] [] ⟨.markReady rfl nofun rfl, nofun⟩
  have hrun := hrun.start (.inr (.inl rfl))
  have hrun := hrun.move [EngineOp.ended] [] ⟨.stop false rfl, nofun⟩
  have hrun := hrun.disturb ⟨ProcessSteps.exit (i := 0) rfl, nofun⟩
  have hrun := hrun.disturb ⟨ProcessSteps.reap (i := 0) rfl rfl rfl, nofun⟩
  have hrun := hrun.move [EngineOp.ended] [] ⟨.stopped ⟨_, rfl, rfl⟩ rfl, nofun⟩
  have hstopped : EngineOp.stopped 1 ∈ [EngineOp.ended, .stopped 1] := by decide
  exact ⟨_, hrun, hstopped, rfl, by decide, stopped_engine_stays_stopped _ hrun 1 hstopped rfl⟩

/-- A `Restart` whose first attempt has failed waits for its second one. A `Stop` returns, and the attempt starts a
process, while no other call has begun. -/
theorem restart_revives_stopped_engine : ∃ s s' : State ManagedEngine EngineOp, Run supervisor ⟨{}, []⟩ s ∧
    s.tasks = [.attempt 1, .stopped 1] ∧ Run supervisor s s' ∧ s'.tasks.length = s.tasks.length ∧
      .stopped 1 ∈ s'.tasks ∧ ∃ p ∈ s'.shared.procs, p.alive = true := by
  have hrun : Run supervisor ⟨{}, []⟩ _ := .refl
  have hrun := hrun.start (.inr (.inr (.inl rfl)))
  have hrun := hrun.move [] [] (.stopIdle true rfl)
  have hrun := hrun.move [] [] (.replanned _)
  have hrun := hrun.move [] [] (.attempt _ _)
  have hrun := hrun.move [] [] (.startAttempt _ _)
  have hrun := hrun.move [] [] (.notStarted rfl rfl)
  have hrun := hrun.move [] [] (.retry _ _ _)
  have hrun := hrun.start (.inr (.inl rfl))
  have hrun := hrun.move [EngineOp.attempt 1] [] (.stopIdle false rfl)
  have hmore : Run supervisor
    ⟨{ controlGeneration := 3, userStopped := true, restartCount := 1, resumes := 1 }, [.attempt 1, .stopped 1]⟩ _ := .refl
  have hmore := hmore.move [] [EngineOp.stopped 1] (.attempt _ 1)
  have hmore := hmore.move [] [EngineOp.stopped 1] (.startAttempt _ _)
  have hmore := hmore.move [] [EngineOp.stopped 1] (.launch rfl rfl)
  exact ⟨_, _, hrun, rfl, hmore, rfl, by decide, by decide⟩

end Maistr0.NodeAgent
