import Maistr0.NodeAgent.EngineProcess

/-!
# The status of a managed engine

The state and the PID that an engine reports describe its process, unless an operation is under way that will see to
it: one of the current control generation that has not launched yet or is aborting, or one that waits for the end
of the process.
-/

namespace Maistr0.NodeAgent

open Lib.Interleaving ManagedEngine

variable {g g' : ManagedEngine} {t t' : EngineOp} {e : EngineEvent} {i c : Nat}

/-- No process is started and no failure is reported while the engine has a process, no wait for the end of a process
fails, and no attempt ends before it has started a process without reporting it. -/
def Orderly (g : ManagedEngine) : EngineEvent → Prop
  | .launch | .fail => g.command = none
  | .timeout | .lapse => False
  | .other => True

structure Reported (g : ManagedEngine) : Prop extends Owned g where
  pid : g.pid = g.command
  ready : g.state = .ready → g.command ≠ none
  running : g.command ≠ none → g.state ≠ .failed ∧ g.state ≠ .stopped

def Awaited (g : ManagedEngine) : Prop :=
  g.command = none ∧ (g.state = .starting ∨ g.state = .restarting ∨ g.state = .stopping)

def Pending (g : ManagedEngine) : EngineOp → Prop
  | .preparing c | .launching c _ | .backoff c | .crash c => g.controlGeneration = c
  | .unlaunched c k => g.controlGeneration = c ∧ ∀ n, k ≠ .restart n
  | .aborting i c _ => g.controlGeneration = c ∧ g.isLast i
  | _ => False

def WaitsFor (i : Nat) : EngineOp → Prop
  | .waiting j _ _ | .aborting j _ _ => j = i
  | _ => False

/-- After a move, the operation sees to the state, or it did not before and those that did still do. -/
structure Hands (g : ManagedEngine) (t : EngineOp) (g' : ManagedEngine) (t' : EngineOp) : Prop where
  awaited : Awaited g' → Pending g' t' ∨ Awaited g ∧ ¬ Pending g t ∧ ∀ u, Pending g u → Pending g' u
  stopping : ∀ i, g'.command = some i → g'.state = .stopping →
    WaitsFor i t' ∨ g.command = some i ∧ g.state = .stopping ∧ ¬ WaitsFor i t

theorem Pending.of_eq (hc : g'.controlGeneration = g.controlGeneration) (hprocs : g'.procs.length = g.procs.length) (u : EngineOp)
    (h : Pending g u) : Pending g' u := by
  unfold Pending isLast at *
  rw [hc, hprocs]
  exact h

theorem Hands.same (hstate : g'.state = g.state) (hcommand : g'.command = g.command)
    (hc : g'.controlGeneration = g.controlGeneration) (hprocs : g'.procs = g.procs)
    (ht : Pending g t → Pending g' t') (hwaits : ∀ i, g.command = some i → WaitsFor i t → WaitsFor i t') :
    Hands g t g' t' where
  awaited h := by
    by_cases hpending : Pending g t
    · exact .inl (ht hpending)
    unfold Awaited at h ⊢
    rw [hstate, hcommand] at h
    exact .inr ⟨h, hpending, Pending.of_eq hc (congrArg List.length hprocs)⟩
  stopping i hi hstopping := by
    rw [hcommand] at hi
    rw [hstate] at hstopping
    by_cases hwait : WaitsFor i t
    · exact .inl (hwaits i hi hwait)
    · exact .inr ⟨hi, hstopping, hwait⟩

theorem Hands.settled (h : g'.state = .stopped ∨ g'.state = .failed ∨ g'.state = .ready) : Hands g t g' t' where
  awaited h' := by
    obtain ⟨-, h'⟩ := h'
    rcases h with h | h | h <;> simp [h] at h'
  stopping i _ hstopping := by
    rcases h with h | h | h <;> simp [h] at hstopping

theorem Hands.pending (h : Pending g' t') (hstate : g'.state ≠ .stopping) : Hands g t g' t' :=
  ⟨fun _ => .inl h, fun _ _ hstopping => absurd hstopping hstate⟩

theorem Reported.not_done (h : Reported g) (hdone : g.isDone i) : g.command ≠ some i :=
  fun hcommand => (h.last i hcommand).2 hdone

theorem EngineMoves.hands (h : EngineMoves g t e g' t') (hallowed : Orderly g e) (hg : Reported g) : Hands g t g' t' := by
  cases h with
  | start | startAttempt => exact Hands.pending rfl nofun
  | crashRestart hc => exact Hands.pending hc nofun
  | prepared | backedOff => exact Hands.same rfl rfl rfl rfl id fun _ _ => False.elim
  | crashAgain => exact Hands.same rfl rfl rfl rfl And.left fun _ _ => False.elim
  | unprepared | startFailed | notStarted | invalid | crashFailed | unplanned | restartLimit | crashLimit | aborted =>
    exact Hands.settled (.inr (.inl rfl))
  | stopIdle | stopped => exact Hands.settled (.inl rfl)
  | markReady => exact Hands.settled (.inr (.inr rfl))
  | @launch c k hc hstop =>
    refine ⟨fun h => (nomatch h.1), fun i _ hstopping => ?_⟩
    cases k <;> cases hstopping
  | refused c =>
    refine Hands.same rfl rfl rfl rfl (fun hc => ⟨hc, fun n hk => ?_⟩) fun _ _ => False.elim
    change g.controlGeneration = c at hc
    subst hk
    simp [lapses, hc, Orderly] at hallowed
  | crashStale hc => exact Hands.same rfl rfl rfl rfl (fun h => hc h.1) fun _ _ => False.elim
  | crashStopped =>
    refine Hands.same rfl rfl rfl rfl (fun hc => ?_) fun _ _ => False.elim
    change g.controlGeneration = _ at hc
    simp [hc, Orderly] at hallowed
  | retry | restartFailed => exact Hands.same rfl rfl rfl rfl (fun h => h.2 _ rfl) fun _ _ => False.elim
  | alreadyRunning | notReady | notReadyRestart | replanned | attempt | attemptCancelled | spawn | abortStale =>
    exact Hands.same rfl rfl rfl rfl False.elim fun _ _ => False.elim
  | @abortStartup i c k hk hlast =>
    refine ⟨fun _ => .inl ⟨rfl, hlast⟩, fun j hj _ => .inl ?_⟩
    have hj' := (hg.last j hj).1
    unfold isLast at hj' hlast
    change i = j
    omega
  | @abortRestartAttempt i c hlast hc =>
    refine ⟨fun _ => .inl ⟨hc, hlast⟩, fun j hj _ => .inl ?_⟩
    have hj' := (hg.last j hj).1
    unfold isLast at hj' hlast
    change i = j
    omega
  | abortedStale hdone h =>
    refine Hands.same rfl rfl rfl rfl (fun hpending => ?_) fun i hi hwait => ?_
    · rcases h with h | h
      · exact absurd hpending.2 h
      · exact absurd hpending.1 h
    · obtain rfl : _ = i := hwait
      exact absurd hi (hg.not_done hdone)
  | stop _ hcommand =>
    refine ⟨fun h => ?_, fun j hj _ => .inl (Option.some.inj (hcommand.symm.trans hj))⟩
    have hnone : g.command = none := h.1
    rw [hcommand] at hnone
    cases hnone
  | stoppedBusy hdone =>
    refine Hands.same rfl rfl rfl rfl False.elim fun i hi hwait => ?_
    obtain rfl : _ = i := hwait
    exact absurd hi (hg.not_done hdone)
  | abortTimeout | stopTimeout => exact hallowed.elim

theorem Reported.of_state (howned : Owned g') (hpid : g'.pid = g'.command)
    (h : g'.state = .starting ∨ g'.state = .restarting ∨ g'.state = .stopping ∨
      g'.command = none ∧ g'.state ≠ .ready ∨ g'.command ≠ none ∧ g'.state = .ready) : Reported g' := by
  refine { howned with pid := hpid, ready := fun hready => ?_, running := fun hcommand => ?_ }
  · rcases h with h | h | h | ⟨-, h⟩ | h
    · simp [h] at hready
    · simp [h] at hready
    · simp [h] at hready
    · exact absurd hready h
    · exact h.1
  · rcases h with h | h | h | h | h
    · simp [h]
    · simp [h]
    · simp [h]
    · exact absurd h.1 hcommand
    · simp [h.2]

theorem EngineMoves.reported (h : EngineMoves g t e g' t') (hallowed : Orderly g e) (hg : Reported g) : Reported g' := by
  have howned : Owned g' := h.owned (fun he => by subst he; exact hallowed) hg.toOwned
  have hnone : ∀ {pid : Option Nat}, g.command = none → pid = none ∨ pid = g.pid → pid = g.command := by
    rintro pid hcommand (rfl | rfl)
    · exact hcommand.symm
    · exact hg.pid
  cases h with
  | launch =>
    refine Reported.of_state howned rfl ?_
    rename_i k _ _
    cases k
    · exact .inl rfl
    · exact .inl rfl
    · exact .inr (.inl rfl)
  | unprepared | startFailed | notStarted | unplanned =>
    have hcommand : g.command = none := hallowed
    exact Reported.of_state howned (hnone hcommand (.inl rfl)) (.inr (.inr (.inr (.inl ⟨hcommand, nofun⟩))))
  | invalid | crashFailed | restartLimit | crashLimit =>
    have hcommand : g.command = none := hallowed
    exact Reported.of_state howned hg.pid (.inr (.inr (.inr (.inl ⟨hcommand, nofun⟩))))
  | stopIdle _ hcommand | stopped _ hcommand =>
    exact Reported.of_state howned (hnone hcommand (.inl rfl)) (.inr (.inr (.inr (.inl ⟨hcommand, nofun⟩))))
  | aborted => exact Reported.of_state howned rfl (.inr (.inr (.inr (.inl ⟨rfl, nofun⟩))))
  | start | startAttempt => exact Reported.of_state howned hg.pid (.inl rfl)
  | crashRestart => exact Reported.of_state howned hg.pid (.inr (.inl rfl))
  | abortStartup | abortRestartAttempt | stop => exact Reported.of_state howned hg.pid (.inr (.inr (.inl rfl)))
  | markReady _ hcommand => exact Reported.of_state howned hg.pid (.inr (.inr (.inr (.inr ⟨hcommand, rfl⟩))))
  | abortTimeout | stopTimeout => exact hallowed.elim
  | _ => exact { howned with pid := hg.pid, ready := hg.ready, running := hg.running }

theorem ProcessSteps.reported (h : ProcessSteps g e g') (hg : Reported g) : Reported g' := by
  have howned : Owned g' := h.owned hg.toOwned
  cases h with
  | exit => exact { howned with pid := hg.pid, ready := hg.ready, running := hg.running }
  | reap =>
    revert howned
    unfold reaped
    split <;> intro howned
    · refine Reported.of_state howned rfl (.inr (.inr (.inr (.inl ⟨rfl, ?_⟩))))
      dsimp only
      split <;> nofun
    · exact { howned with pid := hg.pid, ready := hg.ready, running := hg.running }

theorem ProcessSteps.hands (h : ProcessSteps g e g') : (Awaited g' → Awaited g ∧ ∀ u, Pending g u → Pending g' u) ∧
    ∀ i, g'.command = some i → g'.state = .stopping → g.command = some i ∧ g.state = .stopping := by
  cases h with
  | exit => exact ⟨fun h => ⟨h, Pending.of_eq rfl (by simp)⟩, fun _ hi h => ⟨hi, h⟩⟩
  | reap =>
    unfold reaped
    split
    · refine ⟨fun h => ?_, nofun⟩
      obtain ⟨-, h⟩ := h
      dsimp only at h
      split at h <;> simp at h
    · exact ⟨fun h => ⟨h, Pending.of_eq rfl (by simp)⟩, fun _ hi h => ⟨hi, h⟩⟩

theorem supervisor_reported : Keeps (supervisor.restrict Orderly) Reported fun _ _ => True where
  move h hg _ := ⟨h.1.reported h.2 hg, trivial, fun _ _ => trivial⟩
  disturb h hg := ⟨h.1.reported hg, fun _ _ => trivial⟩
  start _ _ := trivial

theorem supervisor_awaited : Attends (supervisor.restrict Orderly) Reported Awaited Pending where
  move h hg := (h.1.hands h.2 hg).awaited
  disturb h _ := h.1.hands.1

theorem supervisor_stopping (i : Nat) : Attends (supervisor.restrict Orderly) Reported
    (fun g => g.command = some i ∧ g.state = .stopping) fun _ => WaitsFor i where
  move h hg hneed := by
    rcases (h.1.hands h.2 hg).stopping i hneed.1 hneed.2 with hnew | ⟨hcommand, hold, hnot⟩
    · exact .inl hnew
    · exact .inr ⟨⟨hcommand, hold⟩, hnot, fun _ => id⟩
  disturb h _ hneed := ⟨h.1.hands.2 i hneed.1 hneed.2, fun _ => id⟩

def EngineOp.isIdle : EngineOp → Bool
  | .start | .stop | .restart | .spawned | .stopped _ | .ended => true
  | _ => false

theorem not_attends (h : t.isIdle = true) : ¬ Pending g t ∧ ¬ WaitsFor i t := by
  cases t <;> first | exact ⟨id, id⟩ | cases h

/-- At most one process is alive. When no operation is in progress and the exits have been seen to, the state and the
PID are those of the process that is alive, or there is none and they say so. -/
theorem one_process_per_engine (s : State ManagedEngine EngineOp) (hrun : Run (supervisor.restrict Orderly) ⟨{}, []⟩ s) :
    (∀ (i j : Nat) (p q : Proc), s.shared.procs[i]? = some p → s.shared.procs[j]? = some q → p.alive = true → q.alive = true → i = j) ∧
      ((∀ t ∈ s.tasks, t.isIdle = true) → (∀ p ∈ s.shared.procs, p.alive = true ∨ p.done = true) →
        (∃ i p, s.shared.procs[i]? = some p ∧ p.alive = true ∧ s.shared.pid = some i ∧
          (s.shared.state = .starting ∨ s.shared.state = .restarting ∨ s.shared.state = .ready)) ∨
        (∀ p ∈ s.shared.procs, p.alive = false) ∧ s.shared.pid = none ∧
          (s.shared.state = .stopped ∨ s.shared.state = .failed)) := by
  have hempty : Reported ({} : ManagedEngine) := ⟨⟨nofun, nofun⟩, rfl, nofun, fun h => absurd rfl h⟩
  have hs : Reported s.shared := (supervisor_reported.run hrun ⟨hempty, nofun⟩).1
  refine ⟨fun i j p q hp hq hpalive hqalive => ?_, fun hidle hseen => ?_⟩
  · exact Option.some.inj ((hs.alive i p hp hpalive).symm.trans (hs.alive j q hq hqalive))
  have hawaited : ¬ Awaited s.shared := fun h => by
    obtain ⟨t, ht, hpending⟩ := supervisor_awaited.run supervisor_reported hrun hempty (fun h => by simp [Awaited] at h) h
    exact (not_attends (i := 0) (hidle t ht)).1 hpending
  cases hcommand : s.shared.command with
  | none =>
    refine .inr ⟨fun p hp => ?_, hs.pid.trans hcommand, ?_⟩
    · rw [Bool.eq_false_iff]
      intro halive
      obtain ⟨i, hi⟩ := List.mem_iff_getElem?.mp hp
      have hsome := hs.alive i p hi halive
      rw [hcommand] at hsome
      cases hsome
    · cases hstate : s.shared.state with
      | stopped => exact .inl rfl
      | failed => exact .inr rfl
      | ready => exact absurd hcommand (hs.ready hstate)
      | starting => exact absurd ⟨hcommand, .inl hstate⟩ hawaited
      | restarting => exact absurd ⟨hcommand, .inr (.inl hstate)⟩ hawaited
      | stopping => exact absurd ⟨hcommand, .inr (.inr hstate)⟩ hawaited
  | some i =>
    obtain ⟨hlast, hdone⟩ := hs.last i hcommand
    have hlt : i < s.shared.procs.length := by
      unfold isLast at hlast
      omega
    have hp := List.getElem?_eq_getElem hlt
    refine .inl ⟨i, _, hp, ?_, hs.pid.trans hcommand, ?_⟩
    · exact (hseen _ (List.getElem_mem hlt)).resolve_right fun h => hdone ⟨_, hp, h⟩
    have hrunning := hs.running (by simp [hcommand])
    cases hstate : s.shared.state with
    | starting => exact .inl rfl
    | restarting => exact .inr (.inl rfl)
    | ready => exact .inr (.inr rfl)
    | stopped => exact absurd hstate hrunning.2
    | failed => exact absurd hstate hrunning.1
    | stopping =>
      obtain ⟨t, ht, hwaits⟩ := (supervisor_stopping i).run supervisor_reported hrun hempty nofun ⟨hcommand, hstate⟩
      exact absurd hwaits (not_attends (g := s.shared) (hidle t ht)).2

theorem started_engine_reported : ∃ s : State ManagedEngine EngineOp, Run (supervisor.restrict Orderly) ⟨{}, []⟩ s ∧
    s.tasks = [.ended] ∧ ∃ i p, s.shared.procs[i]? = some p ∧ p.alive = true ∧ s.shared.pid = some i ∧
      (s.shared.state = .starting ∨ s.shared.state = .restarting ∨ s.shared.state = .ready) := by
  have hrun : Run (supervisor.restrict Orderly) ⟨{}, []⟩ _ := .refl
  have hrun := hrun.start (.inl rfl)
  have hrun := hrun.move [] [] ⟨.start rfl ⟨nofun, nofun, nofun⟩, trivial⟩
  have hrun := hrun.move [] [] ⟨.prepared _ _, trivial⟩
  have hrun := hrun.move [] [] ⟨.launch rfl rfl, rfl⟩
  have hrun := hrun.move [] [] ⟨.markReady rfl nofun rfl, trivial⟩
  refine ⟨_, hrun, rfl, ((one_process_per_engine _ hrun).2 (by decide) (by decide)).resolve_right fun h => ?_⟩
  exact absurd (h.1 _ List.mem_cons_self) nofun

/-- A `Restart` finds no process and reads the configuration again, a `Start` starts a process, and the first attempt
of the `Restart` starts another one. -/
theorem restart_starts_second_process : ∃ s : State ManagedEngine EngineOp, Run supervisor ⟨{}, []⟩ s ∧
    (∃ p q, s.shared.procs = [p, q] ∧ p.alive = true ∧ q.alive = true) := by
  have hrun : Run supervisor ⟨{}, []⟩ _ := .refl
  have hrun := hrun.start (.inr (.inr (.inl rfl)))
  have hrun := hrun.move [] [] (.stopIdle true rfl)
  have hrun := hrun.start (.inl rfl)
  have hrun := hrun.move [EngineOp.replanning] [] (.start rfl ⟨nofun, nofun, nofun⟩)
  have hrun := hrun.move [EngineOp.replanning] [] (.prepared _ _)
  have hrun := hrun.move [EngineOp.replanning] [] (.launch rfl rfl)
  have hrun := hrun.move [EngineOp.replanning] [] (.markReady rfl nofun rfl)
  have hrun := hrun.move [] [EngineOp.ended] (.replanned _)
  have hrun := hrun.move [] [EngineOp.ended] (.attempt _ _)
  have hrun := hrun.move [] [EngineOp.ended] (.startAttempt _ _)
  have hrun := hrun.move [] [EngineOp.ended] (.launch rfl rfl)
  exact ⟨_, hrun, _, _, rfl, rfl, rfl⟩

end Maistr0.NodeAgent
