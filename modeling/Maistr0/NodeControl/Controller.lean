import Maistr0.Lib.Interleaving

/-!
# The node controller

The controller keeps a node process as its child. `run` serves until it is told to end, `supervise` starts the child
while it is desired, and any number of actions arrive, of which one at a time is carried out. Each section under the
lock `mu` is one step, and so is each wait. The answers of the child, the listener and the update's handoff file are
left open; what is only reported (the operation and the last error) and the discovery listener are not modelled.
-/

namespace Maistr0.NodeControl

open Lib.Interleaving List

inductive Loop
  /-- At the head of the loop. -/
  | read
  /-- In `startChild`, before the process is started. -/
  | starting
  /-- In `startChild`, before `c.child` is set. -/
  | started (i : Nat)
  | unstarted
  | idle
  | watching (i : Nat)
  | exited (i : Nat)
  | pausing
  | returned
  deriving DecidableEq

inductive Phase
  | serving
  | closing
  /-- `stopChild` has read the child. -/
  | closingChild (i : Nat)
  | stopping (i : Nat)
  /-- Waits for `supervise`. -/
  | joining
  | returned
  deriving DecidableEq

structure Controller where
  desiredRunning : Bool := true
  child : Option Nat := none
  actionMu : Bool := false
  cancelled : Bool := false
  loop : Loop := .read
  phase : Phase := .serving
  started : Nat := 0
  alive : List Nat := []

inductive Action
  | start
  | stop
  | drain
  | restart
  deriving DecidableEq

inductive ActionTask
  | call (a : Action)
  | locked (a : Action)
  | stopping (child : Option Nat)
  | requesting (i : Nat) (restart : Bool)
  | draining (i : Nat) (restart : Bool)
  | drained (i : Nat) (restart : Bool)
  | restarting
  | unlocking
  | ended
  deriving DecidableEq

inductive ControlEvent
  | childSet
  /-- A drain of a child takes the desired state back. -/
  | drain (i : Nat)
  | other
  deriving DecidableEq

/-- The steps of `handleAction` and of the goroutine it starts. -/
inductive ActionMoves : Controller → ActionTask → ControlEvent → Controller → ActionTask → Prop
  | lock {g : Controller} (a : Action) (hfree : g.actionMu = false) :
      ActionMoves g (.call a) .other { g with actionMu := true } (.locked a)
  | conflict {g : Controller} (a : Action) (hlocked : g.actionMu = true) : ActionMoves g (.call a) .other g .ended
  | running {g : Controller} {i : Nat} (hchild : g.child = some i) : ActionMoves g (.locked .start) .other g .unlocking
  | start {g : Controller} (hchild : g.child = none) :
      ActionMoves g (.locked .start) .other { g with desiredRunning := true } .unlocking
  | stop (g : Controller) :
      ActionMoves g (.locked .stop) .other { g with desiredRunning := false } (.stopping g.child)
  | nothingToStop (g : Controller) : ActionMoves g (.stopping none) .other g .unlocking
  | stopped {g : Controller} {i : Nat} (hexited : i ∉ g.alive) : ActionMoves g (.stopping (some i)) .other g .unlocking
  | notRunning {g : Controller} (a : Action) (ha : a = .drain ∨ a = .restart) (hchild : g.child = none) :
      ActionMoves g (.locked a) .other g .unlocking
  | drain {g : Controller} {i : Nat} (hchild : g.child = some i) :
      ActionMoves g (.locked .drain) .other g (.requesting i false)
  | restart {g : Controller} {i : Nat} (hchild : g.child = some i) :
      ActionMoves g (.locked .restart) .other g (.requesting i true)
  | badGateway (g : Controller) (i : Nat) (restart : Bool) : ActionMoves g (.requesting i restart) .other g .unlocking
  | undesire (g : Controller) (i : Nat) :
      ActionMoves g (.requesting i false) (.drain i) { g with desiredRunning := false } (.draining i false)
  | keepDesired (g : Controller) (i : Nat) : ActionMoves g (.requesting i true) .other g (.draining i true)
  /-- The child has exited, or 30 minutes are over. -/
  | drainFailed (g : Controller) (i : Nat) (restart : Bool) :
      ActionMoves g (.draining i restart) .other
        (if g.child = some i then { g with desiredRunning := true } else g) .unlocking
  | drained (g : Controller) (i : Nat) (restart : Bool) :
      ActionMoves g (.draining i restart) .other g (.drained i restart)
  | drainStopped {g : Controller} {i : Nat} (restart : Bool) (hexited : i ∉ g.alive) :
      ActionMoves g (.drained i restart) .other g (if restart then .restarting else .unlocking)
  | startAgain (g : Controller) : ActionMoves g .restarting .other { g with desiredRunning := true } .unlocking
  | unlock (g : Controller) : ActionMoves g .unlocking .other { g with actionMu := false } .ended

/-- The steps of `supervise` and `run`, of the processes and of the context. -/
inductive ControllerSteps : Controller → ControlEvent → Controller → Prop
  | missing {g : Controller} (hloop : g.loop = .read) (hdesired : g.desiredRunning = true) (hchild : g.child = none) :
      ControllerSteps g .other { g with loop := .starting }
  | undesired {g : Controller} (hloop : g.loop = .read) (hdesired : g.desiredRunning = false)
      (hchild : g.child = none) : ControllerSteps g .other { g with loop := .idle }
  | watch {g : Controller} {i : Nat} (hloop : g.loop = .read) (hchild : g.child = some i) :
      ControllerSteps g .other { g with loop := .watching i }
  | notStarted {g : Controller} (hloop : g.loop = .starting) : ControllerSteps g .other { g with loop := .unstarted }
  | giveUp {g : Controller} (hloop : g.loop = .unstarted) :
      ControllerSteps g .other { g with desiredRunning := false, loop := .read }
  | startChild {g : Controller} (hloop : g.loop = .starting) :
      ControllerSteps g .other
        { g with alive := g.started :: g.alive, started := g.started + 1, loop := .started g.started }
  | setChild {g : Controller} {i : Nat} (hloop : g.loop = .started i) :
      ControllerSteps g .childSet { g with child := some i, loop := .read }
  | wake {g : Controller} (hloop : g.loop = .idle ∨ (∃ i, g.loop = .watching i) ∨ g.loop = .pausing) :
      ControllerSteps g .other { g with loop := .read }
  | done {g : Controller} {i : Nat} (hloop : g.loop = .watching i) (hexited : i ∉ g.alive) :
      ControllerSteps g .other { g with loop := .exited i }
  | handoffUnknown {g : Controller} {i : Nat} (hloop : g.loop = .exited i) :
      ControllerSteps g .other { g with loop := .returned }
  | handoff {g : Controller} {i : Nat} (hloop : g.loop = .exited i) :
      ControllerSteps g .other
        { g with child := if g.child = some i then none else g.child, desiredRunning := false, loop := .returned }
  | childExited {g : Controller} {i : Nat} (hloop : g.loop = .exited i) :
      ControllerSteps g .other { g with
          child := if g.child = some i then none else g.child
          loop := if g.desiredRunning then .pausing else .read }
  | superviseEnds {g : Controller} (hcancelled : g.cancelled = true)
      (hloop : g.loop = .idle ∨ (∃ i, g.loop = .watching i) ∨ g.loop = .pausing) :
      ControllerSteps g .other { g with loop := .returned }
  | exit (g : Controller) (i : Nat) : ControllerSteps g .other { g with alive := g.alive.filter (· ≠ i) }
  | cancel (g : Controller) : ControllerSteps g .other { g with cancelled := true }
  /-- The context is done, the server has ended, or `supervise` has. -/
  | close {g : Controller} (hphase : g.phase = .serving) :
      ControllerSteps g .other { g with cancelled := true, phase := .closing }
  | noChild {g : Controller} (hphase : g.phase = .closing) (hchild : g.child = none) :
      ControllerSteps g .other { g with phase := .joining }
  | stopChild {g : Controller} {i : Nat} (hphase : g.phase = .closing) (hchild : g.child = some i) :
      ControllerSteps g .other { g with phase := .closingChild i }
  | undesire {g : Controller} {i : Nat} (hphase : g.phase = .closingChild i) :
      ControllerSteps g .other { g with desiredRunning := false, phase := .stopping i }
  | childStopped {g : Controller} {i : Nat} (hphase : g.phase = .stopping i) (hexited : i ∉ g.alive) :
      ControllerSteps g .other { g with phase := .joining }
  | joined {g : Controller} (hphase : g.phase = .joining) (hloop : g.loop = .returned) :
      ControllerSteps g .other { g with phase := .returned }

def controller : System Controller ActionTask ControlEvent where
  moves := ActionMoves
  disturbs := ControllerSteps
  starts _ t := ∃ a, t = .call a

/-- The child is set only while it is desired and `runCtx` is not cancelled, and a drain takes the desired state back
only while the child it asked is the current one. -/
def Timely (g : Controller) : ControlEvent → Prop
  | .childSet => g.desiredRunning = true ∧ g.cancelled = false
  | .drain i => g.child = some i
  | .other => True

/-! ### The child -/

def Loop.Knows (g : Controller) : Loop → Prop
  | .starting | .started _ | .unstarted | .idle | .pausing => g.child = none
  | .watching i => g.child = some i
  | .exited i => g.child = some i ∧ i ∉ g.alive
  | .read | .returned => True

/-- What holds where `run` is. After it has read the child no other one is set. -/
def Phase.Knows (g : Controller) : Phase → Prop
  | .serving => True
  | .closing => g.cancelled = true
  | .closingChild i | .stopping i => g.cancelled = true ∧ ∀ j, g.child = some j → j = i
  | .joining => g.cancelled = true ∧ ∀ j, g.child = some j → j ∉ g.alive
  | .returned => g.cancelled = true ∧ (∀ j, g.child = some j → j ∉ g.alive) ∧ g.loop = .returned

structure Kept (g : Controller) : Prop where
  alive : ∀ i ∈ g.alive, g.child = some i ∨ g.loop = .started i
  loop : g.loop.Knows g
  phase : g.phase.Knows g

variable {g g' : Controller} {t t' : ActionTask} {e : ControlEvent} {i : Nat}

theorem ActionMoves.kept (h : ActionMoves g t e g' t') (hg : Kept g) : Kept g' := by
  cases h with
  | drainFailed =>
    split
    · exact ⟨hg.alive, hg.loop, hg.phase⟩
    · exact hg
  | lock | start | stop | undesire | startAgain | unlock => exact ⟨hg.alive, hg.loop, hg.phase⟩
  | _ => exact hg

/-- Where `run` is, it does not matter that the child goes or a process exits. -/
theorem Phase.Knows.mono {p : Phase} (h : p.Knows g) (hcancelled : g.cancelled = true → g'.cancelled = true)
    (hchild : ∀ j, g'.child = some j → g.child = some j ∧ (j ∈ g'.alive → j ∈ g.alive))
    (hloop : g.loop = .returned → g'.loop = .returned) : p.Knows g' := by
  have hdead (hg : ∀ j, g.child = some j → j ∉ g.alive) (j : Nat) (hj : g'.child = some j) : j ∉ g'.alive :=
    fun hmem => hg j (hchild j hj).1 ((hchild j hj).2 hmem)
  cases p with
  | serving => exact h
  | closing => exact hcancelled h
  | closingChild i | stopping i => exact ⟨hcancelled h.1, fun j hj => h.2 j (hchild j hj).1⟩
  | joining => exact ⟨hcancelled h.1, hdead h.2⟩
  | returned => exact ⟨hcancelled h.1, hdead h.2.1, hloop h.2.2⟩

theorem Phase.Knows.serving {p : Phase} (h : p.Knows g) (hcancelled : g.cancelled = false) : p = .serving := by
  have hnot : ¬ g.cancelled = true := by simp [hcancelled]
  cases p with
  | serving => rfl
  | closing => exact absurd h hnot
  | closingChild | stopping | joining | returned => exact absurd h.1 hnot

theorem Kept.set_loop (hg : Kept g) {loop : Loop} (hstarted : ∀ i, g.loop ≠ .started i) (hreturned : g.loop ≠ .returned)
    (hloop : loop.Knows { g with loop }) : Kept { g with loop } where
  alive i hi := .inl ((hg.alive i hi).resolve_right (hstarted i))
  loop := hloop
  phase := hg.phase.mono id (fun _ hj => ⟨hj, id⟩) fun h => absurd h hreturned

theorem Kept.clear_child (hg : Kept g) (hloop : g.loop = .exited i) (loop : Loop)
    (hnone : ∀ g' : Controller, g'.child = none → loop.Knows g') :
    Kept { g with child := if g.child = some i then none else g.child, loop } := by
  have hknows := hg.loop
  rw [hloop] at hknows
  rw [if_pos hknows.1]
  refine ⟨fun j hj => ?_, hnone _ rfl, hg.phase.mono id nofun fun h => by simp [hloop] at h⟩
  rcases hg.alive j hj with hchild | hstarted
  · cases hknows.1.symm.trans hchild
    exact absurd hj hknows.2
  · simp [hloop] at hstarted

theorem ControllerSteps.kept (h : ControllerSteps g e g') (hallowed : Timely g e) (hg : Kept g) : Kept g' := by
  have hknows := hg.loop
  have hphase := hg.phase
  cases h with
  | missing hloop _ hchild | undesired hloop _ hchild | watch hloop hchild =>
    exact hg.set_loop (by simp [hloop]) (by simp [hloop]) hchild
  | notStarted hloop =>
    rw [hloop] at hknows
    exact hg.set_loop (by simp [hloop]) (by simp [hloop]) hknows
  | giveUp hloop =>
    have hread : Kept { g with loop := .read } := hg.set_loop (by simp [hloop]) (by simp [hloop]) trivial
    exact ⟨hread.alive, hread.loop, hread.phase⟩
  | startChild hloop =>
    rw [hloop] at hknows
    have hnone : ∀ j, g.child ≠ some j := fun j hj => nomatch hknows.symm.trans hj
    refine ⟨fun i hi => ?_, hknows, hphase.mono id (fun j hj => absurd hj (hnone j)) fun h => by simp [hloop] at h⟩
    rcases mem_cons.mp hi with rfl | hi
    · exact .inr rfl
    rcases hg.alive i hi with hchild | hstarted
    · exact absurd hchild (hnone i)
    · simp [hloop] at hstarted
  | @setChild i hloop =>
    rw [hloop] at hknows
    refine ⟨fun j hj => ?_, trivial, ?_⟩
    · rcases hg.alive j hj with hchild | hstarted
      · exact nomatch hknows.symm.trans hchild
      · obtain rfl := Loop.started.inj (hloop.symm.trans hstarted)
        exact .inl rfl
    · rw [hphase.serving hallowed.2]
      trivial
  | wake hloop | superviseEnds _ hloop =>
    rcases hloop with hloop | ⟨i, hloop⟩ | hloop
    all_goals exact hg.set_loop (by simp [hloop]) (by simp [hloop]) trivial
  | done hloop hexited =>
    rw [hloop] at hknows
    exact hg.set_loop (by simp [hloop]) (by simp [hloop]) ⟨hknows, hexited⟩
  | handoffUnknown hloop => exact hg.set_loop (by simp [hloop]) (by simp [hloop]) trivial
  | handoff hloop =>
    have hreturned := hg.clear_child hloop .returned fun _ _ => trivial
    exact ⟨hreturned.alive, hreturned.loop, hreturned.phase⟩
  | childExited hloop =>
    refine hg.clear_child hloop _ fun g' hchild => ?_
    split
    · exact hchild
    · trivial
  | exit =>
    refine ⟨fun j hj => hg.alive j (mem_of_mem_filter hj), ?_, hphase.mono id (fun j hj => ⟨hj, ?_⟩) id⟩
    · cases hloop : g.loop with
      | exited =>
        rw [hloop] at hknows
        exact ⟨hknows.1, fun hmem => hknows.2 (mem_of_mem_filter hmem)⟩
      | _ =>
        rw [hloop] at hknows
        exact hknows
    · exact mem_of_mem_filter
  | cancel => exact ⟨hg.alive, hknows, hphase.mono (fun _ => rfl) (fun _ hj => ⟨hj, id⟩) id⟩
  | close => exact ⟨hg.alive, hknows, rfl⟩
  | noChild hp hchild =>
    rw [hp] at hphase
    exact ⟨hg.alive, hknows, hphase, fun j hj => nomatch hchild.symm.trans hj⟩
  | stopChild hp hchild =>
    rw [hp] at hphase
    exact ⟨hg.alive, hknows, hphase, fun j hj => Option.some.inj (hj.symm.trans hchild)⟩
  | undesire hp =>
    rw [hp] at hphase
    exact ⟨hg.alive, hknows, hphase⟩
  | childStopped hp hexited =>
    rw [hp] at hphase
    exact ⟨hg.alive, hknows, hphase.1, fun j hj => hphase.2 j hj ▸ hexited⟩
  | joined hp hloop =>
    rw [hp] at hphase
    exact ⟨hg.alive, hknows, hphase.1, hphase.2, hloop⟩

theorem controller_kept : Keeps (controller.restrict Timely) Kept fun _ _ => True where
  move h hg _ := ⟨h.1.kept hg, trivial, fun _ _ => trivial⟩
  disturb h hg := ⟨h.1.kept h.2 hg, fun _ _ => trivial⟩
  start _ _ := trivial

/-! ### The desired state -/

def Unwanted (i : Nat) (g : Controller) : Prop :=
  g.child = some i ∧ i ∈ g.alive ∧ g.desiredRunning = false ∧ g.phase ≠ .stopping i

def Ends (i : Nat) : ActionTask → Prop
  | .stopping child => child = some i
  | .draining j false | .drained j false => j = i
  | _ => False

theorem ActionMoves.unwanted (h : ActionMoves g t e g' t') (hallowed : Timely g e) (hneed : Unwanted i g') :
    Ends i t' ∨ Unwanted i g ∧ ¬ Ends i t := by
  cases h with
  | start | startAgain => exact nomatch hneed.2.2.1
  | stop => exact .inl hneed.1
  | undesire j =>
    have hchild : g.child = some j := hallowed
    exact .inl (Option.some.inj (hchild.symm.trans hneed.1))
  | @stopped j hexited =>
    refine .inr ⟨hneed, fun h => ?_⟩
    obtain rfl := Option.some.inj h
    exact hexited hneed.2.1
  | drainFailed j restart =>
    split at hneed
    · exact nomatch hneed.2.2.1
    rename_i hchild
    refine .inr ⟨hneed, fun h => ?_⟩
    cases restart with
    | true => exact h
    | false =>
      obtain rfl : j = i := h
      exact hchild hneed.1
  | drained j restart =>
    cases restart with
    | true => exact .inr ⟨hneed, id⟩
    | false =>
      by_cases hj : j = i
      · exact .inl hj
      · exact .inr ⟨hneed, hj⟩
  | @drainStopped j restart hexited =>
    refine .inr ⟨hneed, fun h => ?_⟩
    cases restart with
    | true => exact h
    | false =>
      obtain rfl : j = i := h
      exact hexited hneed.2.1
  | nothingToStop => exact .inr ⟨hneed, nofun⟩
  | _ => exact .inr ⟨hneed, id⟩

theorem ControllerSteps.unwanted (h : ControllerSteps g e g') (hallowed : Timely g e) (hg : Kept g)
    (hneed : Unwanted i g') : Unwanted i g := by
  have hphase := hg.phase
  have hknows := hg.loop
  obtain ⟨hchild, halive, hdesired, hstopping⟩ := hneed
  cases h with
  | giveUp hloop | startChild hloop =>
    rw [hloop] at hknows
    exact nomatch hknows.symm.trans hchild
  | setChild => exact nomatch hallowed.1.symm.trans hdesired
  | @handoff j hloop | @childExited j hloop =>
    rw [hloop] at hknows
    rw [if_pos hknows.1] at hchild
    exact nomatch hchild
  | exit => exact ⟨hchild, mem_of_mem_filter halive, hdesired, hstopping⟩
  | undesire hp =>
    rw [hp] at hphase
    obtain rfl := hphase.2 i hchild
    exact absurd rfl hstopping
  | childStopped hp hexited =>
    rw [hp] at hphase
    obtain rfl := hphase.2 i hchild
    exact absurd halive hexited
  | close hp | noChild hp | stopChild hp | joined hp =>
    exact ⟨hchild, halive, hdesired, by simp [hp]⟩
  | _ => exact ⟨hchild, halive, hdesired, hstopping⟩

theorem controller_ends (i : Nat) : Attends (controller.restrict Timely) Kept (Unwanted i) fun _ => Ends i where
  move h _ hneed := (h.1.unwanted h.2 hneed).imp_right fun h => ⟨h.1, h.2, fun _ => id⟩
  disturb h hg hneed := ⟨h.1.unwanted h.2 hg hneed, fun _ => id⟩

def Settled (s : State Controller ActionTask) : Prop :=
  (∀ t ∈ s.tasks, t = .ended ∨ ∃ a, t = .call a) ∧ s.shared.loop ≠ .starting ∧ (∀ i, s.shared.loop ≠ .started i) ∧
    ∀ i, s.shared.phase ≠ .stopping i

/-- A child runs in a settled state only if it is desired, and none is alive when `run` has returned. -/
theorem controller_keeps_its_word (s : State Controller ActionTask) (hrun : Run (controller.restrict Timely) ⟨{}, []⟩ s) :
    (Settled s → s.shared.alive ≠ [] → s.shared.desiredRunning = true) ∧
      (s.shared.phase = .returned → s.shared.alive = []) := by
  have hempty : Kept {} := ⟨nofun, trivial, trivial⟩
  have hkept : Kept s.shared := (controller_kept.run hrun ⟨hempty, nofun⟩).1
  refine ⟨fun hsettled halive => ?_, fun hreturned => ?_⟩
  · obtain ⟨i, hi⟩ := exists_mem_of_ne_nil _ halive
    have hchild := (hkept.alive i hi).resolve_right (hsettled.2.2.1 i)
    by_contra hdesired
    rw [Bool.not_eq_true] at hdesired
    obtain ⟨t, ht, hends⟩ := (controller_ends i).run controller_kept hrun hempty nofun
      ⟨hchild, hi, hdesired, hsettled.2.2.2 i⟩
    rcases hsettled.1 t ht with rfl | ⟨a, rfl⟩
    · exact hends
    · exact hends
  · have hphase := hkept.phase
    rw [hreturned] at hphase
    obtain ⟨-, hdead, hloop⟩ := hphase
    refine eq_nil_iff_forall_not_mem.mpr fun i hi => ?_
    rcases hkept.alive i hi with hchild | hstarted
    · exact hdead i hchild hi
    · exact nomatch hloop.symm.trans hstarted

theorem controller_runs_and_returns : ∃ s s' : State Controller ActionTask,
    Run (controller.restrict Timely) ⟨{}, []⟩ s ∧ s.shared.alive = [0] ∧ s.shared.desiredRunning = true ∧
      Run (controller.restrict Timely) ⟨{}, []⟩ s' ∧ s'.shared.started = 1 ∧ s'.shared.alive = [] := by
  have hrun : Run (controller.restrict Timely) ⟨{}, []⟩ _ := .refl
  have hrun := hrun.disturb ⟨.missing rfl rfl rfl, trivial⟩
  have hrun := hrun.disturb ⟨.startChild rfl, trivial⟩
  have hrun := hrun.disturb ⟨.setChild rfl, rfl, rfl⟩
  have hrun := hrun.disturb ⟨.watch rfl rfl, trivial⟩
  have hmore := hrun.disturb ⟨.close rfl, trivial⟩
  have hmore := hmore.disturb ⟨.stopChild rfl rfl, trivial⟩
  have hmore := hmore.disturb ⟨.undesire rfl, trivial⟩
  have hmore := hmore.disturb ⟨.exit _ 0, trivial⟩
  have hmore := hmore.disturb ⟨.childStopped rfl nofun, trivial⟩
  have hmore := hmore.disturb ⟨.superviseEnds rfl (.inr (.inl ⟨0, rfl⟩)), trivial⟩
  have hmore := hmore.disturb ⟨.joined rfl rfl, trivial⟩
  exact ⟨_, _, hrun, rfl, (controller_keeps_its_word _ hrun).1 ⟨nofun, nofun, nofun, nofun⟩ nofun, hmore, rfl,
    (controller_keeps_its_word _ hmore).2 rfl⟩

/-- A stop that arrives while the child is being started finds nothing to stop, and so does the end of `run`. -/
theorem started_child_survives_stop :
    (∃ s, Run controller ⟨{}, []⟩ s ∧ Settled s ∧ s.shared.alive = [0] ∧ s.shared.desiredRunning = false) ∧
      ∃ s, Run controller ⟨{}, []⟩ s ∧ s.shared.phase = .returned ∧ s.shared.alive = [0] := by
  have hrun : Run controller ⟨{}, []⟩ _ := .refl
  have hrun := hrun.disturb (.missing rfl rfl rfl)
  have hstop := hrun.start ⟨.stop, rfl⟩
  have hstop := hstop.move [] [] (.lock .stop rfl)
  have hstop := hstop.move [] [] (.stop _)
  have hstop := hstop.move [] [] (.nothingToStop _)
  have hstop := hstop.move [] [] (.unlock _)
  have hstop := hstop.disturb (.startChild rfl)
  have hstop := hstop.disturb (.setChild rfl)
  have hstop := hstop.disturb (.watch rfl rfl)
  have hclose := hrun.disturb (.close rfl)
  have hclose := hclose.disturb (.noChild rfl rfl)
  have hclose := hclose.disturb (.startChild rfl)
  have hclose := hclose.disturb (.setChild rfl)
  have hclose := hclose.disturb (.watch rfl rfl)
  have hclose := hclose.disturb (.superviseEnds rfl (.inr (.inl ⟨0, rfl⟩)))
  have hclose := hclose.disturb (.joined rfl rfl)
  refine ⟨⟨_, hstop, ⟨fun t ht => ?_, nofun, nofun, nofun⟩, rfl, rfl⟩, _, hclose, rfl, rfl⟩
  exact .inl (mem_singleton.mp ht)

end Maistr0.NodeControl
