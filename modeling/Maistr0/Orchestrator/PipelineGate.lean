import Maistr0.Lib.Interleaving

/-!
# The pipeline request gate

`pipelineRequestGate` keeps the requests of a sharded model and the changes of its pipeline plan apart. It has one
state for each model; this is one of them. Each turn of the loops of `begin` and `beginReshard` is one move, since it
holds the lock from the check to the wait. A context may be cancelled whenever it is looked at.

A channel is a number. `signalLocked` closes the current one and makes the next, so that the closed ones are those
below the current one.
-/

namespace Maistr0.Orchestrator

open Lib.Interleaving List

structure PipelineRequestState where
  active : Int := 0
  resharding : Bool := false
  changed : Nat := 0

def PipelineRequestState.signalLocked (g : PipelineRequestState) : PipelineRequestState :=
  { g with changed := g.changed + 1 }

inductive GateTask
  | request
  | waiting (channel : Nat)
  | holding
  | reshard
  | queued (channel : Nat)
  /-- A reshard keeps new requests out and waits for the last one to end. -/
  | draining (channel : Nat)
  | held
  | done
  deriving DecidableEq

/-- The end of a turn of `beginReshard` that has set `resharding`. -/
inductive Drain : PipelineRequestState → PipelineRequestState → GateTask → Prop
  | wait {g : PipelineRequestState} (h : 0 < g.active) : Drain g g (.draining g.changed)
  | cancelled {g : PipelineRequestState} (h : ¬ 0 < g.active) :
      Drain g { g with resharding := false }.signalLocked .done
  | held {g : PipelineRequestState} (h : ¬ 0 < g.active) : Drain g g .held

inductive GateMoves : PipelineRequestState → GateTask → Unit → PipelineRequestState → GateTask → Prop
  | requestCancelled (g : PipelineRequestState) : GateMoves g .request () g .done
  | begin {g : PipelineRequestState} (h : g.resharding = false) :
      GateMoves g .request () { g with active := g.active + 1 } .holding
  | wait {g : PipelineRequestState} (h : g.resharding = true) : GateMoves g .request () g (.waiting g.changed)
  | wake {g : PipelineRequestState} {channel : Nat} (h : channel < g.changed) :
      GateMoves g (.waiting channel) () g .request
  | waitCancelled (g : PipelineRequestState) (channel : Nat) : GateMoves g (.waiting channel) () g .done
  | release (g : PipelineRequestState) :
      GateMoves g .holding () { g with active := g.active - 1 }.signalLocked .done
  | reshardCancelled (g : PipelineRequestState) : GateMoves g .reshard () g .done
  | queue {g : PipelineRequestState} (h : g.resharding = true) : GateMoves g .reshard () g (.queued g.changed)
  | dequeue {g : PipelineRequestState} {channel : Nat} (h : channel < g.changed) :
      GateMoves g (.queued channel) () g .reshard
  | queueCancelled (g : PipelineRequestState) (channel : Nat) : GateMoves g (.queued channel) () g .done
  | beginReshard {g g' : PipelineRequestState} {t : GateTask} (h : g.resharding = false)
      (hdrain : Drain { g with resharding := true } g' t) : GateMoves g .reshard () g' t
  | drain {g g' : PipelineRequestState} {channel : Nat} {t : GateTask} (h : channel < g.changed)
      (hdrain : Drain g g' t) : GateMoves g (.draining channel) () g' t
  | drainCancelled (g : PipelineRequestState) (channel : Nat) :
      GateMoves g (.draining channel) () { g with resharding := false }.signalLocked .done
  | reshardDone (g : PipelineRequestState) : GateMoves g .held () { g with resharding := false }.signalLocked .done

def pipelineGate : System PipelineRequestState GateTask Unit where
  moves := GateMoves
  disturbs _ _ _ := False
  starts _ t := t = .request ∨ t = .reshard

namespace GateTask

def active : GateTask → Nat
  | holding => 1
  | _ => 0

/-- Has set `resharding`, and will reset it. -/
def owns : GateTask → Nat
  | draining _ | held => 1
  | _ => 0

def waitsOn : GateTask → Option Nat
  | waiting channel | queued channel | draining channel => some channel
  | _ => none

def Blocked (g : PipelineRequestState) : GateTask → Prop
  | waiting _ | queued _ => g.resharding = true
  | draining _ => 0 < g.active
  | _ => False

end GateTask

variable {g g' : PipelineRequestState} {t t' : GateTask} {s s' : State PipelineRequestState GateTask}

/-- The state only changes towards what a waiter waits for if the channel is closed. -/
structure Signals (g g' : PipelineRequestState) : Prop where
  grows : g.changed ≤ g'.changed
  quiet : g'.changed = g.changed → (g.resharding = true → g'.resharding = true) ∧ g.active ≤ g'.active

theorem Signals.of_signal (g' : PipelineRequestState) (h : g'.changed = g.changed) : Signals g g'.signalLocked := by
  refine ⟨?_, fun hquiet => ?_⟩
  · change g.changed ≤ g'.changed + 1
    omega
  · change g'.changed + 1 = g.changed at hquiet
    omega

theorem Drain.signals (h : Drain g g' t) : Signals g g' := by
  cases h with
  | wait | held => exact ⟨Nat.le_refl _, fun _ => ⟨id, Int.le_refl _⟩⟩
  | cancelled => exact Signals.of_signal _ rfl

theorem GateMoves.signals (h : GateMoves g t () g' t') : Signals g g' := by
  cases h with
  | begin => exact ⟨Nat.le_refl _, fun _ => ⟨id, by dsimp only; omega⟩⟩
  | release | drainCancelled | reshardDone => exact Signals.of_signal _ rfl
  | beginReshard _ hdrain =>
    exact ⟨hdrain.signals.grows, fun hquiet => ⟨fun _ => (hdrain.signals.quiet hquiet).1 rfl, (hdrain.signals.quiet hquiet).2⟩⟩
  | drain _ hdrain => exact hdrain.signals
  | requestCancelled | wait | wake | waitCancelled | reshardCancelled | queue | dequeue | queueCancelled =>
    exact ⟨Nat.le_refl _, fun _ => ⟨id, Int.le_refl _⟩⟩

def Awaits (g : PipelineRequestState) (t : GateTask) : Prop :=
  ∀ channel, t.waitsOn = some channel → channel < g.changed ∨ channel = g.changed ∧ t.Blocked g

theorem Awaits.mono (h : Awaits g t) (hsignals : Signals g g') : Awaits g' t := by
  intro channel hchannel
  rcases h channel hchannel with hclosed | ⟨rfl, hblocked⟩
  · exact .inl (Nat.lt_of_lt_of_le hclosed hsignals.grows)
  rcases Nat.lt_or_eq_of_le hsignals.grows with hlt | heq
  · exact .inl hlt
  obtain ⟨hresharding, hactive⟩ := hsignals.quiet heq.symm
  refine .inr ⟨heq, ?_⟩
  cases t with
  | waiting | queued => exact hresharding hblocked
  | draining => exact Int.lt_of_lt_of_le hblocked hactive
  | request | holding | reshard | held | done => exact hblocked

theorem Awaits.of_none (h : t.waitsOn = none) : Awaits g t := by
  intro channel hchannel
  rw [h] at hchannel
  cases hchannel

theorem Awaits.current (h : t.Blocked g) (ht : t.waitsOn = some g.changed) : Awaits g t := by
  intro channel hchannel
  exact .inr ⟨Option.some.inj (hchannel.symm.trans ht), h⟩

theorem Drain.awaits (h : Drain g g' t) : Awaits g' t := by
  cases h with
  | wait h => exact Awaits.current h rfl
  | cancelled | held => exact Awaits.of_none rfl

theorem GateMoves.awaits (h : GateMoves g t () g' t') : Awaits g' t' := by
  cases h with
  | wait h | queue h => exact Awaits.current h rfl
  | beginReshard _ hdrain | drain _ hdrain => exact hdrain.awaits
  | requestCancelled | begin | wake | waitCancelled | release | reshardCancelled | dequeue | queueCancelled
  | drainCancelled | reshardDone => exact Awaits.of_none rfl

theorem keeps_awaits : Keeps pipelineGate (fun _ => True) Awaits where
  move h _ _ := ⟨trivial, h.awaits, fun _ hu => hu.mono h.signals⟩
  disturb h _ := h.elim
  start h _ := by
    rcases h with rfl | rfl <;> exact Awaits.of_none rfl

theorem conserves_active : Conserves pipelineGate PipelineRequestState.active GateTask.active where
  move h := by
    cases h with
    | beginReshard _ hdrain | drain _ hdrain => cases hdrain <;> rfl
    | _ => simp [GateTask.active, PipelineRequestState.signalLocked]
  disturb h := h.elim
  start h := by rcases h with rfl | rfl <;> rfl

theorem share_le_total (share : GateTask → Nat) {ts : List GateTask} (ht : t ∈ ts) : share t ≤ total share ts := by
  obtain ⟨_, _, rfl⟩ := append_of_mem ht
  rw [total_split]
  omega

/-- One that has set `resharding`, if it is set. -/
def PipelineRequestState.owners (g : PipelineRequestState) : Nat := if g.resharding then 1 else 0

theorem Drain.owners (h : Drain g g' t) (hset : g.resharding = true) : g'.owners = t.owns := by
  cases h <;> simp [PipelineRequestState.owners, PipelineRequestState.signalLocked, GateTask.owns, hset]

theorem GateMoves.owners (h : GateMoves g t () g' t') (hset : t.owns = 1 → g.owners = 1) :
    g'.owners + t.owns = g.owners + t'.owns := by
  cases h with
  | beginReshard h hdrain =>
    have hclear : g.owners = 0 := by simp [PipelineRequestState.owners, h]
    rw [hdrain.owners rfl, hclear]
    exact Nat.add_comm _ _
  | drain _ hdrain =>
    have hone : g.owners = 1 := hset rfl
    unfold PipelineRequestState.owners at hone
    rw [hdrain.owners (by simpa using hone), hset rfl]
    exact Nat.add_comm _ _
  | drainCancelled | reshardDone =>
    rw [hset rfl]
    rfl
  | requestCancelled | begin | release | wait | wake | waitCancelled | reshardCancelled | queue | dequeue | queueCancelled => rfl

theorem GateMoves.active_eq (h : GateMoves g t () g' t') (hset : g.resharding = true) (ht : t.active = 0) :
    g'.active = g.active := by
  cases h with
  | begin h => simp [hset] at h
  | release => cases ht
  | beginReshard _ hdrain | drain _ hdrain => cases hdrain <;> rfl
  | requestCancelled | wait | wake | waitCancelled | reshardCancelled | queue | dequeue | queueCancelled
  | drainCancelled | reshardDone => rfl

theorem GateMoves.held (h : GateMoves g t () g' .held) : ¬ 0 < g'.active := by
  cases h with
  | beginReshard _ hdrain | drain _ hdrain =>
    cases hdrain
    assumption

/-- The tasks that count as active, the one that has set `resharding`, and no active one beside a held reshard. -/
structure Guarded (s : State PipelineRequestState GateTask) : Prop where
  active : s.shared.active = total GateTask.active s.tasks
  owners : s.shared.owners = total GateTask.owns s.tasks
  held : .held ∈ s.tasks → s.shared.active = 0

theorem Guarded.step {e : Option Unit} (h : Step pipelineGate s e s') (hs : Guarded s) : Guarded s' := by
  have hactive := conserves_active.step h hs.active
  cases h with
  | @move g g' t t' e l r h =>
    have howns : g.owners = total GateTask.owns (l ++ t :: r) := hs.owners
    have hle : g.owners ≤ 1 := by
      unfold PipelineRequestState.owners
      split <;> omega
    have hmove := GateMoves.owners h fun ht => by
      rw [total_split] at howns
      omega
    refine ⟨hactive, ?_, fun hheld => ?_⟩
    · change g'.owners = _
      rw [total_split] at howns ⊢
      omega
    change g'.active = 0
    by_cases hnew : t' = .held
    · subst hnew
      have hnot := GateMoves.held h
      change g'.active = _ at hactive
      omega
    -- another task holds, so nothing is active and nothing can become so
    have hother : .held ∈ l ++ t :: r := by
      simp only [mem_append, mem_cons, Ne.symm hnew, false_or] at hheld ⊢
      exact hheld.imp_right .inr
    have hzero := hs.held hother
    have hset : g.resharding = true := by
      have hone : 1 ≤ g.owners := howns ▸ share_le_total GateTask.owns hother
      unfold PipelineRequestState.owners at hone
      split at hone
      · assumption
      · cases hone
    have ht : t.active = 0 := by
      have hsum := hs.active
      change g.active = _ at hsum
      change g.active = 0 at hzero
      rw [total_split] at hsum
      omega
    rw [GateMoves.active_eq h hset ht]
    exact hzero
  | disturb _ h => exact h.elim
  | @start g t ts h =>
    refine ⟨hactive, ?_, fun hheld => hs.held ?_⟩
    · rw [total_split, append_nil]
      rcases h with rfl | rfl <;> exact hs.owners
    rcases mem_append.mp hheld with hheld | hheld
    · exact hheld
    · rcases h with rfl | rfl <;> cases mem_singleton.mp hheld

theorem Guarded.run (h : Run pipelineGate s s') (hs : Guarded s) : Guarded s' := by
  induction h with
  | refl => exact hs
  | tail _ hstep ih =>
    obtain ⟨_, hstep⟩ := hstep
    exact ih.step hstep

/-- No request is active beside a held reshard, and there is at most one reshard that is held or drains the requests;
requests are only kept out while there is one, so that a cancelled reshard leaves the gate open. Who waits does so on
a channel that is closed already, or he is blocked and any step towards what he waits for closes it. -/
theorem pipeline_gate_excludes (s : State PipelineRequestState GateTask) (h : Run pipelineGate ⟨{}, []⟩ s) :
    (.held ∈ s.tasks → .holding ∉ s.tasks ∧ s.shared.active = 0) ∧ total GateTask.owns s.tasks ≤ 1 ∧
      ((∀ t ∈ s.tasks, t.owns = 0) → s.shared.resharding = false) ∧
      ∀ t ∈ s.tasks, ∀ channel, t.waitsOn = some channel → channel < s.shared.changed ∨
        t.Blocked s.shared ∧ ∀ e s', Step pipelineGate s e s' →
          (s.shared.resharding = true ∧ s'.shared.resharding = false ∨ s'.shared.active < s.shared.active) →
          channel < s'.shared.changed := by
  have hs := Guarded.run h ⟨rfl, rfl, nofun⟩
  have hwaits := (keeps_awaits.run h ⟨trivial, nofun⟩).2
  refine ⟨fun hheld => ⟨fun hholding => ?_, hs.held hheld⟩, ?_, fun hnone => ?_, fun t ht channel hchannel => ?_⟩
  · have hone := share_le_total GateTask.active hholding
    have hsum := hs.active
    rw [hs.held hheld] at hsum
    change 1 ≤ _ at hone
    omega
  · rw [← hs.owners]
    unfold PipelineRequestState.owners
    split <;> omega
  · have hzero : total GateTask.owns s.tasks = 0 := by
      unfold total
      rw [map_congr_left hnone]
      simp
    have howners := hs.owners
    rw [hzero] at howners
    simpa [PipelineRequestState.owners] using howners
  · refine (hwaits t ht channel hchannel).imp_right fun ⟨hcurrent, hblocked⟩ => ⟨hblocked, fun e s' hstep hrelevant => ?_⟩
    have hsignals : Signals s.shared s'.shared := by
      cases hstep with
      | move _ _ hmove => exact GateMoves.signals hmove
      | disturb _ hno => exact hno.elim
      | start => exact ⟨Nat.le_refl _, fun _ => ⟨id, Int.le_refl _⟩⟩
    rw [hcurrent]
    refine Nat.lt_of_le_of_ne hsignals.grows fun heq => ?_
    obtain ⟨hresharding, hactive⟩ := hsignals.quiet heq.symm
    rcases hrelevant with ⟨hset, hclear⟩ | hless
    · rw [hresharding hset] at hclear
      cases hclear
    · omega

/-- One request is held up by a reshard. -/
theorem pipeline_gate_waiting : ∃ s : State PipelineRequestState GateTask, Run pipelineGate ⟨{}, []⟩ s ∧
    s.tasks = [.held, .waiting 0] ∧ s.shared.active = 0 ∧ total GateTask.owns s.tasks ≤ 1 := by
  have hrun : Run pipelineGate ⟨{}, []⟩ _ := .refl
  have hrun := hrun.start (.inr rfl)
  have hrun := hrun.move [] [] (.beginReshard rfl (.held (by decide)))
  have hrun := hrun.start (.inl rfl)
  have hrun := hrun.move [GateTask.held] [] (.wait rfl)
  have hgate := pipeline_gate_excludes _ hrun
  exact ⟨_, hrun, rfl, (hgate.1 mem_cons_self).2, hgate.2.1⟩

end Maistr0.Orchestrator
