import Maistr0.Failover.Coordinator

/-!
# Promotions that fail

What is left behind when `promote` returns an error. As long as the promotion has not started a server of its own, the
process is back where it was and the next election reaches `promote` again. A server that was started is neither stopped
nor forgotten: the error leaves it recorded and running.
-/

namespace Maistr0.Failover

open Discovery Relation Function Option List

/-! ### What a call still owns -/

namespace Call

def Holds : Call → Nat → Prop
  | .idle, _ | .promoted, _ | .ending, _ => True
  | .waiting _ server, id | .switching _ server, id | .watching server, id | .resuming _ server, id
  | .restoring server, id => id = server
  | .failed failure, id => failure.started = some id
  | _, _ => False

def started : Call → Option Nat
  | .waiting _ server | .switching _ server => some server
  | .failed failure => failure.started
  | _ => none

def reviving : Call → Option Nat
  | .reinstated _ server | .undoing server => some server
  | _ => none

def server : Call → Option Nat
  | .waiting _ server | .switching _ server | .watching server | .reinstating _ server | .reinstated _ server
  | .undoing server | .resuming _ server | .restoring server => some server
  | .failed failure => failure.started
  | _ => none

/-- The next call owns nothing new and gives up nothing that is still needed. -/
structure Before (c c' : Call) : Prop where
  holds : ∀ id, c.Holds id → c'.Holds id
  reviving : ∀ id, c.reviving = some id → c'.reviving = some id
  started : ∀ id, c'.started = some id → c.started = some id
  server : ∀ id, c'.server = some id → c.server = some id
  restoring : ∀ id, c' ≠ .restoring id

end Call

namespace Process

variable {p p' : Process}

variable {address : String} {id : Nat} {id' : Nat}

variable (p)

@[simp] theorem run_setRetired (id id' : Nat) (retired : Bool) :
    ((p.setRetired id retired).server id').run = (p.server id').run := by
  by_cases h : id' = id
  · subst h
    simp [setRetired]
  · simp [setRetired, h]

@[simp] theorem run_setRun (id : Nat) (run : RunStage) : ((p.setRun id run).server id).run = run := by
  simp [setRun]

@[simp] theorem retired_setRun (id id' : Nat) (run : RunStage) :
    ((p.setRun id run).server id').retired = (p.server id').retired := by
  by_cases h : id' = id
  · subst h
    simp [setRun]
  · simp [setRun, h]

theorem server_setRun_of_ne (run : RunStage) (h : id' ≠ id) : (p.setRun id run).server id' = p.server id' :=
  update_of_ne h _ _

@[simp] theorem retired_setRetired (id : Nat) (retired : Bool) :
    ((p.setRetired id retired).server id).retired = retired := by
  simp [setRetired]

theorem server_setRetired_of_ne (retired : Bool) (h : id' ≠ id) : (p.setRetired id retired).server id' = p.server id' :=
  update_of_ne h _ _

theorem not_leads_setRetired (id : Nat) : ¬ ((p.setRetired id true).server id).Leads := by
  simp [setRetired, Server.Leads]

variable {p}

theorem leads_of_setRetired_true (h : ((p.setRetired id true).server id').Leads) : (p.server id').Leads := by
  by_cases hid : id' = id
  · subst hid
    exact absurd h (p.not_leads_setRetired id')
  · simpa [setRetired, hid] using h

theorem leads_of_setRetired_of_ne {retired : Bool} (hid : id' ≠ id)
    (h : ((p.setRetired id retired).server id').Leads) : (p.server id').Leads := by
  simpa [setRetired, hid] using h

structure Inv (p : Process) : Prop where
  held : ∀ id, p.promoted = some id → p.call.Holds id
  alive : ∀ id, p.promoted = some id ∨ p.retired = some id → (p.server id).run ≠ .finished
  leads : ∀ id, (p.server id).Leads →
    p.promoted = some id ∨ (∃ s ∈ p.stepping, s.server = id) ∨ p.call.reviving = some id ∨ p.closed = true
  started : ∀ id, p.call.started = some id → p.closed = false → (p.server id).run ≠ .finished → p.promoted = some id
  unwatched : ∀ id, p.call.started = some id → id ∉ p.watches
  built : ∀ id, p.promoted = some id ∨ p.retired = some id ∨ id ∈ p.watches ∨ p.call.server = some id → id < p.built
  restoring : ∀ id, p.call = .restoring id → (p.server id).retired = true

theorem Inv.start (agentID : String) : Inv (start agentID) where
  held _ h := absurd h (by simp [Process.start])
  alive _ h := absurd h (by simp [Process.start])
  leads _ h := absurd h.1 (by simp [Process.start])
  started _ h := absurd h (by simp [Process.start, Call.started])
  unwatched _ h := absurd h (by simp [Process.start, Call.started])
  built _ h := absurd h (by simp [Process.start, Call.server])
  restoring _ h := Call.noConfusion h

theorem Inv.moveOn (h : Inv p) (agent : Agent) (running : Bool) {call : Call}
    (hheld : ∀ id, p.promoted = some id → call.Holds id)
    (hreviving : ∀ id, p.call.reviving = some id → call.reviving = some id ∨ ¬ (p.server id).Leads)
    (hstarted : ∀ id, call.started = some id → p.call.started = some id)
    (hserver : ∀ id, call.server = some id → id < p.built)
    (hrestoring : ∀ id, call = .restoring id → (p.server id).retired = true) :
    Inv { p with agent := agent, running := running, call := call } where
  held := hheld
  alive := h.alive
  leads id hleads := by
    rcases h.leads id hleads with hrecorded | hstepping | hrev | hclosed
    · exact .inl hrecorded
    · exact .inr (.inl hstepping)
    · exact .inr (.inr (.inl ((hreviving id hrev).resolve_right (not_not_intro hleads))))
    · exact .inr (.inr (.inr hclosed))
  started id hid := h.started id (hstarted id hid)
  unwatched id hid := h.unwatched id (hstarted id hid)
  built id hid := by
    rcases hid with hpromoted | hretired | hwatch | hcall
    · exact h.built id (.inl hpromoted)
    · exact h.built id (.inr (.inl hretired))
    · exact h.built id (.inr (.inr (.inl hwatch)))
    · exact hserver id hcall
  restoring := hrestoring

theorem Inv.retire (h : Inv p) (id : Nat) : Inv (p.setRetired id true) where
  held := h.held
  alive id' hid := by
    rw [run_setRetired]
    exact h.alive id' hid
  leads id' hleads := h.leads id' (leads_of_setRetired_true hleads)
  started id' := by
    rw [run_setRetired]
    exact h.started id'
  unwatched := h.unwatched
  built := h.built
  restoring id' hid := by
    by_cases heq : id' = id
    · rw [heq]
      exact retired_setRetired p id true
    · rw [server_setRetired_of_ne p _ heq]
      exact h.restoring id' hid

theorem Inv.before (h : Inv p) (agent : Agent) (running : Bool) {c c' : Call} (hcall : p.call = c) (hbefore : c.Before c') :
    Inv { p with agent := agent, running := running, call := c' } := by
  subst hcall
  exact h.moveOn agent running (fun id hid => hbefore.holds id (h.held id hid)) (fun id hid => .inl (hbefore.reviving id hid))
    hbefore.started (fun id hid => h.built id (.inr (.inr (.inr (hbefore.server id hid)))))
    fun id hid => absurd hid (hbefore.restoring id)

/-! ### The steps that change more than the call -/

section

variable (h : Inv p)

include h

theorem Inv.startServer (hcall : p.call = .building address) : Inv { p with
    promoted := some p.built
    server := update p.server p.built { run := .running }
    built := p.built + 1
    call := .waiting address p.built } where
  held id hid := (some.inj hid).symm
  alive id hid := by
    change (update p.server p.built { run := .running } id).run ≠ .finished
    by_cases hnew : id = p.built
    · subst hnew
      rw [update_self]
      exact RunStage.noConfusion
    · rw [update_of_ne hnew]
      rcases hid with hid | hid
      · exact absurd (some.inj hid).symm hnew
      · exact h.alive id (.inr hid)
  leads id hleads := by
    by_cases hnew : id = p.built
    · exact .inl (congrArg some hnew.symm)
    change (update p.server p.built { run := .running } id).Leads at hleads
    rw [update_of_ne hnew] at hleads
    rcases h.leads id hleads with hrecorded | hstepping | hrev | hclosed
    · exact absurd (h.held id hrecorded) (by rw [hcall]; exact not_false)
    · exact .inr (.inl hstepping)
    · rw [hcall] at hrev
      exact absurd hrev (by simp [Call.reviving])
    · exact .inr (.inr (.inr hclosed))
  started id hid _ _ := hid
  unwatched id hid hwatch := by
    obtain rfl := some.inj hid
    exact absurd (h.built _ (.inr (.inr (.inl hwatch)))) (Nat.lt_irrefl _)
  built id hid := by
    rcases hid with hid | hid | hid | hid
    · exact some.inj hid ▸ Nat.lt_succ_self _
    · exact Nat.lt_succ_of_lt (h.built id (.inr (.inl hid)))
    · exact Nat.lt_succ_of_lt (h.built id (.inr (.inr (.inl hid))))
    · exact some.inj hid ▸ Nat.lt_succ_self _
  restoring _ hid := Call.noConfusion hid

theorem Inv.revive (hcall : p.call = .reinstating address id) :
    Inv { p.setRetired id false with call := .reinstated address id } where
  held id' hid := by
    have hheld := h.held id' hid
    rw [hcall] at hheld
    exact hheld
  alive id' hid := by
    rw [run_setRetired]
    exact h.alive id' hid
  leads id' hleads := by
    by_cases hid : id' = id
    · exact .inr (.inr (.inl (congrArg some hid.symm)))
    rcases h.leads id' (leads_of_setRetired_of_ne hid hleads) with hrecorded | hstepping | hrev | hclosed
    · exact .inl hrecorded
    · exact .inr (.inl hstepping)
    · rw [hcall] at hrev
      exact absurd hrev (by simp [Call.reviving])
    · exact .inr (.inr (.inr hclosed))
  started id' hid := absurd hid (by simp [Call.started])
  unwatched id' hid := absurd hid (by simp [Call.started])
  built id' hid := h.built id' (by rw [hcall]; exact hid)
  restoring _ hid := Call.noConfusion hid

theorem Inv.resume (hcall : p.call = .reinstated address id) (hretired : p.retired = some id) :
    Inv { p with retired := none, promoted := some id, call := .resuming address id } where
  held id' hid := (some.inj hid).symm
  alive id' hid := by
    rcases hid with hid | hid
    · exact h.alive id' (.inr (hretired.trans hid))
    · exact absurd hid (by simp)
  leads id' hleads := by
    rcases h.leads id' hleads with hrecorded | hstepping | hrev | hclosed
    · exact absurd (h.held id' hrecorded) (by rw [hcall]; exact not_false)
    · exact .inr (.inl hstepping)
    · rw [hcall] at hrev
      exact .inl hrev
    · exact .inr (.inr (.inr hclosed))
  started id' hid := absurd hid (by simp [Call.started])
  unwatched id' hid := absurd hid (by simp [Call.started])
  built id' hid := by
    rcases hid with hid | hid | hid | hid
    · exact h.built id' (.inr (.inl (hretired.trans hid)))
    · exact absurd hid (by simp)
    · exact h.built id' (.inr (.inr (.inl hid)))
    · exact h.built id' (.inr (.inl (hretired.trans hid)))
  restoring _ hid := Call.noConfusion hid

/-- The record moves from `promoted` to `retired`, for a server that does not lead any more or is about to be retired. -/
theorem Inv.giveUp (hpromoted : p.promoted = some id) {call : Call} {watches : List Nat} {stepping : List StepDown}
    (hwatches : ∀ id' ∈ watches, id' ∈ p.watches) (hstepping : ∀ s ∈ p.stepping, s ∈ stepping)
    (hleads : (p.server id).Leads → ∃ s ∈ stepping, s.server = id)
    (hreviving : ∀ id', p.call.reviving = some id' → call.reviving = some id')
    (hstarted : ∀ id', call.started = some id' → p.call.started = some id' ∧ id' ≠ id)
    (hserver : ∀ id', call.server = some id' → p.call.server = some id')
    (hrestoring : ∀ id', call = .restoring id' → p.call = .restoring id') :
    Inv { p with promoted := none, retired := some id, watches := watches, stepping := stepping, call := call } where
  held _ hid := absurd hid (by simp)
  alive id' hid := by
    rcases hid with hid | hid
    · exact absurd hid (by simp)
    · exact h.alive id' (.inl (hpromoted.trans hid))
  leads id' hlead := by
    rcases h.leads id' hlead with hrecorded | ⟨s, hs, hid⟩ | hrev | hclosed
    · cases hpromoted.symm.trans hrecorded
      exact .inr (.inl (hleads hlead))
    · exact .inr (.inl ⟨s, hstepping s hs, hid⟩)
    · exact .inr (.inr (.inl (hreviving id' hrev)))
    · exact .inr (.inr (.inr hclosed))
  started id' hid hclosed hrun := by
    obtain ⟨hbefore, hne⟩ := hstarted id' hid
    exact absurd (some.inj (hpromoted.symm.trans (h.started id' hbefore hclosed hrun))) (Ne.symm hne)
  unwatched id' hid hwatch := h.unwatched id' (hstarted id' hid).1 (hwatches id' hwatch)
  built id' hid := by
    rcases hid with hid | hid | hid | hid
    · exact absurd hid (by simp)
    · exact h.built id' (.inl (hpromoted.trans hid))
    · exact h.built id' (.inr (.inr (.inl (hwatches id' hid))))
    · exact h.built id' (.inr (.inr (.inr (hserver id' hid))))
  restoring id' hid := h.restoring id' (hrestoring id' hid)

theorem Inv.close : Inv { p with closed := true, promoted := none, retired := none } where
  held _ hid := absurd hid (by simp)
  alive _ hid := absurd hid (by simp)
  leads _ _ := .inr (.inr (.inr rfl))
  started _ _ hclosed := absurd hclosed (by simp)
  unwatched := h.unwatched
  built id hid := by
    rcases hid with hid | hid | hid
    · exact absurd hid (by simp)
    · exact absurd hid (by simp)
    · exact h.built id (.inr (.inr hid))
  restoring := h.restoring

theorem Inv.watch (hcall : p.call = .watching id) :
    Inv { p with watches := if p.closed then p.watches else id :: p.watches, call := .promoted } where
  held _ _ := trivial
  alive := h.alive
  leads id' hleads := by
    rcases h.leads id' hleads with hrecorded | hstepping | hrev | hclosed
    · exact .inl hrecorded
    · exact .inr (.inl hstepping)
    · rw [hcall] at hrev
      exact absurd hrev (by simp [Call.reviving])
    · exact .inr (.inr (.inr hclosed))
  started id' hid := absurd hid (by simp [Call.started])
  unwatched id' hid := absurd hid (by simp [Call.started])
  built id' hid := by
    have hold : id' ∈ p.watches → id' < p.built := fun hwatch => h.built id' (.inr (.inr (.inl hwatch)))
    rcases hid with hid | hid | hid | hid
    · exact h.built id' (.inl hid)
    · exact h.built id' (.inr (.inl hid))
    · split at hid
      · exact hold hid
      rcases mem_cons.mp hid with rfl | hid
      · exact h.built id' (.inr (.inr (.inr (by rw [hcall]; rfl))))
      · exact hold hid
    · exact absurd hid (by simp [Call.server])
  restoring _ hid := Call.noConfusion hid

theorem Inv.endWatch (id : Nat) : Inv { p with watches := p.watches.erase id } where
  held := h.held
  alive := h.alive
  leads := h.leads
  started := h.started
  unwatched id' hid hwatch := h.unwatched id' hid (mem_of_mem_erase hwatch)
  built id' hid := h.built id' (hid.imp_right (Or.imp_right (Or.imp_left mem_of_mem_erase)))
  restoring := h.restoring

theorem Inv.runReturned (hrun : (p.server id).run = .running) : Inv (p.setRun id .returned) where
  held := h.held
  alive id' hid := by
    by_cases heq : id' = id
    · rw [heq, run_setRun]
      exact RunStage.noConfusion
    · rw [server_setRun_of_ne p _ heq]
      exact h.alive id' hid
  leads id' hleads := by
    by_cases heq : id' = id
    · rw [heq, Server.Leads, run_setRun] at hleads
      exact RunStage.noConfusion hleads.1
    · rw [server_setRun_of_ne p _ heq] at hleads
      exact h.leads id' hleads
  started id' hid hclosed hfinished := by
    by_cases heq : id' = id
    · exact h.started id' hid hclosed (by rw [heq, hrun]; exact RunStage.noConfusion)
    · rw [server_setRun_of_ne p _ heq] at hfinished
      exact h.started id' hid hclosed hfinished
  unwatched := h.unwatched
  built := h.built
  restoring id' hid := (retired_setRun p id id' _).trans (h.restoring id' hid)

end

theorem promoted_forget : (p.forget id).promoted = some id' ↔ p.promoted = some id' ∧ id' ≠ id := by
  by_cases h : p.promoted = some id
  · simp [forget, h, eq_comm]
  · simp only [forget, if_neg h]
    exact ⟨fun hid => ⟨hid, fun heq => h (heq ▸ hid)⟩, And.left⟩

theorem retired_forget : (p.forget id).retired = some id' ↔ p.retired = some id' ∧ id' ≠ id := by
  by_cases h : p.retired = some id
  · simp [forget, h, eq_comm]
  · simp only [forget, if_neg h]
    exact ⟨fun hid => ⟨hid, fun heq => h (heq ▸ hid)⟩, And.left⟩

theorem Inv.runFinished (h : Inv p) (id : Nat) : Inv ((p.setRun id .finished).forget id) where
  held id' hid := h.held id' (promoted_forget.mp hid).1
  alive id' hid := by
    have hother : (p.promoted = some id' ∨ p.retired = some id') ∧ id' ≠ id := by
      rcases hid with hid | hid
      · exact ⟨.inl (promoted_forget.mp hid).1, (promoted_forget.mp hid).2⟩
      · exact ⟨.inr (retired_forget.mp hid).1, (retired_forget.mp hid).2⟩
    change ((p.setRun id .finished).server id').run ≠ .finished
    rw [server_setRun_of_ne p _ hother.2]
    exact h.alive id' hother.1
  leads id' hleads := by
    change ((p.setRun id .finished).server id').Leads at hleads
    by_cases heq : id' = id
    · rw [heq, Server.Leads, run_setRun] at hleads
      exact RunStage.noConfusion hleads.1
    · rw [server_setRun_of_ne p _ heq] at hleads
      exact (h.leads id' hleads).imp_left fun hpromoted => promoted_forget.mpr ⟨hpromoted, heq⟩
  started id' hid hclosed hfinished := by
    change ((p.setRun id .finished).server id').run ≠ .finished at hfinished
    by_cases heq : id' = id
    · rw [heq, run_setRun] at hfinished
      exact absurd rfl hfinished
    · rw [server_setRun_of_ne p _ heq] at hfinished
      exact promoted_forget.mpr ⟨h.started id' hid hclosed hfinished, heq⟩
  unwatched := h.unwatched
  built id' hid := h.built id' (hid.imp (fun hid => (promoted_forget.mp hid).1)
    (Or.imp_left fun hid => (retired_forget.mp hid).1))
  restoring id' hid := (retired_setRun p id id' _).trans (h.restoring id' hid)

theorem Inv.steppedDown (h : Inv p) (s : StepDown) (agent : Agent) :
    Inv { p.setRetired s.server true with agent := agent, stepping := p.stepping.erase s } where
  held := h.held
  alive := (h.retire s.server).alive
  leads id hleads := by
    rcases (h.retire s.server).leads id hleads with hrecorded | ⟨t, ht, rfl⟩ | hrest
    · exact .inl hrecorded
    · refine .inr (.inl ⟨t, (mem_erase_of_ne fun heq => ?_).mpr ht, rfl⟩)
      exact p.not_leads_setRetired s.server (heq ▸ hleads)
    · exact .inr (.inr hrest)
  started := (h.retire s.server).started
  unwatched := h.unwatched
  built := h.built
  restoring := (h.retire s.server).restoring

theorem Inv.step (h : Inv p) {actor : Actor} (hstep : Step p actor p') : Inv p' := by
  cases hstep with
  | entered _ hcall _ _ hpromoted =>
    refine h.moveOn _ _ (fun id hid => absurd (hpromoted.symm.trans hid) (by simp)) ?_ ?_ ?_ nofun <;>
      simp [hcall, Call.reviving, Call.started, Call.server]
  | gaveUp hcall | began _ hcall | interrupted hcall | lost _ _ _ hcall | won _ _ _ hcall | refused hcall
  | configured hcall | buildRefused hcall | reinstateUntrusted hcall =>
    exact h.before _ _ hcall ⟨nofun, nofun, nofun, nofun, nofun⟩
  | ended hcall | endedPromoted hcall | returnedError hcall =>
    exact h.before _ _ hcall ⟨fun _ _ => trivial, nofun, nofun, nofun, nofun⟩
  | found _ hcall _ hretired =>
    refine h.moveOn _ _ (fun id' hid => ?_) ?_ nofun (fun id' hid => h.built id' (.inr (.inl (hretired.trans hid)))) nofun
    · have hheld := h.held id' hid
      rw [hcall] at hheld
      exact hheld
    · simp [hcall, Call.reviving]
  | buildFailed failure hcall hfailure =>
    have hstarted : failure.started = none := by
      cases failure <;> first | rfl | exact absurd hfailure (by simp [Failure.building])
    refine h.before _ _ hcall ⟨nofun, nofun, ?_, ?_, nofun⟩ <;> simp [Call.started, Call.server, hstarted]
  | started hcall => exact h.startServer hcall
  | healthy hcall => exact h.before _ _ hcall ⟨fun _ h => h, nofun, fun _ h => h, fun _ h => h, nofun⟩
  | stopped hcall | timedOut hcall | switchFailed hcall =>
    exact h.before _ _ hcall ⟨fun _ h => congrArg some h.symm, nofun, fun _ h => h, fun _ h => h, nofun⟩
  | switched hcall | resumeSwitched hcall => exact h.before _ _ hcall ⟨fun _ h => h, nofun, nofun, fun _ h => h, nofun⟩
  | watched hcall => exact h.watch hcall
  | reinstated hcall => exact h.revive hcall
  | resumed hcall hretired => exact h.resume hcall hretired
  | gone hcall => exact h.before _ _ hcall ⟨nofun, fun _ h => h, nofun, fun _ h => h, nofun⟩
  | @undone id hcall =>
    refine (h.retire id).moveOn _ _ (fun id' hid => ?_) (fun id' hid => ?_) nofun nofun nofun
    · have hheld := h.held id' hid
      rw [hcall] at hheld
      exact hheld.elim
    · change p.call.reviving = some id' at hid
      rw [hcall] at hid
      exact .inr (some.inj hid ▸ p.not_leads_setRetired id)
  | @resumeFailed address id hcall =>
    refine (h.retire id).moveOn _ _ (fun id' hid => ?_) (fun id' hid => ?_) nofun (fun id' hid => ?_) fun id' hid => ?_
    · have hheld := h.held id' hid
      rw [hcall] at hheld
      exact hheld
    · change p.call.reviving = some id' at hid
      rw [hcall] at hid
      exact absurd hid (by simp [Call.reviving])
    · exact h.built id' (.inr (.inr (.inr (by rw [hcall]; exact hid))))
    · obtain rfl := Call.restoring.inj hid
      exact retired_setRetired p id true
  | restored hcall hpromoted =>
    refine h.giveUp hpromoted (fun _ h => h) (fun _ h => h) (fun hleads => ?_) ?_ nofun nofun nofun
    · exact absurd hleads.2 (by rw [h.restoring _ hcall]; exact Bool.noConfusion)
    · simp [hcall, Call.reviving]
  | notRestored hcall hpromoted =>
    refine h.moveOn _ _ (fun id' hid => ?_) ?_ nofun nofun nofun
    · have hheld := h.held id' hid
      rw [hcall] at hheld
      exact absurd (hheld ▸ hid) hpromoted
    · simp [hcall, Call.reviving]
  | runReturned _ hrun => exact h.runReturned hrun
  | runFinished id => exact h.runFinished id
  | watchEnded id => exact h.endWatch id
  | stepDown _ _ _ hwatch hpromoted =>
    refine h.giveUp hpromoted (fun _ => mem_of_mem_erase) (fun s => mem_cons_of_mem _)
      (fun _ => ⟨_, mem_cons_self, rfl⟩) (fun _ h => h) (fun id' hid => ⟨hid, ?_⟩) (fun _ h => h) fun _ h => h
    rintro rfl
    exact h.unwatched id' hid hwatch
  | steppedDown s => exact h.steppedDown s _
  | closed => exact h.close

theorem Inv.run (h : Inv p) (hrun : Run p p') : Inv p' := by
  induction hrun with
  | refl => exact h
  | tail _ hstep ih =>
    obtain ⟨_, hstep⟩ := hstep
    exact ih.step hstep

/-! ### What a failed promotion leaves behind -/

def Announces (p : Process) (role : Role) : Prop :=
  p.agent.announcedRole = some role ∨ role = .orchestrator ∧ ∃ id, (p.server id).Leads

/-- The election goroutine alone gets to `promote`, once it is called again. -/
def ReachesPromote (p : Process) : Prop :=
  ∃ p' address, ReflTransGen (fun q q' => Step q .election q') p p' ∧ p'.call = .promote address

structure Retryable (p : Process) : Prop where
  unrecorded : p.promoted = none
  idle : ∀ id, ¬ (p.server id).Leads
  silent : ¬ p.Announces .orchestrator
  again : p.ReachesPromote

/-- After `Close`, and while a server is recorded as promoted, a call that has failed ends and no other begins. -/
def Halted (p : Process) : Prop :=
  (p.closed = true ∨ p.promoted ≠ none) ∧ ((∃ failure, p.call = .failed failure) ∨ p.call = .ending ∨ p.call = .idle)

theorem Halted.step (h : Halted p) (hstep : Step p .election p') : Halted p' := by
  obtain ⟨hguard, hcall⟩ := h
  cases hstep with
  | entered _ _ hopen _ hpromoted =>
    rcases hguard with hclosed | hrecorded
    · exact absurd (hopen.symm.trans hclosed) (by simp)
    · exact absurd hpromoted hrecorded
  | returnedError => exact ⟨hguard, .inr (.inl rfl)⟩
  | ended => exact ⟨hguard, .inr (.inr rfl)⟩
  | _ => simp_all

theorem Halted.not_reachesPromote (h : Halted p) : ¬ p.ReachesPromote := by
  rintro ⟨p', _, hrun, hpromote⟩
  have hhalted : Halted p' := by
    clear hpromote
    induction hrun with
    | refl => exact h
    | tail _ hstep ih => exact ih.step hstep
  simp [Halted, hpromote] at hhalted

theorem reachesPromote_of_failed {failure : Failure} (hcall : p.call = .failed failure) (hclosed : p.closed = false)
    (hpromoted : p.promoted = none) : p.ReachesPromote := by
  have hrun := ReflTransGen.single (r := fun q q' => Step q .election q') (Step.returnedError hcall)
  have hrun := hrun.tail (.ended rfl)
  have hrun := hrun.tail (.entered "failed" rfl hclosed rfl hpromoted)
  have hrun := hrun.tail (.began "https://self" rfl (by decide))
  have hrun := hrun.tail (.won 0 [] (fun _ => false) rfl rfl)
  exact ⟨_, _, hrun, rfl⟩

/-- A promotion that has failed leaves nothing behind exactly if the coordinator is open, no server is on its way down but
still leads, and the server that the promotion has started, if any, has run to its end. -/
theorem failed_promotion_retryable_iff (agentID : String) (hrun : Run (start agentID) p) {failure : Failure}
    (hfailed : p.call = .failed failure) :
    p.Retryable ↔ p.closed = false ∧ (∀ s ∈ p.stepping, ¬ (p.server s.server).Leads) ∧
      ∀ id, failure.started = some id → (p.server id).run = .finished := by
  have hinv := (Inv.start agentID).run hrun
  constructor
  · intro h
    have hopen : p.closed = false := Bool.eq_false_iff.mpr fun hclosed =>
      Halted.not_reachesPromote ⟨.inl hclosed, .inl ⟨failure, hfailed⟩⟩ h.again
    refine ⟨hopen, fun s _ => h.idle s.server, fun id hid => ?_⟩
    by_contra hrunning
    have hrecorded := hinv.started id (by rw [hfailed]; exact hid) hopen hrunning
    exact absurd (h.unrecorded.symm.trans hrecorded) (by simp)
  · rintro ⟨hopen, hstepping, hstarted⟩
    have hunrecorded : p.promoted = none := by
      refine eq_none_iff_forall_ne_some.mpr fun id hid => hinv.alive id (.inl hid) (hstarted id ?_)
      have hheld := hinv.held id hid
      rw [hfailed] at hheld
      exact hheld
    have hidle : ∀ id, ¬ (p.server id).Leads := by
      intro id hleads
      rcases hinv.leads id hleads with hrecorded | ⟨s, hs, rfl⟩ | hrev | hclosed
      · exact absurd (hunrecorded.symm.trans hrecorded) (by simp)
      · exact hstepping s hs hleads
      · rw [hfailed] at hrev
        exact absurd hrev (by simp [Call.reviving])
      · exact absurd (hopen.symm.trans hclosed) (by simp)
    refine ⟨hunrecorded, hidle, ?_, reachesPromote_of_failed hfailed hopen hunrecorded⟩
    rintro (hrole | ⟨-, id, hleads⟩)
    · exact p.agent.announcedRole_ne_orchestrator hrole
    · exact hidle id hleads

theorem run_building (agentID : String) : Run (start agentID) { start agentID with
    agent := (start agentID).agent.beginElection "https://self", running := true, call := .building "https://self" } := by
  have hrun := ReflTransGen.single (r := fun p p' => ∃ actor, Step p actor p') (a := start agentID)
    ⟨_, .entered "failed" rfl rfl rfl rfl⟩
  have hrun := hrun.tail ⟨_, .began "https://self" rfl (by decide)⟩
  have hrun := hrun.tail ⟨_, .won 0 [] (fun _ => false) rfl rfl⟩
  exact hrun.tail ⟨_, .configured rfl rfl rfl⟩

theorem failed_promotion_retryable_configure :
    ∃ p, Run (start "node-1") p ∧ p.call = .failed .configure ∧ p.Retryable := by
  have hrun := (run_building "node-1").tail ⟨_, .buildFailed .configure rfl rfl⟩
  exact ⟨_, hrun, rfl, (failed_promotion_retryable_iff "node-1" hrun rfl).mpr ⟨rfl, nofun, nofun⟩⟩

/-- The role cannot be switched: the server stays recorded and leads, and no later election gets past the guard. -/
theorem promoted_after_failure :
    ∃ p, Run (start "node-1") p ∧ p.call = .failed (.role 0) ∧ p.promoted = some 0 ∧ (p.server 0).Leads ∧
      p.Announces .orchestrator ∧ ¬ p.ReachesPromote ∧ ¬ p.Retryable := by
  have hrun := (run_building "node-1").tail ⟨_, .started rfl rfl⟩
  have hrun := hrun.tail ⟨_, .healthy rfl⟩
  have hrun := hrun.tail ⟨_, .switchFailed rfl⟩
  refine ⟨_, hrun, rfl, rfl, ⟨rfl, rfl⟩, .inr ⟨rfl, 0, rfl, rfl⟩, ?_, fun h => some_ne_none _ h.unrecorded⟩
  exact Halted.not_reachesPromote ⟨.inr (some_ne_none _), .inl ⟨_, rfl⟩⟩

/-- Before `Close`, while no server steps down and none is reinstated, only the recorded server leads. -/
theorem leads_recorded (agentID : String) (hrun : Run (start agentID) p) (hopen : p.closed = false)
    (hstepping : p.stepping = []) (hreviving : p.call.reviving = none) {id : Nat} (hleads : (p.server id).Leads) :
    p.promoted = some id ∧ ∀ id', (p.server id').Leads → id' = id := by
  have hrecorded : ∀ id, (p.server id).Leads → p.promoted = some id := by
    intro id hleads
    rcases ((Inv.start agentID).run hrun).leads id hleads with hrecorded | ⟨s, hs, -⟩ | hrev | hclosed
    · exact hrecorded
    · exact absurd (hstepping ▸ hs) List.not_mem_nil
    · cases hreviving.symm.trans hrev
    · cases hopen.symm.trans hclosed
  exact ⟨hrecorded id hleads, fun id' h => some.inj ((hrecorded id' h).symm.trans (hrecorded id hleads))⟩

theorem leads_recorded_started :
    ∃ p, Run (start "node-1") p ∧ p.promoted = some 0 ∧ ∀ id, (p.server id).Leads → id = 0 := by
  have hrun := (run_building "node-1").tail ⟨_, .started rfl rfl⟩
  exact ⟨_, hrun, leads_recorded "node-1" hrun rfl rfl rfl ⟨rfl, rfl⟩⟩

end Process

end Maistr0.Failover
