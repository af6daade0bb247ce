import Maistr0.Go

/-!
# The heartbeat monitor

`Run` of `heartbeat_monitor.go`: one tick reads the coordinator's address and ID, probes it and may call the
election starter or the recovery callback. Timers, contexts and logs are left out; whether a probe succeeds
and whether a callback is configured is free at every tick.

A `Tenure` is what an onlooker knows of the current coordinator. The monitor starts an election in each tenure
that needs one, provided that none of them begins before the coordinator it last gave up has answered: the
flag that keeps it from starting a second election for one coordinator is not bound to that coordinator.
-/

namespace Maistr0.NodeAgent

open Go Relation List

structure HeartbeatMonitor where
  failureLimit : Nat := 4
  limit_pos : 0 < failureLimit := by decide

/-- What a tick finds: the answers of `address`, `orchestrator` and `ping`, and which callbacks are set. -/
structure HeartbeatTick where
  address : String
  id : String
  answered : Bool
  startElection : Bool := true
  onRecovery : Bool := true
deriving DecidableEq

inductive HeartbeatCall where
  | election (id : String)
  | recovery (id : String)
deriving DecidableEq

structure HeartbeatLoop where
  failures : Nat := 0
  lastAddress : String := ""
  lastID : String := ""
  triggered : Bool := false
  failedID : String := ""

def trimAddress (address : String) : String :=
  String.ofList ((trimSpace address).toList.reverse.dropWhile (· = '/')).reverse

def HeartbeatTick.coordinator (t : HeartbeatTick) : Option (String × String) :=
  if trimAddress t.address = "" then none else some (trimAddress t.address, t.id)

namespace HeartbeatLoop

def meet (s : HeartbeatLoop) (address id : String) : HeartbeatLoop :=
  if address ≠ s.lastAddress ∨ id ≠ s.lastID then { s with failures := 0, lastAddress := address, lastID := id } else s

def probed (m : HeartbeatMonitor) (s : HeartbeatLoop) (t : HeartbeatTick) : HeartbeatLoop × List HeartbeatCall :=
  if t.answered then
    if s.triggered then
      ({ s with failures := 0, triggered := false, failedID := "" }, if t.onRecovery then [.recovery s.failedID] else [])
    else ({ s with failures := 0 }, [])
  else if s.failures + 1 < m.failureLimit ∨ s.triggered then ({ s with failures := s.failures + 1 }, [])
  else
    ({ s with failures := s.failures + 1, triggered := true, failedID := t.id },
      if t.startElection then [.election t.id] else [])

def tick (m : HeartbeatMonitor) (s : HeartbeatLoop) (t : HeartbeatTick) : HeartbeatLoop × List HeartbeatCall :=
  match t.coordinator with
  | none => ({ s with failures := 0 }, [])
  | some (address, id) => (s.meet address id).probed m t

end HeartbeatLoop

/-! ### What an onlooker sees -/

/-- The current coordinator, its failed probes in a row since it became the current one, and whether an election
was started for it since then. -/
structure Tenure where
  coordinator : Option (String × String) := none
  failed : Nat := 0
  elected : Bool := false

namespace Tenure

def meet (o : Tenure) (coordinator : Option (String × String)) : Tenure :=
  if coordinator = o.coordinator then o else { coordinator }

def next (o : Tenure) (t : HeartbeatTick) (calls : List HeartbeatCall) : Tenure :=
  match t.coordinator with
  | none => o.meet none
  | some (address, id) =>
    let o := o.meet (some (address, id))
    { o with failed := if t.answered then 0 else o.failed + 1, elected := o.elected || .election id ∈ calls }

end Tenure

/-- The monitor with its onlooker; `log` has every callback beside its tick. -/
structure Heartbeat where
  loop : HeartbeatLoop := {}
  tenure : Tenure := {}
  log : List (HeartbeatTick × HeartbeatCall) := []

namespace Heartbeat

def next (m : HeartbeatMonitor) (h : Heartbeat) (t : HeartbeatTick) : Heartbeat :=
  let out := h.loop.tick m t
  { loop := out.1, tenure := h.tenure.next t out.2, log := h.log ++ out.2.map fun call => (t, call) }

theorem loop_next (m : HeartbeatMonitor) (h : Heartbeat) (t : HeartbeatTick) : (h.next m t).loop = (h.loop.tick m t).1 := by
  simp only [next]

theorem tenure_next (m : HeartbeatMonitor) (h : Heartbeat) (t : HeartbeatTick) :
    (h.next m t).tenure = h.tenure.next t (h.loop.tick m t).2 := by
  simp only [next]

def Steady (m : HeartbeatMonitor) (h : Heartbeat) (t : HeartbeatTick) : Prop :=
  (t.coordinator ≠ h.tenure.coordinator → h.loop.triggered = false) ∧
    (m.failureLimit ≤ (h.tenure.next t []).failed → h.loop.triggered = false → t.startElection)

def Run (m : HeartbeatMonitor) (allowed : Heartbeat → HeartbeatTick → Prop) : Heartbeat → Heartbeat → Prop :=
  ReflTransGen fun h h' => ∃ t, allowed h t ∧ h' = h.next m t

/-! ### The monitor follows its coordinator -/

structure Follows (m : HeartbeatMonitor) (s : HeartbeatLoop) (o : Tenure) : Prop where
  count : s.failures = o.failed
  current : ∀ address id, o.coordinator = some (address, id) → s.lastAddress = address ∧ s.lastID = id
  idle : o.coordinator = none → o.failed = 0
  pending : s.triggered → o.elected ∧ ∃ address, o.coordinator = some (address, s.failedID)
  armed : s.triggered = false → s.failures < m.failureLimit

variable {m : HeartbeatMonitor} {s : HeartbeatLoop} {o : Tenure} {t : HeartbeatTick}

namespace Follows

theorem leave (h : Follows m s o) (hchange : none ≠ o.coordinator → s.triggered = false) :
    Follows m { s with failures := 0 } (o.meet none) := by
  have htriggered : s.triggered = false := by
    cases ho : o.coordinator with
    | some c => exact hchange (by rw [ho]; exact (Option.some_ne_none c).symm)
    | none =>
      by_contra htriggered
      obtain ⟨-, address, hsome⟩ := h.pending (eq_true_of_ne_false htriggered)
      rw [ho] at hsome
      cases hsome
  have hmeet : (o.meet none).coordinator = none ∧ (o.meet none).failed = 0 := by
    unfold Tenure.meet
    split
    · rename_i hnone
      exact ⟨hnone.symm, h.idle hnone.symm⟩
    · exact ⟨rfl, rfl⟩
  refine ⟨hmeet.2.symm, fun address id hsome => ?_, fun _ => hmeet.2, fun hpending => ?_, fun _ => m.limit_pos⟩
  · rw [hmeet.1] at hsome
    cases hsome
  · rw [htriggered] at hpending
    cases hpending

theorem meet (h : Follows m s o) {address id : String} (hchange : some (address, id) ≠ o.coordinator → s.triggered = false) :
    Follows m (s.meet address id) (o.meet (some (address, id))) ∧
      (o.meet (some (address, id))).coordinator = some (address, id) ∧ (s.meet address id).triggered = s.triggered := by
  by_cases hsame : some (address, id) = o.coordinator
  · obtain ⟨haddress, hid⟩ := h.current address id hsame.symm
    have hs : s.meet address id = s := if_neg (by rw [haddress, hid]; simp)
    have ho : o.meet (some (address, id)) = o := if_pos hsame
    rw [hs, ho]
    exact ⟨h, hsame.symm, rfl⟩
  · have ho : o.meet (some (address, id)) = { coordinator := some (address, id) } := if_neg hsame
    have hnone : s.triggered = false := hchange hsame
    have hmet : (s.meet address id).failures = 0 ∧ (s.meet address id).lastAddress = address ∧
        (s.meet address id).lastID = id ∧ (s.meet address id).triggered = s.triggered := by
      unfold HeartbeatLoop.meet
      split
      · exact ⟨rfl, rfl, rfl, rfl⟩
      rename_i hknown
      -- the coordinator it has met before comes back after a while without one
      obtain ⟨haddress, hid⟩ := not_or.mp hknown
      refine ⟨?_, (not_not.mp haddress).symm, (not_not.mp hid).symm, rfl⟩
      cases hcoordinator : o.coordinator with
      | none => exact h.count.trans (h.idle hcoordinator)
      | some c =>
        obtain ⟨hlastAddress, hlastID⟩ := h.current c.1 c.2 hcoordinator
        refine absurd ?_ hsame
        rw [hcoordinator, not_not.mp haddress, not_not.mp hid, hlastAddress, hlastID]
    rw [ho]
    refine ⟨⟨hmet.1, ?_, nofun, fun hpending => ?_, fun _ => ?_⟩, rfl, hmet.2.2.2⟩
    · rintro _ _ ⟨⟩
      exact ⟨hmet.2.1, hmet.2.2.1⟩
    · rw [hmet.2.2.2, hnone] at hpending
      cases hpending
    · rw [hmet.1]
      exact m.limit_pos

theorem probed (h : Follows m s o) {address : String} (hcurrent : o.coordinator = some (address, t.id))
    (hstarter : t.answered = false → m.failureLimit ≤ o.failed + 1 → s.triggered = false → t.startElection) :
    Follows m (s.probed m t).1 { o with
        failed := if t.answered then 0 else o.failed + 1
        elected := o.elected || .election t.id ∈ (s.probed m t).2 } := by
  have hknown : ∀ {s' : HeartbeatLoop}, s'.lastAddress = s.lastAddress → s'.lastID = s.lastID →
      ∀ address id, o.coordinator = some (address, id) → s'.lastAddress = address ∧ s'.lastID = id := by
    intro s' haddress hid address id hsome
    rw [haddress, hid]
    exact h.current address id hsome
  have hsome : ∀ {p : Prop}, o.coordinator = none → p := by
    intro p hnone
    rw [hcurrent] at hnone
    cases hnone
  unfold HeartbeatLoop.probed
  cases hanswered : t.answered with
  | true =>
    rw [if_pos rfl]
    split
    · exact ⟨rfl, hknown rfl rfl, hsome, nofun, fun _ => m.limit_pos⟩
    · rename_i htriggered
      exact ⟨rfl, hknown rfl rfl, hsome, (fun hpending => absurd hpending htriggered), fun _ => m.limit_pos⟩
  | false =>
    rw [if_neg (by decide)]
    split
    · rename_i hquiet
      refine ⟨congrArg (· + 1) h.count, hknown rfl rfl, hsome, fun hpending => ?_, fun hidle => ?_⟩
      · obtain ⟨helected, haddress⟩ := h.pending hpending
        exact ⟨by simp [helected], haddress⟩
      rcases hquiet with hless | htriggered
      · exact hless
      · rw [htriggered] at hidle
        cases hidle
    · rename_i hdue
      obtain ⟨hlimit, htriggered⟩ := not_or.mp hdue
      have hcount : m.failureLimit ≤ o.failed + 1 := by
        rw [← h.count]
        exact Nat.le_of_not_lt hlimit
      have hstarted := hstarter hanswered hcount (eq_false_of_ne_true htriggered)
      refine ⟨congrArg (· + 1) h.count, hknown rfl rfl, hsome, fun _ => ⟨?_, address, hcurrent⟩, nofun⟩
      simp [hstarted]

end Follows

theorem recovery_of_probed (h : Follows m s o) {address : String} (hcurrent : o.coordinator = some (address, t.id)) {id : String}
    (hcall : .recovery id ∈ (s.probed m t).2) : t.answered ∧ t.id = id := by
  unfold HeartbeatLoop.probed at hcall
  split at hcall
  · rename_i hanswered
    split at hcall
    · rename_i htriggered
      obtain ⟨-, _, hfailed⟩ := h.pending htriggered
      rw [hcurrent] at hfailed
      obtain ⟨-, hid⟩ := Prod.mk.inj (Option.some.inj hfailed)
      refine ⟨hanswered, ?_⟩
      split at hcall
      · cases mem_singleton.mp hcall
        exact hid
      · exact absurd hcall not_mem_nil
    · exact absurd hcall not_mem_nil
  · split at hcall
    · exact absurd hcall not_mem_nil
    split at hcall
    · cases mem_singleton.mp hcall
    · exact absurd hcall not_mem_nil

structure Inv (m : HeartbeatMonitor) (h : Heartbeat) : Prop where
  follows : Follows m h.loop h.tenure
  recovered : ∀ t id, (t, .recovery id) ∈ h.log → t.answered ∧ t.id = id

theorem Inv.next {h : Heartbeat} (hinv : Inv m h) (hsteady : Steady m h t) : Inv m (h.next m t) := by
  obtain ⟨hchange, hstarter⟩ := hsteady
  have hlog : (∀ id, .recovery id ∈ (h.loop.tick m t).2 → t.answered ∧ t.id = id) →
      ∀ t' id, (t', .recovery id) ∈ (h.next m t).log → t'.answered ∧ t'.id = id := by
    intro hcalls t' id hmem
    rcases mem_append.mp hmem with hold | hnew
    · exact hinv.recovered t' id hold
    obtain ⟨_, hcall, heq⟩ := mem_map.mp hnew
    cases heq
    exact hcalls id hcall
  cases hcoordinator : t.coordinator with
  | none =>
    rw [hcoordinator] at hchange
    have htick : h.loop.tick m t = ({ h.loop with failures := 0 }, []) := by
      unfold HeartbeatLoop.tick
      rw [hcoordinator]
    have htenure : ∀ calls, h.tenure.next t calls = h.tenure.meet none := by
      intro calls
      unfold Tenure.next
      rw [hcoordinator]
    refine ⟨?_, hlog fun id hcall => ?_⟩
    · rw [loop_next, tenure_next, htick, htenure]
      exact hinv.follows.leave hchange
    · rw [htick] at hcall
      exact absurd hcall not_mem_nil
  | some c =>
    obtain ⟨address, id⟩ := c
    have hid : id = t.id := by
      unfold HeartbeatTick.coordinator at hcoordinator
      split at hcoordinator
      · cases hcoordinator
      · exact (Prod.mk.inj (Option.some.inj hcoordinator)).2.symm
    subst hid
    rw [hcoordinator] at hchange
    obtain ⟨hmet, hcurrent, htriggered⟩ := hinv.follows.meet hchange
    have htick : h.loop.tick m t = (h.loop.meet address t.id).probed m t := by
      unfold HeartbeatLoop.tick
      rw [hcoordinator]
    refine ⟨?_, hlog fun id hcall => ?_⟩
    · rw [loop_next, tenure_next, htick, Tenure.next, hcoordinator]
      refine hmet.probed hcurrent fun hanswered hlimit hidle => hstarter ?_ (htriggered ▸ hidle)
      unfold Tenure.next
      rw [hcoordinator]
      simpa [hanswered] using hlimit
    · rw [htick] at hcall
      exact recovery_of_probed hmet hcurrent hcall

theorem Inv.run {h h' : Heartbeat} (hrun : Run m (Steady m) h h') (hinv : Inv m h) : Inv m h' := by
  induction hrun with
  | refl => exact hinv
  | tail _ hstep ih =>
    obtain ⟨_, hsteady, rfl⟩ := hstep
    exact ih.next hsteady

theorem inv_start (m : HeartbeatMonitor) : Inv m {} :=
  ⟨⟨rfl, nofun, fun _ => rfl, nofun, fun _ => m.limit_pos⟩, fun _ _ hmem => absurd hmem not_mem_nil⟩

/-- In every run in which no coordinator follows one whose election is pending, and a starter is there when an
election is due: a coordinator that has failed as many probes in a row as the limit says has had an election
started for it, and a recovery is reported only when the coordinator of that ID answers. -/
theorem lost_coordinator_elects {h : Heartbeat} (hrun : Run m (Steady m) {} h) :
    (∀ address id, h.tenure.coordinator = some (address, id) → m.failureLimit ≤ h.tenure.failed → h.tenure.elected) ∧
      ∀ t id, (t, .recovery id) ∈ h.log → t.answered ∧ t.id = id := by
  have hinv := (inv_start m).run hrun
  refine ⟨fun address id _ hlimit => ?_, hinv.recovered⟩
  have htriggered : h.loop.triggered := by
    by_contra hidle
    have hless := hinv.follows.armed (eq_false_of_ne_true hidle)
    rw [hinv.follows.count] at hless
    exact absurd hlimit (Nat.not_le_of_lt hless)
  exact (hinv.follows.pending htriggered).1

/-! ### Two coordinators are lost in a row -/

instance (m : HeartbeatMonitor) (h : Heartbeat) (t : HeartbeatTick) : Decidable (Steady m h t) :=
  inferInstanceAs (Decidable (_ ∧ _))

theorem Run.next {h₀ h : Heartbeat} {allowed : Heartbeat → HeartbeatTick → Prop} (hrun : Run m allowed h₀ h) (t : HeartbeatTick)
    (hallowed : allowed h t) : Run m allowed h₀ (h.next m t) :=
  ReflTransGen.tail hrun ⟨t, hallowed, rfl⟩

def twoProbes : HeartbeatMonitor := { failureLimit := 2 }

def probe (id : String) (answered : Bool) : HeartbeatTick := { address := "https://" ++ id ++ "/", id, answered }

/-- The first coordinator is lost and answers again before the second one is lost. -/
theorem lost_coordinator_elects_twice :
    ∃ h, Run twoProbes (Steady twoProbes) {} h ∧ h.tenure.coordinator = some ("https://b", "b") ∧ h.tenure.failed = 2 ∧
      h.log.map Prod.snd = [.election "a", .recovery "a", .election "b"] ∧ h.tenure.elected ∧
      ∀ t id, (t, .recovery id) ∈ h.log → t.answered ∧ t.id = id := by
  have hrun : Run twoProbes (Steady twoProbes) {} {} := ReflTransGen.refl
  have hrun := hrun.next (probe "a" false) (by decide)
  have hrun := hrun.next (probe "a" false) (by decide)
  have hrun := hrun.next (probe "a" true) (by decide)
  have hrun := hrun.next (probe "b" false) (by decide)
  have hrun := hrun.next (probe "b" false) (by decide)
  have hcoordinator := lost_coordinator_elects hrun
  exact ⟨_, hrun, by decide, by decide, by decide, hcoordinator.1 "https://b" "b" (by decide) (by decide), hcoordinator.2⟩

/-- The second coordinator is lost while the first one is: no election is started for it, and when it answers
the first one is reported as recovered. -/
theorem second_lost_coordinator_ignored :
    (∃ h, Run twoProbes (fun _ _ => True) {} h ∧ h.tenure.coordinator = some ("https://b", "b") ∧
      twoProbes.failureLimit ≤ h.tenure.failed ∧ h.tenure.elected = false) ∧
    ∃ h t, Run twoProbes (fun _ _ => True) {} h ∧ (t, .recovery "a") ∈ h.log ∧ t.id = "b" := by
  have hrun : Run twoProbes (fun _ _ => True) {} {} := ReflTransGen.refl
  have hrun := hrun.next (probe "a" false) trivial
  have hrun := hrun.next (probe "a" false) trivial
  have hrun := hrun.next (probe "b" false) trivial
  have hrun := hrun.next (probe "b" false) trivial
  exact ⟨⟨_, hrun, by decide, by decide, by decide⟩, _, probe "b" true, hrun.next (probe "b" true) trivial, by decide, rfl⟩

end Heartbeat

end Maistr0.NodeAgent
