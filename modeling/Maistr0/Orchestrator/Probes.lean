import Maistr0.Orchestrator.Breaker

/-!
# Probes of half-open circuits

Any number of requests share the circuit breakers. Each asks once to be let through and, if it is, reports outcomes at
any later time. A half-open circuit hands out one probe at a time as long as nobody but the request that holds the probe
reports something other than a success while the probe is under way.
-/

namespace Maistr0.Orchestrator

open Go Relation CircuitBreakers List

/-- A request that was let through by a half-open circuit, and how many successes had been recorded there. -/
structure Probe where
  request : Nat
  key : String
  epoch : Nat
deriving DecidableEq

/-- The breakers and the clock, with the requests let through so far, the probes among them without an outcome and the
successes recorded on each circuit. -/
structure Probing where
  breakers : CircuitBreakers := {}
  now : Time := 0
  admitted : List (Nat × String) := []
  probes : List Probe := []
  successes : String → Nat := fun _ => 0

namespace Probing

def countSuccess (outcome : Outcome) (key : String) (successes : String → Nat) : String → Nat :=
  if outcome = .recordSuccess then Function.update successes key (successes key + 1) else successes

inductive Event where
  | other
  | reported (request : Nat) (key : String) (outcome : Outcome)
deriving DecidableEq

inductive Step [CaseFolding] : Probing → Event → Probing → Prop
  | tick {st : Probing} (t : Time) (hle : st.now ≤ t) : Step st .other { st with now := t }
  | eligible {st : Probing} (nodeID model : String) :
      Step st .other { st with breakers := (st.breakers.eligible (breakerKey nodeID model) st.now).1 }
  | snapshot {st : Probing} (nodeID model : String) :
      Step st .other { st with breakers := st.breakers.refresh (breakerKey nodeID model) st.now }
  | refused {st : Probing} (nodeID model : String)
      (hacquire : (st.breakers.acquire (breakerKey nodeID model) st.now).2 = .refused) :
      Step st .other { st with breakers := (st.breakers.acquire (breakerKey nodeID model) st.now).1 }
  | acquired {st : Probing} (request : Nat) (nodeID model : String) (hfresh : ∀ a ∈ st.admitted, a.1 ≠ request)
      (hacquire : (st.breakers.acquire (breakerKey nodeID model) st.now).2 = .admitted) :
      Step st .other { st with
        breakers := (st.breakers.acquire (breakerKey nodeID model) st.now).1
        admitted := (request, breakerKey nodeID model) :: st.admitted }
  | probed {st : Probing} (request : Nat) (nodeID model : String) (hfresh : ∀ a ∈ st.admitted, a.1 ≠ request)
      (hacquire : (st.breakers.acquire (breakerKey nodeID model) st.now).2 = .probe) :
      Step st .other { st with
        breakers := (st.breakers.acquire (breakerKey nodeID model) st.now).1
        admitted := (request, breakerKey nodeID model) :: st.admitted
        probes := ⟨request, breakerKey nodeID model, st.successes (breakerKey nodeID model)⟩ :: st.probes }
  | reported {st : Probing} (request : Nat) (nodeID model : String) (outcome : Outcome) (jitter : Duration → Duration)
      (hadmitted : (request, breakerKey nodeID model) ∈ st.admitted) :
      Step st (.reported request (breakerKey nodeID model) outcome) { st with
        breakers := st.breakers.report outcome (breakerKey nodeID model) st.now jitter
        probes := st.probes.filter fun p => p.request ≠ request
        successes := countSuccess outcome (breakerKey nodeID model) st.successes }

def HeldOnly (st : Probing) : Event → Prop
  | .other => True
  | .reported request key outcome =>
    outcome = .recordSuccess ∨ ∀ p ∈ st.probes, p.key = key → p.epoch = st.successes key → p.request = request

def Run [CaseFolding] (allowed : Probing → Event → Prop) : Probing → Probing → Prop :=
  ReflTransGen fun st st' => ∃ e, Step st e st' ∧ allowed st e

/-- Two probes of one circuit are without an outcome only if a success was recorded between their admissions. -/
def ProbesApart (st : Probing) : Prop :=
  st.probes.Pairwise fun later earlier => later.key = earlier.key → later.epoch ≠ earlier.epoch

structure Inv (st : Probing) : Prop where
  apart : st.ProbesApart
  counted : ∀ p ∈ st.probes, p.epoch ≤ st.successes p.key
  busy : ∀ p ∈ st.probes, p.epoch = st.successes p.key → st.breakers.Busy p.key

variable {st st' : Probing}

theorem Inv.start : Inv {} where
  apart := Pairwise.nil
  counted _ hp := absurd hp not_mem_nil
  busy _ hp := absurd hp not_mem_nil

theorem Inv.keep (h : Inv st) {b : CircuitBreakers} (hbusy : ∀ k, st.breakers.Busy k → b.Busy k) (now : Time)
    (admitted : List (Nat × String)) : Inv { st with breakers := b, now := now, admitted := admitted } where
  apart := h.apart
  counted := h.counted
  busy p hp hepoch := hbusy p.key (h.busy p hp hepoch)

theorem Inv.probed (h : Inv st) {request : Nat} {key : String} (hacquire : (st.breakers.acquire key st.now).2 = .probe)
    (admitted : List (Nat × String)) :
    Inv { st with
      breakers := (st.breakers.acquire key st.now).1
      admitted := admitted
      probes := ⟨request, key, st.successes key⟩ :: st.probes } := by
  obtain ⟨hkeep, hprobe⟩ := st.breakers.acquire_spec key st.now
  obtain ⟨hfree, hbusy⟩ := hprobe hacquire
  refine ⟨pairwise_cons.mpr ⟨fun p hp hkey hepoch => ?_, h.apart⟩, ?_, ?_⟩
  · -- a probe of the same epoch would have kept the circuit busy
    subst hkey
    exact hfree (h.busy p hp hepoch.symm)
  · intro p hp
    rcases mem_cons.mp hp with rfl | hp
    · exact le_rfl
    · exact h.counted p hp
  · intro p hp hepoch
    rcases mem_cons.mp hp with rfl | hp
    · exact hbusy
    · exact hkeep p.key (h.busy p hp hepoch)

theorem le_countSuccess (outcome : Outcome) (key : String) (successes : String → Nat) (k : String) :
    successes k ≤ countSuccess outcome key successes k := by
  unfold countSuccess
  split
  · rw [Function.update_apply]
    split
    · rename_i heq
      exact heq ▸ Nat.le_succ _
    · exact le_rfl
  · exact le_rfl

/-- After an outcome that is permitted, a probe of the current epoch is on another circuit or has none to fear. -/
theorem Inv.reported (h : Inv st) {request : Nat} {key : String} {outcome : Outcome} (jitter : Duration → Duration)
    (hheld : st.HeldOnly (.reported request key outcome)) :
    Inv { st with
      breakers := st.breakers.report outcome key st.now jitter
      probes := st.probes.filter fun p => p.request ≠ request
      successes := countSuccess outcome key st.successes } where
  apart := h.apart.sublist filter_sublist
  counted p hp := (h.counted p (mem_of_mem_filter hp)).trans (le_countSuccess outcome key st.successes p.key)
  busy p hp hepoch := by
    obtain ⟨hmem, hother⟩ := mem_filter.mp hp
    change p.epoch = countSuccess outcome key st.successes p.key at hepoch
    -- the epoch has not moved, so no success was recorded for the circuit just now
    have hcurrent : p.epoch = st.successes p.key :=
      le_antisymm (h.counted p hmem) (hepoch ▸ le_countSuccess outcome key st.successes p.key)
    refine (h.busy p hmem hcurrent).report outcome jitter fun hkey => ?_
    rcases hheld with hsuccess | hheld
    · rw [countSuccess, if_pos hsuccess, ← hkey, Function.update_self, hkey] at hepoch
      omega
    · exact absurd (hheld p hmem hkey.symm (hkey ▸ hcurrent)) (of_decide_eq_true hother)

section

variable [CaseFolding]

theorem Inv.step (h : Inv st) {e : Event} (hstep : Step st e st') (hheld : st.HeldOnly e) : Inv st' := by
  cases hstep with
  | tick t => exact h.keep (fun _ hb => hb) t st.admitted
  | eligible => exact h.keep (fun _ hb => hb.eligible) st.now st.admitted
  | snapshot => exact h.keep (fun _ hb => hb.refresh) st.now st.admitted
  | refused => exact h.keep (st.breakers.acquire_spec _ st.now).1 st.now st.admitted
  | acquired => exact h.keep (st.breakers.acquire_spec _ st.now).1 st.now _
  | probed _ _ _ _ hacquire => exact h.probed hacquire _
  | reported _ _ _ _ jitter => exact h.reported jitter hheld

theorem Inv.run (h : Inv st) (hrun : Run HeldOnly st st') : Inv st' := by
  induction hrun with
  | refl => exact h
  | tail _ hstep ih =>
    obtain ⟨_, hstep, hheld⟩ := hstep
    exact ih.step hstep hheld

/-- A half-open circuit has at most one probe without an outcome, as long as nobody else reports for it. -/
theorem one_probe_at_a_time (st : Probing) (hrun : Run HeldOnly {} st) : st.ProbesApart := (Inv.start.run hrun).apart

end

/-- Three failures open the circuit, and after the backoff a request is the only probe. -/
theorem one_probe_at_a_time_halfOpen : ∃ st : Probing, Run HeldOnly {} st ∧ st.probes.length = 1 ∧ st.ProbesApart := by
  have hrun : Run HeldOnly {} _ := .refl
  have hrun := hrun.tail ⟨_, .acquired 0 "node" "model" (by decide) (by decide), trivial⟩
  have hrun := hrun.tail ⟨_, .acquired 1 "node" "model" (by decide) (by decide), trivial⟩
  have hrun := hrun.tail ⟨_, .acquired 2 "node" "model" (by decide) (by decide), trivial⟩
  have hrun := hrun.tail ⟨_, .reported 0 "node" "model" .recordFailure id (by decide), .inr (by decide)⟩
  have hrun := hrun.tail ⟨_, .reported 1 "node" "model" .recordFailure id (by decide), .inr (by decide)⟩
  have hrun := hrun.tail ⟨_, .reported 2 "node" "model" .recordFailure id (by decide), .inr (by decide)⟩
  have hrun := hrun.tail ⟨_, .tick 2000000000 (by decide), trivial⟩
  have hrun := hrun.tail ⟨_, .probed 3 "node" "model" (by decide) (by decide), trivial⟩
  exact ⟨_, hrun, by decide, one_probe_at_a_time _ hrun⟩

/-- A request that was let through before the circuit opened reports while the probe is under way, and a second probe
is handed out. -/
theorem two_probes_at_once : ∃ st : Probing, Run (fun _ _ => True) {} st ∧ ¬ st.ProbesApart := by
  have hrun : Run (fun _ _ => True) {} _ := .refl
  have hrun := hrun.tail ⟨_, .acquired 0 "node" "model" (by decide) (by decide), trivial⟩
  have hrun := hrun.tail ⟨_, .acquired 1 "node" "model" (by decide) (by decide), trivial⟩
  have hrun := hrun.tail ⟨_, .acquired 2 "node" "model" (by decide) (by decide), trivial⟩
  have hrun := hrun.tail ⟨_, .acquired 3 "node" "model" (by decide) (by decide), trivial⟩
  have hrun := hrun.tail ⟨_, .reported 0 "node" "model" .recordFailure id (by decide), trivial⟩
  have hrun := hrun.tail ⟨_, .reported 1 "node" "model" .recordFailure id (by decide), trivial⟩
  have hrun := hrun.tail ⟨_, .reported 2 "node" "model" .recordFailure id (by decide), trivial⟩
  have hrun := hrun.tail ⟨_, .tick 2000000000 (by decide), trivial⟩
  have hrun := hrun.tail ⟨_, .probed 4 "node" "model" (by decide) (by decide), trivial⟩
  have hrun := hrun.tail ⟨_, .reported 3 "node" "model" .releaseProbe id (by decide), trivial⟩
  have hrun := hrun.tail ⟨_, .probed 5 "node" "model" (by decide) (by decide), trivial⟩
  exact ⟨_, hrun, by unfold ProbesApart; decide⟩

end Probing

end Maistr0.Orchestrator
