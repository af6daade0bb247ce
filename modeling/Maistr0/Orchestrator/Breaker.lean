import Maistr0.Go
import Maistr0.Lib.Keyed

/-!
# Circuit breakers of the router

`router_breaker.go`: one circuit for each node and model. Three failures within the window open it, and after a
backoff it is half open and lets one probe through. An outcome is reported for the node and the model only, not for
the admission it belongs to.
-/

namespace Maistr0.Orchestrator

open Go Lib.Keyed

def routerBreakerFailureThreshold : Nat := 3

/-- `30 * time.Second`. -/
def routerBreakerFailureWindow : Duration := 30000000000

/-- `time.Second`. -/
def routerBreakerBaseBackoff : Duration := 1000000000

/-- `time.Minute`. -/
def routerBreakerMaxBackoff : Duration := 60000000000

def routerBreakerMaxEntries : Nat := 4096

def routerPairKey (nodeID model : String) : String := nodeID ++ "\x00" ++ model

def breakerKey [CaseFolding] (nodeID model : String) : String := routerPairKey nodeID (toLower (trimSpace model))

inductive CircuitState where
  | closed
  | opened
  | halfOpen
deriving DecidableEq

structure CircuitBreaker where
  state : CircuitState := .closed
  recentFailures : List Time := []
  openCount : Nat := 0
  openUntil : Time := 0
  probeInFlight : Bool := false
  lastFailure : Time := 0
deriving DecidableEq

namespace CircuitBreaker

def transitionExpired (entry : CircuitBreaker) (now : Time) : CircuitBreaker :=
  if entry.state = .opened ∧ ¬ now < entry.openUntil then { entry with state := .halfOpen, probeInFlight := false }
  else entry

def pruneFailures (entry : CircuitBreaker) (now : Time) : CircuitBreaker :=
  let recent := entry.recentFailures.dropWhile fun failure => routerBreakerFailureWindow < sub now failure
  { entry with
    recentFailures := recent
    openCount := if entry.state = .closed ∧ recent.length < routerBreakerFailureThreshold then 0 else entry.openCount }

def backoff : Nat → Duration → Duration
  | 0, delay => delay
  | n + 1, delay =>
    if delay < routerBreakerMaxBackoff then backoff n (min (delay * 2) routerBreakerMaxBackoff) else delay

/-- `open`; `jitter` stands for the random factor. -/
def openCircuit (entry : CircuitBreaker) (now : Time) (jitter : Duration → Duration) : CircuitBreaker :=
  let openCount := if entry.openCount < 1 then 1 else entry.openCount
  let delay := min (jitter (backoff (openCount - 1) routerBreakerBaseBackoff)) routerBreakerMaxBackoff
  { entry with state := .opened, probeInFlight := false, openCount := openCount + 1, openUntil := now + delay }

def fail (entry : CircuitBreaker) (now : Time) (jitter : Duration → Duration) : CircuitBreaker :=
  let entry := entry.pruneFailures now
  let entry := { entry with lastFailure := now, recentFailures := entry.recentFailures ++ [now] }
  if entry.state = .halfOpen then entry.openCircuit now jitter
  else if entry.state ≠ .opened ∧ entry.recentFailures.length ≥ routerBreakerFailureThreshold then
    { entry with openCount := 1 }.openCircuit now jitter
  else entry

@[simp] theorem state_pruneFailures (entry : CircuitBreaker) (now : Time) :
    (entry.pruneFailures now).state = entry.state := rfl

@[simp] theorem probeInFlight_pruneFailures (entry : CircuitBreaker) (now : Time) :
    (entry.pruneFailures now).probeInFlight = entry.probeInFlight := rfl

variable {entry : CircuitBreaker}

theorem transitionExpired_of_halfOpen (h : entry.state = .halfOpen) (now : Time) :
    entry.transitionExpired now = entry := by
  rw [transitionExpired, if_neg]
  rintro ⟨hopened, -⟩
  rw [h] at hopened
  cases hopened

end CircuitBreaker

structure CircuitBreakers where
  entries : Lib.Keyed (Prod.fst : String × CircuitBreaker → String) := ∅

namespace CircuitBreakers

def lookup (b : CircuitBreakers) (key : String) : Option CircuitBreaker := (b.entries.get? key).map Prod.snd

def set (b : CircuitBreakers) (key : String) (entry : CircuitBreaker) : CircuitBreakers :=
  ⟨b.entries.put (key, entry)⟩

def delete (b : CircuitBreakers) (key : String) : CircuitBreakers := ⟨b.entries.erase key⟩

theorem lookup_set (b : CircuitBreakers) (key : String) (entry : CircuitBreaker) (k : String) :
    (b.set key entry).lookup k = if key = k then some entry else b.lookup k := by
  unfold lookup set
  rw [get?_put]
  split <;> rfl

theorem lookup_delete (b : CircuitBreakers) (key k : String) :
    (b.delete key).lookup k = if key = k then none else b.lookup k := by
  unfold lookup delete
  rw [get?_erase]
  split <;> rfl

def eligible (b : CircuitBreakers) (key : String) (now : Time) : CircuitBreakers × Bool :=
  match b.lookup key with
  | none => (b, true)
  | some entry =>
    let entry := entry.transitionExpired now
    (b.set key entry, entry.state ≠ .opened && (entry.state ≠ .halfOpen || !entry.probeInFlight))

/-- Whether a request is let through, and whether as the probe of a half-open circuit. -/
inductive Admission where
  | refused
  | admitted
  | probe
deriving DecidableEq

def acquire (b : CircuitBreakers) (key : String) (now : Time) : CircuitBreakers × Admission :=
  match b.lookup key with
  | none => (b, .admitted)
  | some entry =>
    let entry := entry.transitionExpired now
    if entry.state ≠ .halfOpen then (b.set key entry, if entry.state ≠ .opened then .admitted else .refused)
    else if entry.probeInFlight then (b.set key entry, .refused)
    else (b.set key { entry with probeInFlight := true }, .probe)

def releaseProbe (b : CircuitBreakers) (key : String) : CircuitBreakers :=
  match b.lookup key with
  | none => b
  | some entry => if entry.state = .halfOpen then b.set key { entry with probeInFlight := false } else b

/-- The part of `entryForUpdate` that makes room for a new entry. -/
def prune (b : CircuitBreakers) (now : Time) : CircuitBreakers :=
  ⟨(b.entries.mapVals (fun e => (e.1, e.2.pruneFailures now)) fun _ => rfl).filter fun e =>
    !(decide (e.2.state = .closed) && e.2.recentFailures.isEmpty)⟩

def entryForUpdate (b : CircuitBreakers) (key : String) (now : Time) : CircuitBreakers × Option CircuitBreaker :=
  match b.lookup key with
  | some entry => (b, some entry)
  | none =>
    let b := b.prune now
    if b.entries.vals.length ≥ routerBreakerMaxEntries then (b, none) else (b.set key {}, some {})

def recordFailure (b : CircuitBreakers) (key : String) (now : Time) (jitter : Duration → Duration) : CircuitBreakers :=
  match b.entryForUpdate key now with
  | (b, none) => b
  | (b, some entry) => b.set key (entry.fail now jitter)

def recordSuccess (b : CircuitBreakers) (key : String) : CircuitBreakers := b.delete key

def recordHealthyResponse (b : CircuitBreakers) (key : String) : CircuitBreakers :=
  match b.lookup key with
  | none => b
  | some entry => if entry.state = .halfOpen then b.delete key else b

def refresh (b : CircuitBreakers) (key : String) (now : Time) : CircuitBreakers :=
  match b.lookup key with
  | none => b
  | some entry => b.set key ((entry.transitionExpired now).pruneFailures now)

inductive Outcome where
  | releaseProbe
  | recordFailure
  | recordSuccess
  | recordHealthyResponse
deriving DecidableEq

def report (b : CircuitBreakers) (outcome : Outcome) (key : String) (now : Time) (jitter : Duration → Duration) :
    CircuitBreakers :=
  match outcome with
  | .releaseProbe => b.releaseProbe key
  | .recordFailure => b.recordFailure key now jitter
  | .recordSuccess => b.recordSuccess key
  | .recordHealthyResponse => b.recordHealthyResponse key

/-! ### A circuit with a probe under way -/

def Busy (b : CircuitBreakers) (key : String) : Prop :=
  ∃ entry, b.lookup key = some entry ∧ entry.state = .halfOpen ∧ entry.probeInFlight = true

variable {b : CircuitBreakers} {key k : String} {now : Time}

section

variable (h : b.Busy k)

include h

theorem Busy.set (hentry : key = k → entry.state = .halfOpen ∧ entry.probeInFlight = true) :
    (b.set key entry).Busy k := by
  by_cases hkey : key = k
  · exact ⟨entry, by rw [lookup_set, if_pos hkey], hentry hkey⟩
  · obtain ⟨e, hlookup, he⟩ := h
    exact ⟨e, by rw [lookup_set, if_neg hkey, hlookup], he⟩

theorem Busy.delete (hkey : key ≠ k) : (b.delete key).Busy k := by
  obtain ⟨e, hlookup, he⟩ := h
  exact ⟨e, by rw [lookup_delete, if_neg hkey, hlookup], he⟩

theorem Busy.transitionExpired (hlookup : b.lookup key = some entry) (now : Time) (hkey : key = k) :
    (entry.transitionExpired now).state = .halfOpen ∧ (entry.transitionExpired now).probeInFlight = true := by
  subst hkey
  obtain ⟨_, he, hstate, hprobe⟩ := h
  cases hlookup.symm.trans he
  rw [CircuitBreaker.transitionExpired_of_halfOpen hstate]
  exact ⟨hstate, hprobe⟩

theorem Busy.eligible : (b.eligible key now).1.Busy k := by
  unfold CircuitBreakers.eligible
  split
  · exact h
  · rename_i entry hlookup
    exact h.set (h.transitionExpired hlookup now)

theorem Busy.refresh : (b.refresh key now).Busy k := by
  unfold CircuitBreakers.refresh
  split
  · exact h
  · rename_i entry hlookup
    exact h.set (h.transitionExpired hlookup now)

end

theorem acquire_spec (b : CircuitBreakers) (key : String) (now : Time) :
    (∀ k, b.Busy k → (b.acquire key now).1.Busy k) ∧
      ((b.acquire key now).2 = .probe → ¬ b.Busy key ∧ (b.acquire key now).1.Busy key) := by
  unfold acquire
  split
  · exact ⟨fun _ h => h, nofun⟩
  rename_i entry hlookup
  dsimp only
  split
  · refine ⟨fun k h => h.set (h.transitionExpired hlookup now), fun h => ?_⟩
    split at h <;> cases h
  rename_i hhalf
  rw [ne_eq, not_not] at hhalf
  split
  · exact ⟨fun k h => h.set (h.transitionExpired hlookup now), nofun⟩
  rename_i hfree
  refine ⟨fun k h => h.set fun hkey => ⟨(h.transitionExpired hlookup now hkey).1, rfl⟩, fun _ => ⟨fun h => ?_, ?_⟩⟩
  · exact hfree (h.transitionExpired hlookup now rfl).2
  · exact ⟨{ entry.transitionExpired now with probeInFlight := true }, by rw [lookup_set, if_pos rfl], hhalf, rfl⟩

theorem Busy.prune (h : b.Busy k) : (b.prune now).Busy k := by
  obtain ⟨_, hlookup, hstate, hprobe⟩ := h
  obtain ⟨⟨key, entry⟩, hget, rfl⟩ := Option.map_eq_some_iff.mp hlookup
  change entry.state = .halfOpen at hstate
  refine ⟨entry.pruneFailures now, Option.map_eq_some_iff.mpr ⟨(key, entry.pruneFailures now), ?_, rfl⟩, hstate, hprobe⟩
  refine get?_filter_of_keep ?_ ?_
  · rw [get?_mapVals, hget]
    rfl
  · simp [hstate]

theorem Busy.report (h : b.Busy k) (outcome : Outcome) (jitter : Duration → Duration) (hkey : key ≠ k) :
    (b.report outcome key now jitter).Busy k := by
  cases outcome with
  | releaseProbe =>
    change (b.releaseProbe key).Busy k
    unfold releaseProbe
    split
    · exact h
    split
    · exact h.set fun heq => absurd heq hkey
    · exact h
  | recordFailure =>
    change (b.recordFailure key now jitter).Busy k
    unfold recordFailure entryForUpdate
    cases hlookup : b.lookup key with
    | some => exact h.set fun heq => absurd heq hkey
    | none =>
      dsimp only
      split
      · rename_i heq
        split at heq
        · obtain ⟨rfl, -⟩ := Prod.mk.inj heq
          exact h.prune
        · cases heq
      · rename_i heq
        split at heq
        · cases heq
        · obtain ⟨rfl, -⟩ := Prod.mk.inj heq
          exact (h.prune.set fun heq => absurd heq hkey).set fun heq => absurd heq hkey
  | recordSuccess => exact h.delete hkey
  | recordHealthyResponse =>
    change (b.recordHealthyResponse key).Busy k
    unfold recordHealthyResponse
    split
    · exact h
    split
    · exact h.delete hkey
    · exact h

end CircuitBreakers

end Maistr0.Orchestrator
