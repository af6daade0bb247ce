import Maistr0.Lib.Interleaving
import Maistr0.Lib.Keyed

/-!
# Idempotent generation

`generateIdempotencyCache.do` as the calls of `handleGenerate` run it. What a call does under the lock is one move:
it looks its key up, or it files the result of its generation. It has read the time before it waits for the lock. An
entry is a pointer, here its number; what a follower reads of it when its channel is closed is in `ended`. The map is
ranged over in any order.

The key of an entry and the list of the entries that were thrown out for space are not in the source.
-/

namespace Maistr0.NodeAgent.Idempotency

open Lib Lib.Interleaving List Option Function

def generateIdempotencyTTL : Nat := 10 * 60 * 10 ^ 9

def generateIdempotencyMaxEntries : Nat := 512

def generateIdempotencyMaxResultBytes : Nat := 2 ^ 20

def generateIdempotencyMaxTotalResultBytes : Nat := 8 * 2 ^ 20

structure GenerateResult where
  output : String
  durationMs : Int

def GenerateResult.size (result : GenerateResult) : Nat := result.output.utf8ByteSize

inductive GenerateError
  /-- The context the generation runs under, that of the request of the call which started it, was cancelled. -/
  | cancelled
  | failed (text : String)

inductive DoError
  /-- The call's own context was cancelled. -/
  | context
  | keyConflict
  | cacheBusy
  | generate (err : GenerateError)

abbrev Outcome := Except GenerateError GenerateResult

structure Entry where
  key : String
  id : Nat
  fingerprint : BitVec 256
  expiresAt : Nat := 0
  cacheBytes : Nat := 0
  completed : Bool := false

structure Cache where
  entries : Keyed Entry.key := ∅
  resultBytes : Int := 0
  ended : Nat → Option Outcome := fun _ => none
  next : Nat := 0
  clock : Nat := 0
  evicted : List Entry := []

structure MapOrder where
  order : List Entry → List Entry
  perm : ∀ es, (order es).Perm es

/-- A turn of the search for `oldestKey`, which takes an entry with the empty key for none. -/
def older (best : Option Entry) (e : Entry) : Option Entry :=
  match best with
  | none => some e
  | some b => if b.key = "" ∨ e.expiresAt < b.expiresAt then some e else best

def oldest (candidates : List Entry) : Option Entry := (candidates.foldl older none).filter fun e => e.key ≠ ""

theorem mem_of_oldest {candidates : List Entry} {e : Entry} (h : oldest candidates = some e) : e ∈ candidates := by
  have hfold : ∀ e, candidates.foldl older none = some e → e ∈ candidates := by
    refine foldlRecOn (motive := fun best => ∀ e, best = some e → e ∈ candidates) candidates older nofun ?_
    intro best hbest x hx e he
    unfold older at he
    split at he <;> grind
  exact hfold e (filter_eq_some_iff.mp h).1

namespace Cache

def expire (g : Cache) (now : Nat) : Cache :=
  let stale : Entry → Bool := fun e => e.completed && decide (e.expiresAt ≤ now)
  { g with
    entries := g.entries.filter fun e => !stale e
    resultBytes := g.resultBytes - ((g.entries.vals.filter stale).map Entry.cacheBytes).sum }

def evict (g : Cache) (e : Entry) : Cache :=
  { g with entries := g.entries.erase e.key, resultBytes := g.resultBytes - e.cacheBytes, evicted := g.evicted ++ [e] }

def begin (g : Cache) (key : String) (fingerprint : BitVec 256) : Cache :=
  { g with entries := g.entries.put { key, id := g.next, fingerprint }, next := g.next + 1 }

theorem length_evict {g : Cache} {e : Entry} (he : e ∈ g.entries.vals) :
    (g.evict e).entries.vals.length + 1 = g.entries.vals.length :=
  (Keyed.perm_cons_erase he).length_eq.symm

def makeRoom (order : MapOrder) (id size : Nat) (g : Cache) : Cache :=
  if g.resultBytes + size > generateIdempotencyMaxTotalResultBytes then
    match _h : oldest ((order.order g.entries.vals).filter fun e => e.id ≠ id && e.completed) with
    | none => g
    | some e => makeRoom order id size (g.evict e)
  else g
termination_by g.entries.vals.length
decreasing_by
  have he : e ∈ g.entries.vals := (order.perm _).mem_iff.mp (List.mem_of_mem_filter (mem_of_oldest _h))
  have := length_evict he
  omega

def files (g : Cache) (key : String) (id : Nat) : Bool := (g.entries.get? key).any fun e => e.id = id

def drop (g : Cache) (key : String) (id : Nat) : Cache :=
  if g.files key id then { g with entries := g.entries.erase key } else g

def complete (g : Cache) (key : String) (fingerprint : BitVec 256) (id size : Nat) : Cache :=
  { g with
    entries := g.entries.put
      { key, id, fingerprint, completed := true, expiresAt := g.clock + generateIdempotencyTTL, cacheBytes := size }
    resultBytes := g.resultBytes + size }

def store (order : MapOrder) (key : String) (fingerprint : BitVec 256) (id size : Nat) (g : Cache) : Cache :=
  let g := g.makeRoom order id size
  if g.files key id && g.resultBytes + size ≤ generateIdempotencyMaxTotalResultBytes then
    g.complete key fingerprint id size
  else g.drop key id

def finish (order : MapOrder) (key : String) (fingerprint : BitVec 256) (id : Nat) (outcome : Outcome) (g : Cache) :
    Cache :=
  let g' := match outcome with
    | .ok result =>
      if result.size ≤ generateIdempotencyMaxResultBytes then g.store order key fingerprint id result.size
      else g.drop key id
    | .error _ => g.drop key id
  { g' with ended := update g'.ended id (some outcome) }

end Cache

open Cache

inductive Phase
  | arrived
  /-- Has read the time and waits for the lock. -/
  | timed (now : Nat)
  | leading (id : Nat)
  | following (id : Nat)
  | returned (result : Except DoError GenerateResult)
  /-- `generate` has panicked, which leaves the entry as it is. -/
  | panicked

structure Call where
  key : String
  fingerprint : BitVec 256
  /-- `ctx.Err() == nil`. -/
  live : Bool := true
  phase : Phase := .arrived

def Cache.lookup (order : MapOrder) (key : String) (fingerprint : BitVec 256) (now : Nat) (g : Cache) : Cache × Phase :=
  let g := g.expire now
  match g.entries.get? key with
  | some entry =>
    if entry.fingerprint ≠ fingerprint then (g, .returned (.error .keyConflict)) else (g, .following entry.id)
  | none =>
    if generateIdempotencyMaxEntries ≤ g.entries.vals.length then
      match oldest ((order.order g.entries.vals).filter Entry.completed) with
      | none => (g, .returned (.error .cacheBusy))
      | some e => ((g.evict e).begin key fingerprint, .leading g.next)
    else (g.begin key fingerprint, .leading g.next)

inductive Event
  | run
  | tick
  | cancel (phase : Phase)

inductive Moves : Cache → Call → Event → Cache → Call → Prop
  | refuse (g : Cache) {t : Call} (h : t.phase = .arrived) (hlive : t.live = false) :
      Moves g t .run g { t with phase := .returned (.error .context) }
  | time (g : Cache) {t : Call} (h : t.phase = .arrived) (hlive : t.live = true) :
      Moves g t .run g { t with phase := .timed g.clock }
  | lookup (g : Cache) {t : Call} {now : Nat} (order : MapOrder) (h : t.phase = .timed now) :
      Moves g t .run (g.lookup order t.key t.fingerprint now).1
        { t with phase := (g.lookup order t.key t.fingerprint now).2 }
  | generated (g : Cache) {t : Call} {id : Nat} (order : MapOrder) (outcome : Outcome) (h : t.phase = .leading id)
      (houtcome : t.live = true → outcome ≠ .error .cancelled) :
      Moves g t .run (g.finish order t.key t.fingerprint id outcome)
        { t with phase := .returned (outcome.mapError .generate) }
  | panic (g : Cache) {t : Call} {id : Nat} (h : t.phase = .leading id) : Moves g t .run g { t with phase := .panicked }
  | abandon (g : Cache) {t : Call} {id : Nat} (h : t.phase = .following id) (hlive : t.live = false) :
      Moves g t .run g { t with phase := .returned (.error .context) }
  | share (g : Cache) {t : Call} {id : Nat} {outcome : Outcome} (h : t.phase = .following id)
      (hended : g.ended id = some outcome) :
      Moves g t .run g { t with phase := .returned (outcome.mapError .generate) }
  | cancel (g : Cache) (t : Call) : Moves g t (.cancel t.phase) g { t with live := false }

def system : System Cache Call Event where
  moves := Moves
  disturbs g e g' := e = .tick ∧ ∃ time, g.clock ≤ time ∧ g' = { g with clock := time }
  starts _ t := t.phase = .arrived

def initial : State Cache Call := ⟨{}, []⟩

/-! ### What the parts of a call do to the cache -/

namespace Cache

variable {g g' g'' : Cache} {e : Entry}

def cachedBytes (g : Cache) : Nat := (g.entries.vals.map Entry.cacheBytes).sum

def Holds (g : Cache) (e : Entry) : Prop :=
  e.id < g.next ∧
    if e.completed then ∃ result, g.ended e.id = some (.ok result) ∧ result.size = e.cacheBytes
    else e.cacheBytes = 0 ∧ g.ended e.id = none

structure Sound (g : Cache) : Prop where
  bytes : g.resultBytes = g.cachedBytes
  total : g.resultBytes ≤ generateIdempotencyMaxTotalResultBytes
  count : g.entries.vals.length ≤ generateIdempotencyMaxEntries
  entry : ∀ e ∈ g.entries.vals, g.Holds e
  apart : ∀ e ∈ g.entries.vals, ∀ e' ∈ g.entries.vals, e.id = e'.id → e = e'
  fresh : ∀ id, g.next ≤ id → g.ended id = none

def Left (g : Cache) (e : Entry) : Prop :=
  if e.completed then e ∈ g.evicted ∨ e.expiresAt ≤ g.clock else (g.ended e.id).isSome

structure Succeeds (g g' : Cache) : Prop where
  clock : g.clock ≤ g'.clock
  evicted : g.evicted ⊆ g'.evicted
  ended : ∀ id outcome, g.ended id = some outcome → g'.ended id = some outcome
  entry : ∀ e ∈ g.entries.vals, e ∈ g'.entries.vals ∨ g'.Left e

theorem Left.mono (h : g.Left e) (hsucc : g.Succeeds g') : g'.Left e := by
  unfold Left at h ⊢
  split
  · rw [if_pos (by assumption)] at h
    exact h.imp (fun hmem => hsucc.evicted hmem) fun hle => hle.trans hsucc.clock
  rw [if_neg (by assumption)] at h
  obtain ⟨_, hended⟩ := isSome_iff_exists.mp h
  rw [hsucc.ended _ _ hended]
  rfl

theorem Succeeds.trans (h : g.Succeeds g') (h' : g'.Succeeds g'') : g.Succeeds g'' where
  clock := h.clock.trans h'.clock
  evicted := Subset.trans h.evicted h'.evicted
  ended id outcome hended := h'.ended id outcome (h.ended id outcome hended)
  entry e he := by
    rcases h.entry e he with he | hleft
    · exact h'.entry e he
    · exact .inr (hleft.mono h')

structure Shrinks (g g' : Cache) : Prop where
  bytes : g'.resultBytes + g.cachedBytes = g.resultBytes + g'.cachedBytes
  total : g'.resultBytes ≤ g.resultBytes
  count : g'.entries.vals.length ≤ g.entries.vals.length
  sub : g'.entries.vals ⊆ g.entries.vals
  evicted : g.evicted ⊆ g'.evicted
  entry : ∀ e ∈ g.entries.vals, e ∈ g'.entries.vals ∨ e.completed = true ∧ g'.Left e
  ended : g'.ended = g.ended
  next : g'.next = g.next
  clock : g'.clock = g.clock

theorem Shrinks.succeeds (h : g.Shrinks g') : g.Succeeds g' where
  clock := h.clock.ge
  evicted := h.evicted
  ended id outcome hended := by rw [h.ended, hended]
  entry e he := (h.entry e he).imp_right And.right

theorem Shrinks.refl (g : Cache) : g.Shrinks g :=
  ⟨rfl, Int.le_refl _, Nat.le_refl _, fun _ h => h, fun _ h => h, fun _ h => .inl h, rfl, rfl, rfl⟩

theorem Shrinks.trans (h : g.Shrinks g') (h' : g'.Shrinks g'') : g.Shrinks g'' where
  bytes := by
    have := h.bytes
    have := h'.bytes
    omega
  total := Int.le_trans h'.total h.total
  count := h'.count.trans h.count
  sub := Subset.trans h'.sub h.sub
  evicted := Subset.trans h.evicted h'.evicted
  entry e he := by
    rcases h.entry e he with he | ⟨hcompleted, hleft⟩
    · exact h'.entry e he
    · exact .inr ⟨hcompleted, hleft.mono h'.succeeds⟩
  ended := h'.ended.trans h.ended
  next := h'.next.trans h.next
  clock := h'.clock.trans h.clock

theorem Sound.shrink (hg : g.Sound) (h : g.Shrinks g') : g'.Sound where
  bytes := by
    have := h.bytes
    have := hg.bytes
    omega
  total := Int.le_trans h.total hg.total
  count := h.count.trans hg.count
  entry e he := by
    have := hg.entry e (h.sub he)
    rwa [Holds, h.ended, h.next]
  apart e he e' he' := hg.apart e (h.sub he) e' (h.sub he')
  fresh id hid := by
    rw [h.ended]
    exact hg.fresh id (h.next ▸ hid)

theorem shrinks_expire {now : Nat} (hnow : now ≤ g.clock) : g.Shrinks (g.expire now) := by
  obtain ⟨stale, hstale⟩ : ∃ stale : Entry → Bool, stale = fun e => e.completed && decide (e.expiresAt ≤ now) := ⟨_, rfl⟩
  have heq : g.expire now = { g with
      entries := g.entries.filter fun e => !stale e
      resultBytes := g.resultBytes - ((g.entries.vals.filter stale).map Entry.cacheBytes).sum } := by rw [hstale]; rfl
  have hsum : ((g.entries.vals.filter stale).map Entry.cacheBytes).sum + (g.expire now).cachedBytes = g.cachedBytes := by
    rw [heq, cachedBytes, cachedBytes, Keyed.vals_filter, ← sum_append, ← map_append]
    exact ((filter_append_perm stale _).map _).sum_eq
  rw [heq] at hsum ⊢
  refine ⟨?_, ?_, length_filter_le _ _, filter_subset_self _, fun _ h => h, fun e he => ?_, rfl, rfl, rfl⟩
  · dsimp only
    omega
  · dsimp only
    omega
  · cases hse : stale e with
    | false => exact .inl (mem_filter.mpr ⟨he, by rw [hse]; rfl⟩)
    | true =>
      rw [hstale, Bool.and_eq_true, decide_eq_true_eq] at hse
      refine .inr ⟨hse.1, ?_⟩
      rw [Left, if_pos hse.1]
      exact .inr (hse.2.trans hnow)

theorem shrinks_evict (he : e ∈ g.entries.vals) (hcompleted : e.completed = true) : g.Shrinks (g.evict e) := by
  have hperm := Keyed.perm_cons_erase he
  have hsum : g.cachedBytes = e.cacheBytes + (g.evict e).cachedBytes := (hperm.map _).sum_eq
  refine ⟨?_, ?_, ?_, filter_subset_self _, subset_append_left _ _, fun e' he' => ?_, rfl, rfl, rfl⟩
  · change g.resultBytes - e.cacheBytes + _ = _
    omega
  · change g.resultBytes - e.cacheBytes ≤ _
    omega
  · have := length_evict he
    omega
  · rcases mem_cons.mp (hperm.mem_iff.mp he') with rfl | hmem
    · refine .inr ⟨hcompleted, ?_⟩
      rw [Left, if_pos hcompleted]
      exact .inl (mem_append_right _ mem_cons_self)
    · exact .inl hmem

theorem shrinks_makeRoom (order : MapOrder) (id size : Nat) (g : Cache) : g.Shrinks (g.makeRoom order id size) := by
  fun_induction makeRoom order id size g with
  | case1 g => exact Shrinks.refl g
  | case2 _ _ _ h ih =>
    obtain ⟨hmem, hcompleted⟩ := mem_filter.mp (mem_of_oldest h)
    rw [Bool.and_eq_true] at hcompleted
    exact (shrinks_evict ((order.perm _).mem_iff.mp hmem) hcompleted.2).trans ih
  | case3 g => exact Shrinks.refl g

theorem begin_spec {key : String} (fingerprint : BitVec 256) (hg : g.Sound)
    (hcount : g.entries.vals.length < generateIdempotencyMaxEntries) (hnew : g.entries.get? key = none) :
    (g.begin key fingerprint).Sound ∧ g.Succeeds (g.begin key fingerprint) := by
  have hvals : (g.begin key fingerprint).entries.vals = { key, id := g.next, fingerprint } :: g.entries.vals := by
    change _ :: g.entries.vals.filter _ = _
    rw [filter_eq_self.mpr]
    intro e he
    simpa using find?_eq_none.mp hnew e he
  have hid : ∀ e ∈ g.entries.vals, e.id < g.next := fun e he => (hg.entry e he).1
  refine ⟨⟨?_, hg.total, ?_, ?_, ?_, fun id hid => hg.fresh id (Nat.le_of_succ_le hid)⟩, Nat.le_refl _, fun _ h => h,
    fun _ _ h => h, fun e he => .inl ?_⟩
  · rw [cachedBytes, hvals, map_cons, sum_cons, Nat.zero_add]
    exact hg.bytes
  · rw [hvals]
    exact hcount
  · rw [hvals]
    refine forall_mem_cons.mpr ⟨⟨Nat.lt_succ_self _, rfl, hg.fresh _ (Nat.le_refl _)⟩, fun e he => ?_⟩
    exact ⟨Nat.lt_succ_of_lt (hid e he), (hg.entry e he).2⟩
  · rw [hvals]
    intro e he e' he' heq
    rcases mem_cons.mp he with rfl | he <;> rcases mem_cons.mp he' with rfl | he'
    · rfl
    · exact absurd heq.symm (hid e' he').ne
    · exact absurd heq (hid e he).ne
    · exact hg.apart e he e' he' heq
  · rw [hvals]
    exact mem_cons_of_mem _ he

structure Settles (g g' : Cache) (e : Entry) (outcome : Outcome) (new : Option Entry) : Prop where
  vals : g'.entries.vals = new.toList ++ (g.entries.erase e.key).vals
  bytes : g'.resultBytes = g.resultBytes + (new.toList.map Entry.cacheBytes).sum
  total : g'.resultBytes ≤ generateIdempotencyMaxTotalResultBytes
  ended : g'.ended = update g.ended e.id (some outcome)
  next : g'.next = g.next
  clock : g'.clock = g.clock
  evicted : g'.evicted = g.evicted
  new : ∀ e' ∈ new, e'.id = e.id ∧ e'.completed = true ∧ ∃ result, outcome = .ok result ∧ result.size = e'.cacheBytes

variable {outcome : Outcome} {new : Option Entry}

theorem Settles.ended_ne (h : g.Settles g' e outcome new) (id : Nat) (hid : id ≠ e.id) : g'.ended id = g.ended id := by
  rw [h.ended, update_of_ne hid]

theorem Settles.spec (h : g.Settles g' e outcome new) (hg : g.Sound) (he : e ∈ g.entries.vals)
    (hpending : e.completed = false) : g'.Sound ∧ g.Succeeds g' := by
  have hperm := Keyed.perm_cons_erase he
  obtain ⟨hid, hrest⟩ := hg.entry e he
  rw [hpending] at hrest
  obtain ⟨hzero, hnone⟩ := hrest
  have hmem : ∀ e' ∈ (g.entries.erase e.key).vals, e' ∈ g.entries.vals := fun e' he' =>
    hperm.mem_iff.mpr (mem_cons_of_mem _ he')
  have hne : ∀ e' ∈ (g.entries.erase e.key).vals, e'.id ≠ e.id := by
    intro e' he' heq
    obtain rfl := hg.apart e' (hmem e' he') e he heq
    simp at he'
  have hended_eq : g'.ended e.id = some outcome := by rw [h.ended, update_self]
  have hlen : new.toList.length ≤ 1 := by cases new <;> simp
  refine ⟨⟨?_, h.total, ?_, fun e' he' => ?_, fun e₁ h₁ e₂ h₂ heq => ?_, fun id hle => ?_⟩, h.clock.ge, ?_, ?_, fun e' he' => ?_⟩
  · have hsum : g.cachedBytes = e.cacheBytes + ((g.entries.erase e.key).vals.map Entry.cacheBytes).sum :=
      (hperm.map _).sum_eq
    have := hg.bytes
    have := h.bytes
    rw [cachedBytes, h.vals, map_append, sum_append]
    omega
  · have := hperm.length_eq
    have := hg.count
    rw [length_cons] at *
    rw [h.vals, length_append]
    omega
  · rw [h.vals, mem_append, mem_toList] at he'
    rw [Holds, h.next]
    rcases he' with he' | he'
    · obtain ⟨heq, hcompleted, result, rfl, hsize⟩ := h.new e' he'
      rw [if_pos hcompleted, heq]
      exact ⟨hid, result, hended_eq, hsize⟩
    · rw [h.ended_ne _ (hne e' he')]
      exact hg.entry e' (hmem e' he')
  · rw [h.vals, mem_append, mem_toList] at h₁ h₂
    rcases h₁ with h₁ | h₁ <;> rcases h₂ with h₂ | h₂
    · exact some.inj (h₁.symm.trans h₂)
    · exact absurd (heq.symm.trans (h.new e₁ h₁).1) (hne e₂ h₂)
    · exact absurd (heq.trans (h.new e₂ h₂).1) (hne e₁ h₁)
    · exact hg.apart e₁ (hmem e₁ h₁) e₂ (hmem e₂ h₂) heq
  · rw [h.next] at hle
    rw [h.ended_ne id (by omega)]
    exact hg.fresh id hle
  · rw [h.evicted]
    exact Subset.refl _
  · intro id outcome' hid
    rw [h.ended_ne id fun heq => by rw [heq, hnone] at hid; cases hid]
    exact hid
  · rcases mem_cons.mp (hperm.mem_iff.mp he') with rfl | he'
    · refine .inr ?_
      rw [Left, hpending, hended_eq]
      rfl
    · rw [h.vals]
      exact .inl (mem_append_right _ he')

theorem files_of_mem (he : e ∈ g.entries.vals) : g.files e.key e.id = true := by
  rw [files, Keyed.get?_eq_some.mpr ⟨he, rfl⟩]
  exact decide_eq_true rfl

theorem settles_drop (hg : g.Sound) (he : e ∈ g.entries.vals) (outcome : Outcome) :
    g.Settles { g.drop e.key e.id with ended := update (g.drop e.key e.id).ended e.id (some outcome) } e outcome
      none := by
  rw [drop, if_pos (files_of_mem he)]
  exact ⟨rfl, (Int.add_zero _).symm, hg.total, rfl, rfl, rfl, rfl, nofun⟩

theorem finish_spec (order : MapOrder) (outcome : Outcome) (hg : g.Sound) (he : e ∈ g.entries.vals)
    (hpending : e.completed = false) (hg' : g' = g.finish order e.key e.fingerprint e.id outcome) :
    g'.Sound ∧ g.Succeeds g' ∧ ∀ id, id ≠ e.id → g'.ended id = g.ended id := by
  -- Entries are thrown out first, and then the entry is settled.
  obtain ⟨room, new, hshrinks, hsettles⟩ : ∃ room new, g.Shrinks room ∧ room.Settles g' e outcome new := by
    subst hg'
    have hroom (size : Nat) : e ∈ (g.makeRoom order e.id size).entries.vals :=
      ((shrinks_makeRoom order e.id size g).entry e he).resolve_right fun h => by simp [hpending] at h
    unfold finish
    cases outcome with
    | error => exact ⟨g, none, Shrinks.refl g, settles_drop hg he _⟩
    | ok result =>
      dsimp only
      split
      · have hshrinks := shrinks_makeRoom order e.id result.size g
        unfold store
        dsimp only
        split
        next hfits =>
          rw [Bool.and_eq_true, decide_eq_true_eq] at hfits
          refine ⟨_, some _, hshrinks, rfl, ?_, hfits.2, rfl, rfl, rfl, rfl, fun e' he' => ?_⟩
          · exact congrArg (_ + Nat.cast ·) (Nat.add_zero _).symm
          · obtain rfl := some.inj he'
            exact ⟨rfl, rfl, result, rfl, rfl⟩
        next => exact ⟨_, none, hshrinks, settles_drop (hg.shrink hshrinks) (hroom _) _⟩
      · exact ⟨g, none, Shrinks.refl g, settles_drop hg he _⟩
  have hroom : e ∈ room.entries.vals := (hshrinks.entry e he).resolve_right fun h => by simp [hpending] at h
  obtain ⟨hsound, hsucceeds⟩ := hsettles.spec (hg.shrink hshrinks) hroom hpending
  refine ⟨hsound, hshrinks.succeeds.trans hsucceeds, fun id hid => ?_⟩
  rw [hsettles.ended_ne id hid, hshrinks.ended]

theorem lookup_cases (order : MapOrder) (key : String) (fingerprint : BitVec 256) {now : Nat} (hg : g.Sound)
    (hnow : now ≤ g.clock) : ∃ room, g.Shrinks room ∧
      ((∃ id, g.lookup order key fingerprint now = (room, .following id)) ∨
        (∃ err, g.lookup order key fingerprint now = (room, .returned (.error err))) ∨
        room.entries.vals.length < generateIdempotencyMaxEntries ∧ room.entries.get? key = none ∧
          g.lookup order key fingerprint now = (room.begin key fingerprint, .leading room.next)) := by
  have hexpire := shrinks_expire hnow
  unfold lookup
  dsimp only
  cases hget : (g.expire now).entries.get? key with
  | some =>
    refine ⟨_, hexpire, ?_⟩
    dsimp only
    split
    · exact .inr (.inl ⟨_, rfl⟩)
    · exact .inl ⟨_, rfl⟩
  | none =>
    dsimp only
    split
    · split
      · exact ⟨_, hexpire, .inr (.inl ⟨_, rfl⟩)⟩
      next e holdest =>
        obtain ⟨hmem, hcompleted⟩ := mem_filter.mp (mem_of_oldest holdest)
        have he := (order.perm _).mem_iff.mp hmem
        have hcount := (hg.shrink hexpire).count
        have hlength := length_evict he
        refine ⟨_, hexpire.trans (shrinks_evict he hcompleted), .inr (.inr ⟨by omega, ?_, rfl⟩)⟩
        rw [evict, Keyed.get?_erase, hget, ite_self]
    next hcount => exact ⟨_, hexpire, .inr (.inr ⟨Nat.lt_of_not_le hcount, hget, rfl⟩)⟩

end Cache

/-! ### What the calls keep -/

/-- The time a call has read has come, and a call that generates has an entry in progress. -/
def Call.Fits (g : Cache) (t : Call) : Prop :=
  match t.phase with
  | .timed now => now ≤ g.clock
  | .leading id => ∃ e ∈ g.entries.vals, e.id = id ∧ e.key = t.key ∧ e.fingerprint = t.fingerprint ∧ e.completed = false
  | _ => True

def Call.Leads (t : Call) (id : Nat) : Prop := t.phase = .leading id

variable {g g' : Cache} {t t' u : Call} {ev : Event}

theorem Call.Fits.leads {id : Nat} (h : t.Fits g) (hleads : t.Leads id) : ∃ e ∈ g.entries.vals,
    e.id = id ∧ e.key = t.key ∧ e.fingerprint = t.fingerprint ∧ e.completed = false := by
  unfold Call.Fits at h
  rwa [show t.phase = .leading id from hleads] at h

theorem Call.Fits.mono (h : u.Fits g) (hg : g.Sound) (hsucceeds : g.Succeeds g')
    (hended : ∀ id, u.Leads id → g'.ended id = g.ended id) : u.Fits g' := by
  unfold Call.Fits at h ⊢
  cases hphase : u.phase with
  | timed =>
    rw [hphase] at h
    exact Nat.le_trans h hsucceeds.clock
  | leading =>
    rw [hphase] at h
    obtain ⟨e, he, rfl, hrest⟩ := h
    refine ⟨e, (hsucceeds.entry e he).resolve_right fun hleft => ?_, rfl, hrest⟩
    have hholds := (hg.entry e he).2
    rw [hrest.2.2] at hholds
    rw [Cache.Left, hrest.2.2, hended _ hphase, hholds.2] at hleft
    cases hleft
  | arrived | following | returned | panicked => trivial

theorem Moves.spec (h : Moves g t ev g' t') (hg : g.Sound) (ht : t.Fits g) :
    g'.Sound ∧ t'.Fits g' ∧ g.Succeeds g' ∧ (∀ id, ¬ t.Leads id → g'.ended id = g.ended id) ∧
      ∀ id, t'.Leads id → t.Leads id ∨ g.next ≤ id := by
  have hrefl : g.Succeeds g := (Cache.Shrinks.refl g).succeeds
  cases h with
  | refuse | panic | abandon | share =>
    exact ⟨hg, trivial, hrefl, fun _ _ => rfl, fun id hid => by cases hid⟩
  | time => exact ⟨hg, Nat.le_refl _, hrefl, fun _ _ => rfl, fun id hid => by cases hid⟩
  | cancel => exact ⟨hg, ht, hrefl, fun _ _ => rfl, fun id hid => .inl hid⟩
  | @lookup now order hphase =>
    have hnow : now ≤ g.clock := by
      unfold Call.Fits at ht
      rwa [hphase] at ht
    obtain ⟨_, hroom, hcases⟩ := lookup_cases order t.key t.fingerprint hg hnow
    rcases hcases with ⟨id, heq⟩ | ⟨err, heq⟩ | ⟨hcount, hnew, heq⟩ <;> rw [heq]
    · exact ⟨hg.shrink hroom, trivial, hroom.succeeds, fun _ _ => by rw [hroom.ended], fun id hid => by cases hid⟩
    · exact ⟨hg.shrink hroom, trivial, hroom.succeeds, fun _ _ => by rw [hroom.ended], fun id hid => by cases hid⟩
    obtain ⟨hsound, hsucceeds⟩ := begin_spec t.fingerprint (hg.shrink hroom) hcount hnew
    refine ⟨hsound, ⟨_, mem_cons_self, rfl, rfl, rfl, rfl⟩, hroom.succeeds.trans hsucceeds, fun _ _ => ?_,
      fun id hid => .inr ?_⟩
    · exact congrFun hroom.ended _
    · cases hid
      exact hroom.next.ge
  | @generated id order outcome hphase =>
    obtain ⟨_, he, rfl, hkey, hfingerprint, hpending⟩ := ht.leads hphase
    rw [← hkey, ← hfingerprint]
    obtain ⟨hsound, hsucceeds, hended⟩ := finish_spec order outcome hg he hpending rfl
    exact ⟨hsound, trivial, hsucceeds, fun id hid => hended id fun heq => hid (heq ▸ hphase), fun id hid => by cases hid⟩

theorem keepsApart_sound (g₀ : Cache) :
    KeepsApart system (fun g => g.Sound ∧ g₀.Succeeds g) (fun g t => t.Fits g) Call.Leads where
  move {g t ev g' t'} h hg ht := by
    obtain ⟨hsound, ht', hsucceeds, hended, hleads⟩ := Moves.spec h hg.1 ht
    refine ⟨⟨hsound, hg.2.trans hsucceeds⟩, ht', fun u hu hapart => ?_, fun id hid => (hleads id hid).imp_right ?_⟩
    · exact hu.mono hg.1 hsucceeds fun id hid => hended id fun ht => hapart id ht hid
    intro hfresh u hu hu_leads
    obtain ⟨e, he, rfl, -⟩ := hu.leads hu_leads
    exact absurd (hg.1.entry e he).1 (Nat.not_lt.mpr hfresh)
  disturb {g ev g'} h hg := by
    obtain ⟨-, time, hle, rfl⟩ := h
    have hsucceeds : g.Succeeds { g with clock := time } := ⟨hle, fun _ h => h, fun _ _ h => h, fun _ h => .inl h⟩
    refine ⟨⟨⟨hg.1.bytes, hg.1.total, hg.1.count, hg.1.entry, hg.1.apart, hg.1.fresh⟩, hg.2.trans hsucceeds⟩, fun u hu => ?_⟩
    exact hu.mono hg.1 hsucceeds fun _ _ => rfl
  start {g t} h _ := by
    have hphase : t.phase = .arrived := h
    refine ⟨?_, fun id hid => ?_⟩
    · unfold Call.Fits
      rw [hphase]
      trivial
    · cases hphase.symm.trans hid

theorem sound_of_run {s : State Cache Call} (h : Run system initial s) :
    (s.shared.Sound ∧ ∀ t ∈ s.tasks, t.Fits s.shared) ∧ s.Apart Call.Leads := by
  have hinitial : initial.shared.Sound :=
    ⟨rfl, Int.natCast_nonneg _, Nat.zero_le _, fun _ he => (by cases he), fun _ he => (by cases he), fun _ _ => rfl⟩
  obtain ⟨⟨⟨hsound, -⟩, hfits⟩, hapart⟩ := (keepsApart_sound initial.shared).run h
    ⟨⟨hinitial, (Cache.Shrinks.refl _).succeeds⟩, nofun⟩ Pairwise.nil
  exact ⟨⟨hsound, hfits⟩, hapart⟩

theorem succeeds_of_run {s s' : State Cache Call} (h : Run system initial s) (h' : Run system s s') :
    s.shared.Succeeds s'.shared := by
  obtain ⟨⟨hsound, hfits⟩, hapart⟩ := sound_of_run h
  exact ((keepsApart_sound s.shared).run h' ⟨⟨hsound, (Cache.Shrinks.refl _).succeeds⟩, hfits⟩ hapart).1.1.2

theorem completedBytes_eq (hg : g.Sound) :
    ((g.entries.vals.filter Entry.completed).map Entry.cacheBytes).sum = g.cachedBytes := by
  unfold cachedBytes
  have hzero : ∀ e ∈ g.entries.vals, e.completed = false → e.cacheBytes = 0 := by
    intro e he hpending
    have hholds := (hg.entry e he).2
    rw [hpending] at hholds
    exact hholds.1
  generalize g.entries.vals = es at hzero
  induction es with
  | nil => rfl
  | cons e _ ih =>
    have hes := ih fun e' he' => hzero e' (mem_cons_of_mem _ he')
    rw [filter_cons, map_cons, sum_cons, ← hes]
    split
    · rfl
    next hcompleted => rw [hzero e mem_cons_self (eq_false_of_ne_true hcompleted), Nat.zero_add]

/-- In every state the bytes are those of the completed entries and both limits are kept, no two calls generate for
one key, an entry in progress stays until its generation has ended, and as long as the result of a completed entry
has not expired and it was not thrown out for space, a call with its key and fingerprint waits for nothing but this
result and returns it, unless its own context is cancelled. -/
theorem idempotent_generate_shared {s : State Cache Call} (h : Run system initial s) :
    (s.shared.resultBytes = ((s.shared.entries.vals.filter Entry.completed).map Entry.cacheBytes).sum ∧
      s.shared.resultBytes ≤ generateIdempotencyMaxTotalResultBytes ∧
      s.shared.entries.vals.length ≤ generateIdempotencyMaxEntries) ∧
    (s.tasks.Pairwise fun t u => (∃ id, t.Leads id) → (∃ id, u.Leads id) → t.key ≠ u.key) ∧
    (∀ e ∈ s.shared.entries.vals, e.completed = false → s.shared.ended e.id = none ∧
      ∀ s', Run system s s' → e ∈ s'.shared.entries.vals ∨ (s'.shared.ended e.id).isSome) ∧
    ∀ e ∈ s.shared.entries.vals, e.completed = true →
      ∃ result, s.shared.ended e.id = some (.ok result) ∧ result.size = e.cacheBytes ∧ ∀ s', Run system s s' → ∀ t ∈ s'.tasks,
        (∀ now, t.phase = .timed now → t.key = e.key → t.fingerprint = e.fingerprint → s'.shared.clock < e.expiresAt →
          e ∉ s'.shared.evicted → ∀ ev g' t', Moves s'.shared t ev g' t' →
            t' = { t with live := false } ∨ t' = { t with phase := .following e.id }) ∧
        (t.phase = .following e.id → Moves s'.shared t .run s'.shared { t with phase := .returned (.ok result) } ∧
          ∀ ev g' t', Moves s'.shared t ev g' t' → t' = { t with live := false } ∨
            t' = { t with phase := .returned (.ok result) } ∨
            t.live = false ∧ t' = { t with phase := .returned (.error .context) }) := by
  obtain ⟨⟨hsound, hfits⟩, hapart⟩ := sound_of_run h
  refine ⟨⟨?_, hsound.total, hsound.count⟩, ?_, fun e he hpending => ?_, fun e he hcompleted => ?_⟩
  · rw [completedBytes_eq hsound]
    exact hsound.bytes
  · refine hapart.imp_of_mem fun {t u} ht hu hne => ?_
    rintro ⟨_, hid⟩ ⟨_, hid'⟩ hkey
    obtain ⟨e, he, rfl, hekey, -⟩ := (hfits t ht).leads hid
    obtain ⟨_, he', rfl, hekey', -⟩ := (hfits u hu).leads hid'
    obtain rfl := Keyed.eq_of_mem_vals he he' (by rw [hekey, hekey', hkey])
    exact hne _ hid hid'
  · have hholds := (hsound.entry e he).2
    rw [hpending] at hholds
    refine ⟨hholds.2, fun s' h' => ((succeeds_of_run h h').entry e he).imp_right fun hleft => ?_⟩
    rwa [Cache.Left, hpending] at hleft
  · have hholds := (hsound.entry e he).2
    rw [if_pos hcompleted] at hholds
    obtain ⟨result, hended, hsize⟩ := hholds
    refine ⟨result, hended, hsize, fun s' h' t ht => ⟨fun now hphase hkey hfingerprint hlive hkept ev g' t' hmove => ?_,
      fun hphase => ⟨?_, fun ev g' t' hmove => ?_⟩⟩⟩
    · have hnow := (sound_of_run (h.trans h')).1.2 t ht
      rw [Call.Fits, hphase] at hnow
      have he' : e ∈ s'.shared.entries.vals := ((succeeds_of_run h h').entry e he).resolve_right fun hleft => by
        rw [Cache.Left, if_pos hcompleted] at hleft
        exact hleft.elim hkept (Nat.not_le.mpr hlive)
      -- The call does not find it expired either, since its own time is not after the clock.
      have hget : (s'.shared.expire now).entries.get? t.key = some e := by
        refine Keyed.get?_filter_of_keep (Keyed.get?_eq_some.mpr ⟨he', hkey.symm⟩) ?_
        simp only [hcompleted, Bool.true_and, Bool.not_eq_true', decide_eq_false_iff_not]
        omega
      have hfound : ∀ order, (s'.shared.lookup order t.key t.fingerprint now).2 = .following e.id := by
        intro order
        rw [Cache.lookup, hget]
        simp [hfingerprint]
      cases hmove with
      | cancel => exact .inl rfl
      | lookup order hphase' =>
        cases hphase.symm.trans hphase'
        rw [hfound order]
        exact .inr rfl
      | refuse h | time h | generated _ _ h | panic h | abandon h | share h => cases hphase.symm.trans h
    · exact Moves.share s'.shared hphase ((succeeds_of_run h h').ended _ _ hended)
    · cases hmove with
      | cancel => exact .inl rfl
      | abandon _ hlive => exact .inr (.inr ⟨hlive, rfl⟩)
      | share hphase' hended' =>
        cases hphase.symm.trans hphase'
        cases ((succeeds_of_run h h').ended _ _ hended).symm.trans hended'
        exact .inr (.inl rfl)
      | refuse h | time h | lookup _ h | generated _ _ h | panic h => cases hphase.symm.trans h

def inOrder : MapOrder := ⟨id, fun _ => .rfl⟩

def firstCall : Call := { key := "key", fingerprint := 0 }

def waiting : State Cache Call :=
  ⟨(lookup inOrder "key" 0 0 {}).1, [{ firstCall with phase := .leading 0 }, { firstCall with phase := .following 0 }]⟩

theorem run_waiting {allowed : Cache → Event → Prop} (hallowed : ∀ g, allowed g .run) :
    Run (system.restrict allowed) initial waiting := by
  have hrun : Run (system.restrict allowed) initial ⟨{}, [firstCall, firstCall]⟩ :=
    (Relation.ReflTransGen.single ⟨_, .start [] (show firstCall.phase = _ from rfl)⟩).tail
      ⟨_, .start [firstCall] (show firstCall.phase = _ from rfl)⟩
  refine (((hrun.tail ⟨_, .move [] _ ⟨.time _ rfl rfl, hallowed _⟩⟩).tail
    ⟨_, .move [] _ ⟨.lookup _ inOrder rfl, hallowed _⟩⟩).tail
    ⟨_, .move [_] [] ⟨.time _ rfl rfl, hallowed _⟩⟩).tail ?_
  exact ⟨_, .move [_] [] ⟨.lookup _ inOrder rfl, hallowed _⟩⟩

/-- A result is stored, and the bytes are its size. -/
theorem idempotent_generate_shared_stored : ∃ s, Run system initial s ∧
    (∃ e ∈ s.shared.entries.vals, e.completed = true ∧ e.cacheBytes = 4) ∧
    s.shared.resultBytes = ((s.shared.entries.vals.filter Entry.completed).map Entry.cacheBytes).sum := by
  have hrun := (@run_waiting (fun _ _ => True) fun _ => trivial).of_restrict.tail
    ⟨_, .move (S := system) [] _ (.generated _ inOrder (.ok ⟨"text", 1⟩) rfl nofun)⟩
  refine ⟨_, hrun, ?_, (idempotent_generate_shared hrun).1.1⟩
  dsimp only [finish, store]
  rw [makeRoom]
  exact ⟨_, mem_cons_self, rfl, rfl⟩

/-! ### The cancellation of a call that generates -/

/-- The call is not cancelled between its own check and the end of its generation. -/
def Event.Spares : Event → Prop
  | .cancel (.timed _) | .cancel (.leading _) => False
  | _ => True

structure Call.Spared (t : Call) : Prop where
  timed : ∀ now, t.phase = .timed now → t.live = true
  leads : ∀ id, t.Leads id → t.live = true
  returned : t.phase ≠ .returned (.error (.generate .cancelled))

theorem Cache.ended_finish (order : MapOrder) (key : String) (fingerprint : BitVec 256) (id : Nat) (outcome : Outcome) :
    (g.finish order key fingerprint id outcome).ended = update g.ended id (some outcome) := by
  have hdrop (c : Cache) : (c.drop key id).ended = c.ended := by
    unfold Cache.drop
    split <;> rfl
  cases outcome with
  | error => exact congrArg (update · id _) (hdrop g)
  | ok result =>
    refine congrArg (update · id _) ?_
    dsimp only
    split
    · unfold store
      dsimp only
      split
      · exact (shrinks_makeRoom order id result.size g).ended
      · rw [hdrop, (shrinks_makeRoom order id result.size g).ended]
    · exact hdrop g

theorem Cache.lookup_own (order : MapOrder) (key : String) (fingerprint : BitVec 256) (now : Nat) :
    (g.lookup order key fingerprint now).1.ended = g.ended ∧
      ∀ err, (g.lookup order key fingerprint now).2 ≠ .returned (.error (.generate err)) := by
  unfold lookup
  dsimp only
  split
  · split <;> exact ⟨rfl, nofun⟩
  split
  · split <;> exact ⟨rfl, nofun⟩
  · exact ⟨rfl, nofun⟩

theorem keeps_spared : Keeps (system.restrict fun _ ev => ev.Spares) (fun g => ∀ id, g.ended id ≠ some (.error .cancelled))
    fun _ t => t.Spared where
  move {g t ev g' t'} h hg ht := by
    obtain ⟨h, hspares⟩ := h
    cases h with
    | refuse | panic | abandon => exact ⟨hg, ⟨nofun, nofun, nofun⟩, fun _ hu => hu⟩
    | time _ hlive => exact ⟨hg, ⟨fun _ _ => hlive, nofun, nofun⟩, fun _ hu => hu⟩
    | @lookup now order hphase =>
      obtain ⟨hended, hown⟩ := lookup_own (g := g) order t.key t.fingerprint now
      have hlive := ht.timed now hphase
      refine ⟨?_, ⟨fun _ _ => hlive, fun _ _ => hlive, hown _⟩, fun _ hu => hu⟩
      rwa [hended]
    | @generated id order outcome hphase houtcome =>
      have hne := houtcome (ht.leads id hphase)
      refine ⟨fun id' => ?_, ⟨nofun, nofun, ?_⟩, fun _ hu => hu⟩
      · rw [ended_finish]
        by_cases hid : id' = id
        · rw [hid, update_self]
          exact fun heq => hne (some.inj heq)
        · rw [update_of_ne hid]
          exact hg id'
      · cases outcome with
        | ok => nofun
        | error => exact fun heq => hne (by cases heq; rfl)
    | @share id outcome _ hended =>
      refine ⟨hg, ⟨nofun, nofun, ?_⟩, fun _ hu => hu⟩
      cases outcome with
      | ok => nofun
      | error => exact fun heq => hg id (by cases heq; exact hended)
    | cancel =>
      refine ⟨hg, ⟨fun now hphase => ?_, fun id hphase => ?_, ht.returned⟩, fun _ hu => hu⟩
      · rw [show t.phase = _ from hphase] at hspares
        exact hspares.elim
      · rw [show t.phase = _ from hphase] at hspares
        exact hspares.elim
  disturb {g ev g'} h hg := by
    obtain ⟨⟨-, _, -, rfl⟩, -⟩ := h
    exact ⟨hg, fun _ hu => hu⟩
  start {g t} h _ := by
    have hphase : t.phase = .arrived := h
    refine ⟨fun now hnow => ?_, fun id hid => ?_, fun hreturned => ?_⟩
    · cases hphase.symm.trans hnow
    · cases hphase.symm.trans hid
    · cases hphase.symm.trans hreturned

/-- If no call is cancelled between its own check and the end of its generation, no call with a live context returns
the cancellation of another one. -/
theorem live_call_spared {s : State Cache Call} (h : Run (system.restrict fun _ ev => ev.Spares) initial s) :
    ∀ t ∈ s.tasks, t.live = true → t.phase ≠ .returned (.error (.generate .cancelled)) := by
  have hfine := keeps_spared.run h ⟨fun _ => nofun, nofun⟩
  exact fun t ht _ => (hfine.2 t ht).returned

/-- A follower that is still live returns the error of a generation that failed by itself. -/
theorem live_call_spared_failed : ∃ s, Run (system.restrict fun _ ev => ev.Spares) initial s ∧
    { firstCall with phase := .returned (.error (.generate (.failed "no model"))) } ∈ s.tasks ∧
    ∀ t ∈ s.tasks, t.live = true → t.phase ≠ .returned (.error (.generate .cancelled)) := by
  have hrun := ((@run_waiting (fun _ ev => ev.Spares) fun _ => trivial).tail
    ⟨_, .move [] _ ⟨.generated _ inOrder (.error (.failed "no model")) rfl nofun, trivial⟩⟩).tail
    ⟨_, .move [_] [] ⟨.share _ rfl rfl, trivial⟩⟩
  exact ⟨_, hrun, mem_cons_of_mem _ mem_cons_self, live_call_spared hrun⟩

/-- The call that generates is cancelled, and the call that waits for it returns its error. -/
theorem follower_returns_cancellation : ∃ s, Run system initial s ∧
    ∃ t ∈ s.tasks, t.live = true ∧ t.phase = .returned (.error (.generate .cancelled)) := by
  have hrun := (((@run_waiting (fun _ _ => True) fun _ => trivial).of_restrict.tail
    ⟨_, .move (S := system) [] _ (.cancel _ _)⟩).tail
    ⟨_, .move (S := system) [] _ (.generated _ inOrder (.error .cancelled) rfl nofun)⟩).tail
    ⟨_, .move (S := system) [_] [] (.share _ rfl rfl)⟩
  exact ⟨_, hrun, _, mem_cons_of_mem _ mem_cons_self, rfl, rfl⟩

end Maistr0.NodeAgent.Idempotency
