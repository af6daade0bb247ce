import Maistr0.Consensus.StateMachine

/-!
# Snapshots, restarts and redelivery

The members of a raft group share a committed log. Raft stores the log at each member, delivers its entries to
the state machine in order, asks it for snapshots, drops the entries a snapshot covers, and may install the
snapshot of one member at another. `restoreApplicationState` of `node.go` runs before raft starts: it restores the
newest snapshot and replays the log up to the recorded applied index. Raft then delivers again from the snapshot
on, so the state machine may be ahead of what is delivered.

Entries that are not committed yet and the choice of a leader are left out, as no function here reads them.
-/

namespace Maistr0.Consensus

open Relation List

variable {Data F : Type}

structure Snapshot (F : Type) where
  index : Nat
  state : StateSnapshot F

/-- One member. `stored` is the last committed entry in its log store and `compacted` the last one dropped from it;
`delivered` is how far raft has come since the start. -/
structure Member (F : Type) where
  fsm : StateMachine F := {}
  applied : Nat := 0
  snapshots : List (Snapshot F) := []
  compacted : Nat := 0
  stored : Nat := 0
  delivered : Nat := 0

structure Group (Data F : Type) where
  log : List (Entry Data) := []
  members : Nat → Member F := fun _ => {}

/-- What `sort.Slice` puts first. -/
def IsNewest (snapshots : List (Snapshot F)) : Option (Snapshot F) → Prop
  | none => snapshots = []
  | some s => s ∈ snapshots ∧ ∀ other ∈ snapshots, other.index ≤ s.index

def snapshotIndex : Option (Snapshot F) → Nat
  | none => 0
  | some s => s.index

def restored : Option (Snapshot F) → StateMachine F
  | none => {}
  | some s => StateMachine.restore {} s.state

theorem IsNewest.index_le {snapshots : List (Snapshot F)} {newest : Option (Snapshot F)} (h : IsNewest snapshots newest)
    {s : Snapshot F} (hs : s ∈ snapshots) : s.index ≤ snapshotIndex newest := by
  cases newest with
  | none => exact absurd (h ▸ hs) not_mem_nil
  | some => exact h.2 s hs

namespace Member

def lastIndex (p : Member F) : Nat := if p.compacted < p.stored then p.stored else 0

def getAppliedIndex (p : Member F) : Nat := if p.lastIndex < p.applied then p.lastIndex else p.applied

def getLog (p : Member F) (log : List (Entry Data)) (index : Nat) : Option (Entry Data) :=
  if p.compacted < index ∧ index ≤ p.stored then log[index - 1]? else none

variable [DecidableEq F] (codec : Codec Data F) (log : List (Entry Data)) (p : Member F)

/-- The loop of `restoreApplicationState`. -/
def replay (failed : Nat → Option String) : Nat → Nat → StateMachine F → Nat → Except String (StateMachine F × Nat)
  | 0, _, f, applied => .ok (f, applied)
  | count + 1, index, f, applied =>
    match p.getLog log index with
    | none => .error ("read committed log " ++ toString index ++ ": log not found")
    | some entry =>
      let out := f.apply codec applied (failed index) index entry
      replay failed count (index + 1) out.1 out.2.1

def restoreApplicationState (failed : Nat → Option String) (newest : Option (Snapshot F)) : Except String (StateMachine F × Nat) :=
  p.replay codec log failed (p.getAppliedIndex - snapshotIndex newest) (snapshotIndex newest + 1) (restored newest) p.applied

def deliver (failed : Option String) (entry : Entry Data) : Member F :=
  let out := p.fsm.apply codec p.applied failed (p.delivered + 1) entry
  { p with fsm := out.1, applied := out.2.1, delivered := p.delivered + 1 }

def takeSnapshot (p : Member F) : Member F := { p with snapshots := ⟨p.delivered, p.fsm.snapshot⟩ :: p.snapshots }

def install (p : Member F) (s : Snapshot F) (upTo : Nat) : Member F :=
  { p with
    fsm := p.fsm.restore s.state
    snapshots := s :: p.snapshots
    compacted := upTo
    stored := max p.stored s.index
    delivered := s.index }

def restarted (p : Member F) (newest : Option (Snapshot F)) (out : StateMachine F × Nat) : Member F :=
  { p with fsm := out.1, applied := out.2, delivered := snapshotIndex newest }

end Member

def Group.update (g : Group Data F) (i : Nat) (p : Member F) : Group Data F :=
  { g with members := Function.update g.members i p }

theorem Group.forall_update {P : Member F → Prop} {g : Group Data F} (h : ∀ i, P (g.members i)) {i : Nat} {p : Member F}
    (hp : P p) : ∀ j, P ((g.update i p).members j) := by
  intro j
  change P (Function.update g.members i p j)
  by_cases hj : j = i
  · rw [hj, Function.update_self]
    exact hp
  · rw [Function.update_of_ne hj]
    exact h j

def Group.Healthy (g : Group Data F) : Prop := ∀ i, (g.members i).fsm.storageErr = none

theorem Group.Healthy.update {g : Group Data F} (h : g.Healthy) {i : Nat} {p : Member F} (hp : p.fsm.storageErr = none) :
    (g.update i p).Healthy :=
  Group.forall_update (P := fun p => p.fsm.storageErr = none) h hp

inductive Action (Data : Type) where
  | commit (entry : Entry Data)
  | store (i last : Nat)
  | deliver (i : Nat) (failed : Option String)
  | snapshot (i : Nat)
  | compact (i upTo : Nat)
  | install (i j upTo : Nat)
  | restart (i : Nat) (failed : Nat → Option String)

variable [DecidableEq F]

inductive Step (codec : Codec Data F) : Group Data F → Action Data → Group Data F → Prop
  | commit (g : Group Data F) (entry : Entry Data) : Step codec g (.commit entry) { g with log := g.log ++ [entry] }
  | store {g : Group Data F} {i last : Nat} (hmore : (g.members i).stored ≤ last) (hlast : last ≤ g.log.length) :
      Step codec g (.store i last) (g.update i { g.members i with stored := last })
  | deliver {g : Group Data F} {i : Nat} {entry : Entry Data} (failed : Option String)
      (hstored : (g.members i).delivered < (g.members i).stored) (hentry : g.log[(g.members i).delivered]? = some entry) :
      Step codec g (.deliver i failed) (g.update i ((g.members i).deliver codec failed entry))
  | snapshot (g : Group Data F) (i : Nat) : Step codec g (.snapshot i) (g.update i (g.members i).takeSnapshot)
  | compact {g : Group Data F} {i upTo : Nat} {s : Snapshot F} (hs : s ∈ (g.members i).snapshots) (hupTo : upTo ≤ s.index) :
      Step codec g (.compact i upTo) (g.update i { g.members i with compacted := upTo })
  | install {g : Group Data F} {i j upTo : Nat} {s : Snapshot F} (hs : s ∈ (g.members j).snapshots) (hupTo : upTo ≤ s.index)
      -- the entries before the snapshot are gone if the log store did not reach it
      (hgap : (g.members i).stored < s.index → upTo = s.index) (hmore : (g.members i).compacted ≤ upTo) :
      Step codec g (.install i j upTo) (g.update i ((g.members i).install s upTo))
  | restart {g : Group Data F} {i : Nat} {failed : Nat → Option String} {newest : Option (Snapshot F)}
      {out : StateMachine F × Nat} (hnewest : IsNewest (g.members i).snapshots newest)
      (hout : (g.members i).restoreApplicationState codec g.log failed newest = .ok out) :
      Step codec g (.restart i failed) (g.update i ((g.members i).restarted newest out))

def Run (codec : Codec Data F) (allowed : Group Data F → Action Data → Prop) (g : Group Data F) : Prop :=
  ReflTransGen (fun g g' => ∃ a, allowed g a ∧ Step codec g a g') {} g

def Recorded (_ : Group Data F) : Action Data → Prop
  | .deliver _ failed => failed = none
  | .restart _ failed => ∀ index, failed index = none
  | _ => True

def Sound (g : Group Data F) : Action Data → Prop
  | .snapshot i => (g.members i).fsm.storageErr = none
  | _ => True

/-! ### What the members account for -/

section

variable {codec : Codec Data F} {log more : List (Entry Data)} {p : Member F} {f : StateMachine F} {count : Nat}
  {g : Group Data F} {s : StateSnapshot F}

/-- The state is that of some first entries of the log, at least so many of them. -/
def Covers (codec : Codec Data F) (log : List (Entry Data)) (s : StateSnapshot F) (count : Nat) : Prop :=
  ∃ reached, count ≤ reached ∧ reached ≤ log.length ∧ s = once codec log reached

/-- The state is that of some first entries of the log, and of all that were delivered unless there was a storage
error. -/
def Accounts (codec : Codec Data F) (log : List (Entry Data)) (f : StateMachine F) (count : Nat) : Prop :=
  Covers codec log f.toStateSnapshot (if f.storageErr = none then count else 0)

theorem Covers.append (h : Covers codec log s count) : Covers codec (log ++ more) s count := by
  obtain ⟨reached, hle, hlength, rfl⟩ := h
  refine ⟨reached, hle, ?_, (Lib.LogReplay.after_append hlength).symm⟩
  rw [length_append]
  omega

theorem Covers.weaken {less : Nat} (h : Covers codec log s count) (hless : less ≤ count) : Covers codec log s less := by
  obtain ⟨reached, hle, hlength, heq⟩ := h
  exact ⟨reached, Nat.le_trans hless hle, hlength, heq⟩

theorem Accounts.apply (h : Accounts codec log f count) {entry : Entry Data} (he : log[count]? = some entry)
    (applied : Nat) (failed : Option String) :
    Accounts codec log (f.apply codec applied failed (count + 1) entry).1 (count + 1) := by
  have hlength : count + 1 ≤ log.length := (List.getElem?_eq_some_iff.mp he).1
  rcases f.apply_effect codec applied (count + 1) entry failed with ⟨hnone, heffect⟩ | ⟨hsame, herr⟩
  · unfold Accounts at h
    rw [if_pos hnone] at h
    obtain ⟨reached, hle, hreached, heq⟩ := h
    refine Covers.weaken ⟨max reached (count + 1), Nat.le_max_right _ _, Nat.max_le.mpr ⟨hreached, hlength⟩, ?_⟩ ?_
    · rw [heffect, heq]
      exact StateSnapshot.remembers.step_after hle he
    · split <;> omega
  · unfold Accounts
    rw [if_neg herr, hsame]
    exact h.weaken (Nat.zero_le _)

theorem Accounts.replay (h : Accounts codec log f count) (failed : Nat → Option String) {n applied : Nat}
    (hcompacted : p.compacted ≤ count) (hstored : count + n ≤ p.stored) (hlength : p.stored ≤ log.length)
    (happlied : applied ≤ p.stored) :
    ∃ out, p.replay codec log failed n (count + 1) f applied = .ok out ∧ Accounts codec log out.1 (count + n) ∧
      out.2 ≤ p.stored := by
  induction n generalizing f count applied with
  | zero => exact ⟨(f, applied), rfl, h, happlied⟩
  | succ n ih =>
    obtain ⟨entry, he⟩ : ∃ entry, log[count]? = some entry := ⟨_, getElem?_eq_getElem (by omega)⟩
    have hget : p.getLog log (count + 1) = some entry := by
      unfold Member.getLog
      rw [if_pos (by omega), Nat.add_sub_cancel, he]
    have hnext : (f.apply codec applied (failed (count + 1)) (count + 1) entry).2.1 ≤ p.stored := by
      rcases f.apply_applied codec applied (count + 1) entry (failed (count + 1)) with heq | heq <;> omega
    obtain ⟨out, hout, haccounts, hle⟩ := ih (h.apply he applied (failed (count + 1))) (by omega) (by omega) hnext
    refine ⟨out, ?_, by rwa [show count + (n + 1) = count + 1 + n by omega], hle⟩
    unfold Member.replay
    rw [hget]
    exact hout

structure Member.Inv (codec : Codec Data F) (log : List (Entry Data)) (p : Member F) : Prop where
  stored_le : p.stored ≤ log.length
  delivered_le : p.delivered ≤ p.stored
  applied_le : p.applied ≤ p.stored
  dropped : p.compacted = 0 ∨ ∃ s ∈ p.snapshots, p.compacted ≤ s.index
  kept : ∀ s ∈ p.snapshots, s.index ≤ p.stored ∧ Covers codec log s.state s.index
  accounts : Accounts codec log p.fsm p.delivered

theorem accounts_init (log : List (Entry Data)) : Accounts codec log {} 0 := ⟨0, Nat.le_refl _, Nat.zero_le _, rfl⟩

namespace Member.Inv

theorem init (log : List (Entry Data)) : Member.Inv codec log ({} : Member F) where
  stored_le := Nat.zero_le _
  delivered_le := Nat.le_refl _
  applied_le := Nat.le_refl _
  dropped := .inl rfl
  kept _ hs := absurd hs not_mem_nil
  accounts := accounts_init log

section

variable (h : p.Inv codec log) {newest : Option (Snapshot F)}

include h

theorem compacted_le (hnewest : IsNewest p.snapshots newest) : p.compacted ≤ snapshotIndex newest := by
  rcases h.dropped with hzero | ⟨s, hs, hle⟩
  · omega
  · exact Nat.le_trans hle (hnewest.index_le hs)

theorem append : p.Inv codec (log ++ more) where
  stored_le := by
    have hstored := h.stored_le
    rw [length_append]
    omega
  delivered_le := h.delivered_le
  applied_le := h.applied_le
  dropped := h.dropped
  kept s hs := ⟨(h.kept s hs).1, (h.kept s hs).2.append⟩
  accounts := Covers.append h.accounts

theorem store {last : Nat} (hmore : p.stored ≤ last) (hlast : last ≤ log.length) :
    Member.Inv codec log { p with stored := last } where
  stored_le := hlast
  delivered_le := Nat.le_trans h.delivered_le hmore
  applied_le := Nat.le_trans h.applied_le hmore
  dropped := h.dropped
  kept s hs := ⟨Nat.le_trans (h.kept s hs).1 hmore, (h.kept s hs).2⟩
  accounts := h.accounts

theorem deliver (failed : Option String) {entry : Entry Data} (hstored : p.delivered < p.stored)
    (hentry : log[p.delivered]? = some entry) : (p.deliver codec failed entry).Inv codec log where
  stored_le := h.stored_le
  delivered_le := hstored
  applied_le := by
    have happlied := h.applied_le
    change (p.fsm.apply codec p.applied failed (p.delivered + 1) entry).2.1 ≤ p.stored
    rcases p.fsm.apply_applied codec p.applied (p.delivered + 1) entry failed with heq | heq <;> omega
  dropped := h.dropped
  kept := h.kept
  accounts := h.accounts.apply hentry p.applied failed

theorem takeSnapshot (hsound : p.fsm.storageErr = none) : p.takeSnapshot.Inv codec log where
  stored_le := h.stored_le
  delivered_le := h.delivered_le
  applied_le := h.applied_le
  dropped := h.dropped.imp_right fun ⟨s, hs, hle⟩ => ⟨s, mem_cons_of_mem _ hs, hle⟩
  kept s hs := by
    rcases mem_cons.mp hs with rfl | hs
    · have haccounts := h.accounts
      unfold Accounts at haccounts
      rw [if_pos hsound] at haccounts
      exact ⟨h.delivered_le, haccounts⟩
    · exact h.kept s hs
  accounts := h.accounts

theorem compact {upTo : Nat} {s : Snapshot F} (hs : s ∈ p.snapshots) (hupTo : upTo ≤ s.index) :
    Member.Inv codec log { p with compacted := upTo } :=
  ⟨h.stored_le, h.delivered_le, h.applied_le, .inr ⟨s, hs, hupTo⟩, h.kept, h.accounts⟩

theorem install {upTo : Nat} {s : Snapshot F} (hs : s.index ≤ log.length)
    (hcovers : Covers codec log s.state s.index) (hupTo : upTo ≤ s.index) : (p.install s upTo).Inv codec log where
  stored_le := Nat.max_le.mpr ⟨h.stored_le, hs⟩
  delivered_le := Nat.le_max_right _ _
  applied_le := Nat.le_trans h.applied_le (Nat.le_max_left _ _)
  dropped := .inr ⟨s, mem_cons_self, hupTo⟩
  kept other hother := by
    rcases mem_cons.mp hother with rfl | hother
    · exact ⟨Nat.le_max_right _ _, hcovers⟩
    · exact ⟨Nat.le_trans (h.kept other hother).1 (Nat.le_max_left _ _), (h.kept other hother).2⟩
  accounts := hcovers.weaken (by
    change (if p.fsm.storageErr = none then s.index else 0) ≤ s.index
    split <;> omega)

theorem restore (failed : Nat → Option String) (hnewest : IsNewest p.snapshots newest) :
    ∃ out, p.restoreApplicationState codec log failed newest = .ok out ∧ Accounts codec log out.1 (snapshotIndex newest) ∧
      out.2 ≤ p.stored := by
  have hcompacted := h.compacted_le hnewest
  have hindex : snapshotIndex newest ≤ p.stored := by
    cases newest with
    | none => exact Nat.zero_le _
    | some s => exact (h.kept s hnewest.1).1
  have happlied : p.getAppliedIndex ≤ p.stored := by
    have hle := h.applied_le
    unfold Member.getAppliedIndex
    split <;> omega
  have hrestored : Accounts codec log (restored newest) (snapshotIndex newest) := by
    cases newest with
    | none => exact accounts_init log
    | some s => exact (h.kept s hnewest.1).2
  have hstored : snapshotIndex newest + (p.getAppliedIndex - snapshotIndex newest) ≤ p.stored := by omega
  obtain ⟨out, hout, haccounts, hle⟩ := hrestored.replay failed hcompacted hstored h.stored_le h.applied_le
  refine ⟨out, hout, haccounts.weaken ?_, hle⟩
  split <;> omega

theorem restart {failed : Nat → Option String} {out : StateMachine F × Nat}
    (hnewest : IsNewest p.snapshots newest) (hout : p.restoreApplicationState codec log failed newest = .ok out) :
    (p.restarted newest out).Inv codec log := by
  obtain ⟨_, hout', haccounts, hle⟩ := h.restore failed hnewest
  rw [hout] at hout'
  cases hout'
  refine ⟨h.stored_le, ?_, hle, h.dropped, h.kept, haccounts⟩
  cases newest with
  | none => exact Nat.zero_le _
  | some s => exact (h.kept s hnewest.1).1

end

end Member.Inv

/-! ### Runs -/

def Group.Inv (codec : Codec Data F) (g : Group Data F) : Prop := ∀ i, (g.members i).Inv codec g.log

theorem Group.Inv.step {g' : Group Data F} {a : Action Data} (h : g.Inv codec) (hsound : Sound g a) (hstep : Step codec g a g') :
    g'.Inv codec := by
  cases hstep with
  | commit => exact fun i => (h i).append
  | store hmore hlast => exact Group.forall_update h ((h _).store hmore hlast)
  | deliver failed hstored hentry => exact Group.forall_update h ((h _).deliver failed hstored hentry)
  | snapshot i => exact Group.forall_update h ((h i).takeSnapshot hsound)
  | compact hs hupTo => exact Group.forall_update h ((h _).compact hs hupTo)
  | @install i j upTo s hs hupTo hgap hmore =>
    have hkept := (h j).kept s hs
    exact Group.forall_update h ((h i).install (Nat.le_trans hkept.1 (h j).stored_le) hkept.2 hupTo)
  | restart hnewest hout => exact Group.forall_update h ((h _).restart hnewest hout)

theorem Run.inv (hrun : Run codec Sound g) : g.Inv codec := by
  induction hrun with
  | refl => exact fun _ => Member.Inv.init _
  | tail _ hstep ih =>
    obtain ⟨_, hsound, hstep⟩ := hstep
    exact ih.step hsound hstep

theorem storageErr_apply (h : f.storageErr = none) (applied index : Nat) (entry : Entry Data) :
    (f.apply codec applied none index entry).1.storageErr = none := by
  rw [(f.apply_recorded codec applied index entry h).1]
  exact h

theorem storageErr_replay {failed : Nat → Option String} (hrecorded : ∀ index, failed index = none) {n index applied : Nat}
    (h : f.storageErr = none) {out : StateMachine F × Nat} (hout : p.replay codec log failed n index f applied = .ok out) :
    out.1.storageErr = none := by
  induction n generalizing f index applied with
  | zero =>
    cases hout
    exact h
  | succ n ih =>
    unfold Member.replay at hout
    split at hout
    · cases hout
    rename_i entry _
    rw [hrecorded index] at hout
    exact ih (storageErr_apply h applied index entry) hout

theorem Group.Healthy.step {g' : Group Data F} {a : Action Data} (h : g.Healthy) (hrecorded : Recorded g a)
    (hstep : Step codec g a g') : g'.Healthy := by
  cases hstep with
  | commit => exact h
  | store => exact h.update (h _)
  | deliver failed =>
    obtain rfl : failed = none := hrecorded
    exact h.update (storageErr_apply (h _) _ _ _)
  | snapshot i => exact h.update (h i)
  | compact | install => exact h.update (h _)
  | @restart i failed newest out hnewest hout =>
    have hrestored : (restored newest).storageErr = none := by
      cases newest with
      | none | some => rfl
    exact h.update (storageErr_replay hrecorded hrestored hout)

theorem Run.sound (hrun : Run codec Recorded g) : g.Healthy ∧ Run codec Sound g := by
  induction hrun with
  | refl => exact ⟨fun _ => rfl, .refl⟩
  | tail _ hstep ih =>
    obtain ⟨a, hrecorded, hstep⟩ := hstep
    refine ⟨ih.1.step hrecorded hstep, ih.2.tail ⟨a, ?_, hstep⟩⟩
    cases a with
    | snapshot i => exact ih.1 i
    | _ => trivial

theorem Covers.first (h : Covers codec log s count) :
    ∃ reached, count ≤ reached ∧ reached ≤ log.length ∧ s = performAll codec (firstOccurrences (mutations codec (log.take reached))) := by
  obtain ⟨reached, hle, hlength, rfl⟩ := h
  refine ⟨reached, hle, hlength, ?_⟩
  rw [← once_eq_performAll, length_take, Nat.min_eq_left hlength]
  exact (Lib.LogReplay.after_take (Nat.le_refl _)).symm

end

/-- After any run of snapshots, restarts, installations and redeliveries, without a failure to record, each state
machine is where the first occurrences in some first part of the log lead, at least all that is delivered. The next
entry is answered as if the log were applied once, but marked as a duplicate if it has been applied before, and
every restart finds what it needs. -/
theorem exactly_once (codec : Codec Data F) :
    (∀ log, (applyLog codec log log.length).1 = { toStateSnapshot := performAll codec (firstOccurrences (mutations codec log)) }) ∧
    ∀ g, Run codec Recorded g → ∀ i, (∃ reached, (g.members i).delivered ≤ reached ∧ reached ≤ g.log.length ∧
        (g.members i).fsm = { toStateSnapshot := performAll codec (firstOccurrences (mutations codec (g.log.take reached))) }) ∧
      (∀ entry, g.log[(g.members i).delivered]? = some entry →
        let answer := ((g.members i).fsm.apply codec (g.members i).applied none ((g.members i).delivered + 1) entry).2.2
        let first := firstAnswer codec g.log (g.members i).delivered entry
        ((g.members i).fsm.AppliedAt codec ((g.members i).delivered + 1) entry → answer = first.map FsmResponse.asDuplicate) ∧
        (¬ (g.members i).fsm.AppliedAt codec ((g.members i).delivered + 1) entry → answer = first)) ∧
      ∀ newest failed, IsNewest (g.members i).snapshots newest →
        ∃ out, (g.members i).restoreApplicationState codec g.log failed newest = .ok out := by
  refine ⟨fun log => by rw [applyLog_fsm, once_eq_performAll], fun g hrun i => ?_⟩
  obtain ⟨hhealthy, hsound⟩ := hrun.sound
  have hnone := hhealthy i
  have hinv := hsound.inv i
  have hcovers : Covers codec g.log (g.members i).fsm.toStateSnapshot (g.members i).delivered := by
    have haccounts := hinv.accounts
    unfold Accounts at haccounts
    rwa [if_pos hnone] at haccounts
  refine ⟨?_, fun entry hentry => ?_, fun newest failed hnewest => ?_⟩
  · obtain ⟨reached, hle, hlength, heq⟩ := hcovers.first
    refine ⟨reached, hle, hlength, ?_⟩
    rw [← heq, ← hnone]
  · obtain ⟨_, hle, -, heq⟩ := hcovers
    rw [((g.members i).fsm.apply_recorded codec _ _ _ hnone).2, firstAnswer_eq, heq]
    exact answer_once codec hle hentry
  · obtain ⟨out, hout, -⟩ := hinv.restore failed hnewest
    exact ⟨out, hout⟩

def plain : Codec Mutation Mutation := ⟨.ok, id⟩

def putOne : Mutation := ⟨"op-1", mutationPut, "k", [1]⟩

theorem restarted_run : ∃ g, Run plain Recorded g ∧ g.log = [.command putOne] ∧ (g.members 0).delivered = 0 ∧
    (g.members 0).applied = 1 ∧ (g.members 0).snapshots = [] ∧
    (g.members 0).fsm = { toStateSnapshot := performAll plain [(1, putOne)] } := by
  have hcommit : Run plain Recorded _ := .single ⟨.commit (.command putOne), trivial, .commit _ _⟩
  have hstore := hcommit.tail ⟨.store 0 1, trivial, .store (Nat.zero_le _) (Nat.le_refl _)⟩
  have hdeliver := hstore.tail ⟨.deliver 0 none, rfl, .deliver none Nat.zero_lt_one rfl⟩
  have hnewest : IsNewest ([] : List (Snapshot Mutation)) none := rfl
  exact ⟨_, hdeliver.tail ⟨.restart 0 fun _ => none, fun _ => rfl, .restart hnewest rfl⟩, rfl, rfl, rfl, rfl, rfl⟩

theorem exactly_once_restarted : ∃ g, Run plain Recorded g ∧ (g.members 0).fsm.AppliedAt plain 1 (.command putOne) ∧
    ((g.members 0).fsm.apply plain 1 none 1 (.command putOne)).2.2 =
      (firstAnswer plain g.log 0 (.command putOne)).map FsmResponse.asDuplicate := by
  obtain ⟨g, hrun, hlog, hdelivered, happlied, -, hfsm⟩ := restarted_run
  have hanswer := (((exactly_once plain).2 g hrun 0).2.1 (.command putOne) (by rw [hlog, hdelivered]; rfl)).1
  rw [hdelivered, happlied] at hanswer
  have hbefore : (g.members 0).fsm.AppliedAt plain 1 (.command putOne) := by
    rw [hfsm]
    exact ⟨putOne, _, rfl, rfl, rfl⟩
  exact ⟨g, hrun, hbefore, hanswer hbefore⟩

/-- After a restart the entry is delivered again, and its answer is not the one of a log applied once. -/
theorem redelivered_as_duplicate : ∃ g, Run plain Recorded g ∧ g.log[(g.members 0).delivered]? = some (.command putOne) ∧
    firstAnswer plain g.log (g.members 0).delivered (.command putOne) = some { result := ⟨"op-1", 1, false⟩ } ∧
    ((g.members 0).fsm.apply plain (g.members 0).applied none ((g.members 0).delivered + 1) (.command putOne)).2.2 =
      some { result := ⟨"op-1", 1, true⟩ } := by
  obtain ⟨g, hrun, hlog, hdelivered, happlied, -, hfsm⟩ := restarted_run
  refine ⟨g, hrun, ?_⟩
  rw [hlog, hdelivered, happlied, hfsm]
  exact ⟨rfl, rfl, rfl⟩

/-! ### Snapshots -/

/-- If no snapshot is taken after a storage error, then whatever happens to the applied index, a snapshot has every
entry up to its index, and a member has dropped only entries that its newest snapshot has. -/
theorem snapshots_complete {codec : Codec Data F} {g : Group Data F} (hrun : Run codec Sound g) (i : Nat) :
    (∀ s ∈ (g.members i).snapshots, ∃ reached, s.index ≤ reached ∧ reached ≤ g.log.length ∧
      s.state = performAll codec (firstOccurrences (mutations codec (g.log.take reached)))) ∧
    ∀ newest, IsNewest (g.members i).snapshots newest → (g.members i).compacted ≤ snapshotIndex newest :=
  ⟨fun s hs => ((hrun.inv i).kept s hs).2.first, fun _ hnewest => (hrun.inv i).compacted_le hnewest⟩

/-- Recording fails once; after a restart the entry is applied, and the snapshot has it. -/
theorem snapshots_complete_retried : ∃ g, Run plain Sound g ∧ ∃ s ∈ (g.members 0).snapshots, s.index = 1 ∧
    s.state = performAll plain (firstOccurrences (mutations plain g.log)) := by
  have hcommit : Run plain Sound _ := .single ⟨.commit (.command putOne), trivial, .commit _ _⟩
  have hstore := hcommit.tail ⟨.store 0 1, trivial, .store (Nat.zero_le _) (Nat.le_refl _)⟩
  have hfail := hstore.tail ⟨.deliver 0 (some "disk full"), trivial, .deliver _ Nat.zero_lt_one rfl⟩
  have hnewest : IsNewest ([] : List (Snapshot Mutation)) none := rfl
  have hrestart := hfail.tail ⟨.restart 0 fun _ => none, trivial, .restart hnewest rfl⟩
  have hdeliver := hrestart.tail ⟨.deliver 0 none, trivial, .deliver none Nat.zero_lt_one rfl⟩
  have hsnapshot := hdeliver.tail ⟨.snapshot 0, rfl, .snapshot _ 0⟩
  obtain ⟨reached, hle, hlength, hstate⟩ := (snapshots_complete hsnapshot 0).1 _ mem_cons_self
  refine ⟨_, hsnapshot, _, mem_cons_self, rfl, hstate.trans ?_⟩
  have hreached : reached = 1 := Nat.le_antisymm hlength hle
  rw [hreached]
  rfl

/-- Recording fails, raft takes a snapshot and drops the log before it, and the process restarts: the entry is in no
snapshot, not in the log and not in the state. -/
theorem snapshot_misses_entry : ∃ g, Run plain (fun _ _ => True) g ∧ g.log = [.command putOne] ∧
    (∃ s ∈ (g.members 0).snapshots, s.index = 1 ∧
      s.state.values.get? "k" = none ∧ (performAll plain (firstOccurrences (mutations plain g.log))).values.get? "k" = some ⟨"k", [1]⟩) ∧
    (g.members 0).delivered = 1 ∧ (g.members 0).getLog g.log 1 = none ∧ (g.members 0).fsm.values.get? "k" = none := by
  let allowed : Group Mutation Mutation → Action Mutation → Prop := fun _ _ => True
  have hcommit : Run plain allowed _ := .single ⟨.commit (.command putOne), trivial, .commit _ _⟩
  have hstore := hcommit.tail ⟨.store 0 1, trivial, .store (Nat.zero_le _) (Nat.le_refl _)⟩
  have hfail := hstore.tail ⟨.deliver 0 (some "disk full"), trivial, .deliver _ Nat.zero_lt_one rfl⟩
  have hsnapshot := hfail.tail ⟨.snapshot 0, trivial, .snapshot _ 0⟩
  have hcompact := hsnapshot.tail ⟨.compact 0 1, trivial, .compact mem_cons_self (Nat.le_refl _)⟩
  have hnewest : IsNewest [(⟨1, {}⟩ : Snapshot Mutation)] (some ⟨1, {}⟩) :=
    ⟨mem_cons_self, fun other hother => Nat.le_of_eq (congrArg Snapshot.index (mem_singleton.mp hother))⟩
  have hrestart := hcompact.tail ⟨.restart 0 fun _ => none, trivial, .restart hnewest rfl⟩
  exact ⟨_, hrestart, rfl, ⟨_, mem_cons_self, rfl, rfl, rfl⟩, rfl, rfl, rfl⟩

/-- Whatever was installed, restarted or failed to be recorded on the way, members without a storage error that were
delivered the whole log hold the same state. -/
theorem caught_up_members_agree {codec : Codec Data F} {g : Group Data F} (hrun : Run codec Sound g) {i j : Nat}
    (h : ∀ k, k = i ∨ k = j → (g.members k).fsm.storageErr = none ∧ (g.members k).delivered = g.log.length) :
    (g.members i).fsm = (g.members j).fsm := by
  have hstate : ∀ k, k = i ∨ k = j → (g.members k).fsm = { toStateSnapshot := once codec g.log g.log.length } := by
    intro k hk
    obtain ⟨hnone, hall⟩ := h k hk
    have haccounts := (hrun.inv k).accounts
    rw [Accounts, if_pos hnone, hall] at haccounts
    obtain ⟨reached, hle, hlength, heq⟩ := haccounts
    rw [Nat.le_antisymm hlength hle] at heq
    rw [← heq, ← hnone]
  rw [hstate i (.inl rfl), hstate j (.inr rfl)]

theorem caught_up_members_agree_installed : ∃ g, Run plain Sound g ∧ g.log = [.command putOne] ∧
    (g.members 0).fsm = (g.members 1).fsm := by
  have hrun : Run plain Sound _ := .single ⟨.commit (.command putOne), trivial, .commit _ _⟩
  have hrun := hrun.tail ⟨.store 0 1, trivial, .store (Nat.zero_le _) (Nat.le_refl _)⟩
  have hrun := hrun.tail ⟨.deliver 0 none, trivial, .deliver none Nat.zero_lt_one rfl⟩
  have hrun := hrun.tail ⟨.snapshot 0, rfl, .snapshot _ 0⟩
  have hrun := hrun.tail ⟨.install 1 0 1, trivial, .install (.head _) (Nat.le_refl _) (fun _ => rfl) (Nat.zero_le _)⟩
  exact ⟨_, hrun, rfl, caught_up_members_agree hrun (by rintro _ (rfl | rfl) <;> exact ⟨rfl, rfl⟩)⟩

end Maistr0.Consensus
