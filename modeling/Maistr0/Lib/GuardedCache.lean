import Mathlib

/-!
# A cache guarded by a generation

Several tasks share an object whose committed values are numbered, and a slot that may hold one of them.
A writer commits a new value and later either clears the slot or puts its own value there; both raise the
generation. A reader takes what is in the slot; if there is nothing, it notes the generation, reads the
committed value and puts it into the slot if the generation is still the one it noted.

The steps of different tasks interleave freely. What keeps the slot from going back is that a writer may
put its own value there only if no later value has been settled, and that a reader's value does not enter
the slot after a writer has come past it.
-/

namespace Maistr0.Lib.GuardedCache

open Function

structure Seen (V : Type) where
  version : Nat
  value : V

structure Slot (V : Type) where
  cached : Option (Seen V) := none
  generation : Nat := 0
  settled : Nat := 0

namespace Slot

variable {V : Type}

def invalidate (c : Slot V) (version : Nat) : Slot V where
  cached := none
  generation := c.generation + 1
  settled := max c.settled version

def publish (c : Slot V) (seen : Seen V) : Slot V where
  cached := some seen
  generation := c.generation + 1
  settled := max c.settled seen.version

def fill (c : Slot V) (generation : Nat) (seen : Seen V) : Slot V :=
  if generation = c.generation then { c with cached := some seen } else c

end Slot

inductive Task (V : Type) where
  | idle
  | invalidating (version : Nat)
  | publishing (seen : Seen V)
  | reading (since generation : Nat)
  | viewed (since generation : Nat) (seen : Seen V)

def Task.pending {V : Type} : Task V → Option Nat
  | invalidating version => some version
  | publishing seen => some seen.version
  | _ => none

structure State (ι V : Type) where
  history : Nat → V
  latest : Nat
  slot : Slot V
  tasks : ι → Task V

variable {ι V : Type} [DecidableEq ι] {i : ι} {t : Task V}

def State.append (s : State ι V) (x : V) : State ι V :=
  { s with history := Function.update s.history (s.latest + 1) x, latest := s.latest + 1 }

def State.set (s : State ι V) (i : ι) (t : Task V) : State ι V :=
  { s with tasks := Function.update s.tasks i t }

theorem State.set_self {s : State ι V} (h : s.tasks i = t) : s.set i t = s := by
  subst h
  unfold State.set
  rw [update_eq_self]

/-- One step of one task. A read that returns says what had been settled when it began and what it returns. -/
inductive Step (s : State ι V) : Option (Nat × Seen V) → State ι V → Prop
  | commit (i : ι) (x : V) (t : Task V) (hi : s.tasks i = .idle)
      (ht : t = .invalidating (s.latest + 1) ∨ t = .publishing ⟨s.latest + 1, x⟩) : Step s none ((s.append x).set i t)
  | commitElsewhere : Step s none (s.append (s.history s.latest))
  | invalidate (i : ι) (version : Nat) (hi : s.tasks i = .invalidating version) :
      Step s none { s.set i .idle with slot := s.slot.invalidate version }
  | publish (i : ι) (seen : Seen V) (hi : s.tasks i = .publishing seen) (horder : s.slot.settled ≤ seen.version) :
      Step s none { s.set i .idle with slot := s.slot.publish seen }
  | hit (i : ι) (seen : Seen V) (hi : s.tasks i = .idle) (hcached : s.slot.cached = some seen) :
      Step s (some (s.slot.settled, seen)) s
  | miss (i : ι) (hi : s.tasks i = .idle) (hcached : s.slot.cached = none) :
      Step s none (s.set i (.reading s.slot.settled s.slot.generation))
  | view (i : ι) (since generation : Nat) (hi : s.tasks i = .reading since generation) :
      Step s none (s.set i (.viewed since generation ⟨s.latest, s.history s.latest⟩))
  | fill (i : ι) (since generation : Nat) (seen : Seen V) (hi : s.tasks i = .viewed since generation seen) :
      Step s (some (since, seen)) { s.set i .idle with slot := s.slot.fill generation seen }
  | keep (i : ι) (since generation : Nat) (seen : Seen V) (hi : s.tasks i = .viewed since generation seen) :
      Step s (some (since, seen)) (s.set i .idle)
  | other : Step s none s

namespace State

variable {s s' : State ι V} {seen : Seen V}

def Valid (s : State ι V) (seen : Seen V) : Prop := seen.version ≤ s.latest ∧ seen.value = s.history seen.version

def Pending (s : State ι V) (version : Nat) : Prop := ∃ i, (s.tasks i).pending = some version

def TaskFine (s : State ι V) : Task V → Prop
  | .idle => True
  | .invalidating version => version ≤ s.latest
  | .publishing seen => s.Valid seen
  | .reading since generation => since ≤ s.slot.settled ∧ generation ≤ s.slot.generation
  | .viewed since generation seen =>
    s.Valid seen ∧ since ≤ seen.version ∧ generation ≤ s.slot.generation ∧
      (generation = s.slot.generation → s.slot.settled ≤ seen.version)

/-- What every run preserves. After the last settled number, only pending writers have changed the value. -/
structure Coherent (s : State ι V) : Prop where
  settled : s.slot.settled ≤ s.latest
  rest : ∀ w, s.slot.settled < w → w ≤ s.latest → s.Pending w ∨ s.history w = s.history (w - 1)
  cached : ∀ seen, s.slot.cached = some seen → s.Valid seen ∧ s.slot.settled ≤ seen.version
  tasks : ∀ i, s.TaskFine (s.tasks i)

omit [DecidableEq ι] in
theorem Valid.append (h : s.Valid seen) (x : V) : (s.append x).Valid seen := by
  refine ⟨h.1.trans (Nat.le_succ _), ?_⟩
  change seen.value = update s.history (s.latest + 1) x seen.version
  rw [update_of_ne (by have := h.1; omega)]
  exact h.2

omit [DecidableEq ι] in
theorem TaskFine.append (h : s.TaskFine t) (x : V) : (s.append x).TaskFine t := by
  cases t with
  | idle => trivial
  | invalidating => exact Nat.le_succ_of_le h
  | publishing => exact Valid.append h x
  | reading => exact h
  | viewed => exact ⟨h.1.append x, h.2⟩

theorem tasks_set (h : ∀ j, s.TaskFine (s.tasks j)) (ht : s.TaskFine t) : ∀ j, s.TaskFine ((s.set i t).tasks j) := by
  intro j
  change s.TaskFine (update s.tasks i t j)
  rw [update_apply]
  split
  · exact ht
  · exact h j

theorem Pending.set {w : Nat} (h : s.Pending w) (hi : (s.tasks i).pending ≠ some w) : (s.set i t).Pending w := by
  obtain ⟨j, hj⟩ := h
  refine ⟨j, ?_⟩
  change (update s.tasks i t j).pending = some w
  rw [update_of_ne]
  · exact hj
  · rintro rfl
    exact hi hj

namespace Coherent

section

variable (h : s.Coherent)

include h

theorem set (hi : (s.tasks i).pending = none) (ht : s.TaskFine t) : (s.set i t).Coherent where
  settled := h.settled
  rest w hlt hle := (h.rest w hlt hle).imp_left fun hp => hp.set (by rw [hi]; nofun)
  cached := h.cached
  tasks := tasks_set h.tasks ht

omit [DecidableEq ι] in
/-- A commit that its writer still has to settle, or that does not change the value. -/
theorem append (x : V) {tasks : ι → Task V} (hpending : ∀ w, s.Pending w → State.Pending { s.append x with tasks } w)
    (hnew : State.Pending { s.append x with tasks } (s.latest + 1) ∨ x = s.history s.latest)
    (htasks : ∀ i, (s.append x).TaskFine (tasks i)) : State.Coherent { s.append x with tasks } where
  settled := h.settled.trans (Nat.le_succ _)
  rest w hlt hle := by
    change w ≤ s.latest + 1 at hle
    change _ ∨ update s.history (s.latest + 1) x w = update s.history (s.latest + 1) x (w - 1)
    rcases Nat.lt_or_ge s.latest w with hlast | hold
    · obtain rfl : w = s.latest + 1 := by omega
      refine hnew.imp_right fun hx => ?_
      rw [update_self, Nat.add_sub_cancel, update_of_ne (by omega), hx]
    · rw [update_of_ne (by omega), update_of_ne (by omega)]
      exact (h.rest w hlt hold).imp_left (hpending w)
  cached seen hseen := ⟨(h.cached seen hseen).1.append x, (h.cached seen hseen).2⟩
  tasks := htasks

theorem settle {version : Nat} (hi : (s.tasks i).pending = some version) (hle : version ≤ s.latest)
    {slot : Slot V} (hgeneration : slot.generation = s.slot.generation + 1)
    (hsettled : slot.settled = max s.slot.settled version)
    (hcached : ∀ seen, slot.cached = some seen → s.Valid seen ∧ max s.slot.settled version ≤ seen.version) :
    State.Coherent { s.set i .idle with slot } where
  settled := by
    rw [hsettled]
    exact max_le h.settled hle
  rest w hlt hw := by
    rw [hsettled, max_lt_iff] at hlt
    refine (h.rest w hlt.1 hw).imp_left fun hp => ?_
    exact hp.set (by rw [hi, ne_eq, Option.some.injEq]; exact hlt.2.ne)
  cached seen hseen := by
    rw [hsettled]
    exact hcached seen hseen
  tasks := by
    refine tasks_set (s := { s with slot }) (fun j => ?_) trivial
    have hj := h.tasks j
    cases htask : s.tasks j with
    | reading since generation =>
      rw [htask] at hj
      refine ⟨?_, ?_⟩
      · rw [hsettled]
        exact hj.1.trans (le_max_left _ _)
      · rw [hgeneration]
        exact Nat.le_succ_of_le hj.2
    | viewed _ generation =>
      rw [htask] at hj
      obtain ⟨hvalid, hsince, hgen, -⟩ := hj
      refine ⟨hvalid, hsince, ?_, fun heq => ?_⟩
      · rw [hgeneration]
        exact Nat.le_succ_of_le hgen
      -- a reader that noted the generation before does not see it again
      change generation = slot.generation at heq
      omega
    | _ =>
      rw [htask] at hj
      exact hj

theorem step {r : Option (Nat × Seen V)} (hstep : Step s r s') : s'.Coherent := by
  cases hstep with
  | commit i x t hi ht =>
    have hpending : t.pending = some (s.latest + 1) := by rcases ht with rfl | rfl <;> rfl
    refine h.append x (fun w hw => ?_) (.inl ⟨i, ?_⟩) (tasks_set (fun j => (h.tasks j).append x) ?_)
    · exact Pending.set (s := s.append x) hw (by change (s.tasks i).pending ≠ _; rw [hi]; nofun)
    · change (update s.tasks i t i).pending = _
      rw [update_self, hpending]
    · rcases ht with rfl | rfl
      · exact le_rfl
      refine ⟨le_rfl, ?_⟩
      change x = update s.history (s.latest + 1) x (s.latest + 1)
      rw [update_self]
  | commitElsewhere => exact h.append _ (fun _ hw => hw) (.inr rfl) fun i => (h.tasks i).append _
  | invalidate i _ hi =>
    have hle := h.tasks i
    rw [hi] at hle
    exact h.settle (by rw [hi]; rfl) hle rfl rfl nofun
  | publish i _ hi horder =>
    have hvalid := h.tasks i
    rw [hi] at hvalid
    refine h.settle (by rw [hi]; rfl) hvalid.1 rfl rfl ?_
    rintro _ ⟨rfl⟩
    exact ⟨hvalid, max_le horder le_rfl⟩
  | hit => exact h
  | miss _ hi => exact h.set (by rw [hi]; rfl) ⟨le_rfl, le_rfl⟩
  | view i _ _ hi =>
    have hreading := h.tasks i
    rw [hi] at hreading
    exact h.set (by rw [hi]; rfl) ⟨⟨le_rfl, rfl⟩, hreading.1.trans h.settled, hreading.2, fun _ => h.settled⟩
  | fill i _ generation _ hi =>
    have hviewed := h.tasks i
    rw [hi] at hviewed
    have hset : (s.set i .idle).Coherent := h.set (by rw [hi]; rfl) trivial
    by_cases hsame : generation = s.slot.generation
    · simp only [Slot.fill, if_pos hsame]
      refine ⟨hset.settled, hset.rest, ?_, fun j => ?_⟩
      · rintro _ ⟨rfl⟩
        exact ⟨hviewed.1, hviewed.2.2.2 hsame⟩
      · have hj := hset.tasks j
        cases htask : (s.set i .idle).tasks j <;> rw [htask] at hj <;> exact hj
    · simp only [Slot.fill, if_neg hsame]
      exact hset
  | keep _ _ _ _ hi => exact h.set (by rw [hi]; rfl) trivial
  | other => exact h

/-- A read never returns a value older than what had been settled when it began. -/
theorem returned {since : Nat} (hstep : Step s (some (since, seen)) s') : s.Valid seen ∧ since ≤ seen.version := by
  cases hstep with
  | hit _ seen _ hcached => exact h.cached seen hcached
  | fill i _ _ _ hi | keep i _ _ _ hi =>
    have hviewed := h.tasks i
    rw [hi] at hviewed
    exact ⟨hviewed.1, hviewed.2.1⟩

omit [DecidableEq ι] in
theorem current (hquiet : ∀ w, ¬ s.Pending w) (hcached : s.slot.cached = some seen) :
    seen.value = s.history s.latest := by
  have hconstant : ∀ n, s.slot.settled + n ≤ s.latest → s.history (s.slot.settled + n) = s.history s.slot.settled := by
    intro n
    induction n with
    | zero => exact fun _ => rfl
    | succ n ih =>
      intro hle
      have hlast := (h.rest (s.slot.settled + (n + 1)) (by omega) hle).resolve_left (hquiet _)
      exact hlast.trans (ih (by omega))
  obtain ⟨hvalid, hsettled⟩ := h.cached seen hcached
  have hversion := hconstant (seen.version - s.slot.settled) (by have := hvalid.1; omega)
  have hlatest := hconstant (s.latest - s.slot.settled) (by have := h.settled; omega)
  rw [Nat.add_sub_cancel' hsettled] at hversion
  rw [Nat.add_sub_cancel' h.settled] at hlatest
  rw [hvalid.2, hversion, hlatest]

end

end Coherent

end State

end Maistr0.Lib.GuardedCache
