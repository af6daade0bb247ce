import Maistr0.Taskmgr.Effects
import Maistr0.Taskmgr.Loading

/-!
# Histories of a task manager

A manager that is up takes calls one after the other, each with some answer of the store; it can stop
at any moment, and a store that was left behind can be opened again, in any order of its tasks, as
often as it takes until a load succeeds.
-/

namespace Maistr0.Taskmgr

open Lib.Keyed

inductive System where
  | up (m : Manager)
  | down (store : Tasks)

structure Rules where
  call : Manager → Op → Prop
  stop : Manager → Prop

namespace System

inductive Step (rules : Rules) : System → System → Prop
  | call (m : Manager) (op : Op) (saved : Except String Unit) (h : rules.call m op) :
    Step rules (.up m) (.up (op.run m saved))
  | stop (m : Manager) (store : Tasks) (hstore : m.store = some store) (h : rules.stop m) :
    Step rules (.up m) (.down store)
  | opened (store : Tasks) (tasks : List Task) (finalizer : Bool) (origin : String) (managerSyncID : Nat)
    (now : Nat → LoadClock) (saves : Nat → Except String Unit) (m : Manager) (htasks : tasks.Perm store.vals)
    (h : openManagerWithOrigin store tasks finalizer origin managerSyncID now saves = (.ok (), m)) :
    Step rules (.down store) (.up m)
  | failed (store : Tasks) (tasks : List Task) (finalizer : Bool) (origin : String) (managerSyncID : Nat)
    (now : Nat → LoadClock) (saves : Nat → Except String Unit) (err : Failure) (m : Manager) (store' : Tasks)
    (htasks : tasks.Perm store.vals)
    (h : openManagerWithOrigin store tasks finalizer origin managerSyncID now saves = (.error err, m))
    (hstore : m.store = some store') : Step rules (.down store) (.down store')

inductive Initial : System → Prop
  | memory (finalizer : Bool) (managerSyncID : Nat) : Initial (.up (newManager none finalizer managerSyncID))
  | store : Initial (.down ∅)

def Reachable (rules : Rules) (s : System) : Prop := ∃ s₀, Initial s₀ ∧ Relation.ReflTransGen (Step rules) s₀ s

def Holds (P : Task → Prop) : System → Prop
  | .up m => (∀ t ∈ m.tasks.vals, P t) ∧ ∀ store, m.store = some store → ∀ t ∈ store.vals, P t
  | .down store => ∀ t ∈ store.vals, P t

def anything : Rules := { call := fun _ _ => True, stop := fun _ => True }

def calls (m : Manager) (ops : List (Op × Except String Unit)) : Manager := ops.foldl (fun m op => op.1.run m op.2) m

theorem calls_run (m : Manager) (ops : List (Op × Except String Unit)) :
    Relation.ReflTransGen (Step anything) (.up m) (.up (calls m ops)) := by
  induction ops generalizing m with
  | nil => exact .refl
  | cons op _ ih => exact .head (.call m op.1 op.2 trivial) (ih _)

variable {P : Task → Prop} {rules : Rules}

theorem forall_stored {saved : Except String Unit} {t : Task} {store store' : Option Tasks}
    (hstored : Stored saved t store store') (h : ∀ s, store = some s → ∀ x ∈ s.vals, P x)
    (ht : ∀ copy, t.Copy copy → P copy) : ∀ s, store' = some s → ∀ x ∈ s.vals, P x := by
  cases store with
  | none =>
    intro s hs
    rw [hstored] at hs
    cases hs
  | some s₀ =>
    cases saved with
    | error =>
      intro s hs
      cases hstored.symm.trans hs
      exact h s₀ rfl
    | ok =>
      obtain ⟨copy, hcopy, hstore⟩ := hstored
      intro s hs
      cases hstore.symm.trans hs
      exact forall_mem_put (h s₀ rfl) (ht copy hcopy)

structure Kept (rules : Rules) (P : Task → Prop) : Prop where
  opened : ∀ t, t.ledger.Opened → t.Closed → P t
  same : ∀ t t', t.Same t' → P t → P t'
  advances : ∀ m op, rules.call m op → ∀ t t', t.Advances op.KeepsIDs (op.HasWork m) t' → P t → P t'
  recovered : ∀ t t', Recovered t t' → P t → P t'

theorem Kept.effect (hP : Kept rules P) {m m' : Manager} {op : Op} {saved : Except String Unit}
    (hcall : rules.call m op) (h : Effect op.KeepsIDs (op.HasWork m) (op.FreshID m) saved m m') (hm : Holds P (.up m)) :
    Holds P (.up m') := by
  obtain ⟨htasks, hstore⟩ := hm
  cases h with
  | refused h | configured _ h =>
    subst h
    exact ⟨htasks, hstore⟩
  | updated t u t' m₁ ht hu hcommit h =>
    subst h
    have ht' : P t' := hP.same _ _ hcommit.same (hP.advances m op hcall t u hu (htasks t (get?_eq_some.mp ht).1))
    refine ⟨?_, forall_stored hcommit.stored hstore fun copy hcopy => hP.same _ _ hcopy.toSame ht'⟩
    change ∀ x ∈ (m₁.tasks.put t').vals, P x
    rw [hcommit.tasks]
    exact forall_mem_put htasks ht'
  | uncommitted t t' ht ht' _ _ h =>
    subst h
    exact ⟨forall_mem_put htasks (hP.advances m op hcall t t' ht' (htasks t (get?_eq_some.mp ht).1)), hstore⟩
  | created t t' m₁ _ _ hopened hclosed hcommit h =>
    have ht' : P t' := hP.same _ _ hcommit.same (hP.opened t hopened hclosed)
    have hstore' := forall_stored (P := P) hcommit.stored hstore fun copy hcopy => hP.same _ _ hcopy.toSame ht'
    have htasks' : ∀ x ∈ m₁.tasks.vals, P x := by
      rw [hcommit.tasks]
      exact htasks
    rcases h with ⟨-, rfl⟩ | ⟨-, rfl⟩
    · exact ⟨forall_mem_put htasks' ht', hstore'⟩
    · exact ⟨htasks', hstore'⟩

theorem reopened {store : Tasks} {tasks : List Task} (htasks : tasks.Perm store.vals) (finalizer : Bool)
    (origin : String) (managerSyncID : Nat) (now : Nat → LoadClock) (saves : Nat → Except String Unit) :
    ∃ store', Reopened store (openManagerWithOrigin store tasks finalizer origin managerSyncID now saves) store' := by
  unfold openManagerWithOrigin
  split
  · exact Manager.load_reopened rfl rfl htasks now saves
  · exact Manager.load_reopened rfl rfl htasks now saves

theorem Kept.store (hP : Kept rules P) {store store' : Tasks} {result : Except Failure Unit × Manager}
    (h : Reopened store result store') (hstore : ∀ t ∈ store.vals, P t) : ∀ t ∈ store'.vals, P t := by
  intro t ht
  have hget := get?_eq_some.mpr ⟨ht, rfl⟩
  rcases h.stored t.id with hsame | ⟨t₀, t', ht₀, ht', hrec⟩
  · exact hstore t (get?_eq_some.mp (hsame.symm.trans hget)).1
  · cases ht'.symm.trans hget
    exact hP.recovered _ _ hrec (hstore t₀ (get?_eq_some.mp ht₀).1)

theorem Kept.step (hP : Kept rules P) {s s' : System} (h : Step rules s s') (hs : Holds P s) : Holds P s' := by
  cases h with
  | call m op saved h => exact hP.effect h (op.effect m saved) hs
  | stop _ store hstore => exact hs.2 store hstore
  | opened store _ finalizer origin managerSyncID now saves _ htasks h =>
    obtain ⟨store', hre⟩ := reopened htasks finalizer origin managerSyncID now saves
    rw [h] at hre
    refine ⟨fun t ht => ?_, fun s hs' => ?_⟩
    · obtain ⟨t₀, ht₀, hrec⟩ := hre.recovered rfl (get?_eq_some.mpr ⟨ht, rfl⟩)
      exact hP.recovered _ _ hrec (hs t₀ (get?_eq_some.mp ht₀).1)
    · cases hre.store.symm.trans hs'
      exact hP.store hre hs
  | failed store _ finalizer origin managerSyncID now saves _ _ store' htasks h hstore =>
    obtain ⟨_, hre⟩ := reopened htasks finalizer origin managerSyncID now saves
    rw [h] at hre
    cases hre.store.symm.trans hstore
    exact hP.store hre hs

theorem Kept.run (hP : Kept rules P) {s s' : System} (h : Relation.ReflTransGen (Step rules) s s')
    (hs : Holds P s) : Holds P s' := by
  induction h with
  | refl => exact hs
  | tail _ hstep ih => exact hP.step hstep ih

theorem Kept.reachable (hP : Kept rules P) {s : System} (h : Reachable rules s) : Holds P s := by
  obtain ⟨_, hinitial, hrun⟩ := h
  apply hP.run hrun
  cases hinitial with
  | memory => exact ⟨(fun t ht => by cases ht), fun store hstore => by cases hstore⟩
  | store =>
    intro t ht
    cases ht

end System

end Maistr0.Taskmgr
