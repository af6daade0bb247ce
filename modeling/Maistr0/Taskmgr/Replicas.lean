import Maistr0.Lib.Arrival
import Maistr0.Taskmgr.Batches
import Maistr0.Taskmgr.Settled

/-!
# Versions of one task

Versions of a task that a manager holds arrive one at a time, in some order. The manager is a place in the
sense of `Lib.Arrival`, and `replicaOutranks` is what decides who takes it.
-/

namespace Maistr0.Taskmgr

open Go List
open Lib.Arrival (outcome Settles)

theorem replicaOutranks_irrefl (t : Task) : replicaOutranks t t = false := by
  unfold replicaOutranks
  cases isInterruptedTask t <;> simp

def keptVersion (stored : Bool) (t : Task) : Task :=
  if stored then
    { cloneTask t with
      lastCheckpoint := (checkpointForTask (cloneTask (cloneTask t))).lastCheckpoint
      resumable := (checkpointForTask (cloneTask (cloneTask t))).resumable }
  else cloneTask t

theorem completedSubtaskCount_cloneTask (t : Task) : completedSubtaskCount (cloneTask t) = completedSubtaskCount t := by
  unfold completedSubtaskCount cloneTask
  rw [filter_map, length_map]
  rfl

theorem replicaOutranks_kept (stored : Bool) (current t : Task) :
    replicaOutranks current (keptVersion stored t) = replicaOutranks current t := by
  have hcount : completedSubtaskCount (keptVersion stored t) = completedSubtaskCount t := by
    cases stored with
    | true | false => exact completedSubtaskCount_cloneTask t
  have hfields : (keptVersion stored t).origin = t.origin ∧ (keptVersion stored t).sequence = t.sequence ∧
      (keptVersion stored t).status = t.status ∧ (keptVersion stored t).updatedAt = t.updatedAt ∧
      isInterruptedTask (keptVersion stored t) = isInterruptedTask t := by
    cases stored with
    | true | false => exact ⟨rfl, rfl, rfl, rfl, rfl⟩
  obtain ⟨horigin, hsequence, hstatus, hupdated, hinterrupted⟩ := hfields
  unfold replicaOutranks
  rw [hcount, horigin, hsequence, hstatus, hupdated, hinterrupted]

namespace Manager

inductive Fed (source : String) : Manager → List Task → Manager → Prop
  | nil (m : Manager) : Fed source m [] m
  | cons {m m' : Manager} (v : Task) {versions : List Task} (deciding now : Clocks)
    (h : Fed source (m.mergeFromReplicaFrom [v] source deciding now fun _ => .ok ()).2 versions m') :
    Fed source m (v :: versions) m'

theorem mergeFromReplicaFrom_held {m : Manager} {v current : Task} (hheld : m.tasks.get? v.id = some current) (hid : v.id ≠ "")
    (hstamped : v.unstamped = false) (source : String) (deciding now : Clocks) :
    (m.mergeFromReplicaFrom [v] source deciding now fun _ => .ok ()).2.store.isSome = m.store.isSome ∧
      (m.mergeFromReplicaFrom [v] source deciding now fun _ => .ok ()).2.tasks.get? v.id =
        some (Lib.Arrival.arrive replicaOutranks current (keptVersion m.store.isSome v)) := by
  have hflags : mergeReplicaTaskSlices m.tasks [v] deciding = [replicaOutranks current v] := by
    rw [mergeReplicaTaskSlices, if_neg hid, hheld]
    dsimp only
    cases replicaOutranks current v <;> rfl
  unfold mergeFromReplicaFrom syncTasks
  rw [if_pos rfl, hflags, Lib.Arrival.arrive, replicaOutranks_kept]
  simp only [zip_cons_cons, zip_nil_right, syncTasksFrom, syncTask, if_neg hid, m.stampIncoming_stamped hstamped, passedOver, hheld, Bool.not_true,
    Bool.false_or, Bool.false_eq_true, if_false]
  cases replicaOutranks current v with
  | false => exact ⟨rfl, hheld⟩
  | true =>
    simp only [adopt, hheld, Option.isNone_some, Bool.and_false, Bool.false_and, Bool.false_eq_true, if_false, Bool.not_true]
    obtain ⟨tasks, _, _, _, _, store, _⟩ := m
    cases store with
    | none | some => exact ⟨rfl, (Lib.Keyed.get?_put tasks _ _).trans (if_pos rfl)⟩

variable {source id : String} {m m' : Manager} {current : Task} {versions : List Task}

theorem exists_fed (source : String) (m : Manager) (versions : List Task) : ∃ m', Fed source m versions m' := by
  induction versions generalizing m with
  | nil => exact ⟨m, .nil m⟩
  | cons v _ ih =>
    obtain ⟨m', h⟩ := ih (m.mergeFromReplicaFrom [v] source System.noon System.noon fun _ => .ok ()).2
    exact ⟨m', .cons v System.noon System.noon h⟩

theorem Fed.held (h : Fed source m versions m') (hid : id ≠ "") :
    ∀ {current}, m.tasks.get? id = some current → (∀ v ∈ versions, v.id = id ∧ v.unstamped = false) →
      m'.tasks.get? id = some (outcome replicaOutranks current (versions.map (keptVersion m.store.isSome))) := by
  induction h with
  | nil => exact fun hheld _ => hheld
  | cons v deciding now h ih =>
    rename_i m m' versions
    intro current hheld hversions
    obtain ⟨rfl, hstamped⟩ := hversions v mem_cons_self
    obtain ⟨hstore, hturn⟩ := mergeFromReplicaFrom_held hheld hid hstamped source deciding now
    have hrest := ih hturn (forall_mem_cons.mp hversions).2
    rw [hstore] at hrest
    exact hrest

def holdingTask : Manager := (Op.create "report" System.oneSubtask false System.noon).run (newManager none false 1) (.ok ())

def fartherVersion : Task :=
  { id := "task-1", origin := "task:a", sequence := 1, status := .running, updatedAt := 20
    subtasks := [{ assignment := { subtask := { id := "work" } }, status := .completed }] }

def failedVersion : Task := { id := "task-1", origin := "task:b", sequence := 1, status := .failed, updatedAt := 20 }

def latestVersion : Task := { id := "task-1", origin := "task:b", sequence := 2, status := .completed, updatedAt := 21 }

end Manager

end Maistr0.Taskmgr
