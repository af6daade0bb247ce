import Maistr0.Taskmgr.Effects

/-!
# Pages of recent tasks

`PageRecent` looks whether the list of recent tasks is valid, builds it if it is not, and reads it: three times under
the lock, between which tasks may be updated. The list has pointers to the tasks, so it is modelled by their IDs. A
section that updates tasks drops the list, or leaves it as it is. What a query finds in a task and how long its JSON
text is are left open.
-/

namespace Maistr0.Taskmgr

open Go List

structure PageCursor where
  updatedAt : Time := 0
  id : String := ""
deriving DecidableEq

structure TaskPage where
  items : List Task := []
  nextCursor : PageCursor := {}
  hasMore : Bool := false
deriving DecidableEq

structure PageRequest where
  cursor : Option PageCursor := none
  query : String := ""
  status : Option Status := none
  limit : Int := 0
  maxBytes : Int := 0

def taskFollowsCursor (t : Task) (cursor : PageCursor) : Bool :=
  if t.updatedAt = cursor.updatedAt then t.id < cursor.id else t.updatedAt < cursor.updatedAt

section

variable [CaseFolding] (matchesQuery : Task → String → Bool) (size : Task → Except String Nat) (request : PageRequest)

def PageRequest.selects (t : Task) : Bool :=
  let query := toLower (trimSpace request.query)
  request.cursor.all (taskFollowsCursor t) && request.status.all (t.status = ·) && (query = "" || matchesQuery t query)

/-- The loop of `PageRecent`, with the page so far and the bytes used. -/
def fillPage : List Task → TaskPage → Int → Except String TaskPage
  | [], page, _ => .ok page
  | t :: rest, page, usedBytes =>
    if !request.selects matchesQuery t then fillPage rest page usedBytes
    else if page.items.length = if request.limit ≤ 0 then 50 else request.limit then .ok { page with hasMore := true }
    else do
      let itemBytes : Int ← size t
      let required := if page.items = [] then itemBytes else itemBytes + 1
      if 0 < request.maxBytes ∧ request.maxBytes < itemBytes then
        if page.items = [] then .error "taskmgr: one task exceeds the page response limit"
        else .ok { page with hasMore := true }
      else if 0 < request.maxBytes ∧ request.maxBytes < usedBytes + required then .ok { page with hasMore := true }
      else
        fillPage rest { page with items := page.items ++ [cloneTask t], nextCursor := ⟨t.updatedAt, t.id⟩ }
          (usedBytes + required)

end

def newestFirst (tasks : Tasks) : List Task :=
  tasks.vals.mergeSort fun t u => if t.updatedAt = u.updatedAt then u.id ≤ t.id else u.updatedAt < t.updatedAt

structure TaskHistory where
  tasks : Tasks := ∅
  recent : Option (List String) := none

/-- The sections of everybody else. -/
inductive HistoryEvent where
  | ensure
  | update (tasks : Tasks) (invalidates : Bool)

namespace TaskHistory

def ensureRecentTasksLocked (s : TaskHistory) : TaskHistory :=
  { s with recent := some (s.recent.getD ((newestFirst s.tasks).map Task.id)) }

def step (s : TaskHistory) : HistoryEvent → TaskHistory
  | .ensure => s.ensureRecentTasksLocked
  | .update tasks invalidates => { tasks, recent := if invalidates then none else s.recent }

def run (s : TaskHistory) (events : List HistoryEvent) : TaskHistory := events.foldl step s

/-- The tasks behind the list; `nil` is a list without any. -/
def recentTasks (s : TaskHistory) : List Task := (s.recent.getD []).filterMap s.tasks.get?

/-- The state after the second section of a call of `PageRecent`, which others precede with `events`. -/
def prepared (s : TaskHistory) (events : List HistoryEvent) : TaskHistory :=
  if s.recent.isSome then s.run events else (s.run events).ensureRecentTasksLocked

/-- An update that leaves the list in place also leaves the order of the tasks. -/
def Orderly : TaskHistory → List HistoryEvent → Prop
  | _, [] => True
  | s, e :: events =>
    (∀ tasks, e = .update tasks false → (newestFirst tasks).map Task.id = (newestFirst s.tasks).map Task.id) ∧
      (s.step e).Orderly events

def Fresh (s : TaskHistory) : Prop := ∀ ids ∈ s.recent, ids = (newestFirst s.tasks).map Task.id

abbrev Keeps (events : List HistoryEvent) : Prop := ∀ tasks, .update tasks true ∉ events

variable {s : TaskHistory} {events : List HistoryEvent}

theorem Fresh.ensure (h : s.Fresh) : s.ensureRecentTasksLocked.Fresh := by
  intro ids hids
  obtain rfl : s.recent.getD _ = ids := Option.some.inj hids
  cases hrecent : s.recent with
  | none => rfl
  | some ids => exact h ids hrecent

theorem Fresh.run (h : s.Fresh) (horderly : s.Orderly events) : (s.run events).Fresh := by
  induction events generalizing s with
  | nil => exact h
  | cons e events ih =>
    refine ih ?_ horderly.2
    cases e with
    | ensure => exact h.ensure
    | update tasks invalidates =>
      cases invalidates with
      | true => exact nofun
      | false => exact fun ids hids => (h ids hids).trans (horderly.1 tasks rfl).symm

theorem recent_run (hvalid : s.recent.isSome) (hkeeps : Keeps events) : (s.run events).recent.isSome := by
  induction events generalizing s with
  | nil => exact hvalid
  | cons e events ih =>
    refine ih ?_ fun tasks htasks => hkeeps tasks (.tail _ htasks)
    cases e with
    | ensure => rfl
    | update tasks invalidates =>
      cases invalidates with
      | true => exact absurd (.head _) (hkeeps tasks)
      | false => exact hvalid

theorem recentTasks_eq (h : s.Fresh) (hvalid : s.recent.isSome) : s.recentTasks = newestFirst s.tasks := by
  obtain ⟨ids, hids⟩ := Option.isSome_iff_exists.mp hvalid
  unfold recentTasks
  rw [hids, Option.getD_some, h ids hids, filterMap_map]
  refine (filterMap_congr fun t ht => ?_).trans filterMap_some
  exact Lib.Keyed.get?_eq_some.mpr ⟨(mergeSort_perm _ _).mem_iff.mp ht, rfl⟩

/-- The calls of a manager drop the list if they assign a sequence. They are orderly unless an assignment takes the ID
of another subtask. -/
theorem orderly_call {op : Op} {m : Manager} {saved : Except String Unit} (hids : op.KeepsIDs) (recent : Option (List String)) :
    Orderly ⟨m.tasks, recent⟩ [.update (op.run m saved).tasks ((op.run m saved).issued ≠ m.issued)] := by
  refine ⟨fun tasks htasks => ?_, trivial⟩
  obtain ⟨rfl, hissued⟩ := HistoryEvent.update.inj htasks
  suffices (op.run m saved).tasks = m.tasks by rw [this]
  have hissued : (op.run m saved).issued = m.issued := by simpa using hissued
  cases op.effect m saved with
  | refused h => rw [h]
  | configured _ h => rw [h]
  | updated t u t' m₁ _ _ hcommit h =>
    rw [h] at hissued
    exact absurd (hcommit.issued.symm.trans hissued) (cons_ne_self _ _)
  | uncommitted _ _ _ _ _ hnot => exact absurd hids hnot
  | created t t' m₁ _ _ _ _ hcommit h =>
    have hm₁ : m₁.issued = m.issued := by
      obtain ⟨-, h⟩ | ⟨-, h⟩ := h
      · exact (congrArg Manager.issued h).symm.trans hissued
      · exact (congrArg Manager.issued h).symm.trans hissued
    exact absurd (hcommit.issued.symm.trans hm₁) (cons_ne_self _ _)

/-- A call of the manager, or for `none` a look at the list that is kept beside it. -/
def turn (p : Manager × Option (List String)) : Option (Op × Except String Unit) → Manager × Option (List String)
  | none => (p.1, (ensureRecentTasksLocked ⟨p.1.tasks, p.2⟩).recent)
  | some (op, saved) => (op.run p.1 saved,
      (step ⟨p.1.tasks, p.2⟩ (.update (op.run p.1 saved).tasks ((op.run p.1 saved).issued ≠ p.1.issued))).recent)

end TaskHistory

end Maistr0.Taskmgr
