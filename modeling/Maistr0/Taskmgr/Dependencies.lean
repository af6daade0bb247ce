import Maistr0.Orchestrator.Dispatcher
import Maistr0.Taskmgr.Finality

/-!
# The input of a subtask

The text that `InputForSubtask` returns, and what a granted `WaitForDependencies` promises about it. The paragraphs
made from the role of a subtask and from its output format are left open.
-/

namespace Maistr0.Taskmgr

open Go List

/-- The output that `InputForSubtask` finds for a prerequisite: all subtasks of that ID must be completed, and the last
one counts. -/
def Task.dependencyOutput (t : Task) (dependency : String) : Option String :=
  let results := t.subtasks.filter fun r => r.id = dependency
  if results.all fun r => r.status = .completed then results.getLast?.map SubtaskResult.output else none

def prerequisites (output : String → String) (dependsOn : List String) (rest : String) : String :=
  dependsOn.foldr (fun dependency text =>
    "Prerequisite " ++ dependency ++ ":\n" ++ trimSpace (output dependency) ++ "\n\n" ++ text) rest

def Task.inputText (t : Task) (profile format : Subtask → String) (subtask : Subtask) : Option String :=
  if subtask.dependsOn.all fun dependency => (t.dependencyOutput dependency).isSome then
    some (prerequisites (fun dependency => (t.dependencyOutput dependency).getD "") subtask.dependsOn
      (profile subtask ++ "Overall task: " ++ t.description ++ "\n\nSubtask: " ++ subtask.description ++ format subtask))
  else none

namespace Manager

def subtask? (m : Manager) (taskID subtaskID : String) : Option Subtask :=
  ((m.tasks.get? taskID).bind fun t => t.subtask? subtaskID).map fun r => r.assignment.subtask

def inputTextForSubtask (m : Manager) (profile format : Subtask → String) (taskID subtaskID : String) : Option String :=
  (m.tasks.get? taskID).bind fun t => (m.subtask? taskID subtaskID).bind (t.inputText profile format)

def ShowsOutputs (m : Manager) (taskID subtaskID : String) (text : Option String) : Prop :=
  ∃ t subtask output rest, m.tasks.get? taskID = some t ∧ m.subtask? taskID subtaskID = some subtask ∧
    (∀ dependency ∈ subtask.dependsOn, ∃ r ∈ t.subtasks, r.id = dependency ∧ r.status = .completed ∧
      output dependency = r.output) ∧ text = some (prerequisites output subtask.dependsOn rest)

end Manager

variable {t t' : Task} {m m' : Manager} {r : SubtaskResult} {taskID subtaskID : String}

theorem waitForDependencies_granted (h : m.waitForDependencies taskID subtaskID = some true) :
    ∃ t r, m.tasks.get? taskID = some t ∧ t.subtask? subtaskID = some r ∧
      ∀ dependency ∈ r.assignment.subtask.dependsOn, t.dependencyStatus dependency = .completed := by
  simp only [Manager.waitForDependencies, all_map, all_eq_true, Function.comp_apply, decide_eq_true_eq] at h
  grind

theorem completed_of_dependencyStatus {dependency : String} (h : t.dependencyStatus dependency = .completed) :
    ∃ r ∈ t.subtasks, r.id = dependency ∧ r.status = .completed := by
  unfold Task.dependencyStatus at h
  cases hlast : (t.subtasks.filter fun r => r.id = dependency).getLast? with
  | none =>
    rw [hlast] at h
    cases h
  | some r =>
    rw [hlast] at h
    obtain ⟨hmem, hid⟩ := mem_filter.mp (mem_of_getLast? hlast)
    exact ⟨r, hmem, of_decide_eq_true hid, h⟩

abbrev Task.DistinctIDs (t : Task) : Prop := (t.ledger.entries.map Entry.id).Nodup

theorem Task.DistinctIDs.dependencyOutput (h : t.DistinctIDs) (hr : r ∈ t.subtasks) (hcompleted : r.status = .completed) :
    t.dependencyOutput r.id = some r.output := by
  rw [Task.DistinctIDs, ledger, map_map] at h
  have honly : ∀ x ∈ t.subtasks.filter (fun x => x.id = r.id), x = r := by
    intro x hx
    obtain ⟨hmem, hid⟩ := mem_filter.mp hx
    exact inj_on_of_nodup_map h hmem hr (of_decide_eq_true hid)
  have hne : t.subtasks.filter (fun x => x.id = r.id) ≠ [] :=
    ne_nil_of_mem (mem_filter.mpr ⟨hr, decide_eq_true rfl⟩)
  rw [Task.dependencyOutput, if_pos, getLast?_eq_some_getLast hne, honly _ (getLast_mem hne), Option.map_some]
  exact all_eq_true.mpr fun x hx => decide_eq_true (honly x hx ▸ hcompleted)

theorem Ledger.Keeps.dependencyOutput (h : t.ledger.Keeps t'.ledger) (hdistinct : t'.DistinctIDs) (hr : r ∈ t.subtasks)
    (hcompleted : r.status = .completed) : t'.dependencyOutput r.id = some r.output := by
  obtain ⟨i, hi⟩ := mem_iff_getElem?.mp hr
  have hentry := h.entry i r.entry (by simp [Task.ledger, hi]) hcompleted
  simp only [Task.ledger, getElem?_map, Option.map_eq_some_iff] at hentry
  obtain ⟨r', hr', heq⟩ := hentry
  have houtput := hdistinct.dependencyOutput (mem_of_getElem? hr') ((congrArg Entry.status heq).trans hcompleted)
  rwa [show r'.id = r.id from congrArg Entry.id heq, show r'.output = r.output from congrArg Entry.output heq] at houtput

theorem Ledger.Keeps.subtask? (h : t.ledger.Keeps t'.ledger) (hr : t.subtask? subtaskID = some r) :
    ∃ r', t'.subtask? subtaskID = some r' := by
  have hentry : t.ledger.entry? subtaskID = some r.entry := by rw [Task.entry?_ledger, hr, Option.map_some]
  obtain ⟨-, _, -, -, he⟩ := entry?_place h.ids.symm hentry
  rw [Task.entry?_ledger, Option.map_eq_some_iff] at he
  obtain ⟨r', hr', -⟩ := he
  exact ⟨r', hr'⟩

namespace System

/-- A granted wait guarantees the input: after any calls that leave the IDs of subtasks alone, the input of the subtask
is given, with the outputs that the prerequisites had been completed with when the wait was granted. -/
theorem granted_wait_gives_input (h : Reachable anything (.up m))
    (hwait : m.waitForDependencies taskID subtaskID = some true)
    (hdistinct : ∀ t, m.tasks.get? taskID = some t → t.DistinctIDs)
    (hrun : Relation.ReflTransGen (Step durable) (.up m) (.up m'))
    (hdependsOn : (m'.subtask? taskID subtaskID).map Subtask.dependsOn = (m.subtask? taskID subtaskID).map Subtask.dependsOn)
    (profile format : Subtask → String) :
    m.ShowsOutputs taskID subtaskID (m'.inputTextForSubtask profile format taskID subtaskID) := by
  obtain ⟨t, r, ht, hr, hgranted⟩ := waitForDependencies_granted hwait
  obtain ⟨t', ht', hkeeps⟩ := Keeps.run hrun ((kept_quiet anything).reachable h) ⟨t, ht, .refl _⟩
  have ht' : m'.tasks.get? taskID = some t' := ht'
  have hdistinct' : t'.DistinctIDs := by
    rw [Task.DistinctIDs, hkeeps.ids]
    exact hdistinct t ht
  obtain ⟨r', hr'⟩ := hkeeps.subtask? hr
  have hfound : m.subtask? taskID subtaskID = some r.assignment.subtask := by simp [Manager.subtask?, ht, hr]
  have hfound' : m'.subtask? taskID subtaskID = some r'.assignment.subtask := by simp [Manager.subtask?, ht', hr']
  have hlist : r'.assignment.subtask.dependsOn = r.assignment.subtask.dependsOn := by
    simpa [hfound, hfound'] using hdependsOn
  have houtput : ∀ d ∈ r.assignment.subtask.dependsOn, ∃ x ∈ t.subtasks, x.id = d ∧ x.status = .completed ∧
      t'.dependencyOutput d = some x.output := by
    intro d hd
    obtain ⟨x, hx, rfl, hcompleted⟩ := completed_of_dependencyStatus (hgranted d hd)
    exact ⟨x, hx, rfl, hcompleted, hkeeps.dependencyOutput hdistinct' hx hcompleted⟩
  rw [Manager.inputTextForSubtask, ht', hfound', Option.bind_some, Option.bind_some, Task.inputText, hlist, if_pos]
  · refine ⟨t, _, _, _, ht, hfound, fun d hd => ?_, rfl⟩
    obtain ⟨x, hx, hid, hcompleted, hout⟩ := houtput d hd
    exact ⟨x, hx, hid, hcompleted, by rw [hout, Option.getD_some]⟩
  · refine all_eq_true.mpr fun d hd => ?_
    obtain ⟨_, -, -, -, hout⟩ := houtput d hd
    rw [hout, Option.isSome_some]

def drafted : Manager :=
  calls (newManager none false 1) [(.create "report" [{ subtask := { id := "note" } }, { subtask := { id := "draft" } },
      { subtask := { id := "review", dependsOn := ["draft"] } }] false noon, .ok ()),
      (.startSubtask "task-1" "draft" (noon 2), .ok ()), (.completeSubtask "task-1" "draft" "done" none (noon 3), .ok ())]

theorem granted_wait_gives_input_drafted : drafted.waitForDependencies "task-1" "review" = some true ∧
    drafted.ShowsOutputs "task-1" "review" (((Op.startSubtask "task-1" "note" (noon 4)).run drafted
      (.ok ())).inputTextForSubtask (fun _ => "") (fun _ => "") "task-1" "review") := by
  have hwait : drafted.waitForDependencies "task-1" "review" = some true := by decide
  refine ⟨hwait, granted_wait_gives_input ⟨_, .memory false 1, calls_run _ _⟩ hwait ?_
    (.single (.call drafted (.startSubtask "task-1" "note" (noon 4)) (.ok ()) ⟨trivial, trivial⟩)) (by decide) _ _⟩
  intro t ht
  cases ht
  decide

/-- `ReassignSubtaskChecked` takes the ID of the new assignment over: the note becomes a second draft, which is not
completed, and the review that was allowed to start gets no input. -/
theorem granted_wait_without_input :
    let m := (Op.reassignSubtask "task-1" "note" { subtask := { id := "draft" } } (noon 4)).run drafted (.ok ())
    Reachable anything (.up drafted) ∧ drafted.waitForDependencies "task-1" "review" = some true ∧
      (m.tasks.get? "task-1").map Task.status = some .running ∧
      m.subtask? "task-1" "review" = drafted.subtask? "task-1" "review" ∧
      m.inputTextForSubtask (fun _ => "") (fun _ => "") "task-1" "review" = none :=
  ⟨⟨_, .memory false 1, calls_run _ _⟩, by decide, by decide, by decide, by decide⟩

end System

end Maistr0.Taskmgr
