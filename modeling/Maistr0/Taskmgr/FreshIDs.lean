import Maistr0.Taskmgr.Sequences

/-!
# IDs of new tasks

The counter behind the IDs is not saved. A restart reads it off the stored IDs, and a batch raises it over the IDs it
brings, but `taskSequence` reads only numbers of 32 bits while `genID` writes larger ones too.
-/

namespace Maistr0.Taskmgr

open Go List Lib.Keyed

/-! ### Numbers and IDs -/

theorem digit_letter : ∀ d < 36, digit (letter d) = some d ∧ letter d ≠ '-' ∧ letter d ≠ '+' := by decide

theorem mapM_digit_letter {ds : List Nat} (h : ∀ d ∈ ds, d < 36) : (ds.map letter).mapM digit = some ds := by
  induction ds with
  | nil => rfl
  | cons d _ ih =>
    rw [map_cons, mapM_cons, (digit_letter d (h d mem_cons_self)).1, ih (forall_mem_cons.mp h).2]
    rfl

theorem parseInt_letters {ds : List Nat} (hne : ds ≠ []) (h : ∀ d ∈ ds, d < 36) :
    parseInt (ds.map letter) = if ds.foldl (fun acc d => acc * 36 + d) 0 < 2 ^ 31 then
      some ((ds.foldl (fun acc d => acc * 36 + d) 0 : Nat) : Int) else none := by
  obtain ⟨d, _, rfl⟩ := exists_cons_of_ne_nil hne
  obtain ⟨-, hminus, hplus⟩ := digit_letter d (h d mem_cons_self)
  have hvalues := mapM_digit_letter h
  rw [map_cons] at hvalues ⊢
  simp only [parseInt]
  split
  · rename_i heq
    exact absurd (cons.inj heq).1 hminus
  · rename_i heq
    exact absurd (cons.inj heq).1 hplus
  · simp only [reduceCtorEq, if_false, hvalues, Option.bind_eq_bind, Option.bind_some, Bool.false_eq_true]

theorem taskSequence_genID {n : Int} (hpos : 0 < n) : taskSequence (genID n) = if n < 2 ^ 31 then n else 0 := by
  have hne : (Nat.digits 36 n.toNat).reverse ≠ [] := by simp [Nat.digits_ne_nil_iff_ne_zero]; omega
  have hvalue : (Nat.digits 36 n.toNat).reverse.foldl (fun acc d => acc * 36 + d) 0 = n.toNat := by
    rw [foldl_reverse]
    calc _ = Nat.ofDigits 36 (Nat.digits 36 n.toNat) := by
          rw [Nat.ofDigits_eq_foldr]
          congr 1
          funext x y
          push_cast
          ring
      _ = n.toNat := Nat.ofDigits_digits 36 _
  have hparse := parseInt_letters hne fun d hd => Nat.digits_lt_base (by decide) (mem_reverse.mp hd)
  rw [hvalue] at hparse
  have hid : (genID n).toList = "task-".toList ++ (Nat.digits 36 n.toNat).reverse.map letter := by
    simp [genID, hpos.ne']
  rw [taskSequence, hasPrefix, hid, if_pos (by simp)]
  show (parseInt ((Nat.digits 36 n.toNat).reverse.map letter)).getD 0 = _
  rw [hparse]
  by_cases hlt : n < 2 ^ 31
  · rw [if_pos hlt, if_pos (by omega)]
    exact Int.toNat_of_nonneg hpos.le
  · rw [if_neg hlt, if_neg (by omega)]
    rfl

/-! ### The counter -/

def Manager.Numbered (m : Manager) : Prop := 0 ≤ m.seq ∧ ∀ t ∈ m.tasks.vals, taskSequence t.id ≤ m.seq

namespace Manager

variable {m m' : Manager} {t : Task}

section

variable (h : m.Numbered)

include h

theorem Numbered.put (hle : m.seq ≤ m'.seq) (ht : taskSequence t.id ≤ m'.seq) (htasks : m'.tasks = m.tasks.put t) :
    m'.Numbered := by
  refine ⟨h.1.trans hle, ?_⟩
  rw [htasks]
  exact forall_mem_put (fun x hx => (h.2 x hx).trans hle) ht

/-- Below the limit of `taskSequence` no task holds the ID that comes next. -/
theorem Numbered.fresh (hlt : m.seq + 1 < 2 ^ 31) : m.tasks.get? (genID (m.seq + 1)) = none := by
  have hpos := h.1
  cases hget : m.tasks.get? (genID (m.seq + 1)) with
  | none => rfl
  | some t =>
    obtain ⟨ht, hid⟩ := get?_eq_some.mp hget
    have hle := h.2 t ht
    rw [hid, taskSequence_genID (by omega), if_pos hlt] at hle
    omega

theorem Numbered.adopt (mode : SyncMode) (incoming : Task) (now : Instant) (saved : Except String Unit) :
    (m.adopt mode incoming now saved).2.Numbered := by
  unfold Manager.adopt
  dsimp only
  generalize hstamp : (if (mode.mergeReplicas && (m.tasks.get? incoming.id).isNone && (cloneTask incoming).inProgress) = true
    then _ else _ : Task × Manager) = p
  have hp : p.2.Numbered := by
    subst hstamp
    split <;> exact h
  have hsaved : (p.2.saveTaskAndCheckpointLocked p.1 saved).2.2.Numbered := by
    rw [(p.2.saveTaskAndCheckpointLocked_copy p.1 saved).2.2]
    exact hp
  generalize p.2.saveTaskAndCheckpointLocked p.1 saved = result at hsaved
  rcases result with ⟨_ | _, t, m'⟩
  · exact hsaved
  · exact hsaved.put (le_max_left _ _) (le_max_right _ _) rfl

theorem Numbered.syncTask (mode : SyncMode) (incoming : Task) (accepted : Bool) (now : Instant)
    (saved : Except String Unit) : (m.syncTask mode incoming accepted now saved).2.Numbered := by
  have hstamp : (m.stampIncoming incoming mode.origin).2.Numbered := by
    unfold stampIncoming
    split <;> exact h
  unfold Manager.syncTask
  split
  · exact h
  dsimp only
  split
  · exact hstamp
  · exact hstamp.adopt mode _ now saved

theorem Numbered.syncTasksFrom (mode : SyncMode) (batch : List (Task × Bool)) (now : Clocks)
    (saves : Nat → Except String Unit) : (m.syncTasksFrom mode batch now saves).2.Numbered := by
  induction batch generalizing m now saves with
  | nil => exact h
  | cons entry _ ih =>
    have hone := h.syncTask mode entry.1 entry.2 (now 0) (saves 0)
    rw [syncTasksFrom]
    generalize m.syncTask mode entry.1 entry.2 (now 0) (saves 0) = result at hone
    rcases result with ⟨_ | _, m'⟩
    · exact hone
    · exact ih hone _ _

end

theorem seq_loadTask (m : Manager) (t : Task) (now : LoadClock) :
    (m.loadTask t now).2.seq = max m.seq (taskSequence t.id) := by
  have hstamp : (m.loadStamp t).2.seq = m.seq := by
    unfold loadStamp
    split <;> rfl
  unfold loadTask
  dsimp only
  split
  · exact congrArg (max · _) hstamp
  · split <;> exact congrArg (max · _) hstamp

theorem seq_loadTasks {tasks : List Task} {now : Nat → LoadClock} {loaded : List Loaded}
    (h : m.loadTasks tasks now = .ok (loaded, m')) : m.seq ≤ m'.seq ∧ ∀ t ∈ tasks, taskSequence t.id ≤ m'.seq := by
  induction tasks generalizing m now loaded with
  | nil =>
    obtain ⟨-, rfl⟩ := Prod.mk.inj (Except.ok.inj h)
    exact ⟨le_rfl, nofun⟩
  | cons t rest ih =>
    unfold loadTasks at h
    split at h
    · cases h
    dsimp only at h
    cases hrest : (m.loadTask t (now 0)).2.loadTasks rest fun i => now (i + 1) with
    | error =>
      rw [hrest] at h
      cases h
    | ok =>
      rw [hrest] at h
      obtain ⟨-, rfl⟩ := Prod.mk.inj (Except.ok.inj h)
      obtain ⟨hseq, hall⟩ := ih hrest
      rw [seq_loadTask, max_le_iff] at hseq
      exact ⟨hseq.1, forall_mem_cons.mpr ⟨hseq.2, hall⟩⟩

theorem numbered_open {store : Tasks} {tasks : List Task} (htasks : tasks.Perm store.vals) {finalizer : Bool} {own : String}
    {managerSyncID : Nat} {now : Nat → LoadClock} {saves : Nat → Except String Unit}
    (h : openManagerWithOrigin store tasks finalizer own managerSyncID now saves = (.ok (), m)) : m.Numbered := by
  obtain ⟨m₀, hempty, hopen⟩ : ∃ m₀ : Manager, (m₀.tasks = ∅ ∧ m₀.seq = 0 ∧ m₀.store = some store) ∧
      m₀.load tasks now saves = (.ok (), m) := by
    refine ⟨_, ?_, h⟩
    split <;> exact ⟨rfl, rfl, rfl⟩
  rcases m₀.load_run ((htasks.map Task.id).nodup_iff.mpr store.nodup) hempty.2.2 now saves with
    ⟨err, hload⟩ | ⟨loaded, m₁, s', hrun⟩
  · cases hload.symm.trans hopen
  rw [hopen] at hrun
  obtain ⟨hseq, hall⟩ := seq_loadTasks hrun.loads
  have hsame : m.seq = m₁.seq := (congrArg seq hrun.second.frame :)
  refine ⟨by rw [hsame, ← hempty.2.1]; exact hseq, fun t' ht' => ?_⟩
  obtain ⟨t, ht, -, -, -, -, -, -, hid, -⟩ := hrun.origin_of_task hempty.1 ht'
  rw [hsame, ← hid]
  exact hall t ht

end Manager

namespace Act

def FreshID (m : Manager) : Act → Prop
  | call op => op.FreshID m
  | sync _ _ _ _ => True

/-- The number of a new task is one that `taskSequence` can read. -/
def Readable (m : Manager) : Act → Prop
  | call (.create _ _ _ _) => m.seq + 1 < 2 ^ 31
  | _ => True

theorem numbered {m : Manager} (h : m.Numbered) (a : Act) : (a.run m).Numbered := by
  cases a with
  | sync _ mode _ now => exact h.syncTasksFrom mode _ now _
  | call op =>
    cases op.effect m (.ok ()) with
    | refused heq | configured _ heq =>
      rw [run, heq]
      exact h
    | updated t _ t' _ ht hu hcommit heq =>
      rw [run, heq]
      refine h.put hcommit.seq.ge ?_ (congrArg (put · t') hcommit.tasks)
      rw [hcommit.same.id, hu.id]
      exact (h.2 t (get?_eq_some.mp ht).1).trans hcommit.seq.ge
    | uncommitted t _ ht ht' _ _ heq =>
      rw [run, heq]
      exact h.put le_rfl (ht'.id ▸ h.2 t (get?_eq_some.mp ht).1) rfl
    | created _ t' m₁ hid _ _ _ hcommit hcases =>
      have hseq : m.seq ≤ m₁.seq := by rw [hcommit.seq]; exact (Int.lt_succ _).le
      have hle : taskSequence t'.id ≤ m₁.seq := by
        have hpos := h.1
        rw [hcommit.same.id, hid, taskSequence_genID (by omega), hcommit.seq]
        split
        · exact le_rfl
        · exact hpos.trans (Int.lt_succ _).le
      rcases hcases with ⟨-, heq⟩ | ⟨⟨err, herr⟩, -⟩
      · rw [run, heq]
        exact h.put hseq hle (congrArg (put · t') hcommit.tasks)
      · cases herr

end Act

namespace Node

theorem Reached.numbered {own : String} {n : Node} (h : Reached anyHistory own n) : n.manager.Numbered := by
  induction h with
  | opened _ _ _ _ hopen => exact Manager.numbered_open (.refl _) hopen
  | step _ hstep ih =>
    cases hstep with
    | act a => exact Act.numbered ih a
    | restart _ _ _ _ _ _ _ _ htasks hopen => exact Manager.numbered_open htasks hopen

/-- In every history, a new task whose number `taskSequence` can read takes an ID that is not in use. -/
theorem new_id_fresh {own : String} {n : Node} (h : Reached anyHistory own n) {a : Act} (ha : a.Readable n.manager) :
    a.FreshID n.manager := by
  cases a with
  | sync => trivial
  | call op =>
    cases op with
    | create => exact h.numbered.fresh ha
    | _ => trivial

theorem new_id_fresh_reopened : Reached anyHistory "task:node" (reopened firstTask) ∧
    createTask.FreshID (reopened firstTask).manager := by
  have hreached : Reached anyHistory "task:node" (reopened firstTask) :=
    .step (firstTask_reached trivial) (reopened_step firstTask rfl trivial rfl)
  exact ⟨hreached, new_id_fresh hreached (show (1 : Int) + 1 < 2 ^ 31 by decide)⟩

def peerTask : Act :=
  .sync [{ id := "task-zik0zj", origin := "task:peer", sequence := 1, status := .completed }] ⟨true, false, "task:peer"⟩
    System.noon System.noon

def pastReading : Node := { manager := createTask.run (peerTask.run System.emptyNode), past := [] }

/-- The number of the local task cannot be read after a restart, and the next task takes its ID. -/
theorem new_id_taken : Reached anyHistory "task:node" (reopened pastReading) ∧
    (reopened pastReading).manager.tasks.vals.map Task.id = ["task-zik0zk", "task-zik0zj"] ∧
    genID ((reopened pastReading).manager.seq + 1) = "task-zik0zk" ∧
    (createTask.run (reopened pastReading).manager).tasks.vals.map Task.id = ["task-zik0zk", "task-zik0zj"] := by
  have hreached : Reached anyHistory "task:node" pastReading :=
    .step (.step (.opened false 1 System.loadClock System.emptyNode rfl) (.act _ peerTask trivial)) (.act _ createTask trivial)
  exact ⟨.step hreached (reopened_step pastReading rfl trivial rfl), by decide +kernel, by decide +kernel, by decide +kernel⟩

end Node

end Maistr0.Taskmgr
