import Maistr0.Orchestrator.Dispatcher
import Maistr0.Taskmgr.Finality

/-!
# A dispatch leaves an outcome behind

When `dispatchWithContext` returns, its subtask is neither pending nor running, unless the task itself is
over. Each exit but one records an outcome or follows one that was recorded: a win, a success that came too
late, a failure. The exception is the loop bound. A candidate that is moved on before a worker was asked
uses up an iteration too, and after the last one the loop ends with the subtask as the move left it.
-/

namespace Maistr0.Orchestrator

open Go Taskmgr Option

namespace Job

variable (job : Job)

def Ended (m : Manager) : Prop := System.Ended job.taskID job.subtaskID (.up m)

def Started (m : Manager) : Prop :=
  ∀ t, m.tasks.get? job.taskID = some t → ∀ e, t.ledger.entry? job.subtaskID = some e → e.status ≠ .pending

def Known (m : Manager) : Prop := ∃ t, m.tasks.get? job.taskID = some t

/-- The scheduler answers for the subtask it was asked about, and no candidate is moved on in the last
iteration of the loop before a worker was asked. -/
def Orderly : DispatchEvent → Prop
  | .quiet => True
  | .assigned candidate => candidate.subtaskID = job.subtaskID
  | .movedOn attempt candidate => candidate.subtaskID = job.subtaskID ∧ attempt + 1 < job.retryPolicy.maxAttempts
  | .called op => op.KeepsIDs

variable {job} {m m' : Manager}

theorem Ended.started (h : job.Ended m) : job.Started m := by
  intro t ht e he hpending
  have hactive := h t ht e he
  rw [hpending] at hactive
  cases hactive

theorem Ended.of_subtask {t : Taskmgr.Task} {r : SubtaskResult} (ht : m.tasks.get? job.taskID = some t)
    (hr : t.subtask? job.subtaskID = some r) (hactive : r.status.active = false) : job.Ended m := by
  intro t' ht' e he
  cases ht.symm.trans ht'
  rw [Task.entry?_ledger, hr] at he
  exact some.inj he ▸ hactive

theorem open_of_not_over (hlive : job.taskOver m = false) {t : Taskmgr.Task} (ht : m.tasks.get? job.taskID = some t) :
    t.status ≠ .failed ∧ t.status ≠ .cancelled := by
  simp only [taskOver, ht, any_some, decide_eq_false_iff_not, not_or] at hlive
  exact hlive.2

end Job

/-! ### What others leave alone -/

structure Kept (job : Job) (m m' : Manager) : Prop where
  known : job.Known m → job.Known m'
  started : job.Started m → job.Started m'
  ended : job.Ended m → job.Ended m'

namespace Kept

variable {job : Job} {m m' : Manager}

theorem of_same (h : m'.tasks.get? job.taskID = m.tasks.get? job.taskID) : Kept job m m' where
  known hknown := by rwa [Job.Known, h]
  started hstarted t ht := hstarted t (h ▸ ht)
  ended hended t ht := hended t (h ▸ ht)

theorem refl : Kept job m m := of_same rfl

theorem of_run (op : Op) (saved : Except String Unit) (hids : op.KeepsIDs) (hfresh : op.FreshID m)
    (hknown : job.Known m) (hlive : job.taskOver m = false) : Kept job m (op.run m saved) := by
  obtain ⟨_, ht⟩ := hknown
  have heffect := op.effect m saved
  have hstarted : job.Started m → job.Started (op.run m saved) := by
    intro hstarted t' ht' e' he'
    rcases heffect.task_cases hids ht' with hsame | ⟨t₀, ht₀, hstep⟩ | ⟨-, hnone⟩
    · exact hstarted t' hsame e' he'
    · exact hstep.entry?_started hids (Job.open_of_not_over hlive ht₀) (hstarted t₀ ht₀) he'
    · exact absurd (ht.symm.trans (hnone hfresh)) (by simp)
  refine ⟨fun _ => heffect.still_there ht, hstarted, fun hended => ?_⟩
  refine System.Ended.effect hids heffect hended ?_
  rintro ⟨t', e', ht', he', hpending⟩
  exact hstarted hended.started t' ht' e' he' hpending

end Kept

/-! ### One candidate -/

namespace Job

variable {job : Job} {m : Manager}

theorem started_of_begin {assignment : Assignment} {now : Instant} {saved : Except String Unit} {number : Int}
    (h : (m.beginDispatchAttemptChecked job.taskID job.subtaskID assignment now saved).1 = .ok number) : job.Started m := by
  unfold Manager.beginDispatchAttemptChecked at h
  intro t ht e he
  rw [ht] at h
  dsimp only at h
  rw [Task.entry?_ledger] at he
  cases hr : t.subtask? job.subtaskID with
  | none =>
    rw [hr] at he
    cases he
  | some r =>
    rw [hr] at he h
    dsimp only at h
    split at h
    · cases h
    rename_i hrunning
    obtain rfl : r.entry = e := some.inj he
    change r.status ≠ .pending
    rw [not_not.mp hrunning]
    decide

theorem ended_of_late {number : Int} {assignment : Option Assignment} {failureClass output : String} {httpStatus : Int}
    {duration : Duration} {now : Clocks} {saved : Except String Unit} {answer : (Bool × Except Failure Completion) × Manager}
    (h : m.completeDispatchAttemptWithAssignmentChecked job.taskID job.subtaskID number assignment failureClass httpStatus
      duration output now saved = answer)
    (hwon : answer.1.1 = false) (hrecorded : persistError answer.1.2 = none) (hstarted : job.Started m)
    (hlive : job.taskOver m = false) : job.Ended m := by
  subst h
  unfold Manager.completeDispatchAttemptWithAssignmentChecked at hwon hrecorded
  cases ht : m.tasks.get? job.taskID with
  | none =>
    rw [ht] at hrecorded
    cases hrecorded
  | some t =>
    rw [ht] at hwon hrecorded
    dsimp only at hwon hrecorded
    cases hr : t.subtask? job.subtaskID with
    | none =>
      rw [hr] at hrecorded
      cases hrecorded
    | some r =>
      rw [hr] at hwon hrecorded
      dsimp only at hwon hrecorded
      cases ha : Manager.attempt? r number with
      | none =>
        rw [ha] at hrecorded
        cases hrecorded
      | some a =>
        rw [ha] at hwon hrecorded
        dsimp only at hwon hrecorded
        split at hrecorded
        · cases hrecorded
        rename_i hattempt
        rw [if_neg hattempt] at hwon
        split at hrecorded
        · rename_i hlate
          have hrunning : r.status ≠ .running := by
            rcases hlate with hcancelled | hrunning
            · exact absurd hcancelled (open_of_not_over hlive ht).2
            · exact hrunning
          have hpending : r.status ≠ .pending := by
            apply hstarted t ht r.entry
            rw [Task.entry?_ledger, hr, map_some]
          apply Ended.of_subtask ht hr
          revert hrunning hpending
          cases r.status <;> simp [Status.active]
        · rename_i hlate
          rw [if_neg hlate] at hwon
          split at hrecorded
          · cases hrecorded
          rename_i heq
          rw [heq] at hwon
          cases hwon

theorem ended_of_complete (output : String) (taskErr : Option String) (now : Instant) (saved : Except String Unit)
    (hlive : job.taskOver m = false) :
    job.Ended (m.completeSubtaskChecked job.taskID job.subtaskID output taskErr now saved).2 := by
  unfold Manager.completeSubtaskChecked
  cases ht : m.tasks.get? job.taskID with
  | none =>
    intro t' ht'
    exact absurd (ht.symm.trans ht') (by simp)
  | some t =>
    dsimp only
    split
    · rename_i hdone
      have hfinished : Manager.subtaskFinished t job.subtaskID := hdone.resolve_left (open_of_not_over hlive ht).2
      obtain ⟨r, hr, hactive⟩ : ∃ r, t.subtask? job.subtaskID = some r ∧ r.active = false := by
        simpa [Manager.subtaskFinished, any_eq_true] using hfinished
      exact Ended.of_subtask ht hr hactive
    · intro t' ht' e he
      cases hr : t.subtask? job.subtaskID with
      | none =>
        unfold Manager.completeSubtaskLocked at ht'
        rw [hr] at ht'
        cases ht.symm.trans ht'
        rw [Task.entry?_ledger, hr] at he
        cases he
      | some =>
        rw [← show t.id = job.taskID from Lib.Keyed.keyOf_get? ht] at ht'
        rw [System.completeSubtaskLocked_recorded hr ht' he]
        cases taskErr <;> rfl

end Job

namespace Series

variable {job : Job} {m m' : Manager} {s s' : Series}

def Seen (job : Job) (m : Manager) : SeriesStage → Prop
  | .beginning _ won => won → job.Ended m
  | .calling _ won _ => job.Started m ∧ (won → job.Ended m)
  | .recording _ won _ _ => job.Started m ∧ (won → job.Ended m)
  | .finished result => result.err = none ∨ result.won → job.Ended m

structure Sound (job : Job) (m : Manager) (s : Series) : Prop where
  subtaskID : s.candidate.subtaskID = job.subtaskID
  seen : Seen job m s.stage

theorem Sound.kept (hkept : Kept job m m') (h : s.Sound job m) : s.Sound job m' := by
  refine ⟨h.subtaskID, ?_⟩
  have hseen := h.seen
  cases hstage : s.stage <;> rw [hstage] at hseen
  case beginning => exact fun hwon => hkept.ended (hseen hwon)
  case calling => exact ⟨hkept.started hseen.1, fun hwon => hkept.ended (hseen.2 hwon)⟩
  case recording => exact ⟨hkept.started hseen.1, fun hwon => hkept.ended (hseen.2 hwon)⟩
  case finished => exact fun hdone => hkept.ended (hseen hdone)

theorem sound_start {candidate : Candidate} (hid : candidate.subtaskID = job.subtaskID) : (start candidate).Sound job m :=
  ⟨hid, nofun⟩

theorem sound_next {validationAttempt : Nat} {cancelled : Bool} {result : CandidateDispatchResult}
    (hid : s.candidate.subtaskID = job.subtaskID) (h : result.err = none ∨ result.won → job.Ended m) :
    (s.next validationAttempt cancelled result).Sound job m := by
  unfold next
  split
  · exact ⟨hid, h⟩
  · exact ⟨hid, fun hwon => h (.inr hwon)⟩

end Series

namespace SeriesStep

variable {job : Job} {m m' : Manager} {s s' : Series}

theorem kept (h : SeriesStep job.taskID m s m' s') (hknown : job.Known m) (hlive : job.taskOver m = false) :
    Kept job m m' := by
  cases h with
  | begin | refused => exact .of_run (.beginDispatchAttempt ..) (.ok ()) trivial trivial hknown hlive
  | called => exact .refl
  | completed _ _ _ _ _ _ _ _ _ _ h =>
    subst h
    refine .of_run (.completeDispatchAttempt ..) (.ok ()) ?_ trivial hknown hlive
    rintro _ ⟨⟩
    rfl
  | failed | unrecorded => exact .of_run (.finishDispatchAttempt ..) (.ok ()) trivial trivial hknown hlive

/-- A series that reports a win, or no error, has seen the end of its subtask. -/
theorem sound (h : SeriesStep job.taskID m s m' s') (hs : s.Sound job m) (hknown : job.Known m)
    (hlive : job.taskOver m = false) : s'.Sound job m' := by
  have hkept := h.kept hknown hlive
  have hid := hs.subtaskID
  have hseen := (hs.kept hkept).seen
  have hbefore := hs.seen
  cases h with
  | begin _ _ _ _ hstage h =>
    rw [hid] at h
    rw [hstage] at hseen
    exact ⟨hid, hkept.started (Job.started_of_begin h), hseen⟩
  | refused _ _ _ _ hstage =>
    rw [hstage] at hseen
    refine ⟨hid, fun hdone => ?_⟩
    rcases hdone with hdone | hwon
    · cases hdone
    · exact hseen hwon
  | called _ _ _ _ hstage =>
    rw [hstage] at hseen
    exact ⟨hid, hseen⟩
  | completed _ _ number outcome output now _ answer hstage _ h =>
    rw [hstage] at hbefore
    rw [hid] at h
    refine Series.sound_next hid fun hdone => ?_
    cases hwon : answer.1.1 with
    | true =>
      subst h
      have hwins : Op.wins m (.ok ()) job.taskID job.subtaskID (.completeDispatchAttempt job.taskID job.subtaskID number
          (some s.candidate.assignment) "none" outcome.httpStatus outcome.duration output now) := by
        simpa [Op.wins] using hwon
      intro t' ht' e he
      rw [(System.wins_spec hwins).2 t' ht' e he]
      rfl
    | false =>
      rw [hwon] at hdone
      have hrecorded : persistError answer.1.2 = none := by simpa using hdone
      exact hkept.ended (Job.ended_of_late h hwon hrecorded hbefore.1 hlive)
  | failed _ _ _ _ _ _ _ _ hstage | unrecorded _ _ _ _ _ _ _ _ _ hstage =>
    rw [hstage] at hseen
    exact Series.sound_next hid fun hdone => hseen.2 (by simpa using hdone)

end SeriesStep

/-! ### The dispatch -/

def DispatchStage.Sound (job : Job) (m : Manager) : DispatchStage → Prop
  | .choosing attempt => attempt < job.retryPolicy.maxAttempts
  | .loop attempt current | .moving attempt current =>
    attempt < job.retryPolicy.maxAttempts ∧ current.subtaskID = job.subtaskID
  | .checking _ current | .reserving _ current | .startingSubtask _ current | .reading _ current =>
    current.subtaskID = job.subtaskID
  | .executing _ primary secondary => primary.Sound job m ∧ ∀ s ∈ secondary, s.Sound job m
  | .sleeping attempt _ => attempt + 1 < job.retryPolicy.maxAttempts
  | .returned => job.Ended m
  | .starting | .awaitingDependencies | .counting | .ejected _ | .unreserved _ _ | .failed _ _ _ | .completing _ => True

variable {m : Manager}

theorem DispatchStage.Sound.kept {job : Job} {m' : Manager} {stage : DispatchStage} (hkept : Kept job m m')
    (h : stage.Sound job m) : stage.Sound job m' := by
  cases stage with
  | executing => exact ⟨h.1.kept hkept, fun s hs => (h.2 s hs).kept hkept⟩
  | returned => exact hkept.ended h
  | _ => exact h

theorem ended_of_decided {job : Job} {p : Series} {s : Option Series} {primary : CandidateDispatchResult}
    {secondary : Option CandidateDispatchResult} (hp : p.Sound job m) (hs : ∀ q ∈ s, q.Sound job m)
    (hprimary : p.stage = .finished primary) (hsecondary : s.map Series.stage = secondary.map SeriesStage.finished)
    (h : (hedgedResult primary secondary).err = none ∨ (hedgedResult primary secondary).won) : job.Ended m := by
  have hseen : primary.err = none ∨ primary.won → job.Ended m := by
    have := hp.seen
    rwa [hprimary] at this
  unfold hedgedResult at h
  split at h
  · exact hseen h
  cases secondary with
  | none => exact hseen h
  | some r =>
    dsimp only at h
    split at h
    · rename_i hwon
      obtain ⟨q, rfl, hq⟩ := map_eq_some_iff.mp hsecondary
      have hqseen := (hs q rfl).seen
      rw [hq] at hqseen
      exact hqseen (.inr hwon)
    · exact hseen h

namespace DispatchStep

variable {job : Job} {m m' : Manager} {ctxErr : Option String} {stage stage' : DispatchStage} {e : DispatchEvent}

section

variable (hstep : DispatchStep job m ctxErr stage e m' stage')

include hstep

theorem kept (hstage : stage.Sound job m) (hknown : stage ≠ .starting → job.Known m) (hlive : job.taskOver m = false) :
    Kept job m m' := by
  cases hstep with
  | startRefused | started => exact .of_run (.startSubtask ..) (.ok ()) trivial trivial (hknown nofun) hlive
  | primary _ _ _ _ _ h | secondary _ _ _ _ _ h => exact h.kept (hknown nofun) hlive
  | moveRefused | moved => exact .of_run (.reassignSubtask ..) (.ok ()) hstage.2 trivial (hknown nofun) hlive
  | completed => exact .of_run (.completeSubtask ..) (.ok ()) trivial trivial (hknown nofun) hlive
  | _ => exact .refl

theorem sound (horderly : job.Orderly e) (hstage : stage.Sound job m) (hknown : stage ≠ .starting → job.Known m)
    (hlive : job.taskOver m = false) :
    stage'.Sound job m' := by
  have hkept := hstep.kept hstage hknown hlive
  cases hstep with
  | unknownTask h =>
    intro t ht
    exact absurd (h.symm.trans ht) (by simp)
  | tried h => exact h
  | untried h => exact ⟨h, rfl⟩
  | chosen | retry => exact ⟨hstage, horderly⟩
  | loopDone => exact absurd hstage.1 (by omega)
  | loopBody => exact hstage.2
  | healthy => exact hstage
  | reserved => exact hstage
  | started => exact hstage
  | moved => exact hstage
  | ejectedTo => exact horderly.symm
  | unreservedTo => exact horderly.symm
  | input => exact ⟨Series.sound_start hstage, nofun⟩
  | primary _ _ _ _ _ h =>
    exact ⟨h.sound hstage.1 (hknown nofun) hlive, fun q hq => (hstage.2 q hq).kept hkept⟩
  | hedge =>
    refine ⟨hstage.1, ?_⟩
    rintro q ⟨⟩
    exact Series.sound_start horderly
  | secondary _ _ s _ _ h =>
    refine ⟨hstage.1.kept hkept, ?_⟩
    rintro _ ⟨⟩
    exact h.sound (hstage.2 s rfl) (hknown nofun) hlive
  | decided _ _ _ _ _ hprimary hsecondary h =>
    exact ended_of_decided hstage.1 hstage.2 hprimary hsecondary h
  | backOff _ _ _ h =>
    simp only [DispatchRetryPolicy.canRetry, Bool.and_eq_true, decide_eq_true_eq] at h
    exact h.1.2
  | completed failure now => exact Job.ended_of_complete "" (some failure) now (.ok ()) hlive
  | _ => trivial

theorem ne_returned : stage ≠ .returned := by
  rintro rfl
  cases hstep

theorem known (hkept : Kept job m m') (hknown : stage ≠ .starting → job.Known m) :
    stage' ≠ .starting ∧ (stage' = .returned ∨ job.Known m') := by
  cases hstep with
  | unknownTask => exact ⟨nofun, .inl rfl⟩
  | found t h => exact ⟨nofun, .inr ⟨t, h⟩⟩
  | _ => exact ⟨nofun, .inr (hkept.known (hknown nofun))⟩

end

end DispatchStep

namespace Dispatch

variable {job : Job} {d d' : Dispatch}

structure Sound (job : Job) (d : Dispatch) : Prop where
  live : job.taskOver d.m = false
  known : d.stage = .starting ∨ d.stage = .returned ∨ job.Known d.m
  stage : d.stage.Sound job d.m

theorem Sound.found (h : d.Sound job) (hreturned : d.stage ≠ .returned) (hstarting : d.stage ≠ .starting) :
    job.Known d.m := (h.known.resolve_left hstarting).resolve_left hreturned

theorem Step.sound {e : DispatchEvent} (hstep : Step job d e d') (horderly : job.Orderly e)
    (h : d.closed = false → d.Sound job) (hclosed : d'.closed = false) : d'.Sound job := by
  cases hstep with
  | own _ m stage hown =>
    obtain ⟨hbefore, hlive⟩ : d.closed = false ∧ job.taskOver m = false := by simpa [goto] using hclosed
    have hs := h hbefore
    have hknown := hs.found hown.ne_returned
    obtain ⟨-, hfound⟩ := hown.known (hown.kept hs.stage hknown hs.live) hknown
    exact ⟨hlive, .inr hfound, hown.sound horderly hs.stage hknown hs.live⟩
  | cancelled =>
    have hs := h hclosed
    exact ⟨hs.live, hs.known, hs.stage⟩
  | others op saved hreturned hfresh =>
    obtain ⟨hbefore, hlive⟩ : d.closed = false ∧ job.taskOver (op.run d.m saved) = false := by simpa [goto] using hclosed
    have hs := h hbefore
    by_cases hstarting : d.stage = .starting
    · refine ⟨hlive, .inl hstarting, ?_⟩
      rw [hstarting]
      trivial
    · have hknown := hs.found hreturned hstarting
      have hkept := Kept.of_run op saved horderly hfresh hknown hs.live
      exact ⟨hlive, .inr (.inr (hkept.known hknown)), hs.stage.kept hkept⟩
  | elsewhere m _ htask =>
    have hs := h hclosed
    have hkept : Kept job d.m m := .of_same htask
    refine ⟨?_, hs.known.imp_right (Or.imp_right hkept.known), hs.stage.kept hkept⟩
    rw [Job.taskOver, htask]
    exact hs.live
  | replaced => cases hclosed

theorem Run.sound (hrun : Run job job.Orderly (start job m) d) (hclosed : d.closed = false) : d.Sound job := by
  induction hrun with
  | refl => exact ⟨hclosed, .inl rfl, trivial⟩
  | tail _ hstep ih =>
    obtain ⟨_, hstep, horderly⟩ := hstep
    exact hstep.sound horderly ih hclosed

/-- When the dispatch returns, the subtask is neither pending nor running, or the task has been cancelled, has
settled or was replaced. -/
theorem returns_with_outcome {m : Manager} (hrun : Run job job.Orderly (start job m) d) (hreturned : d.stage = .returned) :
    job.Ended d.m ∨ d.closed = true := by
  cases hclosed : d.closed with
  | true => exact .inr rfl
  | false =>
    have hstage := (hrun.sound hclosed).stage
    rw [hreturned] at hstage
    exact .inl hstage

def onNode (nodeID : String) : Candidate := { assignment := { subtask := { id := "s1" }, nodeID } }

def firstOfTwo : Job := { taskID := "task-1", assignment := onNode "n0" }

def twoSubtasks : Manager :=
  (Op.create "report" [(onNode "n0").assignment, { subtask := { id := "s2" } }] false System.noon).run
    (newManager none false 1) (.ok ())

/-- The worker answers, its attempt wins and the dispatch returns. -/
theorem returns_with_outcome_won :
    ∃ d, Run firstOfTwo firstOfTwo.Orderly (start firstOfTwo twoSubtasks) d ∧ d.stage = .returned ∧ d.closed = false ∧
      (firstOfTwo.Ended d.m ∨ d.closed = true) := by
  have hrun : Run firstOfTwo firstOfTwo.Orderly (start firstOfTwo twoSubtasks) _ := .refl
  have hrun := hrun.tail ⟨_, .own _ _ _ (.found _ rfl), trivial⟩
  have hrun := hrun.tail ⟨_, .own _ _ _ (.ready rfl rfl), trivial⟩
  have hrun := hrun.tail ⟨_, .own _ _ _ (.untried (by decide) (by decide)), trivial⟩
  have hrun := hrun.tail ⟨_, .own _ _ _ (.loopBody _ _ (by decide) rfl), trivial⟩
  have hrun := hrun.tail ⟨_, .own _ _ _ (.healthy _ _ (Lib.Keyed.put ∅ { id := "n0", address := "" }) _ rfl), trivial⟩
  have hrun := hrun.tail ⟨_, .own _ _ _ (.reserved _ _), trivial⟩
  have hrun := hrun.tail ⟨_, .own _ _ _ (.started _ _ (System.noon 1) rfl), trivial⟩
  have hrun := hrun.tail ⟨_, .own _ _ _ (.input _ _ rfl), trivial⟩
  have hrun := hrun.tail ⟨_, .own _ _ _ (.primary _ _ _ _ _ (.begin _ _ _ (System.noon 2) rfl rfl)), trivial⟩
  have hrun := hrun.tail ⟨_, .own _ _ _ (.primary _ _ _ _ _ (.called _ _ _
    { result := .ok "done", failureClass := "", httpStatus := 200, duration := 0 } rfl)), trivial⟩
  have hrun := hrun.tail ⟨_, .own _ _ _ (.primary _ _ _ _ _ (.completed _ _ _ _ _ System.noon false _ rfl rfl rfl)), trivial⟩
  have hrun := hrun.tail ⟨_, .own _ _ _ (.decided _ _ _ _ none rfl rfl (.inr rfl)), trivial⟩
  exact ⟨_, hrun, rfl, rfl, returns_with_outcome hrun rfl⟩

/-- An iteration in which the node is found unhealthy and the scheduler has another. -/
theorem Run.ejected {attempt : Nat} {current : Candidate}
    (hrun : Run job (fun _ => True) d ⟨m, .loop attempt current, none, false⟩) (retry : Candidate) (now : Instant)
    (h : attempt < job.retryPolicy.maxAttempts) (hlive : job.taskOver m = false)
    (hmoved : (m.reassignSubtaskChecked job.taskID job.subtaskID retry.assignment now (.ok ())).1 = .ok ())
    (hlive' : job.taskOver (m.reassignSubtaskChecked job.taskID job.subtaskID retry.assignment now (.ok ())).2 = false) :
    Run job (fun _ => True) d ⟨(m.reassignSubtaskChecked job.taskID job.subtaskID retry.assignment now (.ok ())).2,
      .loop (attempt + 1) retry, none, false⟩ := by
  have hgoto : ∀ (m m' : Manager) (stage stage' : DispatchStage), job.taskOver m' = false →
      goto ⟨m, stage, none, false⟩ job m' stage' = ⟨m', stage', none, false⟩ := by
    intro m m' stage stage' hlive
    rw [goto, hlive]
    rfl
  have hrun := hrun.tail ⟨_, .own _ _ _ (.loopBody _ _ h rfl), trivial⟩
  rw [hgoto _ _ _ _ hlive] at hrun
  have hrun := hrun.tail ⟨_, .own _ _ _ (.unhealthy _ _ ∅ rfl), trivial⟩
  rw [hgoto _ _ _ _ hlive] at hrun
  have hrun := hrun.tail ⟨_, .own _ _ _ (.ejectedTo _ retry rfl), trivial⟩
  rw [hgoto _ _ _ _ hlive] at hrun
  have hrun := hrun.tail ⟨_, .own _ _ _ (.moved _ _ now hmoved), trivial⟩
  rw [hgoto _ _ _ _ hlive'] at hrun
  exact hrun

/-- Five times in a row the node is found unhealthy and the scheduler has another: the loop is over, no worker was
asked, and the subtask is still waiting to be started. -/
theorem returns_without_outcome :
    ∃ d, Run firstOfTwo (fun _ => True) (start firstOfTwo twoSubtasks) d ∧ d.stage = .returned ∧
      ¬ (firstOfTwo.Ended d.m ∨ d.closed = true) := by
  have hrun : Run firstOfTwo (fun _ => True) (start firstOfTwo twoSubtasks) _ := .refl
  have hrun := hrun.tail ⟨_, .own _ _ _ (.found _ rfl), trivial⟩
  have hrun := hrun.tail ⟨_, .own _ _ _ (.ready rfl rfl), trivial⟩
  have hrun := hrun.tail ⟨_, .own _ _ _ (.untried (by decide) (by decide)), trivial⟩
  have hrun : Run firstOfTwo (fun _ => True) (start firstOfTwo twoSubtasks) ⟨twoSubtasks, .loop 0 (onNode "n0"), none, false⟩ := hrun
  have hrun := hrun.ejected (onNode "n1") (System.noon 1) (by decide) rfl rfl rfl
  have hrun := hrun.ejected (onNode "n2") (System.noon 2) (by decide) rfl rfl rfl
  have hrun := hrun.ejected (onNode "n3") (System.noon 3) (by decide) rfl rfl rfl
  have hrun := hrun.ejected (onNode "n4") (System.noon 4) (by decide) rfl rfl rfl
  have hrun := hrun.ejected (onNode "n5") (System.noon 5) (by decide) rfl rfl rfl
  have hrun := hrun.tail ⟨_, .own _ _ _ (.loopDone _ _ (by decide)), trivial⟩
  refine ⟨_, hrun, rfl, ?_⟩
  rintro (hended | hclosed)
  · exact absurd (hended _ rfl _ rfl) (by decide)
  · cases hclosed

end Dispatch

end Maistr0.Orchestrator
