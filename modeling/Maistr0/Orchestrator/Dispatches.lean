import Maistr0.Orchestrator.Attempts

/-!
# The dispatches of one subtask

A subtask is dispatched once when its task is created and again each time the task is resumed, and nothing
waits for the dispatch before. Each runs `dispatchWithContext` with its own context and its own record of
the pairs it has tried; they share the manager, and so does everybody else.

What the scheduler is offered is computed from that record; which of it the scheduler takes is free. The
saves of a dispatch may fail. `starts` is history: the pairs on which a series of the subtask was started,
which it is once its first attempt is on record.
-/

namespace Maistr0.Orchestrator

open Go Taskmgr Relation List Function Manager Option

/-! ### What the scheduler is offered -/

namespace Candidate

def pair (c : Candidate) : String × String := (c.assignment.nodeID, c.assignment.model)

def key (c : Candidate) : String := routerPairKey c.assignment.nodeID c.assignment.model

end Candidate

structure SchedulerNode where
  id : String
  models : List String
deriving DecidableEq

/-- What `retryAssignment` offers: the nodes with the models that are not excluded. -/
def retryNodes (excluded : List String) (nodes : List SchedulerNode) : List SchedulerNode :=
  nodes.filterMap fun node =>
    let models := node.models.filter fun model => routerPairKey node.id model ∉ excluded
    if models = [] then none else some { node with models }

/-- What `hedgeAssignment` offers: the same without the node of the primary candidate. -/
def hedgeNodes (primary : Candidate) (alreadyTried : List String) (nodes : List SchedulerNode) : List SchedulerNode :=
  retryNodes alreadyTried (nodes.filter fun node => node.id ≠ primary.assignment.nodeID)

def Assigns (nodes : List SchedulerNode) (c : Candidate) : Prop :=
  ∃ node ∈ nodes, node.id = c.assignment.nodeID ∧ c.assignment.model ∈ node.models

variable {c : Candidate} {stage : DispatchStage} {attempt : Nat}

theorem Assigns.fresh {excluded : List String} {nodes : List SchedulerNode}
    (h : Assigns (retryNodes excluded nodes) c) : c.key ∉ excluded := by
  obtain ⟨_, hnode, hid, hmodel⟩ := h
  obtain ⟨_, -, hoffered⟩ := mem_filterMap.mp hnode
  dsimp only at hoffered
  split at hoffered
  · cases hoffered
  obtain rfl := some.inj hoffered
  have hkey := (mem_filter.mp hmodel).2
  rw [Candidate.key, ← hid]
  simpa using hkey

/-! ### One dispatch -/

/-- A call of `dispatchWithContext`: where it is, and the local variables that its choices depend on. -/
structure DispatchFrame where
  stage : DispatchStage := .starting
  ctxErr : Option String := none
  alreadyTried : List String := []
  current : Option Candidate := none
  attempted : List Candidate := []

/-- Both stages belong to one call of `executeCandidateWithHedge`. -/
def DispatchStage.executes : DispatchStage → Bool
  | .executing _ _ _ => true
  | _ => false

namespace SeriesEvent

def start (e : SeriesEvent) (s : Series) : Option (String × String) :=
  match e with
  | .begun 0 _ => some s.candidate.pair
  | _ => none

def attempted (e : SeriesEvent) (s : Series) : List Candidate :=
  match e with
  | .begun _ true => [s.candidate]
  | _ => []

end SeriesEvent

namespace DispatchFrame

def goto (d : DispatchFrame) (job : Job) (m : Manager) (stage : DispatchStage) : DispatchFrame :=
  match d.stage, stage with
  | .counting, .choosing _ | .counting, .loop _ _ =>
    { d with stage, alreadyTried := (m.pairs job.taskID job.subtaskID).map fun pair => routerPairKey pair.1 pair.2 }
  | .checking _ current, .ejected _ | .reserving _ current, .unreserved _ _ =>
    { d with stage, alreadyTried := current.key :: d.alreadyTried }
  | .reading _ _, .executing _ _ _ => { d with stage, attempted := [] }
  | .executing _ primary _, .failed _ _ _ =>
    { d with
      stage
      alreadyTried := d.attempted.map Candidate.key ++ d.alreadyTried
      current := some primary.candidate }
  | .failed _ _ _, .sleeping _ _ =>
    { d with stage, alreadyTried := d.current.toList.map Candidate.key ++ d.alreadyTried }
  | _, _ => { d with stage }

def Offers (d : DispatchFrame) (job : Job) (c : Candidate) : Prop :=
  c.subtaskID = job.subtaskID ∧ c.maxRetries = job.assignment.maxRetries ∧ ∃ nodes, match d.stage with
      | .executing _ primary _ => Assigns (hedgeNodes primary.candidate d.alreadyTried nodes) c
      | _ => Assigns (retryNodes d.alreadyTried nodes) c

def Answers (d : DispatchFrame) (job : Job) : DispatchEvent → Prop
  | .assigned c | .movedOn _ c => d.Offers job c
  | _ => True

/-- A step of a dispatch when the store answers `saved` to what it writes, and the series that it starts. -/
inductive Step (job : Job) (m : Manager) (saved : Except String Unit) (d : DispatchFrame) :
    Option (String × String) → Manager → DispatchFrame → Prop
  | turn (e : DispatchEvent) (m' : Manager) (stage : DispatchStage) (h : DispatchStep job m d.ctxErr d.stage e m' stage)
      (hsaved : saved = .ok ()) (hanswers : d.Answers job e)
      (hseries : d.stage.executes → stage.executes → e ≠ .quiet) : Step job m saved d none m' (d.goto job m stage)
  | startUnsaved (attempt : Nat) (current : Candidate) (failure : Failure) (now : Instant)
      (hstage : d.stage = .startingSubtask attempt current)
      (h : (m.startSubtaskChecked job.taskID job.subtaskID now saved).1 = .error failure) :
      Step job m saved d none (m.startSubtaskChecked job.taskID job.subtaskID now saved).2
        { d with stage := .completing failure.text }
  | moveUnsaved (attempt : Nat) (retry : Candidate) (failure : Failure) (now : Instant)
      (hstage : d.stage = .moving attempt retry)
      (h : (m.reassignSubtaskChecked job.taskID job.subtaskID retry.assignment now saved).1 = .error failure) :
      Step job m saved d none (m.reassignSubtaskChecked job.taskID job.subtaskID retry.assignment now saved).2
        { d with stage := .completing failure.text }
  | completeUnsaved (failure : String) (now : Instant) (hstage : d.stage = .completing failure) :
      Step job m saved d none (m.completeSubtaskChecked job.taskID job.subtaskID "" (some failure) now saved).2
        { d with stage := .returned }
  | primary (attempt : Nat) (p p' : Series) (s : Option Series) (e : SeriesEvent) (m' : Manager)
      (hstage : d.stage = .executing attempt p s) (h : SeriesMove job.taskID saved m p e m' p') :
      Step job m saved d (e.start p) m'
        { d with stage := .executing attempt p' s, attempted := e.attempted p ++ d.attempted }
  | secondary (attempt : Nat) (p s s' : Series) (e : SeriesEvent) (m' : Manager)
      (hstage : d.stage = .executing attempt p (some s)) (h : SeriesMove job.taskID saved m s e m' s') :
      Step job m saved d (e.start s) m'
        { d with stage := .executing attempt p (some s'), attempted := e.attempted s ++ d.attempted }

end DispatchFrame

/-! ### The dispatches together -/

structure Jobs (ι : Type) where
  taskID : String
  subtaskID : String
  maxRetries : Int := 0
  retryPolicy : DispatchRetryPolicy := defaultDispatchRetryPolicy
  assignment : ι → Candidate
  subtask : ∀ i, (assignment i).subtaskID = subtaskID ∧ (assignment i).maxRetries = maxRetries

def Jobs.job {ι : Type} (J : Jobs ι) (i : ι) : Job :=
  { taskID := J.taskID, assignment := J.assignment i, retryPolicy := J.retryPolicy }

theorem Jobs.job_subtaskID {ι : Type} (J : Jobs ι) (i : ι) : (J.job i).subtaskID = J.subtaskID := (J.subtask i).1

structure Dispatches (ι : Type) where
  m : Manager
  frame : ι → DispatchFrame
  starts : List (String × String)

namespace Dispatches

variable {ι : Type}

/-- Before any of the dispatches begins; earlier ones may have left attempts behind. -/
def start (J : Jobs ι) (m : Manager) : Dispatches ι :=
  { m, frame := fun _ => {}, starts := (m.pairs J.taskID J.subtaskID).dedup }

inductive Move (ι : Type) where
  | own (i : ι) (saved : Except String Unit)
  | others

variable [DecidableEq ι]

inductive Step (J : Jobs ι) (f : Dispatches ι) : Move ι → Dispatches ι → Prop
  | own (i : ι) (saved : Except String Unit) (started : Option (String × String)) (m : Manager) (d : DispatchFrame)
      (h : (f.frame i).Step (J.job i) f.m saved started m d) :
      Step J f (.own i saved) { m, frame := Function.update f.frame i d, starts := f.starts ++ started.toList }
  | cancelled (i : ι) (failure : String) (h : (f.frame i).ctxErr = none) :
      Step J f .others { f with frame := Function.update f.frame i { f.frame i with ctxErr := some failure } }
  | others (op : Op) (saved : Except String Unit) (hids : op.KeepsIDs) (hfresh : op.FreshID f.m)
      (hbegins : ¬ op.Begins J.taskID J.subtaskID) :
      Step J f .others { f with m := op.run f.m saved }

def Run (J : Jobs ι) (allowed : Dispatches ι → Move ι → Prop) : Dispatches ι → Dispatches ι → Prop :=
  ReflTransGen fun f f' => ∃ move, Step J f move f' ∧ allowed f move

end Dispatches

/-! ### What a turn of the loop does -/

namespace DispatchStage

def held? : DispatchStage → Option Candidate
  | .loop _ c | .checking _ c | .reserving _ c | .startingSubtask _ c | .reading _ c | .moving _ c => some c
  | _ => none

def iteration? : DispatchStage → Option Nat
  | .checking a _ | .reserving a _ | .startingSubtask a _ | .reading a _ | .executing a _ _ => some a
  | _ => none

/-- The dispatch has looked at the attempts so far and may still start a series. -/
def active : DispatchStage → Bool
  | .starting | .awaitingDependencies | .counting | .completing _ | .returned => false
  | _ => true

/-- The dispatch asks no worker and knows all the pairs it has asked. -/
def between : DispatchStage → Bool
  | .executing _ _ _ | .failed _ _ _ => false
  | stage => stage.active

theorem empty_of_inactive (h : stage.active = false) :
    stage.held? = none ∧ stage.executes = false ∧ stage.iteration? = none := by
  cases stage <;> first | exact ⟨rfl, rfl, rfl⟩ | cases h

theorem not_executes_of_between (h : stage.between) : stage.executes = false := by
  cases stage <;> first | rfl | cases h

theorem active_of_between (h : stage.between) : stage.active := by
  cases stage <;> first | rfl | cases h

end DispatchStage

namespace DispatchFrame

/-- What a step of the loop outside of the series does to the local variables. -/
inductive Turn (job : Job) (m : Manager) (d d' : DispatchFrame) : Prop
  | inactive (h : d'.stage.active = false)
  | counted (hstage : d.stage = .counting) (hbetween : d'.stage.between) (hiteration : d'.stage.iteration? = none)
      (htried : d'.alreadyTried = (m.pairs job.taskID job.subtaskID).map fun pair => routerPairKey pair.1 pair.2)
      (hheld : ∀ c, d'.stage.held? = some c → c = job.assignment ∧ c.key ∉ d'.alreadyTried)
  | passed (hbetween : d.stage.between) (hbetween' : d'.stage.between)
      (hiteration : ∀ a, d'.stage.iteration? = some a → d.stage.iteration? = some a ∨ a < job.retryPolicy.maxAttempts)
      (htried : d'.alreadyTried = d.alreadyTried)
      (hheld : ∀ c, d'.stage.held? = some c → d.stage.held? = some c ∨ d.Offers job c)
  | dropped (c : Candidate) (hbetween : d.stage.between) (hbetween' : d'.stage.between)
      (hiteration : d'.stage.iteration? = none) (htried : d'.alreadyTried = c.key :: d.alreadyTried)
      (hheld : d'.stage.held? = none)
  | entered (attempt : Nat) (c : Candidate) (hstage : d.stage = .reading attempt c)
      (hstage' : d'.stage = .executing attempt (.start c) none) (htried : d'.alreadyTried = d.alreadyTried)
      (hattempted : d'.attempted = [])
  | hedged (attempt : Nat) (p : Series) (c : Candidate) (hstage : d.stage = .executing attempt p none)
      (hstage' : d'.stage = .executing attempt p (some (.start c))) (hbound : attempt + 2 ≤ job.retryPolicy.maxAttempts)
      (hnode : c.assignment.nodeID ≠ p.candidate.assignment.nodeID) (hoffers : d.Offers job c)
      (htried : d'.alreadyTried = d.alreadyTried) (hattempted : d'.attempted = d.attempted)
  | failed (attempt : Nat) (p : Series) (s : Option Series) (err : String) (primary : CandidateDispatchResult)
      (hstage : d.stage = .executing attempt p s) (hprimary : p.stage = .finished primary)
      (hstage' : d'.stage = .failed attempt err primary.retryable)
      (htried : d'.alreadyTried = d.attempted.map Candidate.key ++ d.alreadyTried)
  | backedOff (attempt : Nat) (err : String) (hstage : d.stage = .failed attempt err true)
      (hstage' : d'.stage = .sleeping attempt err)
      (htried : d'.alreadyTried = d.current.toList.map Candidate.key ++ d.alreadyTried)

theorem hedgedResult_of_not_won {primary : CandidateDispatchResult} {secondary : Option CandidateDispatchResult}
    (h : ¬ (hedgedResult primary secondary).won) : hedgedResult primary secondary = primary := by
  unfold hedgedResult at h ⊢
  split
  · rfl
  rename_i hprimary
  rw [if_neg hprimary] at h
  cases secondary with
  | none => rfl
  | some secondary =>
    dsimp only at h ⊢
    split
    · rename_i hsecondary
      rw [if_pos hsecondary] at h
      exact absurd hsecondary h
    · rfl

theorem turn {job : Job} {m m' : Manager} {d : DispatchFrame} {e : DispatchEvent}
    (h : DispatchStep job m d.ctxErr d.stage e m' stage) (hanswers : d.Answers job e)
    (hseries : d.stage.executes → stage.executes → e ≠ .quiet) : Turn job m d (d.goto job m stage) := by
  obtain ⟨stage₀, ctxErr, alreadyTried, current, attempted⟩ := d
  have hsame : ∀ {c c' : Candidate}, some c' = some c → some c' = some c ∨
      Offers ⟨stage₀, ctxErr, alreadyTried, current, attempted⟩ job c := .inl
  have hgiven : ∀ {c c' : Candidate}, Offers ⟨stage₀, ctxErr, alreadyTried, current, attempted⟩ job c' → some c' = some c →
      none = some c ∨ Offers ⟨stage₀, ctxErr, alreadyTried, current, attempted⟩ job c := by
    intro c c' hc' heq
    exact .inr (some.inj heq ▸ hc')
  cases h with
  | unknownTask | found | blocked | ready | exhausted | nothingUntried | loopDone | loopCancelled | ejectedFrom
  | reservingCancelled | unreservedFrom | startRefused | noInput | decided | noRetry | noCandidate | moveRefused
  | completed => exact .inactive rfl
  | tried => exact .counted rfl rfl rfl rfl fun c hc => by cases hc
  | untried _ huntried =>
    refine .counted rfl rfl rfl rfl fun c hc => ?_
    obtain rfl := some.inj hc
    refine ⟨rfl, fun hmem => huntried ?_⟩
    obtain ⟨_, hpair, hkey⟩ := mem_map.mp hmem
    obtain ⟨a, ha, rfl⟩ := mem_map.mp hpair
    exact any_eq_true.mpr ⟨a, ha, decide_eq_true hkey⟩
  | chosen | ejectedTo | unreservedTo | retry =>
    exact .passed rfl rfl (fun a ha => by cases ha) rfl fun c hc => hgiven hanswers hc
  | loopBody _ _ h =>
    refine .passed rfl rfl (fun a ha => ?_) rfl fun c hc => hsame hc
    exact .inr (some.inj ha ▸ h)
  | healthy | reserved | started => exact .passed rfl rfl (fun a ha => .inl ha) rfl fun c hc => hsame hc
  | unhealthy _ current | notReserved _ current => exact .dropped current rfl rfl rfl rfl rfl
  | input attempt current => exact .entered attempt current rfl rfl rfl rfl
  | primary | secondary => exact absurd rfl (hseries rfl rfl)
  | hedge attempt p hedge h hnode => exact .hedged attempt p hedge rfl rfl h hnode hanswers rfl rfl
  | undecided attempt p s primary _ err hprimary _ _ hwon =>
    refine .failed attempt p s err primary rfl hprimary ?_ rfl
    exact congrArg (fun result => DispatchStage.failed attempt err result.retryable) (hedgedResult_of_not_won hwon)
  | backOff attempt err retryable h =>
    have hretryable : retryable = true := by
      unfold DispatchRetryPolicy.canRetry at h
      simp only [Bool.and_eq_true] at h
      exact h.1.1
    subst hretryable
    exact .backedOff attempt err rfl rfl rfl
  | moved => exact .passed rfl rfl (fun a ha => by cases ha) rfl fun c hc => hsame hc

theorem pairs_turn {job : Job} {m m' : Manager} {d : DispatchFrame} {e : DispatchEvent}
    (h : DispatchStep job m d.ctxErr d.stage e m' stage) (hseries : d.stage.executes → stage.executes → e ≠ .quiet)
    (hheld : ∀ c, d.stage.held? = some c → c.subtaskID = job.subtaskID) :
    m'.pairs job.taskID job.subtaskID = m.pairs job.taskID job.subtaskID := by
  generalize d.stage = stage₀ at h hseries hheld
  cases h with
  | startRefused _ _ _ now | started _ _ now => exact (startSubtask_keepsRecords now).pairs_eq _ _
  | moveRefused _ retry _ now | moved _ retry now =>
    exact (reassignSubtask_keepsRecords (hheld retry rfl) now).pairs_eq _ _
  | completed failure now => exact (completeSubtask_keepsRecords "" (some failure) now).pairs_eq _ _
  | primary | secondary => exact absurd rfl (hseries rfl rfl)
  | _ => rfl

end DispatchFrame

/-! ### What a series puts on record -/

def Series.Unbegun (s : Series) : Prop := ∃ won, s.stage = .beginning 0 won

/-- The attempts to come, as far as the series can tell. -/
def Series.todo (s : Series) : Nat :=
  match s.stage with
  | .beginning _ _ => 1
  | _ => 0

def SeriesEvent.recorded (e : SeriesEvent) (s : Series) : List (String × String) :=
  match e with
  | .begun _ _ => [s.candidate.pair]
  | _ => []

namespace SeriesMove

variable {taskID : String} {saved : Except String Unit} {m m' : Manager} {s s' : Series} {e : SeriesEvent}

theorem pairs_eq (h : SeriesMove taskID saved m s e m' s') :
    m'.pairs taskID s.candidate.subtaskID = m.pairs taskID s.candidate.subtaskID ++ e.recorded s := by
  cases h with
  | begin _ _ now answer _ h =>
    unfold beginEvent
    rw [← length_pairs, ← length_pairs]
    rcases m.beginDispatchAttempt_records taskID s.candidate.subtaskID s.candidate.assignment now saved answer h with
      ⟨hsame, -⟩ | ⟨-, hpairs, -⟩
    · rw [hsame, if_pos rfl]
      exact (append_nil _).symm
    · rw [if_neg (by rw [hpairs, length_append]; exact Nat.succ_ne_self _)]
      exact hpairs
  | called => exact (append_nil _).symm
  | completed _ _ number _ _ _ _ answer _ _ h =>
    have hkeeps : KeepsRecords m answer.2 := by
      rw [← h]
      refine completeDispatchAttempt_keepsRecords number (fun a ha => ?_) _ _ _ _ _
      obtain rfl := mem_some.mp ha
      rfl
    rw [hkeeps.pairs_eq]
    split <;> exact (append_nil _).symm
  | failed _ _ number _ _ _ _ _ answer _ _ h =>
    have hkeeps : KeepsRecords m answer.2 := by
      rw [← h]
      exact finishDispatchAttempt_keepsRecords number _ _ _ _ _ _
    rw [hkeeps.pairs_eq]
    exact (append_nil _).symm

theorem begun_spec {validationAttempt : Nat} {told : Bool} (h : SeriesMove taskID saved m s (.begun validationAttempt told) m' s') :
    (∃ won, s.stage = .beginning validationAttempt won) ∧ (saved = .ok () → told = true) ∧
      (told = false → ∃ result, s'.stage = .finished result ∧ result.retryable = false) := by
  generalize he : SeriesEvent.begun validationAttempt told = e at h
  cases h with
  | begin _ won now answer hstage h =>
    unfold beginEvent at he
    split at he
    · cases he
    rename_i hrecorded
    obtain ⟨rfl, rfl⟩ := SeriesEvent.begun.inj he
    refine ⟨⟨won, hstage⟩, fun hsaved => ?_, fun htold => ?_⟩
    · rcases m.beginDispatchAttempt_records taskID s.candidate.subtaskID s.candidate.assignment now saved answer h with
        ⟨hsame, -⟩ | ⟨htold, -⟩
      · exact absurd (by rw [hsame]) hrecorded
      · exact htold hsaved
    cases hanswer : answer.1 with
    | ok =>
      rw [hanswer] at htold
      cases htold
    | error => exact ⟨_, rfl, rfl⟩
  | called => cases he
  | completed _ _ _ _ _ _ _ answer => cases hwon : answer.1.1 <;> rw [hwon] at he <;> cases he
  | failed => cases he

section

variable (h : SeriesMove taskID saved m s e m' s')

include h

theorem not_unbegun : ¬ s'.Unbegun := by
  have hnext : ∀ validationAttempt cancelled result, ¬ (s.next validationAttempt cancelled result).Unbegun := by
    intro validationAttempt cancelled result
    unfold Series.next
    split <;> rintro ⟨won, hstage⟩ <;> cases hstage
  cases h with
  | begin =>
    rintro ⟨_, hstage'⟩
    split at hstage' <;> cases hstage'
  | called => rintro ⟨won, hstage⟩; cases hstage
  | completed | failed => apply hnext

theorem not_finished (result : CandidateDispatchResult) : s.stage ≠ .finished result := by
  cases h with
  | begin _ _ _ _ hstage | called _ _ _ _ hstage | completed _ _ _ _ _ _ _ _ hstage
  | failed _ _ _ _ _ _ _ _ _ hstage => rw [hstage]; exact SeriesStage.noConfusion

theorem todo_le (hretries : s.candidate.maxRetries ≤ 0) : (e.recorded s).length + s'.todo ≤ s.todo := by
  have hnext : ∀ (validationAttempt : Nat) cancelled result, (s.next validationAttempt cancelled result).todo = 0 := by
    intro validationAttempt cancelled result
    have hlast : s.candidate.maxRetries ≤ validationAttempt := hretries.trans (Int.natCast_nonneg _)
    unfold Series.next
    rw [if_pos (by simp [hlast])]
    rfl
  cases h with
  | begin validationAttempt _ _ answer hstage =>
    have htodo : s.todo = 1 := by
      unfold Series.todo
      rw [hstage]
    rw [htodo]
    have hrecorded : ((beginEvent taskID s.candidate.subtaskID m validationAttempt answer).recorded s).length ≤ 1 := by
      unfold beginEvent
      split
      · exact Nat.zero_le 1
      · exact Nat.le_refl 1
    cases answer.1 <;> exact hrecorded
  | called => exact Nat.zero_le _
  | completed =>
    rw [hnext]
    split <;> exact Nat.zero_le _
  | failed =>
    rw [hnext]
    exact Nat.zero_le _

end

end SeriesMove

/-! ### Whom a dispatch has in hand -/

structure Job.Suits (job : Job) (c : Candidate) : Prop where
  subtask : c.subtaskID = job.subtaskID
  maxRetries : c.maxRetries = job.assignment.maxRetries

namespace DispatchFrame

structure Sane (job : Job) (d : DispatchFrame) : Prop where
  held : ∀ c, d.stage.held? = some c → job.Suits c
  series : ∀ attempt p s, d.stage = .executing attempt p s → job.Suits p.candidate ∧ ∀ x, s = some x → job.Suits x.candidate
  iteration : ∀ a, d.stage.iteration? = some a → a < job.retryPolicy.maxAttempts

variable {job : Job} {m m' : Manager} {saved : Except String Unit} {started : Option (String × String)} {d d' : DispatchFrame}

theorem Offers.suits (h : d.Offers job c) : job.Suits c := ⟨h.1, h.2.1⟩

theorem Offers.fresh (h : d.Offers job c) : c.key ∉ d.alreadyTried := by
  obtain ⟨-, -, _, hassigns⟩ := h
  split at hassigns
  · exact hassigns.fresh
  · exact hassigns.fresh

theorem Sane.of_empty (hheld : d.stage.held? = none) (hexecutes : d.stage.executes = false) (hiteration : d.stage.iteration? = none) :
    Sane job d where
  held c hc := by rw [hheld] at hc; cases hc
  series attempt p s hstage := by rw [hstage] at hexecutes; cases hexecutes
  iteration a ha := by rw [hiteration] at ha; cases ha

theorem Sane.of_between (hbetween : d.stage.between) (hheld : ∀ c, d.stage.held? = some c → job.Suits c)
    (hiteration : ∀ a, d.stage.iteration? = some a → a < job.retryPolicy.maxAttempts) : Sane job d where
  held := hheld
  series attempt p s hstage := by rw [hstage] at hbetween; cases hbetween
  iteration := hiteration

theorem Sane.of_executing {p : Series} {s : Option Series} (hstage : d.stage = .executing attempt p s)
    (hp : job.Suits p.candidate) (hs : ∀ x, s = some x → job.Suits x.candidate)
    (hbound : attempt < job.retryPolicy.maxAttempts) : Sane job d where
  held c hc := by rw [hstage] at hc; cases hc
  series attempt' p' s' hstage' := by
    obtain ⟨rfl, rfl, rfl⟩ := DispatchStage.executing.inj (hstage.symm.trans hstage')
    exact ⟨hp, hs⟩
  iteration a ha := by
    rw [hstage] at ha
    exact some.inj ha ▸ hbound

theorem Sane.turn (h : Sane job d) (hturn : Turn job m d d') : Sane job d' := by
  cases hturn with
  | inactive hactive =>
    obtain ⟨hheld, hexecutes, hiteration⟩ := DispatchStage.empty_of_inactive hactive
    exact .of_empty hheld hexecutes hiteration
  | counted _ hbetween hiteration _ hheld =>
    refine .of_between hbetween (fun c hc => ?_) fun a ha => by rw [hiteration] at ha; cases ha
    rw [(hheld c hc).1]
    exact ⟨rfl, rfl⟩
  | passed _ hbetween' hiteration _ hheld =>
    refine .of_between hbetween' (fun c hc => ?_) fun a ha => ?_
    · rcases hheld c hc with hsame | hoffers
      · exact h.held c hsame
      · exact hoffers.suits
    · rcases hiteration a ha with hsame | hbound
      · exact h.iteration a hsame
      · exact hbound
  | dropped c _ hbetween' hiteration _ hheld =>
    exact .of_between hbetween' (fun c hc => by rw [hheld] at hc; cases hc) fun a ha => by rw [hiteration] at ha; cases ha
  | entered attempt c hstage hstage' =>
    refine .of_executing hstage' (h.held c (by rw [hstage]; rfl)) (fun x hx => by cases hx) ?_
    exact h.iteration attempt (by rw [hstage]; rfl)
  | hedged attempt p _ hstage hstage' _ _ hoffers =>
    refine .of_executing hstage' (h.series attempt p none hstage).1 (fun x hx => ?_) (by omega)
    obtain rfl := some.inj hx
    exact hoffers.suits
  | failed _ _ _ _ _ _ _ hstage' | backedOff _ _ _ hstage' =>
    exact .of_empty (by rw [hstage']; rfl) (by rw [hstage']; rfl) (by rw [hstage']; rfl)

theorem Step.cases (hstep : Step job m saved d started m' d') (h : Sane job d) :
    (started = none ∧ Turn job m d d' ∧ m'.pairs job.taskID job.subtaskID = m.pairs job.taskID job.subtaskID) ∨
    (∃ attempt p p' s e, d.stage = .executing attempt p s ∧ SeriesMove job.taskID saved m p e m' p' ∧ started = e.start p ∧
      d' = { d with stage := .executing attempt p' s, attempted := e.attempted p ++ d.attempted }) ∨
    (∃ attempt p s s' e, d.stage = .executing attempt p (some s) ∧ SeriesMove job.taskID saved m s e m' s' ∧
      started = e.start s ∧
      d' = { d with stage := .executing attempt p (some s'), attempted := e.attempted s ++ d.attempted }) := by
  cases hstep with
  | turn _ _ _ h' _ hanswers hseries =>
    exact .inl ⟨rfl, DispatchFrame.turn h' hanswers hseries, pairs_turn h' hseries fun c hc => (h.held c hc).subtask⟩
  | startUnsaved _ _ _ now =>
    exact .inl ⟨rfl, .inactive rfl, (startSubtask_keepsRecords now).pairs_eq _ _⟩
  | moveUnsaved _ retry _ now hstage =>
    have hid : retry.subtaskID = job.subtaskID := (h.held retry (by rw [hstage]; rfl)).subtask
    exact .inl ⟨rfl, .inactive rfl, (reassignSubtask_keepsRecords hid now).pairs_eq _ _⟩
  | completeUnsaved failure now =>
    exact .inl ⟨rfl, .inactive rfl, (completeSubtask_keepsRecords "" (some failure) now).pairs_eq _ _⟩
  | primary attempt p p' s e _ hstage h' => exact .inr (.inl ⟨attempt, p, p', s, e, hstage, h', rfl, rfl⟩)
  | secondary attempt p s s' e _ hstage h' => exact .inr (.inr ⟨attempt, p, s, s', e, hstage, h', rfl, rfl⟩)

theorem Sane.step (hstep : Step job m saved d started m' d') (h : Sane job d) : Sane job d' := by
  rcases hstep.cases h with ⟨-, hturn, -⟩ | ⟨attempt, p, p', s, e, hstage, hmove, -, rfl⟩ |
    ⟨attempt, p, s, s', e, hstage, hmove, -, rfl⟩
  · exact h.turn hturn
  · obtain ⟨hp, hs⟩ := h.series attempt p s hstage
    refine .of_executing rfl ?_ hs (h.iteration attempt (by rw [hstage]; rfl))
    rw [hmove.candidate_eq]
    exact hp
  obtain ⟨hp, hs⟩ := h.series attempt p (some s) hstage
  refine .of_executing rfl hp (fun x hx => ?_) (h.iteration attempt (by rw [hstage]; rfl))
  obtain rfl := some.inj hx
  rw [hmove.candidate_eq]
  exact hs s rfl

end DispatchFrame

namespace Dispatches

variable {ι : Type} {J : Jobs ι}

def Sane (J : Jobs ι) (f : Dispatches ι) : Prop := ∀ i, (f.frame i).Sane (J.job i)

theorem sane_start (J : Jobs ι) (m : Manager) : Sane J (start J m) := fun _ => .of_empty rfl rfl rfl

variable [DecidableEq ι] {f f' : Dispatches ι} {move : Move ι}

/-- A step is one of a single dispatch, or it leaves alone what is on record and what the dispatches know. -/
theorem Step.cases (hstep : Step J f move f') :
    (∃ i saved started, move = .own i saved ∧ (f.frame i).Step (J.job i) f.m saved started f'.m (f'.frame i) ∧
      (∀ j, j ≠ i → f'.frame j = f.frame j) ∧ f'.starts = f.starts ++ started.toList) ∨
    ((∀ j, ∃ ctxErr, f'.frame j = { f.frame j with ctxErr }) ∧
      f'.m.pairs J.taskID J.subtaskID = f.m.pairs J.taskID J.subtaskID ∧ f'.starts = f.starts) := by
  cases hstep with
  | own i saved started _ _ h =>
    refine .inl ⟨i, saved, started, rfl, ?_, fun j hj => update_of_ne hj _ _, rfl⟩
    dsimp only
    rw [update_self]
    exact h
  | cancelled i failure =>
    refine .inr ⟨fun j => ?_, rfl, rfl⟩
    by_cases hj : j = i
    · subst hj
      exact ⟨some failure, update_self _ _ _⟩
    · exact ⟨(f.frame j).ctxErr, update_of_ne hj _ _⟩
  | others op _ hids hfresh hbegins =>
    exact .inr ⟨fun j => ⟨(f.frame j).ctxErr, rfl⟩, op.pairs_run hids hfresh hbegins, rfl⟩

theorem Sane.step (hstep : Step J f move f') (h : Sane J f) : Sane J f' := by
  intro j
  rcases hstep.cases with ⟨i, saved, started, -, hown, hothers, -⟩ | ⟨hframes, -, -⟩
  · by_cases hj : j = i
    · subst hj
      exact (h j).step hown
    · rw [hothers j hj]
      exact h j
  · obtain ⟨_, hframe⟩ := hframes j
    rw [hframe]
    exact ⟨(h j).held, (h j).series, (h j).iteration⟩

/-! ### Runs, step by step -/

variable {allowed allowed' : Dispatches ι → Move ι → Prop} {f₀ : Dispatches ι}

section

variable (hrun : Run J allowed f₀ f) {m : Manager}

include hrun

theorem Run.mono (h : ∀ f move, allowed f move → allowed' f move) : Run J allowed' f₀ f := by
  refine ReflTransGen.mono ?_ f₀ f hrun
  rintro f _ ⟨move, hstep, hallowed⟩
  exact ⟨move, hstep, h f move hallowed⟩

theorem Run.turn (i : ι) (hallowed : allowed f (.own i (.ok ()))) {e : DispatchEvent}
    (h : DispatchStep (J.job i) f.m (f.frame i).ctxErr (f.frame i).stage e m stage)
    (hanswers : (f.frame i).Answers (J.job i) e)
    (hseries : (f.frame i).stage.executes && stage.executes → e ≠ .quiet) :
    Run J allowed f₀
      { m, frame := update f.frame i ((f.frame i).goto (J.job i) f.m stage), starts := f.starts ++ [] } := by
  refine ReflTransGen.tail hrun ⟨_, .own i (.ok ()) none m _ (.turn e m stage h rfl hanswers fun hi hstage => ?_), hallowed⟩
  exact hseries (Bool.and_eq_true_iff.mpr ⟨hi, hstage⟩)

theorem Run.primary (i : ι) (saved : Except String Unit) (hallowed : allowed f (.own i saved))
    {p p' : Series} {s : Option Series} {e : SeriesEvent}
    (hstage : (f.frame i).stage = .executing attempt p s) (h : SeriesMove (J.job i).taskID saved f.m p e m p') :
    Run J allowed f₀
      { m
        frame := update f.frame i
          { f.frame i with stage := .executing attempt p' s, attempted := e.attempted p ++ (f.frame i).attempted }
        starts := f.starts ++ (e.start p).toList } :=
  ReflTransGen.tail hrun ⟨_, .own i saved _ m _ (.primary attempt p p' s e m hstage h), hallowed⟩

theorem Run.secondary (i : ι) (saved : Except String Unit) (hallowed : allowed f (.own i saved))
    {p s s' : Series} {e : SeriesEvent} (hstage : (f.frame i).stage = .executing attempt p (some s))
    (h : SeriesMove (J.job i).taskID saved f.m s e m s') :
    Run J allowed f₀
      { m
        frame := update f.frame i
          { f.frame i with stage := .executing attempt p (some s'), attempted := e.attempted s ++ (f.frame i).attempted }
        starts := f.starts ++ (e.start s).toList } :=
  ReflTransGen.tail hrun ⟨_, .own i saved _ m _ (.secondary attempt p s s' e m hstage h), hallowed⟩

theorem Run.cancelled (i : ι) (failure : String) (hallowed : allowed f .others) (hctx : (f.frame i).ctxErr = none) :
    Run J allowed f₀ { f with frame := update f.frame i { f.frame i with ctxErr := some failure } } :=
  ReflTransGen.tail hrun ⟨_, .cancelled i failure hctx, hallowed⟩

theorem Run.others (op : Op) (saved : Except String Unit) (hallowed : allowed f .others) (hids : op.KeepsIDs)
    (hfresh : op.FreshID f.m) (hbegins : ¬ op.Begins J.taskID J.subtaskID) :
    Run J allowed f₀ { f with m := op.run f.m saved } :=
  ReflTransGen.tail hrun ⟨_, .others op saved hids hfresh hbegins, hallowed⟩

end

theorem Run.go {m₀ m : Manager} {frame : ι → DispatchFrame} {starts : List (String × String)} {i : ι} {d : DispatchFrame}
    (hrun : Run J allowed f₀ ⟨m₀, update frame i d, starts⟩)
    (hallowed : allowed ⟨m₀, update frame i d, starts⟩ (.own i (.ok ()))) {e : DispatchEvent}
    (h : DispatchStep (J.job i) m₀ d.ctxErr d.stage e m stage) (hanswers : d.Answers (J.job i) e)
    (hseries : d.stage.executes && stage.executes → e ≠ .quiet) :
    Run J allowed f₀ ⟨m, update frame i (d.goto (J.job i) m₀ stage), starts⟩ := by
  have hself : (⟨m₀, update frame i d, starts⟩ : Dispatches ι).frame i = d := update_self _ _ _
  have hgo := hrun.turn i hallowed (e := e) (m := m) (by rw [hself]; exact h) (by rw [hself]; exact hanswers)
    (by rw [hself]; exact hseries)
  rw [hself, append_nil] at hgo
  rw [update_idem] at hgo
  exact hgo

theorem Run.asks (hrun : Run J allowed f₀ f) (i : ι)
    (hallowed : ∀ f', (∀ j, j ≠ i → f'.frame j = f.frame j) → allowed f' (.own i (.ok ()))) (hframe : f.frame i = {})
    {t : Taskmgr.Task} (ht : f.m.tasks.get? J.taskID = some t)
    (hready : f.m.waitForDependencies J.taskID (J.job i).subtaskID = some true)
    (hcount : (f.m.attempts J.taskID (J.job i).subtaskID).length < J.retryPolicy.maxAttempts)
    (huntried : ¬ (f.m.attempts J.taskID (J.job i).subtaskID).any fun a => routerPairKey a.nodeID a.model = (J.assignment i).key)
    (registry : Registry) {status : NodeStatus} (hhealthy : registry.lookup (J.assignment i).target = some status)
    (now : Instant) (hstarted : (f.m.startSubtaskChecked J.taskID (J.job i).subtaskID now (.ok ())).1 = .ok ())
    (hinput : (f.m.startSubtaskChecked J.taskID (J.job i).subtaskID now (.ok ())).2.inputForSubtask J.taskID
      (J.job i).subtaskID = true) :
    Run J allowed f₀
      { m := (f.m.startSubtaskChecked J.taskID (J.job i).subtaskID now (.ok ())).2
        frame := update f.frame i
          { stage := .executing (f.m.attempts J.taskID (J.job i).subtaskID).length (.start (J.assignment i)) none
            alreadyTried := (f.m.pairs J.taskID (J.job i).subtaskID).map fun pair => routerPairKey pair.1 pair.2 }
        starts := f.starts } := by
  have hself : update f.frame i {} = f.frame := by rw [← hframe, update_eq_self]
  have hrun : Run J allowed f₀ ⟨f.m, update f.frame i {}, f.starts⟩ := by
    rw [hself]
    exact hrun
  have hok : ∀ m d, allowed ⟨m, update f.frame i d, f.starts⟩ (.own i (.ok ())) :=
    fun m d => hallowed _ fun j hj => update_of_ne hj _ _
  have hrun := hrun.go (hok _ _) (.found t ht) trivial nofun
  have hrun := hrun.go (hok _ _) (.ready rfl hready) trivial nofun
  have hrun := hrun.go (hok _ _) (.untried hcount huntried) trivial nofun
  have hrun := hrun.go (hok _ _) (.loopBody _ _ hcount rfl) trivial nofun
  have hrun := hrun.go (hok _ _) (.healthy _ _ registry status hhealthy) trivial nofun
  have hrun := hrun.go (hok _ _) (.reserved _ _) trivial nofun
  have hrun := hrun.go (hok _ _) (.started _ _ now hstarted) trivial nofun
  exact hrun.go (hok _ _) (.input _ _ hinput) trivial nofun

def onNode (nodeID : String) : Candidate := { assignment := { subtask := { id := "work" }, nodeID, model := "m" } }

end Dispatches

end Maistr0.Orchestrator
