import Maistr0.Orchestrator.Dispatches

/-!
# How many attempts a subtask gets

The loop of a dispatch starts at the number of attempts on record and counts its iterations up to the
limit. An iteration that hedges puts two attempts on record and counts as one, so the count falls behind;
and a dispatch that another one overlaps with does not count the attempts of the other at all. As long as
neither happens before an iteration asks its worker, the attempts stay within the limit.
-/

namespace Maistr0.Orchestrator

open Taskmgr Relation Option List

namespace Dispatches

variable {ι : Type} {J : Jobs ι}

def Counted (J : Jobs ι) (f : Dispatches ι) : Move ι → Prop
  | .own i _ => ∀ attempt current, (f.frame i).stage = .reading attempt current →
      (f.m.attempts J.taskID J.subtaskID).length ≤ attempt ∧ ∀ j, j ≠ i → (f.frame j).stage.executes = false
  | .others => True

def recorded (J : Jobs ι) (f : Dispatches ι) : Nat := (f.m.pairs J.taskID J.subtaskID).length

structure InBudget (J : Jobs ι) (f : Dispatches ι) : Prop where
  sane : f.Sane J
  bound : f.recorded J ≤ J.retryPolicy.maxAttempts
  single : ∀ i j, (f.frame i).stage.executes → (f.frame j).stage.executes → i = j
  budget : ∀ i attempt p s, (f.frame i).stage = .executing attempt p s →
    f.recorded J + p.todo + (s.map Series.todo).getD 0 ≤ attempt + 1 + s.toList.length ∧
      (s.isSome → attempt + 2 ≤ J.retryPolicy.maxAttempts)

namespace InBudget

theorem start {m : Manager} (hm : (m.attempts J.taskID J.subtaskID).length ≤ J.retryPolicy.maxAttempts) :
    InBudget J (start J m) where
  sane := sane_start J m
  bound := by
    unfold recorded
    rw [Manager.length_pairs]
    exact hm
  single i j hi := by cases hi
  budget i attempt p s hstage := by cases hstage

variable {f f' : Dispatches ι} {i : ι}

theorem alone (h : InBudget J f) (hi : (f.frame i).stage.executes) (j : ι) (hj : j ≠ i) :
    (f.frame j).stage.executes = false := by
  by_contra hexecutes
  exact hj (h.single j i (Bool.eq_true_of_not_eq_false hexecutes) hi)

theorem quiet (h : InBudget J f) (hsane : f'.Sane J) (hrecorded : f'.recorded J = f.recorded J)
    (hstages : ∀ i, (f'.frame i).stage.executes → (f'.frame i).stage = (f.frame i).stage) : InBudget J f' where
  sane := hsane
  bound := hrecorded ▸ h.bound
  single i j hi hj := h.single i j (hstages i hi ▸ hi) (hstages j hj ▸ hj)
  budget i attempt p s hstage := by
    have hsame : (f'.frame i).stage = (f.frame i).stage := hstages i (by rw [hstage]; rfl)
    rw [hrecorded]
    exact h.budget i attempt p s (hsame.symm.trans hstage)

theorem asking (hsane : f'.Sane J) {attempt : Nat} {p : Series} {s : Option Series}
    (hstage : (f'.frame i).stage = .executing attempt p s) (hothers : ∀ j, j ≠ i → (f'.frame j).stage.executes = false)
    (hbudget : f'.recorded J + p.todo + (s.map Series.todo).getD 0 ≤ attempt + 1 + s.toList.length)
    (hhedge : s.isSome → attempt + 2 ≤ J.retryPolicy.maxAttempts) : InBudget J f' := by
  have honly : ∀ j, (f'.frame j).stage.executes → j = i := by
    intro j hj
    by_contra hne
    rw [hothers j hne] at hj
    cases hj
  have hlt : attempt < J.retryPolicy.maxAttempts := (hsane i).iteration attempt (by rw [hstage]; rfl)
  refine ⟨hsane, ?_, fun j k hj hk => (honly j hj).trans (honly k hk).symm, fun j attempt' p' s' hstage' => ?_⟩
  · cases s with
    | none => exact (Nat.le_add_right _ _).trans ((Nat.le_add_right _ _).trans (hbudget.trans hlt))
    | some =>
      have htwo := hhedge rfl
      simp only [toList_some, length_singleton] at hbudget
      omega
  · obtain rfl : j = i := honly j (by rw [hstage']; rfl)
    obtain ⟨rfl, rfl, rfl⟩ := DispatchStage.executing.inj (hstage.symm.trans hstage')
    exact ⟨hbudget, hhedge⟩

theorem turn (h : InBudget J f) (hsane : f'.Sane J) (hrecorded : f'.recorded J = f.recorded J)
    (hturn : (f.frame i).Turn (J.job i) f.m (f'.frame i)) (hothers : ∀ j, j ≠ i → f'.frame j = f.frame j)
    (hcounted : ∀ attempt current, (f.frame i).stage = .reading attempt current →
      f.recorded J ≤ attempt ∧ ∀ j, j ≠ i → (f.frame j).stage.executes = false) : InBudget J f' := by
  -- a dispatch that does not ask a worker leaves the others as they are
  have hleft : (f'.frame i).stage.executes = false → InBudget J f' := by
    intro hi
    refine h.quiet hsane hrecorded fun j hj => ?_
    by_cases hji : j = i
    · rw [hji, hi] at hj
      cases hj
    · rw [hothers j hji]
  cases hturn with
  | inactive hactive => exact hleft (DispatchStage.empty_of_inactive hactive).2.1
  | counted _ hbetween | passed _ hbetween | dropped _ _ hbetween => exact hleft (DispatchStage.not_executes_of_between hbetween)
  | entered attempt c hstage hstage' =>
    obtain ⟨hle, halone⟩ := hcounted attempt c hstage
    refine asking hsane hstage' (fun j hj => ?_) ?_ nofun
    · rw [hothers j hj]
      exact halone j hj
    · rw [hrecorded]
      exact Nat.succ_le_succ hle
  | hedged attempt p _ hstage hstage' hbound =>
    have hbudget := (h.budget i attempt p none hstage).1
    refine asking hsane hstage' (fun j hj => ?_) ?_ fun _ => hbound
    · rw [hothers j hj]
      exact h.alone (by rw [hstage]; rfl) j hj
    · rw [hrecorded]
      exact Nat.succ_le_succ hbudget
  | failed _ _ _ _ _ _ _ hstage' | backedOff _ _ _ hstage' => exact hleft (by rw [hstage']; rfl)

variable [DecidableEq ι] {move : Move ι}

theorem step (hretries : J.maxRetries = 0) (hstep : Step J f move f') (hcounted : Counted J f move) (h : InBudget J f) :
    InBudget J f' := by
  have hsane : f'.Sane J := h.sane.step hstep
  rcases hstep.cases with ⟨i, saved, started, rfl, hown, hothers, -⟩ | ⟨hframes, hpairs, -⟩
  · have hsuits : ∀ c, (J.job i).Suits c → c.maxRetries ≤ 0 ∧ c.subtaskID = J.subtaskID := by
      intro c hc
      refine ⟨?_, hc.subtask.trans (J.job_subtaskID i)⟩
      rw [hc.maxRetries, show (J.job i).assignment.maxRetries = J.maxRetries from (J.subtask i).2, hretries]
    -- one series moves, and what it puts on record was in its budget
    have hseries : ∀ {s s' : Series} {e : SeriesEvent}, (J.job i).Suits s.candidate →
        SeriesMove J.taskID saved f.m s e f'.m s' → f'.recorded J + s'.todo ≤ f.recorded J + s.todo := by
      intro s s' e hs hmove
      obtain ⟨hmax, hid⟩ := hsuits s.candidate hs
      have htodo := hmove.todo_le hmax
      have hpairs := congrArg length hmove.pairs_eq
      rw [length_append, hid] at hpairs
      unfold recorded
      omega
    rcases hown.cases (h.sane i) with ⟨-, hturn, hpairs⟩ | ⟨attempt, p, p', s, e, hstage, hmove, -, hframe⟩ |
      ⟨attempt, p, s, s', e, hstage, hmove, -, hframe⟩
    · rw [J.job_subtaskID i] at hpairs
      refine h.turn hsane (congrArg length hpairs) hturn hothers fun attempt current hstage => ?_
      unfold recorded
      rw [Manager.length_pairs]
      exact hcounted attempt current hstage
    · obtain ⟨hbudget, hhedge⟩ := h.budget i attempt p s hstage
      have hmoved := hseries ((h.sane i).series attempt p s hstage).1 hmove
      refine asking hsane (i := i) (p := p') (s := s) (by rw [hframe]) (fun j hj => ?_) (by omega) hhedge
      rw [hothers j hj]
      exact h.alone (by rw [hstage]; rfl) j hj
    · obtain ⟨hbudget, hhedge⟩ := h.budget i attempt p (some s) hstage
      have hmoved := hseries (((h.sane i).series attempt p (some s) hstage).2 s rfl) hmove
      simp only [map_some, getD_some, toList_some, length_singleton] at hbudget
      refine asking hsane (i := i) (p := p) (s := some s') (by rw [hframe]) (fun j hj => ?_) ?_ hhedge
      · rw [hothers j hj]
        exact h.alone (by rw [hstage]; rfl) j hj
      · simp only [map_some, getD_some, toList_some, length_singleton]
        omega
  · refine h.quiet hsane (congrArg length hpairs) fun j _ => ?_
    obtain ⟨_, hframe⟩ := hframes j
    rw [hframe]

theorem run (hretries : J.maxRetries = 0) (hrun : Run J (Counted J) f f') (h : InBudget J f) : InBudget J f' := by
  induction hrun with
  | refl => exact h
  | tail _ hstep ih =>
    obtain ⟨_, hstep, hcounted⟩ := hstep
    exact ih.step hretries hstep hcounted

end InBudget

/-- A subtask without validation retries gets at most as many attempts as the policy allows, however often it
is dispatched, in every run in which a dispatch that asks a worker has counted what is on record and is the
only one to ask. -/
theorem attempts_le_maxAttempts [DecidableEq ι] {J : Jobs ι} (hretries : J.maxRetries = 0) {m : Manager}
    (hm : (m.attempts J.taskID J.subtaskID).length ≤ J.retryPolicy.maxAttempts) {f : Dispatches ι}
    (hrun : Run J (Counted J) (start J m) f) :
    (f.m.attempts J.taskID J.subtaskID).length ≤ J.retryPolicy.maxAttempts := by
  have hbound := ((InBudget.start hm).run hretries hrun).bound
  unfold recorded at hbound
  rw [Manager.length_pairs] at hbound
  exact hbound

/-! ### A hedge that is not counted -/

def resumed : Jobs Unit :=
  { taskID := "task-1", subtaskID := "work", assignment := fun _ => onNode "n3", subtask := fun _ => ⟨rfl, rfl⟩ }

def threeTried : Manager :=
  System.calls (newManager none false 1)
    ((.create "report" [(onNode "n0").assignment] false System.noon, .ok ()) ::
      (.startSubtask "task-1" "work" (System.noon 1), .ok ()) ::
      (["n0", "n1", "n2"].zipIdx.flatMap fun (nodeID, i) =>
        [(.beginDispatchAttempt "task-1" "work" (onNode nodeID).assignment (System.noon i), .ok ()),
          (.finishDispatchAttempt "task-1" "work" (i + 1) .failed "timeout" 0 (some "timeout") 1 (System.noon i), .ok ())]) ++
      [(.completeSubtask "task-1" "work" "" (some "timeout") (System.noon 9), .ok ()),
        (.resumeTask "task-1" (System.noon 10), .ok ())])

def asking : Dispatches Unit :=
  { m := (Op.startSubtask "task-1" "work" (System.noon 1)).run threeTried (.ok ())
    frame := fun _ =>
      { stage := .executing 3 (.start (onNode "n3")) none
        alreadyTried := [(onNode "n0").key, (onNode "n1").key, (onNode "n2").key] }
    starts := [(onNode "n0").pair, (onNode "n1").pair, (onNode "n2").pair] }

theorem asking_run : Run resumed (Counted resumed) (start resumed threeTried) asking := by
  have hrun : Run resumed (Counted resumed) (start resumed threeTried) _ := ReflTransGen.refl
  have hrun := hrun.turn () nofun (.found _ rfl) trivial nofun
  have hrun := hrun.turn () nofun (.ready rfl rfl) trivial nofun
  have hrun := hrun.turn () nofun (.untried (by decide) (by decide)) trivial nofun
  have hrun := hrun.turn () nofun (.loopBody _ _ (by decide) rfl) trivial nofun
  have hrun := hrun.turn () nofun (.healthy _ _ (Lib.Keyed.put ∅ { id := "n3", address := "" }) _ rfl) trivial nofun
  have hrun := hrun.turn () nofun (.reserved _ _) trivial nofun
  have hrun := hrun.turn () nofun (.started _ _ (System.noon 1) rfl) trivial nofun
  have hcounted : ∀ attempt current, DispatchStage.reading 3 (onNode "n3") = .reading attempt current →
      3 ≤ attempt ∧ ∀ j, j ≠ () → DispatchStage.executes (.reading 3 (onNode "n3")) = false := by
    intro attempt current h
    cases h
    exact ⟨Nat.le_refl 3, fun _ _ => rfl⟩
  exact hrun.turn () hcounted (.input _ _ rfl) trivial nofun

/-- With its hedge the fourth iteration makes the fourth and the fifth attempt. -/
theorem attempts_le_maxAttempts_hedged :
    ∃ f, Run resumed (Counted resumed) (start resumed threeTried) f ∧ (f.m.attempts "task-1" "work").length = 5 ∧
      (f.m.attempts "task-1" "work").length ≤ resumed.retryPolicy.maxAttempts := by
  have hrun := asking_run.primary () (.ok ()) nofun rfl (.begin 0 false (System.noon 2) _ rfl rfl)
  have hrun := hrun.turn () nofun (.hedge _ _ (onNode "n4") (by decide) (by decide))
    ⟨rfl, rfl, [⟨"n4", ["m"]⟩], ⟨"n4", ["m"]⟩, by decide, rfl, by decide⟩ (fun _ => DispatchEvent.noConfusion)
  have hrun := hrun.secondary () (.ok ()) nofun rfl (.begin 0 false (System.noon 3) _ rfl rfl)
  exact ⟨_, hrun, by decide, attempts_le_maxAttempts rfl (by decide) hrun⟩

def unanswered : CallOutcome :=
  { result := .error ("unavailable", true), failureClass := "upstream_5xx", httpStatus := 503, duration := 1 }

/-- Both workers of the fourth iteration fail, the loop has counted one attempt for them, and the fifth
iteration makes the sixth attempt of five. -/
theorem sixth_attempt : ∃ f, Run resumed (fun _ _ => True) (start resumed threeTried) f ∧
    resumed.retryPolicy.maxAttempts < (f.m.attempts "task-1" "work").length := by
  have hrun : Run resumed (fun _ _ => True) (start resumed threeTried) asking := asking_run.mono fun _ _ _ => trivial
  have hrun := hrun.primary () (.ok ()) trivial rfl (.begin 0 false (System.noon 2) _ rfl rfl)
  have hrun := hrun.turn () trivial (.hedge _ _ (onNode "n4") (by decide) (by decide))
    ⟨rfl, rfl, [⟨"n4", ["m"]⟩], ⟨"n4", ["m"]⟩, by decide, rfl, by decide⟩ (fun _ => DispatchEvent.noConfusion)
  have hrun := hrun.secondary () (.ok ()) trivial rfl (.begin 0 false (System.noon 3) _ rfl rfl)
  have hrun := hrun.primary () (.ok ()) trivial rfl (.called 0 false 4 unanswered rfl)
  have hrun := hrun.primary () (.ok ()) trivial rfl
    (.failed 0 false 4 unanswered "unavailable" true (System.noon 4) false _ rfl rfl rfl)
  have hrun := hrun.secondary () (.ok ()) trivial rfl (.called 0 false 5 unanswered rfl)
  have hrun := hrun.secondary () (.ok ()) trivial rfl
    (.failed 0 false 5 unanswered "unavailable" true (System.noon 5) false _ rfl rfl rfl)
  have hrun := hrun.turn () trivial (.undecided _ _ _ _ (some _) _ rfl rfl rfl (by decide)) trivial (fun h => by cases h)
  have hrun := hrun.turn () trivial (.backOff _ _ _ (by decide)) trivial (fun h => by cases h)
  have hrun := hrun.turn () trivial (.retry _ _ (onNode "n5") rfl)
    ⟨rfl, rfl, [⟨"n5", ["m"]⟩], ⟨"n5", ["m"]⟩, by decide, rfl, by decide⟩ (fun h => by cases h)
  have hrun := hrun.turn () trivial (.moved _ _ (System.noon 6) rfl) trivial (fun h => by cases h)
  have hrun := hrun.turn () trivial (.loopBody _ _ (by decide) rfl) trivial (fun h => by cases h)
  have hrun := hrun.turn () trivial (.healthy _ _ (Lib.Keyed.put ∅ { id := "n5", address := "" }) _ rfl) trivial
    (fun h => by cases h)
  have hrun := hrun.turn () trivial (.reserved _ _) trivial (fun h => by cases h)
  have hrun := hrun.turn () trivial (.started _ _ (System.noon 7) rfl) trivial (fun h => by cases h)
  have hrun := hrun.turn () trivial (.input _ _ rfl) trivial (fun h => by cases h)
  have hrun := hrun.primary () (.ok ()) trivial rfl (.begin 0 false (System.noon 8) _ rfl rfl)
  exact ⟨_, hrun, by decide⟩

end Dispatches

end Maistr0.Orchestrator
