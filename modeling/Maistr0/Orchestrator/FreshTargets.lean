import Maistr0.Orchestrator.Dispatches

/-!
# Where the series of a subtask are started

A dispatch knows the pairs that were on record when it began and adds those it tries itself; whatever it
asks next is none of them. That is the whole history of the subtask as long as no other dispatch is under
way at the time, and as long as the attempt of a hedge that goes on record is also reported, which it is
not if its save fails. Under these two conditions no pair is started on twice.
-/

namespace Maistr0.Orchestrator

open Taskmgr Relation List Option

namespace SeriesEvent

variable {s : Series}

theorem mem_start (e : SeriesEvent) {x : String × String} (h : x ∈ (e.start s).toList) :
    ∃ told, e = .begun 0 told ∧ x = s.candidate.pair := by
  unfold start at h
  split at h
  · rename_i told
    exact ⟨told, rfl, mem_singleton.mp h⟩
  · cases h

variable {c : Candidate}

theorem mem_attempted (e : SeriesEvent) (h : c ∈ e.attempted s) : c = s.candidate := by
  unfold attempted at h
  split at h
  · exact mem_singleton.mp h
  · cases h

end SeriesEvent

def Covers (starts : List (String × String)) (alreadyTried : List String) : Prop :=
  ∀ x ∈ starts, routerPairKey x.1 x.2 ∈ alreadyTried

structure Asked (starts : List (String × String)) (alreadyTried : List String) (attempted : List Candidate) (p : Series)
    (s : Option Series) : Prop where
  primary : p.Unbegun → p.candidate.key ∉ alreadyTried
  secondary : ∀ x, s = some x → x.Unbegun → x.candidate.key ∉ alreadyTried
  apart : ∀ x, s = some x → x.candidate.assignment.nodeID ≠ p.candidate.assignment.nodeID
  begun : ∀ c ∈ attempted, (c = p.candidate ∧ ¬ p.Unbegun) ∨ ∃ x, s = some x ∧ c = x.candidate ∧ ¬ x.Unbegun
  covered : ∀ x ∈ starts, routerPairKey x.1 x.2 ∈ alreadyTried ∨ x ∈ attempted.map Candidate.pair ∨
    (x = p.candidate.pair ∧ ∃ result, p.stage = .finished result ∧ result.retryable = false)

namespace Asked

variable {starts : List (String × String)} {alreadyTried : List String} {attempted : List Candidate} {p p' : Series}
  {s : Option Series}

theorem enter (hfresh : c.key ∉ alreadyTried) (h : Covers starts alreadyTried) :
    Asked starts alreadyTried [] (.start c) none where
  primary _ := hfresh
  secondary x hx := by cases hx
  apart x hx := by cases hx
  begun c hc := by cases hc
  covered x hx := .inl (h x hx)

theorem hedge (h : Asked starts alreadyTried attempted p none) (hfresh : c.key ∉ alreadyTried)
    (hnode : c.assignment.nodeID ≠ p.candidate.assignment.nodeID) :
    Asked starts alreadyTried attempted p (some (.start c)) where
  primary := h.primary
  secondary x hx _ := by
    obtain rfl := some.inj hx
    exact hfresh
  apart x hx := by
    obtain rfl := some.inj hx
    exact hnode
  begun c hc := by
    rcases h.begun c hc with hp | ⟨x, hx, -⟩
    · exact .inl hp
    · cases hx
  covered := h.covered

section

variable (h : Asked starts alreadyTried attempted p s)

include h

theorem pair_ne {x : Series} (hx : s = some x) :
    x.candidate.pair ≠ p.candidate.pair := fun heq => h.apart x hx (congrArg Prod.fst heq)

theorem primary_fresh (hp : p.Unbegun) : p.candidate.pair ∉ starts := by
  intro hmem
  rcases h.covered _ hmem with htried | hattempted | ⟨-, result, hfinished, -⟩
  · exact h.primary hp htried
  · obtain ⟨c, hc, hpair⟩ := mem_map.mp hattempted
    rcases h.begun c hc with ⟨-, hbegun⟩ | ⟨x, hx, rfl, -⟩
    · exact hbegun hp
    · exact h.pair_ne hx hpair
  · obtain ⟨_, hstage⟩ := hp
    rw [hstage] at hfinished
    cases hfinished

theorem secondary_fresh {x : Series} (hx : s = some x) (hunbegun : x.Unbegun) : x.candidate.pair ∉ starts := by
  intro hmem
  rcases h.covered _ hmem with htried | hattempted | ⟨hpair, -⟩
  · exact h.secondary x hx hunbegun htried
  · obtain ⟨c, hc, hpair⟩ := mem_map.mp hattempted
    rcases h.begun c hc with ⟨rfl, -⟩ | ⟨y, hy, rfl, hbegun⟩
    · exact h.pair_ne hx hpair.symm
    · cases hx.symm.trans hy
      exact hbegun hunbegun
  · exact h.pair_ne hx hpair

end

variable {taskID : String} {saved : Except String Unit} {m m' : Manager} {e : SeriesEvent}

theorem movePrimary (h : Asked starts alreadyTried attempted p s) (hmove : SeriesMove taskID saved m p e m' p') :
    Asked (starts ++ (e.start p).toList) alreadyTried (e.attempted p ++ attempted) p' s where
  primary hp := absurd hp hmove.not_unbegun
  secondary := h.secondary
  apart x hx := by
    rw [hmove.candidate_eq]
    exact h.apart x hx
  begun c hc := by
    rw [hmove.candidate_eq]
    rcases mem_append.mp hc with hnew | hold
    · exact .inl ⟨e.mem_attempted hnew, hmove.not_unbegun⟩
    rcases h.begun c hold with ⟨hp, -⟩ | hs
    · exact .inl ⟨hp, hmove.not_unbegun⟩
    · exact .inr hs
  covered x hx := by
    rw [map_append, mem_append, hmove.candidate_eq]
    rcases mem_append.mp hx with hold | hnew
    · rcases h.covered x hold with htried | hattempted | ⟨-, result, hfinished, -⟩
      · exact .inl htried
      · exact .inr (.inl (.inr hattempted))
      · exact absurd hfinished (hmove.not_finished result)
    · obtain ⟨told, rfl, rfl⟩ := e.mem_start hnew
      cases told with
      | true => exact .inr (.inl (.inl (mem_singleton.mpr rfl)))
      | false => exact .inr (.inr ⟨rfl, hmove.begun_spec.2.2 rfl⟩)

theorem moveSecondary {x x' : Series} (h : Asked starts alreadyTried attempted p (some x))
    (hmove : SeriesMove taskID (.ok ()) m x e m' x') :
    Asked (starts ++ (e.start x).toList) alreadyTried (e.attempted x ++ attempted) p (some x') where
  primary := h.primary
  secondary y hy hunbegun := by
    obtain rfl := some.inj hy
    exact absurd hunbegun hmove.not_unbegun
  apart y hy := by
    obtain rfl := some.inj hy
    rw [hmove.candidate_eq]
    exact h.apart x rfl
  begun c hc := by
    refine Or.imp_right (fun hc => ⟨x', rfl, hmove.candidate_eq.symm ▸ hc, hmove.not_unbegun⟩) ?_
    rcases mem_append.mp hc with hnew | hold
    · exact .inr (e.mem_attempted hnew)
    rcases h.begun c hold with hp | ⟨y, hy, hs, -⟩
    · exact .inl hp
    · obtain rfl := some.inj hy
      exact .inr hs
  covered y hy := by
    rw [map_append, mem_append]
    rcases mem_append.mp hy with hold | hnew
    · rcases h.covered y hold with htried | hattempted | hfinished
      · exact .inl htried
      · exact .inr (.inl (.inr hattempted))
      · exact .inr (.inr hfinished)
    · obtain ⟨told, rfl, rfl⟩ := e.mem_start hnew
      obtain rfl : told = true := hmove.begun_spec.2.1 rfl
      exact .inr (.inl (.inl (mem_singleton.mpr rfl)))

theorem covers (h : Asked starts alreadyTried attempted p s) {result : CandidateDispatchResult}
    (hfinished : p.stage = .finished result) (hretryable : result.retryable = true) :
    Covers starts (attempted.map Candidate.key ++ alreadyTried) := by
  intro x hx
  rcases h.covered x hx with htried | hattempted | ⟨-, result', hfinished', hno⟩
  · exact mem_append_right _ htried
  · obtain ⟨_, hc, rfl⟩ := mem_map.mp hattempted
    exact mem_append_left _ (mem_map_of_mem hc)
  obtain rfl := SeriesStage.finished.inj (hfinished.symm.trans hfinished')
  rw [hretryable] at hno
  cases hno

end Asked

theorem Covers.mono {starts : List (String × String)} {alreadyTried : List String} (h : Covers starts alreadyTried)
    (more : List String) : Covers starts (more ++ alreadyTried) := fun x hx => mem_append_right _ (h x hx)

namespace DispatchFrame

structure Knows (starts : List (String × String)) (d : DispatchFrame) : Prop where
  held : ∀ c, d.stage.held? = some c → c.key ∉ d.alreadyTried
  between : d.stage.between → Covers starts d.alreadyTried
  asked : ∀ attempt p s, d.stage = .executing attempt p s → Asked starts d.alreadyTried d.attempted p s
  failed : ∀ attempt err, d.stage = .failed attempt err true → Covers starts d.alreadyTried

variable {job : Job} {m : Manager} {starts : List (String × String)} {d d' : DispatchFrame}

theorem Knows.of_between (hbetween : d.stage.between) (hheld : ∀ c, d.stage.held? = some c → c.key ∉ d.alreadyTried)
    (hcovers : Covers starts d.alreadyTried) : Knows starts d where
  held := hheld
  between _ := hcovers
  asked attempt p s hstage := by rw [hstage] at hbetween; cases hbetween
  failed attempt err hstage := by rw [hstage] at hbetween; cases hbetween

theorem Knows.of_executing {attempt : Nat} {p : Series} {s : Option Series} (hstage : d.stage = .executing attempt p s)
    (hasked : Asked starts d.alreadyTried d.attempted p s) : Knows starts d where
  held c hc := by rw [hstage] at hc; cases hc
  between hbetween := by rw [hstage] at hbetween; cases hbetween
  asked attempt' p' s' hstage' := by
    obtain ⟨-, rfl, rfl⟩ := DispatchStage.executing.inj (hstage.symm.trans hstage')
    exact hasked
  failed attempt' err hstage' := by rw [hstage] at hstage'; cases hstage'

theorem Turn.was_active (hturn : Turn job m d d') (hactive : d'.stage.active) : d.stage = .counting ∨ d.stage.active := by
  cases hturn with
  | inactive hinactive =>
    rw [hinactive] at hactive
    cases hactive
  | counted hstage => exact .inl hstage
  | passed hbetween | dropped _ hbetween => exact .inr (DispatchStage.active_of_between hbetween)
  | entered _ _ hstage | hedged _ _ _ hstage | failed _ _ _ _ _ hstage | backedOff _ _ hstage =>
    rw [hstage]
    exact .inr rfl

theorem Knows.turn (h : d.stage.active → Knows starts d)
    (hrecord : ∀ x ∈ starts, x ∈ m.pairs job.taskID job.subtaskID) (hturn : Turn job m d d') (hactive : d'.stage.active) :
    Knows starts d' := by
  cases hturn with
  | inactive hinactive =>
    rw [hinactive] at hactive
    cases hactive
  | counted _ hbetween _ htried hheld =>
    refine .of_between hbetween (fun c hc => (hheld c hc).2) fun x hx => ?_
    rw [htried]
    exact mem_map.mpr ⟨x, hrecord x hx, rfl⟩
  | passed hbetween hbetween' _ htried hheld =>
    have hknows := h (DispatchStage.active_of_between hbetween)
    refine .of_between hbetween' (fun c hc => ?_) ?_
    · rw [htried]
      rcases hheld c hc with hsame | hoffers
      · exact hknows.held c hsame
      · exact hoffers.fresh
    · rw [htried]
      exact hknows.between hbetween
  | dropped c hbetween hbetween' _ htried hheld =>
    refine .of_between hbetween' (fun c hc => by rw [hheld] at hc; cases hc) ?_
    rw [htried]
    exact ((h (DispatchStage.active_of_between hbetween)).between hbetween).mono [c.key]
  | entered _ c hstage hstage' htried hattempted =>
    have hknows := h (by rw [hstage]; rfl)
    refine .of_executing hstage' ?_
    rw [htried, hattempted]
    exact .enter (hknows.held c (by rw [hstage]; rfl)) (hknows.between (by rw [hstage]; rfl))
  | hedged attempt p _ hstage hstage' _ hnode hoffers htried hattempted =>
    refine .of_executing hstage' ?_
    rw [htried, hattempted]
    exact ((h (by rw [hstage]; rfl)).asked attempt p none hstage).hedge hoffers.fresh hnode
  | failed attempt p s _ _ hstage hprimary hstage' htried =>
    have hasked := (h (by rw [hstage]; rfl)).asked attempt p s hstage
    refine ⟨fun c hc => ?_, fun hbetween => ?_, fun attempt' p' s' hstage'' => ?_, fun attempt' err' hretry => ?_⟩
    · rw [hstage'] at hc
      cases hc
    · rw [hstage'] at hbetween
      cases hbetween
    · rw [hstage'] at hstage''
      cases hstage''
    · rw [hstage'] at hretry
      rw [htried]
      exact hasked.covers hprimary (DispatchStage.failed.inj hretry).2.2
  | backedOff attempt err hstage hstage' htried =>
    refine .of_between (by rw [hstage']; rfl) (fun c hc => by rw [hstage'] at hc; cases hc) ?_
    rw [htried]
    exact ((h (by rw [hstage]; rfl)).failed attempt err hstage).mono _

end DispatchFrame

namespace Dispatches

variable {ι : Type} {J : Jobs ι}

/-- A dispatch counts what is on record while no other one is under way, and the store takes what is written
while a hedge is out. -/
def Alone (f : Dispatches ι) : Move ι → Prop
  | .own i saved => ((f.frame i).stage = .counting → ∀ j, j ≠ i → (f.frame j).stage.active = false) ∧
      ((∃ attempt p s, (f.frame i).stage = .executing attempt p (some s)) → saved = .ok ())
  | .others => True

theorem Alone.saved {f : Dispatches ι} {i : ι} (h : (f.frame i).stage ≠ .counting) : Alone f (.own i (.ok ())) :=
  ⟨fun hstage => absurd hstage h, fun _ => rfl⟩

structure Fresh (J : Jobs ι) (f : Dispatches ι) : Prop where
  sane : f.Sane J
  nodup : f.starts.Nodup
  onRecord : ∀ x ∈ f.starts, x ∈ f.m.pairs J.taskID J.subtaskID
  single : ∀ i j, (f.frame i).stage.active → (f.frame j).stage.active → i = j
  knows : ∀ i, (f.frame i).stage.active → (f.frame i).Knows f.starts

namespace Fresh

theorem start (J : Jobs ι) (m : Manager) : Fresh J (start J m) where
  sane := sane_start J m
  nodup := nodup_dedup _
  onRecord x hx := mem_dedup.mp hx
  single i j hi := by cases hi
  knows i hi := by cases hi

variable {f f' : Dispatches ι} {i : ι}

theorem alone (h : Fresh J f) (hi : (f.frame i).stage.active) (j : ι) (hj : j ≠ i) : (f.frame j).stage.active = false := by
  by_contra hactive
  exact hj (h.single j i (Bool.eq_true_of_not_eq_false hactive) hi)

theorem of_alone (hsane : f'.Sane J) (hnodup : f'.starts.Nodup) (hrecord : ∀ x ∈ f'.starts, x ∈ f'.m.pairs J.taskID J.subtaskID)
    (hothers : ∀ j, j ≠ i → (f'.frame j).stage.active = false)
    (hknows : (f'.frame i).stage.active → (f'.frame i).Knows f'.starts) : Fresh J f' := by
  have honly : ∀ j, (f'.frame j).stage.active → j = i := by
    intro j hj
    by_contra hne
    rw [hothers j hne] at hj
    cases hj
  refine ⟨hsane, hnodup, hrecord, fun j k hj hk => (honly j hj).trans (honly k hk).symm, fun j hj => ?_⟩
  obtain rfl := honly j hj
  exact hknows hj

theorem turn (h : Fresh J f) (hsane : f'.Sane J) (hstarts : f'.starts = f.starts)
    (hpairs : f'.m.pairs J.taskID J.subtaskID = f.m.pairs J.taskID J.subtaskID)
    (hturn : (f.frame i).Turn (J.job i) f.m (f'.frame i)) (hothers : ∀ j, j ≠ i → f'.frame j = f.frame j)
    (hcounts : (f.frame i).stage = .counting → ∀ j, j ≠ i → (f.frame j).stage.active = false) : Fresh J f' := by
  have hnodup : f'.starts.Nodup := hstarts ▸ h.nodup
  have hrecord : ∀ x ∈ f'.starts, x ∈ f'.m.pairs J.taskID J.subtaskID := by
    rw [hstarts, hpairs]
    exact h.onRecord
  cases hactive : (f'.frame i).stage.active with
  | true =>
    have hknows : (f'.frame i).Knows f'.starts := by
      rw [hstarts]
      refine .turn (h.knows i) ?_ hturn hactive
      rw [J.job_subtaskID i]
      exact h.onRecord
    refine of_alone hsane hnodup hrecord (fun j hj => ?_) fun _ => hknows
    rw [hothers j hj]
    rcases hturn.was_active hactive with hstage | hwas
    · exact hcounts hstage j hj
    · exact h.alone hwas j hj
  | false =>
    -- a dispatch that is not active leaves the others as they are
    have hframes : ∀ j, (f'.frame j).stage.active → f'.frame j = f.frame j := by
      intro j hj
      apply hothers j
      rintro rfl
      rw [hactive] at hj
      cases hj
    refine ⟨hsane, hnodup, hrecord, fun j k hj hk => ?_, fun j hj => ?_⟩
    · exact h.single j k (hframes j hj ▸ hj) (hframes k hk ▸ hk)
    · rw [hstarts, hframes j hj]
      exact h.knows j (hframes j hj ▸ hj)

theorem series (h : Fresh J f) (hsane : f'.Sane J) (hactive : (f.frame i).stage.active)
    (hothers : ∀ j, j ≠ i → f'.frame j = f.frame j) {saved : Except String Unit} {x x' : Series} {e : SeriesEvent}
    (hsuits : (J.job i).Suits x.candidate) (hmove : SeriesMove J.taskID saved f.m x e f'.m x')
    (hstarts : f'.starts = f.starts ++ (e.start x).toList) (hfresh : x.Unbegun → x.candidate.pair ∉ f.starts)
    (hknows : (f'.frame i).Knows f'.starts) : Fresh J f' := by
  have hpairs : f'.m.pairs J.taskID J.subtaskID = f.m.pairs J.taskID J.subtaskID ++ e.recorded x := by
    have hmoved := hmove.pairs_eq
    rw [hsuits.subtask.trans (J.job_subtaskID i)] at hmoved
    exact hmoved
  refine of_alone hsane ?_ (fun y hy => ?_) (fun j hj => ?_) fun _ => hknows
  · rw [hstarts]
    refine nodup_append.mpr ⟨h.nodup, ?_, fun y hy z hz => ?_⟩
    · cases e.start x <;> simp
    obtain ⟨told, rfl, rfl⟩ := e.mem_start hz
    rintro rfl
    exact hfresh hmove.begun_spec.1 hy
  · rw [hstarts] at hy
    rw [hpairs]
    rcases mem_append.mp hy with hold | hnew
    · exact mem_append_left _ (h.onRecord y hold)
    · obtain ⟨_, rfl, rfl⟩ := e.mem_start hnew
      exact mem_append_right _ (mem_singleton.mpr rfl)
  · rw [hothers j hj]
    exact h.alone hactive j hj

variable [DecidableEq ι] {move : Move ι}

theorem step (hstep : Step J f move f') (halone : Alone f move) (h : Fresh J f) : Fresh J f' := by
  have hsane : f'.Sane J := h.sane.step hstep
  rcases hstep.cases with ⟨i, saved, started, rfl, hown, hothers, hstarts⟩ | ⟨hframes, hpairs, hstarts⟩
  · rcases hown.cases (h.sane i) with ⟨rfl, hturn, hpairs⟩ | ⟨attempt, p, p', s, e, hstage, hmove, rfl, hframe⟩ |
      ⟨attempt, p, s, s', e, hstage, hmove, rfl, hframe⟩
    · rw [J.job_subtaskID i] at hpairs
      exact h.turn hsane (hstarts.trans (append_nil _)) hpairs hturn hothers halone.1
    · have hactive : (f.frame i).stage.active := by rw [hstage]; rfl
      have hasked := (h.knows i hactive).asked attempt p s hstage
      refine h.series hsane hactive hothers ((h.sane i).series attempt p s hstage).1 hmove hstarts hasked.primary_fresh ?_
      rw [hframe, hstarts]
      exact .of_executing rfl (hasked.movePrimary hmove)
    · have hactive : (f.frame i).stage.active := by rw [hstage]; rfl
      have hasked := (h.knows i hactive).asked attempt p (some s) hstage
      obtain rfl : saved = .ok () := halone.2 ⟨attempt, p, s, hstage⟩
      refine h.series hsane hactive hothers (((h.sane i).series attempt p (some s) hstage).2 s rfl) hmove hstarts
        (hasked.secondary_fresh rfl) ?_
      rw [hframe, hstarts]
      exact .of_executing rfl (hasked.moveSecondary hmove)
  · have hstage : ∀ j, (f'.frame j).stage = (f.frame j).stage := by
      intro j
      obtain ⟨ctxErr, hframe⟩ := hframes j
      rw [hframe]
    refine ⟨hsane, hstarts ▸ h.nodup, ?_, fun j k hj hk => ?_, fun j hj => ?_⟩
    · rw [hstarts, hpairs]
      exact h.onRecord
    · rw [hstage] at hj hk
      exact h.single j k hj hk
    · rw [hstage] at hj
      have hknows := h.knows j hj
      obtain ⟨_, hframe⟩ := hframes j
      rw [hframe, hstarts]
      exact ⟨hknows.held, hknows.between, hknows.asked, hknows.failed⟩

theorem run (hrun : Run J Alone f f') (h : Fresh J f) : Fresh J f' := by
  induction hrun with
  | refl => exact h
  | tail _ hstep ih =>
    obtain ⟨_, hstep, halone⟩ := hstep
    exact ih.step hstep halone

end Fresh

/-- Whatever happened to a subtask, and however often it is dispatched: in every run in which a dispatch counts
the attempts while no other one is under way and the attempts of hedges are saved, each series is started on
a pair on which no earlier one was started. -/
theorem starts_nodup [DecidableEq ι] {m : Manager} {f : Dispatches ι} (hrun : Run J Alone (start J m) f) : f.starts.Nodup :=
  ((Fresh.start J m).run hrun).nodup

/-! ### A cancelled dispatch that is still under way -/

def twice : Jobs Bool :=
  { taskID := "task-1", subtaskID := "work", assignment := fun _ => onNode "n0", subtask := fun _ => ⟨rfl, rfl⟩ }

def created : Manager := System.calls System.emptyNode [(.create "report" [(onNode "n0").assignment] false System.noon, .ok ())]

def oneNode (nodeID : String) : Registry := Lib.Keyed.put ∅ { id := nodeID, address := "" }

def rejected : CallOutcome :=
  { result := .error ("bad request", false), failureClass := "upstream_4xx", httpStatus := 400, duration := 1 }

/-- The first dispatch ends with the rejection of its worker; the second one finds that on record and moves
to another node. -/
theorem starts_nodup_resumed :
    ∃ f, Run twice Alone (start twice created) f ∧ f.starts = [(onNode "n0").pair, (onNode "n1").pair] ∧ f.starts.Nodup := by
  have hrun : Run twice Alone (start twice created) _ := ReflTransGen.refl
  have hrun := hrun.asks true (fun f' h => ⟨fun _ j hj => by rw [h j hj]; rfl, fun _ => rfl⟩) rfl rfl rfl (by decide) (by decide)
    (oneNode "n0") rfl (System.noon 1) rfl rfl
  have hrun := hrun.primary true (.ok ()) (.saved nofun) rfl (.begin 0 false (System.noon 2) _ rfl rfl)
  have hrun := hrun.primary true (.ok ()) (.saved nofun) rfl (.called 0 false 1 rejected rfl)
  have hrun := hrun.primary true (.ok ()) (.saved nofun) rfl
    (.failed 0 false 1 rejected "bad request" false (System.noon 3) false _ rfl rfl rfl)
  have hrun := hrun.turn true (.saved nofun) (.undecided _ _ _ _ none _ rfl rfl rfl (by decide)) trivial nofun
  have hrun := hrun.turn true (.saved nofun) (.noRetry _ _ _ (by decide)) trivial nofun
  have hrun := hrun.turn true (.saved nofun) (.completed _ (System.noon 4)) trivial nofun
  have hrun := hrun.others (.resumeTask "task-1" (System.noon 5)) (.ok ()) trivial trivial trivial not_false
  have hrun := hrun.turn false (.saved nofun) (.found _ rfl) trivial nofun
  have hrun := hrun.turn false (.saved nofun) (.ready rfl rfl) trivial nofun
  have hrun := hrun.turn false ⟨fun _ j hj => by cases j; exacts [absurd rfl hj, rfl], fun _ => rfl⟩
    (.tried (by decide) (by decide)) trivial nofun
  have hrun := hrun.turn false (.saved nofun) (.chosen _ (onNode "n1") rfl)
    ⟨rfl, rfl, [⟨"n1", ["m"]⟩], ⟨"n1", ["m"]⟩, by decide, rfl, by decide⟩ nofun
  have hrun := hrun.turn false (.saved nofun) (.moved _ _ (System.noon 6) rfl) trivial nofun
  have hrun := hrun.turn false (.saved nofun) (.loopBody _ _ (by decide) rfl) trivial nofun
  have hrun := hrun.turn false (.saved nofun) (.healthy _ _ (oneNode "n1") _ rfl) trivial nofun
  have hrun := hrun.turn false (.saved nofun) (.reserved _ _) trivial nofun
  have hrun := hrun.turn false (.saved nofun) (.started _ _ (System.noon 7) rfl) trivial nofun
  have hrun := hrun.turn false (.saved nofun) (.input _ _ rfl) trivial nofun
  have hrun := hrun.primary false (.ok ()) (.saved nofun) rfl (.begin 0 false (System.noon 8) _ rfl rfl)
  exact ⟨_, hrun, by decide, starts_nodup hrun⟩

/-- The task is cancelled before the first dispatch has begun its attempt, and resumed. The second dispatch
finds no attempt on record, both ask the same node. -/
theorem started_twice :
    ∃ f, Run twice (fun _ _ => True) (start twice created) f ∧ f.starts = [(onNode "n0").pair, (onNode "n0").pair] ∧
      ¬ f.starts.Nodup := by
  have hrun : Run twice (fun _ _ => True) (start twice created) _ := ReflTransGen.refl
  have hrun := hrun.asks true (fun _ _ => trivial) rfl rfl rfl (by decide) (by decide) (oneNode "n0") rfl (System.noon 1) rfl rfl
  have hrun := hrun.cancelled true "context canceled" trivial rfl
  have hrun := hrun.others (.cancel "task-1" (System.noon 2)) (.ok ()) trivial trivial trivial not_false
  have hrun := hrun.others (.resumeTask "task-1" (System.noon 3)) (.ok ()) trivial trivial trivial not_false
  have hrun := hrun.asks false (fun _ _ => trivial) rfl rfl rfl (by decide) (by decide) (oneNode "n0") rfl (System.noon 4) rfl rfl
  have hrun := hrun.primary true (.ok ()) trivial rfl (.begin 0 false (System.noon 5) _ rfl rfl)
  have hrun := hrun.primary false (.ok ()) trivial rfl (.begin 0 false (System.noon 6) _ rfl rfl)
  exact ⟨_, hrun, by decide, by decide⟩

end Dispatches

end Maistr0.Orchestrator
