import Maistr0.Orchestrator.PipelinePlanning

/-!
# The stages of replaced plans

Which stages are loaded while plans replace each other. A reshard unloads the stages of the plan it has read before it
stores the next one, and no request is in the gate meanwhile; a call outside of the gate only renews a plan or stores
the first one.
-/

namespace Maistr0.Orchestrator

open Lib.Interleaving List Planner

variable {g g' : Planner} {base : Option PipelinePlan} {plan : PipelinePlan} {w : PlanWriter} {locked : Bool}

def stagesOf (plan : Option PipelinePlan) : List PlacedStage := (plan.map PipelinePlan.assignments).getD []

def GatePhase.incoming : GatePhase → List PlacedStage
  | .loading _ plan _ | .setting _ plan _ => plan.assignments
  | .replanning _ | .resharding | .unloading _ _ _ _ _ | .writing => []

def Cleared (loaded : List PlacedStage) (base : Option PipelinePlan) (plan : PipelinePlan) (left : List PlacedStage) :
    Prop :=
  ∀ a ∈ loaded, a ∈ stagesOf base → a ∈ left ∨ a ∈ plan.assignments

/-- Beside what it has cleared, a reshard only loads stages of its plan that are listed. -/
def GatePhase.Clears (loaded : List PlacedStage) : GatePhase → Prop
  | .unloading base plan _ left _ => Cleared loaded (some base) plan left
  | .loading base plan left => Cleared loaded base plan [] ∧ ∀ a ∈ left, a ∈ plan.assignments
  | .setting base plan _ => Cleared loaded base plan []
  | .replanning _ | .resharding | .writing => True

def PlanCall.KeepsStages : PlanCall → Prop
  | .setting base plan => ∀ a ∈ stagesOf base, a ∈ plan.assignments
  | .begun | .second | .waiting _ | .invalidating | .done => True

/-- A writer has read the plan stored last. What is loaded of that plan belongs to the new one; if the writer does not
hold the gate, requests may load more, so all of the plan does. -/
structure Replaces (g : Planner) (w : PlanWriter) (plan : PipelinePlan) : Prop where
  base : w.base = g.history.head?
  ungated : w.gated = false → ∀ a ∈ stagesOf w.base, a ∈ plan.assignments
  gated : w.gated = true → g.gate = some .writing ∧ Cleared g.loaded w.base plan []

def Planner.written (g : Planner) : List PlacedStage := stagesOf (g.writer.bind PlanWriter.plan)

structure Tidy (g : Planner) : Prop where
  kept : ∀ a ∈ g.loaded, a ∈ stagesOf g.history.head? ∨ a ∈ g.written ∨ ∃ phase, g.gate = some phase ∧ a ∈ phase.incoming
  requests : ∀ p, some p ∈ g.requests → ∀ a ∈ p.assignments, a ∈ stagesOf g.history.head? ∨ a ∈ g.written
  exclusive : ∀ phase, g.gate = some phase → g.requests = []
  phase : ∀ phase, g.gate = some phase → phase.Clears g.loaded
  writer : ∀ w, g.writer = some w → match w.plan with
    | some plan => Replaces g w plan
    | none => w.gated = false
  entry : match g.writer with
    | none => g.entry = none ∨ g.entry = g.history.head?
    | some w => g.entry = w.plan

/-- A plan is written by a call that has read the plan stored last, no write fails, no unload is left out and no
reshard is given up once it loads. -/
def Thorough (g : Planner) : PlanEvent → Prop
  | .publish base => base = g.history.head?
  | .rollback | .skip | .abandon => False
  | .other => True

theorem Replaces.stages (h : Replaces g w plan) {a : PlacedStage} (hloaded : a ∈ g.loaded)
    (ha : a ∈ stagesOf g.history.head?) : a ∈ plan.assignments := by
  rw [← h.base] at ha
  cases hgated : w.gated with
  | false => exact h.ungated hgated a ha
  | true => simpa using (h.gated hgated).2 a hloaded ha

theorem Planner.commit_gate {phase : GatePhase} (h : (g.commit w).gate = some phase) : g.gate = some phase := by
  change (if w.gated then none else g.gate) = some phase at h
  split at h
  · cases h
  · exact h

theorem Tidy.commit (h : Tidy g) (hw : g.writer = some w) : Tidy (g.commit w) := by
  have hentry := h.entry
  have hwriter := h.writer w hw
  have hwritten : g.written = stagesOf w.plan := by simp [written, hw]
  rw [hw] at hentry
  have hgated : w.gated = true → g.gate = some .writing := by
    intro hgated
    split at hwriter
    · exact (hwriter.gated hgated).1
    · rw [hwriter] at hgated
      cases hgated
  have hnew : ∀ a ∈ stagesOf w.plan, a ∈ stagesOf (g.commit w).history.head? := by
    intro a ha
    cases hplan : w.plan with
    | none => simp [hplan, stagesOf] at ha
    | some => simpa [Planner.commit, hplan] using ha
  have hold : ∀ a ∈ stagesOf g.history.head?, w.gated = false ∨ a ∈ g.loaded →
      a ∈ stagesOf (g.commit w).history.head? := by
    intro a ha hsafe
    cases hplan : w.plan with
    | none => simpa [Planner.commit, hplan] using ha
    | some plan =>
      simp only [hplan] at hwriter
      have hmem : a ∈ plan.assignments := by
        rcases hsafe with hfree | hloaded
        · exact hwriter.ungated hfree a (hwriter.base ▸ ha)
        · exact hwriter.stages hloaded ha
      simpa [Planner.commit, hplan, stagesOf] using hmem
  refine ⟨fun a ha => ?_, fun p hp a ha => ?_, fun phase hphase => h.exclusive phase (commit_gate hphase),
    fun phase hphase => h.phase phase (commit_gate hphase), fun _ hw => (by cases hw), ?_⟩
  · rcases h.kept a ha with hcurrent | hmem | ⟨phase, hgate, hmem⟩
    · exact .inl (hold a hcurrent (.inr ha))
    · exact .inl (hnew a (hwritten ▸ hmem))
    -- a writer that holds the gate loads nothing any more
    have hfree : w.gated = false := by
      rw [Bool.eq_false_iff]
      intro htrue
      rw [hgated htrue] at hgate
      cases hgate
      cases hmem
    refine .inr (.inr ⟨phase, ?_, hmem⟩)
    change (if w.gated then none else g.gate) = some phase
    rw [hfree]
    exact hgate
  · have hfree : w.gated = false := by
      rw [Bool.eq_false_iff]
      intro htrue
      have hp' : some p ∈ g.requests := hp
      rw [h.exclusive _ (hgated htrue)] at hp'
      cases hp'
    rcases h.requests p hp a ha with hcurrent | hmem
    · exact .inl (hold a hcurrent (.inl hfree))
    · exact .inl (hnew a (hwritten ▸ hmem))
  · change g.entry = none ∨ g.entry = _
    rw [hentry]
    cases hplan : w.plan with
    | none => exact .inl rfl
    | some => exact .inr (by simp [Planner.commit, hplan])

theorem Replaces.of_ungated (h : Replaces g w plan) (hgate : g.gate ≠ some .writing)
    (hhistory : g'.history = g.history) : Replaces g' w plan :=
  ⟨hhistory ▸ h.base, h.ungated, fun hgated => absurd (h.gated hgated).1 hgate⟩

theorem Tidy.pass (h : Tidy g) {gate : Option GatePhase} {loaded : List PlacedStage}
    (hidle : g.requests = []) (hgate : g.gate ≠ some .writing)
    (hincoming : ∀ old, g.gate = some old → ∀ a ∈ old.incoming, a ∈ loaded → ∃ phase, gate = some phase ∧ a ∈ phase.incoming)
    (hloaded : ∀ a ∈ loaded, a ∈ g.loaded ∨ ∃ phase, gate = some phase ∧ a ∈ phase.incoming)
    (hphase : ∀ phase, gate = some phase → phase.Clears loaded) : Tidy { g with gate, loaded, locked } where
  kept a ha := by
    rcases hloaded a ha with hmem | hmem
    · rcases h.kept a hmem with hmem | hmem | ⟨old, hold, hmem⟩
      · exact .inl hmem
      · exact .inr (.inl hmem)
      · exact .inr (.inr (hincoming old hold a hmem ha))
    · exact .inr (.inr hmem)
  requests := h.requests
  exclusive _ _ := hidle
  phase := hphase
  writer w hw := by
    have hwriter := h.writer w hw
    split at hwriter
    · exact hwriter.of_ungated hgate rfl
    · exact hwriter
  entry := h.entry

theorem Tidy.of_requests (h : Tidy g) {requests : List (Option PipelinePlan)} {healthy : String → Bool}
    (hexclusive : ∀ phase, g.gate = some phase → requests = [])
    (hrequests : ∀ p, some p ∈ requests → some p ∈ g.requests ∨ g.entry = some p) :
    Tidy { g with requests, healthy, locked } := by
  refine { h with requests := fun p hp a ha => ?_, exclusive := hexclusive, writer := fun w hw => ?_ }
  · rcases hrequests p hp with hp | hp
    · exact h.requests p hp a ha
    have hentry := h.entry
    cases hw : g.writer with
    | none =>
      rw [hw, hp] at hentry
      rcases hentry with hentry | hentry
      · cases hentry
      · exact .inl (hentry ▸ ha)
    | some =>
      rw [hw, hp] at hentry
      refine .inr ?_
      simpa [written, hw, ← hentry, stagesOf] using ha
  · have hwriter := h.writer w hw
    split at hwriter
    · exact { hwriter with }
    · exact hwriter

theorem cleared_refreshed (g : Planner) (c : PipelinePlan) (loaded left : List PlacedStage) :
    Cleared loaded (some c) (g.refreshed c) left := fun _ _ ha => .inr ha

theorem Tidy.leave (h : Tidy g) {old : GatePhase} (hold : g.gate = some old) (hne : old ≠ .writing)
    (hnone : old.incoming = []) {gate : Option GatePhase} {loaded : List PlacedStage}
    (hloaded : ∀ a ∈ loaded, a ∈ g.loaded) (hphase : ∀ phase ∈ gate, phase.Clears loaded) :
    Tidy { g with gate, loaded, locked } := by
  refine h.pass (h.exclusive _ hold) ?_ (fun phase hgate a ha => ?_) (fun a ha => .inl (hloaded a ha)) hphase
  · rw [hold]
    exact fun hwriting => hne (Option.some.inj hwriting)
  cases hold.symm.trans hgate
  rw [hnone] at ha
  cases ha

theorem GateSteps.tidy {e : PlanEvent} (h : GateSteps g e g') (hallowed : Thorough g e) (hg : Tidy g) : Tidy g' := by
  cases h with
  | commit hw => exact hg.commit hw
  | rollback | skip | abandon => exact hallowed.elim
  | reshard hgate hidle =>
    refine hg.pass hidle (by rw [hgate]; nofun) (by rw [hgate]; nofun) (fun a ha => .inl ha) ?_
    rintro _ ⟨⟩
    trivial
  | reuse hgate =>
    exact hg.leave hgate nofun rfl (fun _ ha => ha) nofun
  | refresh hgate =>
    refine hg.leave hgate nofun rfl (fun _ ha => ha) ?_
    rintro _ ⟨⟩
    exact cleared_refreshed g _ _ _
  | replan hgate | plan hgate =>
    refine hg.leave hgate nofun rfl (fun _ ha => ha) ?_
    rintro _ ⟨⟩
    exact fun a _ ha => .inl ha
  | planFirst hgate =>
    refine hg.leave hgate nofun rfl (fun _ ha => ha) ?_
    rintro _ ⟨⟩
    exact ⟨fun a _ ha => (nomatch ha), fun a ha => ha⟩
  | giveUp hgate hphase =>
    refine hg.leave hgate ?_ ?_ (fun _ ha => ha) nofun
    all_goals rcases hphase with ⟨_, rfl⟩ | rfl | ⟨_, _, _, _, _, rfl⟩ <;> first | rfl | nofun
  | unload hgate =>
    refine hg.leave hgate nofun rfl (fun _ => mem_of_mem_filter) ?_
    rintro _ ⟨⟩ a ha hbase
    obtain ⟨hmem, hne⟩ := mem_filter.mp ha
    refine (hg.phase _ hgate a hmem hbase).imp_left fun hleft => (mem_cons.mp hleft).resolve_left ?_
    simpa using hne
  | unloaded hgate =>
    have hcleared := hg.phase _ hgate
    refine hg.leave hgate nofun rfl (fun _ ha => ha) ?_
    rintro _ ⟨⟩
    exact hcleared
  | reload hgate =>
    refine hg.leave hgate nofun rfl (fun _ ha => ha) ?_
    rintro _ ⟨⟩
    exact ⟨hg.phase _ hgate, fun a ha => ha⟩
  | load hgate =>
    obtain ⟨hcleared, hleft⟩ := hg.phase _ hgate
    refine hg.pass (hg.exclusive _ hgate) (by rw [hgate]; nofun) ?_ (fun a ha => ?_) ?_
    · intro old hold a ha _
      rw [hgate] at hold
      cases hold
      exact ⟨_, rfl, ha⟩
    · rcases mem_cons.mp ha with rfl | ha
      · exact .inr ⟨_, rfl, hleft a mem_cons_self⟩
      · exact .inl ha
    · rintro _ ⟨⟩
      refine ⟨fun a ha hbase => ?_, (forall_mem_cons.mp hleft).2⟩
      rcases mem_cons.mp ha with rfl | ha
      · exact .inr (hleft a mem_cons_self)
      · exact hcleared a ha hbase
  | loadedAll hgate =>
    refine hg.pass (hg.exclusive _ hgate) (by rw [hgate]; nofun) ?_ (fun a ha => .inl ha) ?_
    · intro old hold a ha _
      rw [hgate] at hold
      cases hold
      exact ⟨_, rfl, ha⟩
    · rintro _ ⟨⟩
      exact (hg.phase _ hgate).1
  | set hgate hw =>
    have hnone : g.written = [] := by simp [written, hw, stagesOf]
    refine ⟨fun a ha => ?_, fun p hp => ?_, fun _ _ => hg.exclusive _ hgate, ?_, ?_, rfl⟩
    · rcases hg.kept a ha with hmem | hmem | ⟨old, hold, hmem⟩
      · exact .inl hmem
      · rw [hnone] at hmem
        cases hmem
      rw [hgate] at hold
      cases hold
      exact .inr (.inl hmem)
    · have hp' : some p ∈ g.requests := hp
      rw [hg.exclusive _ hgate] at hp'
      cases hp'
    · rintro _ ⟨⟩
      trivial
    · rintro _ ⟨⟩
      exact ⟨hallowed, nofun, fun _ => ⟨rfl, hg.phase _ hgate⟩⟩
  | request hgate =>
    refine hg.of_requests (by rw [hgate]; nofun) fun p hp => .inl ?_
    exact (mem_cons.mp hp).resolve_left nofun
  | requestPlan hrequests hp =>
    refine hg.of_requests (fun phase hphase => ?_) fun p' hp' => ?_
    · have hnone := hg.exclusive phase hphase
      rw [hrequests] at hnone
      simp at hnone
    rw [hrequests]
    simp only [mem_append, mem_cons, reduceCtorEq, false_or, Option.some.injEq] at hp' ⊢
    rcases hp' with hl | rfl | hr
    · exact .inl (.inl hl)
    · exact .inr hp
    · exact .inl (.inr hr)
  | @requestLoad p a hp ha =>
    have hfree : ∀ phase, g.gate ≠ some phase := by
      intro phase hphase
      rw [hg.exclusive phase hphase] at hp
      cases hp
    refine ⟨fun a' ha' => ?_, hg.requests, hg.exclusive, fun phase hphase => absurd hphase (hfree phase), fun w hw => ?_,
      hg.entry⟩
    · rcases mem_cons.mp ha' with rfl | hmem
      · exact (hg.requests p hp _ ha).imp_right .inl
      · exact hg.kept a' hmem
    · have hwriter := hg.writer w hw
      split at hwriter
      · exact hwriter.of_ungated (hfree _) rfl
      · exact hwriter
  | requestEnd hrequests =>
    refine hg.of_requests (fun phase hphase => ?_) fun p' hp' => .inl ?_
    · have hnone := hg.exclusive phase hphase
      rw [hrequests] at hnone
      simp at hnone
    · rw [hrequests]
      exact mem_append.mpr ((mem_append.mp hp').imp_right (mem_cons_of_mem _))
  | health => exact hg.of_requests hg.exclusive fun _ => .inl

theorem Tidy.publish (h : Tidy g) (hw : g.writer = none) (hfree : w.gated = false)
    (hwriter : ∀ plan, w.plan = some plan → Replaces g w plan) : Tidy (g.publish w) := by
  have hnone : g.written = [] := by simp [written, hw, stagesOf]
  refine ⟨fun a ha => ?_, fun p hp a ha => ?_, h.exclusive, h.phase, ?_, rfl⟩
  · refine (h.kept a ha).imp_right fun hmem => hmem.imp_left fun hmem => ?_
    rw [hnone] at hmem
    cases hmem
  · refine (h.requests p hp a ha).imp_right fun hmem => ?_
    rw [hnone] at hmem
    cases hmem
  · rintro _ ⟨⟩
    split
    · rename_i plan hplan
      exact { hwriter plan hplan with }
    · exact hfree

theorem PlanMoves.tidy {t t' : PlanCall} {e : PlanEvent} (h : PlanMoves g t e g' t') (hallowed : Thorough g e)
    (hg : Tidy g) (ht : t.KeepsStages) : Tidy g' ∧ t'.KeepsStages := by
  cases h with
  | refresh => exact ⟨hg.of_requests hg.exclusive fun _ => .inl, fun a ha => ha⟩
  | place => exact ⟨hg.of_requests hg.exclusive fun _ => .inl, fun a ha => nomatch ha⟩
  | enter hgate hidle =>
    refine ⟨hg.pass hidle (by rw [hgate]; nofun) (by rw [hgate]; nofun) (fun a ha => .inl ha) ?_, trivial⟩
    rintro _ ⟨⟩
    trivial
  | set hw =>
    refine ⟨hg.publish hw rfl ?_, trivial⟩
    rintro _ ⟨⟩
    exact ⟨hallowed, fun _ => ht, nofun⟩
  | remove hw => exact ⟨hg.publish hw rfl nofun, trivial⟩
  | reuse | stale | missing | again | unplaced | cancelled | removed => exact ⟨hg, trivial⟩

theorem keeps_tidy : Keeps (planning.restrict Thorough) Tidy fun _ t => t.KeepsStages where
  move h hg ht := ⟨(h.1.tidy h.2 hg ht).1, (h.1.tidy h.2 hg ht).2, fun _ hu => hu⟩
  disturb h hg := ⟨h.1.tidy h.2 hg, fun _ hu => hu⟩
  start h _ := by rcases h with rfl | rfl <;> trivial

/-- If every plan is written by a call that had read the plan stored last, no write fails, no unload is left out and no
reshard is given up while it loads, then a plan is stored only when every stage that is still loaded is one of its
own. -/
theorem replaced_plans_are_unloaded (model : ShardedModelConfig) (epoch : String) (s : State Planner PlanCall)
    (h : Run (planning.restrict Thorough) ⟨{ model, epoch }, []⟩ s) (w : PlanWriter) (plan : PipelinePlan)
    (hw : s.shared.writer = some w) (hplan : w.plan = some plan) (a : PlacedStage) (ha : a ∈ s.shared.loaded) :
    a ∈ plan.assignments ∨ ∃ phase, s.shared.gate = some phase ∧ a ∈ phase.incoming := by
  have hg : Tidy s.shared :=
    (keeps_tidy.run h ⟨⟨nofun, nofun, nofun, nofun, nofun, .inl rfl⟩, nofun⟩).1
  have hreplaces := hg.writer w hw
  simp only [hplan] at hreplaces
  rcases hg.kept a ha with hmem | hmem | hmem
  · exact .inl (hreplaces.stages ha hmem)
  · left
    simpa [written, hw, hplan, stagesOf] using hmem
  · exact .inr hmem

/-- When the plan of a reshard is stored, only its own stages are loaded. -/
theorem resharded_plan_unloaded : ∃ s, Run (planning.restrict Thorough)
    ⟨{ model := examplePlan.model, epoch := "epoch" }, []⟩ s ∧
    (∃ w, s.shared.writer = some w ∧ w.plan = some resharded) ∧ s.shared.loaded ≠ [] ∧
    ∀ a ∈ s.shared.loaded, a ∈ resharded.assignments := by
  obtain ⟨s, hrun, hw, hgate, -, hloaded⟩ := run_resharded Thorough (fun _ _ => rfl) fun _ => trivial
  refine ⟨s, hrun, ⟨_, hw, rfl⟩, ?_, fun a ha => ?_⟩
  · refine ne_nil_of_mem (hloaded ⟨"a", "source", 0, 1, "e", false⟩ (by decide))
  rcases replaced_plans_are_unloaded _ _ s hrun _ resharded hw rfl a ha with hmem | ⟨phase, hphase, hmem⟩
  · exact hmem
  rw [hgate] at hphase
  cases hphase
  cases hmem

/-- After an invalidation the stage of the removed plan stays loaded on its healthy node. -/
theorem invalidated_plan_stays_loaded : ∃ s, Run planning ⟨{ model := examplePlan.model, epoch := "epoch" }, []⟩ s ∧
    ∃ later a, s.shared.history = [later, examplePlan] ∧ a ∈ s.shared.loaded ∧ s.shared.healthy a.nodeID = true ∧
      s.shared.gate = none ∧ a ∈ examplePlan.assignments ∧ a ∉ later.assignments := by
  obtain ⟨s, hrun, hhistory, hloaded, hgate, hhealthy⟩ := run_invalidated
  exact ⟨s, hrun, _, _, hhistory, hloaded ▸ mem_cons_self, hhealthy, hgate, by decide, by decide⟩

end Maistr0.Orchestrator
