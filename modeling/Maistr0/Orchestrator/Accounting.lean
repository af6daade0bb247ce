import Maistr0.Orchestrator.CapacityGate

/-!
# The accounts of the capacity gate

The active count of a node's gate is the number of units that calls and reservations hold of the node, and
the number of taken slots is the number of slots they hold. Each move takes or gives back what it adds to or
subtracts from the counts, so this is kept by every run. A reservation holds all its nodes, a call that has
failed holds nothing, and a unit is granted only where there is room.
-/

namespace Maistr0.Orchestrator

open Lib.Interleaving List

/-! ### What one move does to the counts -/

variable {g g' : DispatchCapacityGate} {e : Event}

variable {kind : Kind} {targets : List CapacityTarget} {ctx : Option String} {stage : ReservingAll} {t : Task}
  {n : String} {t' : Task}

theorem VisitStep.active {target : CapacityTarget} {v v' : Visit} (h : VisitStep ctx target g v e g' v') (n : String) :
    g'.active n = g.active n := by
  cases h with
  | present => exact g.active_nodeDispatchGate _ _ n
  | own | endFailed | endProbed => exact g.active_update_of_same rfl n
  | set => exact g.active_update_of_same (by rw [NodeDispatchGate.setCapacity_eq]) n
  | _ => rfl

theorem VisitStep.slots {target : CapacityTarget} {v v' : Visit} (h : VisitStep ctx target g v e g' v') :
    g'.slots = g.slots ∧ g'.globalLimit = g.globalLimit := by
  cases h with
  | present => exact (g.nodeDispatchGate_frame _ _).2
  | _ => exact ⟨rfl, rfl⟩

theorem ReserveStep.active {candidates : List CapacityTarget} {stage : Reserving}
    (h : ReserveStep candidates ctx g stage e g' t) (n : String) :
    g'.active n + (Task.reserve candidates ctx stage).units n = g.active n + t.units n := by
  cases h with
  | visit h =>
    rw [h.active n]
    rfl
  | @acquire target _ _ h =>
    have hactive := g.active_grantAll [target.nodeID] n
    change (g.update target.nodeID .grant).active n = _ at hactive
    rw [hactive]
    exact Int.add_zero _
  | loop | skip | full =>
    rw [Task.units_reserve_next]
    rfl
  | _ => rfl

theorem ReserveAllStep.active (h : ReserveAllStep kind targets ctx g stage e g' t) (n : String) :
    g'.active n + (Task.reserveAll kind targets ctx stage).units n = g.active n + t.units n := by
  cases h with
  | visit h =>
    rw [h.active n]
    rfl
  | acquire =>
    rw [g.active_grantAll]
    exact Int.add_zero _
  | healthy | full => cases kind <;> rfl
  | loop | next =>
    rw [Task.units_reserveAll_next]
    rfl
  | _ => rfl

theorem active_release (g : DispatchCapacityGate) (node : String) (nodes : List String) (n : String) :
    (g.update node .release).active n + ((node :: nodes).count n : Nat) = g.active n + (nodes.count n : Nat) := by
  rw [DispatchCapacityGate.active_update, count_cons]
  by_cases hn : n = node
  · subst hn
    simp only [if_true, beq_self_eq_true, NodeDispatchGate.release, DispatchCapacityGate.active]
    omega
  · simp [hn, Ne.symm hn]

theorem TaskStep.active (h : TaskStep g t e g' t') (n : String) :
    g'.active n + t.units n = g.active n + t'.units n := by
  cases h with
  | reserve h => exact h.active n
  | reserveAll h => exact h.active n
  | rollbackNode | releaseNode => exact active_release g _ _ n
  | observe =>
    rw [g.active_update_of_same (by rw [NodeDispatchGate.setCapacity_eq]) n]
    rfl
  | @cancel _ stage err => cases stage <;> rfl
  | @cancelAll _ _ stage err => cases stage <;> rfl
  | _ => rfl

theorem ReserveStep.slots {candidates : List CapacityTarget} {stage : Reserving}
    (h : ReserveStep candidates ctx g stage e g' t) :
    g'.slots + (Task.reserve candidates ctx stage).slot = g.slots + t.slot := by
  cases h with
  | visit h =>
    rw [h.slots.1]
    rfl
  | loop | skip | full =>
    rw [Task.slot_reserve_next]
    rfl
  | _ => rfl

theorem ReserveAllStep.slots (h : ReserveAllStep kind targets ctx g stage e g' t) :
    g'.slots + (Task.reserveAll kind targets ctx stage).slot = g.slots + t.slot := by
  cases h with
  | visit h =>
    rw [h.slots.1]
    rfl
  | loop | next =>
    rw [Task.slot_reserveAll_next]
    rfl
  | healthy => cases kind <;> rfl
  | full => cases kind <;> rfl
  | takeSlot _ hkind =>
    change g.slots + 1 + 0 = g.slots + kind.slotted.toNat
    rw [hkind]
    rfl
  | acquire =>
    rw [(g.grantAll_frame _).2.1]
    rfl
  | giveSlotBack h => exact Nat.sub_add_cancel h
  | _ => rfl

theorem TaskStep.slots (h : TaskStep g t e g' t') : g'.slots + t.slot = g.slots + t'.slot := by
  cases h with
  | reserve h => exact h.slots
  | reserveAll h => exact h.slots
  | @cancel _ stage err => cases stage <;> rfl
  | @cancelAll _ _ stage err => cases stage <;> rfl
  | rollbackSlot h | releaseSlot h => exact Nat.sub_add_cancel h
  | _ => rfl

theorem Start.units_and_slot (h : Start g t) : (∀ n, t.units n = 0) ∧ t.slot = 0 := by
  have hall : ∀ kind candidates, (∀ n, (startReserveAll kind candidates).units n = 0) ∧
      (startReserveAll kind candidates).slot = 0 := by
    intro kind candidates
    unfold startReserveAll
    split
    · exact ⟨fun _ => rfl, rfl⟩
    · simp only
      split <;> exact ⟨fun _ => rfl, rfl⟩
  cases h with
  | reserve =>
    unfold startReserve
    split
    · exact ⟨fun _ => rfl, rfl⟩
    · split <;> exact ⟨fun _ => rfl, rfl⟩
  | reservePipeline candidates => exact hall .pipeline candidates
  | reserveShardNodes candidates => exact hall .shard candidates
  | observe => exact ⟨fun _ => rfl, rfl⟩

theorem conserves_units (n : String) : Conserves gateSystem (·.active n) (Task.units n) where
  move h := h.active n
  disturb h := by cases h <;> rfl
  start h := h.units_and_slot.1 n

theorem conserves_slots : Conserves gateSystem (fun g => (g.slots : Int)) Task.slot where
  move h := by exact_mod_cast h.slots
  disturb h := by cases h <;> rfl
  start h := h.units_and_slot.2

/-! ### All nodes or none -/

def ReservingAll.Whole (targets : List CapacityTarget) : ReservingAll → Prop
  | visiting gates target rest _ => gates ++ (target :: rest).map (·.nodeID) = targets.map (·.nodeID)
  | visited gates true => gates = targets.map (·.nodeID)
  | awaitingSlot gates => gates = targets.map (·.nodeID)
  | rechecking gates _ => gates = targets.map (·.nodeID)
  | locking gates => gates = targets.map (·.nodeID)
  | acquired gates => gates = targets.map (·.nodeID)
  | _ => True

def Task.Whole : Task → Prop
  | reserveAll _ targets _ stage => (targets.map (·.nodeID)).Nodup ∧ stage.Whole targets
  | reserved r => r.gates = r.targets.map (·.nodeID)
  | releasing r nodes _ => nodes <:+ r.targets.map (·.nodeID)
  | _ => True

theorem ReservingAll.whole_next {gates : List String} {rest : List CapacityTarget}
    (h : gates ++ rest.map (·.nodeID) = targets.map (·.nodeID)) : (next gates rest).Whole targets := by
  cases rest with
  | nil => exact (append_nil gates).symm.trans h
  | cons => exact h

theorem ReserveAllStep.whole (h : ReserveAllStep kind targets ctx g stage e g' t)
    (hnodup : (targets.map (·.nodeID)).Nodup) (hstage : stage.Whole targets) : t.Whole := by
  cases h with
  | loop => exact ⟨hnodup, ReservingAll.whole_next rfl⟩
  | visit => exact ⟨hnodup, hstage⟩
  | next =>
    refine ⟨hnodup, ReservingAll.whole_next ?_⟩
    rw [append_assoc]
    exact hstage
  | healthy => cases kind <;> exact ⟨hnodup, hstage⟩
  | takeSlot | recheck | lock | acquire => exact ⟨hnodup, hstage⟩
  | full => cases kind <;> exact ⟨hnodup, trivial⟩
  | reserved => exact hstage
  | leave | slotLater | giveSlotBack | waited => exact ⟨hnodup, trivial⟩
  | _ => trivial

theorem TaskStep.whole (h : TaskStep g t e g' t') (ht : t.Whole) : t'.Whole := by
  cases h with
  | reserve h =>
    cases h with
    | reserved => exact rfl
    | _ => trivial
  | reserveAll h => exact h.whole ht.1 ht.2
  | cancelAll | load => exact ht
  | @release r =>
    exact ⟨[], by rw [nil_append, ht]⟩
  | unload => exact ht
  | releaseNode => exact (suffix_cons _ _).trans ht
  | releaseSlot => exact nil_suffix
  | _ => trivial

theorem pairwise_lt_of_checkTargets {previous : Option String} (hcheck : checkTargets kind previous targets = none)
    (hsorted : targets.Pairwise fun a b => a.nodeID ≤ b.nodeID)
    (hprevious : ∀ p, previous = some p → ∀ t ∈ targets, p ≤ t.nodeID) :
    (∀ p, previous = some p → ∀ t ∈ targets, p < t.nodeID) ∧ targets.Pairwise fun a b => a.nodeID < b.nodeID := by
  induction targets generalizing previous with
  | nil => exact ⟨fun _ _ => nofun, .nil⟩
  | cons target rest ih =>
    rw [pairwise_cons] at hsorted
    unfold checkTargets at hcheck
    split at hcheck
    · cases hcheck
    split at hcheck
    · cases hcheck
    rename_i hnew
    obtain ⟨hrest, hpairwise⟩ := ih hcheck hsorted.2 (by rintro _ ⟨rfl⟩; exact hsorted.1)
    refine ⟨fun p hp t ht => ?_, pairwise_cons.mpr ⟨hrest _ rfl, hpairwise⟩⟩
    have hlt : p < target.nodeID := by
      refine lt_of_le_of_ne (hprevious p hp target mem_cons_self) ?_
      rintro rfl
      exact hnew hp
    rcases mem_cons.mp ht with rfl | ht
    · exact hlt
    · exact hlt.trans (hrest _ rfl t ht)

theorem whole_startReserveAll (kind : Kind) (candidates : List CapacityTarget) : (startReserveAll kind candidates).Whole := by
  unfold startReserveAll
  split
  · trivial
  simp only
  split
  · trivial
  rename_i hcheck
  refine ⟨?_, trivial⟩
  have hsorted := candidates.pairwise_insertionSort fun a b => a.nodeID ≤ b.nodeID
  have hlt := (pairwise_lt_of_checkTargets hcheck hsorted nofun).2
  exact pairwise_map.mpr (hlt.imp fun h => h.ne)

theorem Start.whole (h : Start g t) : t.Whole := by
  cases h with
  | reserve =>
    unfold startReserve
    split
    · trivial
    · split <;> trivial
  | reservePipeline candidates => exact whole_startReserveAll .pipeline candidates
  | reserveShardNodes candidates => exact whole_startReserveAll .shard candidates
  | observe => trivial

theorem TaskStep.globalLimit (h : TaskStep g t e g' t') : g'.globalLimit = g.globalLimit := by
  cases h with
  | reserve h =>
    cases h with
    | visit h => exact h.slots.2
    | _ => rfl
  | reserveAll h =>
    cases h with
    | visit h => exact h.slots.2
    | acquire => exact (g.grantAll_frame _).2.2
    | _ => rfl
  | _ => rfl

theorem TaskStep.bounded (h : TaskStep g t e g' t') (hg : g.slots ≤ g.globalLimit) : g'.slots ≤ g.globalLimit := by
  cases h with
  | reserve h =>
    cases h with
    | visit h => exact h.slots.1.trans_le hg
    | takeSlot h => exact h
    | _ => exact hg
  | reserveAll h =>
    cases h with
    | visit h => exact h.slots.1.trans_le hg
    | takeSlot h => exact h
    | acquire => exact (g.grantAll_frame _).2.1.trans_le hg
    | giveSlotBack => exact (Nat.sub_le _ _).trans hg
    | _ => exact hg
  | rollbackSlot | releaseSlot => exact (Nat.sub_le _ _).trans hg
  | _ => exact hg

theorem keeps_whole (limit : Nat) :
    Keeps gateSystem (fun g => g.slots ≤ g.globalLimit ∧ g.globalLimit = limit) fun _ t => t.Whole where
  move h hg ht := ⟨⟨(h.bounded hg.1).trans_eq h.globalLimit.symm, h.globalLimit.trans hg.2⟩, h.whole ht, fun u hu => hu⟩
  disturb h hg := by
    refine ⟨?_, fun u hu => hu⟩
    cases h <;> exact hg
  start h _ := h.whole

/-! ### Where units are granted -/

theorem TaskStep.grants (h : TaskStep g t e g' t') (hlt : g.active n < g'.active n) :
    (∃ candidates ctx target rest k, t = .reserve candidates ctx (.visiting target rest k .refreshed) ∧
      target.nodeID = n ∧ (g.gate n).HasRoom ∧ g'.active n = g.active n + 1) ∨
    ∃ kind targets ctx gates, t = .reserveAll kind targets ctx (.locking gates) ∧ n ∈ gates ∧ (g.gate n).HasRoom ∧
      g'.active n = g.active n + gates.count n := by
  have hactive := h.active n
  have hunits : t.units n < t'.units n := by omega
  cases h with
  | reserve h =>
    cases h with
    | @acquire target rest k h =>
      have hn : target.nodeID = n := by
        by_contra hn
        simp [Task.units, Task.nodes, hn] at hunits
      subst hn
      refine .inl ⟨_, _, target, rest, k, rfl, rfl, h, ?_⟩
      rw [DispatchCapacityGate.active_update, if_pos rfl]
      rfl
    | visit h => exact absurd hlt (by rw [h.active n]; exact lt_irrefl _)
    | _ => exact absurd hlt (lt_irrefl _)
  | reserveAll h =>
    cases h with
    | @acquire gates h =>
      have hmem : n ∈ gates := count_pos_iff.mp hunits
      exact .inr ⟨_, _, _, gates, rfl, hmem, h n hmem, g.active_grantAll gates n⟩
    | visit h => exact absurd hlt (by rw [h.active n]; exact lt_irrefl _)
    | _ => exact absurd hlt (lt_irrefl _)
  | rollbackNode | releaseNode => exact absurd hunits (by simp [Task.units, Task.nodes, count_cons])
  | observe =>
    rw [g.active_update_of_same (by rw [NodeDispatchGate.setCapacity_eq]) n] at hlt
    exact absurd hlt (lt_irrefl _)
  | _ => exact absurd hlt (lt_irrefl _)

theorem TaskStep.room (h : TaskStep g t e g' t') (ht : t.Whole) (hlt : g.active n < g'.active n) :
    (g.gate n).HasRoom ∧ g'.active n = g.active n + 1 := by
  rcases h.grants hlt with ⟨_, _, target, _, _, -, -, hroom, hone⟩ | ⟨kind, targets, ctx, gates, rfl, hmem, hroom, hcount⟩
  · exact ⟨hroom, hone⟩
  obtain ⟨hnodup, hgates⟩ := ht
  refine ⟨hroom, ?_⟩
  rw [hcount, count_eq_one_of_mem (hgates ▸ hnodup) hmem]
  rfl

/-! ### Runs -/

variable {registry : Registry} {limit : Nat} {s s' : Gated}

section

variable (h : Run gateSystem (newDispatchCapacityGate registry limit) s)

include h

theorem active_eq_total (n : String) : s.shared.active n = total (Task.units n) s.tasks :=
  (conserves_units n).run h rfl

theorem slots_eq_total : s.shared.slots = total Task.slot s.tasks := by
  exact_mod_cast conserves_slots.run h rfl

theorem fine_of_run : s.shared.slots ≤ limit ∧ ∀ t ∈ s.tasks, t.Whole := by
  obtain ⟨⟨hslots, hlimit⟩, hwhole⟩ := (keeps_whole limit).run h ⟨⟨Nat.zero_le _, rfl⟩, nofun⟩
  exact ⟨hslots.trans_eq hlimit, hwhole⟩

end

theorem TaskStep.slots_of_panic (h : TaskStep g t e g' .panicked) : t.slot = 1 ∧ g.slots = 0 := by
  cases h with
  | reserve h => nomatch h
  | reserveAll h => nomatch h
  | releasePanic _ h => exact ⟨rfl, h⟩

theorem not_panicked (h : Run gateSystem (newDispatchCapacityGate registry limit) s) : .panicked ∉ s.tasks := by
  induction h with
  | refl => nofun
  | tail hrun hstep ih =>
    obtain ⟨e, hstep⟩ := hstep
    have hslots := slots_eq_total hrun
    cases hstep with
    | @move g g' t t' e l r h =>
      intro hmem
      rcases mem_append.mp hmem with hmem | hmem
      · exact ih (mem_append_left _ hmem)
      rcases mem_cons.mp hmem with rfl | hmem
      · obtain ⟨hslot, hnone⟩ := h.slots_of_panic
        change g.slots = _ at hslots
        rw [total_split] at hslots
        omega
      · exact ih (mem_append_right _ (mem_cons_of_mem _ hmem))
    | disturb => exact ih
    | start _ h =>
      intro hmem
      rcases mem_append.mp hmem with hmem | hmem
      · exact ih hmem
      have hslot := h.units_and_slot.2
      rw [← mem_singleton.mp hmem] at hslot
      cases hslot

theorem room_of_step (h : Run gateSystem (newDispatchCapacityGate registry limit) s) {e : Option Event}
    (hstep : Step gateSystem s e s') (hlt : s.shared.active n < s'.shared.active n) :
    (s.shared.gate n).HasRoom ∧ s'.shared.active n = s.shared.active n + 1 := by
  have hwhole := (fine_of_run h).2
  cases hstep with
  | move _ _ hmove => exact hmove.room (hwhole _ (mem_append_right _ mem_cons_self)) hlt
  | disturb _ hdisturb => exact absurd hlt (by cases hdisturb <;> exact lt_irrefl _)
  | start => exact absurd hlt (lt_irrefl _)

theorem reserveAll_nodes (h : (Task.reserveAll kind targets ctx stage).Whole) :
    (Task.reserveAll kind targets ctx stage).nodes = [] ∨
      (Task.reserveAll kind targets ctx stage).nodes = targets.map (·.nodeID) := by
  cases stage with
  | acquired => exact .inr h.2
  | _ => exact .inl rfl

/-- The accounts are exact in every state that calls can reach. -/
theorem accounts_exact (h : Run gateSystem (newDispatchCapacityGate registry limit) s) :
    (∀ node, s.shared.active node = total (Task.units node) s.tasks ∧ 0 ≤ s.shared.active node) ∧
      (s.shared.slots = total Task.slot s.tasks ∧ s.shared.slots ≤ limit) ∧
      (∀ kind targets ctx stage, .reserveAll kind targets ctx stage ∈ s.tasks →
        (Task.reserveAll kind targets ctx stage).nodes = [] ∨
          (Task.reserveAll kind targets ctx stage).nodes = targets.map (·.nodeID)) ∧
      (∀ r, .reserved r ∈ s.tasks → (Task.reserved r).nodes = r.targets.map (·.nodeID)) ∧
      (∀ r nodes slot, .releasing r nodes slot ∈ s.tasks → nodes <:+ r.targets.map (·.nodeID)) ∧
      (∀ l r err, s.tasks = l ++ .failed err :: r → (∀ node, s.shared.active node = total (Task.units node) (l ++ r)) ∧
          s.shared.slots = total Task.slot (l ++ r)) ∧
      (∀ r e g t, TaskStep s.shared (.released r) e g t → g = s.shared ∧ t = .released r) ∧ .panicked ∉ s.tasks ∧
      ∀ e s', Step gateSystem s e s' → ∀ node, s.shared.active node < s'.shared.active node →
        s.shared.active node + (s.shared.gate node).external < (s.shared.gate node).limit ∧
          s'.shared.active node = s.shared.active node + 1 := by
  have hactive := active_eq_total h
  have hslots := slots_eq_total h
  obtain ⟨hbounded, hwhole⟩ := fine_of_run h
  refine ⟨fun node => ⟨hactive node, ?_⟩, ⟨hslots, hbounded⟩, ?_, fun r hr => hwhole _ hr,
    fun r nodes slot hr => hwhole _ hr, ?_, ?_, not_panicked h, fun e s' hstep node hlt => room_of_step h hstep hlt⟩
  · rw [hactive node]
    exact Int.natCast_nonneg _
  · intro kind targets ctx stage hmem
    exact reserveAll_nodes (hwhole _ hmem)
  · intro l r err htasks
    rw [htasks] at hactive hslots
    refine ⟨fun node => ?_, ?_⟩
    · rw [hactive node, total_split]
      rfl
    · rw [hslots, total_split]
      rfl
  · intro r e g t hstep
    cases hstep with
    | releaseAgain => exact ⟨rfl, rfl⟩

def twoTasks : NodeStatus where
  id := "n"
  address := "http://n"
  maxConcurrentTasks := 2
  availableCapacity := 2

/-- One reservation on a node and in the only slot. -/
theorem accounts_exact_oneReservation :
    ∃ s : Gated, Run gateSystem (newDispatchCapacityGate (Lib.Keyed.put ∅ twoTasks) 1) s ∧
      s.tasks = [.reserved { kind := .dispatch, targets := [⟨"n", "http://n"⟩], gates := ["n"] }] ∧
      s.shared.active "n" = 1 ∧ s.shared.slots = 1 ∧ s.shared.slots ≤ 1 := by
  have hrun : Run gateSystem (newDispatchCapacityGate (Lib.Keyed.put ∅ twoTasks) 1) _ := .refl
  have hrun := hrun.start (.reserve [⟨"n", "http://n"⟩])
  have hrun := hrun.move [] [] (.reserve (.loop rfl))
  have hrun := hrun.move [] [] (.reserve (.visit (.present rfl)))
  have hrun := hrun.move [] [] (.reserve (.visit (.fresh rfl (by decide))))
  have hrun := hrun.move [] [] (.reserve (.visit .set))
  have hrun := hrun.move [] [] (.reserve (.acquire (by decide)))
  have hrun := hrun.move [] [] (.reserve (.takeSlot (by decide)))
  have hrun := hrun.move [] [] (.reserve (.reserved rfl))
  have hexact := accounts_exact hrun
  exact ⟨_, hrun, rfl, (hexact.1 "n").1, hexact.2.1.1, hexact.2.1.2⟩

end Maistr0.Orchestrator
