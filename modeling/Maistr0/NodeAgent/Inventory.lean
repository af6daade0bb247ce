import Maistr0.Go

/-!
# The model inventory

`inspectInventory` and `refreshReportedModelsWithForce` of `engine_component.go`. Only one refresh is under way at a
time, so they come one after the other. An engine whose list cannot be read keeps the models that were reported for
its name. Capabilities, times and error texts are left out.
-/

namespace Maistr0.NodeAgent.Inventory

open Go List

structure Engine where
  name : String
  url : String
deriving DecidableEq

structure Model where
  name : String
  engine : String := ""
deriving DecidableEq

inductive InventoryState where
  | available
  | empty
  | error
deriving DecidableEq

structure Status where
  name : String
  inventoryState : InventoryState
  ready : Bool := false
  modelCount : Nat := 0

structure Reported where
  models : List Model := []
  engines : List Status := []

structure Refresh where
  engines : List Engine
  listModels : Engine → Option (List Model)

namespace Refresh

def listed (r : Refresh) (eng : Engine) : List Model :=
  ((r.listModels eng).getD []).map ({ · with engine := eng.name })

def status (r : Refresh) (eng : Engine) : Status :=
  match r.listModels eng with
  | none => { name := eng.name, inventoryState := .error }
  | some models =>
    { name := eng.name, inventoryState := if models = [] then .empty else .available, ready := true,
      modelCount := models.length }

def inspectInventory (r : Refresh) : List Model × List Status := (r.engines.flatMap r.listed, r.engines.map r.status)

end Refresh

def count (models : List Model) (name : String) : Nat := models.countP (·.engine = name)

theorem count_listed (r : Refresh) (eng : Engine) (name : String) :
    count (r.listed eng) name = if eng.name = name then ((r.listModels eng).getD []).length else 0 := by
  unfold count Refresh.listed
  rw [countP_map]
  split_ifs with h
  · simp [Function.comp_def, h]
  · simp [Function.comp_def, h]

section

variable [CaseFolding] (equalFold : String → String → Bool)

/-- What a status gets from the refresh before: its models, and their number. -/
def Reported.carry (previous : Reported) (status : Status) : List Model × Status :=
  if status.inventoryState ≠ .error then ([], status)
  else
    -- of several engines with one name the map has the last
    match previous.engines.reverse.find? fun s => toLower s.name = toLower status.name with
    | none => ([], status)
    | some s => (previous.models.filter fun model => equalFold model.engine status.name, { status with modelCount := s.modelCount })

def Reported.refresh (previous : Reported) (r : Refresh) : Reported :=
  let (models, engines) := r.inspectInventory
  { models := models ++ engines.flatMap fun status => (previous.carry equalFold status).1
    engines := engines.map fun status => (previous.carry equalFold status).2 }

/-- The refreshes one after the other; beside the inventory, the length of each engine's last list. -/
def run (refreshes : List Refresh) : Reported × (Engine → Nat) :=
  refreshes.foldl (fun s r => (s.1.refresh equalFold r, fun eng => ((r.listModels eng).map length).getD (s.2 eng)))
    ({}, fun _ => 0)

abbrev Refresh.FailsAlone (r : Refresh) : Prop :=
  ∀ eng ∈ r.engines, r.listModels eng = none → ∀ other ∈ r.engines, equalFold other.name eng.name → other = eng

variable {equalFold}

variable {previous : Reported} {name : String}

theorem carry_sublist (status : Status) :
    (previous.carry equalFold status).1.Sublist (previous.models.filter fun model => equalFold model.engine status.name) := by
  unfold Reported.carry
  split
  · exact nil_sublist _
  split
  · exact nil_sublist _
  · exact List.Sublist.refl _

theorem count_carry_eq_zero {status : Status} (h : ¬ equalFold name status.name) :
    count (previous.carry equalFold status).1 name = 0 := by
  refine countP_eq_zero.mpr fun model hmodel => ?_
  have hfold := (mem_filter.mp ((carry_sublist status).subset hmodel)).2
  grind

variable {engines : Finset Engine} {r : Refresh}

theorem count_refresh_le {last : Engine → Nat} (hnodup : r.engines.Nodup)
    (hengines : r.engines.toFinset = engines) (hfails : r.FailsAlone equalFold)
    (h : ∀ name, count previous.models name ≤ ∑ eng ∈ engines with eng.name = name, last eng) (name : String) :
    count (previous.refresh equalFold r).models name ≤
      ∑ eng ∈ engines with eng.name = name, ((r.listModels eng).map length).getD (last eng) := by
  have hsum : count (previous.refresh equalFold r).models name =
      ∑ eng ∈ engines, (count (r.listed eng) name + count (previous.carry equalFold (r.status eng)).1 name) := by
    rw [← hengines, sum_toFinset _ hnodup, sum_map_add]
    unfold count Reported.refresh Refresh.inspectInventory
    simp [countP_append, countP_flatMap, Function.comp_def]
  rw [hsum, Finset.sum_filter]
  refine Finset.sum_le_sum fun eng heng => ?_
  rw [count_listed]
  cases hlist : r.listModels eng with
  | some models =>
    have hcarry : (previous.carry equalFold (r.status eng)).1 = [] := by
      unfold Reported.carry Refresh.status
      grind
    simp [hcarry, count]
  | none =>
    have hname : (r.status eng).name = eng.name := by
      unfold Refresh.status
      rw [hlist]
    by_cases hfold : equalFold name eng.name
    · -- nobody else has this name, so all that is carried over was listed by this engine
      have halone : ∑ other ∈ engines with other.name = name, last other = if eng.name = name then last eng else 0 := by
        rw [Finset.sum_filter]
        refine Finset.sum_eq_single_of_mem eng heng fun other hother hne => if_neg ?_
        rintro rfl
        exact hne (hfails eng (by simpa [← hengines] using heng) hlist other (by simpa [← hengines] using hother) hfold)
      have hcount : count (previous.carry equalFold (r.status eng)).1 name ≤ count previous.models name :=
        ((carry_sublist _).trans filter_sublist).countP_le
      have hprevious := halone ▸ h name
      simpa using hcount.trans hprevious
    · rw [count_carry_eq_zero (hname.symm ▸ hfold)]
      simp

/-- If an engine fails only while no other one has its name, the models of a name are no more than the engines of that
name have listed last. -/
theorem inventory_bounded (engines : Finset Engine) (refreshes : List Refresh)
    (hengines : ∀ r ∈ refreshes, r.engines.Nodup ∧ r.engines.toFinset = engines)
    (hfails : ∀ r ∈ refreshes, r.FailsAlone equalFold) (name : String) :
    count (run equalFold refreshes).1.models name ≤ ∑ eng ∈ engines with eng.name = name, (run equalFold refreshes).2 eng := by
  revert name
  refine foldlRecOn (motive := fun s : Reported × (Engine → Nat) =>
    ∀ name, count s.1.models name ≤ ∑ eng ∈ engines with eng.name = name, s.2 eng) refreshes _ ?_ ?_
  · intro _
    exact Nat.zero_le _
  · intro s h r hr
    exact count_refresh_le (hengines r hr).1 (hengines r hr).2 (hfails r hr) h

end

theorem inventory_bounded_failure : let servers : List Engine := [⟨"llama", "a"⟩, ⟨"vllm", "b"⟩]
    let refreshes : List Refresh := [⟨servers, fun _ => some [{ name := "m" }]⟩,
      ⟨servers, fun eng => if eng.name = "llama" then none else some []⟩]
    count (run (· == ·) refreshes).1.models "llama" ≤ 1 := by
  intro servers refreshes
  exact inventory_bounded servers.toFinset refreshes (by decide) (by decide) "llama"

/-- Both servers have listed one model. When both fail, each of them keeps both models. -/
theorem inventory_doubles : let servers : List Engine := [⟨"llama", "a"⟩, ⟨"llama", "b"⟩]
    let refreshes : List Refresh := [⟨servers, fun _ => some [{ name := "m" }]⟩, ⟨servers, fun _ => none⟩]
    count (run (· == ·) refreshes).1.models "llama" = 4 ∧
      ∑ eng ∈ servers.toFinset with eng.name = "llama", (run (· == ·) refreshes).2 eng = 2 := by
  decide

end Maistr0.NodeAgent.Inventory
