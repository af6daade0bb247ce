import Maistr0.Lib.Checks
import Maistr0.Taskmgr.Model

/-!
# Task graphs

`TaskGraph` of `internal/scheduler/graph.go`: its builders, readiness and validation. A prerequisite is recorded as an
edge, in the `DependsOn` of a node, or as both. Validation reads both, readiness the edges alone. Chains and groups
list nodes again and are left out.
-/

namespace Maistr0.Scheduler

open Go Lib Lib.Checks Taskmgr List

/-- `From` must complete before `To` can run. -/
structure Edge where
  fromID : String
  toID : String
deriving DecidableEq

structure TaskGraph where
  nodes : Keyed Subtask.id := ∅
  edges : List Edge := []

namespace TaskGraph

def addNode (g : TaskGraph) (subtask : Subtask) : Except String TaskGraph := do
  let id := trimSpace subtask.id
  failIf (id = "") "scheduler: node id cannot be empty"
  failIf (g.nodes.get? id).isSome ("scheduler: duplicate node id " ++ id)
  .ok { g with nodes := g.nodes.put { subtask with id } }

/-- The part of `AddEdge` after its checks. -/
def link (g : TaskGraph) (e : Edge) : TaskGraph :=
  if e ∈ g.edges then g
  else
    { edges := g.edges ++ [e]
      nodes :=
        match g.nodes.get? e.toID with
        | some target =>
          if e.fromID ∈ target.dependsOn then g.nodes
          else g.nodes.put { target with dependsOn := target.dependsOn ++ [e.fromID] }
        | none => g.nodes }

def addEdge (g : TaskGraph) (fromID toID : String) : Except String TaskGraph := do
  let e : Edge := ⟨trimSpace fromID, trimSpace toID⟩
  failIf (e.fromID = "" ∨ e.toID = "") "scheduler: edge endpoints cannot be empty"
  failIf (e.fromID = e.toID) ("scheduler: self-dependency not allowed on node " ++ e.fromID)
  .ok (g.link e)

def dependencies (g : TaskGraph) (nodeID : String) : List String :=
  (g.edges.filter fun e => e.toID = nodeID).map Edge.fromID

def readyNodes (g : TaskGraph) (completed : String → Bool) : List Subtask :=
  (g.nodes.vals.filter fun node => !completed node.id && (g.dependencies node.id).all completed).mergeSort
    fun a b => a.id ≤ b.id

/-- One call of `visit` in `Validate`. `path` holds the ids being visited and `done` the visited ones. Every nested
call puts one more node on `path`, so there are never more calls under way than nodes and one. -/
def visit (g : TaskGraph) : (fuel : Nat) → (path done : List String) → String → Except String (List String)
  | 0, _, _, id => .error ("scheduler: plan contains a dependency cycle at " ++ id)
  | fuel + 1, path, done, id => do
    failIf (id ∈ path) ("scheduler: plan contains a dependency cycle at " ++ id)
    if id ∈ done then .ok done
    else
      let deps := g.dependencies id ++ ((g.nodes.get? id).map Subtask.dependsOn).getD []
      let done ← deps.foldlM (g.visit fuel (id :: path)) done
      .ok (id :: done)

def checkEdge (g : TaskGraph) (e : Edge) : Except String Unit := do
  failIf (e.fromID = e.toID) ("scheduler: subtask " ++ e.fromID ++ " cannot depend on itself")
  failIf (g.nodes.get? e.fromID).isNone ("scheduler: dependency edge refers to unknown prerequisite node " ++ e.fromID)
  failIf (g.nodes.get? e.toID).isNone ("scheduler: dependency edge refers to unknown dependent node " ++ e.toID)

def checkDependsOn (g : TaskGraph) (node : Subtask) (dep : String) : Except String Unit := do
  failIf (dep = node.id) ("scheduler: subtask " ++ node.id ++ " cannot depend on itself")
  failIf (g.nodes.get? dep).isNone ("scheduler: subtask " ++ node.id ++ " depends on unknown subtask " ++ dep)

/-- `Validate`, with the nodes in one of the orders in which it may go through them. -/
def validate (g : TaskGraph) : Except String Unit := do
  failIf g.nodes.isEmpty "scheduler: plan must contain at least one subtask"
  failIf (64 < g.nodes.vals.length) "scheduler: plan cannot contain more than 64 subtasks"
  g.edges.forM g.checkEdge
  g.nodes.vals.forM fun node => node.dependsOn.forM (g.checkDependsOn node)
  let _ ← (g.nodes.vals.map Subtask.id).foldlM (g.visit (g.nodes.vals.length + 1) []) []

/-- Every prerequisite in the `DependsOn` of a node is an edge too. -/
def Synced (g : TaskGraph) : Prop := ∀ node ∈ g.nodes.vals, ∀ dep ∈ node.dependsOn, ⟨dep, node.id⟩ ∈ g.edges

structure Ready (g : TaskGraph) (completed : String → Bool) (node : Subtask) : Prop where
  mem : node ∈ g.nodes.vals
  pending : completed node.id = false
  edges : ∀ e ∈ g.edges, e.toID = node.id → completed e.fromID = true
  dependsOn : ∀ dep ∈ node.dependsOn, completed dep = true

variable {g : TaskGraph} {completed : String → Bool} {node : Subtask}

theorem mem_readyNodes : node ∈ g.readyNodes completed ↔ node ∈ g.nodes.vals ∧ completed node.id = false ∧
    ∀ e ∈ g.edges, e.toID = node.id → completed e.fromID = true := by
  simp [readyNodes, dependencies, imp_iff_not_or]

theorem nodup_readyNodes : (g.readyNodes completed).Nodup :=
  ((List.Nodup.of_map _ g.nodes.nodup).filter _).perm (mergeSort_perm _ _).symm

theorem ok_of_forM {α : Type} {check : α → Except String Unit} {xs : List α} (h : xs.forM check = .ok ()) :
    ∀ x ∈ xs, check x = .ok () := by
  induction xs with
  | nil => simp
  | cons x xs ih =>
    obtain ⟨_, hx, hxs⟩ := bind_eq_ok.mp h
    exact forall_mem_cons.mpr ⟨hx, ih hxs⟩

theorem fromID_ne_of_validate (h : g.validate = .ok ()) {e : Edge} (he : e ∈ g.edges) : e.fromID ≠ e.toID := by
  simp only [validate, bind_eq_ok, failIf_eq_ok] at h
  obtain ⟨_, -, _, -, _, hedges, -⟩ := h
  have hcheck := ok_of_forM hedges e he
  simp only [checkEdge, bind_eq_ok, failIf_eq_ok] at hcheck
  obtain ⟨_, hne, -⟩ := hcheck
  exact of_decide_eq_false hne

/-- A valid graph hands out the right nodes, whatever is completed, if and only if no prerequisite is recorded in a
`DependsOn` alone. -/
theorem readyNodes_exact_iff_synced (h : g.validate = .ok ()) : (∀ completed, (g.readyNodes completed).Nodup ∧
    ∀ node, node ∈ g.readyNodes completed ↔ g.Ready completed node) ↔ g.Synced := by
  constructor
  · intro hexact node hnode dep hdep
    by_contra hedge
    -- everything but the two ends of the missing edge is completed
    obtain ⟨-, hready⟩ := hexact fun id => id ≠ dep && id ≠ node.id
    have hmem : node ∈ g.readyNodes fun id => id ≠ dep && id ≠ node.id := by
      refine mem_readyNodes.mpr ⟨hnode, by simp, fun e he hto => ?_⟩
      have hself := fromID_ne_of_validate h he
      have hfrom : e.fromID ≠ dep := by
        rintro rfl
        exact hedge (hto ▸ he)
      simp [hfrom, hto ▸ hself]
    have hdone := ((hready node).mp hmem).dependsOn dep hdep
    simp at hdone
  · intro hsynced completed
    refine ⟨nodup_readyNodes, fun node => mem_readyNodes.trans ⟨?_, fun hready => ⟨hready.1, hready.2, hready.3⟩⟩⟩
    rintro ⟨hnode, hpending, hedges⟩
    exact ⟨hnode, hpending, hedges, fun dep hdep => hedges _ (hsynced node hnode dep hdep) rfl⟩

def linked : TaskGraph where
  nodes := ⟨[⟨"b", "", ["a"]⟩, ⟨"a", "", []⟩], by decide⟩
  edges := [⟨"a", "b"⟩]

/-- An edge holds `b` back until `a` is completed. -/
theorem readyNodes_exact_linked :
    (do (← (← addNode {} ⟨"a", "", []⟩).addNode ⟨"b", "", []⟩).addEdge "a" "b") = .ok linked ∧
      linked.readyNodes (fun _ => false) = [⟨"a", "", []⟩] ∧
      ∀ completed node, node ∈ linked.readyNodes completed ↔ linked.Ready completed node := by
  have hvalid : linked.validate = .ok () := by decide +kernel
  have hsynced : linked.Synced := by unfold Synced; decide
  exact ⟨by rfl, by decide +kernel, fun completed => ((readyNodes_exact_iff_synced hvalid).mpr hsynced completed).2⟩

/-- A node that names its prerequisite itself is handed out before it. -/
theorem ready_before_prerequisite : ∃ g : TaskGraph,
    (do (← addNode {} ⟨"a", "", []⟩).addNode ⟨"b", "", ["a"]⟩) = .ok g ∧ g.validate = .ok () ∧
      ⟨"b", "", ["a"]⟩ ∈ g.readyNodes (fun _ => false) ∧ ¬ g.Ready (fun _ => false) ⟨"b", "", ["a"]⟩ := by
  refine ⟨{ linked with edges := [] }, by rfl, by decide +kernel, mem_readyNodes.mpr (by decide), fun hready => ?_⟩
  exact absurd (hready.dependsOn "a" mem_cons_self) Bool.false_ne_true

end TaskGraph

end Maistr0.Scheduler
