import Mathlib

/-!
# Tasks that share a state

Any number of tasks, each with a state of its own, around one shared state. A step is a move of one task,
a disturbance of the shared state from outside, or the start of a task. There are three rules for what every
run keeps: a stock of the shared state that is the sum of what the tasks hold of it, a property of the
shared state together with one of each task where no two tasks own the same, and that there is a task for what the
shared state needs.
-/

namespace Maistr0.Lib.Interleaving

open List

variable {σ τ ε : Type}

structure System (σ τ ε : Type) where
  moves : σ → τ → ε → σ → τ → Prop
  disturbs : σ → ε → σ → Prop
  starts : σ → τ → Prop

structure State (σ τ : Type) where
  shared : σ
  tasks : List τ := []

inductive Step (S : System σ τ ε) : State σ τ → Option ε → State σ τ → Prop
  | move {g g' : σ} {t t' : τ} {e : ε} (l r : List τ) (h : S.moves g t e g' t') :
      Step S ⟨g, l ++ t :: r⟩ (some e) ⟨g', l ++ t' :: r⟩
  | disturb {g g' : σ} {e : ε} (ts : List τ) (h : S.disturbs g e g') : Step S ⟨g, ts⟩ (some e) ⟨g', ts⟩
  | start {g : σ} {t : τ} (ts : List τ) (h : S.starts g t) : Step S ⟨g, ts⟩ none ⟨g, ts ++ [t]⟩

def Run (S : System σ τ ε) : State σ τ → State σ τ → Prop := Relation.ReflTransGen fun s s' => ∃ e, Step S s e s'

def System.restrict (S : System σ τ ε) (allowed : σ → ε → Prop) : System σ τ ε where
  moves g t e g' t' := S.moves g t e g' t' ∧ allowed g e
  disturbs g e g' := S.disturbs g e g' ∧ allowed g e
  starts := S.starts

variable {S : System σ τ ε} {s s' : State σ τ} {e : Option ε}

theorem Step.of_restrict {allowed : σ → ε → Prop} (h : Step (S.restrict allowed) s e s') : Step S s e s' := by
  cases h with
  | move l r h => exact .move l r h.1
  | disturb ts h => exact .disturb ts h.1
  | start ts h => exact .start ts h

theorem Run.of_restrict {allowed : σ → ε → Prop} (h : Run (S.restrict allowed) s s') : Run S s s' :=
  Relation.ReflTransGen.mono (fun _ _ hstep => hstep.imp fun _ => Step.of_restrict) _ _ h

section

variable {g g' : σ} {t t' : τ} {ts : List τ} {e : ε}

theorem Run.move (l r : List τ) (h : Run S s ⟨g, l ++ t :: r⟩) (hmove : S.moves g t e g' t') :
    Run S s ⟨g', l ++ t' :: r⟩ :=
  h.tail ⟨_, .move l r hmove⟩

theorem Run.disturb (h : Run S s ⟨g, ts⟩) (hdisturb : S.disturbs g e g') : Run S s ⟨g', ts⟩ :=
  h.tail ⟨_, .disturb ts hdisturb⟩

theorem Run.start (h : Run S s ⟨g, ts⟩) (hstart : S.starts g t) : Run S s ⟨g, ts ++ [t]⟩ :=
  h.tail ⟨_, .start ts hstart⟩

end

/-! ### What the tasks hold together -/

def total (share : τ → Nat) (ts : List τ) : Nat := (ts.map share).sum

theorem total_split (share : τ → Nat) (l r : List τ) (t : τ) :
    total share (l ++ t :: r) = total share (l ++ r) + share t := by
  unfold total
  rw [map_append, map_append, map_cons, sum_append, sum_append, sum_cons]
  omega

structure Conserves (S : System σ τ ε) (stock : σ → Int) (share : τ → Nat) : Prop where
  move : ∀ {g t e g' t'}, S.moves g t e g' t' → stock g' + share t = stock g + share t'
  disturb : ∀ {g e g'}, S.disturbs g e g' → stock g' = stock g
  start : ∀ {g t}, S.starts g t → share t = 0

variable {stock : σ → Int} {share : τ → Nat}

theorem Conserves.step (hS : Conserves S stock share) (h : Step S s e s')
    (hs : stock s.shared = total share s.tasks) : stock s'.shared = total share s'.tasks := by
  cases h with
  | @move g g' t t' e l r h =>
    have hmove := hS.move h
    rw [total_split] at hs ⊢
    push_cast at hs ⊢
    omega
  | disturb _ h => exact (hS.disturb h).trans hs
  | @start g t ts h =>
    rw [total_split, append_nil, hS.start h, Nat.add_zero]
    exact hs

theorem Conserves.run (hS : Conserves S stock share) (h : Run S s s') (hs : stock s.shared = total share s.tasks) :
    stock s'.shared = total share s'.tasks := by
  induction h with
  | refl => exact hs
  | tail _ hstep ih =>
    obtain ⟨_, hstep⟩ := hstep
    exact hS.step hstep ih

/-! ### Invariants -/

def State.Fine (P : σ → Prop) (Q : σ → τ → Prop) (s : State σ τ) : Prop := P s.shared ∧ ∀ t ∈ s.tasks, Q s.shared t

def State.Apart {κ : Type} (owns : τ → κ → Prop) (s : State σ τ) : Prop :=
  s.tasks.Pairwise fun t u => ∀ k, owns t k → ¬ owns u k

/-- What one step keeps. A move has to leave those other tasks fine that own nothing the task owns that moves, and it
may only take what no other task owns. -/
structure KeepsApart {κ : Type} (S : System σ τ ε) (P : σ → Prop) (Q : σ → τ → Prop) (owns : τ → κ → Prop) : Prop where
  move : ∀ {g t e g' t'}, S.moves g t e g' t' → P g → Q g t → P g' ∧ Q g' t' ∧
    (∀ u, Q g u → (∀ k, owns t k → ¬ owns u k) → Q g' u) ∧ ∀ k, owns t' k → owns t k ∨ ∀ u, Q g u → ¬ owns u k
  disturb : ∀ {g e g'}, S.disturbs g e g' → P g → P g' ∧ ∀ u, Q g u → Q g' u
  start : ∀ {g t}, S.starts g t → P g → Q g t ∧ ∀ k, ¬ owns t k

variable {P : σ → Prop} {Q : σ → τ → Prop} {κ : Type} {owns : τ → κ → Prop}

theorem KeepsApart.step (hS : KeepsApart S P Q owns) (h : Step S s e s') (hs : s.Fine P Q)
    (hapart : s.Apart owns) : s'.Fine P Q ∧ s'.Apart owns := by
  have hsymm : ∀ {t u : τ}, (∀ k, owns t k → ¬ owns u k) → ∀ k, owns u k → ¬ owns t k := fun h k hu ht => h k ht hu
  obtain ⟨hP, hQ⟩ := hs
  cases h with
  | @move g g' t t' e l r h =>
    obtain ⟨hP', ht', hothers, htaken⟩ := hS.move h hP (hQ _ (mem_append_right _ mem_cons_self))
    obtain ⟨hapart_t, hrest⟩ := pairwise_cons.mp ((pairwise_middle @hsymm).mp hapart)
    have hQ_rest : ∀ u ∈ l ++ r, Q g u := by
      intro u hu
      apply hQ u
      rw [mem_append] at hu ⊢
      exact hu.imp_right (mem_cons_of_mem _)
    refine ⟨⟨hP', fun u hu => ?_⟩, (pairwise_middle @hsymm).mpr (pairwise_cons.mpr ⟨fun u hu k hk => ?_, hrest⟩)⟩
    · rw [mem_append, mem_cons, or_left_comm, ← mem_append] at hu
      rcases hu with rfl | hu
      · exact ht'
      · exact hothers u (hQ_rest u hu) (hapart_t u hu)
    · rcases htaken k hk with hkept | hfree
      · exact hapart_t u hu k hkept
      · exact hfree u (hQ_rest u hu)
  | disturb _ h =>
    obtain ⟨hP', hothers⟩ := hS.disturb h hP
    exact ⟨⟨hP', fun u hu => hothers u (hQ u hu)⟩, hapart⟩
  | @start g t ts h =>
    obtain ⟨ht, hnothing⟩ := hS.start h hP
    refine ⟨⟨hP, fun u hu => ?_⟩, pairwise_append.mpr ⟨hapart, pairwise_singleton _ _, fun u _ v hv k _ => ?_⟩⟩
    · rcases mem_append.mp hu with hu | hu
      · exact hQ u hu
      · obtain rfl := mem_singleton.mp hu
        exact ht
    · obtain rfl := mem_singleton.mp hv
      exact hnothing k

theorem KeepsApart.run (hS : KeepsApart S P Q owns) (h : Run S s s') (hs : s.Fine P Q) (hapart : s.Apart owns) :
    s'.Fine P Q ∧ s'.Apart owns := by
  induction h with
  | refl => exact ⟨hs, hapart⟩
  | tail _ hstep ih =>
    obtain ⟨_, hstep⟩ := hstep
    exact hS.step hstep ih.1 ih.2

/-- What one step keeps if the tasks own nothing: a move has to leave all other tasks fine. -/
structure Keeps (S : System σ τ ε) (P : σ → Prop) (Q : σ → τ → Prop) : Prop where
  move : ∀ {g t e g' t'}, S.moves g t e g' t' → P g → Q g t → P g' ∧ Q g' t' ∧ ∀ u, Q g u → Q g' u
  disturb : ∀ {g e g'}, S.disturbs g e g' → P g → P g' ∧ ∀ u, Q g u → Q g' u
  start : ∀ {g t}, S.starts g t → P g → Q g t

theorem Keeps.apart (hS : Keeps S P Q) : KeepsApart S P Q fun (_ : τ) (_ : Empty) => False where
  move h hP ht := by
    obtain ⟨hP', ht', hothers⟩ := hS.move h hP ht
    exact ⟨hP', ht', fun u hu _ => hothers u hu, nofun⟩
  disturb := hS.disturb
  start h hP := ⟨hS.start h hP, nofun⟩

theorem Keeps.run (hS : Keeps S P Q) (h : Run S s s') (hs : s.Fine P Q) : s'.Fine P Q :=
  (hS.apart.run h hs (pairwise_of_forall fun _ _ => nofun)).1

/-! ### A task for each need -/

/-- What is needed after a step was needed before, and the tasks that served still do; unless the task that moves
serves now. -/
structure Attends (S : System σ τ ε) (P need : σ → Prop) (serves : σ → τ → Prop) : Prop where
  move : ∀ {g t e g' t'}, S.moves g t e g' t' → P g → need g' →
    serves g' t' ∨ need g ∧ ¬ serves g t ∧ ∀ u, serves g u → serves g' u
  disturb : ∀ {g e g'}, S.disturbs g e g' → P g → need g' → need g ∧ ∀ u, serves g u → serves g' u

variable {need : σ → Prop} {serves : σ → τ → Prop}

theorem Attends.step (hS : Attends S P need serves) (h : Step S s e s') (hP : P s.shared)
    (hs : need s.shared → ∃ t ∈ s.tasks, serves s.shared t) (hneed : need s'.shared) :
    ∃ t ∈ s'.tasks, serves s'.shared t := by
  cases h with
  | @move g g' t t' e l r h =>
    rcases hS.move h hP hneed with ht' | ⟨hneed, ht, hothers⟩
    · exact ⟨t', mem_append_right _ mem_cons_self, ht'⟩
    obtain ⟨u, hu, hserves⟩ := hs hneed
    have hne : u ≠ t := fun heq => ht (heq ▸ hserves)
    refine ⟨u, ?_, hothers u hserves⟩
    simp only [mem_append, mem_cons, hne, false_or] at hu ⊢
    exact hu.imp_right .inr
  | disturb _ h =>
    obtain ⟨hneed, hothers⟩ := hS.disturb h hP hneed
    obtain ⟨u, hu, hserves⟩ := hs hneed
    exact ⟨u, hu, hothers u hserves⟩
  | start =>
    obtain ⟨u, hu, hserves⟩ := hs hneed
    exact ⟨u, mem_append_left _ hu, hserves⟩

theorem Attends.run (hS : Attends S P need serves) (hK : Keeps S P fun _ _ => True) (h : Run S s s') (hP : P s.shared)
    (hs : need s.shared → ∃ t ∈ s.tasks, serves s.shared t) : need s'.shared → ∃ t ∈ s'.tasks, serves s'.shared t := by
  induction h with
  | refl => exact hs
  | tail hrun hstep ih =>
    obtain ⟨_, hstep⟩ := hstep
    exact hS.step hstep (hK.run hrun ⟨hP, fun _ _ => trivial⟩).1 ih

end Maistr0.Lib.Interleaving
