import Mathlib

/-!
# Programs in a dialogue with their surroundings

A sequential program asks questions, whose answers it cannot foresee, and does things to its surroundings. What it leaves
behind is a list of all questions with their answers and all effects, in order. A ledger is a state that follows that list;
`wp` is the weakest condition on the ledger before a program under which a condition holds after it, for all answers.
-/

namespace Maistr0.Lib

/-- What a program may ask, with the type of the answer, and what it may do. -/
structure Interface where
  Query : Type → Type 1
  Effect : Type

inductive Dialogue (I : Interface) (α : Type) where
  | done (a : α)
  | ask {β : Type} (q : I.Query β) (next : β → Dialogue I α)
  | tell (e : I.Effect) (next : Dialogue I α)

inductive Item (I : Interface) where
  | asked {β : Type} (q : I.Query β) (answer : β)
  | told (e : I.Effect)

namespace Dialogue

variable {I : Interface} {α β : Type}

def bind : Dialogue I α → (α → Dialogue I β) → Dialogue I β
  | done a, f => f a
  | ask q next, f => ask q fun answer => (next answer).bind f
  | tell e next, f => tell e (next.bind f)

instance : Monad (Dialogue I) where
  pure := done
  bind := bind

def query (q : I.Query α) : Dialogue I α := ask q done

def perform (e : I.Effect) : Dialogue I Unit := tell e (done ())

/-- The program leaves this list behind and ends with this result, for some answers. -/
inductive Runs : Dialogue I α → List (Item I) → α → Prop
  | done (a : α) : Runs (done a) [] a
  | ask {β : Type} {q : I.Query β} {next : β → Dialogue I α} {trace : List (Item I)} {a : α} (answer : β)
      (h : Runs (next answer) trace a) : Runs (ask q next) (.asked q answer :: trace) a
  | tell {e : I.Effect} {next : Dialogue I α} {trace : List (Item I)} {a : α} (h : Runs next trace a) :
      Runs (tell e next) (.told e :: trace) a

/-- The run in which a question is answered by what was asked before it. -/
def exec (oracle : (β : Type) → I.Query β → Nat → β) : Nat → Dialogue I α → List (Item I) × α
  | _, done a => ([], a)
  | n, ask q next =>
    let rest := exec oracle (n + 1) (next (oracle _ q n))
    (.asked q (oracle _ q n) :: rest.1, rest.2)
  | n, tell e next =>
    let rest := exec oracle n next
    (.told e :: rest.1, rest.2)

theorem runs_exec (oracle : (β : Type) → I.Query β → Nat → β) (p : Dialogue I α) (n : Nat) :
    Runs p (p.exec oracle n).1 (p.exec oracle n).2 := by
  induction p generalizing n with
  | done a => exact .done a
  | ask q _ ih => exact .ask (oracle _ q n) (ih (oracle _ q n) (n + 1))
  | tell _ _ ih => exact .tell (ih n)

/-! ### Ledgers -/

section Ledger

variable {σ : Type} (update : Item I → σ → σ)

def follow (trace : List (Item I)) (s : σ) : σ := trace.foldl (fun s item => update item s) s

@[simp] theorem follow_nil (s : σ) : follow update [] s = s := rfl

@[simp] theorem follow_cons (item : Item I) (trace : List (Item I)) (s : σ) :
    follow update (item :: trace) s = follow update trace (update item s) := rfl

/-- A condition that exactly the items in `R` bring about, and none undoes. -/
theorem follow_iff {P : σ → Prop} {R : Item I → Prop} (hstep : ∀ item s, P (update item s) ↔ P s ∨ R item)
    (trace : List (Item I)) (s : σ) : P (follow update trace s) ↔ P s ∨ ∃ item ∈ trace, R item := by
  induction trace generalizing s with
  | nil => simp
  | cons _ _ ih => rw [follow_cons, ih, hstep, List.exists_mem_cons_iff, or_assoc]

/-- Whatever the answers are, `Q` holds of the result and the ledger in the end. -/
def wp : Dialogue I α → (α → σ → Prop) → σ → Prop
  | done a, Q, s => Q a s
  | ask q next, Q, s => ∀ answer, (next answer).wp Q (update (.asked q answer) s)
  | tell e next, Q, s => next.wp Q (update (.told e) s)

variable {update} {Q Q' : α → σ → Prop} {s : σ}

@[simp] theorem wp_pure (a : α) : wp update (pure a) Q s ↔ Q a s := Iff.rfl

@[simp] theorem wp_bind (p : Dialogue I α) (f : α → Dialogue I β) {Q : β → σ → Prop} :
    wp update (p >>= f) Q s ↔ wp update p (fun a s' => wp update (f a) Q s') s := by
  induction p generalizing s with
  | done => exact Iff.rfl
  | ask _ _ ih => exact forall_congr' fun answer => ih answer
  | tell _ _ ih => exact ih

@[simp] theorem wp_ite {c : Prop} [Decidable c] (p q : Dialogue I α) :
    wp update (if c then p else q) Q s ↔ (c → wp update p Q s) ∧ (¬ c → wp update q Q s) := by
  by_cases hc : c <;> simp [hc]

theorem wp_mono {p : Dialogue I α} (h : wp update p Q s) (himp : ∀ a s', Q a s' → Q' a s') : wp update p Q' s := by
  induction p generalizing s with
  | done a => exact himp a s h
  | ask _ _ ih => exact fun answer => ih answer (h answer)
  | tell _ _ ih => exact ih h

theorem wp_runs {p : Dialogue I α} {trace : List (Item I)} {a : α} (h : wp update p Q s) (hruns : Runs p trace a) :
    Q a (follow update trace s) := by
  induction hruns generalizing s with
  | done => exact h
  | ask answer _ ih => exact ih (h answer)
  | tell _ ih => exact ih h

end Ledger

end Dialogue

end Maistr0.Lib
