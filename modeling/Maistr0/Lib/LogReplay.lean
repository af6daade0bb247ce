import Mathlib

/-!
# Machines that remember their log

A machine applies the entries of a log in order. If it remembers what it has applied, an entry that comes again
changes nothing, and a machine that some prefix of the log has brought to its state is, after any entry out of
that prefix or the one next to it, where a prefix of the log leads.
-/

namespace Maistr0.Lib.LogReplay

variable {S E : Type} (step : S → Nat → E → S) (init : S)

/-- The state after the first entries of the log; an entry comes with its index, counted from one. -/
def after (log : List E) : Nat → S
  | 0 => init
  | count + 1 =>
    match log[count]? with
    | some e => step (after log count) (count + 1) e
    | none => after log count

/-- What has been applied is known from then on, and what is known changes nothing. -/
structure Remembers (known : S → E → Prop) : Prop where
  learns : ∀ s i e, known (step s i e) e
  keeps : ∀ s i e e', known s e' → known (step s i e) e'
  still : ∀ s i e, known s e → step s i e = s

variable {step init} {known : S → E → Prop} {log more : List E} {count i : Nat} {e : E}

theorem after_succ (he : log[count]? = some e) :
    after step init log (count + 1) = step (after step init log count) (count + 1) e := by
  rw [after, he]

theorem after_append (h : count ≤ log.length) : after step init (log ++ more) count = after step init log count := by
  induction count with
  | zero => rfl
  | succ _ ih =>
    unfold after
    rw [ih (Nat.le_of_succ_le h), List.getElem?_append_left h]

theorem after_take (h : count ≤ i) : after step init (log.take i) count = after step init log count := by
  induction count with
  | zero => rfl
  | succ _ ih =>
    unfold after
    rw [ih (Nat.le_of_succ_le h), List.getElem?_take_of_lt h]

theorem after_mono {P : S → Prop} (hkeep : ∀ s i e, P s → P (step s i e)) (h : i ≤ count)
    (hi : P (after step init log i)) : P (after step init log count) := by
  induction h with
  | refl => exact hi
  | step _ ih =>
    unfold after
    split
    · exact hkeep _ _ _ ih
    · exact ih

namespace Remembers

variable (h : Remembers step known)
include h

theorem known_after (hlt : i < count) (he : log[i]? = some e) : known (after step init log count) e := by
  refine after_mono (P := fun s => known s e) (fun s j e' => h.keeps s j e' e) hlt ?_
  rw [after_succ he]
  exact h.learns _ _ e

theorem step_after (hle : i ≤ count) (he : log[i]? = some e) :
    step (after step init log count) (i + 1) e = after step init log (max count (i + 1)) := by
  rcases Nat.lt_or_eq_of_le hle with hlt | rfl
  · rw [h.still _ _ e (h.known_after hlt he), Nat.max_eq_left hlt]
  · rw [Nat.max_eq_right (Nat.le_succ i), after_succ he]

end Remembers

end Maistr0.Lib.LogReplay
