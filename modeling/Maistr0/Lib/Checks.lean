import Mathlib

/-!
# Checks that return the first error

A function that checks one thing after the other and returns the first error is a sequence in `Except`. What
its success says is read off the sequence, and two runs are compared check by check.
-/

namespace Maistr0.Lib.Checks

def failIf (failed : Bool) (err : String) : Except String Unit := if failed then .error err else .ok ()

theorem failIf_eq_ok {failed : Bool} {err : String} {u : Unit} : failIf failed err = .ok u ↔ failed = false := by
  cases failed <;> simp [failIf]

variable {α β : Type} {R : α → α → Prop}

theorem bind_eq_ok {check : Except String α} {rest : α → Except String β} {b : β} :
    check >>= rest = .ok b ↔ ∃ a, check = .ok a ∧ rest a = .ok b := by
  cases check with
  | error | ok a => simp [bind, Except.bind]

inductive Alike (R : α → α → Prop) : Except String α → Except String α → Prop
  | error (err : String) : Alike R (.error err) (.error err)
  | ok {a b : α} (h : R a b) : Alike R (.ok a) (.ok b)

theorem Alike.refl (h : ∀ a, R a a) (x : Except String α) : Alike R x x := by
  cases x with
  | error err => exact .error err
  | ok a => exact .ok (h a)

theorem Alike.bind {S : β → β → Prop} {x y : Except String α} {f g : α → Except String β}
    (h : Alike R x y) (hrest : ∀ a b, R a b → Alike S (f a) (g b)) : Alike S (x >>= f) (y >>= g) := by
  cases h with
  | error err => exact .error err
  | ok h => exact hrest _ _ h

theorem Alike.mapError {x y : Except String α} (h : Alike R x y) (f : String → String) :
    Alike R (x.mapError f) (y.mapError f) := by
  cases h with
  | error err => exact .error (f err)
  | ok h => exact .ok h

end Maistr0.Lib.Checks
