import Mathlib

/-!
# Runs of a step function

Inputs one after the other, each of which has to be allowed in the state where it comes.
-/

namespace Maistr0.Lib.Guarded

variable {σ ι : Type}

def run (step : σ → ι → σ) (allowed : σ → ι → Bool) : σ → List ι → Option σ
  | s, [] => some s
  | s, i :: inputs => if allowed s i then run step allowed (step s i) inputs else none

theorem run_invariant {step : σ → ι → σ} {allowed : σ → ι → Bool} {P : σ → Prop}
    (hstep : ∀ s i, P s → allowed s i = true → P (step s i)) {inputs : List ι} {s s' : σ} (hs : P s)
    (h : run step allowed s inputs = some s') : P s' := by
  induction inputs generalizing s with
  | nil => exact Option.some.inj h ▸ hs
  | cons i _ ih =>
    unfold run at h
    split at h
    · exact ih (hstep s i hs (by assumption)) h
    · cases h

end Maistr0.Lib.Guarded
