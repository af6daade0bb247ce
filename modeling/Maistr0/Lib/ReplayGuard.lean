import Mathlib

/-!
# Replay guards

Messages carry a key and a stamp. A guard admits a message whose stamp is not below a floor and above the
newest stamp it remembers for the key. The floor only rises, and what is below it may be forgotten: such a
stamp is refused for its age.
-/

namespace Maistr0.Lib.ReplayGuard

variable {K T : Type} [LinearOrder T] {floor floor' : T} {table table' : K → Option T} {past : List (K × T)}
  {k : K} {t : T}

/-- Every message of the past is below the floor or not above what is remembered for its key. -/
def Guards (floor : T) (table : K → Option T) (past : List (K × T)) : Prop :=
  ∀ m ∈ past, m.2 < floor ∨ ∃ newest, table m.1 = some newest ∧ m.2 ≤ newest

structure Admits (floor : T) (table : K → Option T) (k : K) (t : T) : Prop where
  recent : floor ≤ t
  newer : ∀ newest, table k = some newest → newest < t

theorem guards_nil : Guards floor table [] := fun _ hm => absurd hm List.not_mem_nil

section

variable (h : Guards floor table past)

include h

theorem Guards.raise (hle : floor ≤ floor') : Guards floor' table past :=
  fun m hm => (h m hm).imp_left fun hlt => hlt.trans_le hle

theorem Guards.lt_of_admits (hadmits : Admits floor table k t) : ∀ m ∈ past, m.1 = k → m.2 < t := by
  rintro m hm rfl
  rcases h m hm with hold | ⟨newest, htable, hle⟩
  · exact hold.trans_le hadmits.recent
  · exact hle.trans_lt (hadmits.newer newest htable)

theorem Guards.record [DecidableEq K] (hadmits : Admits floor table k t) :
    Guards floor (Function.update table k (some t)) ((k, t) :: past) := by
  intro m hm
  rcases List.mem_cons.mp hm with rfl | hm
  · exact .inr ⟨t, Function.update_self k (some t) table, le_rfl⟩
  by_cases hkey : m.1 = k
  · exact .inr ⟨t, by rw [hkey, Function.update_self], (h.lt_of_admits hadmits m hm hkey).le⟩
  · rw [Function.update_of_ne hkey]
    exact h m hm

theorem Guards.forget (hkeep : ∀ k newest, table k = some newest → floor ≤ newest → table' k = some newest) :
    Guards floor table' past := by
  intro m hm
  rcases h m hm with hold | ⟨newest, htable, hle⟩
  · exact .inl hold
  rcases lt_or_ge newest floor with hlt | hge
  · exact .inl (hle.trans_lt hlt)
  · exact .inr ⟨newest, hkeep m.1 newest htable hge, hle⟩

end

end Maistr0.Lib.ReplayGuard
