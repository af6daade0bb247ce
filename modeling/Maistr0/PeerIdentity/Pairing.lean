import Maistr0.Go

/-!
# The pairing PIN

An identity has at most one pairing PIN, of six digits, for first contact. It is made, verified and consumed under
the identity's lock, so that any interleaving of the calls is a history of whole calls, each with the clock reading
it takes while it holds the lock.
-/

namespace Maistr0.PeerIdentity

open List

/-- What an identity keeps about its pairing PIN; the empty text is no PIN. -/
structure Pairing where
  pairingPIN : String := ""
  pairingExpires : Go.Time := 0
  pairingAttempts : Nat := 0

/-- `30 * time.Minute`. -/
def pairingLifetime : Go.Duration := 30 * 60 * 1000000000

/-- The six digits that four random bytes give. -/
def pairingCode (value : UInt32) : String := toString (value.toNat % 900000 + 100000)

namespace Pairing

variable (s : Pairing) (pin : String) (now : Go.Time)

/-- `NewPairingPIN`; without random bytes it fails and changes nothing. -/
def newPairingPIN (random : Option UInt32) : Option String × Pairing :=
  match random with
  | none => (none, s)
  | some value =>
    (some (pairingCode value),
      { pairingPIN := pairingCode value, pairingExpires := now + pairingLifetime, pairingAttempts := 0 })

def pairingPINActiveLocked : Bool := s.pairingPIN ≠ "" && s.pairingAttempts < 20 && now < s.pairingExpires

def verifyPairingPIN : Bool := s.pairingPINActiveLocked now && pin == s.pairingPIN

def activePairingPIN : Option (String × Go.Time) :=
  if s.pairingPINActiveLocked now then some (s.pairingPIN, s.pairingExpires) else none

def consumePairingPIN : Bool × Pairing :=
  if !s.pairingPINActiveLocked now then
    (false, s)
  else if pin ≠ s.pairingPIN then
    let attempts := s.pairingAttempts + 1
    (false, { s with
      pairingAttempts := attempts, pairingPIN := if 20 ≤ attempts then "" else s.pairingPIN })
  else
    (true, { s with pairingPIN := "", pairingExpires := 0 })

end Pairing

open Pairing

inductive PairingCall
  | create (random : Option UInt32)
  | verify (pin : String)
  | active
  | consume (pin : String)
  deriving DecidableEq

abbrev PairingEvent := Go.Time × PairingCall

def Pairing.step (s : Pairing) : PairingEvent → Pairing
  | (now, .create random) => (s.newPairingPIN now random).2
  | (_, .verify _) => s
  | (_, .active) => s
  | (now, .consume pin) => (s.consumePairingPIN pin now).2

def Pairing.after (history : List PairingEvent) : Pairing := history.foldl Pairing.step {}

def Accepts (history : List PairingEvent) (pin : String) (now : Go.Time) : Prop :=
  ((after history).consumePairingPIN pin now).1 = true

def isConsume : PairingEvent → Bool
  | (_, .consume _) => true
  | _ => false

/-- The calls that counted against a PIN that expires then. -/
def isAttempt (expires : Go.Time) (e : PairingEvent) : Bool := isConsume e && e.1 < expires

variable {s : Pairing} {pin : String} {now : Go.Time}

theorem pairingCode_ne_empty (value : UInt32) : pairingCode value ≠ "" := Nat.repr_ne_empty

theorem Pairing.after_concat (history : List PairingEvent) (e : PairingEvent) :
    after (history ++ [e]) = (after history).step e := by
  simp [after]

theorem Pairing.consume_accepts (h : (s.consumePairingPIN pin now).1 = true) :
    s.pairingPINActiveLocked now = true ∧ pin = s.pairingPIN := by
  unfold consumePairingPIN at h
  split at h
  · cases h
  split at h
  · cases h
  · exact ⟨by simpa using ‹¬ (!s.pairingPINActiveLocked now) = true›, by simpa using ‹¬ pin ≠ _›⟩

theorem Pairing.active_iff :
    s.pairingPINActiveLocked now = true ↔ (s.pairingPIN ≠ "" ∧ s.pairingAttempts < 20) ∧ now < s.pairingExpires := by
  simp [pairingPINActiveLocked]

structure Origin (history : List PairingEvent) (s : Pairing) (before : List PairingEvent) (made : Go.Time)
    (value : UInt32) (since : List PairingEvent) : Prop where
  split : history = before ++ (made, .create (some value)) :: since
  code : s.pairingPIN = pairingCode value
  expires : s.pairingExpires = made + pairingLifetime
  newest : ∀ t v, (t, PairingCall.create (some v)) ∉ since
  attempts : s.pairingAttempts = since.countP (isAttempt (made + pairingLifetime))
  few : s.pairingAttempts < 20
  refused : ∀ first t pin rest, since = first ++ (t, .consume pin) :: rest →
    ¬ Accepts (before ++ (made, .create (some value)) :: first) pin t

variable {history before since : List PairingEvent} {s : Pairing} {made now : Go.Time} {value : UInt32}

section

variable (h : Origin history (after history) before made value since)

include h

theorem Origin.concat {e : PairingEvent} (hmakes : ∀ t v, e ≠ (t, .create (some v)))
    (hrefused : ∀ t pin, e = (t, .consume pin) → ¬ Accepts history pin t) (hcode : s.pairingPIN = pairingCode value)
    (hexpires : s.pairingExpires = made + pairingLifetime) (hattempts : s.pairingAttempts
      = (after history).pairingAttempts + if isAttempt (made + pairingLifetime) e then 1 else 0)
    (hfew : s.pairingAttempts < 20) : Origin (history ++ [e]) s before made value (since ++ [e]) where
  split := by rw [h.split, append_assoc, cons_append]
  code := hcode
  expires := hexpires
  newest t v hmem := by
    rcases mem_append.mp hmem with hmem | hmem
    · exact h.newest t v hmem
    · exact hmakes t v (mem_singleton.mp hmem).symm
  attempts := by rw [hattempts, h.attempts, countP_append, countP_singleton]
  few := hfew
  refused first t pin rest hsplit := by
    -- the call is an earlier one, or the last
    rcases eq_nil_or_concat rest with rfl | ⟨rest, last, rfl⟩
    · obtain ⟨rfl, he⟩ := append_inj' hsplit rfl
      rw [← h.split]
      exact hrefused t pin (singleton_inj.mp he)
    · rw [concat_eq_append, ← cons_append, ← append_assoc] at hsplit
      exact h.refused first t pin rest (append_inj' hsplit rfl).1

theorem Origin.stay {e : PairingEvent} (hmakes : ∀ t v, e ≠ (t, .create (some v)))
    (hrefused : ∀ t pin, e = (t, .consume pin) → ¬ Accepts history pin t)
    (hidle : isAttempt (made + pairingLifetime) e = false) :
    Origin (history ++ [e]) (after history) before made value (since ++ [e]) :=
  h.concat hmakes hrefused h.code h.expires (by rw [hidle]; rfl) h.few

/-- A consumption that is not accepted: the PIN has expired, or the code is wrong and the attempt counts. -/
theorem Origin.consume (hrefused : ¬ Accepts history pin now) :
    ((after history).consumePairingPIN pin now).2.pairingPIN = "" ∨
      Origin (history ++ [(now, .consume pin)]) ((after history).consumePairingPIN pin now).2 before made
        value (since ++ [(now, .consume pin)]) := by
  have hmakes : ∀ t v, (now, PairingCall.consume pin) ≠ (t, .create (some v)) := fun _ _ => nofun
  have hlast : ∀ t q, (now, PairingCall.consume pin) = (t, .consume q) → ¬ Accepts history q t := by
    rintro _ _ ⟨⟩
    exact hrefused
  unfold Accepts at hrefused
  by_cases hactive : (after history).pairingPINActiveLocked now = true
  · have hnow := (active_iff.mp hactive).2
    rw [h.expires] at hnow
    unfold consumePairingPIN at hrefused ⊢
    simp only [hactive, Bool.not_true, Bool.false_eq_true, if_false] at hrefused ⊢
    split at hrefused
    · rename_i hpin
      rw [if_pos hpin]
      by_cases hspent : 20 ≤ (after history).pairingAttempts + 1
      · exact .inl (if_pos hspent)
      refine .inr (h.concat hmakes hlast ?_ h.expires ?_ (Nat.lt_of_not_le hspent))
      · exact (if_neg hspent).trans h.code
      · simp [isAttempt, isConsume, hnow]
    · exact absurd rfl hrefused
  · -- the PIN is there, with attempts left, so it must have expired
    have hlate : ¬ now < made + pairingLifetime := by
      rw [← h.expires]
      intro hnow
      exact hactive (active_iff.mpr ⟨⟨h.code ▸ pairingCode_ne_empty value, h.few⟩, hnow⟩)
    have hsame : (after history).consumePairingPIN pin now = (false, after history) := by
      simp [consumePairingPIN, hactive]
    rw [hsame]
    exact .inr (h.stay hmakes hlast (by simp [isAttempt, hlate]))

end

theorem Pairing.consume_gone (h : s.pairingPIN = "" ∨ (s.consumePairingPIN pin now).1 = true) :
    (s.consumePairingPIN pin now).2.pairingPIN = "" := by
  rcases h with h | h
  · have hidle : s.pairingPINActiveLocked now = false := by simp [pairingPINActiveLocked, h]
    simpa [consumePairingPIN, hidle] using h
  · obtain ⟨hactive, hpin⟩ := consume_accepts h
    simp [consumePairingPIN, hactive, hpin]

theorem Pairing.origin (history : List PairingEvent) : (after history).pairingPIN = "" ∨
    ∃ before made value since, Origin history (after history) before made value since := by
  induction history using reverseRecOn with
  | nil => exact .inl rfl
  | append_singleton history e ih =>
    rw [after_concat]
    obtain ⟨now, call⟩ := e
    have hidle : (∀ v, call ≠ .create (some v)) → isConsume (now, call) = false →
        (after history).pairingPIN = "" ∨ ∃ before made value since,
          Origin (history ++ [(now, call)]) (after history) before made value since := by
      intro hmakes hidle
      refine ih.imp_right fun ⟨before, made, value, since, h⟩ => ⟨before, made, value, _, h.stay ?_ ?_ ?_⟩
      · exact fun t v he => hmakes v (Prod.mk.inj he).2
      · rintro t pin ⟨⟩
        cases hidle
      · simp [isAttempt, hidle]
    cases call with
    | create random =>
      cases random with
      | none => exact hidle (fun _ => nofun) rfl
      | some value =>
        refine .inr ⟨history, now, value, [], rfl, rfl, rfl, fun _ _ => not_mem_nil, rfl, Nat.zero_lt_succ 19, ?_⟩
        intro first t pin rest h
        cases first <;> cases h
    | verify | active => exact hidle (fun _ => nofun) rfl
    | consume pin =>
      rcases ih with hnone | ⟨before, made, value, since, h⟩
      · exact .inl (consume_gone (.inl hnone))
      by_cases haccept : Accepts history pin now
      · exact .inl (consume_gone (.inr haccept))
      · exact (h.consume haccept).imp_right fun h => ⟨before, made, value, _, h⟩

/-- Whatever consume accepts is the newest PIN, before it expires, and none of the fewer than twenty attempts since
it was made was accepted. -/
theorem pairing_pin_is_single_use (history : List PairingEvent) (pin : String) (now : Go.Time)
    (hclock : ((history ++ [(now, PairingCall.consume pin)]).map Prod.fst).Pairwise (· ≤ ·))
    (haccept : Accepts history pin now) :
    ∃ before made value since, history = before ++ (made, .create (some value)) :: since ∧
      pin = pairingCode value ∧ now < made + pairingLifetime ∧
      (∀ t v, (t, PairingCall.create (some v)) ∉ since) ∧ since.countP isConsume < 20 ∧
      ∀ first t q rest, since = first ++ (t, .consume q) :: rest →
        ¬ Accepts (before ++ (made, .create (some value)) :: first) q t := by
  obtain ⟨hactive, hpin⟩ := consume_accepts haccept
  obtain ⟨⟨hne, hfew⟩, hnow⟩ := active_iff.mp hactive
  obtain ⟨before, made, value, since, h⟩ := (origin history).resolve_left hne
  rw [h.expires] at hnow
  refine ⟨before, made, value, since, h.split, hpin.trans h.code, hnow, h.newest, ?_, h.refused⟩
  -- the clock has not passed the expiry at any of the attempts, so all of them were counted
  have hall : since.countP isConsume = since.countP (isAttempt (made + pairingLifetime)) := by
    refine countP_congr fun e he => ?_
    have hle : e.1 ≤ now := by
      rw [map_append, pairwise_append] at hclock
      refine hclock.2.2 e.1 (mem_map_of_mem ?_) now mem_cons_self
      rw [h.split]
      exact mem_append_right _ (mem_cons_of_mem _ he)
    have hearly : e.1 < made + pairingLifetime := Int.lt_of_le_of_lt hle hnow
    simp [isAttempt, hearly]
  rw [hall, ← h.attempts]
  exact hfew

/-- The second PIN is accepted after one wrong attempt. -/
theorem pairing_pin_accepted : let history : List PairingEvent :=
    [(0, .create (some 7)), (1, .create (some 8)), (2, .consume "100007")]
    Accepts history "100008" 3 ∧
    ∃ before made value since, history = before ++ (made, .create (some value)) :: since ∧
      "100008" = pairingCode value ∧ 3 < made + pairingLifetime ∧
      (∀ t v, (t, PairingCall.create (some v)) ∉ since) ∧ since.countP isConsume < 20 ∧
      ∀ first t q rest, since = first ++ (t, .consume q) :: rest →
        ¬ Accepts (before ++ (made, .create (some value)) :: first) q t := by
  intro history
  have haccept : Accepts history "100008" 3 := by
    unfold Accepts
    decide +kernel
  exact ⟨haccept, pairing_pin_is_single_use history "100008" 3 (by decide) haccept⟩

end Maistr0.PeerIdentity
