import Maistr0.Orchestrator.Hedging

/-!
# A hedged candidate leaves nothing behind

Each stage of the call says how far the goroutines and the reservation are; a step of a goroutine changes
none of that. With it, what was taken and given back is read off the stage the call returns from. One of
the two attempts wins at most, because a winner finds its subtask running and leaves it completed, which
it stays whatever is called meanwhile.
-/

namespace Maistr0.Orchestrator

open Taskmgr System

inductive RacerStatus where
  | idle
  | live
  | received
deriving DecidableEq

def Racer.status : Racer → RacerStatus
  | .idle => .idle
  | .running _ | .notifying _ | .sent _ => .live
  | .received _ => .received

def Racer.series? : Racer → Option Series
  | .idle => none
  | .running s | .notifying s | .sent s | .received s => some s

def HedgeStage.hedge? : HedgeStage → Option Candidate
  | .chosen hedge | .reserving hedge | .reserved hedge _ | .checked hedge | .armed hedge => some hedge
  | _ => none

inductive ReservationStatus where
  | idle
  | underway
  | refused
  | held
  | loaded
  | over
deriving DecidableEq

namespace HedgeCall

def reservationStatus (c : HedgeCall) : Option ReservationStatus :=
  match c.reserve, c.reservation with
  | .idle, none => some .idle
  | .pending, none | .sent false, none | .sent true, some ⟨false, false⟩ => some .underway
  | .received, none => some .refused
  | .received, some ⟨false, false⟩ => some .held
  | .received, some ⟨true, false⟩ => some .loaded
  | .received, some ⟨_, true⟩ => some .over
  | _, _ => none

def Settled (c : HedgeCall) : Prop :=
  c.reservationStatus = some .idle ∨ c.reservationStatus = some .refused ∨ c.reservationStatus = some .over

def Fits (c : HedgeCall) : Prop :=
  match c.stage with
  | .deciding =>
    c.primary.status = .idle ∧ c.secondary.status = .idle ∧ c.reservationStatus = some .idle ∧ c.slotHeld = false ∧
      c.slotsTaken = 0
  | .direct =>
    c.primary.status = .live ∧ c.secondary.status = .idle ∧ c.reservationStatus = some .idle ∧ c.slotHeld = false
  | .waiting | .expired | .unready | .choosing | .chosen _ =>
    c.primary.status = .live ∧ c.secondary.status = .idle ∧ c.reservationStatus = some .idle
  | .reserving _ | .abandoning none =>
    c.primary.status = .live ∧ c.secondary.status = .idle ∧ c.reservationStatus = some .underway
  | .abandoning (some _) =>
    c.primary.status = .received ∧ c.secondary.status = .idle ∧ c.reservationStatus = some .underway
  | .reserved _ false => c.primary.status = .live ∧ c.secondary.status = .idle ∧ c.reservationStatus = some .refused
  | .reserved _ true | .checked _ | .armed _ =>
    c.primary.status = .live ∧ c.secondary.status = .idle ∧ c.reservationStatus = some .held
  | .racing primaryResult secondaryResult =>
    c.primary.status = (if primaryResult.isSome then .received else .live) ∧
      c.secondary.status = (if secondaryResult.isSome then .received else .live) ∧ c.reservationStatus = some .loaded
  | .awaiting => c.primary.status = .live ∧ c.secondary.status = .idle ∧ c.Settled
  | .returned _ => c.primary.status = .received ∧ c.secondary.status ≠ .live ∧ c.Settled ∧ c.slotHeld = false

def outstanding : Option DispatchReservation → Nat
  | some ⟨_, false⟩ => 1
  | _ => 0

def loadOf : Option DispatchReservation → Int
  | some ⟨true, false⟩ => 1
  | _ => 0

structure Books (c : HedgeCall) : Prop where
  slots : c.slotsTaken = c.slotsGiven + c.slotHeld.toNat
  slotsOnce : c.slotsTaken ≤ 1
  reservations : c.reservationsTaken = c.reservationsGiven + outstanding c.reservation
  reservationsOnce : c.reservationsTaken ≤ 1
  unreserved : c.reservation = none → c.reservationsTaken = 0
  load : c.load = loadOf c.reservation

section

variable {cfg : HedgeSetting} {c c' : HedgeCall} {r : Racer}

/-! ### The updates -/

theorem releaseSlot_eq (c : HedgeCall) :
    c.releaseSlot = { c with slotHeld := false, slotsGiven := c.slotsGiven + c.slotHeld.toNat } := by
  obtain ⟨_, _, _, _, _, _, _, _, slotHeld, _, _, _, _, _, _⟩ := c
  cases slotHeld <;> rfl

theorem release_eq (c : HedgeCall) : c.release = { c with
      reservation := c.reservation.map fun r => { r with released := true }
      load := c.load - loadOf c.reservation
      reservationsGiven := c.reservationsGiven + outstanding c.reservation } := by
  obtain ⟨_, _, _, _, _, _, _, reservation, _, _, _, _, _, _, _⟩ := c
  cases reservation with
  | none => simp [release, loadOf, outstanding]
  | some r =>
    obtain ⟨loadedNow, released⟩ := r
    cases loadedNow <;> cases released <;> simp [release, loadOf, outstanding]

theorem racers_release (c : HedgeCall) : c.release.primary = c.primary ∧ c.release.secondary = c.secondary := by
  rw [release_eq]
  exact ⟨rfl, rfl⟩

theorem start_frame (c : HedgeCall) : c.start = { c with reservation := c.start.reservation, load := c.start.load } := by
  unfold start
  split
  · rfl
  · split <;> rfl

theorem start_eq (h : c.reservation = some {}) :
    c.start = { c with reservation := some { loaded := true }, load := c.load + 1 } := by
  unfold start
  rw [h]
  rfl

theorem onWinner_frame (c : HedgeCall) (side : Side) : ∃ winner, c.onWinner side = { c with winner } := by
  unfold onWinner
  split
  · exact ⟨_, rfl⟩
  · exact ⟨c.winner, rfl⟩

theorem reservation_of_status {status : ReservationStatus} (h : c.reservationStatus = some status) : match status with
    | .idle => c.reserve = .idle ∧ c.reservation = none
    | .underway => c.reserve ≠ .received
    | .refused => c.reserve = .received ∧ c.reservation = none
    | .held => c.reserve = .received ∧ c.reservation = some {}
    | .loaded => c.reserve = .received ∧ c.reservation = some { loaded := true }
    | .over => c.reserve = .received ∧ ∃ loaded, c.reservation = some { loaded, released := true } := by
  unfold reservationStatus at h
  split at h <;> cases h <;> simp_all

theorem reservation_answered (h : c.reservationStatus = some .underway) {granted : Bool} (hsent : c.reserve = .sent granted) :
    { c with reserve := .received }.reservationStatus = some (if granted then .held else .refused) := by
  unfold reservationStatus at h ⊢
  rw [hsent] at h
  cases granted with
  | false =>
    cases hreservation : c.reservation with
    | none => rfl
    | some => simp [hreservation] at h
  | true =>
    split at h <;> simp_all

theorem settled_release (h : c.reserve = .received) : c.release.Settled := by
  rw [release_eq]
  unfold Settled reservationStatus
  rw [h]
  cases c.reservation with
  | none => exact .inr (.inl rfl)
  | some r =>
    obtain ⟨loadedNow, _⟩ := r
    cases loadedNow <;> exact .inr (.inr rfl)

theorem Settled.nothing_held (h : c.Settled) :
    (c.reserve = .idle ∨ c.reserve = .received) ∧ outstanding c.reservation = 0 ∧ loadOf c.reservation = 0 := by
  rcases h with h | h | h
  · obtain ⟨hreserve, hreservation⟩ := reservation_of_status h
    rw [hreservation]
    exact ⟨.inl hreserve, rfl, rfl⟩
  · obtain ⟨hreserve, hreservation⟩ := reservation_of_status h
    rw [hreservation]
    exact ⟨.inr hreserve, rfl, rfl⟩
  · obtain ⟨hreserve, loaded, hreservation⟩ := reservation_of_status h
    rw [hreservation]
    cases loaded <;> exact ⟨.inr hreserve, rfl, rfl⟩

/-! ### The stages -/

theorem Fits.congr (h : c.Fits) (hstage : c'.stage = c.stage) (hprimary : c'.primary.status = c.primary.status)
    (hsecondary : c'.secondary.status = c.secondary.status) (hreservation : c'.reservationStatus = c.reservationStatus)
    (hslots : c'.slotsTaken = c.slotsTaken) (hheld : c'.slotHeld = c.slotHeld) : c'.Fits := by
  unfold Fits Settled at h ⊢
  rw [hstage, hprimary, hsecondary, hreservation, hslots, hheld]
  exact h

theorem Fits.setRacer (h : c.Fits) {side : Side} (hstatus : r.status = (c.racer side).status)
    (m : Manager) (wins : List Side) (winner : Option Side) : ({ c with m, wins, winner }.setRacer side r).Fits := by
  cases side with
  | primary => exact h.congr rfl hstatus rfl rfl rfl rfl
  | secondary => exact h.congr rfl rfl hstatus rfl rfl rfl

theorem Fits.unreserved (h : c.Fits) (hpending : c.reserve = .pending) : c.reservation = none := by
  cases hreservation : c.reservation with
  | none => rfl
  | some =>
    have hnone : c.reservationStatus = none := by
      unfold reservationStatus
      rw [hpending, hreservation]
    unfold Fits Settled at h
    rw [hnone] at h
    split at h <;> simp at h

theorem Fits.leave (hprimary : c.primary.status = .received) (hsecondary : c.secondary.status ≠ .live) (h : c.Settled)
    (result : CandidateDispatchResult) : (c.leave result).Fits := by
  unfold HedgeCall.leave
  rw [releaseSlot_eq]
  exact ⟨hprimary, hsecondary, h, rfl⟩

theorem Fits.release_leave (hprimary : c.primary.status = .received) (hsecondary : c.secondary.status ≠ .live)
    (h : c.reserve = .received) (result : CandidateDispatchResult) : (c.release.leave result).Fits := by
  obtain ⟨hp, hs⟩ := racers_release c
  exact .leave (hp ▸ hprimary) (hs ▸ hsecondary) (settled_release h) result

theorem Fits.release_await (hprimary : c.primary.status = .live) (hsecondary : c.secondary.status = .idle)
    (h : c.reserve = .received) : { c.release with stage := .awaiting }.Fits := by
  have hsettled := settled_release h
  rw [release_eq] at hsettled ⊢
  exact ⟨hprimary, hsecondary, hsettled⟩

theorem Fits.listening (h : c.Fits) (hstage : c.stage.Listens) :
    c.primary.status = .live ∧ c.secondary.status = .idle ∧ c.Settled := by
  unfold Fits at h
  generalize c.stage = stage at hstage h
  cases hstage with
  | awaiting => exact h
  | _ => exact ⟨h.1, h.2.1, .inl h.2.2⟩

theorem not_live_of_idle (h : r.status = .idle) : r.status ≠ .live := by
  rw [h]
  decide

theorem Fits.step (hstep : Step cfg c c') (h : c.Fits) : c'.Fits := by
  cases hstep with
  | unhedged hstage =>
    simp only [Fits, hstage] at h ⊢
    exact ⟨rfl, h.2.1, h.2.2.1, h.2.2.2.1⟩
  | direct _ _ hstage =>
    simp only [Fits, hstage] at h ⊢
    exact ⟨rfl, not_live_of_idle h.2.1, .inl h.2.2.1, h.2.2.2⟩
  | hedged hstage =>
    simp only [Fits, hstage] at h ⊢
    exact ⟨rfl, h.2.1, h.2.2.1⟩
  | answered s result hstage =>
    obtain ⟨-, hsecondary, hsettled⟩ := h.listening hstage
    exact .leave (c := { c with primary := .received s }) rfl (not_live_of_idle hsecondary) hsettled result
  | stopWaiting hstage | alreadyWon hstage =>
    simp only [Fits, hstage] at h ⊢
    exact ⟨h.1, h.2.1, .inl h.2.2⟩
  | timer hstage | notReady hstage | stillOpen hstage | hedge _ hstage | stopReserving _ hstage | inTime _ hstage
  | arm _ hstage =>
    simp only [Fits, hstage] at h ⊢
    exact h
  | noHedge hstage =>
    rw [releaseSlot_eq]
    simp only [Fits, hstage] at h ⊢
    exact ⟨h.1, h.2.1, .inl h.2.2⟩
  | reserve _ hstage =>
    simp only [Fits, hstage] at h ⊢
    refine ⟨h.1, h.2.1, ?_⟩
    unfold reservationStatus
    rw [(reservation_of_status h.2.2).2]
  | overtaken _ _ _ hstage | primaryDone _ _ _ hstage =>
    simp only [Fits, hstage] at h ⊢
    exact ⟨rfl, h.2⟩
  | reserved _ granted hstage hsent =>
    simp only [Fits, hstage] at h
    have hstatus := reservation_answered h.2.2 hsent
    cases granted <;> exact ⟨h.1, h.2.1, hstatus⟩
  | abandoned result _ hstage =>
    simp only [Fits, hstage] at h
    exact .release_leave (c := { c with reserve := .received }) h.1 (not_live_of_idle h.2.1) rfl result
  | abandonedEarly _ hstage =>
    simp only [Fits, hstage] at h
    exact .release_await (c := { c with reserve := .received }) h.1 h.2.1 rfl
  | refused _ hstage =>
    rw [releaseSlot_eq]
    simp only [Fits, hstage] at h ⊢
    exact ⟨h.1, h.2.1, .inr (.inl h.2.2)⟩
  | late _ s result hstage =>
    simp only [Fits, hstage] at h
    exact .release_leave (c := { c with primary := .received s }) rfl (not_live_of_idle h.2.1)
      (reservation_of_status h.2.2).1 result
  | wonMeanwhile _ hstage | lost _ hstage =>
    simp only [Fits, hstage] at h
    exact .release_await h.1 h.2.1 (reservation_of_status h.2.2).1
  | launch _ hstage =>
    simp only [Fits, hstage] at h
    obtain ⟨hreceived, hreservation⟩ := reservation_of_status h.2.2
    rw [start_eq hreservation]
    refine ⟨h.1, rfl, ?_⟩
    unfold reservationStatus
    rw [hreceived]
  | secondaryDone _ _ _ hstage =>
    simp only [Fits, hstage] at h ⊢
    exact ⟨h.1, rfl, h.2.2⟩
  | finished _ _ hstage =>
    simp only [Fits, hstage] at h
    have hreceived : c.secondary.status ≠ .live := by simp [h.2.1]
    exact .release_leave h.1 hreceived (reservation_of_status h.2.2).1 _
  | series _ _ _ _ _ _ hrunning =>
    refine h.setRacer ?_ _ _ _
    rw [hrunning]
    split <;> rfl
  | notified side _ hnotifying =>
    obtain ⟨winner, hwinner⟩ := c.onWinner_frame side
    rw [hwinner]
    refine h.setRacer ?_ c.m c.wins winner
    rw [hnotifying]
    rfl
  | send _ _ _ hrunning =>
    refine h.setRacer ?_ c.m c.wins c.winner
    rw [hrunning]
    rfl
  | granted hpending | denied hpending =>
    refine h.congr rfl rfl rfl ?_ rfl rfl
    unfold reservationStatus
    rw [hpending, h.unreserved hpending]
  | ctxEnds | others => exact h

/-! ### The books -/

namespace Books

section

variable (h : c.Books)

include h

theorem setRacer (side : Side) (r : Racer) (m : Manager) (wins : List Side) (winner : Option Side) :
    ({ c with m, wins, winner }.setRacer side r).Books := by
  cases side <;> exact ⟨h.slots, h.slotsOnce, h.reservations, h.reservationsOnce, h.unreserved, h.load⟩

theorem setStage (stage : HedgeStage) : { c with stage }.Books :=
  ⟨h.slots, h.slotsOnce, h.reservations, h.reservationsOnce, h.unreserved, h.load⟩

theorem receive (r : Racer) (reserve : HedgeReserving) : { c with primary := r, reserve }.Books :=
  ⟨h.slots, h.slotsOnce, h.reservations, h.reservationsOnce, h.unreserved, h.load⟩

theorem releaseSlot : c.releaseSlot.Books := by
  rw [releaseSlot_eq]
  exact ⟨h.slots, h.slotsOnce, h.reservations, h.reservationsOnce, h.unreserved, h.load⟩

theorem release : c.release.Books := by
  rw [release_eq]
  have hreleased : ∀ reservation : Option DispatchReservation,
      outstanding (reservation.map fun r => { r with released := true }) = 0 ∧
        loadOf (reservation.map fun r => { r with released := true }) = 0 := by
    intro reservation
    cases reservation with
    | none => exact ⟨rfl, rfl⟩
    | some r => cases r with | mk loaded released => cases loaded <;> exact ⟨rfl, rfl⟩
  obtain ⟨houtstanding, hload⟩ := hreleased c.reservation
  refine ⟨h.slots, h.slotsOnce, ?_, h.reservationsOnce, fun hnone => ?_, ?_⟩
  · rw [houtstanding]
    exact h.reservations
  · exact h.unreserved (Option.map_eq_none_iff.mp hnone)
  · rw [hload, h.load, Int.sub_self]

theorem start (hreservation : c.reservation = some {}) : c.start.Books := by
  rw [start_eq hreservation]
  have hreservations := h.reservations
  have hload := h.load
  rw [hreservation] at hreservations hload
  exact ⟨h.slots, h.slotsOnce, hreservations, h.reservationsOnce, nofun, congrArg (· + 1) hload⟩

theorem leave (result : CandidateDispatchResult) : (c.leave result).Books :=
  h.releaseSlot.setStage _

end

theorem step (hstep : Step cfg c c') (hfits : c.Fits) (h : c.Books) : c'.Books := by
  cases hstep with
  | hedged hstage =>
    simp only [Fits, hstage] at hfits
    obtain ⟨-, -, -, hheld, htaken⟩ := hfits
    have hslots := h.slots
    rw [hheld, htaken] at hslots
    refine ⟨?_, ?_, h.reservations, h.reservationsOnce, h.unreserved, h.load⟩
    · exact congrArg (· + 1) (htaken.trans hslots)
    · rw [htaken]
  | answered _ result => exact (h.receive _ _).leave result
  | noHedge | refused => exact h.releaseSlot.setStage _
  | abandoned result | late _ _ result => exact ((h.receive _ _).release).leave result
  | abandonedEarly => exact ((h.receive _ _).release).setStage _
  | wonMeanwhile | lost => exact h.release.setStage _
  | launch _ hstage =>
    simp only [Fits, hstage] at hfits
    have hstart := h.start (reservation_of_status hfits.2.2).2
    exact ⟨hstart.slots, hstart.slotsOnce, hstart.reservations, hstart.reservationsOnce, hstart.unreserved, hstart.load⟩
  | finished => exact h.release.leave _
  | series side => exact h.setRacer side _ _ _ _
  | notified side =>
    obtain ⟨winner, hwinner⟩ := c.onWinner_frame side
    rw [hwinner]
    exact h.setRacer side _ c.m c.wins winner
  | send side => exact h.setRacer side _ c.m c.wins c.winner
  | granted hpending =>
    have hnone := hfits.unreserved hpending
    have hreservations := h.reservations
    have hload := h.load
    rw [hnone, h.unreserved hnone] at hreservations
    rw [hnone] at hload
    refine ⟨h.slots, h.slotsOnce, ?_, ?_, nofun, hload⟩
    · rw [h.unreserved hnone]
      exact congrArg (· + 1) hreservations
    · rw [h.unreserved hnone]
  | _ => exact ⟨h.slots, h.slotsOnce, h.reservations, h.reservationsOnce, h.unreserved, h.load⟩

end Books

/-! ### The candidates -/

structure Carries (P Q : Candidate → Prop) (c : HedgeCall) : Prop where
  primary : ∀ s ∈ c.primary.series?, P s.candidate
  secondary : ∀ s ∈ c.secondary.series?, Q s.candidate
  hedge : ∀ hedge ∈ c.stage.hedge?, Q hedge

namespace Carries

variable {P Q : Candidate → Prop}

theorem setRacer (h : c.Carries P Q) (side : Side)
    (hr : ∀ s ∈ r.series?, ∃ s₀ ∈ (c.racer side).series?, s.candidate = s₀.candidate) (m : Manager) (wins : List Side)
    (winner : Option Side) : ({ c with m, wins, winner }.setRacer side r).Carries P Q := by
  cases side with
  | primary =>
    refine ⟨fun s hs => ?_, h.secondary, h.hedge⟩
    obtain ⟨s₀, hs₀, hcandidate⟩ := hr s hs
    rw [hcandidate]
    exact h.primary s₀ hs₀
  | secondary =>
    refine ⟨h.primary, fun s hs => ?_, h.hedge⟩
    obtain ⟨s₀, hs₀, hcandidate⟩ := hr s hs
    rw [hcandidate]
    exact h.secondary s₀ hs₀

theorem step (hstep : Step cfg c c') (h : c.Carries P Q) (hassignment : P cfg.assignment)
    (hchosen : ∀ hedge, c'.stage = .chosen hedge → hedge.subtaskID = cfg.assignment.subtaskID →
      hedge.assignment.nodeID ≠ cfg.assignment.assignment.nodeID → Q hedge) : c'.Carries P Q := by
  have hstart : ∀ {R : Candidate → Prop} {candidate : Candidate}, R candidate →
      ∀ s ∈ (Racer.running (.start candidate)).series?, R s.candidate := by
    rintro _ _ hcandidate s ⟨⟩
    exact hcandidate
  have hdone : ∀ s, c.primary = .sent s → ∀ s' ∈ (Racer.received s).series?, P s'.candidate := by
    intro s hs s' hs'
    exact h.primary s' (by rw [hs]; exact hs')
  have hnone : ∀ hedge ∈ (none : Option Candidate), Q hedge := by
    rintro hedge ⟨⟩
  have hedge : ∀ hedge, c.stage.hedge? = some hedge → ∀ hedge' ∈ some hedge, Q hedge' := by
    rintro hedge hstage hedge' ⟨⟩
    exact h.hedge hedge hstage
  cases hstep with
  | unhedged | hedged => exact ⟨hstart hassignment, h.secondary, hnone⟩
  | direct s _ _ hp | overtaken _ s _ _ hp | primaryDone s _ _ _ hp => exact ⟨hdone s hp, h.secondary, hnone⟩
  | answered s _ _ hp =>
    rw [leave, releaseSlot_eq]
    exact ⟨hdone s hp, h.secondary, hnone⟩
  | noHedge | refused =>
    rw [releaseSlot_eq]
    exact ⟨h.primary, h.secondary, hnone⟩
  | hedge chosen _ hsubtask hnode =>
    refine ⟨h.primary, h.secondary, ?_⟩
    rintro _ ⟨⟩
    exact hchosen chosen rfl hsubtask hnode
  | reserve _ hstage | reserved _ _ hstage | inTime _ hstage | arm _ hstage =>
    exact ⟨h.primary, h.secondary, hedge _ (by rw [hstage]; rfl)⟩
  | abandoned | abandonedEarly | wonMeanwhile | lost | finished =>
    simp only [leave, releaseSlot_eq, release_eq]
    exact ⟨h.primary, h.secondary, hnone⟩
  | late _ s _ _ hp =>
    simp only [leave, releaseSlot_eq, release_eq]
    exact ⟨hdone s hp, h.secondary, hnone⟩
  | launch chosen hstage =>
    rw [start_frame]
    exact ⟨h.primary, hstart (h.hedge chosen (by rw [hstage]; rfl)), hnone⟩
  | secondaryDone _ _ _ _ hs =>
    exact ⟨h.primary, fun s' hs' => h.secondary s' (by rw [hs]; exact hs'), hnone⟩
  | series side s s' _ _ _ hrunning hmove =>
    refine h.setRacer side (fun x hx => ⟨s, by rw [hrunning]; rfl, ?_⟩) _ _ _
    have hx : x = s' := by
      split at hx <;> exact (Option.mem_some.mp hx).symm
    rw [hx, hmove.candidate_eq]
  | notified side _ hnotifying =>
    obtain ⟨winner, hwinner⟩ := c.onWinner_frame side
    rw [hwinner]
    exact h.setRacer side (fun x hx => ⟨x, by rw [hnotifying]; exact hx, rfl⟩) c.m c.wins winner
  | send side _ _ hrunning =>
    exact h.setRacer side (fun x hx => ⟨x, by rw [hrunning]; exact hx, rfl⟩) c.m c.wins c.winner
  | granted | denied | ctxEnds | others => exact ⟨h.primary, h.secondary, h.hedge⟩
  | _ => exact ⟨h.primary, h.secondary, hnone⟩

end Carries

/-! ### The winner -/

structure ForSubtask (cfg : HedgeSetting) (c : HedgeCall) : Prop where
  primary : ∀ s ∈ c.primary.series?, s.candidate.subtaskID = cfg.assignment.subtaskID
  secondary : ∀ s ∈ c.secondary.series?, s.candidate.subtaskID = cfg.assignment.subtaskID
  hedge : ∀ hedge ∈ c.stage.hedge?, hedge.subtaskID = cfg.assignment.subtaskID

namespace ForSubtask

theorem racer (h : ForSubtask cfg c) (side : Side) : ∀ s ∈ (c.racer side).series?, s.candidate.subtaskID = cfg.assignment.subtaskID := by
  cases side with
  | primary => exact h.primary
  | secondary => exact h.secondary

theorem step (hstep : Step cfg c c') (h : ForSubtask cfg c) : ForSubtask cfg c' := by
  let P : Candidate → Prop := fun candidate => candidate.subtaskID = cfg.assignment.subtaskID
  have hcarries : c.Carries P P := ⟨h.primary, h.secondary, h.hedge⟩
  obtain ⟨hprimary, hsecondary, hhedge⟩ := hcarries.step hstep rfl fun _ _ hsubtask _ => hsubtask
  exact ⟨hprimary, hsecondary, hhedge⟩

end ForSubtask

theorem Step.manager (hstep : Step cfg c c') : (c'.m = c.m ∧ c'.wins = c.wins) ∨
    (∃ side s s' saved e, c.racer side = .running s ∧ SeriesMove cfg.taskID saved c.m s e c'.m s' ∧
      c'.wins = if e = .won then side :: c.wins else c.wins) ∨
    ∃ (op : Op) (saved : Except String Unit), op.KeepsIDs ∧ op.FreshID c.m ∧ c'.m = op.run c.m saved ∧ c'.wins = c.wins := by
  cases hstep with
  | series side s s' saved e _ hrunning hmove =>
    refine .inr (.inl ⟨side, s, s', saved, e, hrunning, ?_⟩)
    cases side <;> exact ⟨hmove, rfl⟩
  | others op saved hids hfresh => exact .inr (.inr ⟨op, saved, hids, hfresh, rfl, rfl⟩)
  | notified side =>
    obtain ⟨_, hwinner⟩ := c.onWinner_frame side
    rw [hwinner]
    cases side <;> exact .inl ⟨rfl, rfl⟩
  | send side => cases side <;> exact .inl ⟨rfl, rfl⟩
  | launch =>
    refine .inl ?_
    rw [start_frame]
    exact ⟨rfl, rfl⟩
  | answered | noHedge | refused => simp only [leave, releaseSlot_eq, and_self, true_or]
  | abandoned | abandonedEarly | late | wonMeanwhile | lost | finished =>
    simp only [leave, releaseSlot_eq, release_eq, and_self, true_or]
  | _ => exact .inl ⟨rfl, rfl⟩

structure OneWinner (cfg : HedgeSetting) (c : HedgeCall) : Prop where
  quiet : System.Holds (fun t => t.ledger.Quiet ∧ t.Closed) (.up c.m)
  once : c.wins.length ≤ 1
  completed : c.wins ≠ [] → System.Completed cfg.taskID cfg.assignment.subtaskID c.m

theorem OneWinner.call (h : OneWinner cfg c) {op : Op} (hids : op.KeepsIDs) (hfresh : op.FreshID c.m)
    (saved : Except String Unit) (hm : c'.m = op.run c.m saved) (hwins : c'.wins = c.wins) : OneWinner cfg c' := by
  have hquiet : ∀ t ∈ c.m.tasks.vals, t.ledger.Quiet := fun t ht => (h.quiet.1 t ht).1
  refine ⟨?_, hwins ▸ h.once, fun hne => ?_⟩
  · rw [hm]
    exact (kept_quiet anything).step (.call c.m op saved trivial) h.quiet
  · rw [hm]
    exact (h.completed (hwins ▸ hne)).run hids hfresh hquiet

theorem OneWinner.step (hstep : Step cfg c c') (hsubtask : ForSubtask cfg c) (h : OneWinner cfg c) : OneWinner cfg c' := by
  rcases hstep.manager with ⟨hm, hwins⟩ | ⟨side, s, s', saved, e, hrunning, hmove, hwins⟩ |
    ⟨op, saved, hids, hfresh, hm, hwins⟩
  · exact ⟨hm ▸ h.quiet, hwins ▸ h.once, fun hne => hm ▸ h.completed (hwins ▸ hne)⟩
  · have hid : s.candidate.subtaskID = cfg.assignment.subtaskID :=
      hsubtask.racer side s (by rw [hrunning]; rfl)
    rcases hmove.calls with ⟨hm, rfl⟩ | ⟨op, hids, hfresh, hm, hwon⟩
    · rw [if_neg (by decide)] at hwins
      exact ⟨hm ▸ h.quiet, hwins ▸ h.once, fun hne => hm ▸ h.completed (hwins ▸ hne)⟩
    by_cases he : e = .won
    · rw [he, hid] at hwon
      obtain ⟨hfirst, hcompleted⟩ := System.Completed.of_wins hids hfresh hwon
      have hnone : c.wins = [] := not_not.mp fun hne => hfirst (h.completed hne)
      have hquiet := (kept_quiet anything).step (.call c.m op saved trivial) h.quiet
      rw [← hm] at hquiet hcompleted
      refine ⟨hquiet, ?_, fun _ => hcompleted⟩
      rw [hwins, if_pos he, hnone]
      exact Nat.le_refl 1
    · rw [if_neg he] at hwins
      exact h.call hids hfresh saved hm hwins
  · exact h.call hids hfresh saved hm hwins

/-! ### Every run -/

def enter (m : Manager) : HedgeCall := { m }

structure Inv (cfg : HedgeSetting) (c : HedgeCall) : Prop where
  fits : c.Fits
  books : c.Books
  subtask : ForSubtask cfg c
  winner : OneWinner cfg c

theorem Inv.enter {m : Manager} (h : System.Reachable anything (.up m)) : Inv cfg (enter m) where
  fits := ⟨rfl, rfl, rfl, rfl, rfl⟩
  books := ⟨rfl, Nat.zero_le 1, rfl, Nat.zero_le 1, fun _ => rfl, rfl⟩
  subtask := ⟨(fun s hs => by cases hs), (fun s hs => by cases hs), fun hedge hstage => by cases hstage⟩
  winner := ⟨(kept_quiet anything).reachable h, Nat.zero_le 1, fun hne => absurd rfl hne⟩

theorem Inv.step (hstep : Step cfg c c') (h : Inv cfg c) : Inv cfg c' where
  fits := h.fits.step hstep
  books := h.books.step hstep h.fits
  subtask := h.subtask.step hstep
  winner := h.winner.step hstep h.subtask

theorem Inv.run (hrun : Run cfg c c') (h : Inv cfg c) : Inv cfg c' := by
  induction hrun with
  | refl => exact h
  | tail _ hstep ih => exact ih.step hstep

structure GaveBack (c : HedgeCall) : Prop where
  slots : c.slotsGiven = c.slotsTaken ∧ c.slotsTaken ≤ 1
  reservations : c.reservationsGiven = c.reservationsTaken ∧ c.reservationsTaken ≤ 1
  load : c.load = 0

structure Quiet (c : HedgeCall) : Prop where
  primary : ∃ s, c.primary = .received s
  secondary : c.secondary = .idle ∨ ∃ s, c.secondary = .received s
  reserve : c.reserve = .idle ∨ c.reserve = .received

theorem Inv.returned (h : Inv cfg c) {result : CandidateDispatchResult} (hstage : c.stage = .returned result) :
    c.GaveBack ∧ c.Quiet := by
  have hfits := h.fits
  simp only [Fits, hstage] at hfits
  obtain ⟨hprimary, hsecondary, hsettled, hheld⟩ := hfits
  have hslots := h.books.slots
  have hreservations := h.books.reservations
  have hload := h.books.load
  obtain ⟨hreserve, houtstanding, hloadOf⟩ := hsettled.nothing_held
  rw [hheld] at hslots
  rw [houtstanding] at hreservations
  rw [hloadOf] at hload
  refine ⟨⟨⟨hslots.symm, h.books.slotsOnce⟩, ⟨hreservations.symm, h.books.reservationsOnce⟩, hload⟩, ?_, ?_, hreserve⟩
  · cases hp : c.primary with
    | received s => exact ⟨s, rfl⟩
    | _ =>
      rw [hp] at hprimary
      cases hprimary
  · cases hs : c.secondary with
    | idle => exact .inl rfl
    | received s => exact .inr ⟨s, rfl⟩
    | _ =>
      rw [hs] at hsecondary
      exact absurd rfl hsecondary

end

/-- In every run of a hedged call at most one side wins the subtask; and when the call returns, the slot and
the reservation it took have been given back once and no goroutine it started is left unheard. -/
theorem one_winner_nothing_left {cfg : HedgeSetting} {m : Manager} {c : HedgeCall}
    (h : System.Reachable anything (.up m)) (hrun : Run cfg (enter m) c) :
    c.wins.length ≤ 1 ∧ ∀ result, c.stage = .returned result → c.GaveBack ∧ c.Quiet := by
  have hinv : Inv cfg c := (Inv.enter h).run hrun
  exact ⟨hinv.winner.once, fun result hstage => hinv.returned hstage⟩

def overtaking : HedgeSetting :=
  { taskID := "task-1"
    assignment := { assignment := { subtask := { id := "work" }, nodeID := "a", model := "m" } }
    attemptCount := 0
    p95Duration := 1 }

def overtaker : Candidate := { assignment := { subtask := { id := "work" }, nodeID := "b", model := "m" } }

def underway : Manager :=
  System.calls (newManager none false 1) [(.create "report" oneSubtask false System.noon, .ok ()),
    (.startSubtask "task-1" "work" (System.noon 2), .ok ())]

def answer (result : Except (String × Bool) String) : CallOutcome :=
  { result, failureClass := "", httpStatus := 200, duration := 1 }

theorem one_winner_nothing_left_overtaken :
    ∃ c : HedgeCall, Run overtaking (enter underway) c ∧ (∃ result, c.stage = .returned result) ∧
      c.wins = [.secondary] ∧ c.slotsTaken = 1 ∧ c.reservationsTaken = 1 ∧ c.wins.length ≤ 1 ∧ ∀ result, c.stage = .returned result → c.GaveBack ∧ c.Quiet := by
  have hreach : System.Reachable anything (.up underway) := ⟨_, .memory false 1, calls_run _ _⟩
  have hrun : Run overtaking (enter underway) (enter underway) := .refl
  have hrun := hrun.tail (.hedged rfl rfl)
  have hrun := hrun.tail (.series .primary _ _ (.ok ()) _ _ rfl (.begin 0 false (System.noon 3) _ rfl rfl))
  have hrun := hrun.tail (.timer rfl)
  have hrun := hrun.tail (.notReady rfl (fun s h => Racer.noConfusion h))
  have hrun := hrun.tail (.stillOpen rfl rfl)
  have hrun := hrun.tail (.hedge overtaker rfl rfl (by decide))
  have hrun := hrun.tail (.reserve overtaker rfl (fun s h => Racer.noConfusion h))
  have hrun := hrun.tail (.granted rfl)
  have hrun := hrun.tail (.reserved overtaker true rfl rfl)
  have hrun := hrun.tail (.inTime overtaker rfl (fun s h => Racer.noConfusion h))
  have hrun := hrun.tail (.arm overtaker rfl rfl)
  have hrun := hrun.tail (.launch overtaker rfl (by decide))
  have hrun := hrun.tail (.series .secondary _ _ (.ok ()) _ _ rfl (.begin 0 false (System.noon 4) _ rfl rfl))
  have hrun := hrun.tail (.series .secondary _ _ (.ok ()) _ _ rfl (.called 0 false 2 (answer (.ok "done")) rfl))
  have hrun := hrun.tail (.series .secondary _ _ (.ok ()) _ _ rfl
    (.completed 0 false 2 (answer (.ok "done")) "done" System.noon false _ rfl rfl rfl))
  have hrun := hrun.tail (.notified .secondary _ rfl)
  have hrun := hrun.tail (.series .primary _ _ (.ok ()) _ _ rfl (.called 0 false 1 (answer (.error ("lost", false))) rfl))
  have hrun := hrun.tail (.series .primary _ _ (.ok ()) _ _ rfl
    (.failed 0 false 1 (answer (.error ("lost", false))) "lost" false (System.noon 5) true _ rfl rfl rfl))
  have hrun := hrun.tail (.send .primary _ _ rfl rfl)
  have hrun := hrun.tail (.primaryDone _ _ none rfl rfl rfl)
  have hrun := hrun.tail (.send .secondary _ _ rfl rfl)
  have hrun := hrun.tail (.secondaryDone _ _ _ rfl rfl rfl)
  have hrun := hrun.tail (.finished _ _ rfl)
  exact ⟨_, hrun, ⟨_, rfl⟩, rfl, rfl, rfl, one_winner_nothing_left hreach hrun⟩

end HedgeCall

end Maistr0.Orchestrator
