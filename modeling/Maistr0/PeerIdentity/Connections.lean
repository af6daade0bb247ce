import Maistr0.Lib.Interleaving
import Maistr0.PeerIdentity.Trust

/-!
# Connections under revoked pins

Connections are tracked from the dial on, or once their certificate has been checked. A call that changes the pins
goes on, after it has released the lock, to close every connection that is tracked then. Any number of calls run
at once; what one of them does while it holds the lock is one move.
-/

namespace Maistr0.PeerIdentity

open Lib Interleaving List Option

/-- An `identityConn`: whether it is among the `activeConns`, whether it is open, and the pin its peer was
authenticated under. -/
structure Conn where
  tracked : Bool := true
  isOpen : Bool := true
  pin : Option (String × String) := none
  deriving DecidableEq

/-- A connection is known by its place in the list, which only grows. -/
structure Connected where
  identity : Identity := {}
  conns : List Conn := []

namespace Connected

variable (g : Connected)

def update (c : Nat) (f : Conn → Conn) : Connected := { g with conns := g.conns.modify c f }

def activeConns : List Nat :=
  (List.range g.conns.length).filter fun c => (g.conns[c]?).any fun conn => conn.tracked

def live (c : Nat) : Bool := (g.conns[c]?).any fun conn => conn.tracked && conn.isOpen

/-- The live connections whose peers were authenticated under a pin that the new roster lacks. -/
def stale (trusted : Roster) : List Nat :=
  (List.range g.conns.length).filter fun c => g.live c && (g.conns[c]?).any fun conn =>
    conn.pin.any fun (id, fingerprint) =>
      pins g.identity.trusted id = some fingerprint && pins trusted id ≠ some fingerprint

end Connected

inductive Call
  | begun (op : TrustOp)
  /-- `ReloadTrustedPeers` has read the file. -/
  | reloading (roster : Roster)
  /-- The lock is released, `invalidateConnections` comes next. -/
  | changed (stale : List Nat)
  | closing (stale left : List Nat)
  /-- A connection is no longer tracked, and is about to be closed. -/
  | shutting (stale : List Nat) (c : Nat) (left : List Nat)
  | returned (stale : List Nat)

inductive ConnEvent
  | section (op : TrustOp) (w : Write)
  | read
  | reload (roster : Roster)
  | invalidate
  | close (c : Nat)
  | outside

inductive CallMoves : Connected → Call → ConnEvent → Connected → Call → Prop
  | change {g : Connected} {op : TrustOp} {w : Write} (hop : ∀ readable, op ≠ .reload readable)
      (h : (g.identity.apply op w).invalidates = true) :
      CallMoves g (.begun op) (.section op w) { g with identity := (g.identity.apply op w).identity }
        (.changed (g.stale (g.identity.apply op w).identity.trusted))
  | update {g : Connected} {op : TrustOp} {w : Write} (hop : ∀ readable, op ≠ .reload readable)
      (h : (g.identity.apply op w).invalidates = false) :
      CallMoves g (.begun op) (.section op w) { g with identity := (g.identity.apply op w).identity }
        (.returned (g.stale (g.identity.apply op w).identity.trusted))
  | unreadable (g : Connected) {readable : Bool} (hread : g.identity.readRoster readable = none) :
      CallMoves g (.begun (.reload readable)) .read g (.returned [])
  | read (g : Connected) {readable : Bool} {roster : Roster} (hread : g.identity.readRoster readable = some roster) :
      CallMoves g (.begun (.reload readable)) .read g (.reloading roster)
  | reload (g : Connected) (roster : Roster) :
      CallMoves g (.reloading roster) (.reload roster) { g with identity := { g.identity with trusted := roster } }
        (.returned (g.stale roster))
  | invalidate (g : Connected) (stale : List Nat) :
      CallMoves g (.changed stale) .invalidate g (.closing stale g.activeConns)
  | untrack {g : Connected} {stale left : List Nat} {c : Nat} (htracked : c ∈ g.activeConns) :
      CallMoves g (.closing stale (c :: left)) (.close c) (g.update c fun conn => { conn with tracked := false })
        (.shutting stale c left)
  | shut (g : Connected) (stale : List Nat) (c : Nat) (left : List Nat) :
      CallMoves g (.shutting stale c left) (.close c) (g.update c fun conn => { conn with isOpen := false })
        (.closing stale left)
  /-- Someone else is closing the connection; `once.Do` waits for that. -/
  | shutAlready {g : Connected} {stale left : List Nat} {c : Nat} {conn : Conn} (hconn : g.conns[c]? = some conn)
      (htracked : conn.tracked = false) (hshut : conn.isOpen = false) :
      CallMoves g (.closing stale (c :: left)) (.close c) g (.closing stale left)
  | finish (g : Connected) (stale : List Nat) :
      CallMoves g (.closing stale []) .invalidate g (.returned stale)

inductive Outside : Connected → ConnEvent → Connected → Prop
  | dial (g : Connected) : Outside g .outside { g with conns := g.conns ++ [{}] }
  /-- `VerifyConnection` of the shared client transport. -/
  | verify {g : Connected} {c : Nat} {conn : Conn} {id fingerprint : String} (hconn : g.conns[c]? = some conn)
      (hnew : conn.pin = none) (hpin : pins g.identity.trusted id = some fingerprint) :
      Outside g .outside (g.update c fun conn => { conn with pin := some (id, fingerprint) })
  /-- `DialPinned` and `TrackPinnedPeerConnection` check and track under the lock. -/
  | track {g : Connected} {id fingerprint : String} (hpin : pins g.identity.trusted id = some fingerprint) :
      Outside g .outside { g with conns := g.conns ++ [{ pin := some (id, fingerprint) }] }
  /-- Whoever uses a connection closes it, in two steps. -/
  | untrack (g : Connected) (c : Nat) : Outside g .outside (g.update c fun conn => { conn with tracked := false })
  | shut {g : Connected} {c : Nat} {conn : Conn} (hconn : g.conns[c]? = some conn) (h : conn.tracked = false) :
      Outside g .outside (g.update c fun conn => { conn with isOpen := false })
  | companion (g : Connected) (file : Option Roster) :
      Outside g .outside { g with identity := { g.identity with file } }

def connections : System Connected Call ConnEvent where
  moves := CallMoves
  disturbs := Outside
  starts _ t := ∃ op, t = .begun op

/-- A reload finds every pin in the file that memory has. -/
def KeepsPins (g : Connected) : ConnEvent → Prop
  | .reload roster => ∀ id fingerprint, pins g.identity.trusted id = some fingerprint → pins roster id = some fingerprint
  | _ => True

variable {g g' : Connected} {c : Nat} {f : Conn → Conn} {roster : Roster} {e : ConnEvent}

/-- Connections only come, and none that is there goes live again. -/
structure Older (g g' : Connected) : Prop where
  grows : g.conns.length ≤ g'.conns.length
  live : ∀ c < g.conns.length, g'.live c = true → g.live c = true

theorem Older.of_conns_eq (h : g'.conns = g.conns) : Older g g' := by
  refine ⟨h ▸ Nat.le_refl _, fun c _ hlive => ?_⟩
  unfold Connected.live at hlive ⊢
  rw [← h]
  exact hlive

theorem Older.push (conn : Conn) : Older g { g with conns := g.conns ++ [conn] } := by
  refine ⟨by simp, fun c hc hlive => ?_⟩
  unfold Connected.live at hlive ⊢
  rwa [getElem?_append_left hc] at hlive

theorem Connected.live_update (hf : ∀ conn, (f conn).tracked && (f conn).isOpen → conn.tracked && conn.isOpen)
    {c' : Nat} (h : (g.update c f).live c' = true) : g.live c' = true := by
  unfold live update at *
  rw [getElem?_modify] at h
  cases hconn : g.conns[c']? with
  | none => simp [hconn] at h
  | some conn =>
    rw [hconn] at h
    change (Option.map _ (some conn)).any _ = true at h
    by_cases heq : c = c'
    · simp only [heq, if_true, map_some, any_some] at h
      exact hf conn h
    · simpa [heq] using h

theorem Older.update (hf : ∀ conn, (f conn).tracked && (f conn).isOpen → conn.tracked && conn.isOpen) :
    Older g (g.update c f) :=
  ⟨by simp [Connected.update], fun _ _ => Connected.live_update hf⟩

theorem Older.untrack : Older g (g.update c fun conn => { conn with tracked := false }) :=
  Older.update fun _ h => by simp at h

theorem Older.shut : Older g (g.update c fun conn => { conn with isOpen := false }) := Older.update fun _ h => by simp at h

theorem Connected.not_live_untrack : (g.update c fun conn => { conn with tracked := false }).live c = false := by
  unfold live update
  rw [getElem?_modify]
  cases g.conns[c]? <;> simp

theorem Connected.mem_activeConns (h : g.live c = true) : c ∈ g.activeConns := by
  unfold live at h
  cases hconn : g.conns[c]? with
  | none => simp [hconn] at h
  | some =>
    obtain ⟨hc, -⟩ := List.getElem?_eq_some_iff.mp hconn
    rw [hconn] at h
    refine mem_filter.mpr ⟨mem_range.mpr hc, ?_⟩
    rw [hconn]
    simp_all

theorem Connected.lt_of_mem_stale (h : c ∈ g.stale roster) : c < g.conns.length :=
  mem_range.mp (mem_filter.mp h).1

theorem Connected.stale_eq_nil
    (h : ∀ id fingerprint, pins g.identity.trusted id = some fingerprint → pins roster id = some fingerprint) :
    g.stale roster = [] := by
  refine filter_eq_nil_iff.mpr fun c _ hc => ?_
  simp only [Bool.and_eq_true, Option.any_eq_true, decide_eq_true_eq] at hc
  obtain ⟨-, _, -, ⟨id, fingerprint⟩, -, hold, hnew⟩ := hc
  exact hnew (h id fingerprint hold)

theorem Identity.pins_of_not_invalidates {s : Identity} {op : TrustOp} {w : Write}
    (hop : ∀ readable, op ≠ .reload readable) (h : (s.apply op w).invalidates = false) {id fingerprint : String}
    (hpin : pins s.trusted id = some fingerprint) :
    pins (s.apply op w).identity.trusted id = some fingerprint := by
  cases op with
  | trust call =>
    change (s.trustPeerDetails call w).invalidates = false at h
    change pins (s.trustPeerDetails call w).identity.trusted id = _
    unfold trustPeerDetails at h ⊢
    split at h
    · exact hpin
    unfold pinPeer at h ⊢
    cases w <;> simp only [persistLocked, if_true, Bool.false_eq_true, if_false] at h ⊢
    case done =>
      rw [pins_put]
      by_cases hid : id = call.id
      · obtain ⟨p, hp, rfl⟩ := map_eq_some_iff.mp hpin
        rw [hid] at hp
        rw [hid, Function.update_self]
        simp only [hp, map_some, getD_some, ne_eq, decide_not, Bool.not_eq_false',
          decide_eq_true_eq] at h
        rw [h]
      · rw [Function.update_of_ne hid, hpin]
    all_goals
      rw [pins_restore]
      exact hpin
  | remove id' =>
    have hnone : s.trusted.get? id' = none := by
      change (s.trusted.get? id').isSome = false at h
      simpa using h
    have hne : id ≠ id' := by
      rintro rfl
      unfold pins at hpin
      rw [hnone] at hpin
      cases hpin
    change pins (s.trusted.erase id') id = _
    rw [pins_erase, Function.update_of_ne hne, hpin]
  | removeOrchestrators =>
    change (s.trusted.vals.any fun p => p.2.role = "orchestrator") = false at h
    change pins (s.trusted.filter fun p => p.2.role ≠ "orchestrator") id = _
    rw [pins_filter_of_none, hpin]
    simpa using h
  | reload readable => exact absurd rfl (hop readable)

/-! ### Every stale connection is closed -/

namespace Call

def stale : Call → List Nat
  | begun _ | reloading _ => []
  | changed stale | closing stale _ | shutting stale _ _ | returned stale => stale

def left : Call → Option (List Nat)
  | begun _ | reloading _ | changed _ => none
  | closing _ left | shutting _ _ left => some left
  | returned _ => some []

end Call

def Revoking (g : Connected) (t : Call) : Prop :=
  ∀ c ∈ t.stale, c < g.conns.length ∧ ∀ left, t.left = some left → g.live c = true → c ∈ left

theorem Revoking.mono {t : Call} (h : Revoking g t) (holder : Older g g') : Revoking g' t := by
  intro c hc
  obtain ⟨hlt, hleft⟩ := h c hc
  exact ⟨Nat.lt_of_lt_of_le hlt holder.grows, fun left hl hlive => hleft left hl (holder.live c hlt hlive)⟩

theorem Revoking.of_stale_nil {t : Call} (h : t.stale = []) : Revoking g t := by
  intro c hc
  rw [h] at hc
  cases hc

theorem Outside.older (h : Outside g e g') : Older g g' := by
  cases h with
  | dial => exact Older.push _
  | verify => exact Older.update fun _ h => h
  | track => exact Older.push _
  | untrack => exact Older.untrack
  | shut => exact Older.shut
  | companion => exact Older.of_conns_eq rfl

theorem CallMoves.older {t t' : Call} (h : CallMoves g t e g' t') : Older g g' := by
  cases h with
  | change | update | reload | unreadable | read | invalidate | shutAlready | finish => exact Older.of_conns_eq rfl
  | untrack => exact Older.untrack
  | shut => exact Older.shut

theorem CallMoves.revoking {t t' : Call} (h : CallMoves g t e g' t') (hpins : KeepsPins g e)
    (ht : Revoking g t) : Revoking g' t' := by
  cases h with
  | change => exact fun c hc => ⟨Connected.lt_of_mem_stale (g := g) hc, nofun⟩
  | update hop h =>
    refine Revoking.of_stale_nil (Connected.stale_eq_nil fun id fingerprint hpin => ?_)
    exact Identity.pins_of_not_invalidates hop h hpin
  | unreadable | read => exact Revoking.of_stale_nil rfl
  | reload => exact Revoking.of_stale_nil (Connected.stale_eq_nil hpins)
  | invalidate =>
    intro c hc
    refine ⟨(ht c hc).1, ?_⟩
    rintro left ⟨⟩ hlive
    exact Connected.mem_activeConns hlive
  | @untrack stale left c htracked =>
    intro c' hc'
    obtain ⟨hlt, hleft⟩ := ht c' hc'
    refine ⟨Nat.lt_of_lt_of_le hlt Older.untrack.grows, ?_⟩
    rintro left ⟨⟩ hlive
    rcases mem_cons.mp (hleft _ rfl (Older.untrack.live c' hlt hlive)) with rfl | hmem
    · rw [Connected.not_live_untrack] at hlive
      cases hlive
    · exact hmem
  | shut stale _ left => exact Revoking.mono (t := .closing stale left) ht Older.shut
  | @shutAlready stale left c conn hconn htracked hshut =>
    intro c' hc'
    refine ⟨(ht c' hc').1, ?_⟩
    rintro _ ⟨⟩ hlive
    rcases mem_cons.mp ((ht c' hc').2 _ rfl hlive) with rfl | hmem
    · simp [Connected.live, hconn, htracked] at hlive
    · exact hmem
  | finish => exact ht

theorem keeps_revoking : Keeps (connections.restrict KeepsPins) (fun _ => True) Revoking where
  move h _ ht := ⟨trivial, h.1.revoking h.2 ht, fun _ hu => hu.mono h.1.older⟩
  disturb h _ := ⟨trivial, fun _ hu => hu.mono h.1.older⟩
  start h _ := by
    obtain ⟨_, rfl⟩ := h
    exact Revoking.of_stale_nil rfl

/-- If no reload drops or changes a pin, then no connection that a call made stale is live once the call has
returned. -/
theorem revoked_pins_close_connections (s : Identity) (after : State Connected Call)
    (hrun : Run (connections.restrict KeepsPins) ⟨{ identity := s }, []⟩ after) (stale : List Nat)
    (hreturned : Call.returned stale ∈ after.tasks) (c : Nat) (hc : c ∈ stale) : after.shared.live c = false := by
  have hfine := keeps_revoking.run hrun ⟨trivial, nofun⟩
  rw [Bool.eq_false_iff]
  intro hlive
  cases (hfine.2 _ hreturned c hc).2 [] rfl hlive

def onePeer : Identity :=
  let roster : Roster := (∅ : Roster).put ("node-1", { fingerprint := "f1" })
  ⟨roster, some roster⟩

theorem run_connected (allowed : Connected → ConnEvent → Prop) (hallowed : ∀ g, allowed g .outside) :
    Run (connections.restrict allowed) ⟨{ identity := onePeer }, []⟩ ⟨⟨onePeer, [{ pin := some ("node-1", "f1") }]⟩, []⟩ :=
  .single ⟨_, .disturb [] ⟨Outside.track (by decide +kernel), hallowed _⟩⟩

/-- The peer is removed, and its connection is closed. -/
theorem removed_peer_disconnected : ∃ after : State Connected Call,
    Run (connections.restrict KeepsPins) ⟨{ identity := onePeer }, []⟩ after ∧ ∃ stale, Call.returned stale ∈ after.tasks ∧
      0 ∈ stale ∧ after.shared.live 0 = false := by
  have hrun := run_connected KeepsPins fun _ => trivial
  have hrun := hrun.start ⟨.remove "node-1", rfl⟩
  have hrun := hrun.move [] [] ⟨.change (w := .done) nofun (by decide +kernel), trivial⟩
  have hrun := hrun.move [] [] ⟨.invalidate _ _, trivial⟩
  have hrun := hrun.move [] [] ⟨.untrack (by decide), trivial⟩
  have hrun := hrun.move [] [] ⟨.shut _ _ _ _, trivial⟩
  have hrun := hrun.move [] [] ⟨.finish _ _, trivial⟩
  exact ⟨_, hrun, _, mem_cons_self, by decide +kernel,
    revoked_pins_close_connections onePeer _ hrun _ mem_cons_self 0 (by decide +kernel)⟩

/-- A companion process unpairs the peer, and the reload that finds this leaves the connection to the peer open. -/
theorem reloaded_peer_connected : ∃ after : State Connected Call,
    Run connections ⟨{ identity := onePeer }, []⟩ after ∧
      ∃ stale, Call.returned stale ∈ after.tasks ∧ 0 ∈ stale ∧ after.shared.live 0 = true := by
  have hrun := (run_connected (fun _ _ => True) fun _ => trivial).of_restrict
  have hrun := hrun.disturb (.companion _ (some ∅))
  have hrun := hrun.start ⟨.reload true, rfl⟩
  have hrun := hrun.move [] [] (.read _ rfl)
  have hrun := hrun.move [] [] (.reload _ _)
  exact ⟨_, hrun, _, mem_cons_self, by decide +kernel, by decide +kernel⟩

end Maistr0.PeerIdentity
