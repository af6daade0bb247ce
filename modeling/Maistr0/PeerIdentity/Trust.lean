import Maistr0.Lib.Keyed

/-!
# The pinned peers and the identity file

An identity pins the certificates of its paired peers, in memory and in its file. The file is rewritten in place, and
each step of that can fail; so can the reading of it. What a restart loads is what the file then holds.
-/

namespace Maistr0.PeerIdentity

open Lib Function

structure TrustedPeer where
  fingerprint : String := ""
  certificate : String := ""
  role : String := ""
  address : String := ""
  deriving DecidableEq

abbrev Roster := Keyed (Prod.fst : String × TrustedPeer → String)

def pins (r : Roster) (id : String) : Option String := (r.get? id).map fun p => p.2.fingerprint

/-- The roster in memory, and the one in the file if the file can be decoded. -/
structure Identity where
  trusted : Roster := ∅
  file : Option Roster := some ∅

inductive Write
  | done
  /-- Encoding, opening, changing the mode or truncating failed. -/
  | untouched
  /-- The file was truncated, and not all of it was written. -/
  | cut
  /-- All was written, and closing failed. -/
  | unclosed
  deriving DecidableEq

/-- `persistLocked`: whether it reports success, and the file. -/
def persistLocked (trusted : Roster) (file : Option Roster) : Write → Bool × Option Roster
  | .done => (true, some trusted)
  | .untouched => (false, file)
  | .cut => (false, none)
  | .unclosed => (false, some trusted)

/-- The arguments of `TrustPeerDetails`, with the host that `url.Parse` finds in an address it accepts and the
fingerprint of the certificate if it is valid for the peer. -/
structure TrustCall where
  id : String
  certificatePEM : String
  role : String
  address : String
  host : Option String
  fingerprint : Option String

/-- What a call did under the lock: whether it returns without error, whether it goes on to close the connections,
and the identity. -/
structure Update where
  ok : Bool
  invalidates : Bool
  identity : Identity

def restoreTrustLocked (trusted : Roster) (id : String) : Option (String × TrustedPeer) → Roster
  | some previous => trusted.put previous
  | none => trusted.erase id

namespace Identity

variable (s : Identity)

def pinPeer (call : TrustCall) (address fingerprint : String) (w : Write) : Update :=
  let previous := s.trusted.get? call.id
  let peer := (previous.map Prod.snd).getD {}
  let changed : Bool := peer.fingerprint ≠ fingerprint
  let peer := { peer with
    fingerprint := fingerprint, certificate := call.certificatePEM
    role := if call.role ≠ "" then call.role else peer.role
    address := if address ≠ "" then address else peer.address }
  let trusted := s.trusted.put (call.id, peer)
  let (ok, file) := persistLocked trusted s.file w
  if ok then ⟨true, changed, ⟨trusted, file⟩⟩ else ⟨false, false, ⟨restoreTrustLocked trusted call.id previous, file⟩⟩

/-- The fingerprint to pin and the address to keep, if the call's arguments are in order. -/
def checked (call : TrustCall) : Option (String × String) :=
  if call.role ≠ "" ∧ call.role ≠ "node" ∧ call.role ≠ "orchestrator" then none
  else do
    let address ← if call.address ≠ "" then call.host.map ("https://" ++ ·) else some ""
    let fingerprint ← call.fingerprint
    return (address, fingerprint)

def trustPeerDetails (call : TrustCall) (w : Write) : Update :=
  match checked call with
  | none => ⟨false, false, s⟩
  | some (address, fingerprint) => s.pinPeer call address fingerprint w

def removePeer (id : String) (w : Write) : Update :=
  let trusted := s.trusted.erase id
  let (ok, file) := persistLocked trusted s.file w
  ⟨ok, (s.trusted.get? id).isSome, ⟨trusted, file⟩⟩

def removePairedOrchestrators (w : Write) : Update :=
  let changed := s.trusted.vals.any fun p => p.2.role = "orchestrator"
  let trusted := s.trusted.filter fun p => p.2.role ≠ "orchestrator"
  let (ok, file) := if changed then persistLocked trusted s.file w else (true, s.file)
  ⟨ok, changed, ⟨trusted, file⟩⟩

def readRoster (readable : Bool) : Option Roster := if readable then s.file else none

def reloadTrustedPeers (readable : Bool) : Update :=
  match s.readRoster readable with
  | some roster => ⟨true, false, { s with trusted := roster }⟩
  | none => ⟨false, false, s⟩

end Identity

inductive TrustOp
  | trust (call : TrustCall)
  | remove (id : String)
  | removeOrchestrators
  | reload (readable : Bool)

def Identity.apply (s : Identity) : TrustOp → Write → Update
  | .trust call, w => s.trustPeerDetails call w
  | .remove id, w => s.removePeer id w
  | .removeOrchestrators, w => s.removePairedOrchestrators w
  | .reload readable, _ => s.reloadTrustedPeers readable

def Identity.run (s : Identity) (ops : List (TrustOp × Write)) : Identity :=
  ops.foldl (fun s op => (s.apply op.1 op.2).identity) s

def Identity.Agrees (s : Identity) : Prop := ∃ r, s.file = some r ∧ pins r = pins s.trusted

/-- A call that pins anew comes with a file operation that succeeds or leaves the file alone, one that unpins with
one that writes the file. -/
def Identity.Sound (s : Identity) : TrustOp → Write → Prop
  | .trust call, w => ∀ address fingerprint, Identity.checked call = some (address, fingerprint) →
      w ≠ .cut ∧ (w = .unclosed → pins s.trusted call.id = some fingerprint)
  | .remove id, w => w ≠ .cut ∧ (w = .untouched → pins s.trusted id = none)
  | .removeOrchestrators, w => (∃ p ∈ s.trusted.vals, p.2.role = "orchestrator") → w = .done ∨ w = .unclosed
  | .reload _, _ => True

theorem pins_put (r : Roster) (p : String × TrustedPeer) :
    pins (r.put p) = update (pins r) p.1 (some p.2.fingerprint) := by
  funext id
  unfold pins
  rw [Keyed.get?_put_eq_update]
  by_cases hid : id = p.1
  · rw [hid, update_self, update_self]
    rfl
  · rw [update_of_ne hid, update_of_ne hid]

theorem pins_erase (r : Roster) (id : String) : pins (r.erase id) = update (pins r) id none := by
  funext id'
  unfold pins
  rw [Keyed.get?_erase, update_apply]
  by_cases hid : id = id'
  · simp [hid]
  · simp [hid, Ne.symm hid]

theorem pins_restore (r : Roster) (id : String) (peer : TrustedPeer) :
    pins (restoreTrustLocked (r.put (id, peer)) id (r.get? id)) = pins r := by
  cases h : r.get? id with
  | none =>
    have hpin : pins r id = none := by
      unfold pins
      rw [h]
      rfl
    rw [restoreTrustLocked, pins_erase, pins_put, update_idem, ← hpin, update_eq_self]
  | some p =>
    obtain rfl : p.1 = id := Keyed.keyOf_get? h
    have hpin : pins r p.1 = some p.2.fingerprint := by
      unfold pins
      rw [h]
      rfl
    rw [restoreTrustLocked, pins_put, pins_put, update_idem, ← hpin, update_eq_self]

theorem pins_filter_of_none {r : Roster} {keep : String × TrustedPeer → Bool} (h : ∀ p ∈ r.vals, keep p = true) :
    pins (r.filter keep) = pins r := by
  unfold pins Keyed.get?
  rw [Keyed.vals_filter, List.filter_eq_self.mpr h]

theorem pins_filter_ne {r : Roster} {keep : String × TrustedPeer → Bool} {p : String × TrustedPeer} (hp : p ∈ r.vals)
    (hdrop : keep p = false) : pins (r.filter keep) ≠ pins r := by
  intro h
  have hpin : pins r p.1 = some p.2.fingerprint := by
    unfold pins
    rw [Keyed.get?_eq_some.mpr ⟨hp, rfl⟩]
    rfl
  rw [← h] at hpin
  obtain ⟨_, hq, -⟩ := Option.map_eq_some_iff.mp hpin
  obtain ⟨hmem, hkey⟩ := Keyed.get?_eq_some.mp hq
  rw [Keyed.vals_filter, List.mem_filter] at hmem
  rw [Keyed.eq_of_mem_vals hmem.1 hp hkey, hdrop] at hmem
  cases hmem.2

namespace Identity

variable {s : Identity} {w : Write}

theorem agrees_iff {trusted r : Roster} : Agrees ⟨trusted, some r⟩ ↔ pins r = pins trusted :=
  ⟨fun ⟨_, hr, h⟩ => Option.some.inj hr ▸ h, fun h => ⟨r, rfl, h⟩⟩

theorem not_agrees_of_cut {trusted : Roster} : ¬ Agrees ⟨trusted, none⟩ := fun ⟨_, hr, _⟩ => nomatch hr

section

variable (h : s.Agrees)

include h

/-- Where memory and file agree, writing what memory holds fails to keep that only if it cuts the file, or leaves a
file that pins something else. -/
theorem agrees_persist (trusted : Roster) :
    Agrees ⟨trusted, (persistLocked trusted s.file w).2⟩ ↔ w ≠ .cut ∧ (w = .untouched → pins s.trusted = pins trusted) := by
  obtain ⟨_, hr, hpin⟩ := h
  rw [hr]
  cases w <;> simp [persistLocked, agrees_iff, not_agrees_of_cut, hpin]

theorem agrees_trust_iff (call : TrustCall) :
    (s.trustPeerDetails call w).identity.Agrees ↔ s.Sound (.trust call) w := by
  simp only [trustPeerDetails, Sound]
  cases checked call with
  | none =>
    refine iff_of_true h fun _ _ hnone => ?_
    cases hnone
  | some checked =>
    obtain ⟨_, fingerprint⟩ := checked
    obtain ⟨_, hr, hpin⟩ := h
    have hsame : update (pins s.trusted) call.id (some fingerprint) = pins s.trusted ↔
        pins s.trusted call.id = some fingerprint := by
      rw [update_eq_self_iff, eq_comm]
    cases w <;> simp [pinPeer, persistLocked, agrees_iff, not_agrees_of_cut, hr, hpin, pins_restore, pins_put, hsame]

theorem agrees_remove_iff (id : String) : (s.removePeer id w).identity.Agrees ↔ s.Sound (.remove id) w := by
  refine (agrees_persist h _).trans (and_congr_right fun _ => imp_congr_right fun _ => ?_)
  rw [pins_erase, eq_comm, update_eq_self_iff, eq_comm]

theorem agrees_removeOrchestrators_iff :
    (s.removePairedOrchestrators w).identity.Agrees ↔ s.Sound .removeOrchestrators w := by
  simp only [removePairedOrchestrators, Sound]
  by_cases hsome : ∃ p ∈ s.trusted.vals, p.2.role = "orchestrator"
  · have hany : (s.trusted.vals.any fun p => p.2.role = "orchestrator") = true := by simpa using hsome
    obtain ⟨p, hp, hrole⟩ := hsome
    have hne : pins (s.trusted.filter fun p => p.2.role ≠ "orchestrator") ≠ pins s.trusted :=
      pins_filter_ne hp (by simpa using hrole)
    simp only [hany, if_true]
    refine (agrees_persist h _).trans ?_
    have hsome : ∃ p ∈ s.trusted.vals, p.2.role = "orchestrator" := ⟨p, hp, hrole⟩
    generalize s.trusted.filter _ = trusted at hne ⊢
    cases w <;> simp [hsome, Ne.symm hne]
  · have hany : (s.trusted.vals.any fun p => p.2.role = "orchestrator") = false := by simpa using hsome
    simp only [hany, Bool.false_eq_true, if_false]
    obtain ⟨r, hr, hpin⟩ := h
    refine iff_of_true ⟨r, hr, hpin.trans (pins_filter_of_none fun p hp => ?_).symm⟩ fun h => absurd h hsome
    simpa using fun hrole => hsome ⟨p, hp, hrole⟩

theorem agrees_reload (readable : Bool) : (s.reloadTrustedPeers readable).identity.Agrees := by
  unfold reloadTrustedPeers
  split
  · rename_i roster hread
    unfold readRoster at hread
    split at hread
    · exact ⟨roster, hread, rfl⟩
    · cases hread
  · exact h

theorem agrees_apply_iff (op : TrustOp) : (s.apply op w).identity.Agrees ↔ s.Sound op w := by
  cases op with
  | trust call => exact agrees_trust_iff h call
  | remove id => exact agrees_remove_iff h id
  | removeOrchestrators => exact agrees_removeOrchestrators_iff h
  | reload readable => exact iff_of_true (agrees_reload h readable) trivial

end

theorem run_concat (s : Identity) (ops : List (TrustOp × Write)) (op : TrustOp × Write) :
    s.run (ops ++ [op]) = ((s.run ops).apply op.1 op.2).identity := by
  simp [run]

end Identity

/-- Memory and file agree after each of the operations if and only if every operation is sound where it happens. -/
theorem trust_survives_restart_iff (s : Identity) (h : s.Agrees) (ops : List (TrustOp × Write)) :
    (∀ before after, ops = before ++ after → (s.run before).Agrees) ↔
      ∀ before op w after, ops = before ++ (op, w) :: after → (s.run before).Sound op w := by
  constructor
  · intro hagrees before op w after hsplit
    have hnext := hagrees (before ++ [(op, w)]) after (by rw [hsplit, List.append_assoc]; rfl)
    rw [Identity.run_concat] at hnext
    exact (Identity.agrees_apply_iff (hagrees before _ hsplit) op).mp hnext
  · intro hsound before
    induction before using List.reverseRecOn with
    | nil => exact fun _ _ => h
    | append_singleton before op ih =>
      intro after hsplit
      rw [List.append_assoc] at hsplit
      rw [Identity.run_concat]
      exact (Identity.agrees_apply_iff (ih _ hsplit) op.1).mpr (hsound before op.1 op.2 after hsplit)

/-- A peer is paired, and unpaired again. -/
theorem trust_survives_restart : let call : TrustCall := ⟨"node-1", "pem", "node", "", none, some "f1"⟩
    let ops : List (TrustOp × Write) := [(.trust call, .done), (.remove "node-1", .done)]
    Identity.Agrees {} ∧ ((∀ before after, ops = before ++ after → (Identity.run {} before).Agrees) ↔
        ∀ before op w after, ops = before ++ (op, w) :: after → (Identity.run {} before).Sound op w) := by
  intro call ops
  have hagrees : Identity.Agrees {} := ⟨∅, rfl, rfl⟩
  exact ⟨hagrees, trust_survives_restart_iff {} hagrees ops⟩

/-- The file cannot be opened when a peer is removed: memory has forgotten the peer, and a restart trusts it again. -/
theorem removed_peer_returns : let call : TrustCall := ⟨"node-1", "pem", "node", "", none, some "f1"⟩
    let s := Identity.run {} [(.trust call, .done), (.remove "node-1", .untouched)]
    pins s.trusted "node-1" = none ∧ (s.file.map fun r => pins r "node-1") = some (some "f1") ∧ ¬ s.Agrees := by
  intro call s
  have hmemory : pins s.trusted "node-1" = none := by decide +kernel
  have hfile : (s.file.map fun r => pins r "node-1") = some (some "f1") := by decide +kernel
  refine ⟨hmemory, hfile, fun ⟨r, hr, hpin⟩ => ?_⟩
  rw [hr, Option.map_some, hpin, hmemory] at hfile
  cases hfile

end Maistr0.PeerIdentity
