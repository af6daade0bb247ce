import Maistr0.Go
import Maistr0.Lib.Keyed

/-!
# Announcements on the local network

`discovery.go`: what an instance broadcasts about itself, how a listener checks and stores what it hears, and
the rules that pick an orchestrator from what is visible. Instants are Unix nanoseconds, in the years
`UnixNano` can represent. A score is a finite `float64`, which JSON can carry; sockets and rebinding are left
out.
-/

namespace Maistr0.Discovery

open Go List

/-- The texts of `Announcement.Role` the code asks for. -/
inductive Role where
  | orchestrator
  | candidate
  | node
  | unknown (text : String)
deriving DecidableEq

structure Announcement where
  role : Role
  id : String
  httpAddr : String := ""
  peerAddr : String := ""
  score : Rat := 0
  members : Int := 0
  elected : Bool := false
  orchestratorID : String := ""
  issuedAtUnixNS : Int := 0
  hmacSHA256 : String := ""
deriving DecidableEq

structure Peer where
  announcement : Announcement
  lastSeen : Time
deriving DecidableEq

namespace Peer

def id (p : Peer) : String := p.announcement.id

def role (p : Peer) : Role := p.announcement.role

end Peer

def peerTTL : Duration := 15000000000

def announcementMaxClockSkew : Duration := 30000000000

/-! ### Signatures -/

/-- HMAC-SHA256 under a key of the JSON text of an announcement. -/
class AnnouncementMAC where
  mac : List UInt8 → Announcement → List UInt8
  size : ∀ key ann, (mac key ann).length = 32

instance constantMAC : AnnouncementMAC where
  mac _ _ := replicate 32 0
  size _ _ := rfl

def fromHexChar (c : Char) : Option Nat :=
  let n := c.toNat
  if 48 ≤ n ∧ n ≤ 57 then some (n - 48)
  else if 97 ≤ n ∧ n ≤ 102 then some (n - 87)
  else if 65 ≤ n ∧ n ≤ 70 then some (n - 55)
  else none

def hexDecode : List Char → Option (List UInt8)
  | [] => some []
  | [_] => none
  | high :: low :: rest =>
    match fromHexChar high, fromHexChar low, hexDecode rest with
    | some h, some l, some bytes => some (UInt8.ofNat (16 * h + l) :: bytes)
    | _, _, _ => none

def hexDigit (n : Nat) : Char := Char.ofNat (if n < 10 then 48 + n else 87 + n)

def hexEncode : List UInt8 → List Char
  | [] => []
  | b :: bytes => hexDigit (b.toNat / 16) :: hexDigit (b.toNat % 16) :: hexEncode bytes

theorem fromHexChar_hexDigit : ∀ n < 16, fromHexChar (hexDigit n) = some n := by decide

theorem utf8Size_hexDigit : ∀ n < 16, (hexDigit n).utf8Size = 1 := by decide

theorem hexDecode_hexEncode (bytes : List UInt8) : hexDecode (hexEncode bytes) = some bytes := by
  induction bytes with
  | nil => rfl
  | cons b _ ih =>
    have hb : b.toNat < 256 := b.toNat_lt
    have hhigh := fromHexChar_hexDigit (b.toNat / 16) (by omega)
    have hlow := fromHexChar_hexDigit (b.toNat % 16) (by omega)
    simp only [hexEncode, hexDecode, hhigh, hlow, ih]
    rw [Nat.div_add_mod, UInt8.ofNat_toNat]

theorem len_hexEncode (bytes : List UInt8) : len (String.ofList (hexEncode bytes)) = 2 * bytes.length := by
  unfold len
  rw [String.toList_ofList]
  induction bytes with
  | nil => rfl
  | cons b _ ih =>
    have hb : b.toNat < 256 := b.toNat_lt
    have hhigh := utf8Size_hexDigit (b.toNat / 16) (by omega)
    have hlow := utf8Size_hexDigit (b.toNat % 16) (by omega)
    simp only [hexEncode, map_cons, sum_cons, hhigh, hlow, ih, length_cons]
    omega

section Signatures

variable [AnnouncementMAC]

def signAnnouncement (ann : Announcement) (secret : List UInt8) (now : Time) : Except String Announcement :=
  if secret = [] then .error "discovery HMAC key is required"
  else
    let ann := { ann with issuedAtUnixNS := now, hmacSHA256 := "" }
    .ok { ann with hmacSHA256 := String.ofList (hexEncode (AnnouncementMAC.mac secret ann)) }

def verifyAnnouncement (ann : Announcement) (secret : List UInt8) (now : Time) : Bool :=
  if secret = [] ∨ ann.issuedAtUnixNS = 0 ∨ len ann.hmacSHA256 ≠ 64 then false
  else if ann.issuedAtUnixNS < now - announcementMaxClockSkew ∨ now + announcementMaxClockSkew < ann.issuedAtUnixNS then
    false
  else
    match hexDecode ann.hmacSHA256.toList with
    | none => false
    | some provided => provided = AnnouncementMAC.mac secret { ann with hmacSHA256 := "" }

theorem window_of_verifyAnnouncement {ann : Announcement} {secret : List UInt8} {now : Time}
    (h : verifyAnnouncement ann secret now = true) :
    now - announcementMaxClockSkew ≤ ann.issuedAtUnixNS ∧ ann.issuedAtUnixNS ≤ now + announcementMaxClockSkew := by
  unfold verifyAnnouncement at h
  split at h
  · exact absurd h Bool.false_ne_true
  split at h
  · exact absurd h Bool.false_ne_true
  · rename_i hwindow
    exact ⟨not_lt.mp fun hlt => hwindow (.inl hlt), not_lt.mp fun hlt => hwindow (.inr hlt)⟩

/-- What one holder of the key signs, every holder whose clock is near enough accepts. -/
theorem verifyAnnouncement_signAnnouncement {ann signed : Announcement} {secret : List UInt8} {sentAt now : Time}
    (hsign : signAnnouncement ann secret sentAt = .ok signed) (hsent : sentAt ≠ 0)
    (hlow : now - announcementMaxClockSkew ≤ sentAt) (hhigh : sentAt ≤ now + announcementMaxClockSkew) :
    verifyAnnouncement signed secret now = true := by
  unfold signAnnouncement at hsign
  split at hsign
  · cases hsign
  rename_i hsecret
  obtain rfl := Except.ok.inj hsign
  have hlen := len_hexEncode (AnnouncementMAC.mac secret { ann with issuedAtUnixNS := sentAt, hmacSHA256 := "" })
  rw [AnnouncementMAC.size] at hlen
  unfold verifyAnnouncement
  rw [if_neg, if_neg]
  · rw [String.toList_ofList, hexDecode_hexEncode]
    exact decide_eq_true rfl
  · rintro (hlt | hlt)
    · exact absurd hlow (not_le.mpr hlt)
    · exact absurd hhigh (not_le.mpr hlt)
  · rintro (h | h | h)
    · exact hsecret h
    · exact hsent h
    · exact h hlen

end Signatures

theorem verifyAnnouncement_signAnnouncement_late : ∃ signed, signAnnouncement ⟨.node, "n", "", "", 0, 0, false, "", 0, ""⟩ [1] 5 = .ok signed ∧
    verifyAnnouncement signed [1] (5 + announcementMaxClockSkew) = true :=
  ⟨_, rfl, verifyAnnouncement_signAnnouncement rfl (by decide) (by decide) (by decide)⟩

/-! ### The listener -/

structure Listener where
  selfIDs : List String
  authKey : List UInt8 := []
  lastSeen : Lib.Keyed (Prod.fst : String × Int → String) := ∅
  peers : Lib.Keyed Peer.id := ∅
  excluded : List String := []

namespace Listener

def listenWithSecret (secret : List UInt8) (selfIDs : List String) : Listener :=
  { selfIDs := selfIDs, authKey := secret }

/-- The lock-protected part of `acceptAnnouncement` that only a keyed listener has. -/
def remember (l : Listener) (ann : Announcement) (now : Time) : Listener :=
  { l with lastSeen := (l.lastSeen.put (ann.id, ann.issuedAtUnixNS)).filter fun entry =>
      !decide (entry.2 < now - announcementMaxClockSkew) }

def seenBefore (l : Listener) (ann : Announcement) : Bool :=
  match l.lastSeen.get? ann.id with
  | some entry => ann.issuedAtUnixNS ≤ entry.2
  | none => false

def store (l : Listener) (ann : Announcement) (now : Time) : Listener :=
  if ann.id ∈ l.excluded then l else { l with peers := l.peers.put { announcement := ann, lastSeen := now } }

def acceptAnnouncement [AnnouncementMAC] (l : Listener) (ann : Announcement) (now : Time) : Listener × Bool :=
  if l.authKey ≠ [] then
    if verifyAnnouncement ann l.authKey now = false then (l, false)
    else if l.seenBefore ann then (l, false)
    else ((l.remember ann now).store ann now, true)
  else (l.store ann now, true)

/-- What `serve` does with one packet; `none` is a packet that is not an announcement. -/
def serve [AnnouncementMAC] (l : Listener) (packet : Option Announcement) (now : Time) : Listener × Bool :=
  match packet with
  | none => (l, false)
  | some ann => if ann.id = "" ∨ ann.id ∈ l.selfIDs then (l, false) else l.acceptAnnouncement ann now

/-- Whether `Snapshot` keeps and returns a peer. -/
def visible (l : Listener) (now : Time) (p : Peer) : Bool :=
  !decide (p.id ∈ l.excluded) && decide (now - peerTTL < p.lastSeen)

/-- The peers `Snapshot` returns, which are also those it leaves in the table. -/
def snapshot (l : Listener) (now : Time) : Listener × List Peer :=
  ({ l with peers := l.peers.filter (l.visible now) }, (l.peers.filter (l.visible now)).vals)

def excludePeer (l : Listener) (id : String) : Listener :=
  if id = "" then l else { l with excluded := id :: l.excluded, peers := l.peers.erase id }

def includePeer (l : Listener) (id : String) : Listener :=
  if id = "" then l else { l with excluded := l.excluded.filter (· ≠ id) }

/-! What each operation leaves in the table. -/

variable {l : Listener} {now : Time} {p : Peer}

@[simp] theorem selfIDs_store (l : Listener) (ann : Announcement) (now : Time) :
    (l.store ann now).selfIDs = l.selfIDs := by
  unfold store
  split <;> rfl

theorem mem_peers_store {ann : Announcement} (h : p ∈ (l.store ann now).peers.vals) :
    p ∈ l.peers.vals ∨ p.announcement = ann := by
  unfold store at h
  split at h
  · exact .inl h
  rcases mem_cons.mp h with rfl | h
  · exact .inr rfl
  · exact .inl (mem_of_mem_filter h)

theorem serve_eq [AnnouncementMAC] (l : Listener) (packet : Option Announcement) (now : Time) :
    (l.serve packet now).1 = l ∨ ∃ (ann : Announcement) (l' : Listener), packet = some ann ∧ ann.id ∉ l.selfIDs ∧
      (l.serve packet now).1 = l'.store ann now ∧ l'.selfIDs = l.selfIDs ∧ l'.peers = l.peers := by
  cases packet with
  | none => exact .inl rfl
  | some ann =>
    by_cases hself : ann.id = "" ∨ ann.id ∈ l.selfIDs
    · exact .inl (by rw [serve, if_pos hself])
    have hother : ann.id ∉ l.selfIDs := fun hmem => hself (.inr hmem)
    rw [serve, if_neg hself]
    unfold acceptAnnouncement
    split
    · split
      · exact .inl rfl
      split
      · exact .inl rfl
      · exact .inr ⟨ann, l.remember ann now, rfl, hother, rfl, rfl, rfl⟩
    · exact .inr ⟨ann, l, rfl, hother, rfl, rfl, rfl⟩

@[simp] theorem selfIDs_serve [AnnouncementMAC] (l : Listener) (packet : Option Announcement) (now : Time) :
    (l.serve packet now).1.selfIDs = l.selfIDs := by
  rcases l.serve_eq packet now with heq | ⟨ann, l', -, -, heq, hself, -⟩
  · rw [heq]
  · rw [heq, selfIDs_store, hself]

theorem mem_peers_serve [AnnouncementMAC] {packet : Option Announcement} (h : p ∈ (l.serve packet now).1.peers.vals) :
    p ∈ l.peers.vals ∨ (packet = some p.announcement ∧ p.id ∉ l.selfIDs) := by
  rcases l.serve_eq packet now with heq | ⟨ann, l', rfl, hother, heq, -, hpeers⟩
  · rw [heq] at h
    exact .inl h
  rw [heq] at h
  rcases mem_peers_store h with h | rfl
  · exact .inl (hpeers ▸ h)
  · exact .inr ⟨rfl, hother⟩

theorem mem_peers_snapshot : p ∈ (l.snapshot now).2 ↔ p ∈ l.peers.vals ∧ l.visible now p = true :=
  mem_filter

@[simp] theorem selfIDs_excludePeer (l : Listener) (id : String) : (l.excludePeer id).selfIDs = l.selfIDs := by
  unfold excludePeer
  split <;> rfl

theorem mem_peers_excludePeer {id : String} (h : p ∈ (l.excludePeer id).peers.vals) : p ∈ l.peers.vals := by
  unfold excludePeer at h
  split at h
  · exact h
  · exact mem_of_mem_filter h

@[simp] theorem selfIDs_includePeer (l : Listener) (id : String) : (l.includePeer id).selfIDs = l.selfIDs := by
  unfold includePeer
  split <;> rfl

@[simp] theorem peers_includePeer (l : Listener) (id : String) : (l.includePeer id).peers = l.peers := by
  unfold includePeer
  split <;> rfl

end Listener

/-! ### The election rules -/

def outranks (candidate incumbent : Announcement) : Bool :=
  decide (incumbent.score < candidate.score) ||
    (decide (candidate.score = incumbent.score) && decide (candidate.id < incumbent.id))

/-- One turn of the loop of `BestOrchestratorCandidate`. -/
def betterCandidate (best : Announcement) (peer : Peer) : Announcement :=
  if peer.role ≠ .orchestrator ∧ peer.role ≠ .candidate then best
  else if outranks peer.announcement best then peer.announcement
  else best

def bestOrchestratorCandidate (self : Announcement) (peers : List Peer) : Announcement :=
  peers.foldl betterCandidate self

def isBestOrchestratorCandidate (self : Announcement) (peers : List Peer) : Bool :=
  (bestOrchestratorCandidate self peers).id = self.id

def isElectedOrchestrator (self : Announcement) (peers : List Peer) : Bool :=
  let active := peers.filter fun peer => peer.role = .orchestrator
  if active.length > 0 then isBestOrchestratorCandidate self active
  else if self.role = .orchestrator then true
  else isBestOrchestratorCandidate self peers

end Maistr0.Discovery
