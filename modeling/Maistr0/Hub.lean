import Mathlib

/-!
# Snapshots for subscribers

The `Hub` and its `Publisher`. A round of the publisher reads the generation, builds a snapshot, and skips it if
neither has changed since the last broadcast that reached everybody. Meanwhile subscribers come, go and read. Both
sides of a broadcast happen under the lock of the hub. Timers and cancellation only decide when a round begins and are
left out.
-/

namespace Maistr0.Hub

/-- A client's channel by the number of frames in it. The frame enqueued last and the generation the client has
brought about are history. -/
structure Client where
  queued : Nat := 0
  last : Option String := none
  joined : Nat
deriving DecidableEq

structure Publishing where
  clients : List Client := []
  generation : Nat := 0
  /-- The last frame that reached everybody; `nil` is the empty text. -/
  previous : String := ""
  previousGeneration : Nat := 0
  /-- The generation that was read before the snapshot is built. -/
  building : Option Nat := none

inductive Event where
  | subscribe
  | unsubscribe (client : Nat)
  | receive (client : Nat)
  | nobody
  | load
  | failed
  | built (data : String)

def Client.offer (data : String) (c : Client) : Client :=
  if c.queued < 8 then { c with queued := c.queued + 1, last := some data } else c

namespace Publishing

abbrev Skips (s : Publishing) (data : String) : Prop := s.building = some s.previousGeneration ∧ s.previous = data

def broadcast (s : Publishing) (next : Nat) (data : String) : Publishing :=
  let s' := { s with clients := s.clients.map (Client.offer data), building := none }
  if s.clients ≠ [] ∧ ∀ c ∈ s.clients, c.queued < 8 then { s' with previous := data, previousGeneration := next } else s'

def step (s : Publishing) : Event → Publishing
  | .subscribe => { s with clients := s.clients ++ [{ joined := s.generation + 1 }], generation := s.generation + 1 }
  | .unsubscribe i => { s with clients := s.clients.eraseIdx i }
  | .receive i => { s with clients := s.clients.modify i fun c => { c with queued := c.queued - 1 } }
  | .nobody => if s.clients = [] ∧ s.building = none then { s with previous := "" } else s
  | .load => if s.building = none then { s with building := some s.generation } else s
  | .failed => { s with building := none }
  | .built data =>
    match s.building with
    | none => s
    | some next => if s.Skips data then { s with building := none } else s.broadcast next data

/-- No broadcast finds a full channel. -/
def Delivers : Publishing → List Event → Prop
  | _, [] => True
  | s, e :: events =>
    (∀ data, e = .built data → s.building ≠ none → ¬ s.Skips data → ∀ c ∈ s.clients, c.queued < 8) ∧ (s.step e).Delivers events

/-- Whoever was there when the last full broadcast read the generation has got its frame. -/
structure Sound (s : Publishing) : Prop where
  joined : ∀ c ∈ s.clients, c.joined ≤ s.generation
  got : ∀ c ∈ s.clients, c.joined ≤ s.previousGeneration → c.last = some s.previous
  previous : s.previousGeneration ≤ s.generation
  building : ∀ next ∈ s.building, next ≤ s.generation

variable {s : Publishing}

theorem Sound.broadcast (h : s.Sound) {next : Nat} (hnext : next ≤ s.generation) (data : String)
    (hroom : ∀ c ∈ s.clients, c.queued < 8) : (s.broadcast next data).Sound := by
  unfold Publishing.broadcast
  have hoffer : ∀ c ∈ s.clients.map (Client.offer data), c.joined ≤ s.generation ∧ c.last = some data := by
    intro c hc
    obtain ⟨d, hd, rfl⟩ := List.mem_map.mp hc
    rw [Client.offer, if_pos (hroom d hd)]
    exact ⟨h.joined d hd, rfl⟩
  split
  · exact ⟨fun c hc => (hoffer c hc).1, fun c hc _ => (hoffer c hc).2, hnext, nofun⟩
  have hnil : s.clients = [] := by grind
  simp only [hnil, List.map_nil]
  exact ⟨nofun, nofun, h.previous, nofun⟩

theorem Sound.clients (h : s.Sound) {clients : List Client} {generation : Nat} (hgeneration : s.generation ≤ generation)
    (hclients : ∀ c ∈ clients, (∃ d ∈ s.clients, d.joined = c.joined ∧ d.last = c.last) ∨
      s.generation < c.joined ∧ c.joined ≤ generation) : { s with clients, generation }.Sound := by
  refine ⟨fun c hc => ?_, fun c hc hle => ?_, h.previous.trans hgeneration, fun next hnext => (h.building next hnext).trans hgeneration⟩
  · obtain ⟨d, hd, hjoined, -⟩ | ⟨-, hle⟩ := hclients c hc
    · exact hjoined ▸ (h.joined d hd).trans hgeneration
    · exact hle
  · obtain ⟨d, hd, hjoined, hlast⟩ | ⟨hlt, -⟩ := hclients c hc
    · exact hlast ▸ h.got d hd (hjoined.trans_le hle)
    · exact absurd (hle.trans h.previous) (Nat.not_le.mpr hlt)

theorem Sound.step (h : s.Sound) {e : Event}
    (hroom : ∀ data, e = .built data → s.building ≠ none → ¬ s.Skips data → ∀ c ∈ s.clients, c.queued < 8) :
    (s.step e).Sound := by
  cases e with
  | subscribe => exact h.clients (Nat.le_succ _) (by grind)
  | unsubscribe => exact h.clients le_rfl fun c hc => .inl ⟨c, List.mem_of_mem_eraseIdx hc, rfl, rfl⟩
  | receive i =>
    refine h.clients le_rfl fun c hc => .inl ?_
    obtain ⟨_, hj⟩ := List.mem_iff_getElem?.mp hc
    rw [List.getElem?_modify] at hj
    grind
  | nobody =>
    simp only [Publishing.step]
    split
    · rename_i hnobody
      exact ⟨h.joined, by simp [hnobody.1], h.previous, h.building⟩
    · exact h
  | load =>
    simp only [Publishing.step]
    split
    · exact ⟨h.joined, h.got, h.previous, by simp⟩
    · exact h
  | failed => exact ⟨h.joined, h.got, h.previous, nofun⟩
  | built data =>
    simp only [Publishing.step]
    split
    · exact h
    rename_i next hnext
    split
    · exact ⟨h.joined, h.got, h.previous, nofun⟩
    · rename_i hskips
      exact h.broadcast (h.building next hnext) data (hroom data rfl (by simp [hnext]) hskips)

theorem Sound.run {events : List Event} (h : s.Sound) (hdelivers : s.Delivers events) : (events.foldl Publishing.step s).Sound := by
  induction events generalizing s with
  | nil => exact h
  | cons e events ih => exact ih (h.step hdelivers.1) hdelivers.2

def run (events : List Event) : Publishing := events.foldl step {}

/-- If no broadcast has found a full channel, and nobody has subscribed since the build of the snapshot began, then a
snapshot that is skipped is the last frame of every subscriber. -/
theorem skipped_is_last_frame {events : List Event} (hdelivers : Delivers {} events) {data : String}
    (hskips : (run events).Skips data) (hquiet : (run events).building = some (run events).generation) :
    ∀ c ∈ (run events).clients, c.last = some data := by
  have hsound : (run events).Sound := Sound.run ⟨nofun, nofun, le_rfl, nofun⟩ hdelivers
  intro c hc
  have hgeneration : (run events).generation = (run events).previousGeneration := Option.some.inj (hquiet.symm.trans hskips.1)
  exact hskips.2 ▸ hsound.got c hc (hgeneration ▸ hsound.joined c hc)

theorem skipped_is_last_frame_repeated : let s := run [.subscribe, .load, .built "a", .load]
    s.clients ≠ [] ∧ ∀ c ∈ s.clients, c.last = some "a" :=
  ⟨by decide, skipped_is_last_frame (by simp [Delivers, step]) (by decide) (by decide)⟩

/-- The first client does not read, the second one does. -/
def publish (data : String) : List Event := [.load, .built data, .receive 1]

/-- The ninth frame reaches the second client alone, and the tenth is skipped as it is the eighth. -/
theorem skipped_after_partial_broadcast :
    let s := run ([.subscribe, .subscribe] ++ ["a", "b", "a", "b", "a", "b", "a", "b", "c"].flatMap publish ++ [.load])
    s.Skips "b" ∧ s.building = some s.generation ∧ s.clients.map (·.last) = [some "b", some "c"] := by
  decide

end Publishing

end Maistr0.Hub
