import Maistr0.Taskmgr.Recovery

/-!
# The ledger of a task

What a task is for, without stamps, times, checkpoints and attempts: its status, its result and, for
each subtask, who does it, how far it is and what came out. `Ledger.Step` says everything that can
happen to a ledger; what holds of every history of a task is proved about it once.

A step takes two facts about the call that makes it: that a new assignment keeps the ID of the subtask,
and that a resumed task has work left. Only some results need them.
-/

namespace Maistr0.Taskmgr

open List

structure Entry where
  assignment : Assignment
  status : Status
  output : String

abbrev Entry.id (e : Entry) : String := e.assignment.subtask.id

structure Ledger where
  status : Status
  result : String
  entries : List Entry

namespace Ledger

def unfinished (status : Status) : Bool := status ≠ .completed

def mark (p : Status → Bool) (status : Status) (entries : List Entry) : List Entry :=
  entries.map fun e => if p e.status then { e with status } else e

variable {keepsIDs hasWork : Prop} {L L' L'' : Ledger}

def Idle (L : Ledger) : Prop := ∀ e ∈ L.entries, e.status.active = false

def RolledUp (entries : List Entry) (status : Status) : Prop :=
  if entries.any fun e => e.status = .failed then status = .failed
  else status = .awaitingApproval ∨ status = .synthesis ∨ status = .completed

inductive Step (keepsIDs hasWork : Prop) (L L' : Ledger) : Prop
  | touch (h : L' = L)
  | edit (i : Nat) (e e' : Entry) (hi : L.entries[i]? = some e) (he : e.status.active) (he' : e'.status.active)
      (hstarted : e'.status = .pending → e.status = .pending) (hid : keepsIDs → e'.id = e.id) (h : L' = { L with entries := L.entries.set i e' })
  | finish (i : Nat) (e e' : Entry) (hi : L.entries[i]? = some e) (hwork : ¬ L.Idle)
      (he : keepsIDs → e.status.active) (he' : e'.status = .completed ∨ e'.status = .failed)
      (hid : keepsIDs → e'.id = e.id) (hentries : L'.entries = L.entries.set i e')
      (hopen : ¬ L'.Idle → L'.status = L.status ∧ L'.result = L.result)
      (hdone : L'.Idle → RolledUp L'.entries L'.status)
  | cancel (hstatus : L.status ≠ .completed ∧ L.status ≠ .failed ∧ L.status ≠ .cancelled)
      (h : L' = { L with status := .cancelled, entries := mark Status.active .cancelled L.entries })
  | release (hstatus : L.status = .awaitingApproval ∨ L.status = .synthesis)
      (hstatus' : L'.status = .synthesis ∨ L'.status = .completed ∨ L'.status = .failed)
      (hentries : L'.entries = L.entries)
  | resume (hstatus : L.status = .failed ∨ L.status = .cancelled)
      (hwork : hasWork → ∃ e ∈ L.entries, e.status ≠ .completed)
      (h : L' = { L with status := .running, entries := mark unfinished .pending L.entries })
  | interrupt (hstatus : L.status = .pending ∨ L.status = .running ∨ L.status = .synthesis)
      (h : L' = { L with status := .failed, entries := mark Status.active .failed L.entries })

def Opened (L : Ledger) : Prop :=
  (L.status = .running ∧ L.entries ≠ [] ∧ ∀ e ∈ L.entries, e.status = .pending) ∨ (L.status = .failed ∧ L.entries = [])

/-! ### Entries -/

variable {p : Status → Bool} {status : Status} {entries : List Entry} {i : Nat} {e : Entry} {id : String} {e' : Entry}

theorem mem_mark (h : e ∈ mark p status entries) : e.status = status ∨ (e ∈ entries ∧ p e.status = false) := by
  obtain ⟨_, hmem, rfl⟩ := mem_map.mp h
  split
  · exact .inl rfl
  · rename_i hp
    exact .inr ⟨hmem, by simpa using hp⟩

theorem mark_of_kept (h : entries[i]? = some e) (hp : p e.status = false) : (mark p status entries)[i]? = some e := by
  rw [mark, getElem?_map, h, Option.map_some, if_neg (by simp [hp])]

theorem ids_mark (p : Status → Bool) (status : Status) (entries : List Entry) :
    (mark p status entries).map Entry.id = entries.map Entry.id := by
  rw [mark, map_map]
  apply map_congr_left
  intro e _
  simp only [Function.comp_apply]
  split <;> rfl

theorem ids_set (hi : entries[i]? = some e) (hid : e'.id = e.id) :
    (entries.set i e').map Entry.id = entries.map Entry.id := by
  obtain ⟨hlt, rfl⟩ := List.getElem?_eq_some_iff.mp hi
  rw [map_set, hid, ← getElem_map Entry.id (h := by simpa using hlt), set_getElem_self]

theorem idle_mark (hstatus : status.active = false) (hp : ∀ s : Status, p s = false → s.active = false) :
    ∀ e ∈ mark p status entries, e.status.active = false := by
  intro e he
  rcases mem_mark he with h | ⟨-, h⟩
  · rw [h, hstatus]
  · exact hp _ h

theorem not_idle (hi : L.entries[i]? = some e) (he : e.status.active) : ¬ L.Idle := by
  intro hidle
  rw [hidle e (mem_of_getElem? hi)] at he
  cases he

theorem Step.ids (hids : keepsIDs) (h : Step keepsIDs hasWork L L') :
    L'.entries.map Entry.id = L.entries.map Entry.id := by
  cases h with
  | touch h => rw [h]
  | edit _ _ _ hi _ _ _ hid h =>
    subst h
    exact ids_set hi (hid hids)
  | finish _ _ _ hi _ _ _ hid hentries =>
    rw [hentries]
    exact ids_set hi (hid hids)
  | cancel _ h | resume _ _ h | interrupt _ h =>
    subst h
    exact ids_mark _ _ _
  | release _ _ hentries => rw [hentries]

/-! ### Only a running task has work under way -/

def Quiet (L : Ledger) : Prop := L.status ≠ .running → L.Idle

theorem Quiet.running (h : L.Quiet) (hwork : ¬ L.Idle) : L.status = .running := by
  by_contra hne
  exact hwork (h hne)

theorem Opened.quiet (h : L.Opened) : L.Quiet := by
  intro hne
  obtain ⟨hrun, -⟩ | ⟨-, hnil⟩ := h
  · exact absurd hrun hne
  intro e he
  rw [hnil] at he
  cases he

theorem Step.quiet (h : Step keepsIDs hasWork L L') (hL : L.Quiet) : L'.Quiet := by
  intro hne
  cases h with
  | touch h =>
    subst h
    exact hL hne
  | edit _ _ _ hi he _ _ _ h =>
    subst h
    exact absurd (hL.running (not_idle hi he)) hne
  | finish _ _ _ _ hwork _ _ _ _ hopen =>
    by_contra hopen'
    rw [(hopen hopen').1] at hne
    exact hne (hL.running hwork)
  | cancel _ h | interrupt _ h =>
    subst h
    exact idle_mark rfl fun _ hs => hs
  | release hstatus _ hentries =>
    have hidle : L.Idle := hL (by rcases hstatus with h | h <;> rw [h] <;> decide)
    unfold Idle
    rw [hentries]
    exact hidle
  | resume _ _ h =>
    subst h
    exact absurd rfl hne

/-! ### Running tasks have work left, settled ones have none -/

def Sound (L : Ledger) : Prop :=
  match L.status with
  | .running => ¬ L.Idle ∧ ∀ e ∈ L.entries, e.status.active ∨ e.status = .completed ∨ e.status = .failed
  | .synthesis | .awaitingApproval | .completed => ∀ e ∈ L.entries, e.status = .completed
  | .failed | .cancelled => L.Idle
  | .pending | .unknown _ => False

def Open (entries : List Entry) : Prop :=
  ∀ e ∈ entries, e.status.active ∨ e.status = .completed ∨ e.status = .failed

theorem idle_of_completed (h : ∀ e ∈ L.entries, e.status = .completed) : L.Idle := by
  intro e he
  rw [h e he]
  rfl

theorem sound_of_running (hstatus : L.status = .running) (hwork : ¬ L.Idle) (hopen : Open L.entries) : L.Sound := by
  unfold Sound
  rw [hstatus]
  exact ⟨hwork, hopen⟩

theorem sound_of_idle (hstatus : L.status = .failed ∨ L.status = .cancelled) (h : L.Idle) : L.Sound := by
  unfold Sound
  rcases hstatus with hs | hs <;> rw [hs] <;> exact h

theorem sound_of_completed
    (hstatus : L.status = .awaitingApproval ∨ L.status = .synthesis ∨ L.status = .completed ∨ L.status = .failed)
    (h : ∀ e ∈ L.entries, e.status = .completed) : L.Sound := by
  unfold Sound
  rcases hstatus with hs | hs | hs | hs <;> rw [hs]
  · exact h
  · exact h
  · exact h
  · exact idle_of_completed h

theorem Sound.quiet (h : L.Sound) : L.Quiet := by
  intro hne
  unfold Sound at h
  split at h
  · rename_i hrun
    exact absurd hrun hne
  · exact idle_of_completed h
  · exact idle_of_completed h
  · exact idle_of_completed h
  · exact h
  · exact h
  · exact h.elim
  · exact h.elim

theorem Sound.open (h : L.Sound) (hstatus : L.status = .running) : Open L.entries := by
  unfold Sound at h
  rw [hstatus] at h
  exact h.2

theorem Sound.completed (h : L.Sound)
    (hstatus : L.status = .awaitingApproval ∨ L.status = .synthesis ∨ L.status = .completed) :
    ∀ e ∈ L.entries, e.status = .completed := by
  unfold Sound at h
  rcases hstatus with hs | hs | hs <;> rw [hs] at h <;> exact h

theorem Open.set (h : Open entries) (he : e.status.active ∨ e.status = .completed ∨ e.status = .failed) :
    Open (entries.set i e) := by
  intro x hx
  rcases mem_or_eq_of_mem_set hx with hmem | rfl
  · exact h x hmem
  · exact he

theorem Opened.sound (h : L.Opened) : L.Sound := by
  obtain ⟨hrun, hne, hpending⟩ | ⟨hfailed, hnil⟩ := h
  · refine sound_of_running hrun ?_ fun e he => .inl (by rw [hpending e he]; rfl)
    obtain ⟨e, he⟩ := exists_mem_of_ne_nil _ hne
    intro hidle
    have hactive := hidle e he
    rw [hpending e he] at hactive
    cases hactive
  · refine sound_of_idle (.inl hfailed) fun e he => ?_
    rw [hnil] at he
    cases he

theorem Open.all_completed (h : Open entries) (hidle : ∀ e ∈ entries, e.status.active = false)
    (hfailed : entries.any (fun e => e.status = .failed) = false) : ∀ e ∈ entries, e.status = .completed := by
  intro e he
  rcases h e he with hactive | hcompleted | hfail
  · rw [hidle e he] at hactive
    cases hactive
  · exact hcompleted
  · simpa [hfail] using any_eq_false.mp hfailed e he

theorem RolledUp.sound (h : RolledUp L.entries L.status) (hidle : L.Idle) (hopen : Open L.entries) : L.Sound := by
  unfold RolledUp at h
  split at h
  · exact sound_of_idle (.inl h) hidle
  rename_i hany
  refine sound_of_completed ?_ (hopen.all_completed hidle (by simpa using hany))
  tauto

theorem Step.sound (hwork : hasWork) (h : Step keepsIDs hasWork L L') (hL : L.Sound) : L'.Sound := by
  cases h with
  | touch h =>
    subst h
    exact hL
  | edit i _ e' hi he he' _ _ h =>
    subst h
    have hrun := hL.quiet.running (not_idle hi he)
    have hi' : (L.entries.set i e')[i]? = some e' := by
      rw [getElem?_set_self (List.getElem?_eq_some_iff.mp hi).1]
    exact sound_of_running hrun (not_idle (L := { L with entries := L.entries.set i e' }) hi' he')
      ((hL.open hrun).set (.inl he'))
  | finish _ _ _ _ hwork _ he' _ hentries hopen hdone =>
    have hrun := hL.quiet.running hwork
    have hopen' : Open L'.entries := by
      rw [hentries]
      exact (hL.open hrun).set (.inr he')
    by_cases hidle : L'.Idle
    · exact (hdone hidle).sound hidle hopen'
    · exact sound_of_running ((hopen hidle).1.trans hrun) hidle hopen'
  | cancel _ h =>
    subst h
    exact sound_of_idle (.inr rfl) (idle_mark rfl fun _ hs => hs)
  | release _ _ hentries =>
    refine sound_of_completed (by tauto) ?_
    rw [hentries]
    exact hL.completed (by tauto)
  | resume _ hleft h =>
    subst h
    -- the subtask that is left is pending after the reset
    obtain ⟨e, he, hne⟩ := hleft hwork
    have hmem : { e with status := .pending } ∈ mark unfinished .pending L.entries :=
      mem_map.mpr ⟨e, he, by rw [if_pos (by simpa [unfinished] using hne)]⟩
    refine sound_of_running rfl (fun hidle => ?_) fun x hx => ?_
    · cases hidle _ hmem
    rcases mem_mark hx with hpending | ⟨-, hkept⟩
    · exact .inl (by rw [hpending]; rfl)
    · exact .inr (.inl (by simpa [unfinished] using hkept))
  | interrupt _ h =>
    subst h
    exact sound_of_idle (.inl rfl) (idle_mark rfl fun _ hs => hs)

/-! ### Finished work is kept -/

/-- A later state of a ledger in which everything finished is as it was. -/
structure Keeps (L L' : Ledger) : Prop where
  ids : L'.entries.map Entry.id = L.entries.map Entry.id
  entry : ∀ (i : Nat) (e : Entry), L.entries[i]? = some e → e.status = .completed → L'.entries[i]? = some e
  task : L.status = .completed → L'.status = .completed ∧ L'.result = L.result

theorem Keeps.refl (L : Ledger) : Keeps L L := ⟨rfl, fun _ _ h _ => h, fun h => ⟨h, rfl⟩⟩

theorem Keeps.trans (h : Keeps L L') (h' : Keeps L' L'') : Keeps L L'' where
  ids := h'.ids.trans h.ids
  entry i e hi he := h'.entry i e (h.entry i e hi he) he
  task hs := ⟨(h'.task (h.task hs).1).1, (h'.task (h.task hs).1).2.trans (h.task hs).2⟩

theorem keeps_set (hi : L.entries[i]? = some e) (he : e.status.active) {j : Nat} {x : Entry}
    (hj : L.entries[j]? = some x) (hx : x.status = .completed) : (L.entries.set i e')[j]? = some x := by
  have hne : i ≠ j := by
    rintro rfl
    cases hi.symm.trans hj
    rw [hx] at he
    cases he
  rw [getElem?_set_ne hne, hj]

theorem keeps_mark {status' : Status} (hp : p .completed = false) (hstatus : L.status ≠ .completed) :
    Keeps L { L with status := status', entries := mark p status L.entries } where
  ids := ids_mark p status L.entries
  entry _ _ hi he := mark_of_kept hi (by rw [he, hp])
  task h := absurd h hstatus

theorem Step.keeps (hids : keepsIDs) (h : Step keepsIDs hasWork L L') (hL : L.Quiet) : Keeps L L' := by
  cases h with
  | touch h =>
    subst h
    exact Keeps.refl L'
  | edit _ _ _ hi he _ _ hid h =>
    subst h
    exact ⟨ids_set hi (hid hids), fun _ _ hj hx => keeps_set hi he hj hx, fun hs => ⟨hs, rfl⟩⟩
  | finish _ _ _ hi hwork he _ hid hentries =>
    refine ⟨by rw [hentries, ids_set hi (hid hids)], fun j x hj hx => ?_, fun hs => ?_⟩
    · rw [hentries]
      exact keeps_set hi (he hids) hj hx
    · rw [hL.running hwork] at hs
      cases hs
  | cancel hstatus h =>
    subst h
    exact keeps_mark rfl hstatus.1
  | release hstatus _ hentries =>
    refine ⟨by rw [hentries], fun _ _ hi _ => by rw [hentries, hi], fun hs => ?_⟩
    rcases hstatus with h | h <;> rw [h] at hs <;> cases hs
  | resume hstatus _ h =>
    subst h
    exact keeps_mark (by decide) (by rcases hstatus with h | h <;> rw [h] <;> decide)
  | interrupt hstatus h =>
    subst h
    exact keeps_mark rfl (by rcases hstatus with h | h | h <;> rw [h] <;> decide)

/-! ### Finished work starts again only from a reset -/

/-- The entry that a call means by an ID: the first one that has it. -/
def entry? (L : Ledger) (id : String) : Option Entry := L.entries.find? fun e => e.id = id

theorem entry?_place (hids : L'.entries.map Entry.id = L.entries.map Entry.id) (h : L'.entry? id = some e') :
    ∃ (i : Nat) (e : Entry), L.entries[i]? = some e ∧ L'.entries[i]? = some e' ∧ L.entry? id = some e := by
  obtain ⟨hid, i, hlt', rfl, hbefore⟩ := find?_eq_some_iff_getElem.mp h
  have hlength : L'.entries.length = L.entries.length := by simpa using congrArg length hids
  have hlt : i < L.entries.length := hlength ▸ hlt'
  have hsame : ∀ (j : Nat) (hj : j < L.entries.length) (hj' : j < L'.entries.length),
      L'.entries[j].id = L.entries[j].id := by
    intro j hj hj'
    have hget := congrArg (fun l => l[j]?) hids
    simpa [hj, hj'] using hget
  refine ⟨i, L.entries[i], getElem?_eq_getElem hlt, getElem?_eq_getElem hlt', ?_⟩
  refine find?_eq_some_iff_getElem.mpr ⟨?_, i, hlt, rfl, fun j hj => ?_⟩
  · rw [← hsame i hlt hlt']
    exact hid
  · rw [← hsame j (hj.trans hlt) (hj.trans hlt')]
    exact hbefore j hj

theorem Step.ended (hids : keepsIDs) (h : Step keepsIDs hasWork L L') (hi : L.entries[i]? = some e)
    (he : e.status.active = false) (hi' : L'.entries[i]? = some e') :
    e'.status.active = false ∨ e'.status = .pending := by
  have hset : ∀ {j : Nat} {x x' : Entry}, L.entries[j]? = some x → x.status.active →
      (L.entries.set j x')[i]? = some e' → e' = e := by
    intro j x x' hj hx hset
    have hne : j ≠ i := by
      rintro rfl
      cases hj.symm.trans hi
      rw [he] at hx
      cases hx
    rw [getElem?_set_ne hne, hi] at hset
    exact (Option.some.inj hset).symm
  cases h with
  | touch h =>
    subst h
    cases hi.symm.trans hi'
    exact .inl he
  | edit _ _ _ hj hx _ _ _ h =>
    subst h
    rw [hset hj hx hi']
    exact .inl he
  | finish _ _ _ hj _ hx _ _ hentries =>
    rw [hentries] at hi'
    rw [hset hj (hx hids) hi']
    exact .inl he
  | cancel _ h | interrupt _ h =>
    subst h
    exact .inl (idle_mark rfl (fun _ hs => hs) e' (mem_of_getElem? hi'))
  | release _ _ hentries =>
    rw [hentries, hi] at hi'
    rw [← Option.some.inj hi']
    exact .inl he
  | resume _ _ h =>
    subst h
    have hmem : e' ∈ mark unfinished .pending L.entries := mem_of_getElem? hi'
    rcases mem_mark hmem with hpending | ⟨-, hkept⟩
    · exact .inr hpending
    · have hcompleted : e'.status = .completed := by simpa [unfinished] using hkept
      exact .inl (by rw [hcompleted]; rfl)

theorem Step.entry?_ended (hids : keepsIDs) (h : Step keepsIDs hasWork L L')
    (hL : ∀ e, L.entry? id = some e → e.status.active = false) (he' : L'.entry? id = some e') :
    e'.status.active = false ∨ e'.status = .pending := by
  obtain ⟨_, e, hi, hi', he⟩ := entry?_place (h.ids hids) he'
  exact h.ended hids hi (hL e he) hi'

theorem Step.started (h : Step keepsIDs hasWork L L') (hlive : L.status ≠ .failed ∧ L.status ≠ .cancelled)
    (hi : L.entries[i]? = some e) (he : e.status ≠ .pending) (hi' : L'.entries[i]? = some e') :
    e'.status ≠ .pending := by
  have hset : ∀ {j : Nat} {x x' : Entry}, L.entries[j]? = some x → (x'.status = .pending → x.status = .pending) →
      (L.entries.set j x')[i]? = some e' → e'.status ≠ .pending := by
    intro j x x' hj hx hset
    by_cases hne : j = i
    · subst hne
      rw [getElem?_set_self (List.getElem?_eq_some_iff.mp hj).1] at hset
      obtain rfl := Option.some.inj hset
      cases hj.symm.trans hi
      exact fun hpending => he (hx hpending)
    · rw [getElem?_set_ne hne, hi] at hset
      exact Option.some.inj hset ▸ he
  have hmark : ∀ {status : Status}, status ≠ .pending → e' ∈ mark Status.active status L.entries →
      e'.status ≠ .pending := by
    intro status hstatus hmem hpending
    rcases mem_mark hmem with heq | ⟨-, hkept⟩
    · exact hstatus (heq.symm.trans hpending)
    · rw [hpending] at hkept
      cases hkept
  cases h with
  | touch h =>
    subst h
    cases hi.symm.trans hi'
    exact he
  | edit _ _ _ hj _ _ hstarted _ h =>
    subst h
    exact hset hj hstarted hi'
  | finish _ _ _ hj _ _ hx' _ hentries =>
    rw [hentries] at hi'
    refine hset hj (fun hpending => ?_) hi'
    rcases hx' with hx' | hx' <;> rw [hx'] at hpending <;> cases hpending
  | cancel _ h | interrupt _ h =>
    subst h
    exact hmark (by decide) (mem_of_getElem? hi')
  | release _ _ hentries =>
    rw [hentries, hi] at hi'
    exact Option.some.inj hi' ▸ he
  | resume hstatus => exact absurd hstatus (not_or.mpr hlive)

theorem Step.entry?_started (hids : keepsIDs) (h : Step keepsIDs hasWork L L')
    (hlive : L.status ≠ .failed ∧ L.status ≠ .cancelled) (hL : ∀ e, L.entry? id = some e → e.status ≠ .pending)
    (he' : L'.entry? id = some e') :
    e'.status ≠ .pending := by
  obtain ⟨_, e, hi, hi', he⟩ := entry?_place (h.ids hids) he'
  exact h.started hlive hi (hL e he) hi'

end Ledger

end Maistr0.Taskmgr
