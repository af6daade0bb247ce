import Maistr0.Lib.Interleaving

/-!
# The work pool

`workpool.Pool`: calls of `Submit`, `TrySubmit` and `Close` as tasks around the pool, whose own goroutines are the
workers. A job is the number of its acceptance, since its value and its context are only handed on to the handler.
`closeOnce` has begun when the pool's context is cancelled, which is the first thing done in it, and `closed` is its
end. The holders of the read lock of `submissions` have numbers; the lock is given back with the return.

Jobs that are taken out and not handled are listed for the statements only.
-/

namespace Maistr0.Workpool

open Lib.Interleaving List

inductive Worker
  | idle
  /-- Has received a job and not looked at the pool's context. -/
  | taken (job : Nat)
  | running (job : Nat)
  | exited

def Worker.held : Worker → List Nat
  | taken job | running job => [job]
  | _ => []

def Worker.handles : Worker → List Nat
  | running job => [job]
  | _ => []

structure Pool where
  workers : List Worker
  queueCap : Nat
  jobs : List Nat := []
  cancelled : Bool := false
  closed : Bool := false
  writer : Bool := false
  readers : List Nat := []
  next : Nat := 0
  accepted : Nat := 0
  handled : List Nat := []
  dropped : List Nat := []

inductive SubmitError
  | nilContext
  | context
  | closed
  | full

inductive Task
  | submit (wait : Bool)
  | checking (wait : Bool) (reader : Nat)
  /-- Has found both contexts live. -/
  | selecting (wait : Bool) (reader : Nat)
  | accepted (job : Nat)
  | rejected (err : SubmitError)
  | close
  /-- Has cancelled the pool's context and waits for the workers and the lock. -/
  | closing
  /-- Holds the lock. -/
  | draining
  | closed

namespace Pool

def rUnlock (g : Pool) (reader : Nat) : Pool := { g with readers := g.readers.filter (· ≠ reader) }

def enqueue (g : Pool) : Pool := { g with jobs := g.jobs ++ [g.accepted], accepted := g.accepted + 1 }

def handOver (g : Pool) (l r : List Worker) : Pool :=
  { g with workers := l ++ .taken g.accepted :: r, accepted := g.accepted + 1 }

end Pool

/-- The caller's context can be cancelled whenever it is looked at. -/
inductive Moves : Pool → Task → Unit → Pool → Task → Prop
  | refuse (g : Pool) (wait : Bool) : Moves g (.submit wait) () g (.rejected .nilContext)
  | rLock {g : Pool} (wait : Bool) (h : g.writer = false) :
      Moves g (.submit wait) () { g with readers := g.next :: g.readers, next := g.next + 1 } (.checking wait g.next)
  | checkClosed {g : Pool} (wait : Bool) (reader : Nat) (h : g.cancelled = true) :
      Moves g (.checking wait reader) () (g.rUnlock reader) (.rejected .closed)
  | checkContext (g : Pool) (wait : Bool) (reader : Nat) :
      Moves g (.checking wait reader) () (g.rUnlock reader) (.rejected .context)
  | select {g : Pool} (wait : Bool) (reader : Nat) (h : g.cancelled = false) :
      Moves g (.checking wait reader) () g (.selecting wait reader)
  | selectClosed {g : Pool} (wait : Bool) (reader : Nat) (h : g.cancelled = true) :
      Moves g (.selecting wait reader) () (g.rUnlock reader) (.rejected .closed)
  | selectContext (g : Pool) (wait : Bool) (reader : Nat) :
      Moves g (.selecting wait reader) () (g.rUnlock reader) (.rejected .context)
  | enqueue {g : Pool} (wait : Bool) (reader : Nat) (h : g.jobs.length < g.queueCap) :
      Moves g (.selecting wait reader) () (g.enqueue.rUnlock reader) (.accepted g.accepted)
  | handOver {g : Pool} {l r : List Worker} (wait : Bool) (reader : Nat) (h : g.jobs = [])
      (hworkers : g.workers = l ++ .idle :: r) :
      Moves g (.selecting wait reader) () ((g.handOver l r).rUnlock reader) (.accepted g.accepted)
  | full {g : Pool} (reader : Nat) (h : g.queueCap ≤ g.jobs.length) :
      Moves g (.selecting false reader) () (g.rUnlock reader) (.rejected .full)
  | cancel {g : Pool} (h : g.cancelled = false) : Moves g .close () { g with cancelled := true } .closing
  | lock {g : Pool} (hworkers : ∀ w ∈ g.workers, w = .exited) (hwriter : g.writer = false) (hreaders : g.readers = []) :
      Moves g .closing () { g with writer := true } .draining
  | drain {g : Pool} {job : Nat} {jobs : List Nat} (h : g.jobs = job :: jobs) :
      Moves g .draining () { g with jobs, dropped := job :: g.dropped } .draining
  | unlock {g : Pool} (h : g.jobs = []) : Moves g .draining () { g with writer := false, closed := true } .closed
  | closedBefore {g : Pool} (h : g.closed = true) : Moves g .close () g .closed

inductive Works : Pool → Pool → Prop
  | leave {g : Pool} {l r : List Worker} (hw : g.workers = l ++ .idle :: r) (h : g.cancelled = true) :
      Works g { g with workers := l ++ .exited :: r }
  | receive {g : Pool} {l r : List Worker} {job : Nat} {jobs : List Nat} (hw : g.workers = l ++ .idle :: r)
      (h : g.jobs = job :: jobs) : Works g { g with workers := l ++ .taken job :: r, jobs }
  | abandon {g : Pool} {l r : List Worker} {job : Nat} (hw : g.workers = l ++ .taken job :: r) (h : g.cancelled = true) :
      Works g { g with workers := l ++ .exited :: r, dropped := job :: g.dropped }
  | run {g : Pool} {l r : List Worker} {job : Nat} (hw : g.workers = l ++ .taken job :: r) (h : g.cancelled = false) :
      Works g { g with workers := l ++ .running job :: r }
  | done {g : Pool} {l r : List Worker} {job : Nat} (hw : g.workers = l ++ .running job :: r) :
      Works g { g with workers := l ++ .idle :: r, handled := job :: g.handled }

def system : System Pool Task Unit where
  moves := Moves
  disturbs g _ g' := Works g g'
  starts _ t := (∃ wait, t = .submit wait) ∨ t = .close

/-- `NewWithOptions`. -/
def new (workers queueCap : Nat) : State Pool Task := ⟨{ workers := .replicate workers .idle, queueCap }, []⟩

def Pool.places (g : Pool) (job : Nat) : Nat :=
  g.jobs.count job + (g.workers.flatMap Worker.held).count job + g.handled.count job + g.dropped.count job

structure Pool.Sound (g : Pool) : Prop where
  once : ∀ job, g.places job = (List.range g.accepted).count job
  dropped : g.dropped ≠ [] → g.cancelled = true
  exited : g.writer = true ∨ g.closed = true → ∀ w ∈ g.workers, w = .exited
  drained : g.closed = true → g.jobs = [] ∧ g.cancelled = true
  locked : g.writer = true → g.cancelled = true

/-- A call that may still submit holds the read lock, and only one call is inside `closeOnce`. -/
def Task.Fits (g : Pool) : Task → Prop
  | checking _ reader => reader < g.next ∧ reader ∈ g.readers
  | selecting _ reader => (reader < g.next ∧ reader ∈ g.readers) ∧ g.writer = false ∧ g.closed = false
  | closing => g.cancelled = true ∧ g.closed = false
  | draining => g.cancelled = true ∧ g.writer = true ∧ g.closed = false
  | closed => g.closed = true
  | _ => True

def Task.Owns : Task → Option Nat → Prop
  | checking _ reader, some k | selecting _ reader, some k => reader = k
  | closing, none | draining, none => True
  | _, _ => False

variable {g g' : Pool} {t t' u : Task} {l r : List Worker}

theorem Pool.Sound.enqueue (hg : g.Sound) (hclosed : g.closed = false) : g.enqueue.Sound where
  once job := by
    have honce := hg.once job
    simp only [places, Pool.enqueue, range_succ, count_append] at honce ⊢
    omega
  dropped := hg.dropped
  exited := hg.exited
  drained h := by cases hclosed.symm.trans h
  locked := hg.locked

theorem Pool.Sound.handOver (hg : g.Sound) (hwriter : g.writer = false) (hclosed : g.closed = false)
    (hworkers : g.workers = l ++ .idle :: r) : (g.handOver l r).Sound where
  once job := by
    have honce := hg.once job
    simp only [places, Pool.handOver, range_succ, hworkers, flatMap_append, flatMap_cons, Worker.held,
      count_append, nil_append] at honce ⊢
    omega
  dropped := hg.dropped
  exited h := by
    rcases h with h | h
    · cases hwriter.symm.trans h
    · cases hclosed.symm.trans h
  drained h := by cases hclosed.symm.trans h
  locked := hg.locked

theorem Pool.Sound.rUnlock (hg : g.Sound) (reader : Nat) : (g.rUnlock reader).Sound :=
  ⟨hg.once, hg.dropped, hg.exited, hg.drained, hg.locked⟩

theorem Pool.Sound.work {w w' : Worker} {jobs handled dropped : List Nat} (hg : g.Sound) (hw : g.workers = l ++ w :: r)
    (hne : w ≠ .exited) (hdropped : dropped = g.dropped ∨ g.cancelled = true)
    (hjobs : ∀ job, jobs.count job + w'.held.count job + handled.count job + dropped.count job =
      g.jobs.count job + w.held.count job + g.handled.count job + g.dropped.count job) :
    { g with workers := l ++ w' :: r, jobs, handled, dropped }.Sound := by
  have hopen : ¬ (g.writer = true ∨ g.closed = true) := fun h =>
    hne (hg.exited h w (hw ▸ mem_append_right _ mem_cons_self))
  refine ⟨fun job => ?_, fun h => ?_, fun h => (hopen h).elim, fun h => (hopen (.inr h)).elim,
    fun h => (hopen (.inl h)).elim⟩
  · have honce := hg.once job
    have hjob := hjobs job
    simp only [places, hw, flatMap_append, flatMap_cons, count_append] at honce ⊢
    omega
  · rcases hdropped with rfl | hcancelled
    · exact hg.dropped h
    · exact hcancelled

theorem Works.sound (h : Works g g') (hg : g.Sound) : g'.Sound := by
  cases h with
  | leave hw h | run hw h => exact hg.work hw nofun (.inl rfl) fun job => rfl
  | receive hw h =>
    refine hg.work hw nofun (.inl rfl) fun job => ?_
    simp only [h, Worker.held, count_cons, count_nil]
    omega
  | abandon hw h =>
    refine hg.work hw nofun (.inr h) fun job => ?_
    simp only [Worker.held, count_cons, count_nil]
    omega
  | done hw =>
    refine hg.work hw nofun (.inl rfl) fun job => ?_
    simp only [Worker.held, count_cons, count_nil]
    omega

theorem Task.Fits.mono (hu : u.Fits g) (hnext : g.next ≤ g'.next)
    (hreaders : ∀ k ∈ g.readers, u.Owns (some k) → k ∈ g'.readers) (hcancelled : g.cancelled = true → g'.cancelled = true)
    (hwriter : g'.writer = g.writer) (hclosed : g'.closed = g.closed) : u.Fits g' := by
  cases u with
  | checking _ k => exact ⟨Nat.lt_of_lt_of_le hu.1 hnext, hreaders k hu.2 rfl⟩
  | selecting _ k => exact ⟨⟨Nat.lt_of_lt_of_le hu.1.1 hnext, hreaders k hu.1.2 rfl⟩, hwriter.trans hu.2.1, hclosed.trans hu.2.2⟩
  | closing => exact ⟨hcancelled hu.1, hclosed.trans hu.2⟩
  | draining => exact ⟨hcancelled hu.1, hwriter.trans hu.2.1, hclosed.trans hu.2.2⟩
  | closed => exact hclosed.trans hu
  | submit | accepted | rejected | close => trivial

theorem Task.Fits.rUnlock {reader : Nat} (hu : u.Fits g) (hapart : ¬ u.Owns (some reader)) (hreaders : g'.readers = g.readers)
    (hsame : g'.next = g.next ∧ g'.cancelled = g.cancelled ∧ g'.writer = g.writer ∧ g'.closed = g.closed) :
    u.Fits (g'.rUnlock reader) := by
  refine hu.mono (Nat.le_of_eq hsame.1.symm) (fun k hk hown => ?_) (fun h => hsame.2.1.trans h) hsame.2.2.1 hsame.2.2.2
  refine mem_filter.mpr ⟨hreaders ▸ hk, decide_eq_true fun heq => hapart (heq ▸ hown)⟩

theorem Task.Fits.reads {k : Nat} (hu : u.Fits g) (hown : u.Owns (some k)) : k < g.next ∧ k ∈ g.readers := by
  cases u with
  | checking => exact (show _ = k from hown) ▸ hu
  | selecting => exact (show _ = k from hown) ▸ hu.1
  | submit | accepted | rejected | close | closing | draining | closed => exact hown.elim

theorem Task.Fits.closes (hu : u.Fits g) (hown : u.Owns none) : g.cancelled = true ∧ g.closed = false := by
  cases u with
  | closing => exact hu
  | draining => exact ⟨hu.1, hu.2.2⟩
  | submit | checking | selecting | accepted | rejected | close | closed => exact hown.elim

theorem Moves.spec (h : Moves g t () g' t') (hg : g.Sound) (ht : t.Fits g) :
    g'.Sound ∧ t'.Fits g' ∧ (∀ u : Task, u.Fits g → (∀ k, t.Owns k → ¬ u.Owns k) → u.Fits g') ∧
      (∀ k, t'.Owns k → t.Owns k ∨ ∀ u : Task, u.Fits g → ¬ u.Owns k) ∧
      (g.closed = true → g'.closed = true ∧ g'.accepted = g.accepted) := by
  cases h with
  | refuse => exact ⟨hg, trivial, fun _ hu _ => hu, nofun, fun h => ⟨h, rfl⟩⟩
  | rLock _ h =>
    refine ⟨⟨hg.once, hg.dropped, hg.exited, hg.drained, hg.locked⟩, ⟨Nat.lt_succ_self _, mem_cons_self⟩, fun u hu _ => ?_,
      fun k hk => .inr fun u hu hown => ?_, fun h => ⟨h, rfl⟩⟩
    · exact hu.mono (Nat.le_succ _) (fun k hk _ => mem_cons_of_mem _ hk) id rfl rfl
    cases k with
    | none => exact hk
    | some => exact absurd (hu.reads hown).1 (Nat.not_lt.mpr (Nat.le_of_eq hk))
  | checkClosed wait reader | checkContext wait reader | selectClosed wait reader | selectContext wait reader | full reader =>
    exact ⟨hg.rUnlock _, trivial, fun u hu hapart => hu.rUnlock (hapart _ rfl) rfl ⟨rfl, rfl, rfl, rfl⟩, nofun, fun h => ⟨h, rfl⟩⟩
  | select _ _ h =>
    have hclosed : g.closed = false := eq_false_of_ne_true fun hc => by cases h.symm.trans (hg.drained hc).2
    have hwriter : g.writer = false := eq_false_of_ne_true fun hw => by cases h.symm.trans (hg.locked hw)
    refine ⟨hg, ⟨ht, hwriter, hclosed⟩, fun _ hu _ => hu, fun k hk => .inl ?_, fun h => ⟨h, rfl⟩⟩
    cases k <;> exact hk
  | enqueue _ _ h =>
    obtain ⟨-, -, hclosed⟩ := ht
    exact ⟨(hg.enqueue hclosed).rUnlock _, trivial, fun u hu hapart => hu.rUnlock (hapart _ rfl) rfl ⟨rfl, rfl, rfl, rfl⟩, nofun,
      fun h => by cases hclosed.symm.trans h⟩
  | handOver _ _ h hworkers =>
    obtain ⟨-, hwriter, hclosed⟩ := ht
    exact ⟨(hg.handOver hwriter hclosed hworkers).rUnlock _, trivial,
      fun u hu hapart => hu.rUnlock (hapart _ rfl) rfl ⟨rfl, rfl, rfl, rfl⟩, nofun, fun h => by cases hclosed.symm.trans h⟩
  | cancel h =>
    have hclosed : g.closed = false := eq_false_of_ne_true fun hc => by cases h.symm.trans (hg.drained hc).2
    refine ⟨⟨hg.once, fun _ => rfl, hg.exited, fun hc => ⟨(hg.drained hc).1, rfl⟩, fun _ => rfl⟩, ⟨rfl, hclosed⟩, fun u hu _ => ?_,
      fun k hk => .inr fun u hu hown => ?_, fun h => ⟨h, rfl⟩⟩
    · exact hu.mono (Nat.le_refl _) (fun _ hk _ => hk) (fun _ => rfl) rfl rfl
    cases k with
    | none => cases h.symm.trans (hu.closes hown).1
    | some => exact hk
  | lock hworkers _ hreaders =>
    refine ⟨⟨hg.once, hg.dropped, fun _ => hworkers, hg.drained, fun _ => ht.1⟩, ⟨ht.1, rfl, ht.2⟩, fun u hu hapart => ?_,
      fun k hk => .inl ?_, fun h => ⟨h, rfl⟩⟩
    · cases u with
      | selecting =>
        have hk := hu.1.2
        rw [hreaders] at hk
        cases hk
      | closing | draining => exact (hapart none trivial trivial).elim
      | submit | accepted | rejected | close | checking | closed => exact hu
    · cases k <;> exact hk
  | @drain job jobs h =>
    refine ⟨⟨fun job' => ?_, fun _ => ht.1, hg.exited, fun hc => ?_, hg.locked⟩, ht, fun _ hu _ => hu, fun k hk => .inl hk,
      fun h => ⟨h, rfl⟩⟩
    · have honce := hg.once job'
      simp only [Pool.places, h, count_cons] at honce ⊢
      omega
    · cases ht.2.2.symm.trans hc
  | unlock h =>
    refine ⟨⟨hg.once, hg.dropped, fun _ => hg.exited (.inl ht.2.1), fun _ => ⟨h, ht.1⟩, nofun⟩, rfl, fun u hu hapart => ?_, nofun,
      fun _ => ⟨rfl, rfl⟩⟩
    cases u with
    | selecting => cases hu.2.1.symm.trans ht.2.1
    | closing | draining => exact (hapart none trivial trivial).elim
    | closed => rfl
    | submit | accepted | rejected | close | checking => exact hu
  | closedBefore h => exact ⟨hg, h, fun _ hu _ => hu, nofun, fun h => ⟨h, rfl⟩⟩

theorem Moves.workers (h : Moves g t () g' t') : g'.workers.length = g.workers.length := by
  cases h with
  | handOver _ _ _ hworkers => simp [Pool.rUnlock, Pool.handOver, hworkers]
  | _ => rfl

theorem Works.workers (h : Works g g') : g'.workers.length = g.workers.length := by
  cases h with
  | leave hw | receive hw | abandon hw | run hw | done hw => simp [hw]

theorem keepsApart_sound (g₀ : Pool) : KeepsApart system
    (fun g => g.Sound ∧ g.workers.length = g₀.workers.length ∧ (g₀.closed = true → g.closed = true ∧ g.accepted = g₀.accepted))
    (fun g t => t.Fits g) Task.Owns where
  move {g t ev g' t'} h hg ht := by
    obtain ⟨hsound, ht', hothers, htaken, hclosed⟩ := Moves.spec h hg.1 ht
    refine ⟨⟨hsound, h.workers.trans hg.2.1, fun h₀ => ?_⟩, ht', hothers, htaken⟩
    obtain ⟨hc, haccepted⟩ := hg.2.2 h₀
    exact ⟨(hclosed hc).1, (hclosed hc).2.trans haccepted⟩
  disturb {g ev g'} h hg := by
    refine ⟨⟨Works.sound h hg.1, h.workers.trans hg.2.1, fun h₀ => ?_⟩, fun u hu => ?_⟩
    · cases h <;> exact hg.2.2 h₀
    · cases h <;> exact hu
  start {g t} h _ := by
    rcases h with ⟨wait, rfl⟩ | rfl <;> exact ⟨trivial, nofun⟩

variable {workers queueCap : Nat} {s s' : State Pool Task}

theorem sound_of_run (h : Run system (new workers queueCap) s) :
    (s.shared.Sound ∧ s.shared.workers.length = workers) ∧ (∀ t ∈ s.tasks, t.Fits s.shared) ∧ s.Apart Task.Owns := by
  have hnew : (new workers queueCap).shared.Sound := by
    refine ⟨fun job => ?_, nofun, nofun, nofun, nofun⟩
    simp [Pool.places, new, flatMap_replicate, Worker.held]
  obtain ⟨⟨⟨hsound, hlength, -⟩, hfits⟩, hapart⟩ := (keepsApart_sound (new workers queueCap).shared).run h
    ⟨⟨hnew, rfl, nofun⟩, nofun⟩ Pairwise.nil
  exact ⟨⟨hsound, hlength.trans length_replicate⟩, hfits, hapart⟩

theorem handles_sublist (w : Worker) : w.handles.Sublist w.held := by
  cases w <;> simp [Worker.handles, Worker.held]

theorem length_handles_le (ws : List Worker) : (ws.flatMap Worker.handles).length ≤ ws.length := by
  induction ws with
  | nil => exact Nat.le_refl _
  | cons w =>
    have hw : w.handles.length ≤ 1 := by cases w <;> simp [Worker.handles]
    rw [flatMap_cons, length_append, length_cons]
    omega

/-- No job is handled twice, every accepted job is in the queue, with a worker or handled unless the pool is being
closed, there are never more handlers than workers, and when a call of `Close` has returned there is no handler, no job
in the queue and no submission accepted any more. -/
theorem jobs_handled_once (h : Run system (new workers queueCap) s) :
    (s.shared.workers.flatMap Worker.handles ++ s.shared.handled).Nodup ∧
    (s.shared.cancelled = false → ∀ job < s.shared.accepted,
      job ∈ s.shared.jobs ∨ job ∈ s.shared.workers.flatMap Worker.held ∨ job ∈ s.shared.handled) ∧
    (s.shared.workers.flatMap Worker.handles).length ≤ workers ∧
    (Task.closed ∈ s.tasks → ∀ s', Run system s s' → s'.shared.workers.flatMap Worker.handles = [] ∧ s'.shared.jobs = [] ∧
      s'.shared.accepted = s.shared.accepted) := by
  obtain ⟨⟨hsound, hlength⟩, hfits, hapart⟩ := sound_of_run h
  refine ⟨?_, fun hopen job hjob => ?_, ?_, fun hclosed s' h' => ?_⟩
  · refine nodup_iff_count.mpr fun job => ?_
    have honce := hsound.once job
    have hle := nodup_iff_count.mp (@nodup_range s.shared.accepted) job
    have hsub : (s.shared.workers.flatMap Worker.handles).count job ≤ (s.shared.workers.flatMap Worker.held).count job :=
      Sublist.count_le _ (Sublist.flatMap_right _ fun w _ => handles_sublist w)
    unfold Pool.places at honce
    rw [count_append]
    omega
  · have hdropped : s.shared.dropped = [] := by
      by_contra hne
      cases hopen.symm.trans (hsound.dropped hne)
    have honce := hsound.once job
    have hpos := count_pos_iff.mpr (mem_range.mpr hjob)
    simp only [Pool.places, hdropped, count_nil] at honce
    simp only [← count_pos_iff]
    omega
  · exact hlength ▸ length_handles_le s.shared.workers
  · have hfinal := (keepsApart_sound s.shared).run h' ⟨⟨hsound, rfl, fun h => ⟨h, rfl⟩⟩, hfits⟩ hapart
    obtain ⟨⟨⟨hsound', -, hkept⟩, -⟩, -⟩ := hfinal
    obtain ⟨hc, haccepted⟩ := hkept (hfits _ hclosed)
    refine ⟨flatMap_eq_nil_iff.mpr fun w hw => ?_, (hsound'.drained hc).1, haccepted⟩
    rw [hsound'.exited (.inr hc) w hw]
    rfl

/-- The job of a submission is handled. -/
theorem jobs_handled_once_running : ∃ s, Run system (new 1 1) s ∧ s.shared.workers.flatMap Worker.handles = [0] ∧
    (s.shared.workers.flatMap Worker.handles).length ≤ 1 := by
  have hselecting : Run system (new 1 1) ⟨_, [.selecting true 0]⟩ :=
    ((Relation.ReflTransGen.single ⟨none, .start [] (.inl ⟨true, rfl⟩)⟩).tail
      ⟨_, .move [] [] (.rLock true rfl)⟩).tail ⟨_, .move [] [] (.select true 0 rfl)⟩
  have hrun := ((hselecting.tail ⟨_, .move [] [] (.enqueue true 0 (by decide))⟩).tail
    ⟨some (), .disturb _ (@Works.receive _ [] [] _ _ rfl rfl)⟩).tail ⟨some (), .disturb _ (@Works.run _ [] [] _ rfl rfl)⟩
  exact ⟨_, hrun, rfl, (jobs_handled_once hrun).2.2.1⟩

end Maistr0.Workpool
