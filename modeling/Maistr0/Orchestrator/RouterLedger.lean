import Maistr0.Orchestrator.Router

/-!
# What a routed request gives back

The ledger of a request follows its questions and effects: what it holds, the half-open circuits whose probe it was given,
those of them that have had no outcome since, and the upstream requests it has sent.
-/

namespace Maistr0.Orchestrator.Router

open Lib Lib.Dialogue List
open CircuitBreakers (Admission Outcome)

structure Ledger where
  held : List Resource := []
  overdrawn : Bool := false
  probed : List (String × String) := []
  unsettled : List (String × String) := []
  short : List (String × String) := []
  sent : List (String × String) := []
  committed : Bool := false
  late : Bool := false
deriving DecidableEq

namespace Ledger

def take (s : Ledger) (r : Resource) : Ledger := { s with held := r :: s.held }

/-- Giving back what is not held is an error of its own. -/
def give (s : Ledger) (r : Resource) : Ledger :=
  if r ∈ s.held then { s with held := s.held.erase r } else { s with overdrawn := true }

def settle (s : Ledger) (nodeID model : String) : Ledger :=
  { s with unsettled := s.unsettled.filter (· ≠ (nodeID, model)) }

def send (s : Ledger) (nodeID model : String) : Ledger :=
  { s with sent := (nodeID, model) :: s.sent, late := s.late || s.committed }

def commit (s : Ledger) : Ledger := { s with committed := true }

def probe (s : Ledger) (nodeID model : String) : Ledger :=
  { s with probed := (nodeID, model) :: s.probed, unsettled := (nodeID, model) :: s.unsettled }

/-- The upstream has answered with a status below 200 before the context ended. -/
def mark (s : Ledger) (nodeID model : String) : Ledger := { s with short := (nodeID, model) :: s.short }

def learn (s : Ledger) {α : Type} : Query α → α → Ledger
  | .acquire nodeID model, answer => if answer = .probe then s.probe nodeID model else s
  | .errorBody nodeID model status, body => if status < 200 ∧ body.ctxErr = none then s.mark nodeID model else s
  | _, _ => s

def update : Item interface → Ledger → Ledger
  | .asked q answer, s => s.learn q answer
  | .told (.take r), s => s.take r
  | .told (.give r), s => s.give r
  | .told (.report _ nodeID model), s => s.settle nodeID model
  | .told (.send nodeID model), s => s.send nodeID model
  | .told (.respond _ _), s => s.commit
  | .told (.record _), s => s

end Ledger

open Ledger

abbrev Pre {α : Type} (p : Handler α) (Q : α → Ledger → Prop) : Ledger → Prop := wp update p Q

section Rules

variable {α : Type} {Q : α → Ledger → Prop} {s : Ledger}

@[simp] theorem pre_ask (q : Query α) : Pre (ask q) Q s ↔ ∀ answer, Q answer (s.learn q answer) := Iff.rfl

theorem pre_ask_bind {β : Type} (q : Query β) (next : β → Handler α) :
    Pre (ask q >>= next) Q s ↔ ∀ answer, Pre (next answer) Q (s.learn q answer) := Iff.rfl

@[simp] theorem pre_tell (e : Effect) {Q : Unit → Ledger → Prop} : Pre (tell e) Q s ↔ Q () (update (.told e) s) :=
  Iff.rfl

def RequestEvent.reports (event : RequestEvent) : Bool :=
  match event.phase with
  | .attemptFailed => isTransientRouterFailure event.failureClass || decide (event.status ≥ 200)
  | .attemptSucceeded => true
  | _ => false

def Ledger.record (s : Ledger) (event : RequestEvent) : Ledger :=
  if event.reports then s.settle event.nodeID event.model else s

theorem pre_recordRouterEvent (event : RequestEvent) {Q : Unit → Ledger → Prop} :
    Pre (recordRouterEvent event) Q s ↔ Q () (s.record event) := by
  unfold recordRouterEvent record RequestEvent.reports
  cases event.phase with
  | attemptFailed =>
    by_cases htransient : isTransientRouterFailure event.failureClass = true
    · simp [htransient, update]
    by_cases hstatus : event.status ≥ 200
    · simp [htransient, hstatus, update]
    · simp [htransient, hstatus, update]
  | attemptSucceeded | _ => simp [update]

@[simp] theorem pre_recordEvent (l : Loop) (event : RequestEvent) {Q : Loop → Ledger → Prop} :
    Pre (recordEvent l event) Q s ↔ Q (l.note event) (s.record event) := by
  unfold recordEvent Pre
  rw [wp_bind]
  exact pre_recordRouterEvent event

@[simp] theorem pre_writeRouterError (status : Nat) (message : String) {Q : Unit → Ledger → Prop} :
    Pre (writeRouterError status message) Q s ↔ Q () s.commit := Iff.rfl

theorem pre_writeRouterContextError {Q : Unit → Ledger → Prop} (h : Q () s) (hcommit : Q () s.commit) :
    Pre writeRouterContextError Q s := by
  unfold writeRouterContextError
  simp only [wp_bind, pre_ask, wp_ite]
  intro gone
  refine ⟨fun _ => h, fun _ err => ?_⟩
  split <;> exact hcommit

end Rules

/-! ### The ledger of an attempt -/

/-- The ledger of a request that holds `held` beside the slot of its client. -/
def Ledger.during (held : List Resource) (probed unsettled sent : List (String × String)) : Ledger :=
  { held := held ++ [.clientSlot], probed := probed, unsettled := unsettled, sent := sent }

section During

variable {held : List Resource} {probed unsettled sent : List (String × String)}

@[simp] theorem take_during (r : Resource) :
    (during held probed unsettled sent).take r = .during (r :: held) probed unsettled sent := rfl

@[simp] theorem give_during (r : Resource) :
    (during (r :: held) probed unsettled sent).give r = .during held probed unsettled sent := by
  simp [Ledger.give, during]

theorem give_during_under {r r' : Resource} (hne : r' ≠ r) :
    (during (r' :: r :: held) probed unsettled sent).give r = .during (r' :: held) probed unsettled sent := by
  simp [Ledger.give, during, hne]

@[simp] theorem give_during_commit (r : Resource) :
    (during (r :: held) probed unsettled sent).commit.give r = (during held probed unsettled sent).commit := by
  simp [Ledger.give, during, commit]

/-- At most the pair of this attempt is without an outcome, so an outcome for it settles everything. -/
theorem settle_during {nodeID model : String} (h : ∀ p ∈ unsettled, p = (nodeID, model)) :
    (during held probed unsettled sent).settle nodeID model = .during held probed [] sent := by
  have hnil : unsettled.filter (· ≠ (nodeID, model)) = [] :=
    filter_eq_nil_iff.mpr fun p hp => by simp [h p hp]
  rw [settle, during, hnil, during]

@[simp] theorem record_during (event : RequestEvent) :
    (during held probed [] sent).record event = .during held probed [] sent := by
  unfold record
  split <;> rfl

theorem record_of_reports {event : RequestEvent} (hreports : event.reports = true)
    (h : ∀ p ∈ unsettled, p = (event.nodeID, event.model)) :
    (during held probed unsettled sent).record event = .during held probed [] sent := by
  rw [record, if_pos hreports, settle_during h]

theorem record_of_silent {s : Ledger} {event : RequestEvent} (hsilent : event.reports = false) : s.record event = s := by
  rw [record, hsilent]
  rfl

@[simp] theorem record_commit (s : Ledger) (event : RequestEvent) : s.commit.record event = (s.record event).commit := by
  unfold record
  split <;> rfl

@[simp] theorem send_during (nodeID model : String) : (during held probed unsettled sent).send nodeID model =
    .during held probed unsettled ((nodeID, model) :: sent) := rfl

@[simp] theorem give_mark (r : Resource) (nodeID model : String) :
    ((during (r :: held) probed unsettled sent).mark nodeID model).give r =
      (during held probed unsettled sent).mark nodeID model := by
  simp [Ledger.give, during, Ledger.mark]

end During

/-- After a turn everything is given back and settled; only a turn that returns may have responded. -/
def Calm (tried : List String) (probed sent : List (String × String)) : Next → Ledger → Prop
  | .again l, s => l.tried = tried ∧ s = .during [] probed [] sent
  | .returned _, s => s = .during [] probed [] sent ∨ s = (during [] probed [] sent).commit

section Attempt

variable {probed unsettled sent : List (String × String)} {a : Assignment} {l : Loop} {r : Reservation}
  {failureClass : FailureClass} {status : Nat}

theorem pre_pause (n : Nat) (l : Loop) : Pre (pause n l) (Calm l.tried probed sent) (.during [] probed [] sent) := by
  unfold pause
  simp only [wp_bind, pre_ask, wp_ite, wp_pure, learn]
  refine ⟨fun _ slept => ⟨fun _ => ⟨rfl, rfl⟩, fun _ => ?_⟩, fun _ => ⟨rfl, rfl⟩⟩
  exact pre_writeRouterContextError (.inl rfl) (.inr rfl)

/-- Everything is given back, and settled unless the upstream answered with a status below 200. -/
def Ended (a : Assignment) (tried : List String) (probed unsettled sent : List (String × String)) (next : Next)
    (s : Ledger) : Prop :=
  Calm tried probed sent next s ∨
    ((∃ l, next = .returned l) ∧ s = ((during [] probed unsettled sent).mark a.nodeID a.model).commit)

theorem reports_of_status {phase : Phase} (hstatus : 200 ≤ status)
    (hphase : phase = .attemptFailed ∨ phase = .attemptSucceeded) :
    (attemptEvent a phase failureClass status).reports = true := by
  rcases hphase with rfl | rfl
  · simp [RequestEvent.reports, attemptEvent, hstatus]
  · rfl

theorem classifyUpstreamStatus_of_lt (hstatus : status < 200) (mentionsModel : Bool) :
    classifyUpstreamStatus status mentionsModel = (.clientError, false) := by
  unfold classifyUpstreamStatus
  rw [if_neg (by omega), if_neg (by omega), if_neg (by omega), if_neg]
  omega

theorem pre_statusFailed_of_lt (n : Nat) (hstatus : status < 200) :
    Pre (statusFailed n a l status .clientError false) (Ended a l.tried probed unsettled sent)
      ((during [] probed unsettled sent).mark a.nodeID a.model) := by
  have hsilent : (attemptEvent a .attemptFailed .clientError status).reports = false := by
    simp [RequestEvent.reports, attemptEvent, isTransientRouterFailure, hstatus]
  unfold statusFailed
  simp only [wp_bind, wp_ite, wp_pure, pre_recordEvent, pre_writeRouterError, record_of_silent hsilent]
  exact ⟨fun hretry => absurd hretry.1 Bool.false_ne_true, fun _ => .inr ⟨⟨_, rfl⟩, rfl⟩⟩

theorem pre_firstByteError (failureClass : FailureClass) (l : Loop) :
    Pre (firstByteError failureClass l) (Calm l.tried probed sent) (.during [] probed [] sent) := by
  unfold firstByteError
  simp only [wp_bind, wp_ite, wp_pure, pre_writeRouterError]
  exact ⟨fun _ => .inr rfl, fun _ => .inr rfl⟩

theorem pre_streamRest (first : FirstByte) {Q : StreamEnd → Ledger → Prop} {s : Ledger} (h : ∀ streamEnd, Q streamEnd s) :
    Pre (streamRest first) Q s := by
  unfold streamRest
  split
  · exact h _
  · exact h _
  · exact fun streamEnd => h streamEnd

def Attempted (a : Assignment) (tried : List String) (probed unsettled sent : List (String × String)) (next : Next)
    (s : Ledger) : Prop :=
  Ended a tried probed unsettled sent next s ∨ Ended a tried probed unsettled ((a.nodeID, a.model) :: sent) next s

theorem attempted_of_calm {next : Next} {s : Ledger} {tried : List String} (h : Calm tried probed sent next s) :
    Attempted a tried probed unsettled sent next s := .inl (.inl h)

theorem pre_unavailableUnlessEnded (message : String) (l : Loop) :
    Pre (unavailableUnlessEnded message l) (Calm l.tried probed sent) (.during [] probed [] sent) := by
  unfold unavailableUnlessEnded
  simp only [wp_bind, pre_ask, wp_ite, wp_pure, pre_writeRouterError, learn]
  exact fun ended => ⟨fun _ => .inl rfl, fun _ => .inr rfl⟩

variable (h : ∀ p ∈ unsettled, p = (a.nodeID, a.model))

include h

section

variable {status : Nat} (hstatus : 200 ≤ status)

include hstatus

theorem pre_statusFailed (n : Nat) {retryable : Bool} :
    Pre (statusFailed n a l status failureClass retryable) (Calm l.tried probed sent) (.during [] probed unsettled sent) := by
  unfold statusFailed
  simp only [wp_bind, pre_ask, wp_ite, wp_pure, pre_recordEvent, pre_writeRouterError, learn]
  rw [record_of_reports (reports_of_status hstatus (.inl rfl)) h]
  exact ⟨fun _ ended => ⟨fun _ => pre_pause n _, fun _ => .inr rfl⟩, fun _ => .inr rfl⟩

theorem pre_firstByteFailed (n : Nat) (expired : Bool) :
    Pre (firstByteFailed n a r l status expired) (Calm l.tried probed sent)
      (.during [.activeStream, .load r.target, .reservation r] probed unsettled sent) := by
  unfold firstByteFailed releaseRouterReservation
  simp only [wp_bind, pre_ask, pre_tell, wp_ite, wp_pure, pre_recordEvent, learn, update, give_during]
  intro ctxErr ended
  rw [record_of_reports (reports_of_status hstatus (.inl rfl)) h]
  refine ⟨fun _ => pre_writeRouterContextError (.inl rfl) (.inr rfl), fun _ => ⟨fun _ late => ?_, fun _ => ?_⟩⟩
  · exact ⟨fun _ => pre_pause n _, fun _ => pre_firstByteError _ _⟩
  · exact pre_firstByteError _ _

theorem record_success_during {phase : Phase} (hphase : phase = .attemptFailed ∨ phase = .attemptSucceeded) :
    (during [] probed unsettled sent).record (attemptEvent a phase failureClass status) = .during [] probed [] sent :=
  record_of_reports (reports_of_status hstatus hphase) h

theorem pre_streamEnded (streamEnd : StreamEnd) : Pre (streamEnded a r l status streamEnd) (Calm l.tried probed sent)
    (during [.activeStream, .load r.target, .reservation r] probed unsettled sent).commit := by
  unfold streamEnded releaseRouterReservation
  simp only [wp_bind, pre_ask, pre_tell, wp_ite, wp_pure, pre_recordEvent, learn, update, give_during_commit,
    record_commit]
  refine ⟨fun _ => ?_, fun _ gone ctxErr => ?_⟩
  · rw [record_success_during h hstatus (.inr rfl)]
    exact .inr rfl
  · rw [record_success_during h hstatus (.inl rfl)]
    exact .inr rfl

theorem pre_clientWriteFailed : Pre (clientWriteFailed a r l status) (Calm l.tried probed sent)
    (during [.activeStream, .load r.target, .reservation r] probed unsettled sent).commit := by
  unfold clientWriteFailed releaseRouterReservation
  simp only [wp_bind, pre_ask, pre_tell, wp_pure, pre_recordEvent, learn, update, give_during_commit, record_commit]
  intro gone
  rw [record_success_during h hstatus (.inl rfl)]
  exact .inr rfl

theorem pre_streamResponse (first : FirstByte) : Pre (streamResponse a r l status first) (Calm l.tried probed sent)
    (.during [.activeStream, .load r.target, .reservation r] probed unsettled sent) := by
  have hrest : Pre (streamRest first) (fun streamEnd s => Pre (streamEnded a r l status streamEnd) (Calm l.tried probed sent) s)
      (during [.activeStream, .load r.target, .reservation r] probed unsettled sent).commit :=
    pre_streamRest first fun streamEnd => pre_streamEnded h hstatus streamEnd
  unfold streamResponse
  simp only [wp_bind, pre_ask, wp_ite, wp_pure, pre_writeRouterError, learn]
  refine ⟨fun _ written => ⟨fun _ => pre_clientWriteFailed h hstatus, fun _ => hrest⟩, fun _ => ⟨fun hwritten => ?_, fun _ => hrest⟩⟩
  exact absurd hwritten Bool.noConfusion

theorem pre_successResponse (n : Nat) : Pre (successResponse n a r l status) (Calm l.tried probed sent)
    (.during [.load r.target, .reservation r] probed unsettled sent) := by
  unfold successResponse
  simp only [wp_bind, pre_ask, pre_tell, wp_ite, pre_recordEvent, learn, update, take_during]
  intro first expired
  refine ⟨fun _ => pre_firstByteFailed h hstatus n expired, fun _ => ⟨fun _ => ?_, fun _ => ?_⟩⟩
  · rw [record_of_silent rfl]
    exact pre_streamResponse h hstatus first
  · exact pre_streamResponse h hstatus first

end

theorem pre_requestFailed (n : Nat) (err : RequestErr) : Pre (requestFailed n a r l err) (Calm l.tried probed sent)
    (.during [.load r.target, .reservation r] probed unsettled sent) := by
  unfold requestFailed releaseProbe releaseRouterReservation
  simp only [wp_bind, pre_ask, pre_tell, wp_ite, wp_pure, pre_recordEvent, learn, update, settle_during h,
    give_during, record_during]
  intro ctxErr expired ended
  exact ⟨fun _ => pre_writeRouterContextError (.inl rfl) (.inr rfl), fun _ => pre_pause n _⟩

theorem pre_errorResponse (n status : Nat) : Pre (errorResponse n a r l status) (Ended a l.tried probed unsettled sent)
    (.during [.load r.target, .reservation r] probed unsettled sent) := by
  unfold errorResponse releaseRouterReservation
  refine (pre_ask_bind _ _).mpr fun body => ?_
  simp only [wp_bind, pre_tell, wp_ite, wp_pure, pre_recordEvent, update]
  have hlearn (hclear : ¬(status < 200 ∧ body.ctxErr = none)) :
      (during [.load r.target, .reservation r] probed unsettled sent).learn
        (.errorBody a.nodeID a.model status) body = .during [.load r.target, .reservation r] probed unsettled sent :=
    if_neg hclear
  by_cases hended : body.ctxErr = none
  · by_cases hstatus : status < 200
    · have hmark : (during [.load r.target, .reservation r] probed unsettled sent).learn
          (.errorBody a.nodeID a.model status) body =
          (during [.load r.target, .reservation r] probed unsettled sent).mark a.nodeID a.model :=
        if_pos ⟨hstatus, hended⟩
      rw [hmark, give_mark, give_mark, classifyUpstreamStatus_of_lt hstatus, if_neg fun hread => absurd hread.2 Bool.false_ne_true]
      exact ⟨fun hne => absurd hended hne, fun _ => pre_statusFailed_of_lt n hstatus⟩
    · rw [hlearn fun hmark => hstatus hmark.1, give_during, give_during]
      refine ⟨fun hne => absurd hended hne, fun _ => ?_⟩
      exact wp_mono (pre_statusFailed h (Nat.le_of_not_lt hstatus) n) fun _ _ hcalm => .inl hcalm
  · -- the context has ended: the event is a timeout, which counts as a failure of the pair
    rw [hlearn fun hmark => hended hmark.2, give_during, give_during, record_of_reports rfl h]
    exact ⟨fun _ => pre_writeRouterContextError (.inl (.inl rfl)) (.inl (.inr rfl)), fun hne => absurd hended hne⟩

theorem pre_preparationFailed : Pre (preparationFailed a r l) (Calm l.tried probed sent)
    (.during [.load r.target, .reservation r] probed unsettled sent) := by
  unfold preparationFailed releaseProbe releaseRouterReservation
  simp only [wp_bind, pre_tell, wp_pure, pre_writeRouterError, update, settle_during h, give_during]
  exact .inr rfl

theorem pre_sendRequest (n : Nat) :
    Pre (sendRequest n a r l) (Ended a l.tried probed unsettled ((a.nodeID, a.model) :: sent))
      (.during [.load r.target, .reservation r] probed unsettled sent) := by
  unfold sendRequest
  simp only [wp_bind, pre_ask, pre_tell, pre_recordEvent, learn, update]
  rw [record_of_silent rfl, send_during]
  intro upstream
  cases upstream with
  | failed err => exact wp_mono (pre_requestFailed h n err) fun _ _ hcalm => .inl hcalm
  | answered status =>
    simp only [wp_bind, wp_ite, pre_recordEvent]
    rw [record_of_silent rfl]
    refine ⟨fun _ => pre_errorResponse h n status, fun hstatus => ?_⟩
    exact wp_mono (pre_successResponse h (by omega) n) fun _ _ hcalm => .inl hcalm

theorem pre_dispatch (preferredModel : String) (n : Nat) :
    Pre (dispatch preferredModel n a r l) (Attempted a l.tried probed unsettled sent)
      (.during [.reservation r] probed unsettled sent) := by
  have hfailed : ∀ event, Pre (preparationFailed a r (l.note event)) (Attempted a l.tried probed unsettled sent)
      (.during [.load r.target, .reservation r] probed unsettled sent) := fun event =>
    wp_mono (pre_preparationFailed h) fun _ _ => attempted_of_calm
  have hsend : ∀ event, Pre (sendRequest n a r (l.note event)) (Attempted a l.tried probed unsettled sent)
      (.during [.load r.target, .reservation r] probed unsettled sent) := fun event =>
    wp_mono (pre_sendRequest h n) fun _ _ hended => .inr hended
  unfold dispatch
  simp only [wp_bind, pre_ask, pre_tell, wp_ite, wp_pure, pre_recordEvent, learn, update, take_during]
  rw [record_of_silent rfl]
  refine ⟨fun _ marshalled => ⟨fun _ => hfailed _, fun _ built => ⟨fun _ => hfailed _, fun _ => hsend _⟩⟩,
    fun _ => ⟨fun _ => hfailed _, fun _ built => ⟨fun _ => hfailed _, fun _ => hsend _⟩⟩⟩

/-! ### Reservations -/

theorem pre_shardGroupUnavailable (message : String) :
    Pre (shardGroupUnavailable a message l) (Calm l.tried probed sent) (.during [] probed unsettled sent) := by
  unfold shardGroupUnavailable releaseProbe
  simp only [wp_bind, pre_tell, wp_pure, pre_recordEvent, pre_writeRouterError, update, settle_during h, record_during]
  exact .inr rfl

section

variable (preferredModel : String)

include preferredModel

theorem pre_verifiedAttempt (n : Nat) (groupID : String) :
    Pre (verifiedAttempt preferredModel n a r groupID l) (Attempted a l.tried probed unsettled sent)
      (.during [] probed unsettled sent) := by
  unfold verifiedAttempt
  simp only [wp_bind, pre_ask, pre_tell, learn, update, take_during]
  intro verified
  cases verified with
  | ok => exact pre_dispatch h preferredModel n
  | error =>
    simp only [releaseProbe, wp_bind, pre_tell, pre_recordEvent, update, give_during, settle_during h, record_during]
    exact wp_mono (pre_unavailableUnlessEnded _ _) fun _ _ => attempted_of_calm

theorem pre_shardAttempt (n : Nat) (groupID : String) :
    Pre (shardAttempt preferredModel n a groupID l) (Attempted a l.tried probed unsettled sent)
      (.during [] probed unsettled sent) := by
  have hunavailable : ∀ message, Pre (shardGroupUnavailable a message l) (Attempted a l.tried probed unsettled sent)
      (.during [] probed unsettled sent) := fun message =>
    wp_mono (pre_shardGroupUnavailable h message) fun _ _ => attempted_of_calm
  unfold shardAttempt
  refine (pre_ask_bind _ _).mpr fun group => ?_
  cases group with
  | none => exact hunavailable _
  | some =>
    refine (wp_ite _ _).mpr ⟨fun _ => hunavailable _, fun _ => (wp_ite _ _).mpr ⟨fun _ => hunavailable _, fun _ => ?_⟩⟩
    simp only [wp_bind, pre_ask, pre_recordEvent, learn]
    rw [record_of_silent rfl]
    intro acquired
    cases acquired with
    | ok => exact pre_verifiedAttempt h preferredModel n groupID
    | error =>
      simp only [releaseProbe, wp_bind, pre_tell, pre_recordEvent, update, settle_during h, record_during]
      exact wp_mono (pre_unavailableUnlessEnded _ _) fun _ _ => attempted_of_calm

theorem pre_capacityAttempt (n : Nat) :
    Pre (capacityAttempt preferredModel n a l) (Attempted a l.tried probed unsettled sent)
      (.during [] probed unsettled sent) := by
  unfold capacityAttempt releaseProbe
  simp only [wp_bind, pre_ask, pre_tell, pre_recordEvent, learn, update]
  rw [record_of_silent rfl, take_during]
  intro reserved
  cases reserved with
  | some target =>
    have hqueue : Resource.reservation (.capacity target) ≠ .queueDepth := Resource.noConfusion
    simp only [wp_bind, pre_tell, update, take_during, give_during_under hqueue]
    exact pre_dispatch (r := .capacity target) h preferredModel n
  | none =>
    simp only [wp_bind, pre_ask, pre_tell, wp_ite, wp_pure, pre_recordEvent, learn, update, give_during,
      settle_during h, record_during]
    exact fun ended => ⟨fun _ => attempted_of_calm ⟨rfl, rfl⟩, fun _ => attempted_of_calm ⟨rfl, rfl⟩⟩

theorem pre_attempt (n : Nat) :
    Pre (attempt preferredModel n a l) (Attempted a l.tried probed unsettled sent) (.during [] probed unsettled sent) := by
  unfold attempt releaseProbe
  have hscheduled : ∀ s : Ledger, s.record (attemptEvent a .scheduled .none 0) = s := fun _ => record_of_silent rfl
  simp only [wp_bind, pre_ask, pre_tell, wp_ite, wp_pure, pre_recordEvent, learn, update, hscheduled,
    settle_during h, record_during]
  refine fun node => ⟨fun _ => attempted_of_calm ⟨rfl, rfl⟩, fun _ => ?_⟩
  split
  · exact pre_shardAttempt h preferredModel n _
  · exact pre_capacityAttempt h preferredModel n

end

end Attempt

/-! ### Finding a node -/

section Assignment

variable {s : Ledger} {tried : List String}

theorem pre_eligibleModels (model : String) (tried : List String) (nodeID : String) (models : List OfferedModel) :
    Pre (eligibleModels model tried nodeID models)
      (fun eligible s' => s' = s ∧ ∀ m ∈ eligible, routerPairKey nodeID m.name ∉ tried) s := by
  induction models with
  | nil => exact ⟨rfl, by simp⟩
  | cons _ _ ih =>
    unfold eligibleModels
    simp only [wp_bind, pre_ask, wp_ite, wp_pure, learn]
    refine ⟨fun _ => ih, fun _ => ⟨fun _ => ih, fun _ => ⟨fun _ => ih, fun _ => ⟨fun _ => ih, fun hfresh answer =>
      ⟨fun _ => ?_, fun _ => ih⟩⟩⟩⟩⟩
    refine wp_mono ih fun eligible s' hrest => ⟨hrest.1, fun m hm => ?_⟩
    rcases mem_cons.mp hm with rfl | hm
    · exact hfresh
    · exact hrest.2 m hm

theorem pre_eligibleNodes (model : String) (tried : List String) (nodes : List OfferingNode) :
    Pre (eligibleNodes model tried nodes)
      (fun eligible s' => s' = s ∧ ∀ n ∈ eligible, ∀ m ∈ n.models, routerPairKey n.id m.name ∉ tried) s := by
  induction nodes with
  | nil => exact ⟨rfl, by simp⟩
  | cons node _ ih =>
    unfold eligibleNodes
    simp only [wp_bind, wp_pure]
    refine wp_mono (pre_eligibleModels model tried node.id node.models) ?_
    rintro _ _ ⟨rfl, hmodels⟩
    refine wp_mono ih ?_
    rintro _ _ ⟨rfl, hnodes⟩
    refine ⟨rfl, fun n hn => ?_⟩
    split at hn
    · exact hnodes n hn
    rcases mem_cons.mp hn with rfl | hn
    · exact hmodels
    · exact hnodes n hn

def Assigned (tried : List String) (s : Ledger) (result : Except AssignErr Assignment) (s' : Ledger) : Prop :=
  s' = s ∧ ∀ a, result = .ok a → routerPairKey a.nodeID a.model ∉ tried

theorem assigned_error (err : AssignErr) : Assigned tried s (.error err) s :=
  ⟨rfl, fun _ h => Except.noConfusion rfl rfl (heq_of_eq h)⟩

theorem assigned_ok {a : Assignment} (h : routerPairKey a.nodeID a.model ∉ tried) : Assigned tried s (.ok a) s := by
  refine ⟨rfl, fun a' ha' => ?_⟩
  cases ha'
  exact h

theorem pre_assignNode (model : String) (tried : List String) : Pre (assignNode model tried) (Assigned tried s) s := by
  unfold assignNode
  refine (pre_ask_bind _ _).mpr fun nodes => (wp_bind _ _).mpr ?_
  refine wp_mono (pre_eligibleNodes model tried nodes) ?_
  rintro _ _ ⟨rfl, hfresh⟩
  refine (pre_ask_bind _ _).mpr fun scheduled => ?_
  cases scheduled with
  | none => exact assigned_error _
  | some scheduled =>
    obtain ⟨_, n, hn, hid, m, hm, hname⟩ := scheduled
    refine assigned_ok fun htried => hfresh n hn m hm ?_
    rw [hid, hname]
    exact htried

theorem pre_assignShardGroup (model : String) (tried : List String) (group : ShardGroup) :
    Pre (assignShardGroup model tried group) (Assigned tried s) s := by
  unfold assignShardGroup
  refine (wp_ite _ _).mpr ⟨fun _ => assigned_error _, fun _ => (pre_ask_bind _ _).mpr fun node => ?_⟩
  cases node with
  | none => exact assigned_error _
  | some =>
    refine (wp_ite _ _).mpr ⟨fun _ => assigned_error _, fun _ => (wp_ite _ _).mpr ⟨fun _ => assigned_error _, fun hfresh => ?_⟩⟩
    exact assigned_ok hfresh

theorem pre_assignRouterRequest (model : String) (tried : List String) :
    Pre (assignRouterRequest model tried) (Assigned tried s) s := by
  unfold assignRouterRequest
  refine (wp_ite _ _).mpr ⟨fun _ => pre_assignNode model tried, fun _ => (pre_ask_bind _ _).mpr fun group => ?_⟩
  cases group with
  | none => exact pre_assignNode model tried
  | some group => exact pre_assignShardGroup model tried group

end Assignment

/-! ### The turns of the loop -/

structure Bounded (tried : List String) (used : Nat) (probed sent : List (String × String)) : Prop where
  probed_tried : ∀ p ∈ probed, routerPairKey p.1 p.2 ∈ tried
  sent_tried : ∀ p ∈ sent, routerPairKey p.1 p.2 ∈ tried
  nodup : sent.Nodup
  length_le : sent.length ≤ used

structure Returned (used : Nat) (s : Ledger) : Prop where
  held : s.held = [.clientSlot]
  overdrawn : s.overdrawn = false
  late : s.late = false
  nodup : s.sent.Nodup
  length_le : s.sent.length ≤ used
  settled : s.unsettled = [] ↔ ∀ p ∈ s.short, p ∉ s.probed

def Turned (used : Nat) : Next → Ledger → Prop
  | .again l, s => ∃ probed sent, Bounded l.tried used probed sent ∧ s = .during [] probed [] sent
  | .returned _, s => Returned used s

namespace Bounded

variable {tried : List String} {used : Nat} {probed unsettled sent : List (String × String)} {p : String × String}
  {a : Assignment} {next : Next} {s : Ledger}

section

variable (h : Bounded tried used probed sent)

include h

theorem skip (key : String) : Bounded (key :: tried) (used + 1) probed sent :=
  ⟨fun p hp => mem_cons_of_mem _ (h.probed_tried p hp), fun p hp => mem_cons_of_mem _ (h.sent_tried p hp), h.nodup,
    Nat.le_succ_of_le h.length_le⟩

theorem probe (hp : routerPairKey p.1 p.2 ∈ tried) : Bounded tried used (p :: probed) sent := by
  refine { h with probed_tried := fun q hq => ?_ }
  rcases mem_cons.mp hq with rfl | hq
  · exact hp
  · exact h.probed_tried q hq

theorem send (hfresh : routerPairKey p.1 p.2 ∉ tried) :
    Bounded (routerPairKey p.1 p.2 :: tried) (used + 1) probed (p :: sent) where
  probed_tried := (h.skip _).probed_tried
  sent_tried q hq := by
    rcases mem_cons.mp hq with rfl | hq
    · exact mem_cons_self
    · exact mem_cons_of_mem _ (h.sent_tried q hq)
  nodup := nodup_cons.mpr ⟨fun hp => hfresh (h.sent_tried p hp), h.nodup⟩
  length_le := Nat.succ_le_succ h.length_le

theorem returned (hs : s = .during [] probed [] sent ∨ s = (during [] probed [] sent).commit) : Returned used s := by
  rcases hs with rfl | rfl
  · exact ⟨rfl, rfl, rfl, h.nodup, h.length_le, by simp [during]⟩
  · exact ⟨rfl, rfl, rfl, h.nodup, h.length_le, by simp [during, commit]⟩

theorem calm (hcalm : Calm tried probed sent next s) : Turned used next s := by
  cases next with
  | again =>
    obtain ⟨rfl, rfl⟩ := hcalm
    exact ⟨probed, sent, h, rfl⟩
  | returned => exact h.returned hcalm

theorem ended (hshort : unsettled = [] ↔ (a.nodeID, a.model) ∉ probed)
    (hended : Ended a tried probed unsettled sent next s) : Turned used next s := by
  rcases hended with hcalm | ⟨⟨l, rfl⟩, rfl⟩
  · exact h.calm hcalm
  · refine ⟨rfl, rfl, rfl, h.nodup, h.length_le, hshort.trans ?_⟩
    exact (forall_mem_singleton (p := (· ∉ probed))).symm

end

end Bounded

section Turns

variable {used : Nat} {probed sent : List (String × String)} {l : Loop}

theorem pre_assignmentFailed (n : Nat) (err : AssignErr) (h : Bounded l.tried used probed sent) :
    Pre (assignmentFailed n err l) (Turned used) (.during [] probed [] sent) := by
  cases err with
  | unavailable | other =>
    simp only [assignmentFailed, wp_bind, wp_pure, pre_recordEvent, pre_writeRouterError, record_during]
    exact h.returned (.inr rfl)

theorem pre_turn (preferredModel : String) (n : Nat) (h : Bounded l.tried used probed sent) :
    Pre (turn preferredModel n l) (Turned (used + 1)) (.during [] probed [] sent) := by
  have hnext : Bounded l.tried (used + 1) probed sent := { h with length_le := Nat.le_succ_of_le h.length_le }
  unfold turn
  refine (pre_ask_bind _ _).mpr fun ended => ?_
  cases ended with
  | some =>
    simp only [wp_bind, wp_pure, pre_recordEvent, learn, record_during]
    exact pre_writeRouterContextError (hnext.returned (.inl rfl)) (hnext.returned (.inr rfl))
  | none =>
    refine (wp_bind _ _).mpr (wp_mono (pre_assignRouterRequest preferredModel l.tried) ?_)
    rintro result _ ⟨rfl, hassigned⟩
    cases result with
    | error err => exact pre_assignmentFailed n err hnext
    | ok a =>
      have hfresh := hassigned a rfl
      have hskip := h.skip (routerPairKey a.nodeID a.model)
      have hsend := h.send (p := (a.nodeID, a.model)) hfresh
      refine (pre_ask_bind _ _).mpr fun admission => (wp_ite _ _).mpr ?_
      cases admission with
      | refused => exact ⟨fun _ => ⟨probed, sent, hskip, rfl⟩, fun hne => absurd rfl hne⟩
      | admitted =>
        refine ⟨fun h => (by cases h), fun _ => wp_mono (pre_attempt (forall_mem_nil _) preferredModel n) ?_⟩
        have hshort : ([] : List (String × String)) = [] ↔ (a.nodeID, a.model) ∉ probed :=
          ⟨fun _ hp => hfresh (h.probed_tried _ hp), fun _ => rfl⟩
        rintro next s (hended | hended)
        · exact hskip.ended hshort hended
        · exact hsend.ended hshort hended
      | probe =>
        -- the circuit was half-open: the pair is without an outcome from here on
        refine ⟨fun h => (by cases h), fun _ => wp_mono (pre_attempt (fun _ => eq_of_mem_singleton) preferredModel n) ?_⟩
        have hshort : [(a.nodeID, a.model)] = [] ↔ (a.nodeID, a.model) ∉ (a.nodeID, a.model) :: probed := by simp
        rintro next s (hended | hended)
        · exact (hskip.probe mem_cons_self).ended hshort hended
        · exact (hsend.probe mem_cons_self).ended hshort hended

theorem pre_turns (preferredModel : String) (left : Nat) (h : Bounded l.tried used probed sent) :
    Pre (turns preferredModel left l) (fun _ s => Returned (used + left) s) (.during [] probed [] sent) := by
  induction left generalizing l used probed sent with
  | zero =>
    simp only [turns, wp_bind, wp_pure, pre_recordEvent, pre_writeRouterError, record_during]
    exact h.returned (.inr rfl)
  | succ left ih =>
    refine (wp_bind _ _).mpr (wp_mono (pre_turn preferredModel (routerMaxAttempts - left) h) fun next s hturned => ?_)
    rw [show used + (left + 1) = used + 1 + left by omega]
    cases next with
    | again =>
      obtain ⟨_, _, hbounded, rfl⟩ := hturned
      exact ih hbounded
    | returned =>
      have hreturned : Returned (used + 1) s := hturned
      exact { hreturned with length_le := Nat.le_add_right_of_le hreturned.length_le }

end Turns

/-! ### Whole requests -/

theorem pre_serve (l : Loop) : Pre (serve l) (fun _ s => Returned routerMaxAttempts s) (.during [] [] [] []) := by
  have hbounded : Bounded l.tried 0 [] [] := ⟨by simp, by simp, nodup_nil, Nat.le_refl 0⟩
  have hturns : ∀ model, Pre (turns model routerMaxAttempts l) (fun _ s => Returned routerMaxAttempts s)
      (.during [] [] [] []) := fun model => by
    simpa using pre_turns model routerMaxAttempts hbounded
  have hrejected : ∀ status message failureClass, Pre (rejected l status message failureClass)
      (fun _ s => Returned routerMaxAttempts s) (.during [] [] [] []) := fun status message failureClass => by
    simp only [rejected, wp_bind, pre_recordEvent, pre_writeRouterError, record_commit, record_during]
    exact { hbounded with length_le := Nat.zero_le _ : Bounded _ routerMaxAttempts _ _ }.returned (.inr rfl)
  unfold serve
  refine (pre_ask_bind _ _).mpr fun body => ?_
  cases body with
  | unreadable | invalidJSON | modelNotString => exact hrejected ..
  | decoded model => exact hturns model

/-- Everything is given back once, every probe has had an outcome, and what was sent stays within its limits. -/
structure Ledger.Clear (s : Ledger) : Prop where
  held : s.held = []
  overdrawn : s.overdrawn = false
  unsettled : s.unsettled = []
  length_le : s.sent.length ≤ routerMaxAttempts
  nodup : s.sent.Nodup
  late : s.late = false

def Closed (s : Ledger) : Prop := s.Clear ↔ ∀ p ∈ s.short, p ∉ s.probed

theorem pre_recordTerminal (l : Loop) {Q : Unit → Ledger → Prop} {s : Ledger} : Pre (recordTerminal l) Q s ↔ Q () s := by
  unfold recordTerminal
  by_cases hsucceeded : l.terminal.phase = .attemptSucceeded
  · rw [if_pos hsucceeded, pre_recordRouterEvent, record_of_silent rfl]
  · rw [if_neg hsucceeded, pre_recordRouterEvent, record_of_silent rfl]

theorem Returned.closed {s : Ledger} (h : Returned routerMaxAttempts s) : Closed (s.give .clientSlot) := by
  have hgive : s.give .clientSlot = { s with held := [] } := by simp [Ledger.give, h.held]
  rw [hgive]
  refine ⟨fun hclear => h.settled.mp hclear.unsettled, fun hshort => ?_⟩
  exact ⟨rfl, h.overdrawn, h.settled.mpr hshort, h.length_le, h.nodup, h.late⟩

theorem closed_commit : Closed (commit {}) :=
  ⟨fun _ => by simp [commit], fun _ => ⟨rfl, rfl, rfl, Nat.zero_le _, nodup_nil, rfl⟩⟩

theorem pre_accepted : Pre accepted (fun _ s => Closed s) {} := by
  unfold accepted
  simp only [wp_bind, pre_ask, pre_recordEvent]
  intro limit
  cases limit with
  | some =>
    simp only [wp_bind, pre_recordEvent, pre_writeRouterError, pre_recordTerminal]
    exact closed_commit
  | none =>
    simp only [wp_bind, pre_tell, pre_recordTerminal]
    exact wp_mono (pre_serve _) fun _ _ hreturned => hreturned.closed

theorem pre_handleRouterRequest : Pre handleRouterRequest (fun _ s => Closed s) {} := by
  unfold handleRouterRequest
  simp only [wp_bind, pre_ask, wp_ite, pre_writeRouterError]
  exact fun route => ⟨fun _ => closed_commit, fun _ id => ⟨fun _ => closed_commit, fun _ => pre_accepted⟩⟩

def account (trace : List (Item interface)) : Ledger := follow update trace {}

/-- The breaker has let the request through as the probe of `p`. -/
def ProbeOf (p : String × String) : Item interface → Prop
  | .asked (.acquire nodeID model) answer => answer = .probe ∧ p = (nodeID, model)
  | _ => False

/-- The node of `p` has answered with a status below 200 before the context ended. -/
def ShortOf (p : String × String) : Item interface → Prop
  | .asked (.errorBody nodeID model status) body => status < 200 ∧ body.ctxErr = none ∧ p = (nodeID, model)
  | _ => False

theorem probeOf_iff {p : String × String} {item : Item interface} :
    ProbeOf p item ↔ item = .asked (.acquire p.1 p.2) .probe := by
  constructor
  · intro h
    cases item with
    | asked q =>
      cases q with
      | acquire =>
        obtain ⟨rfl, rfl⟩ := h
        rfl
      | _ => exact h.elim
    | told => exact h.elim
  · rintro rfl
    exact ⟨rfl, rfl⟩

theorem shortOf_iff {p : String × String} {item : Item interface} :
    ShortOf p item ↔ ∃ status body, item = .asked (.errorBody p.1 p.2 status) body ∧ status < 200 ∧ body.ctxErr = none := by
  constructor
  · intro h
    cases item with
    | asked q answer =>
      cases q with
      | errorBody _ _ status =>
        obtain ⟨hstatus, hended, rfl⟩ := h
        exact ⟨status, answer, rfl, hstatus, hended⟩
      | _ => exact h.elim
    | told => exact h.elim
  · rintro ⟨_, _, rfl, hstatus, hended⟩
    exact ⟨hstatus, hended, rfl⟩

theorem answers_told (e : Effect) (s : Ledger) :
    (update (.told e) s).probed = s.probed ∧ (update (.told e) s).short = s.short := by
  cases e with
  | give =>
    simp only [update, Ledger.give]
    split <;> exact ⟨rfl, rfl⟩
  | _ => exact ⟨rfl, rfl⟩

theorem mem_probed_update (p : String × String) (item : Item interface) (s : Ledger) :
    p ∈ (update item s).probed ↔ p ∈ s.probed ∨ ProbeOf p item := by
  cases item with
  | told e => simp [(answers_told e s).1, ProbeOf]
  | asked q answer =>
    cases q with
    | acquire =>
      by_cases hprobe : answer = .probe
      · simp [update, learn, probe, ProbeOf, hprobe, or_comm]
      · simp [update, learn, ProbeOf, hprobe]
    | errorBody =>
      simp only [update, learn, ProbeOf, or_false]
      split <;> exact Iff.rfl
    | _ => exact (or_false _).symm.to_iff

theorem mem_short_update (p : String × String) (item : Item interface) (s : Ledger) :
    p ∈ (update item s).short ↔ p ∈ s.short ∨ ShortOf p item := by
  cases item with
  | told e => simp [(answers_told e s).2, ShortOf]
  | asked q answer =>
    cases q with
    | acquire =>
      simp only [update, learn, ShortOf, or_false]
      split <;> exact Iff.rfl
    | errorBody _ _ status =>
      by_cases hshort : status < 200 ∧ answer.ctxErr = none
      · simp [update, learn, Ledger.mark, ShortOf, hshort, or_comm]
      · simp only [update, learn, if_neg hshort, ShortOf]
        exact ⟨.inl, fun h => h.elim id fun hshortOf => absurd ⟨hshortOf.1, hshortOf.2.1⟩ hshort⟩
    | _ => exact (or_false _).symm.to_iff

def GivesBack (trace : List (Item interface)) : Prop := (account trace).Clear

/-- The one answer that keeps a probe without an outcome: a status below 200, while the context of the request is alive. It
is neither a transient failure nor a healthy response for the breaker. -/
theorem request_gives_back_iff {trace : List (Item interface)} (h : Runs handleRouterRequest trace ()) :
    GivesBack trace ↔ ∀ nodeID model status body, Item.asked (I := interface) (.acquire nodeID model) .probe ∈ trace →
      Item.asked (I := interface) (.errorBody nodeID model status) body ∈ trace → status < 200 → body.ctxErr ≠ none := by
  have hclosed : Closed (account trace) := wp_runs pre_handleRouterRequest h
  have hprobed : ∀ p, p ∈ (account trace).probed ↔ ∃ item ∈ trace, ProbeOf p item := fun p =>
    (follow_iff (P := fun s => p ∈ s.probed) update (mem_probed_update p) trace {}).trans (or_iff_right not_mem_nil)
  have hshort : ∀ p, p ∈ (account trace).short ↔ ∃ item ∈ trace, ShortOf p item := fun p =>
    (follow_iff (P := fun s => p ∈ s.short) update (mem_short_update p) trace {}).trans (or_iff_right not_mem_nil)
  refine hclosed.trans ⟨fun hall nodeID model status body hacquired hanswered hstatus hended => ?_, fun hall p hs hp => ?_⟩
  · exact hall (nodeID, model) ((hshort _).mpr ⟨_, hanswered, hstatus, hended, rfl⟩) ((hprobed _).mpr ⟨_, hacquired, rfl, rfl⟩)
  obtain ⟨_, hanswered, hitem⟩ := (hshort p).mp hs
  obtain ⟨status, body, rfl, hstatus, hended⟩ := shortOf_iff.mp hitem
  obtain ⟨_, hacquired, hprobe⟩ := (hprobed p).mp hp
  exact hall p.1 p.2 status body (probeOf_iff.mp hprobe ▸ hacquired) hanswered hstatus hended

instance (nodes : List OfferingNode) (a : Assignment) : Decidable (Offered nodes a) :=
  inferInstanceAs (Decidable (∃ n ∈ nodes, n.id = a.nodeID ∧ ∃ m ∈ n.models, m.name = a.model))

/-- One healthy node with one model, whose circuit is half-open, and which answers every request with `status`. -/
def halfOpenNode (status : Nat) : (β : Type) → Query β → Nat → β
  | _, .route, _ => true
  | _, .requestID, _ => true
  | _, .clientLimit, _ => none
  | _, .body, _ => .decoded ""
  | _, .ctxErr, _ => none
  | _, .clientGone, _ => false
  | _, .groupForModel _, _ => none
  | _, .node _, _ => some { healthy := true, address := "10.0.0.1:8091" }
  | _, .nodes, _ =>
    [{ id := "node-1", address := "10.0.0.1:8091",
       models := [{ name := "llama", engine := "ollama", engineReady := true, requested := true, compatible := true }] }]
  | _, .eligible _ _, _ => true
  | _, .schedule offers, _ =>
    let a : Assignment := { nodeID := "node-1", address := "10.0.0.1:8091", model := "llama", engine := "ollama" }
    if h : Offered offers a then some ⟨a, h⟩ else none
  | _, .acquire _ _, _ => .probe
  | _, .group _, _ => none
  | _, .acquireRequest _, _ => .ok ()
  | _, .verifyModel _, _ => .ok ()
  | _, .reserve nodeID _, _ => some nodeID
  | _, .marshalPayload, _ => true
  | _, .newRequest, _ => true
  | _, .dispatch _ _, _ => .answered status
  | _, .ttfbExpired, _ => false
  | _, .errorBody _ _ _, _ => { readErr := false, mentionsModel := false, ctxErr := none }
  | _, .firstByte, _ => { read := true, readErr := none }
  | _, .clientWrite, _ => true
  | _, .stream, _ => .complete
  | _, .sleep, _ => true

/-- A probe that is answered with 200 gives everything back. -/
theorem request_gives_back_ok : ∃ trace, Runs handleRouterRequest trace () ∧ GivesBack trace ∧
    ∀ nodeID model status body, Item.asked (I := interface) (.acquire nodeID model) .probe ∈ trace →
      Item.asked (I := interface) (.errorBody nodeID model status) body ∈ trace → status < 200 → body.ctxErr ≠ none := by
  have hruns := runs_exec (halfOpenNode 200) handleRouterRequest 0
  have hgives : GivesBack (handleRouterRequest.exec (halfOpenNode 200) 0).1 :=
    ⟨by decide, by decide, by decide, by decide, by decide, by decide⟩
  exact ⟨_, hruns, hgives, (request_gives_back_iff hruns).mp hgives⟩

/-- A probe that is answered with 101 leaves no outcome behind. -/
theorem probe_without_outcome : ∃ trace, Runs handleRouterRequest trace () ∧
    ("node-1", "llama") ∈ (account trace).unsettled ∧ ¬ GivesBack trace := by
  have hunsettled : ("node-1", "llama") ∈ (account (handleRouterRequest.exec (halfOpenNode 101) 0).1).unsettled := by decide
  refine ⟨_, runs_exec (halfOpenNode 101) handleRouterRequest 0, hunsettled, fun hgives => ?_⟩
  rw [hgives.unsettled] at hunsettled
  exact not_mem_nil hunsettled

end Maistr0.Orchestrator.Router
