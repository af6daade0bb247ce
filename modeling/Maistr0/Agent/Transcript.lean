import Maistr0.Agent.Loop

/-!
# The transcript of a Pi session

`Backend.providerMessages` makes a request of the messages a session has, and every turn adds to them. A request is
well formed if each tool call in it is answered once before the conversation goes on.
-/

namespace Maistr0.Agent.Pi

open List

inductive Role
  | system
  | user
  | assistant
  | tool
  deriving DecidableEq

structure ChatToolCall where
  id : String
  name : String
  arguments : String

structure ChatMessage where
  role : Role
  content : String
  toolCalls : List ChatToolCall := []
  toolCallID : String := ""

/-- `marshal` gives the text of a tool's output. -/
def chatMessage (marshal : Json → String) : Message → ChatMessage
  | .user content => { role := .user, content }
  | .assistant content calls =>
    { role := .assistant, content, toolCalls := calls.map fun call => ⟨call.id, call.name, call.rawArgs⟩ }
  | .tool response =>
    let output := marshal response.output
    { role := .tool, toolCallID := response.toolCallID
      content := if response.error ≠ "" then "Tool error: " ++ response.error ++ "\n" ++ output else output }

def providerMessages (marshal : Json → String) (systemPrompt : String) (messages : List Message) : List ChatMessage :=
  { role := .system, content := systemPrompt } :: messages.map (chatMessage marshal)

def answers (id : String) (later : List ChatMessage) : Nat :=
  (later.takeWhile fun m => m.role ≠ .user && m.role ≠ .assistant).countP fun m => m.role = .tool && m.toolCallID = id

def WellFormed : List ChatMessage → Prop
  | [] => True
  | m :: later => (∀ call ∈ m.toolCalls, answers call.id later = 1) ∧ WellFormed later

instance decidableWellFormed : DecidablePred WellFormed
  | [] => isTrue trivial
  | _ :: later => @instDecidableAnd _ _ _ (decidableWellFormed later)

def Opens : List ChatMessage → Prop
  | [] => True
  | m :: _ => m.role = .user ∨ m.role = .assistant

theorem answers_append {id : String} {b : List ChatMessage} (hb : Opens b) (a : List ChatMessage) :
    answers id (a ++ b) = answers id a := by
  have hnone : b.takeWhile (fun m => m.role ≠ .user && m.role ≠ .assistant) = [] := by
    cases b with
    | nil => rfl
    | cons => rcases hb with h | h <;> simp [h]
  unfold answers
  rw [takeWhile_append, hnone, append_nil]
  split
  next hlength => rw [(takeWhile_sublist _).eq_of_length hlength]
  · rfl

theorem WellFormed.append {a b : List ChatMessage} (ha : WellFormed a) (hb : WellFormed b) (hopens : Opens b) :
    WellFormed (a ++ b) := by
  induction a with
  | nil => exact hb
  | cons _ a ih =>
    refine ⟨fun call hcall => ?_, ih ha.2⟩
    exact (answers_append hopens a).trans (ha.1 call hcall)

theorem wellFormed_block {m : ChatMessage} {later : List ChatMessage} (hids : (later.map ChatMessage.toolCallID).Nodup)
    (hcalls : ∀ call ∈ m.toolCalls, call.id ∈ later.map ChatMessage.toolCallID)
    (htool : ∀ m ∈ later, m.role = .tool ∧ m.toolCalls = []) : WellFormed (m :: later) := by
  constructor
  · intro call hcall
    have hall : later.takeWhile (fun m => m.role ≠ .user && m.role ≠ .assistant) = later := by
      refine takeWhile_eq_self_iff.mpr fun m hm => ?_
      rw [(htool m hm).1]
      rfl
    have hcount : later.countP (fun m => m.role = .tool && m.toolCallID = call.id) =
        (later.map ChatMessage.toolCallID).count call.id := by
      rw [count, countP_map]
      refine countP_congr fun m hm => ?_
      simp [(htool m hm).1]
    rw [answers, hall, hcount]
    exact count_eq_one_of_mem hids (hcalls call hcall)
  · clear hids hcalls
    induction later with
    | nil => trivial
    | cons m' _ ih =>
      refine ⟨fun call hcall => ?_, ih (forall_mem_cons.mp htool).2⟩
      rw [(htool m' mem_cons_self).2] at hcall
      cases hcall

section

variable [JSON] (policy : LoopPolicy) (marshal : Json → String)

def Complete (messages : List Message) : Prop := WellFormed (messages.map (chatMessage marshal))

structure Kept (log : Log) : Prop where
  messages : Complete marshal log.messages
  requests : ∀ messages ∈ log.requests, Complete marshal messages

variable {marshal} {log : Log}

omit [JSON] in
theorem Kept.append (h : Kept marshal log) {message : Message} (hopens : Opens [chatMessage marshal message])
    (hcalls : (chatMessage marshal message).toolCalls = []) : Kept marshal (log.append message) := by
  refine ⟨?_, h.requests⟩
  have hone : WellFormed [chatMessage marshal message] := ⟨by rw [hcalls]; nofun, trivial⟩
  change WellFormed ((log.messages ++ [message]).map _)
  rw [map_append]
  exact h.messages.append hone hopens

omit [JSON] in
theorem Kept.interrupt (h : Kept marshal log) : Kept marshal (log.interrupt policy) := by
  unfold Log.interrupt recordInterrupted
  split
  · exact h
  · exact h.append (.inr rfl) rfl

omit [JSON] in
theorem runTools_quiet {tools : Nat → ToolAnswer} (hquiet : ∀ i, (tools i).cancelledBefore = false ∧ (tools i).cancelledAfter = false)
    (calls : List (ToolCall × Option String)) (n : Nat) (log : Log) : ∃ responses : List ToolResponse,
      responses.map ToolResponse.toolCallID = calls.map (·.1.id) ∧ (runTools policy tools n calls log).2 = false ∧
      (runTools policy tools n calls log).1.messages = log.messages ++ responses.map .tool ∧
      (runTools policy tools n calls log).1.requests = log.requests := by
  induction calls generalizing n log with
  | nil => exact ⟨[], rfl, rfl, (append_nil _).symm, rfl⟩
  | cons c _ ih =>
    obtain ⟨call, err⟩ := c
    rw [runTools, (hquiet n).1, (hquiet n).2]
    obtain ⟨responses, hids, hflag, hmessages, hrequests⟩ :=
      ih (n + 1) ((log.execute call err).append (.tool (toolResponse call err (tools n))))
    have hsame : (log.execute call err).messages = log.messages ∧ (log.execute call err).requests = log.requests := by
      unfold Log.execute
      split <;> exact ⟨rfl, rfl⟩
    refine ⟨toolResponse call err (tools n) :: responses, ?_, hflag, hmessages.trans ?_, hrequests.trans hsame.2⟩
    · rw [map_cons, hids]
      cases err <;> rfl
    · rw [Log.append, hsame.1, append_assoc]
      rfl

structure Settles (step : StepAnswer) : Prop where
  quiet : ∀ i, (step.tools i).cancelledBefore = false ∧ (step.tools i).cancelledAfter = false
  ids : ∀ content calls, step.model = .completion content calls → ((prepareCalls step calls).map (·.1.id)).Nodup

def Uninterrupted (messages : List Message) : Prop := messages.any Message.interruption = false

def Plain (step : StepAnswer) : Prop :=
  ∀ content calls, step.model = .completion content calls → Go.contains content "interrupted" = false

/-- A turn whose steps settle, and which is only cancelled if no assistant message speaks of an interruption. -/
structure TurnSettles (log : Log) (turn : Turn) : Prop where
  steps : ∀ n, Settles (turn.steps n)
  fresh : (∃ n, (turn.steps n).cancelled = true ∨ (turn.steps n).model = .failed true) →
    Uninterrupted log.messages ∧ ∀ n, Plain (turn.steps n)

theorem Kept.answer {step : StepAnswer} {content : String} {calls : List ToolCall} (h : Kept marshal log) (hstep : Settles step)
    (hmodel : step.model = .completion content calls) : ∃ (log' : Log) (responses : List ToolResponse),
      runTools policy step.tools 0 (prepareCalls step calls)
        (log.append (.assistant content ((prepareCalls step calls).map Prod.fst))) = (log', false) ∧ Kept marshal log' ∧
      log'.messages = log.messages ++ .assistant content ((prepareCalls step calls).map Prod.fst) :: responses.map .tool := by
  obtain ⟨responses, hids, hflag, hmessages, hrequests⟩ := runTools_quiet policy hstep.quiet (prepareCalls step calls) 0
    (log.append (.assistant content ((prepareCalls step calls).map Prod.fst)))
  have hmessages := hmessages.trans (append_assoc _ _ _)
  refine ⟨_, responses, Prod.ext rfl hflag, ⟨?_, fun messages hmem => h.requests messages (hrequests ▸ hmem)⟩, hmessages⟩
  have htoolIDs : ((responses.map Message.tool).map (chatMessage marshal)).map ChatMessage.toolCallID =
      (prepareCalls step calls).map (·.1.id) := by
    rw [← hids, map_map, map_map]
    rfl
  rw [Complete, hmessages, map_append, singleton_append, map_cons]
  refine h.messages.append (wellFormed_block ?_ ?_ ?_) (.inr rfl)
  · exact htoolIDs ▸ hstep.ids content calls hmodel
  · intro call hcall
    rw [htoolIDs]
    simp only [chatMessage, mem_map] at hcall ⊢
    obtain ⟨_, ⟨c, hc, rfl⟩, rfl⟩ := hcall
    exact ⟨c, hc, rfl⟩
  · intro m hm
    obtain ⟨_, hmem, rfl⟩ := mem_map.mp hm
    obtain ⟨_, -, rfl⟩ := mem_map.mp hmem
    exact ⟨rfl, rfl⟩

theorem runSteps_spec {steps : Nat → StepAnswer} (hsteps : ∀ n, Settles (steps n)) (left n : Nat) (log : Log)
    (hlog : Kept marshal log) : Kept marshal (runSteps policy steps left n log).1 ∧
      ((runSteps policy steps left n log).2 = .interrupted →
        (∃ n, (steps n).cancelled = true ∨ (steps n).model = .failed true) ∧
        ((∀ n, Plain (steps n)) → Uninterrupted log.messages → ∃ middle,
          (runSteps policy steps left n log).1.messages = log.messages ++ middle ++ [.assistant policy.interruptedMessage []])) := by
  induction left generalizing n log with
  | zero => exact ⟨hlog.append (.inr rfl) rfl, nofun⟩
  | succ _ ih =>
    have hinterrupt : ∀ log' : Log, log'.messages = log.messages → Uninterrupted log.messages →
        (log'.interrupt policy).messages = log.messages ++ [] ++ [.assistant policy.interruptedMessage []] := by
      intro log' hmessages hfresh
      rw [Log.interrupt, recordInterrupted, hmessages, hfresh, append_nil]
      rfl
    have hrequest : Kept marshal { log with requests := log.requests ++ [log.messages] } := by
      refine ⟨hlog.messages, fun messages hmem => ?_⟩
      rcases mem_append.mp hmem with hmem | hmem
      · exact hlog.requests messages hmem
      · rw [mem_singleton.mp hmem]
        exact hlog.messages
    unfold runSteps
    split
    next hcancelled => exact ⟨hlog.interrupt policy, fun _ => ⟨⟨n, .inl hcancelled⟩, fun _ hfresh => ⟨[], hinterrupt _ rfl hfresh⟩⟩⟩
    dsimp only
    split
    next hmodel =>
      exact ⟨hrequest.interrupt policy, fun _ => ⟨⟨n, .inr hmodel⟩, fun _ hfresh => ⟨[], hinterrupt _ rfl hfresh⟩⟩⟩
    · exact ⟨hrequest, nofun⟩
    · exact ⟨hrequest, nofun⟩
    next content calls hmodel =>
      split
      · exact ⟨hrequest.append (.inr rfl) rfl, nofun⟩
      obtain ⟨log', _, hrun, hkept, hmessages⟩ := hrequest.answer policy (hsteps n) hmodel
      rw [hrun]
      obtain ⟨hfinal, hown⟩ := ih (n + 1) log' hkept
      refine ⟨hfinal, fun hout => ⟨(hown hout).1, fun hplain hfresh => ?_⟩⟩
      have hfresh' : Uninterrupted log'.messages := by
        unfold Uninterrupted at hfresh ⊢
        rw [hmessages, any_append, hfresh, any_cons, any_map]
        have hcontent := hplain n content calls hmodel
        simp [Message.interruption, hcontent, Function.comp_def]
      obtain ⟨_, hmiddle⟩ := (hown hout).2 hplain hfresh'
      exact ⟨_, hmiddle.trans (by rw [hmessages, append_assoc log.messages])⟩

def history : Log → List Turn → Log
  | log, [] => log
  | log, turn :: turns => history (log.run policy turn).1 turns

def Settled : Log → List Turn → Prop
  | _, [] => True
  | log, turn :: turns => TurnSettles log turn ∧ Settled (log.run policy turn).1 turns

def Noted : Log → List Turn → Prop
  | _, [] => True
  | log, turn :: turns =>
    ((log.run policy turn).2 = .interrupted → ∃ middle, (log.run policy turn).1.messages =
      log.messages ++ [.user turn.userText] ++ middle ++ [.assistant policy.interruptedMessage []]) ∧
    Noted (log.run policy turn).1 turns

theorem history_spec (turns : List Turn) (log : Log) (hlog : Kept marshal log) (h : Settled policy log turns) :
    Kept marshal (history policy log turns) ∧ Noted policy log turns := by
  induction turns generalizing log with
  | nil => exact ⟨hlog, trivial⟩
  | cons turn _ ih =>
    obtain ⟨hturn, hturns⟩ := h
    obtain ⟨hkept, hown⟩ := runSteps_spec policy hturn.steps turn.maxSteps 0 (log.append (.user turn.userText))
      (hlog.append (.inl rfl) rfl)
    obtain ⟨hfinal, hnoted⟩ := ih (log.run policy turn).1 hkept hturns
    refine ⟨hfinal, fun hout => ?_, hnoted⟩
    obtain ⟨hcancelled, hown⟩ := hown hout
    obtain ⟨hfresh, hplain⟩ := hturn.fresh hcancelled
    refine hown hplain ?_
    unfold Uninterrupted at hfresh ⊢
    rw [Log.append, any_append, hfresh]
    rfl

/-- In every history whose turns settle, every request is well formed and every interrupted turn ends with its own
message. -/
theorem transcript_well_formed (systemPrompt : String) (turns : List Turn) (h : Settled policy {} turns) :
    (∀ messages ∈ (history policy {} turns).requests, WellFormed (providerMessages marshal systemPrompt messages)) ∧
      Noted policy {} turns := by
  obtain ⟨hkept, hnoted⟩ := history_spec policy turns {} (⟨trivial, nofun⟩ : Kept marshal {}) h
  exact ⟨fun messages hmem => ⟨nofun, hkept.requests messages hmem⟩, hnoted⟩

end

def piPolicy : LoopPolicy :=
  ⟨"⚠️ Session interrupted by user.", "Reached the maximum number of agent steps without a final response."⟩

@[reducible] def noJSON : JSON := ⟨fun _ => .error "unexpected end of JSON input", nofun⟩

def callsStep (cancelled : Bool) : StepAnswer where
  model := .completion "" [{ id := "a", name := "cluster_status" }, { id := "b", name := "cluster_status" }]
  tools i := { cancelledBefore := cancelled && i == 1 }

def exampleTurn (first : StepAnswer) : Turn :=
  ⟨"status?", 8, fun n => if n = 0 then first else { model := .completion "done" [] }⟩

theorem transcript_well_formed_calls :
    ((@history noJSON piPolicy {} [exampleTurn (callsStep false)]).requests.map List.length = [1, 4]) ∧
      ∀ messages ∈ (@history noJSON piPolicy {} [exampleTurn (callsStep false)]).requests,
        WellFormed (providerMessages (fun _ => "ok") "" messages) := by
  let _ : JSON := noJSON
  have hsettled : Settled piPolicy {} [exampleTurn (callsStep false)] := by
    refine ⟨⟨fun n => ⟨fun i => ?_, fun content calls hmodel => ?_⟩, ?_⟩, trivial⟩
    · cases n <;> exact ⟨rfl, rfl⟩
    · cases n with
      | zero => cases hmodel; decide +kernel
      | succ => cases hmodel; exact nodup_nil
    · rintro ⟨n, hn⟩
      cases n <;> simp [exampleTurn, callsStep] at hn
  exact ⟨by decide +kernel, (transcript_well_formed _ _ _ hsettled).1⟩

/-- After an interruption between two tool calls the next request has a call without an answer, and a second
interrupted turn has no message of its own. -/
theorem interrupted_call_unanswered :
    (∃ messages ∈ (@history noJSON piPolicy {} [exampleTurn (callsStep true), exampleTurn { model := .empty }]).requests,
      ¬ WellFormed (providerMessages (fun _ => "ok") "" messages)) ∧
    ¬ @Noted noJSON piPolicy {} (replicate 2 (exampleTurn { cancelled := true, model := .empty })) := by
  refine ⟨by decide +kernel, fun ⟨_, hsecond, _⟩ => ?_⟩
  obtain ⟨middle, hmiddle⟩ := hsecond (by decide +kernel)
  -- Three messages, where there would have to be the two of the first turn and two more.
  have hlength := congrArg length hmiddle
  rw [length_append, length_append, length_append] at hlength
  change 3 = 2 + 1 + middle.length + 1 at hlength
  omega

end Maistr0.Agent.Pi
