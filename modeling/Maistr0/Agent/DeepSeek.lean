import Maistr0.Agent.Loop

/-!
# Tool calls of the DeepSeek harness

`ParseResponse` finds the tool calls in what the model writes, and `CallModel` gives them to the agent loop.
`ExecuteTool` hands the arguments it gets from the loop on to the tool. The thoughts and the content of an answer play
no part in this.
-/

namespace Maistr0.Agent.DeepSeek

open Go List

def stringField (fields : Fields) (key : String) : Option String :=
  match fields.lookup key with
  | some (.string value) => some value
  | _ => none

def objectField (fields : Fields) (key : String) : Option Fields :=
  match fields.lookup key with
  | some (.object value) => some value
  | _ => none

def toolName (rawMap : Fields) : String :=
  (stringField rawMap "name" <|> stringField rawMap "tool" <|> stringField rawMap "function").getD ""

theorem mem_of_lookup {fields : Fields} {key : String} {value : Json} (h : fields.lookup key = some value) :
    (key, value) ∈ fields := by
  obtain ⟨_, _, rfl, -⟩ := lookup_eq_some_iff.mp h
  exact mem_append_right _ mem_cons_self

theorem mem_of_stringField {fields : Fields} {key value : String} (h : stringField fields key = some value) :
    (key, Json.string value) ∈ fields := by
  unfold stringField at h
  split at h
  next hlookup =>
    cases h
    exact mem_of_lookup hlookup
  · cases h

theorem ne_of_objectField {fields value : Fields} {key : String} (h : objectField fields key = some value) :
    value ≠ fields := by
  unfold objectField at h
  split at h
  next hlookup =>
    cases h
    have hsize := sizeOf_lt_of_mem (mem_of_lookup hlookup)
    rintro rfl
    simp at hsize
    omega
  · cases h

theorem orElse_cases {α : Type} {a b c : Option α} {x : α} (h : (a <|> b <|> c) = some x) :
    a = some x ∨ b = some x ∨ c = some x := by
  cases a <;> cases b <;> simp_all

theorem mem_of_toolName {rawMap : Fields} (h : toolName rawMap ≠ "") :
    ∃ key, (key, Json.string (toolName rawMap)) ∈ rawMap := by
  unfold toolName at h ⊢
  cases hname : stringField rawMap "name" <|> stringField rawMap "tool" <|> stringField rawMap "function" with
  | none => rw [hname] at h; exact absurd rfl h
  | some => rcases orElse_cases hname with h | h | h <;> exact ⟨_, mem_of_stringField h⟩

section

variable [JSON]

def toolArguments (rawMap : Fields) : Option Fields :=
  match objectField rawMap "arguments" <|> objectField rawMap "args" <|> objectField rawMap "parameters" with
  | some args => some args
  | none =>
    match stringField rawMap "arguments" with
    | none => some []
    | some text =>
      match JSON.unmarshalMap text with
      | .ok args => args
      | .error _ => some []

def parseSingleToolCall (jsonStr fallbackID : String) : Except String ToolCall :=
  let jsonStr := trimSpace jsonStr
  match JSON.unmarshalMap jsonStr with
  | .error err => .error err
  | .ok fields =>
    let rawMap := fields.getD []
    if toolName rawMap = "" then .error ("no tool name found in JSON: " ++ jsonStr)
    else
      let id := (stringField rawMap "id").getD ""
      .ok {
        id := if id = "" then fallbackID else id, name := toolName rawMap, arguments := toolArguments rawMap
        rawArgs := jsonStr }

def cut (part : List Char) : List Char → Option (List Char × List Char)
  | [] => none
  | c :: s =>
    if part.isPrefixOf (c :: s) then some ([], (c :: s).drop part.length)
    else (cut part s).map fun found => (c :: found.1, found.2)

def toolCallTags : Nat → List Char → List (List Char)
  | 0, _ => []
  | fuel + 1, s =>
    match cut "<tool_call>".toList s with
    | none => []
    | some (_, s) =>
      match cut "</tool_call>".toList s with
      | none => []
      | some (call, s) => call :: toolCallTags fuel s

/-- `\s`. -/
def isBlank (c : Char) : Bool := c = ' ' || c = '\t' || c = '\n' || c = '\r' || c.toNat = 12

def fence : List Char := "```".toList

/-- From after a brace to the first closing brace that a fence follows. -/
def closeBlock : List Char → Option (List Char × List Char)
  | [] => none
  | c :: s =>
    if c = '\x7d' && fence.isPrefixOf (s.dropWhile isBlank) then some ([c], (s.dropWhile isBlank).drop fence.length)
    else (closeBlock s).map fun found => (c :: found.1, found.2)

/-- `markdownCodeRegex` at this place. -/
def codeBlock (s : List Char) : Option (List Char × List Char) :=
  if fence.isPrefixOf s then
    let s := s.drop fence.length
    let s := if "tool_call".toList.isPrefixOf s then s.drop 9 else if "json".toList.isPrefixOf s then s.drop 4 else s
    match s.dropWhile isBlank with
    | [] => none
    | c :: s => if c = '\x7b' then (closeBlock s).map fun found => (c :: found.1, found.2) else none
  else none

def codeBlocks : Nat → List Char → List (List Char)
  | 0, _ => []
  | fuel + 1, s =>
    match codeBlock s with
    | some (call, s) => call :: codeBlocks fuel s
    | none => codeBlocks fuel s.tail

def parseToolCalls (texts : List (List Char)) : List ToolCall :=
  (texts.mapIdx fun i text => parseSingleToolCall (String.ofList text) ("call_" ++ toString (i + 1))).filterMap Except.toOption

def parseResponse (raw : String) : List ToolCall :=
  let s := (trimSpace raw).toList
  let tags := toolCallTags s.length s
  if !tags.isEmpty then parseToolCalls tags
  else
    let calls := parseToolCalls (codeBlocks s.length s)
    if !calls.isEmpty then calls
    else if s.head? = some '\x7b' && s.getLast? = some '\x7d' then parseToolCalls [s]
    else []

theorem exists_of_mem_parseResponse {raw : String} {call : ToolCall} (h : call ∈ parseResponse raw) :
    ∃ text fallbackID, parseSingleToolCall text fallbackID = .ok call := by
  have hcalls : ∀ texts, call ∈ parseToolCalls texts → ∃ text fallbackID, parseSingleToolCall text fallbackID = .ok call := by
    intro texts hmem
    obtain ⟨_, hresult, hok⟩ := mem_filterMap.mp hmem
    obtain ⟨i, hi, rfl⟩ := mem_mapIdx.mp hresult
    refine ⟨String.ofList texts[i], "call_" ++ toString (i + 1), ?_⟩
    match parseSingleToolCall (String.ofList texts[i]) ("call_" ++ toString (i + 1)), hok with
    | .ok _, rfl => rfl
  unfold parseResponse at h
  dsimp only at h
  split at h
  · exact hcalls _ h
  split at h
  · exact hcalls _ h
  split at h
  · exact hcalls _ h
  · cases h

variable {rawMap : Fields} {text fallbackID : String} {call : ToolCall}

theorem toolArguments_ne (hread : JSON.unmarshalMap text = .ok (some rawMap)) (hname : toolName rawMap ≠ "") :
    (toolArguments rawMap).getD [] ≠ rawMap := by
  obtain ⟨_, hkey⟩ := mem_of_toolName hname
  have hne : [] ≠ rawMap := (ne_nil_of_mem hkey).symm
  unfold toolArguments
  split
  next args hargs =>
    rcases orElse_cases hargs with h | h | h <;> exact ne_of_objectField h
  · split
    · exact hne
    next argsText hargsText =>
      split
      next args hargs =>
        cases args with
        | none => exact hne
        | some =>
          rintro rfl
          exact Nat.lt_irrefl _ (JSON.string_shorter hargs (mem_of_stringField hargsText))
      · exact hne

def wholeCall (call : ToolCall) : Fields :=
  match JSON.unmarshalMap call.rawArgs with
  | .ok (some fields) => fields
  | _ => []

theorem parseSingleToolCall_spec (h : parseSingleToolCall text fallbackID = .ok call) :
    call.rawArgs ≠ "" ∧ JSON.unmarshalMap call.rawArgs = .ok (some (wholeCall call)) ∧
      call.arguments.getD [] ≠ wholeCall call := by
  unfold parseSingleToolCall at h
  dsimp only at h
  split at h
  · cases h
  next fields hread =>
    split at h
    · cases h
    next hname =>
      cases h
      cases fields with
      | none => exact absurd rfl hname
      | some =>
        obtain ⟨_, hkey⟩ := mem_of_toolName hname
        unfold wholeCall
        dsimp only
        rw [hread]
        refine ⟨fun heq => ?_, rfl, toolArguments_ne hread hname⟩
        have hshort := JSON.string_shorter hread hkey
        rw [heq] at hshort
        exact Nat.not_lt_zero _ hshort

/-- The loop takes the text of the whole call for that of its arguments. -/
theorem prepareCall_of_rawArgs (newMessageID : String) (hraw : call.rawArgs ≠ "")
    (hread : JSON.unmarshalMap call.rawArgs = .ok (some rawMap)) :
    (prepareCall newMessageID call).2 = none ∧
      ((prepareCall newMessageID call).1.name, (prepareCall newMessageID call).1.arguments.getD []) = (call.name, rawMap) := by
  unfold prepareCall decodeToolArguments
  by_cases hid : call.id = "" <;> simp [hid, hraw, hread]

omit [JSON] in
theorem executed_runTools (policy : LoopPolicy) {tools : Nat → ToolAnswer} {calls : List (ToolCall × Option String)}
    (hquiet : ∀ i, (tools i).cancelledBefore = false ∧ (tools i).cancelledAfter = false) (herr : ∀ c ∈ calls, c.2 = none)
    (n : Nat) (log : Log) : (runTools policy tools n calls log).1.executed =
      log.executed ++ calls.map fun c => (c.1.name, c.1.arguments.getD []) := by
  induction calls generalizing n log with
  | nil => exact (append_nil _).symm
  | cons c _ ih =>
    obtain ⟨_, err⟩ := c
    obtain rfl : err = none := herr _ mem_cons_self
    rw [runTools, (hquiet n).1, (hquiet n).2]
    exact (ih (forall_mem_cons.mp herr).2 _ _).trans (append_assoc _ _ _)

end

def callText : String := "\x7b\"name\":\"eval_expression\",\"arguments\":\x7b\"expression\":\"1+1\"\x7d\x7d"

@[reducible] def oneCall : JSON where
  unmarshalMap text :=
    if text = callText then
      .ok (some [("name", .string "eval_expression"), ("arguments", .object [("expression", .string "1+1")])])
    else .error "invalid character"
  string_shorter {text fields key value} h hmem := by
    split at h
    next heq =>
      cases h
      rw [heq]
      simp at hmem
      rw [hmem.2]
      decide
    · cases h

def quietStep : StepAnswer := { model := .empty }

def exampleExecuted (raw : String) : List (String × Fields) :=
  (runTools ⟨"", ""⟩ quietStep.tools 0 (@prepareCalls oneCall quietStep (@parseResponse oneCall raw)) {}).1.executed

end Maistr0.Agent.DeepSeek
