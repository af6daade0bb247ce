import Maistr0.Go
import Maistr0.Lib.Keyed
import Maistr0.Lib.LogReplay

/-!
# The replicated state machine

`fsm.go`: the mutations, their validation, and `Apply`, `Snapshot` and `Restore` of the state machine. How a
mutation is read from a log entry and fingerprinted is open, and so is whether the applied index can be recorded.

An operation ID takes effect once, the first time a valid mutation carries it: the state after a log is the fold
of the first occurrences.
-/

namespace Maistr0.Consensus

open Go List

abbrev Bytes := List UInt8

structure Mutation where
  operationID : String
  kind : String
  key : String
  value : Bytes := []
deriving DecidableEq

def mutationPut : String := "put"
def mutationDelete : String := "delete"

structure MutationResult where
  operationID : String := ""
  index : Nat := 0
  duplicate : Bool := false
deriving DecidableEq

structure FsmResponse where
  result : MutationResult := {}
  error : String := ""
deriving DecidableEq

def errOperationIDReuse : String := "consensus: operation ID was reused with a different mutation"

/-- An entry of the log: a command with its data, or one of raft's own. -/
inductive Entry (Data : Type) where
  | command (data : Data)
  | other
deriving DecidableEq

/-- `json.Unmarshal` of an entry's data, and the hash of a mutation. -/
structure Codec (Data F : Type) where
  decode : Data → Except String Mutation
  fingerprint : Mutation → F

structure StoredValue where
  key : String
  value : Bytes
deriving DecidableEq

structure AppliedOperation (F : Type) where
  operationID : String
  fingerprint : F
  index : Nat
deriving DecidableEq

structure StateSnapshot (F : Type) where
  values : Lib.Keyed StoredValue.key := ∅
  operations : Lib.Keyed (AppliedOperation.operationID (F := F)) := ∅

structure StateMachine (F : Type) extends StateSnapshot F where
  storageErr : Option String := none

/-! ### Validation -/

def validateIdentifier (label value : String) : Option String :=
  if value = "" ∨ trimSpace value ≠ value ∨ 256 < len value then
    some ("consensus: " ++ label ++ " must be non-empty, trimmed, and at most 256 bytes")
  else none

def validateKind (m : Mutation) : Option String :=
  if m.kind = mutationPut then none
  else if m.kind = mutationDelete then
    if m.value.length ≠ 0 then some "consensus: delete mutation cannot contain a value" else none
  else some ("consensus: unsupported mutation kind " ++ m.kind.quote)

def validateMutation (m : Mutation) : Option String :=
  (validateIdentifier "operation ID" m.operationID).orElse fun _ =>
    (validateIdentifier "mutation key" m.key).orElse fun _ => validateKind m

/-! ### Mutations -/

variable {Data F : Type}

/-- The mutation of an entry, or what `Apply` returns without one. -/
def Codec.read (codec : Codec Data F) : Entry Data → Except (Option FsmResponse) Mutation
  | .other => .error none
  | .command data =>
    match codec.decode data with
    | .error text => .error (some { error := "consensus: decode mutation: " ++ text })
    | .ok m =>
      match validateMutation m with
      | some text => .error (some { error := text })
      | none => .ok m

namespace StateSnapshot

def perform (codec : Codec Data F) (s : StateSnapshot F) (index : Nat) (m : Mutation) : StateSnapshot F where
  values :=
    if m.kind = mutationPut then s.values.put ⟨m.key, m.value⟩
    else if m.kind = mutationDelete then s.values.erase m.key
    else s.values
  operations := s.operations.put ⟨m.operationID, codec.fingerprint m, index⟩

theorem get?_perform (codec : Codec Data F) (s : StateSnapshot F) (index : Nat) (m : Mutation) (id : String) :
    (s.perform codec index m).operations.get? id =
      if m.operationID = id then some ⟨m.operationID, codec.fingerprint m, index⟩ else s.operations.get? id :=
  Lib.Keyed.get?_put _ _ _

end StateSnapshot

open StateSnapshot

def mutations (codec : Codec Data F) (log : List (Entry Data)) : List (Nat × Mutation) :=
  log.zipIdx.filterMap fun (entry, position) =>
    match codec.read entry with
    | .error _ => none
    | .ok m => some (position + 1, m)

def firstOccurrences : List (Nat × Mutation) → List (Nat × Mutation)
  | [] => []
  | op :: ops => op :: (firstOccurrences ops).filter fun later => later.2.operationID ≠ op.2.operationID

def performAll (codec : Codec Data F) (ops : List (Nat × Mutation)) : StateSnapshot F :=
  ops.foldl (fun s op => s.perform codec op.1 op.2) {}

theorem firstOccurrences_concat (ops : List (Nat × Mutation)) (op : Nat × Mutation) : firstOccurrences (ops ++ [op]) =
    firstOccurrences ops ++ if ∃ earlier ∈ ops, earlier.2.operationID = op.2.operationID then [] else [op] := by
  induction ops with
  | nil => rfl
  | cons first ops ih =>
    rw [cons_append, firstOccurrences, firstOccurrences, ih, filter_append, cons_append]
    congr 2
    by_cases hsame : first.2.operationID = op.2.operationID
    · have hearlier : ∃ earlier ∈ first :: ops, earlier.2.operationID = op.2.operationID :=
        ⟨first, mem_cons_self, hsame⟩
      rw [if_pos hearlier]
      split
      · rfl
      · simp [hsame]
    · have hcons : (∃ earlier ∈ first :: ops, earlier.2.operationID = op.2.operationID) ↔
          ∃ earlier ∈ ops, earlier.2.operationID = op.2.operationID := by
        rw [exists_mem_cons_iff]
        exact or_iff_right hsame
      rw [if_congr hcons rfl rfl]
      split
      · rfl
      · simp [Ne.symm hsame]

theorem mutations_concat (codec : Codec Data F) (log : List (Entry Data)) (entry : Entry Data) :
    mutations codec (log ++ [entry]) = mutations codec log ++ match codec.read entry with
        | .error _ => []
        | .ok m => [(log.length + 1, m)] := by
  unfold mutations
  rw [zipIdx_append, filterMap_append]
  congr 1
  cases hread : codec.read entry <;> simp [hread]

theorem get?_performAll (codec : Codec Data F) (ops : List (Nat × Mutation)) (id : String) :
    (performAll codec ops).operations.get? id = none ↔ ∀ op ∈ ops, op.2.operationID ≠ id := by
  induction ops using reverseRecOn with
  | nil => exact iff_of_true rfl fun op hop => absurd hop not_mem_nil
  | append_singleton ops op ih =>
    unfold performAll at ih ⊢
    rw [foldl_append, foldl_cons, foldl_nil, get?_perform]
    constructor
    · intro hnone op' hop'
      split at hnone
      · cases hnone
      rename_i hne
      rcases mem_append.mp hop' with hmem | hlast
      · exact ih.mp hnone op' hmem
      · exact mem_singleton.mp hlast ▸ hne
    · intro hall
      rw [if_neg (hall op (mem_append_right _ mem_cons_self))]
      exact ih.mpr fun op' hop' => hall op' (mem_append_left _ hop')

theorem mem_firstOccurrences (ops : List (Nat × Mutation)) (id : String) :
    (∃ op ∈ firstOccurrences ops, op.2.operationID = id) ↔ ∃ op ∈ ops, op.2.operationID = id := by
  induction ops using reverseRecOn with
  | nil => exact Iff.rfl
  | append_singleton ops op ih =>
    rw [firstOccurrences_concat]
    constructor
    · rintro ⟨op', hop', hid⟩
      rcases mem_append.mp hop' with hmem | hlast
      · obtain ⟨earlier, hearlier, hsame⟩ := ih.mp ⟨op', hmem, hid⟩
        exact ⟨earlier, mem_append_left _ hearlier, hsame⟩
      split at hlast
      · exact absurd hlast not_mem_nil
      · exact ⟨op', mem_append_right _ hlast, hid⟩
    · rintro ⟨op', hop', hid⟩
      rcases mem_append.mp hop' with hmem | hlast
      · obtain ⟨first, hfirst, hsame⟩ := ih.mpr ⟨op', hmem, hid⟩
        exact ⟨first, mem_append_left _ hfirst, hsame⟩
      obtain rfl := mem_singleton.mp hlast
      split
      · rename_i hearlier
        obtain ⟨earlier, hearlier, hsame⟩ := hearlier
        obtain ⟨first, hfirst, hfirst'⟩ := ih.mpr ⟨earlier, hearlier, hsame.trans hid⟩
        exact ⟨first, mem_append_left _ hfirst, hfirst'⟩
      · exact ⟨op', mem_append_right _ mem_cons_self, hid⟩

/-! ### Apply -/

variable [DecidableEq F] {op : AppliedOperation F}

namespace StateSnapshot

def mutate (codec : Codec Data F) (s : StateSnapshot F) (index : Nat) (m : Mutation) : StateSnapshot F × FsmResponse :=
  match s.operations.get? m.operationID with
  | some previous =>
    if previous.fingerprint ≠ codec.fingerprint m then (s, { error := errOperationIDReuse })
    else (s, { result := { operationID := m.operationID, index := previous.index, duplicate := true } })
  | none => (s.perform codec index m, { result := { operationID := m.operationID, index } })

end StateSnapshot

def recordAppliedIndex (applied index : Nat) : Nat := if index ≤ applied then applied else index

namespace StateMachine

/-- `Apply` with the recorded applied index; `failed` is the error of recording it, if there is one. -/
def apply (codec : Codec Data F) (f : StateMachine F) (applied : Nat) (failed : Option String) (index : Nat)
    (entry : Entry Data) : StateMachine F × Nat × Option FsmResponse :=
  match codec.read entry with
  | .error response => (f, applied, response)
  | .ok m =>
    match f.storageErr, failed with
    | some text, _ => (f, applied, some { error := text })
    | none, some text =>
      let text := "consensus: persist applied index " ++ toString index ++ ": " ++ text
      ({ f with storageErr := some text }, applied, some { error := text })
    | none, none =>
      let out := f.toStateSnapshot.mutate codec index m
      ({ f with toStateSnapshot := out.1 }, recordAppliedIndex applied index, some out.2)

def snapshot (f : StateMachine F) : StateSnapshot F := f.toStateSnapshot

def restore (f : StateMachine F) (s : StateSnapshot F) : StateMachine F := { f with toStateSnapshot := s }

end StateMachine

/-! ### Applying a log once -/

namespace StateSnapshot

variable (codec : Codec Data F)

def step (s : StateSnapshot F) (index : Nat) (entry : Entry Data) : StateSnapshot F :=
  match codec.read entry with
  | .error _ => s
  | .ok m => (s.mutate codec index m).1

/-- What `Apply` returns. -/
def answer (s : StateSnapshot F) (index : Nat) (entry : Entry Data) : Option FsmResponse :=
  match codec.read entry with
  | .error response => response
  | .ok m => some (s.mutate codec index m).2

end StateSnapshot

def once (codec : Codec Data F) (log : List (Entry Data)) (count : Nat) : StateSnapshot F :=
  Lib.LogReplay.after (StateSnapshot.step codec) {} log count

def FsmResponse.asDuplicate (r : FsmResponse) : FsmResponse :=
  if r.error = "" then { r with result := { r.result with duplicate := true } } else r

def StateSnapshot.AppliedAt (codec : Codec Data F) (s : StateSnapshot F) (index : Nat) (entry : Entry Data) : Prop :=
  ∃ m op, codec.read entry = .ok m ∧ s.operations.get? m.operationID = some op ∧ op.index = index

section

variable {codec : Codec Data F} {s : StateSnapshot F} {index : Nat} {entry : Entry Data} {m : Mutation}

namespace StateSnapshot

theorem mutate_of_new (h : s.operations.get? m.operationID = none) : s.mutate codec index m =
    (s.perform codec index m, { result := { operationID := m.operationID, index } }) := by
  unfold mutate
  rw [h]

theorem mutate_of_applied (h : s.operations.get? m.operationID = some op) : s.mutate codec index m =
    (s, if op.fingerprint ≠ codec.fingerprint m then { error := errOperationIDReuse }
      else { result := { operationID := m.operationID, index := op.index, duplicate := true } }) := by
  unfold mutate
  rw [h]
  dsimp only
  split <;> rfl

theorem operations_step (codec : Codec Data F) (s : StateSnapshot F) (index : Nat) (entry : Entry Data) :
    step codec s index entry = s ∨
      ∃ m, codec.read entry = .ok m ∧ s.operations.get? m.operationID = none ∧ step codec s index entry = s.perform codec index m := by
  unfold step
  cases hread : codec.read entry with
  | error => exact .inl rfl
  | ok m =>
    cases hget : s.operations.get? m.operationID with
    | some => exact .inl (congrArg Prod.fst (mutate_of_applied hget))
    | none => exact .inr ⟨m, rfl, hget, congrArg Prod.fst (mutate_of_new hget)⟩

theorem applied_step {id : String} (h : s.operations.get? id = some op) (index : Nat)
    (entry : Entry Data) : (step codec s index entry).operations.get? id = some op := by
  rcases operations_step codec s index entry with heq | ⟨m, -, hnew, heq⟩
  · rw [heq, h]
  rw [heq, get?_perform, if_neg, h]
  rintro rfl
  rw [hnew] at h
  cases h

def Known (codec : Codec Data F) (s : StateSnapshot F) (entry : Entry Data) : Prop :=
  ∀ m, codec.read entry = .ok m → ∃ op, s.operations.get? m.operationID = some op

theorem remembers : Lib.LogReplay.Remembers (step codec) (Known codec) where
  learns s index entry m hread := by
    unfold step
    rw [hread]
    dsimp only
    cases hget : s.operations.get? m.operationID with
    | some op => exact ⟨op, by rw [mutate_of_applied hget, hget]⟩
    | none => exact ⟨⟨m.operationID, codec.fingerprint m, index⟩, by rw [mutate_of_new hget, get?_perform, if_pos rfl]⟩
  keeps s index entry entry' hknown m hread := by
    obtain ⟨op, hop⟩ := hknown m hread
    exact ⟨op, applied_step hop index entry⟩
  still s index entry hknown := by
    rcases operations_step codec s index entry with heq | ⟨m, hread, hnew, -⟩
    · exact heq
    obtain ⟨_, hop⟩ := hknown m hread
    rw [hnew] at hop
    cases hop

end StateSnapshot

end

/-! ### Logs -/

section

variable (codec : Codec Data F)

variable {log : List (Entry Data)} {i count : Nat}

theorem once_eq_performAll (log : List (Entry Data)) :
    once codec log log.length = performAll codec (firstOccurrences (mutations codec log)) := by
  induction log using reverseRecOn with
  | nil => rfl
  | append_singleton log entry ih =>
    have hlast : once codec (log ++ [entry]) (log ++ [entry]).length =
        StateSnapshot.step codec (once codec log log.length) (log.length + 1) entry := by
      have hget : (log ++ [entry])[log.length]? = some entry := getElem?_concat_length
      unfold once
      rw [length_append, length_singleton, Lib.LogReplay.after_succ hget, Lib.LogReplay.after_append (Nat.le_refl _)]
    rw [hlast, mutations_concat]
    cases hread : codec.read entry with
    | error response =>
      unfold StateSnapshot.step
      rw [hread, append_nil]
      exact ih
    | ok m =>
      rw [firstOccurrences_concat]
      have hfresh := get?_performAll codec (firstOccurrences (mutations codec log)) m.operationID
      unfold StateSnapshot.step
      rw [hread, ih]
      dsimp only
      split
      · rename_i hearlier
        rw [append_nil]
        obtain ⟨first, hfirst, hid⟩ := (mem_firstOccurrences _ m.operationID).mpr hearlier
        cases hget : (performAll codec (firstOccurrences (mutations codec log))).operations.get? m.operationID with
        | none => exact absurd hid (hfresh.mp hget first hfirst)
        | some op => rw [mutate_of_applied hget]
      · rename_i hnew
        have hnone := hfresh.mpr fun op hop hid => hnew ((mem_firstOccurrences _ m.operationID).mp ⟨op, hop, hid⟩)
        rw [mutate_of_new hnone]
        unfold performAll
        rw [foldl_append, foldl_cons, foldl_nil]

theorem once_succ {entry : Entry Data} (he : log[i]? = some entry) :
    once codec log (i + 1) = (once codec log i).step codec (i + 1) entry := Lib.LogReplay.after_succ he

theorem applied_once {id : String} (hle : i ≤ count)
    (h : (once codec log i).operations.get? id = some op) : (once codec log count).operations.get? id = some op :=
  Lib.LogReplay.after_mono (P := fun s : StateSnapshot F => s.operations.get? id = some op)
    (fun _ j e hs => applied_step hs j e) hle h

theorem index_le_of_once {id : String}
    (h : (once codec log count).operations.get? id = some op) : op.index ≤ count := by
  induction count with
  | zero => cases h
  | succ count ih =>
    unfold once Lib.LogReplay.after at h
    split at h
    · rename_i entry _
      rcases operations_step codec (once codec log count) (count + 1) entry with heq | ⟨m, -, -, heq⟩
      · exact Nat.le_succ_of_le (ih ((congrArg (fun s => s.operations.get? id) heq).symm.trans h))
      have hget := (congrArg (fun s => s.operations.get? id) heq).symm.trans h
      rw [get?_perform] at hget
      split at hget
      · cases hget
        exact Nat.le_refl _
      · exact Nat.le_succ_of_le (ih hget)
    · exact Nat.le_succ_of_le (ih h)

/-- An entry that comes to a state that has it is answered as the first time, but for the mark of a duplicate if
it was this entry that applied the operation. -/
theorem answer_once {entry : Entry Data} (hle : i ≤ count) (he : log[i]? = some entry) :
    ((once codec log count).AppliedAt codec (i + 1) entry → (once codec log count).answer codec (i + 1) entry =
        ((once codec log i).answer codec (i + 1) entry).map FsmResponse.asDuplicate) ∧
    (¬ (once codec log count).AppliedAt codec (i + 1) entry →
      (once codec log count).answer codec (i + 1) entry = (once codec log i).answer codec (i + 1) entry) := by
  rcases Nat.lt_or_eq_of_le hle with hlt | rfl
  · unfold answer StateSnapshot.AppliedAt
    cases hread : codec.read entry with
    | error =>
      refine ⟨?_, fun _ => rfl⟩
      rintro ⟨m, op, hok, -⟩
      cases hok
    | ok m =>
      cases hget : (once codec log i).operations.get? m.operationID with
      | some op =>
        -- an earlier entry has applied the operation, and the answer shows it both times
        have hlater : (once codec log count).operations.get? m.operationID = some op :=
          applied_once codec hle hget
        have hbefore := index_le_of_once codec hget
        dsimp only
        rw [mutate_of_applied hlater, mutate_of_applied hget]
        refine ⟨?_, fun _ => rfl⟩
        rintro ⟨_, _, hok, hop', hindex⟩
        cases hok
        rw [hlater] at hop'
        cases hop'
        omega
      | none =>
        have hfirst : (once codec log (i + 1)).operations.get? m.operationID = some ⟨m.operationID, codec.fingerprint m, i + 1⟩ := by
          rw [once_succ codec he]
          unfold StateSnapshot.step
          rw [hread]
          dsimp only
          rw [mutate_of_new hget, get?_perform, if_pos rfl]
        have hlater : (once codec log count).operations.get? m.operationID = some ⟨m.operationID, codec.fingerprint m, i + 1⟩ :=
          applied_once codec hlt hfirst
        dsimp only
        rw [mutate_of_applied hlater, mutate_of_new hget]
        refine ⟨fun _ => ?_, fun hnot => absurd ⟨m, _, rfl, hlater, rfl⟩ hnot⟩
        rw [if_neg (fun hne => hne rfl)]
        rfl
  · refine ⟨?_, fun _ => rfl⟩
    rintro ⟨_, _, -, hop, hindex⟩
    have hbound := index_le_of_once codec hop
    omega

end

/-! ### `Apply` -/

section

variable (codec : Codec Data F) (f : StateMachine F) (applied index : Nat) (entry : Entry Data)

namespace StateMachine

theorem apply_recorded (h : f.storageErr = none) :
    (f.apply codec applied none index entry).1 = { f with toStateSnapshot := f.toStateSnapshot.step codec index entry } ∧
      (f.apply codec applied none index entry).2.2 = f.toStateSnapshot.answer codec index entry := by
  unfold apply StateSnapshot.step answer
  cases codec.read entry with
  | error => exact ⟨rfl, rfl⟩
  | ok =>
    rw [h]
    exact ⟨rfl, rfl⟩

theorem apply_effect (failed : Option String) :
    f.storageErr = none ∧ (f.apply codec applied failed index entry).1.toStateSnapshot = f.toStateSnapshot.step codec index entry ∨
      (f.apply codec applied failed index entry).1.toStateSnapshot = f.toStateSnapshot ∧
        (f.apply codec applied failed index entry).1.storageErr ≠ none := by
  unfold apply StateSnapshot.step
  cases herr : f.storageErr with
  | some text =>
    refine .inr ?_
    cases codec.read entry with
    | error => exact ⟨rfl, herr ▸ Option.some_ne_none text⟩
    | ok =>
      simp [herr]
  | none =>
    cases codec.read entry with
    | error => exact .inl ⟨rfl, rfl⟩
    | ok =>
      cases failed with
      | some => exact .inr ⟨rfl, Option.some_ne_none _⟩
      | none => exact .inl ⟨rfl, rfl⟩

theorem apply_applied (failed : Option String) :
    (f.apply codec applied failed index entry).2.1 = applied ∨ (f.apply codec applied failed index entry).2.1 = max applied index := by
  unfold apply
  cases codec.read entry with
  | error => exact .inl rfl
  | ok =>
    cases f.storageErr with
    | some => exact .inl rfl
    | none =>
      cases failed with
      | some => exact .inl rfl
      | none =>
        refine .inr ?_
        change recordAppliedIndex applied index = max applied index
        unfold recordAppliedIndex
        split <;> omega

end StateMachine

end

section

variable (codec : Codec Data F) (log : List (Entry Data)) (count : Nat)

/-- `Apply` of the first entries of the log, one after the other, without a storage error. -/
def applyLog : StateMachine F × Nat :=
  Lib.LogReplay.after (fun f index entry =>
      let out := f.1.apply codec f.2 none index entry
      (out.1, out.2.1))
    ({}, 0) log count

theorem applyLog_fsm : (applyLog codec log count).1 = { toStateSnapshot := once codec log count } := by
  induction count with
  | zero => rfl
  | succ count ih =>
    unfold applyLog once Lib.LogReplay.after
    split
    · have hnone : (applyLog codec log count).1.storageErr = none := by rw [ih]
      refine ((applyLog codec log count).1.apply_recorded codec _ _ _ hnone).1.trans ?_
      rw [ih]
      rfl
    · exact ih

def firstAnswer (entry : Entry Data) : Option FsmResponse :=
  ((applyLog codec log count).1.apply codec (applyLog codec log count).2 none (count + 1) entry).2.2

theorem firstAnswer_eq (entry : Entry Data) :
    firstAnswer codec log count entry = (once codec log count).answer codec (count + 1) entry := by
  have hfsm := applyLog_fsm codec log count
  have hnone : (applyLog codec log count).1.storageErr = none := by rw [hfsm]
  refine ((applyLog codec log count).1.apply_recorded codec _ _ _ hnone).2.trans ?_
  rw [hfsm]

end

end Maistr0.Consensus
