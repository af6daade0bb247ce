import Maistr0.Go
import Maistr0.Lib.Checks

/-!
# Model dimensions from GGUF metadata

`ParseGGUFWithContext` of `shard/gguf.go`, on the entries of a metadata section that is there as a whole. The decoder
keeps the length of an array in the field of the unsigned numbers, where the dimensions are read.
-/

namespace Maistr0.Shards

open Function Go Lib.Checks

/-- What an array holds. Elements of a fixed size are skipped; of strings the first that is too long matters. -/
inductive Elements where
  | sized
  | strings (tooLong : Option Nat)
  | arrays
  | unknown (code : Nat)

inductive Encoded where
  | unsigned (n : Nat)
  | signed (n : Int)
  | float
  | string (text : String)
  | array (elements : Elements) (count : Nat)
  | unknown (code : Nat)

structure GGUFValue where
  number : Nat := 0
  signed : Int := 0
  isSigned : Bool := false
  text : String := ""
  arrayLength : Nat := 0

def maxGGUFMetadataEntries := 1000000

def maxGGUFArrayItems := 10000000

def maxGGUFStringBytes := 16777216

def exceeds (what : String) (n limit : Nat) : String := what ++ s!" {n} exceeds limit {limit}"

/-- `skipGGUFArray`, and the check before it. With a count within the limit the number of bytes does not overflow. -/
def skipGGUFArray : Elements → Except String Unit
  | .sized | .strings none => .ok ()
  | .strings (some length) => .error (exceeds "string length" length maxGGUFStringBytes)
  | .arrays => .error "nested GGUF arrays are unsupported"
  | .unknown code => .error s!"unsupported GGUF array element type {code}"

def readGGUFValue : Encoded → Except String GGUFValue
  | .unsigned n => .ok { number := n }
  | .signed n => .ok { signed := n, isSigned := true }
  | .float => .ok {}
  | .string text => do
    failIf (len text > maxGGUFStringBytes) (exceeds "string length" (len text) maxGGUFStringBytes)
    .ok { text }
  | .array elements count => do
    failIf (count > maxGGUFArrayItems) (exceeds "array length" count maxGGUFArrayItems)
    skipGGUFArray elements
    .ok { arrayLength := count, number := count }
  | .unknown code => .error s!"unsupported GGUF value type {code}"

abbrev Metadata := String → Option GGUFValue

/-- The loop of `readGGUFMetadata` from entry `i` on. A later entry replaces an earlier one of its key. -/
def readEntries (metadata : Metadata) (i : Nat) : List (String × Encoded) → Except String Metadata
  | [] => .ok metadata
  | (key, encoded) :: entries => do
    failIf (len key > maxGGUFStringBytes)
      (s!"read GGUF metadata key {i}: " ++ exceeds "string length" (len key) maxGGUFStringBytes)
    let value ← (readGGUFValue encoded).mapError (s!"read GGUF metadata value \"{key}\": " ++ ·)
    readEntries (update metadata key (some value)) (i + 1) entries

def readGGUFMetadata (entries : List (String × Encoded)) : Except String Metadata := do
  failIf (entries.length > maxGGUFMetadataEntries) (exceeds "GGUF metadata count" entries.length maxGGUFMetadataEntries)
  readEntries (fun _ => none) 0 entries

def stringValue (metadata : Metadata) (key : String) : String := trimSpace ((metadata key).getD {}).text

def unsignedValue (metadata : Metadata) (key : String) : Option Nat :=
  (metadata key).bind fun value =>
    if value.isSigned then if value.signed < 0 then none else some value.signed.toNat else some value.number

def intValue (metadata : Metadata) (key : String) : Nat :=
  match unsignedValue metadata key with
  | some value => if value > 2 ^ 63 - 1 then 0 else value
  | none => 0

structure Dimensions where
  layerCount : Nat
  hiddenSize : Nat
  kvHeads : Nat
  headDim : Nat
  requestedContext : Nat

structure ModelProfile extends Dimensions where
  architecture : String
  vocabSize : Nat

/-- The profile of `ParseGGUFWithContext`, without the quantization and the sizes in bytes. -/
def profileOf (metadata : Metadata) (architecture : String) (requestedContext : Int) : ModelProfile :=
  let dimension name := intValue metadata (architecture ++ ("." ++ name))
  let hiddenSize := dimension "embedding_length"
  let attentionHeads := dimension "attention.head_count"
  let kvHeads := dimension "attention.head_count_kv"
  let headDim := dimension "attention.key_length"
  let headDim := if headDim = 0 then dimension "attention.value_length" else headDim
  let vocabSize := dimension "vocab_size"
  { architecture, hiddenSize
    layerCount := dimension "block_count"
    kvHeads := if kvHeads = 0 then attentionHeads else kvHeads
    headDim :=
      if headDim = 0 ∧ hiddenSize > 0 ∧ attentionHeads > 0 ∧ hiddenSize % attentionHeads = 0 then hiddenSize / attentionHeads
      else headDim
    vocabSize := if vocabSize = 0 then intValue metadata "tokenizer.ggml.tokens" else vocabSize
    requestedContext := if requestedContext > 0 then requestedContext.toNat else dimension "context_length" }

def parseGGUFWithContext (entries : List (String × Encoded)) (requestedContext : Int) : Except String ModelProfile := do
  failIf (requestedContext < 0) "requested context must not be negative"
  let metadata ← readGGUFMetadata entries
  let architecture := stringValue metadata "general.architecture"
  failIf (architecture = "") "GGUF metadata is missing general.architecture"
  let profile := profileOf metadata architecture requestedContext
  failIf (profile.layerCount = 0 ∨ profile.hiddenSize = 0 ∨ profile.kvHeads = 0 ∨ profile.headDim = 0)
    "GGUF metadata is missing valid layer, embedding, or attention dimensions"
  .ok profile

/-! ### Sections that differ in the lengths of their arrays -/

def dimensionNames : List String :=
  ["block_count", "embedding_length", "attention.head_count", "attention.head_count_kv", "attention.key_length",
    "attention.value_length", "context_length"]

def IsDimension (key : String) : Prop := ∃ name ∈ dimensionNames, ("." ++ name).toList <:+ key.toList

inductive Resized (allowed : String → Nat → Prop) : String × Encoded → String × Encoded → Prop
  | same (entry : String × Encoded) : Resized allowed entry entry
  | array {key : String} (elements : Elements) {n n' : Nat} (htokens : key ≠ "tokenizer.ggml.tokens")
      (hn : allowed key n) (hn' : allowed key n') : Resized allowed (key, .array elements n) (key, .array elements n')

structure Agree (m m' : Metadata) : Prop where
  texts : ∀ key, ((m key).getD {}).text = ((m' key).getD {}).text
  dimensions : ∀ key, IsDimension key → m key = m' key

variable {m m' : Metadata} {entries entries' : List (String × Encoded)}

theorem Agree.update (h : Agree m m') {key : String} {v v' : GGUFValue} (htext : v.text = v'.text)
    (hv : IsDimension key → v = v') : Agree (update m key (some v)) (update m' key (some v')) := by
  refine ⟨fun k => ?_, fun k hk => ?_⟩
  all_goals by_cases hkey : k = key
  · simpa [hkey] using htext
  · simpa [hkey] using h.texts k
  · subst hkey
    simp [hv hk]
  · simpa [hkey] using h.dimensions k hk

def Harmless (key : String) (n : Nat) : Prop := n ≤ maxGGUFArrayItems ∧ ¬ IsDimension key

theorem alike_readGGUFValue {entry entry' : String × Encoded} (h : Resized Harmless entry entry') :
    entry.1 = entry'.1 ∧ Alike (fun v v' => v.text = v'.text ∧ (IsDimension entry.1 → v = v'))
      (readGGUFValue entry.2) (readGGUFValue entry'.2) := by
  cases h with
  | same => exact ⟨rfl, .refl (fun _ => ⟨rfl, fun _ => rfl⟩) _⟩
  | @array key elements n n' _ hn hn' =>
    have hread : ∀ n, Harmless key n → readGGUFValue (.array elements n) =
        skipGGUFArray elements >>= fun _ => .ok { arrayLength := n, number := n } := by
      intro n hn
      simp only [readGGUFValue, failIf, decide_eq_false (Nat.not_lt.mpr hn.1)]
      rfl
    rw [hread n hn, hread n' hn']
    exact ⟨rfl, (Alike.refl (R := fun _ _ => True) (fun _ => trivial) _).bind
      fun _ _ _ => .ok ⟨rfl, fun hkey => absurd hkey hn.2⟩⟩

theorem alike_readEntries (h : List.Forall₂ (Resized Harmless) entries entries') (hagree : Agree m m') (i : Nat) :
    Alike Agree (readEntries m i entries) (readEntries m' i entries') := by
  induction h generalizing m m' i with
  | nil => exact .ok hagree
  | @cons entry entry' _ _ hentry _ ih =>
    obtain ⟨_, _⟩ := entry
    obtain ⟨_, _⟩ := entry'
    obtain ⟨rfl, hvalue⟩ := alike_readGGUFValue hentry
    refine (Alike.refl (R := fun _ _ => True) (fun _ => trivial) _).bind fun _ _ _ => ?_
    exact (hvalue.mapError _).bind fun _ _ hv => ih (hagree.update hv.1 hv.2) _

theorem Agree.dimensions_profileOf (h : Agree m m') (architecture : String) (requestedContext : Int) :
    (profileOf m architecture requestedContext).toDimensions = (profileOf m' architecture requestedContext).toDimensions := by
  have hdimension : ∀ name ∈ dimensionNames,
      intValue m (architecture ++ ("." ++ name)) = intValue m' (architecture ++ ("." ++ name)) := by
    intro name hname
    have hkey : IsDimension (architecture ++ ("." ++ name)) := ⟨name, hname, by simp⟩
    rw [intValue, intValue, unsignedValue, unsignedValue, h.dimensions _ hkey]
  simp only [dimensionNames, List.forall_mem_cons] at hdimension
  obtain ⟨hlayers, hhidden, hheads, hkvHeads, hkeys, hvalues, hcontext, -⟩ := hdimension
  simp only [profileOf, hlayers, hhidden, hheads, hkvHeads, hkeys, hvalues, hcontext]

def withArray (key : String) (n : Nat) : List (String × Encoded) :=
  [("general.architecture", .string "llama"), ("llama.block_count", .unsigned 1), ("llama.embedding_length", .unsigned 8),
    ("llama.attention.head_count", .unsigned 2), (key, .array .sized n)]

theorem resized_withArray {allowed : String → Nat → Prop} {key : String} (htokens : key ≠ "tokenizer.ggml.tokens")
    (hallowed : ∀ n ≤ 2, allowed key n) : List.Forall₂ (Resized allowed) (withArray key 1) (withArray key 2) :=
  .cons (.same _) <| .cons (.same _) <| .cons (.same _) <| .cons (.same _) <|
    .cons (.array _ htokens (hallowed 1 (by decide)) (hallowed 2 (by decide))) .nil

end Maistr0.Shards
