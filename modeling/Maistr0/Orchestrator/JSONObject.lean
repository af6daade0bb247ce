import Mathlib

/-!
# The JSON object in a model's answer

`extractJSONObject` of `task_planning.go`. A text is the list of its bytes, read as characters.
-/

namespace Maistr0.Orchestrator

open List

/-- The variables of the loop. -/
structure ObjectScan where
  depth : Nat := 0
  inString : Bool := false
  escaped : Bool := false

namespace ObjectScan

/-- One turn of the loop; `none` is the return at the closing brace of the object. -/
def turn (q : ObjectScan) (char : Char) : Option ObjectScan :=
  if q.inString && q.escaped then some { q with escaped := false }
  else if q.inString && char == '\\' then some { q with escaped := true }
  else if char == '"' then some { q with inString := !q.inString }
  else if !q.inString && char == '{' then some { q with depth := q.depth + 1 }
  else if !q.inString && char == '}' then
    if q.depth - 1 = 0 then none else some { q with depth := q.depth - 1 }
  else some q

/-- The text up to the return. -/
def scan (q : ObjectScan) : List Char → Option (List Char)
  | [] => none
  | char :: rest =>
    match q.turn char with
    | none => some [char]
    | some q => (scan q rest).map (char :: ·)

end ObjectScan

open ObjectScan

def extractJSONObject (output : List Char) : Except String (List Char) :=
  match output.dropWhile (· != '{') with
  | [] => .error "no JSON object found"
  | text =>
    match scan {} text with
    | none => .error "unterminated JSON object"
    | some object => .ok object

/-! ### The grammar -/

inductive StringText : List Char → Prop
  | nil : StringText []
  | plain {c t} : c ≠ '"' → c ≠ '\\' → StringText t → StringText (c :: t)
  -- The four digits of a unicode escape count as plain characters.
  | escape {c t} : c ∈ "\"\\/bfnrtu".toList → StringText t → StringText ('\\' :: c :: t)

inductive Part
  | object
  | value
  | members
  | elements

def Blank (t : List Char) : Prop :=
  ∀ c ∈ t, c ∈ [' ', '\t', '\n', '\r']

/-- The texts of JSON's grammar. Numbers and names are any texts of the characters that these have. -/
inductive JSONText : Part → List Char → Prop
  | noMembers {w} : Blank w → JSONText .object ('{' :: w ++ ['}'])
  | ofMembers {t} : JSONText .members t → JSONText .object ('{' :: t ++ ['}'])
  | object {t} : JSONText .object t → JSONText .value t
  | noElements {w} : Blank w → JSONText .value ('[' :: w ++ [']'])
  | ofElements {t} : JSONText .elements t → JSONText .value ('[' :: t ++ [']'])
  | string {t} : StringText t → JSONText .value ('"' :: t ++ ['"'])
  | scalar {t} : (∀ c ∈ t, c.isAlphanum ∨ c ∈ ['+', '-', '.']) → JSONText .value t
  | spaced {w t w'} : Blank w → JSONText .value t → Blank w' → JSONText .value (w ++ t ++ w')
  | element {t} : JSONText .value t → JSONText .elements t
  | elements {t t'} : JSONText .value t → JSONText .elements t' → JSONText .elements (t ++ [','] ++ t')
  | member {w t w' t'} : Blank w → StringText t → Blank w' → JSONText .value t' →
      JSONText .members (w ++ ('"' :: t ++ ['"']) ++ w' ++ [':'] ++ t')
  | members {t t'} : JSONText .members t → JSONText .members t' → JSONText .members (t ++ [','] ++ t')

/-! ### What the loop does with it -/

/-- Inside an object and outside strings, the loop goes over the text and is then where it was before. -/
def Passes (t : List Char) : Prop :=
  ∀ depth rest, scan ⟨depth + 1, false, false⟩ (t ++ rest) = (scan ⟨depth + 1, false, false⟩ rest).map (t ++ ·)

namespace Passes

variable {t t' : List Char}

theorem append (h : Passes t) (h' : Passes t') : Passes (t ++ t') := by
  intro depth rest
  rw [append_assoc, h, h', Option.map_map]
  simp [Function.comp_def]

theorem single {c : Char} (hc : c ∉ ['"', '{', '}']) : Passes [c] := by
  intro depth rest
  simp at hc
  simp [scan, turn, hc]

theorem plain {allowed : Char → Prop} (h : ∀ c ∈ t, allowed c) (hallowed : ∀ c ∈ ['"', '{', '}'], ¬ allowed c) :
    Passes t := by
  induction t with
  | nil => exact fun _ _ => by simp
  | cons c t ih =>
    obtain ⟨hc, ht⟩ := forall_mem_cons.mp h
    exact (single fun hmem => hallowed c hmem hc).append (ih ht)

theorem blank (h : Blank t) : Passes t := plain h (by simp)

theorem string (h : StringText t) : Passes ('"' :: t ++ ['"']) := by
  have hinside : ∀ depth rest, scan ⟨depth, true, false⟩ (t ++ '"' :: rest) =
      (scan ⟨depth, false, false⟩ rest).map (t ++ '"' :: ·) := by
    intro depth rest
    induction h with
    | nil => simp [scan, turn]
    | plain hquote hslash _ ih => simp [scan, turn, hquote, hslash, ih, Function.comp_def]
    | escape _ _ ih => simp [scan, turn, ih, Function.comp_def]
  intro depth rest
  simp [scan, turn, hinside, Function.comp_def]

theorem braces (h : Passes t) : Passes ('{' :: t ++ ['}']) := by
  intro depth rest
  simp [scan, turn, h (depth + 1), Function.comp_def]

theorem ofJSONText {part : Part} (h : JSONText part t) : Passes t := by
  induction h with
  | noMembers hw => exact (blank hw).braces
  | ofMembers _ ih => exact ih.braces
  | object _ ih => exact ih
  | noElements hw => exact ((single (by decide)).append (blank hw)).append (single (by decide))
  | ofElements _ ih => exact ((single (by decide)).append ih).append (single (by decide))
  | string ht => exact string ht
  | scalar ht => exact plain ht (by simp [Char.isAlphanum])
  | spaced hw _ hw' ih => exact ((blank hw).append ih).append (blank hw')
  | element _ ih => exact ih
  | elements _ _ ih ih' => exact (ih.append (single (by decide))).append ih'
  | member hw ht hw' _ ih =>
    exact ((((blank hw).append (string ht)).append (blank hw')).append (single (by decide))).append ih
  | members _ _ ih ih' => exact (ih.append (single (by decide))).append ih'

end Passes

/-! ### What it returns -/

def outsideStrings : Bool → List Char → List Char
  | _, [] => []
  | false, c :: t => if c = '"' then outsideStrings true t else c :: outsideStrings false t
  | true, '\\' :: _ :: t => outsideStrings true t
  | true, c :: t => outsideStrings (c ≠ '"') t

/-- With `depth` braces open before it, the text closes each brace once and none that is not open. -/
def Balanced : Nat → List Char → Prop
  | depth, [] => depth = 0
  | depth, c :: t =>
    if c = '{' then Balanced (depth + 1) t else if c = '}' then 0 < depth ∧ Balanced (depth - 1) t else Balanced depth t

namespace ObjectScan

variable {q q' : ObjectScan} {c : Char} {t object : List Char}

/-- The loop has read the first brace and not yet returned. -/
def Within (q : ObjectScan) : Prop :=
  0 < q.depth ∧ (q.escaped → q.inString)

def outside (q : ObjectScan) (t : List Char) : List Char :=
  outsideStrings q.inString (if q.escaped then t.drop 1 else t)

theorem Within.turn (hq : q.Within) (hturn : q.turn c = some q') :
    q'.Within ∧ (Balanced q'.depth (q'.outside t) → Balanced q.depth (q.outside (c :: t))) := by
  have hescape : outsideStrings true ('\\' :: t) = outsideStrings true (t.drop 1) := by cases t <;> rfl
  obtain ⟨depth, inString, escaped⟩ := q
  rw [ObjectScan.turn] at hturn
  -- One case for each case of the switch.
  split_ifs at hturn <;> cases hturn <;> cases inString <;> cases escaped <;>
    simp_all [Within, outside, Balanced, outsideStrings]
  omega

theorem Within.close (hq : q.Within) (hturn : q.turn c = none) : Balanced q.depth (q.outside [c]) := by
  rw [ObjectScan.turn] at hturn
  grind [Within, outside, Balanced, outsideStrings]

theorem Within.scan {text : List Char} (hq : q.Within) (hscan : q.scan text = some object) :
    object <+: text ∧ Balanced q.depth (q.outside object) := by
  induction text generalizing q object with
  | nil => exact nomatch hscan
  | cons c rest ih =>
    rw [ObjectScan.scan] at hscan
    cases hturn : q.turn c with
    | none =>
      rw [hturn] at hscan
      cases hscan
      exact ⟨by simp, hq.close hturn⟩
    | some q' =>
      rw [hturn] at hscan
      obtain ⟨object', hscan', rfl⟩ := Option.map_eq_some_iff.mp hscan
      obtain ⟨hq', hcons⟩ := hq.turn hturn
      obtain ⟨hpart, hbalanced⟩ := ih hq' hscan'
      exact ⟨(prefix_cons_inj c).mpr hpart, hcons hbalanced⟩

end ObjectScan

theorem extractJSONObject_eq {before : List Char} (hbefore : '{' ∉ before) (text : List Char) :
    extractJSONObject (before ++ '{' :: text) =
      (scan ⟨1, false, false⟩ text).elim (.error "unterminated JSON object") fun object => .ok ('{' :: object) := by
  have hdrop : (before ++ '{' :: text).dropWhile (· != '{') = '{' :: text := by
    rw [dropWhile_append_of_pos fun c hc => by simpa using ne_of_mem_of_not_mem hc hbefore]
    rfl
  rw [extractJSONObject, hdrop]
  cases h : scan ⟨1, false, false⟩ text <;> simp [scan, turn, h]

/-- The first object of a text is found, and whatever is found begins at the first brace and is balanced. -/
theorem extractJSONObject_first :
    (∀ before object after, '{' ∉ before → JSONText .object object →
      extractJSONObject (before ++ object ++ after) = .ok object) ∧
    ∀ output object, extractJSONObject output = .ok object →
      ∃ before after, output = before ++ object ++ after ∧ '{' ∉ before ∧ object.head? = some '{' ∧
        Balanced 0 (outsideStrings false object) := by
  constructor
  · intro before object after hbefore hobject
    obtain ⟨t, rfl, ht⟩ : ∃ t, object = '{' :: t ++ ['}'] ∧ Passes t := by
      cases hobject with
      | noMembers hw => exact ⟨_, rfl, .blank hw⟩
      | ofMembers ht => exact ⟨_, rfl, .ofJSONText ht⟩
    have hscan := ht 0 ('}' :: after)
    simp [extractJSONObject_eq hbefore, hscan, scan, turn]
  · intro output object hok
    by_cases hbrace : '{' ∈ output
    · obtain ⟨before, text, rfl, hbefore⟩ := eq_append_cons_of_mem hbrace
      rw [extractJSONObject_eq hbefore] at hok
      cases hscan : scan ⟨1, false, false⟩ text with
      | none => simp [hscan] at hok
      | some object' =>
        rw [hscan] at hok
        cases hok
        obtain ⟨⟨after, rfl⟩, hbalanced⟩ := Within.scan (q := ⟨1, false, false⟩) ⟨Nat.one_pos, nofun⟩ hscan
        exact ⟨before, after, by simp, hbefore, rfl, by simpa [Balanced, outsideStrings, outside] using hbalanced⟩
    · have hdrop : output.dropWhile (· != '{') = [] :=
        dropWhile_eq_nil_iff.mpr fun c hc => by simpa using ne_of_mem_of_not_mem hc hbrace
      simp [extractJSONObject, hdrop] at hok

end Maistr0.Orchestrator
