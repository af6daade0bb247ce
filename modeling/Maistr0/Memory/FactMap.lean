import Maistr0.Memory.Stores

/-!
# Facts as a map

Both stores file a fact under its scope and its key, joined by a bar. On these places every call is a call on a map. A
caller names a pair, and two pairs can have one place: a bar may stand in either part.
-/

namespace Maistr0.Memory

open Go Function

inductive FactCall where
  | putFact (f : Fact) (now : Instant)
  | getFact (scope key : String)
  | deleteFact (scope key : String)

namespace FactCall

def toCall : FactCall → Call
  | putFact f now => .putFact f now
  | getFact scope key => .getFact scope key
  | deleteFact scope key => .deleteFact scope key

section

variable {κ : Type} [DecidableEq κ] (place : String → String → κ)

def apply (values : κ → Option String) : FactCall → κ → Option String
  | putFact f _ => if f.key = "" then values else Function.update values (place (defaultScope f.scope) f.key) (some f.value)
  | getFact _ _ => values
  | deleteFact scope key => Function.update values (place (defaultScope scope) key) none

def after (calls : List FactCall) : κ → Option String := calls.foldl (apply place) fun _ => none

end

/-- The call does not write to the place of this pair under another pair. -/
def Apart (scope key : String) : FactCall → Prop
  | putFact f _ => factKey (defaultScope f.scope) f.key = factKey scope key → (defaultScope f.scope, f.key) = (scope, key)
  | getFact _ _ => True
  | deleteFact scope' key' => factKey (defaultScope scope') key' = factKey scope key → (defaultScope scope', key') = (scope, key)

/-- The map of places and the map of pairs agree on a pair whose place no other pair has. -/
theorem after_factKey {scope key : String} {calls : List FactCall} (hapart : ∀ c ∈ calls, c.Apart scope key) :
    after factKey calls (factKey scope key) = after Prod.mk calls (scope, key) := by
  have hupdate : ∀ {flat : String → Option String} {values : String × String → Option String} {scope' key' : String}
      {v : Option String}, (factKey scope' key' = factKey scope key → (scope', key') = (scope, key)) →
      flat (factKey scope key) = values (scope, key) →
      update flat (factKey scope' key') v (factKey scope key) = update values (scope', key') v (scope, key) := by
    intro flat values scope' key' v hinj hagree
    by_cases hpair : (scope', key') = (scope, key)
    · obtain ⟨rfl, rfl⟩ := Prod.mk.inj hpair
      simp
    · rw [update_of_ne (Ne.symm (mt hinj hpair)), update_of_ne (Ne.symm hpair), hagree]
  unfold after
  generalize hflat : (fun _ => none : String → Option String) = flat
  generalize hvalues : (fun _ => none : String × String → Option String) = values
  have hagree : flat (factKey scope key) = values (scope, key) := by rw [← hflat, ← hvalues]
  clear hflat hvalues
  induction calls generalizing flat values with
  | nil => exact hagree
  | cons c calls ih =>
    refine ih (fun c' hc' => hapart c' (List.mem_cons_of_mem _ hc')) _ _ ?_
    have hc := hapart c List.mem_cons_self
    cases c with
    | putFact f now =>
      by_cases hkey : f.key = ""
      · simpa only [apply, if_pos hkey] using hagree
      · simpa only [apply, if_neg hkey] using hupdate hc hagree
    | getFact => exact hagree
    | deleteFact => exact hupdate hc hagree

/-- Scopes without a bar keep the places apart. -/
theorem factKey_inj {scope scope' key key' : String} (hscope : '|' ∉ scope.toList) (hscope' : '|' ∉ scope'.toList)
    (h : factKey scope' key' = factKey scope key) : (scope', key') = (scope, key) := by
  have hlist : scope'.toList ++ '|' :: key'.toList = scope.toList ++ '|' :: key.toList := by
    simpa [factKey] using congrArg String.toList h
  rw [List.append_eq_append_iff] at hlist
  obtain ⟨mid, hleft, hright⟩ | ⟨mid, hleft, hright⟩ := hlist
  · cases mid with
    | nil => simp_all [String.toList_inj]
    | cons c mid => simp_all
  · cases mid with
    | nil => simp_all [String.toList_inj]
    | cons c mid => simp_all

end FactCall

open FactCall

/-- What a call does to the facts of a store. A fact that is read is filed again with its hit counted. -/
inductive Rewrites (facts : Facts) : FactCall → Facts → Prop
  | refused {f : Fact} {now : Instant} (hkey : f.key = "") : Rewrites facts (.putFact f now) facts
  | put {f : Fact} {now : Instant} (g : Fact) (hkey : f.key ≠ "") (hplace : g.mapKey = factKey (defaultScope f.scope) f.key)
      (hvalue : g.value = f.value) : Rewrites facts (.putFact f now) (facts.put g)
  | missed (scope key : String) : Rewrites facts (.getFact scope key) facts
  | hit {scope key : String} {f : Fact} (g : Fact) (hget : facts.get? (factKey (defaultScope scope) key) = some f)
      (hplace : g.mapKey = f.mapKey) (hvalue : g.value = f.value) : Rewrites facts (.getFact scope key) (facts.put g)
  | deleted (scope key : String) : Rewrites facts (.deleteFact scope key) (facts.erase (factKey (defaultScope scope) key))

theorem Rewrites.values {facts facts' : Facts} {c : FactCall} (h : Rewrites facts c facts') :
    (fun slot => (facts'.get? slot).map Fact.value) = c.apply factKey fun slot => (facts.get? slot).map Fact.value := by
  have hput : ∀ g : Fact, (fun slot => ((facts.put g).get? slot).map Fact.value) =
      update (fun slot => (facts.get? slot).map Fact.value) g.mapKey (some g.value) := by
    intro g
    rw [Lib.Keyed.get?_put_eq_update]
    exact comp_update (Option.map Fact.value) facts.get? g.mapKey (some g)
  cases h with
  | refused hkey => simp only [FactCall.apply, if_pos hkey]
  | put g hkey hplace hvalue => simp only [FactCall.apply, if_neg hkey, hput, hplace, hvalue]
  | missed => rfl
  | @hit scope key f g hget hplace hvalue =>
    rw [hput, hplace, hvalue, Lib.Keyed.keyOf_get? hget]
    refine update_eq_self_iff.mpr ?_
    simp only [hget, Option.map_some]
  | deleted scope key =>
    funext slot
    simp only [FactCall.apply, update_apply, Lib.Keyed.get?_erase, eq_comm (a := slot)]
    split <;> rfl

namespace Store

variable [CaseFolding]

def getFact (s : Store) (scope key : String) : Except String Fact :=
  match s with
  | memory s => (s.getFact scope key).1
  | bolt s => (s.getFact scope key).1

def values (s : Store) (slot : String) : Option String := (s.facts.get? slot).map Fact.value

theorem rewrites_call (s : Store) (c : FactCall) : Rewrites s.facts c (s.call c.toCall).facts := by
  cases s with
  | memory s =>
    cases c with
    | putFact f now =>
      by_cases hkey : f.key = ""
      · simpa only [call, toCall, Call.onMemory, MemoryStore.putFact, if_pos hkey] using .refused hkey
      · simpa only [call, toCall, Call.onMemory, MemoryStore.putFact, if_neg hkey] using .put _ hkey rfl rfl
    | getFact scope key =>
      cases hget : s.facts.get? (factKey (defaultScope scope) key) with
      | none => simpa only [call, toCall, Call.onMemory, MemoryStore.getFact, hget] using .missed scope key
      | some f => simpa only [call, toCall, Call.onMemory, MemoryStore.getFact, hget] using .hit _ hget rfl rfl
    | deleteFact scope key => exact .deleted scope key
  | bolt s =>
    cases c with
    | putFact f now =>
      by_cases hkey : f.key = ""
      · simpa only [call, toCall, Call.onBolt, BoltStore.putFact, if_pos hkey] using .refused hkey
      · simpa only [call, toCall, Call.onBolt, BoltStore.putFact, if_neg hkey] using .put _ hkey rfl rfl
    | getFact scope key =>
      cases hget : s.facts.get? (factKey (defaultScope scope) key) with
      | none => simpa only [call, toCall, Call.onBolt, BoltStore.getFact, hget] using .missed scope key
      | some f => simpa only [call, toCall, Call.onBolt, BoltStore.getFact, hget] using .hit _ hget rfl rfl
    | deleteFact scope key => exact .deleted scope key

def IsNew (s : Store) : Prop := ∃ owner, s = memory (newInMemoryStore owner) ∨ s = bolt (openBoltStore owner)

def afterFacts (s : Store) (calls : List FactCall) : Store := calls.foldl (fun s c => s.call c.toCall) s

theorem values_afterFacts {s : Store} (hs : s.IsNew) (calls : List FactCall) :
    (s.afterFacts calls).values = after factKey calls := by
  have hempty : s.values = fun _ => none := by
    obtain ⟨_, rfl | rfl⟩ := hs <;> rfl
  rw [after, ← hempty]
  exact (List.foldl_hom values fun s c => (s.rewrites_call c).values.symm).symm

def answer : Option String → Except String String
  | some value => .ok value
  | none => .error "memory: record not found"

theorem getFact_eq (s : Store) (scope key : String) :
    (s.getFact scope key).map Fact.value = answer (s.values (factKey (defaultScope scope) key)) := by
  cases s with
  | memory s =>
    cases hget : s.facts.get? (factKey (defaultScope scope) key) <;>
      simp [getFact, MemoryStore.getFact, values, facts, hget, answer, Except.map]
  | bolt s =>
    cases hget : s.facts.get? (factKey (defaultScope scope) key) <;>
      simp [getFact, BoltStore.getFact, values, facts, hget, answer, Except.map]

/-- `GetFact` answers for a pair as a map from pairs would, as long as no call has written to its place under another. -/
theorem facts_are_a_map {s : Store} (hs : s.IsNew) {calls : List FactCall} {scope key : String}
    (hapart : ∀ c ∈ calls, c.Apart (defaultScope scope) key) :
    ((s.afterFacts calls).getFact scope key).map Fact.value =
      answer (after Prod.mk calls (defaultScope scope, key)) := by
  rw [getFact_eq, values_afterFacts hs, after_factKey hapart]

end Store

def twoScopes : List FactCall :=
  [.putFact { key := "k", value := "1" } ⟨1, Int.one_ne_zero⟩,
    .putFact { scope := "s", key := "k", value := "2" } ⟨2, Time.two_ne_zero⟩]

theorem facts_are_a_map_twoScopes :
    (((Store.memory (newInMemoryStore "a")).afterFacts twoScopes).getFact "" "k").map Fact.value = .ok "1" := by
  refine (Store.facts_are_a_map ⟨"a", .inl rfl⟩ fun c hc => ?_).trans (by decide)
  rcases List.mem_pair.mp hc with rfl | rfl
  · exact factKey_inj (by decide) (by decide)
  · exact factKey_inj (by decide) (by decide)

def barredScope : List FactCall := [.putFact { scope := "a|b", key := "c", value := "v" } ⟨1, Int.one_ne_zero⟩]

/-- It is found, and can be deleted, under scope `a` and key `b|c`, where nothing was put. -/
theorem barred_scope_found : after Prod.mk barredScope ("a", "b|c") = none ∧
    (∀ s : Store, s.IsNew → ((s.afterFacts barredScope).getFact "a" "b|c").map Fact.value = .ok "v" ∧
      ((s.afterFacts (barredScope ++ [.deleteFact "a" "b|c"])).getFact "a|b" "c").map Fact.value =
        .error "memory: record not found") := by
  refine ⟨by decide, fun s hs => ?_⟩
  rw [Store.getFact_eq, Store.getFact_eq, Store.values_afterFacts hs, Store.values_afterFacts hs]
  exact ⟨by decide, by decide⟩

end Maistr0.Memory
