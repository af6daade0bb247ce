import Maistr0.Lib.Paging
import Maistr0.Memory.Machine

/-!
# Pages of history

`ExperiencesPage` for a filter without a query, `DialoguesPage` and `FactsPage` of both stores. A page is cut from the
listing by number and by bytes, and the cursor it returns is the last record on it. `size` stands for the length of a
record's JSON text and `equalFold` for `strings.EqualFold`.
-/

namespace Maistr0.Memory

open Go List

structure SearchFilter where
  taskType : String := ""
  nodeID : String := ""
  model : String := ""
  tool : String := ""
  successOnly : Bool := false

structure HistoryCursor where
  id : Nat := 0
  key : String := ""
  updatedAt : Time := 0

structure PageOptions where
  cursor : HistoryCursor := {}
  limit : Int
  maxBytes : Int

structure HistoryPage (α : Type) where
  items : List α := []
  nextCursor : HistoryCursor := {}
  hasMore : Bool := false

def errPageRecordTooLarge : String := "memory: one record exceeds the page response limit"

def normalizePageOptions (options : PageOptions) : PageOptions :=
  { options with
    limit := if options.limit ≤ 0 then 50 else options.limit
    maxBytes := if options.maxBytes ≤ 0 then 64 * 2 ^ 20 else options.maxBytes }

def boundedPageItemSize (size : Nat) (used : Int) (count : Nat) (maxBytes : Int) : Except String (Int × Bool) :=
  if maxBytes < size then
    if 0 < count then .ok (0, false) else .error errPageRecordTooLarge
  else
    let required : Int := if 0 < count then size + 1 else size
    .ok (required, used + required ≤ maxBytes)

def experienceMatchesFilter (equalFold : String → String → Bool) (e : Experience) (filter : SearchFilter) : Bool :=
  (filter.taskType = "" || equalFold e.taskType filter.taskType) && (filter.nodeID = "" || e.nodeID = filter.nodeID) &&
    (filter.model = "" || equalFold e.model filter.model) && (filter.tool = "" || equalFold e.tool filter.tool) &&
    (!filter.successOnly || e.success)

section Loop

variable {α : Type} (size : α → Nat) (cursorOf : α → HistoryCursor)

/-- The loop of every page, over the records that follow the cursor, with the page so far and the bytes used. -/
def fillPage (options : PageOptions) : List α → HistoryPage α → Int → Except String (HistoryPage α)
  | [], page, _ => .ok page
  | x :: rest, page, used =>
    if page.items.length = options.limit then .ok { page with hasMore := true }
    else
      match boundedPageItemSize (size x) used page.items.length options.maxBytes with
      | .error err => .error err
      | .ok (_, false) => .ok { page with hasMore := true }
      | .ok (required, true) =>
        fillPage options rest { page with items := page.items ++ [x], nextCursor := cursorOf x } (used + required)

variable {size cursorOf} {options : PageOptions} {xs : List α} {page page' : HistoryPage α} {used : Int}

theorem fillPage_ok (hlimit : 0 < options.limit) (hused : page.items = [] → used = 0) (hpage : page.hasMore = false)
    (h : fillPage size cursorOf options xs page used = .ok page') :
    ∃ taken rest, xs = taken ++ rest ∧ page'.items = page.items ++ taken ∧
      page'.nextCursor = (taken.getLast?.map cursorOf).getD page.nextCursor ∧
      (page'.hasMore = false → rest = []) ∧ (page'.hasMore = true → rest ≠ [] ∧ page'.items ≠ []) := by
  induction xs generalizing page used with
  | nil =>
    cases h
    exact ⟨[], [], rfl, by simp, rfl, fun _ => rfl, fun hmore => by simp [hpage] at hmore⟩
  | cons x xs ih =>
    -- where the page is cut, something is on it
    have hcut : page.items ≠ [] → ∃ taken rest, x :: xs = taken ++ rest ∧ page.items = page.items ++ taken ∧
        page.nextCursor = (taken.getLast?.map cursorOf).getD page.nextCursor ∧ (true = false → rest = []) ∧
        (true = true → rest ≠ [] ∧ page.items ≠ []) :=
      fun hne => ⟨[], x :: xs, rfl, by simp, rfl, nofun, fun _ => ⟨by simp, hne⟩⟩
    rw [fillPage] at h
    split at h
    · rename_i hfull
      cases h
      refine hcut fun hnil => ?_
      rw [hnil, length_nil] at hfull
      omega
    · match hsize : boundedPageItemSize (size x) used page.items.length options.maxBytes, h with
      | .ok (_, false), rfl =>
        refine hcut fun hnil => ?_
        simp only [boundedPageItemSize, hnil, length_nil, lt_irrefl, if_false, hused hnil, zero_add] at hsize
        split at hsize
        · cases hsize
        · simp only [Except.ok.injEq, Prod.mk.injEq, decide_eq_false_iff_not] at hsize
          omega
      | .ok (required, true), h =>
        obtain ⟨taken, rest, rfl, hitems, hcursor, hlast, hmore⟩ := ih (by simp) (by exact hpage) h
        refine ⟨x :: taken, rest, rfl, by simp [hitems], ?_, hlast, hmore⟩
        rw [hcursor, getLast?_cons]
        cases taken.getLast? <;> rfl

theorem fillPage_error {err : String} (h : fillPage size cursorOf options xs page used = .error err) :
    err = errPageRecordTooLarge ∧ ∃ x ∈ xs, options.maxBytes < size x := by
  induction xs generalizing page used with
  | nil => cases h
  | cons x xs ih =>
    rw [fillPage] at h
    split at h
    · cases h
    match hsize : boundedPageItemSize (size x) used page.items.length options.maxBytes, h with
    | .error err, rfl =>
      rw [boundedPageItemSize] at hsize
      split at hsize
      · rename_i hlarge
        split at hsize
        · cases hsize
        · cases hsize
          exact ⟨rfl, x, mem_cons_self, hlarge⟩
      · cases hsize
    | .ok (required, true), h =>
      obtain ⟨rfl, y, hy, hlarge⟩ := ih h
      exact ⟨rfl, y, mem_cons_of_mem _ hy, hlarge⟩

end Loop

/-! ### Following the cursor -/

section Following

variable {α β : Type} [LinearOrder β]

def request (page : PageOptions → Except String (HistoryPage α)) (limit maxBytes : Int) (cursor : HistoryCursor) :
    Except String (List α × HistoryCursor × Bool) :=
  (page { cursor, limit, maxBytes }).map fun p => (p.items, p.nextCursor, p.hasMore)

/-- A reader who follows the cursor, while the listing may change from request to request, comes to an end: at a record
that is too large for a page, or with pages that are in falling order, none but the last of them empty, that hold
nothing else than matching records and all those that were there at every request. -/
def Enumerates (page : Nat → PageOptions → Except String (HistoryPage α)) (holds : Nat → α → Prop) (rank : α → β)
    (size : α → Nat) (limit maxBytes : Int) : Prop :=
  ∃ n, (∃ k < n, ∃ x, holds k x ∧ (normalizePageOptions { limit, maxBytes }).maxBytes < size x ∧
      Lib.Paging.traverse (fun k => request (page k) limit maxBytes) (List.range n) {} =
        some (.error errPageRecordTooLarge)) ∨
    ∃ pages, Lib.Paging.traverse (fun k => request (page k) limit maxBytes) (List.range n) {} = some (.ok pages) ∧
      (∀ p ∈ pages.dropLast, p ≠ []) ∧ pages.flatten.Pairwise (fun x y => rank y < rank x) ∧
      (∀ x ∈ pages.flatten, ∃ k < n, holds k x) ∧ ∀ x, (∀ k < pages.length, holds k x) → x ∈ pages.flatten

structure Cut (page : Nat → PageOptions → Except String (HistoryPage α)) (content : Nat → List α)
    (follows : HistoryCursor → α → Bool) (rank : α → β) (size : α → Nat) (cursorOf : α → HistoryCursor) : Prop where
  page : ∀ k o, page k o = fillPage size cursorOf (normalizePageOptions o) ((content k).filter (follows o.cursor)) {} 0
  sorted : ∀ k, (content k).Pairwise fun x y => rank y < rank x
  start : ∀ x, follows {} x = true
  follows_of : ∀ {c x y}, follows c x = true → rank y < rank x → follows c y = true
  cursor : ∀ {k x y}, x ∈ content k → y ∈ content k → rank y < rank x →
    ∀ z, follows (cursorOf x) z = true ↔ rank z < rank x

namespace Cut

variable {page : Nat → PageOptions → Except String (HistoryPage α)} {content : Nat → List α}
  {follows : HistoryCursor → α → Bool} {rank : α → β} {size : α → Nat} {cursorOf : α → HistoryCursor}
  {limit maxBytes : Int}

section

variable (h : Cut page content follows rank size cursorOf)

include h

theorem error {k : Nat} {c : HistoryCursor} {err : String} (hnext : request (page k) limit maxBytes c = .error err) :
    err = errPageRecordTooLarge ∧ ∃ x ∈ content k, (normalizePageOptions { limit, maxBytes }).maxBytes < size x := by
  rw [request, h.page] at hnext
  match hfill : fillPage size cursorOf (normalizePageOptions { cursor := c, limit, maxBytes })
    ((content k).filter (follows c)) {} 0, hnext with
  | .error err', hnext =>
    obtain ⟨rfl, x, hx, hlarge⟩ := fillPage_error hfill
    exact ⟨(Except.error.inj hnext).symm, x, (mem_filter.mp hx).1, hlarge⟩

theorem ordered :
    Lib.Paging.Ordered (fun x y => rank y < rank x) content follows fun k => request (page k) limit maxBytes := by
  have hfilled : ∀ {k c items c' more}, request (page k) limit maxBytes c = .ok (items, c', more) →
      ∃ rest, (content k).filter (follows c) = items ++ rest ∧ c' = (items.getLast?.map cursorOf).getD {} ∧
        (more = false → rest = []) ∧ (more = true → rest ≠ [] ∧ items ≠ []) := by
    intro k c items c' more hnext
    rw [request, h.page] at hnext
    match hfill : fillPage size cursorOf (normalizePageOptions { cursor := c, limit, maxBytes })
      ((content k).filter (follows c)) {} 0, hnext with
    | .ok p, hnext =>
      obtain ⟨rfl, rfl, rfl⟩ : p.items = items ∧ p.nextCursor = c' ∧ p.hasMore = more := by simpa [Except.map] using hnext
      obtain ⟨taken, rest, hrest, hitems, hcursor, hfacts⟩ := fillPage_ok (by simp [normalizePageOptions]; split <;> omega)
        (fun _ => rfl) rfl hfill
      obtain rfl : p.items = taken := hitems
      exact ⟨rest, hrest, hcursor, hfacts⟩
  refine ⟨fun x => lt_irrefl _, fun hxy hyz => hyz.trans hxy, h.sorted, h.follows_of, fun hnext => ?_, fun hnext => ?_⟩
  · obtain ⟨rest, hrest, -, hlast, -⟩ := hfilled hnext
    rw [hrest, hlast rfl, append_nil]
  rename_i k c items c'
  obtain ⟨rest, hrest, rfl, -, hmore⟩ := hfilled hnext
  obtain ⟨hne, hitems⟩ := hmore rfl
  obtain ⟨front, x, rfl⟩ := (eq_nil_or_concat' items).resolve_left hitems
  refine ⟨front, x, rest, rfl, hrest, fun z => ?_⟩
  -- something follows on the next page, so the cursor is one that can be told from the empty one
  obtain ⟨y, later, rfl⟩ := exists_cons_of_ne_nil hne
  have hmem : ∀ w ∈ front ++ [x] ++ y :: later, w ∈ content k := fun w hw => (mem_filter.mp (hrest ▸ hw)).1
  have hlt : rank y < rank x :=
    (pairwise_append.mp (hrest ▸ (h.sorted k).filter (follows c))).2.2 x (by simp) y (by simp)
  simpa using h.cursor (hmem x (by simp)) (hmem y (by simp)) hlt z

theorem enumerates {n : Nat}
    (hends : Lib.Paging.traverse (fun k => request (page k) limit maxBytes) (range n) {} ≠ none) :
    Enumerates page (fun k x => x ∈ content k) rank size limit maxBytes := by
  refine ⟨n, ?_⟩
  match hrun : Lib.Paging.traverse (fun k => request (page k) limit maxBytes) (range n) {} with
  | none => exact absurd hrun hends
  | some (.error err) =>
    obtain ⟨k, hk, _, herr⟩ := Lib.Paging.traverse_error hrun
    obtain ⟨rfl, x, hx, hlarge⟩ := h.error herr
    exact .inl ⟨k, mem_range.mp hk, x, hx, hlarge, rfl⟩
  | some (.ok pages) =>
    obtain ⟨hfull, hsorted, hread, hall⟩ := h.ordered.read hrun
    refine .inr ⟨pages, rfl, hfull, hsorted, fun x hx => ?_, fun x hx => hall x (h.start x) fun k hk => ?_⟩
    · obtain ⟨-, k, hk, hx⟩ := hread x hx
      exact ⟨k, mem_range.mp hk, hx⟩
    · rw [take_range, mem_range] at hk
      exact hx k (by omega)

end

/-- A listing that does not change comes to an end whatever it is ordered by. -/
theorem enumerates_const {xs : List α} (h : Cut page (fun _ => xs) follows rank size cursorOf) :
    Enumerates page (fun _ x => x ∈ xs) rank size limit maxBytes := by
  refine h.enumerates (n := (xs.filter (follows {})).length + 1) fun hnone => ?_
  rcases Lib.Paging.Serves.traverse (fun k _ => h.ordered.serves k) (by rw [length_range]; exact Nat.lt_succ_self _)
    with ⟨-, -, c, err, -, hrun⟩ | ⟨pages, hrun, -⟩
  · exact nomatch hrun.symm.trans hnone
  · exact nomatch hrun.symm.trans hnone

theorem enumerates_falling {rank : α → Nat} (h : Cut page content follows rank size cursorOf) :
    Enumerates page (fun k x => x ∈ content k) rank size limit maxBytes := by
  refine h.enumerates (n := ((content 0).map rank).sum + 2) ?_
  rw [range_succ_eq_map]
  refine h.ordered.ends (fun {x y} (hlt : rank y < rank x) => hlt) fun x hx _ => ?_
  have hle := single_le_sum (fun _ _ => Nat.zero_le _) _ (mem_map_of_mem (f := rank) hx)
  rw [length_map, length_range]
  omega

end Cut

end Following

/-! ### The pages of the stores -/

variable [CaseFolding]

section Experiences

variable (equalFold : String → String → Bool) (size : Experience → Nat)

def MemoryStore.experiencesPage (s : MemoryStore) (filter : SearchFilter) (options : PageOptions) :
    Except String (HistoryPage Experience) :=
  let options := normalizePageOptions options
  fillPage size (fun e => { id := e.id }) options (s.experiences.reverse.filter fun e =>
    experienceMatchesFilter equalFold e filter && (options.cursor.id = 0 || e.id < options.cursor.id)) {} 0

/-- The bucket by falling key, from the cursor on. -/
def BoltStore.experiencesByIDPage (s : BoltStore) (filter : SearchFilter) (options : PageOptions) :
    Except String (HistoryPage Experience) :=
  let options := normalizePageOptions options
  fillPage size (fun e => { id := e.id }) options (s.snapshot.experiences.filter fun e =>
    experienceMatchesFilter equalFold e filter && (options.cursor.id = 0 || e.id < options.cursor.id)) {} 0

end Experiences

/-- `dialogueFollowsCursor` and `factFollowsCursor`. -/
def followsCursor (updatedAt : Time) (key : String) (cursor : HistoryCursor) : Bool :=
  if updatedAt = cursor.updatedAt then key < cursor.key else updatedAt < cursor.updatedAt

def sortPageIndex {α : Type} (updatedAt : α → Time) (key : α → String) (items : List α) : List α :=
  items.insertionSort fun a b => toLex (updatedAt b, key b) ≤ toLex (updatedAt a, key a)

def dialoguesPage (size : DialogueRecord → Nat) (dialogues : Dialogues) (options : PageOptions) :
    Except String (HistoryPage DialogueRecord) :=
  let options := normalizePageOptions options
  fillPage size (fun d => { key := d.id, updatedAt := d.updatedAt }) options
    ((sortPageIndex DialogueRecord.updatedAt DialogueRecord.id dialogues.vals).filter fun d =>
      options.cursor.key = "" || followsCursor d.updatedAt d.id options.cursor) {} 0

def factsPageOf (size : Fact → Nat) (index : List Fact) (options : PageOptions) : Except String (HistoryPage Fact) :=
  let options := normalizePageOptions options
  fillPage size (fun f => { key := f.mapKey, updatedAt := f.updatedAt }) options
    ((sortPageIndex Fact.updatedAt Fact.mapKey index).filter fun f =>
      options.cursor.key = "" || followsCursor f.updatedAt f.mapKey options.cursor) {} 0

def MemoryStore.factsPage (size : Fact → Nat) (s : MemoryStore) (scope : String) (options : PageOptions) :
    Except String (HistoryPage Fact) :=
  factsPageOf size (s.facts.vals.filter fun f => scope = "" || f.scope = scope) options

def BoltStore.factsPage (size : Fact → Nat) (s : BoltStore) (scope : String) (options : PageOptions) :
    Except String (HistoryPage Fact) :=
  factsPageOf size ((s.facts.vals.filter fun f => scope = "" || hasPrefix f.mapKey (scope ++ "|")).filter fun f =>
    scope = "" || f.scope = scope) options

namespace Store

def experiencesPage (equalFold : String → String → Bool) (size : Experience → Nat) (filter : SearchFilter) :
    Store → PageOptions → Except String (HistoryPage Experience)
  | memory s => s.experiencesPage equalFold size filter
  | bolt s => s.experiencesByIDPage equalFold size filter

def dialoguesPage (size : DialogueRecord → Nat) : Store → PageOptions → Except String (HistoryPage DialogueRecord)
  | memory s => Memory.dialoguesPage size s.dialogues
  | bolt s => Memory.dialoguesPage size s.dialogues

def factsPage (size : Fact → Nat) (scope : String) : Store → PageOptions → Except String (HistoryPage Fact)
  | memory s => s.factsPage size scope
  | bolt s => s.factsPage size scope

def dialogues : Store → Dialogues
  | memory s => s.dialogues
  | bolt s => s.dialogues

/-- The IDs of a `memoryStore` rise; a `boltStore` files its experiences by ID. -/
def Rising : Store → Prop
  | memory s => s.experiences.Pairwise fun e e' => e.id < e'.id
  | bolt _ => True

end Store

/-! ### What the pages hold -/

omit [CaseFolding] in
theorem falling_insertionSort {α β : Type} [LinearOrder β] {rank : α → β} {xs : List α} (h : (xs.map rank).Nodup) :
    (xs.insertionSort fun a b => rank b ≤ rank a).Pairwise fun a b => rank b < rank a := by
  have : Std.Total fun a b : α => rank b ≤ rank a := ⟨fun a b => le_total _ _⟩
  have : IsTrans α fun a b => rank b ≤ rank a := ⟨fun a b c hab hbc => hbc.trans hab⟩
  have hsorted := pairwise_insertionSort (fun a b => rank b ≤ rank a) xs
  have hdistinct : (xs.insertionSort fun a b => rank b ≤ rank a).Pairwise fun a b => rank a ≠ rank b :=
    pairwise_map.mp (((perm_insertionSort _ xs).map rank).nodup_iff.mpr h)
  exact (hsorted.and hdistinct).imp fun hab => lt_of_le_of_ne hab.1 (Ne.symm hab.2)

theorem cut_experiences (equalFold : String → String → Bool) (size : Experience → Nat) (filter : SearchFilter)
    {stores : Nat → Store} (hstores : ∀ k, (stores k).Rising) :
    Cut (fun k => (stores k).experiencesPage equalFold size filter)
      (fun k => (stores k).snapshot.experiences.filter fun e => experienceMatchesFilter equalFold e filter)
      (fun c e => c.id = 0 || e.id < c.id) Experience.id size fun e => { id := e.id } where
  page k o := by
    simp only [filter_filter, Bool.and_comm _ (experienceMatchesFilter _ _ _)]
    cases stores k with
    | memory | bolt => rfl
  sorted k := by
    refine Pairwise.filter _ ?_
    match stores k, hstores k with
    | .memory s, hrising => exact pairwise_reverse.mpr hrising
    | .bolt s, _ => exact falling_insertionSort s.experiences.nodup
  start _ := rfl
  follows_of hx hlt := by
    simp only [Bool.or_eq_true, decide_eq_true_eq] at hx ⊢
    omega
  cursor hx hy hlt z := by
    simp only [Bool.or_eq_true, decide_eq_true_eq]
    omega

omit [CaseFolding] in
theorem followsCursor_iff {updatedAt : Time} {key : String} {cursor : HistoryCursor} :
    followsCursor updatedAt key cursor = true ↔ toLex (updatedAt, key) < toLex (cursor.updatedAt, cursor.key) := by
  rw [followsCursor, Prod.Lex.toLex_lt_toLex]
  split
  · rename_i hsame
    simp [hsame]
  · rename_i hother
    simp [hother]

omit [CaseFolding] in
theorem enumerates_stamped {α : Type} {page : PageOptions → Except String (HistoryPage α)} {updatedAt : α → Time}
    {key : α → String} {size : α → Nat} {index : List α}
    (hpage : ∀ o, page o = fillPage size (fun x => { key := key x, updatedAt := updatedAt x }) (normalizePageOptions o)
      ((sortPageIndex updatedAt key index).filter fun x =>
        o.cursor.key = "" || followsCursor (updatedAt x) (key x) o.cursor) {} 0)
    (hkeys : (index.map key).Nodup) (hnamed : ∀ x ∈ index, key x ≠ "") (limit maxBytes : Int) :
    Enumerates (fun _ => page) (fun _ x => x ∈ index) (fun x => toLex (updatedAt x, key x)) size limit maxBytes := by
  have hcut : Cut (fun _ => page) (fun _ => sortPageIndex updatedAt key index)
      (fun c x => c.key = "" || followsCursor (updatedAt x) (key x) c) (fun x => toLex (updatedAt x, key x)) size
      fun x => { key := key x, updatedAt := updatedAt x } :=
    { page := fun _ => hpage
      sorted := fun _ => falling_insertionSort (Nodup.of_map (fun x => (ofLex x).2) (by rwa [map_map]))
      start := fun _ => rfl
      follows_of := fun hx hlt => by
        simp only [Bool.or_eq_true, decide_eq_true_eq, followsCursor_iff] at hx ⊢
        exact hx.imp_right hlt.trans
      cursor := fun hx _ _ z => by simp [followsCursor_iff, hnamed _ ((mem_insertionSort _).mp hx)] }
  have hall : Enumerates _ _ _ _ limit maxBytes := hcut.enumerates_const
  simpa only [sortPageIndex, mem_insertionSort] using hall

omit [CaseFolding] in
theorem index_factsPage (facts : Facts) (scope : String) :
    (facts.vals.filter fun f => scope = "" || hasPrefix f.mapKey (scope ++ "|")).filter (fun f => scope = "" || f.scope = scope) =
      facts.vals.filter fun f => scope = "" || f.scope = scope := by
  rw [filter_filter]
  refine filter_congr fun f _ => ?_
  by_cases hscope : f.scope = scope
  · simp [hscope, hasPrefix, factKey]
  · by_cases hall : scope = "" <;> simp [hscope, hall]

end Maistr0.Memory

namespace Maistr0.Memory

end Maistr0.Memory
