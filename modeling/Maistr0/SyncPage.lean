import Maistr0.Lib.Clock
import Maistr0.Lib.Paging

/-!
# Pages of a stamped listing

`syncpage.Next`: the records between a cursor and an upper bound, in the order of origin, sequence
and key, until the page is full. Unstamped records are numbered under the origin `legacy` in the order
of their keys. `encode` stands for the length of a record's JSON text, or the error of encoding it.
-/

namespace Maistr0.SyncPage

open Lib List

structure Record (T : Type) where
  value : T
  origin : String
  sequence : Nat
  key : String

variable {T : Type}

namespace Record

abbrev Unstamped (r : Record T) : Prop := r.origin = "" ∨ r.sequence = 0

abbrev stamp (r : Record T) : String × Nat := (r.origin, r.sequence)

def le (a b : Record T) : Prop :=
  a.origin < b.origin ∨ (a.origin = b.origin ∧ (a.sequence < b.sequence ∨ (a.sequence = b.sequence ∧ a.key ≤ b.key)))

instance : DecidableRel (le (T := T)) := fun a b => by
  unfold le
  infer_instance

instance : Std.Total (le (T := T)) where
  total a b := by
    rcases lt_trichotomy a.origin b.origin with ho | ho | ho
    · exact .inl (.inl ho)
    · rcases lt_trichotomy a.sequence b.sequence with hs | hs | hs
      · exact .inl (.inr ⟨ho, .inl hs⟩)
      · rcases le_total a.key b.key with hk | hk
        · exact .inl (.inr ⟨ho, .inr ⟨hs, hk⟩⟩)
        · exact .inr (.inr ⟨ho.symm, .inr ⟨hs.symm, hk⟩⟩)
      · exact .inr (.inr ⟨ho.symm, .inl hs⟩)
    · exact .inr (.inl ho)

instance : IsTrans (Record T) le where
  trans a b c hab hbc := by
    rcases hab with hab | ⟨hab, hab'⟩
    · rcases hbc with hbc | ⟨hbc, -⟩
      · exact .inl (hab.trans hbc)
      · exact .inl (hbc ▸ hab)
    rcases hbc with hbc | ⟨hbc, hbc'⟩
    · exact .inl (hab ▸ hbc)
    refine .inr ⟨hab.trans hbc, ?_⟩
    rcases hab' with hlt | ⟨heq, hkey⟩
    · rcases hbc' with hlt' | ⟨heq', -⟩
      · exact .inl (hlt.trans hlt')
      · exact .inl (heq' ▸ hlt)
    · rcases hbc' with hlt' | ⟨heq', hkey'⟩
      · exact .inl (heq ▸ hlt')
      · exact .inr ⟨heq.trans heq', hkey.trans hkey'⟩

theorem sequence_le_of_le {a b : Record T} (h : a.le b) (ho : a.origin = b.origin) : a.sequence ≤ b.sequence := by
  rcases h with hlt | ⟨-, hlt | ⟨heq, -⟩⟩
  · exact absurd ho hlt.ne
  · exact hlt.le
  · exact heq.le

end Record

open Record

/-- Unstamped records under the stamps they travel with. -/
def numberLegacy (legacy : List (Record T)) : List (Record T) :=
  (legacy.insertionSort fun a b => a.key ≤ b.key).mapIdx fun index r =>
    { r with origin := "legacy", sequence := index + 1 }

def eligible (records : List (Record T)) : List (Record T) :=
  (records.filter (fun r => ¬ r.Unstamped) ++ numberLegacy (records.filter fun r => r.Unstamped)).insertionSort Record.le

def originUpper (records : List (Record T)) (upper : Clock String) (origin : String) : Nat :=
  if origin = "legacy" then max (upper.get "legacy") (records.filter fun r => r.Unstamped).length
  else upper.get origin

/-- The loop over the eligible records, with the page so far, the cursor and the bytes used. -/
def fill (bound : String → Nat) (maxBytes : Int) (encode : T → Except String Nat) :
    List (Record T) → List T → Clock String → Int → Except String (List T × Clock String × Bool)
  | [], page, cursor, _ => .ok (page, cursor, false)
  | r :: rest, page, cursor, size =>
    if r.sequence ≤ cursor.get r.origin then fill bound maxBytes encode rest page cursor size
    else if bound r.origin < r.sequence then fill bound maxBytes encode rest page cursor size
    else
      match encode r.value with
      | .error err => .error err
      | .ok bytes =>
        let recordSize : Int := bytes + 1
        if maxBytes < size + recordSize then
          if page.isEmpty then
            .error ("sync record " ++ r.key.quote ++ " from " ++ r.origin.quote ++ " exceeds the " ++
              toString maxBytes ++ "-byte page limit")
          else .ok (page, cursor, true)
        else fill bound maxBytes encode rest (page ++ [r.value]) (cursor.raise r.origin r.sequence) (size + recordSize)

def next (records : List (Record T)) (cursor upper : Clock String) (maxBytes baseBytes : Int)
    (encode : T → Except String Nat) : Except String (List T × Clock String × Bool) :=
  fill (originUpper records upper) maxBytes encode (eligible records) [] cursor baseBytes

def Due (bound : String → Nat) (cursor : Clock String) (r : Record T) : Prop :=
  cursor.get r.origin < r.sequence ∧ r.sequence ≤ bound r.origin

/-- What a loop that does not fail does. -/
inductive Fills (bound : String → Nat) : List (Record T) → List T → Clock String → List T → Clock String → Bool → Prop
  | done (page : List T) (cursor : Clock String) : Fills bound [] page cursor page cursor false
  | full {page : List T} (hpage : page ≠ []) (records : List (Record T)) (cursor : Clock String) :
    Fills bound records page cursor page cursor true
  | skip {r : Record T} {rest : List (Record T)} {before page : List T} {cursor cursor' : Clock String} {more : Bool}
    (hr : ¬ Due bound cursor r) (h : Fills bound rest before cursor page cursor' more) :
    Fills bound (r :: rest) before cursor page cursor' more
  | take {r : Record T} {rest : List (Record T)} {before page : List T} {cursor cursor' : Clock String} {more : Bool}
    (hr : Due bound cursor r)
    (h : Fills bound rest (before ++ [r.value]) (cursor.raise r.origin r.sequence) page cursor' more) :
    Fills bound (r :: rest) before cursor page cursor' more

/-! ### Where a page comes from -/

section Values

variable {bound : String → Nat} {maxBytes size : Int} {encode : T → Except String Nat} {cursor cursor' : Clock String}
  {page before : List T} {more : Bool} {records : List (Record T)}

theorem fills_of_fill (h : fill bound maxBytes encode records before cursor size = .ok (page, cursor', more)) :
    Fills bound records before cursor page cursor' more := by
  induction records generalizing before cursor size with
  | nil =>
    obtain ⟨rfl, rfl, rfl⟩ : before = page ∧ cursor = cursor' ∧ false = more := by simpa [fill] using h
    exact .done _ _
  | cons r rest ih =>
    unfold fill at h
    split at h
    · rename_i hseen
      exact .skip (fun hdue => absurd hdue.1 (Nat.not_lt_of_le hseen)) (ih h)
    rename_i hpast
    split at h
    · rename_i hbeyond
      exact .skip (fun hdue => absurd hdue.2 (Nat.not_le_of_lt hbeyond)) (ih h)
    rename_i hwithin
    split at h
    · cases h
    simp only at h
    split at h
    · split at h
      · cases h
      rename_i hpage
      obtain ⟨rfl, rfl, rfl⟩ : before = page ∧ cursor = cursor' ∧ true = more := by simpa using h
      exact .full (by simpa using hpage) _ _
    · exact .take ⟨Nat.lt_of_not_le hpast, Nat.le_of_not_lt hwithin⟩ (ih h)

theorem Fills.mem (h : Fills bound records before cursor page cursor' more) {v : T} (hv : v ∈ page) :
    v ∈ before ∨ ∃ r ∈ records, r.value = v := by
  induction h with
  | done | full => exact .inl hv
  | skip _ _ ih => exact (ih hv).imp_right fun ⟨x, hx, hval⟩ => ⟨x, mem_cons_of_mem _ hx, hval⟩
  | @take r _ _ _ _ _ _ _ _ ih =>
    rcases ih hv with hbefore | ⟨x, hx, hval⟩
    · rcases mem_append.mp hbefore with hold | hnew
      · exact .inl hold
      · exact .inr ⟨r, mem_cons_self, (mem_singleton.mp hnew).symm⟩
    · exact .inr ⟨x, mem_cons_of_mem _ hx, hval⟩

theorem exists_of_mem_eligible {r : Record T} (hr : r ∈ eligible records) : ∃ x ∈ records, x.value = r.value := by
  unfold eligible at hr
  rw [mem_insertionSort, mem_append] at hr
  rcases hr with hstamped | hlegacy
  · exact ⟨r, mem_of_mem_filter hstamped, rfl⟩
  obtain ⟨_, hindex, rfl⟩ := mem_mapIdx.mp hlegacy
  have hmem := getElem_mem hindex
  rw [mem_insertionSort] at hmem
  exact ⟨_, mem_of_mem_filter hmem, rfl⟩

theorem mem_of_next {upper : Clock String} {baseBytes : Int}
    (h : next records cursor upper maxBytes baseBytes encode = .ok (page, cursor', more)) {v : T} (hv : v ∈ page) :
    ∃ r ∈ records, r.value = v := by
  rcases (fills_of_fill h).mem hv with hnil | ⟨r, hr, rfl⟩
  · cases hnil
  · exact exists_of_mem_eligible hr

theorem Fills.cursor_of_more (h : Fills bound records before cursor page cursor' true)
    (hbefore : before ≠ [] → cursor.isEmpty = false) : cursor'.isEmpty = false := by
  generalize hmore : true = more at h
  induction h with
  | done => cases hmore
  | full hpage => exact hbefore hpage
  | skip _ _ ih => exact ih hbefore hmore
  | take hr _ ih =>
    refine ih (fun _ => ?_) hmore
    unfold Clock.raise
    rw [if_pos hr.1]
    rfl

end Values

/-! ### What a page covers -/

structure Filled (bound : String → Nat) (records : List (Record T)) (before : List T) (cursor : Clock String)
    (page : List T) (cursor' : Clock String) (more : Bool) : Prop where
  keeps : ∀ v ∈ before, v ∈ page
  cursor_le : ∀ o, cursor.get o ≤ cursor'.get o
  cursor_le_bound : ∀ o, cursor'.get o ≤ max (cursor.get o) (bound o)
  complete : ∀ r ∈ records, Due bound cursor r → r.value ∈ page ∨ (more = true ∧ cursor'.get r.origin < r.sequence)

variable {bound : String → Nat} {maxBytes : Int} {encode : T → Except String Nat} {cursor cursor' : Clock String}
  {page before : List T} {more : Bool} {r : Record T} {rest : List (Record T)}

theorem Filled.skip (h : Filled bound rest before cursor page cursor' more) (hr : ¬ Due bound cursor r) :
    Filled bound (r :: rest) before cursor page cursor' more where
  keeps := h.keeps
  cursor_le := h.cursor_le
  cursor_le_bound := h.cursor_le_bound
  complete x hx hdue := by
    rcases mem_cons.mp hx with rfl | hx
    · exact absurd hdue hr
    · exact h.complete x hx hdue

theorem Filled.take (h : Filled bound rest (before ++ [r.value]) (cursor.raise r.origin r.sequence) page cursor' more)
    (hr : Due bound cursor r) (hlater : ∀ x ∈ rest, r.origin = x.origin → r.sequence < x.sequence) :
    Filled bound (r :: rest) before cursor page cursor' more where
  keeps v hv := h.keeps v (mem_append_left _ hv)
  cursor_le o := by
    have hle := h.cursor_le o
    rw [Clock.get_raise] at hle
    split at hle
    · exact (le_max_left _ _).trans hle
    · exact hle
  cursor_le_bound o := by
    have hle := h.cursor_le_bound o
    rw [Clock.get_raise] at hle
    split at hle
    · rename_i ho
      subst ho
      have hbound := hr.2
      omega
    · exact hle
  complete x hx hdue := by
    rcases mem_cons.mp hx with rfl | hx
    · exact .inl (h.keeps _ (mem_append_right _ mem_cons_self))
    refine h.complete x hx ⟨?_, hdue.2⟩
    rw [Clock.get_raise]
    split
    · rename_i ho
      have hlt := hlater x hx ho
      have hpast := hdue.1
      omega
    · exact hdue.1

abbrev Rising (records : List (Record T)) : Prop :=
  records.Pairwise fun a b => a.origin = b.origin → a.sequence < b.sequence

theorem Fills.filled {records : List (Record T)} (h : Fills bound records before cursor page cursor' more)
    (hrising : Rising records) : Filled bound records before cursor page cursor' more := by
  induction h with
  | done => exact ⟨fun v hv => hv, fun o => le_rfl, fun o => le_max_left _ _, fun x hx => by cases hx⟩
  | full =>
    -- everything still due lies past the cursor
    exact ⟨fun v hv => hv, fun o => le_rfl, fun o => le_max_left _ _, fun x _ hdue => .inr ⟨rfl, hdue.1⟩⟩
  | skip hr _ ih => exact (ih (pairwise_cons.mp hrising).2).skip hr
  | take hr _ ih => exact (ih (pairwise_cons.mp hrising).2).take hr (pairwise_cons.mp hrising).1

theorem rising_eligible {records : List (Record T)} (hdistinct : ((eligible records).map stamp).Nodup) :
    Rising (eligible records) := by
  have hsorted : (eligible records).Pairwise Record.le := pairwise_insertionSort _ _
  have hstamps : (eligible records).Pairwise fun a b => a.stamp ≠ b.stamp := pairwise_map.mp hdistinct
  refine (hsorted.and hstamps).imp ?_
  intro a b hab ho
  have hle := sequence_le_of_le hab.1 ho
  have hne : a.sequence ≠ b.sequence := fun hs => hab.2 (Prod.ext ho hs)
  omega

section Stamped

variable {records : List (Record T)} {upper : Clock String} {baseBytes : Int}

section

variable (hstamped : ∀ r ∈ records, ¬ r.Unstamped)

include hstamped

theorem eligible_perm : (eligible records).Perm records := by
  have hall : records.filter (fun r => ¬ r.Unstamped) = records :=
    filter_eq_self.mpr fun r hr => by simpa using hstamped r hr
  have hnone : records.filter (fun r => r.Unstamped) = [] :=
    filter_eq_nil_iff.mpr fun r hr => by simpa using hstamped r hr
  unfold eligible
  rw [hall, hnone]
  simpa [numberLegacy] using perm_insertionSort Record.le records

theorem originUpper_eq : originUpper records upper = upper.get := by
  have hnone : records.filter (fun r => r.Unstamped) = [] :=
    filter_eq_nil_iff.mpr fun r hr => by simpa using hstamped r hr
  funext o
  unfold originUpper
  rw [hnone]
  split
  · rename_i ho
    simp [ho]
  · rfl

theorem next_filled (hdistinct : (records.map stamp).Nodup)
    (h : next records cursor upper maxBytes baseBytes encode = .ok (page, cursor', more)) :
    Filled upper.get records [] cursor page cursor' more := by
  have hperm := eligible_perm hstamped
  have hrising : Rising (eligible records) :=
    rising_eligible (((hperm.map stamp).nodup_iff).mpr hdistinct)
  unfold next at h
  rw [originUpper_eq hstamped] at h
  have hfilled := (fills_of_fill h).filled hrising
  exact ⟨hfilled.keeps, hfilled.cursor_le, hfilled.cursor_le_bound,
    fun r hr => hfilled.complete r (hperm.mem_iff.mpr hr)⟩

end

end Stamped

/-! ### All pages -/

section Pages

variable {records : List (Record T)} {upper : Clock String} {baseBytes size : Int}

def due (bound : String → Nat) (records : List (Record T)) (cursor : Clock String) : List (Record T) :=
  records.filter fun r => cursor.get r.origin < r.sequence ∧ r.sequence ≤ bound r.origin

theorem due_cons_of_not {c : Clock String} (h : ¬ Due bound c r) : due bound (r :: rest) c = due bound rest c :=
  filter_cons_of_neg (by simpa [Due] using h)

theorem Fills.sends (h : Fills bound records before cursor page cursor' more) (hrising : Rising records) :
    ∃ taken, page = before ++ taken.map value ∧ due bound records cursor = taken ++ due bound records cursor' ∧
      (more = false → due bound records cursor' = []) ∧ (more = true → page ≠ []) := by
  induction h with
  | done => exact ⟨[], by simp, rfl, fun _ => rfl, nofun⟩
  | full hpage => exact ⟨[], by simp, rfl, nofun, fun _ => hpage⟩
  | skip hr h ih =>
    obtain ⟨-, hrest⟩ := pairwise_cons.mp hrising
    -- a record that is not due does not become due when the cursor rises
    rw [due_cons_of_not hr, due_cons_of_not fun hdue => hr ⟨((h.filled hrest).cursor_le _).trans_lt hdue.1, hdue.2⟩]
    exact ih hrest
  | @take r rest _ _ cursor cursor' _ hr h ih =>
    obtain ⟨hlater, hrest⟩ := pairwise_cons.mp hrising
    obtain ⟨taken, hpage, hdue, hend, hfull⟩ := ih hrest
    have hle := (h.filled hrest).cursor_le r.origin
    rw [Clock.get_raise, if_pos rfl] at hle
    have hthen : due bound (r :: rest) cursor' = due bound rest cursor' :=
      due_cons_of_not fun hdue => absurd hdue.1 (by omega)
    have hraise : due bound rest (cursor.raise r.origin r.sequence) = due bound rest cursor := by
      refine filter_congr fun x hx => ?_
      rw [Clock.get_raise]
      split
      · rename_i ho
        have := hlater x hx ho
        rw [← ho]
        exact decide_eq_decide.mpr (by omega)
      · rfl
    have hnow : due bound (r :: rest) cursor = r :: due bound rest cursor :=
      filter_cons_of_pos (by simpa [Due] using hr)
    refine ⟨r :: taken, by simp [hpage], ?_, hthen ▸ hend, hfull⟩
    rw [hnow, hthen, ← hraise, hdue]
    rfl

theorem fill_error {bytes : T → Nat} {err : String}
    (h : fill bound maxBytes (fun v => .ok (bytes v)) records before cursor size = .error err) :
    before = [] ∧ ∃ r ∈ records, maxBytes < size + (bytes r.value + 1) ∧
      err = "sync record " ++ r.key.quote ++ " from " ++ r.origin.quote ++ " exceeds the " ++ toString maxBytes ++
        "-byte page limit" := by
  induction records generalizing before cursor size with
  | nil => cases h
  | cons r rest ih =>
    have hlater {P : Record T → Prop} : (∃ x ∈ rest, P x) → ∃ x ∈ r :: rest, P x :=
      fun ⟨x, hx, hfacts⟩ => ⟨x, mem_cons_of_mem _ hx, hfacts⟩
    unfold fill at h
    split at h
    · exact (ih h).imp_right hlater
    split at h
    · exact (ih h).imp_right hlater
    simp only at h
    split at h
    · rename_i hsize
      split at h
      · rename_i hempty
        cases h
        exact ⟨by simpa using hempty, r, mem_cons_self, hsize, rfl⟩
      · cases h
    · exact absurd (ih h).1 (by simp)

theorem stamp_numberLegacy (legacy : List (Record T)) :
    (numberLegacy legacy).map stamp = (range legacy.length).map fun index => ("legacy", index + 1) := by
  apply ext_getElem
  · simp [numberLegacy]
  · intro index h h'
    simp [numberLegacy]

theorem stamp_of_mem_numberLegacy {legacy : List (Record T)} (h : r ∈ numberLegacy legacy) :
    r.origin = "legacy" ∧ 0 < r.sequence ∧ r.sequence ≤ legacy.length := by
  obtain ⟨_, hindex, hstamp⟩ := mem_map.mp (stamp_numberLegacy legacy ▸ mem_map_of_mem h : r.stamp ∈ _)
  obtain ⟨horigin, hsequence⟩ := Prod.mk.inj hstamp
  have hindex := mem_range.mp hindex
  exact ⟨horigin.symm, by omega, by omega⟩

abbrev LegacyApart (records : List (Record T)) : Prop :=
  ∀ r ∈ records, r.Unstamped → ∀ x ∈ records, ¬ x.Unstamped → x.origin ≠ "legacy"

theorem nodup_stamp_eligible (hstamps : ((records.filter fun r => ¬ r.Unstamped).map stamp).Nodup)
    (hlegacy : LegacyApart records) : ((eligible records).map stamp).Nodup := by
  rw [eligible, ((perm_insertionSort Record.le _).map _).nodup_iff, map_append]
  refine nodup_append'.mpr ⟨hstamps, ?_, fun stamp hstamped hnumbered => ?_⟩
  · rw [stamp_numberLegacy]
    exact nodup_range.map fun a b hab => by simpa using hab
  obtain ⟨x, hx, rfl⟩ := mem_map.mp hstamped
  obtain ⟨_, hy, hsame⟩ := mem_map.mp hnumbered
  obtain ⟨hx, hxstamped⟩ := mem_filter.mp hx
  obtain ⟨horigin, hpos, hle⟩ := stamp_of_mem_numberLegacy hy
  obtain ⟨r, hr⟩ := exists_mem_of_length_pos (hpos.trans_le hle)
  obtain ⟨hr, hrstamp⟩ := mem_filter.mp hr
  exact hlegacy r hr (by simpa using hrstamp) x hx (by simpa using hxstamped) ((congrArg Prod.fst hsame).symm.trans horigin)

theorem originUpper_of_stamped (hlegacy : LegacyApart records) (hr : r ∈ records) (hstamped : ¬ r.Unstamped) :
    originUpper records upper r.origin = upper.get r.origin := by
  unfold originUpper
  split
  · rename_i horigin
    have hnone : records.filter (fun r => r.Unstamped) = [] := filter_eq_nil_iff.mpr fun x hx hx' =>
      hlegacy x hx (by simpa using hx') r hr hstamped horigin
    rw [hnone, horigin]
    exact max_eq_left (Nat.zero_le _)
  · rfl

theorem serves_next (hrising : Rising (eligible records)) :
    Paging.Serves (fun c => next records c upper maxBytes baseBytes encode)
      fun c => (due (originUpper records upper) (eligible records) c).map value where
  last h := by
    obtain ⟨taken, hpage, hdue, hend, -⟩ := (fills_of_fill h).sends hrising
    simp only [hdue, hend rfl, hpage, append_nil, nil_append]
  more h := by
    obtain ⟨_, hpage, hdue, -, hfull⟩ := (fills_of_fill h).sends hrising
    refine ⟨hfull rfl, ?_⟩
    simp only [hpage, nil_append, ← map_append, ← hdue]

/-- Paging until there is no more sends, in order, every stamped record past the cursor and within the bound and every
unstamped record, each exactly once. -/
theorem pages_send_each_once (records : List (Record T)) (cursor upper : Clock String) (maxBytes baseBytes : Int)
    (bytes : T → Nat) (hstamps : ((records.filter fun r => ¬ r.Unstamped).map stamp).Nodup)
    (hlegacy : LegacyApart records) (hcursor : cursor.get "legacy" = 0) :
    let calls := Paging.traverse (fun _ c => next records c upper maxBytes baseBytes fun v => .ok (bytes v))
      (replicate (records.length + 1) ()) cursor
    (∃ r ∈ eligible records, maxBytes < baseBytes + (bytes r.value + 1) ∧
      calls = some (.error ("sync record " ++ r.key.quote ++ " from " ++ r.origin.quote ++ " exceeds the " ++
        toString maxBytes ++ "-byte page limit"))) ∨
    ∃ pages, ∃ sent : List (Record T), calls = some (.ok pages) ∧ (∀ page ∈ pages.dropLast, page ≠ []) ∧
      pages.flatten = sent.map value ∧
      sent.Pairwise (fun a b => a.origin < b.origin ∨ a.origin = b.origin ∧ a.sequence < b.sequence) ∧
      sent.Perm (records.filter (fun r => ¬ r.Unstamped ∧ cursor.get r.origin < r.sequence ∧
        r.sequence ≤ upper.get r.origin) ++ numberLegacy (records.filter fun r => r.Unstamped)) := by
  intro calls
  have hperm : (eligible records).Perm (records.filter (fun r => ¬ r.Unstamped) ++
      numberLegacy (records.filter fun r => r.Unstamped)) := perm_insertionSort _ _
  have hrising := rising_eligible (nodup_stamp_eligible hstamps hlegacy)
  have hlength : ((due (originUpper records upper) (eligible records) cursor).map value).length <
      records.length + 1 := by
    have hsplit := length_eq_length_filter_add (l := records) fun r => decide (¬ r.Unstamped)
    have hall := hperm.length_eq
    have hdue := (filter_sublist (l := eligible records) (p := fun r => decide (cursor.get r.origin < r.sequence ∧
      r.sequence ≤ originUpper records upper r.origin))).length_le
    simp [numberLegacy, due] at *
    omega
  rcases @Paging.Serves.traverse _ _ _ Unit (fun _ c => next records c upper maxBytes baseBytes fun v => .ok (bytes v))
    (replicate (records.length + 1) ()) _ (fun _ _ => serves_next hrising) cursor (by rwa [length_replicate]) with
    ⟨-, -, c, err, herr, hcalls⟩ | ⟨pages, hcalls, hpages, hfull⟩
  · obtain ⟨-, r, hr, hsize, rfl⟩ := fill_error herr
    exact .inl ⟨r, hr, hsize, hcalls⟩
  refine .inr ⟨pages, _, hcalls, hfull, hpages, ?_, ?_⟩
  · have hsorted : (eligible records).Pairwise Record.le := pairwise_insertionSort _ _
    refine ((hsorted.and hrising).filter _).imp fun hab => ?_
    exact hab.1.imp_right fun hle => ⟨hle.1, hab.2 hle.1⟩
  refine (hperm.filter _).trans (Perm.of_eq ?_)
  rw [filter_append, filter_filter]
  congr 1
  · refine filter_congr fun r hr => ?_
    by_cases hr' : r.Unstamped
    · simp [hr']
    · rw [originUpper_of_stamped hlegacy hr hr']
      simp only [hr', not_false_eq_true, decide_true, true_and, Bool.and_true]
  · refine filter_eq_self.mpr fun r hr => ?_
    obtain ⟨horigin, hpos, hle⟩ := stamp_of_mem_numberLegacy hr
    rw [horigin, hcursor, originUpper, if_pos rfl]
    exact decide_eq_true ⟨hpos, hle.trans (le_max_right _ _)⟩

theorem pages_send_stamped_and_unstamped :
    let records : List (Record String) := [⟨"new", "a", 2, "x"⟩, ⟨"old", "", 0, "y"⟩, ⟨"seen", "a", 1, "z"⟩]
    ∃ pages, Paging.traverse (fun _ c => next records c (Clock.raise ∅ "a" 2) 10 0 fun v => .ok v.utf8ByteSize)
      (replicate (records.length + 1) ()) (Clock.raise ∅ "a" 1) = some (.ok pages) ∧ pages.flatten.length = 2 := by
  intro records
  rcases pages_send_each_once records (Clock.raise ∅ "a" 1) (Clock.raise ∅ "a" 2) 10 0 (fun v => v.utf8ByteSize)
    (by decide) (by decide) (by decide) with
    ⟨r, hr, hsize, -⟩ | ⟨pages, sent, hcalls, -, hpages, -, hperm⟩
  · exact absurd hsize ((by decide : ∀ r ∈ eligible records, ¬ (10 : Int) < 0 + (r.value.utf8ByteSize + 1)) r hr)
  · exact ⟨pages, hcalls, by rw [hpages, length_map, hperm.length_eq]; decide⟩

end Pages

end Maistr0.SyncPage
