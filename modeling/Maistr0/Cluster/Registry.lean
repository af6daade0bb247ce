import Maistr0.Lib.Keyed
import Maistr0.Version

/-!
# The registry of nodes

`Upsert`, `Remove` and `MarkUnhealthy` of `registry.go`. A node's entry has the version it reported last and the
error of an outdated node. Of a report the model keeps what these functions read and write; the time, the cached
snapshot and what is passed through are left out. `Upsert` visits the map in any order, afresh in each call.

`VersionError` is kept up to date by comparing what comes in with what is there. Nothing is compared when an
entry goes, so the error is exact as long as no node loses the last one that was newer.
-/

namespace Maistr0.Cluster

open Version List

structure NodeStatus where
  id : String
  version : String
  healthy : Bool := true
  versionError : String := ""
deriving DecidableEq

abbrev Registry := Lib.Keyed NodeStatus.id

/-- The order in which a `range` over the map visits the entries. -/
structure MapOrder where
  arrange : List NodeStatus → List NodeStatus
  perm : ∀ nodes, (arrange nodes).Perm nodes

def outdated (version newer : String) : String :=
  "node version " ++ version ++ " is older than cluster version " ++ newer

def NodeStatus.isOutdated (n : NodeStatus) : Prop := n.versionError ≠ ""

/-- What `Upsert` makes of a report before it looks at the other nodes. -/
def NodeStatus.reported (status : NodeStatus) : NodeStatus := { status with healthy := true, versionError := "" }

def amend (r : Registry) (id : String) (f : NodeStatus → NodeStatus) (hf : ∀ n, (f n).id = n.id) : Registry :=
  r.mapVals (fun n => if n.id = id then f n else n) fun n => by
    split
    · exact hf n
    · rfl

def setVersionError (r : Registry) (id text : String) : Registry :=
  amend r id (fun n => { n with versionError := text }) fun _ => rfl

/-- The loop of `Upsert`. -/
def compareAll (legacy : String → String → Int) : List NodeStatus → Registry → NodeStatus → Registry × NodeStatus
  | [], r, status => (r, status)
  | existing :: rest, r, status =>
    if existing.version = "" ∨ status.version = "" ∨ existing.version = status.version then compareAll legacy rest r status
    else if compare legacy status.version existing.version < 0 then
      (r, { status with versionError := outdated status.version existing.version })
    else if compare legacy existing.version status.version < 0 then
      compareAll legacy rest (setVersionError r existing.id (outdated existing.version status.version)) status
    else compareAll legacy rest r status

def upsert (legacy : String → String → Int) (order : MapOrder) (r : Registry) (status : NodeStatus) : Registry :=
  let out := compareAll legacy (order.arrange r.vals) r status.reported
  out.1.put out.2

def remove (r : Registry) (id : String) : Registry := r.erase id

def markUnhealthy (r : Registry) (id : String) : Registry :=
  amend r id (fun n => { n with healthy := false }) fun _ => rfl

def Behind (nodes : List NodeStatus) (n : NodeStatus) : Prop := ∃ m ∈ nodes, m.id ≠ n.id ∧ Older n.version m.version

/-- A call that changes the registry; what is reported is a release. -/
inductive Call where
  | upsert (status : NodeStatus) (release : IsRelease status.version) (order : MapOrder)
  | remove (id : String)
  | markUnhealthy (id : String)

namespace Call

def apply (legacy : String → String → Int) (r : Registry) : Call → Registry
  | upsert status _ order => Cluster.upsert legacy order r status
  | remove id => Cluster.remove r id
  | markUnhealthy id => Cluster.markUnhealthy r id

def Replaces : Call → String → Prop
  | upsert status _ _, id => status.id = id
  | remove id', id => id' = id
  | markUnhealthy _, _ => False

def remaining (r : Registry) : Call → List NodeStatus
  | upsert status _ _ => (r.put status).vals
  | remove id => (r.erase id).vals
  | markUnhealthy _ => r.vals

/-- A node that is older than the entry that goes is older than another one that stays. -/
def Covered (r : Registry) (c : Call) : Prop :=
  ∀ old ∈ r.vals, c.Replaces old.id → ∀ n ∈ c.remaining r, Older n.version old.version → Behind (c.remaining r) n

end Call

def Exact (r : Registry) : Prop :=
  ∀ n ∈ r.vals, n.isOutdated ↔ Behind r.vals n

def Released (r : Registry) : Prop := ∀ n ∈ r.vals, IsRelease n.version

/-! ### Entries and reports -/

theorem isOutdated_outdated (n : NodeStatus) (version newer : String) :
    ({ n with versionError := outdated version newer } : NodeStatus).isOutdated := by
  intro hempty
  have hlength := congrArg String.length (show outdated version newer = "" from hempty)
  simp only [outdated, String.length_append] at hlength
  have htext : "node version ".length = 13 := by decide
  have hnone : "".length = 0 := by decide
  omega

section

variable {r : Registry} {status e m : NodeStatus}

theorem mem_put {v : NodeStatus} : e ∈ (r.put v).vals ↔ e = v ∨ e ∈ r.vals ∧ e.id ≠ v.id := by
  simp

theorem mem_erase {id : String} : e ∈ (r.erase id).vals ↔ e ∈ r.vals ∧ e.id ≠ id := by
  simp

theorem ids_amend (r : Registry) (id : String) (f : NodeStatus → NodeStatus) (hf : ∀ n, (f n).id = n.id) :
    (amend r id f hf).vals.map NodeStatus.id = r.vals.map NodeStatus.id := by
  unfold amend Lib.Keyed.mapVals
  rw [map_map]
  refine map_congr_left fun n _ => ?_
  dsimp only [Function.comp_apply]
  split
  · exact hf n
  · rfl

theorem mem_markUnhealthy {id : String} (he : e ∈ (markUnhealthy r id).vals) :
    ∃ n ∈ r.vals, e.id = n.id ∧ e.version = n.version ∧ e.versionError = n.versionError := by
  obtain ⟨n, hn, rfl⟩ := mem_map.mp he
  refine ⟨n, hn, ?_⟩
  split
  · exact ⟨rfl, rfl, rfl⟩
  · exact ⟨rfl, rfl, rfl⟩

structure Marks (reported : String) (e e' : NodeStatus) : Prop where
  id : e'.id = e.id
  version : e'.version = e.version
  keeps : e.isOutdated → e'.isOutdated
  gains : e'.isOutdated → e.isOutdated ∨ Older e.version reported

theorem Marks.refl (reported : String) (e : NodeStatus) : Marks reported e e := ⟨rfl, rfl, fun h => h, .inl⟩

theorem Marks.trans {reported : String} {e e' e'' : NodeStatus} (h : Marks reported e e') (h' : Marks reported e' e'') :
    Marks reported e e'' where
  id := h'.id.trans h.id
  version := h'.version.trans h.version
  keeps := h'.keeps ∘ h.keeps
  gains hout := by
    rcases h'.gains hout with hbefore | holder
    · exact h.gains hbefore
    · exact .inr (h.version ▸ holder)

end

/-! ### The loop of `Upsert` -/

section

variable {legacy : String → String → Int} {r : Registry} {status existing : NodeStatus} {rest order : List NodeStatus}
  {e' : NodeStatus}

section

variable (hstatus : IsRelease status.version) (hexisting : IsRelease existing.version)

include hstatus hexisting

theorem compareAll_stop (hnewer : Older status.version existing.version) :
    compareAll legacy (existing :: rest) r status =
      (r, { status with versionError := outdated status.version existing.version }) := by
  have hne : existing.version ≠ status.version := fun heq => not_older_self _ (heq ▸ hnewer)
  rw [compareAll, if_neg (by simp [hexisting.ne_empty, hstatus.ne_empty, hne]),
    if_pos ((compare_neg_iff legacy hstatus hexisting).mpr hnewer)]

theorem compareAll_mark (holder : Older existing.version status.version) :
    compareAll legacy (existing :: rest) r status =
      compareAll legacy rest (setVersionError r existing.id (outdated existing.version status.version)) status := by
  have hne : existing.version ≠ status.version := fun heq => not_older_self _ (heq ▸ holder)
  have hnot : ¬ Older status.version existing.version := fun hnewer => not_older_self _ (hnewer.trans holder)
  rw [compareAll, if_neg (by simp [hexisting.ne_empty, hstatus.ne_empty, hne]),
    if_neg (mt (compare_neg_iff legacy hstatus hexisting).mp hnot),
    if_pos ((compare_neg_iff legacy hexisting hstatus).mpr holder)]

theorem compareAll_skip (hnewer : ¬ Older status.version existing.version)
    (holder : ¬ Older existing.version status.version) :
    compareAll legacy (existing :: rest) r status = compareAll legacy rest r status := by
  rw [compareAll]
  split
  · rfl
  · rw [if_neg (mt (compare_neg_iff legacy hstatus hexisting).mp hnewer),
      if_neg (mt (compare_neg_iff legacy hexisting hstatus).mp holder)]

end

def Agrees (order : List NodeStatus) (r : Registry) : Prop :=
  ∀ e ∈ order, IsRelease e.version ∧ ∀ e' ∈ r.vals, e'.id = e.id → e'.version = e.version

section

variable (h : Agrees (existing :: rest) r)

include h

theorem Agrees.tail : Agrees rest r := (forall_mem_cons.mp h).2

theorem setVersionError_marks (holder : Older existing.version status.version)
    (he' : e' ∈ (setVersionError r existing.id (outdated existing.version status.version)).vals) :
    (∃ e ∈ r.vals, Marks status.version e e') ∧ (e'.id = existing.id → e'.isOutdated) := by
  obtain ⟨e, he, rfl⟩ := mem_map.mp he'
  split
  · rename_i hid
    have hversion := (h existing mem_cons_self).2 e he hid
    exact ⟨⟨e, he, rfl, rfl, fun _ => isOutdated_outdated _ _ _, fun _ => .inr (hversion ▸ holder)⟩,
      fun _ => isOutdated_outdated _ _ _⟩
  · rename_i hid
    exact ⟨⟨e, he, Marks.refl _ e⟩, fun heq => absurd heq hid⟩

theorem Agrees.set (holder : Older existing.version status.version) :
    Agrees rest (setVersionError r existing.id (outdated existing.version status.version)) := by
  intro e he
  refine ⟨(h.tail e he).1, fun e' he' hid => ?_⟩
  obtain ⟨⟨e₀, he₀, hmarks⟩, -⟩ := setVersionError_marks h holder he'
  exact hmarks.version.trans ((h.tail e he).2 e₀ he₀ (hmarks.id.symm.trans hid))

end

variable (legacy status)

theorem ids_compareAll (r : Registry) (order : List NodeStatus) :
    (compareAll legacy order r status).1.vals.map NodeStatus.id = r.vals.map NodeStatus.id := by
  induction order generalizing r with
  | nil => rfl
  | cons _ _ ih =>
    rw [compareAll]
    split
    · exact ih r
    split
    · rfl
    split
    · exact (ih _).trans (ids_amend r _ _ _)
    · exact ih r

section

variable (hstatus : IsRelease status.version)

include hstatus

theorem compareAll_marks (h : Agrees order r)
    (he' : e' ∈ (compareAll legacy order r status).1.vals) : ∃ e ∈ r.vals, Marks status.version e e' := by
  induction order generalizing r with
  | nil => exact ⟨e', he', Marks.refl _ e'⟩
  | cons existing _ ih =>
    have hexisting := (h existing mem_cons_self).1
    by_cases hnewer : Older status.version existing.version
    · rw [compareAll_stop hstatus hexisting hnewer] at he'
      exact ⟨e', he', Marks.refl _ e'⟩
    by_cases holder : Older existing.version status.version
    · rw [compareAll_mark hstatus hexisting holder] at he'
      obtain ⟨_, he₁, hmarks⟩ := ih (h.set holder) he'
      obtain ⟨⟨e, he, hbefore⟩, -⟩ := setVersionError_marks h holder he₁
      exact ⟨e, he, hbefore.trans hmarks⟩
    · rw [compareAll_skip hstatus hexisting hnewer holder] at he'
      exact ih h.tail he'

theorem compareAll_complete (h : Agrees order r) (hnewest : ∀ e ∈ order, ¬ Older status.version e.version)
    (he' : e' ∈ (compareAll legacy order r status).1.vals) (hvisited : ∃ e ∈ order, e.id = e'.id)
    (holder' : Older e'.version status.version) : e'.isOutdated := by
  induction order generalizing r with
  | nil =>
    obtain ⟨e, he, -⟩ := hvisited
    exact absurd he not_mem_nil
  | cons existing rest ih =>
    have hexisting := (h existing mem_cons_self).1
    have hnewer := hnewest existing mem_cons_self
    have hrest : ∀ e ∈ rest, ¬ Older status.version e.version := (forall_mem_cons.mp hnewest).2
    obtain ⟨e, he, hid⟩ := hvisited
    by_cases holder : Older existing.version status.version
    · rw [compareAll_mark hstatus hexisting holder] at he'
      rcases mem_cons.mp he with rfl | he
      · obtain ⟨e₁, he₁, hmarks⟩ := compareAll_marks legacy status hstatus (h.set holder) he'
        exact hmarks.keeps ((setVersionError_marks h holder he₁).2 (hmarks.id.symm.trans hid.symm))
      · exact ih (h.set holder) hrest he' ⟨e, he, hid⟩
    · rw [compareAll_skip hstatus hexisting hnewer holder] at he'
      rcases mem_cons.mp he with rfl | he
      · -- the entry just passed over is not older
        obtain ⟨e₁, he₁, hmarks⟩ := compareAll_marks legacy status hstatus h.tail he'
        have hversion := (h e mem_cons_self).2 e₁ he₁ (hmarks.id.symm.trans hid.symm)
        rw [hmarks.version, hversion] at holder'
        exact absurd holder' holder
      · exact ih h.tail hrest he' ⟨e, he, hid⟩

/-- The report itself is marked if anything in the map is newer, the node's own last report included. -/
theorem compareAll_status (hclear : status.versionError = "") (h : Agrees order r) :
    (compareAll legacy order r status).2.id = status.id ∧ (compareAll legacy order r status).2.version = status.version ∧
      ((compareAll legacy order r status).2.isOutdated ↔ ∃ e ∈ order, Older status.version e.version) := by
  induction order generalizing r with
  | nil =>
    refine ⟨rfl, rfl, iff_of_false (fun hout => hout hclear) ?_⟩
    rintro ⟨e, he, -⟩
    exact absurd he not_mem_nil
  | cons existing rest ih =>
    have hexisting := (h existing mem_cons_self).1
    by_cases hnewer : Older status.version existing.version
    · rw [compareAll_stop hstatus hexisting hnewer]
      exact ⟨rfl, rfl, iff_of_true (isOutdated_outdated _ _ _) ⟨existing, mem_cons_self, hnewer⟩⟩
    have hcons : (∃ e ∈ existing :: rest, Older status.version e.version) ↔ ∃ e ∈ rest, Older status.version e.version := by
      rw [exists_mem_cons_iff]
      exact or_iff_right hnewer
    rw [hcons]
    by_cases holder : Older existing.version status.version
    · rw [compareAll_mark hstatus hexisting holder]
      exact ih (h.set holder)
    · rw [compareAll_skip hstatus hexisting hnewer holder]
      exact ih h.tail

end

end

/-! ### One call -/

section

variable (legacy : String → String → Int) {r : Registry}

def Reports (nodes : List NodeStatus) (id version : String) : Prop := ∃ n ∈ nodes, n.id = id ∧ n.version = version

theorem reports_of_ids {nodes nodes' : List NodeStatus} (hids : nodes'.map NodeStatus.id = nodes.map NodeStatus.id)
    (hnodup : (nodes.map NodeStatus.id).Nodup)
    (hback : ∀ e' ∈ nodes', ∃ e ∈ nodes, e'.id = e.id ∧ e'.version = e.version) (id version : String) :
    Reports nodes' id version ↔ Reports nodes id version := by
  constructor
  · rintro ⟨e', he', rfl, rfl⟩
    obtain ⟨e, he, hid, hversion⟩ := hback e' he'
    exact ⟨e, he, hid.symm, hversion.symm⟩
  · rintro ⟨e, he, rfl, rfl⟩
    obtain ⟨e', he', hid⟩ := mem_map.mp (hids ▸ mem_map_of_mem he : e.id ∈ nodes'.map NodeStatus.id)
    obtain ⟨e₀, he₀, hid₀, hversion⟩ := hback e' he'
    have hsame : e₀ = e := inj_on_of_nodup_map hnodup he₀ he (hid₀.symm.trans hid)
    exact ⟨e', he', hid, hversion.trans (congrArg NodeStatus.version hsame)⟩

theorem reports_put (r : Registry) (s : NodeStatus) (id version : String) :
    Reports (r.put s).vals id version ↔ s.id = id ∧ s.version = version ∨ Reports r.vals id version ∧ id ≠ s.id := by
  constructor
  · rintro ⟨n, hn, rfl, rfl⟩
    rcases mem_put.mp hn with rfl | ⟨hmem, hne⟩
    · exact .inl ⟨rfl, rfl⟩
    · exact .inr ⟨⟨n, hmem, rfl, rfl⟩, hne⟩
  · rintro (⟨rfl, rfl⟩ | ⟨⟨n, hn, rfl, rfl⟩, hne⟩)
    · exact ⟨s, mem_put.mpr (.inl rfl), rfl, rfl⟩
    · exact ⟨n, mem_put.mpr (.inr ⟨hn, hne⟩), rfl, rfl⟩

theorem behind_congr {nodes nodes' : List NodeStatus} (h : ∀ id version, Reports nodes' id version ↔ Reports nodes id version)
    (n : NodeStatus) : Behind nodes' n ↔ Behind nodes n := by
  constructor
  · rintro ⟨m, hm, hne, holder⟩
    obtain ⟨m', hm', hid, hversion⟩ := (h m.id m.version).mp ⟨m, hm, rfl, rfl⟩
    exact ⟨m', hm', hid ▸ hne, hversion ▸ holder⟩
  · rintro ⟨m, hm, hne, holder⟩
    obtain ⟨m', hm', hid, hversion⟩ := (h m.id m.version).mpr ⟨m, hm, rfl, rfl⟩
    exact ⟨m', hm', hid ▸ hne, hversion ▸ holder⟩

theorem agrees_arrange (hr : Released r) (order : MapOrder) : Agrees (order.arrange r.vals) r := by
  intro e he
  have hmem : e ∈ r.vals := (order.perm r.vals).subset he
  exact ⟨hr e hmem, fun e' he' hid => congrArg NodeStatus.version (Lib.Keyed.eq_of_mem_vals he' hmem hid)⟩

namespace Call

theorem reports_apply (hr : Released r) (c : Call) (id version : String) :
    Reports (c.apply legacy r).vals id version ↔ Reports (c.remaining r) id version := by
  cases c with
  | upsert status release order =>
    have hagrees := agrees_arrange hr order
    obtain ⟨hid, hversion, -⟩ := compareAll_status legacy status.reported release rfl hagrees
    have hentries := reports_of_ids (ids_compareAll legacy status.reported r (order.arrange r.vals)) r.nodup
      fun e' he' => by
        obtain ⟨e, he, hmarks⟩ := compareAll_marks legacy status.reported release hagrees he'
        exact ⟨e, he, hmarks.id, hmarks.version⟩
    refine (reports_put _ _ id version).trans (Iff.trans ?_ (reports_put r status id version).symm)
    rw [hid, hversion, hentries]
    exact Iff.rfl
  | remove => exact Iff.rfl
  | markUnhealthy id' =>
    have hids : (Cluster.markUnhealthy r id').vals.map NodeStatus.id = r.vals.map NodeStatus.id := ids_amend r id' _ _
    refine reports_of_ids hids r.nodup (fun e' he' => ?_) id version
    obtain ⟨e, he, hid, hversion, -⟩ := mem_markUnhealthy he'
    exact ⟨e, he, hid, hversion⟩

theorem released_apply (hr : Released r) (c : Call) : Released (c.apply legacy r) := by
  intro n hn
  obtain ⟨m, hm, -, hversion⟩ := (reports_apply legacy hr c n.id n.version).mp ⟨n, hn, rfl, rfl⟩
  rw [← hversion]
  cases c with
  | upsert _ release =>
    rcases mem_put.mp hm with rfl | ⟨hmem, -⟩
    · exact release
    · exact hr m hmem
  | remove => exact hr m (mem_erase.mp hm).1
  | markUnhealthy => exact hr m hm

theorem behind_erase {id : String} {n : NodeStatus} (hne : id ≠ n.id) :
    Behind r.vals n ↔ Behind (r.erase id).vals n ∨ ∃ old ∈ r.vals, id = old.id ∧ Older n.version old.version := by
  constructor
  · rintro ⟨m, hm, hother, holder⟩
    by_cases hid : id = m.id
    · exact .inr ⟨m, hm, hid, holder⟩
    · exact .inl ⟨m, mem_erase.mpr ⟨hm, Ne.symm hid⟩, hother, holder⟩
  · rintro (⟨m, hm, hother, holder⟩ | ⟨old, hold, hid, holder⟩)
    · exact ⟨m, (mem_erase.mp hm).1, hother, holder⟩
    · exact ⟨old, hold, hid ▸ hne, holder⟩

theorem behind_put {s n : NodeStatus} (hne : s.id ≠ n.id) :
    Behind (r.put s).vals n ↔ Behind (r.erase s.id).vals n ∨ Older n.version s.version := by
  constructor
  · rintro ⟨m, hm, hother, holder⟩
    rcases mem_put.mp hm with rfl | hmem
    · exact .inr holder
    · exact .inl ⟨m, mem_erase.mpr hmem, hother, holder⟩
  · rintro (⟨m, hm, hother, holder⟩ | holder)
    · exact ⟨m, mem_put.mpr (.inr (mem_erase.mp hm)), hother, holder⟩
    · exact ⟨s, mem_put.mpr (.inl rfl), hne, holder⟩

theorem behind_put_self (s : NodeStatus) :
    Behind (r.put s).vals s ∨ (∃ old ∈ r.vals, s.id = old.id ∧ Older s.version old.version) ↔
      ∃ e ∈ r.vals, Older s.version e.version := by
  constructor
  · rintro (⟨m, hm, hother, holder⟩ | ⟨old, hold, -, holder⟩)
    · rcases mem_put.mp hm with rfl | ⟨hmem, -⟩
      · exact absurd rfl hother
      · exact ⟨m, hmem, holder⟩
    · exact ⟨old, hold, holder⟩
  · rintro ⟨e, he, holder⟩
    by_cases hid : e.id = s.id
    · exact .inr ⟨e, he, hid.symm, holder⟩
    · exact .inl ⟨e, mem_put.mpr (.inr ⟨he, hid⟩), hid, holder⟩

theorem behind_same {nodes : List NodeStatus} {n e : NodeStatus} (hid : n.id = e.id) (hversion : n.version = e.version) :
    Behind nodes n ↔ Behind nodes e := by
  unfold Behind
  rw [hid, hversion]

theorem outdated_stays (hr : Released r) (hexact : Exact r) {status n : NodeStatus} (release : IsRelease status.version)
    (order : MapOrder) (hn : n ∈ (compareAll legacy (order.arrange r.vals) r status.reported).1.vals) :
    n.isOutdated ↔ Behind r.vals n ∨ Older n.version status.version := by
  have hagrees := agrees_arrange hr order
  obtain ⟨e, he, hmarks⟩ := compareAll_marks legacy status.reported release hagrees hn
  rw [behind_same hmarks.id hmarks.version, ← hexact e he, hmarks.version]
  refine ⟨hmarks.gains, ?_⟩
  rintro (hbefore | holder)
  · exact hmarks.keeps hbefore
  by_cases hnewer : ∃ x ∈ order.arrange r.vals, Older status.version x.version
  · -- the loop stopped, but what made it stop had marked the entry
    obtain ⟨x, hx, hnewer⟩ := hnewer
    have hxr : x ∈ r.vals := (order.perm r.vals).subset hx
    refine hmarks.keeps ((hexact e he).mpr ⟨x, hxr, fun hid => ?_, holder.trans hnewer⟩)
    obtain rfl := Lib.Keyed.eq_of_mem_vals hxr he hid
    exact not_older_self _ (holder.trans hnewer)
  · exact compareAll_complete legacy status.reported release hagrees (fun x hx hx' => hnewer ⟨x, hx, hx'⟩) hn
      ⟨e, (order.perm r.vals).symm.subset he, hmarks.id.symm⟩ (hmarks.version ▸ holder)

theorem outdated_apply (hr : Released r) (hexact : Exact r) (c : Call) {n : NodeStatus} (hn : n ∈ (c.apply legacy r).vals) :
    n.isOutdated ↔ Behind (c.remaining r) n ∨ ∃ old ∈ r.vals, c.Replaces old.id ∧ Older n.version old.version := by
  cases c with
  | upsert status release order =>
    have hagrees := agrees_arrange hr order
    obtain ⟨hid, hversion, hout⟩ := compareAll_status legacy status.reported release rfl hagrees
    rcases mem_put.mp hn with rfl | ⟨hmem, hne⟩
    · rw [hout, behind_same hid hversion, hversion]
      refine Iff.trans ?_ (behind_put_self status).symm
      exact exists_congr fun e => and_congr_left' (order.perm r.vals).mem_iff
    have hne : status.id ≠ n.id := fun heq => hne (heq.symm.trans hid.symm)
    rw [outdated_stays legacy hr hexact release order hmem, behind_erase hne]
    refine Iff.trans ?_ (or_congr_left (behind_put hne)).symm
    rw [or_right_comm]
    exact Iff.rfl
  | remove =>
    obtain ⟨hmem, hne⟩ := mem_erase.mp hn
    rw [hexact n hmem, behind_erase hne.symm]
    exact Iff.rfl
  | markUnhealthy id =>
    have hnone : ¬ ∃ old ∈ r.vals, (markUnhealthy id).Replaces old.id ∧ Older n.version old.version := by
      rintro ⟨_, -, hreplaces, -⟩
      exact hreplaces
    rw [or_iff_left hnone]
    obtain ⟨m, hm, hid, hversion, herror⟩ := mem_markUnhealthy hn
    unfold NodeStatus.isOutdated
    rw [herror]
    exact (hexact m hm).trans (behind_same hid hversion).symm

/-- A call keeps the errors exact just if nobody loses the last node that was newer. -/
theorem exact_apply_iff (hr : Released r) (hexact : Exact r) (c : Call) : Exact (c.apply legacy r) ↔ c.Covered r := by
  have hbehind := behind_congr (reports_apply legacy hr c)
  constructor
  · intro hafter old hold hreplaces n hn holder
    obtain ⟨n', hn', hid, hversion⟩ := (reports_apply legacy hr c n.id n.version).mpr ⟨n, hn, rfl, rfl⟩
    have hout := (outdated_apply legacy hr hexact c hn').mpr (.inr ⟨old, hold, hreplaces, hversion ▸ holder⟩)
    exact (behind_same hid hversion).mp ((hbehind n').mp ((hafter n' hn').mp hout))
  · intro hcovered n hn
    rw [outdated_apply legacy hr hexact c hn, hbehind n]
    refine or_iff_left_of_imp ?_
    rintro ⟨old, hold, hreplaces, holder⟩
    obtain ⟨n', hn', hid, hversion⟩ := (reports_apply legacy hr c n.id n.version).mp ⟨n, hn, rfl, rfl⟩
    exact (behind_same hid hversion).mp (hcovered old hold hreplaces n' hn' (hversion ▸ holder))

end Call

end

/-! ### Runs -/

def run (legacy : String → String → Int) (calls : List Call) : Registry := calls.foldl (Call.apply legacy) ∅

def Covers (legacy : String → String → Int) : Registry → List Call → Prop
  | _, [] => True
  | r, c :: calls => c.Covered r ∧ Covers legacy (c.apply legacy r) calls

theorem exact_foldl_iff (legacy : String → String → Int) {r : Registry} (hr : Released r) (hexact : Exact r) (calls : List Call) :
    (∀ k, Exact ((calls.take k).foldl (Call.apply legacy) r)) ↔ Covers legacy r calls := by
  induction calls generalizing r with
  | nil => exact iff_of_true (fun k => by simpa using hexact) trivial
  | cons c _ ih =>
    unfold Covers
    rw [← c.exact_apply_iff legacy hr hexact]
    constructor
    · intro h
      have hnext := h 1
      exact ⟨hnext, (ih (c.released_apply legacy hr) hnext).mp fun k => h (k + 1)⟩
    · rintro ⟨hnext, hrest⟩ k
      cases k with
      | zero => exact hexact
      | succ k => exact (ih (c.released_apply legacy hr) hnext).mpr hrest k

/-- The marked nodes are those that are older than another one, throughout a run, just if at every call each node
that is older than the entry that goes is older than another one that stays. -/
theorem exact_run_iff (legacy : String → String → Int) (calls : List Call) :
    (∀ k, Exact (run legacy (calls.take k))) ↔ Covers legacy ∅ calls :=
  exact_foldl_iff legacy (fun _ hn => absurd hn not_mem_nil) (fun _ hn => absurd hn not_mem_nil) calls

def MapOrder.listed : MapOrder := ⟨id, fun nodes => List.Perm.refl nodes⟩

/-- A node on its own goes back to an earlier release and is marked as older than its own last report. -/
theorem downgraded_alone :
    let r := run (fun _ _ => 0)
      [.upsert ⟨"a", "0.1.1.15", true, ""⟩ (by decide) MapOrder.listed, .upsert ⟨"a", "0.1.1.14", true, ""⟩ (by decide) MapOrder.listed]
    r.vals = [⟨"a", "0.1.1.14", true, "node version 0.1.1.14 is older than cluster version 0.1.1.15"⟩] ∧ ¬ Exact r := by
  intro r
  have hvals : r.vals = [⟨"a", "0.1.1.14", true, "node version 0.1.1.14 is older than cluster version 0.1.1.15"⟩] := by decide
  refine ⟨hvals, fun hexact => ?_⟩
  unfold Exact at hexact
  rw [hvals] at hexact
  obtain ⟨_, hm, hother, -⟩ := (hexact _ mem_cons_self).mp (by unfold NodeStatus.isOutdated; decide)
  exact hother (congrArg NodeStatus.id (mem_singleton.mp hm))

end Maistr0.Cluster
