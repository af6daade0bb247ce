import Maistr0.Memory.Cluster

/-!
# Pulling memory from a peer

`handlePeerMemorySyncGet` and `fetchMemorySyncSnapshot` of `memory_sync.go` between two agents of the
current protocol version. The server reads its watermarks and its records under two separate locks,
so a request is answered in two steps; each page is cut from what the server holds at that moment. The
client keeps the cursor of the last page and the upper watermarks of the first, and merges once the
last page is in.
-/

namespace Maistr0.NodeAgent

open Go Memory Relation Option

structure Response where
  page : Snapshot
  cursor : Option Watermarks
  watermarks : Watermarks

/-- The answer to a page request, from the snapshot read after `full` was decided. A request without a position is for
the first page. -/
def handlePeerMemorySyncGet (encoding : Encoding) (syncMaxBytes : Int) (full : Bool) (snapshot : Snapshot)
    (watermarks : Watermarks) (position : Option (Watermarks × Watermarks)) : Except String Response := do
  let selected := selectForPeer full snapshot (filterMemoryWatermarks watermarks)
  let (cursor, upper) := position.getD (∅, selected.watermarks)
  let page ← pageSnapshot encoding selected cursor upper syncMaxBytes 0
  return {
    -- an empty first page is answered with 204 and no body
    page := if position.isNone ∧ page.snapshot.records = [] then {} else page.snapshot
    cursor := if page.more && !page.cursor.isEmpty then some page.cursor else none
    watermarks := upper }

variable {snapshot : Snapshot}

theorem handlePeerMemorySyncGet_eq_ok {encoding : Encoding} {syncMaxBytes : Int} {full : Bool}
    {watermarks : Watermarks} {position : Option (Watermarks × Watermarks)} {response : Response} {selected : Snapshot}
    {at_ : Watermarks × Watermarks} (hselected : selectForPeer full snapshot (filterMemoryWatermarks watermarks) = selected)
    (hat : position.getD (∅, selected.watermarks) = at_)
    (h : handlePeerMemorySyncGet encoding syncMaxBytes full snapshot watermarks position = .ok response) :
    ∃ page, pageSnapshot encoding selected at_.1 at_.2 syncMaxBytes 0 = .ok page ∧ response.watermarks = at_.2 ∧
      response.cursor = (if page.more && !page.cursor.isEmpty then some page.cursor else none) ∧
      (∀ r, r ∈ response.page.records ↔ r ∈ page.snapshot.records) ∧
      (response.page.watermarks = ∅ ∨ response.page.watermarks = page.snapshot.watermarks) := by
  subst hselected hat
  unfold handlePeerMemorySyncGet at h
  simp only at h
  generalize selectForPeer full snapshot (filterMemoryWatermarks watermarks) = selected at h ⊢
  generalize position.getD (∅, selected.watermarks) = at_ at h ⊢
  cases hpage : pageSnapshot encoding selected at_.1 at_.2 syncMaxBytes 0 with
  | error => simp [hpage, bind, Except.bind] at h
  | ok page =>
    rw [hpage] at h
    have hresponse : _ = response := Except.ok.inj h
    refine ⟨page, rfl, ?_, ?_, ?_⟩
    · rw [← hresponse]
    · rw [← hresponse]
    · rw [← hresponse]
      split
      · rename_i hempty
        refine ⟨fun r => ?_, .inl rfl⟩
        rw [hempty.2]
        exact iff_of_false List.not_mem_nil List.not_mem_nil
      · exact ⟨fun r => Iff.rfl, .inr rfl⟩

/-- The state of the loop in `fetchMemorySyncSnapshot`. -/
structure Fetch where
  watermarks : Watermarks
  position : Option (Watermarks × Watermarks) := none
  result : Snapshot := {}

inductive Fetched where
  | more (fetch : Fetch)
  | done (snapshot : Snapshot)

def appendRecords (result page : Snapshot) : Snapshot :=
  { result with
    experiences := result.experiences ++ page.experiences
    facts := result.facts ++ page.facts
    performances := result.performances ++ page.performances
    dialogues := result.dialogues ++ page.dialogues }

/-- One turn of the loop. -/
def Fetch.receive (fetch : Fetch) (response : Response) : Except String Fetched :=
  let result := appendRecords fetch.result response.page
  match response.cursor with
  | none =>
    let watermarks := if response.page.watermarks.isEmpty then response.watermarks else response.page.watermarks
    .ok (.done { result with syncVersion := syncProtocolVersion, watermarks })
  | some cursor =>
    if cursor.isEmpty then .error "peer returned an empty memory sync page cursor"
    else if response.watermarks.isEmpty then .error "peer omitted memory sync watermarks during pagination"
    else .ok (.more { fetch with position := some (cursor, response.watermarks), result })

theorem mem_appendRecords {result page : Snapshot} {r : Record} :
    r ∈ (appendRecords result page).records ↔ r ∈ result.records ∨ r ∈ page.records := by
  cases r <;> simp [appendRecords]

variable [CaseFolding]

/-- A server, a client that knows it as `peer`, and at most one pull under way. `passed` is the history of the records
the client was given to merge. -/
structure PullState where
  server : MemoryStore
  client : MemoryStore
  fetch : Option Fetch := none
  decided : Option Bool := none
  passed : Set Record := ∅

variable (peer : String) (encoding : Encoding) (syncMaxBytes : Int)

/-- A reply to the request under way, from what the server holds now. -/
def PullState.Answers (st : PullState) (fetch : Fetch) (response : Response) : Prop :=
  ∃ full snapshot, st.decided = some full ∧ snapshot.Reorders st.server.snapshot ∧
    handlePeerMemorySyncGet encoding syncMaxBytes full snapshot fetch.watermarks fetch.position = .ok response

inductive PullState.Step (st : PullState) : PullState → Prop
  | serverWrite (op : LocalWrite) : Step st { st with server := op.apply st.server }
  | clientWrite (op : LocalWrite) : Step st { st with client := op.apply st.client }
  | start (h : st.fetch = none) :
      Step st { st with fetch := some { watermarks := st.client.peerWatermarksOf peer } }
  | compare {fetch : Fetch} (h : st.fetch = some fetch) :
      Step st { st with
        decided := some (needsFull st.server.watermarks syncProtocolVersion (filterMemoryWatermarks fetch.watermarks)) }
  | page {fetch fetch' : Fetch} {response : Response} (h : st.fetch = some fetch)
      (hanswer : st.Answers encoding syncMaxBytes fetch response)
      (hreceive : fetch.receive response = .ok (.more fetch')) :
      Step st { st with fetch := some fetch', decided := none }
  | lastPage {fetch : Fetch} {result : Snapshot} {response : Response} (h : st.fetch = some fetch)
      (hanswer : st.Answers encoding syncMaxBytes fetch response)
      (hreceive : fetch.receive response = .ok (.done result)) (now : Clocks) :
      Step st { st with
        client := (st.client.mergeSnapshotFrom result peer now).2
        fetch := none
        decided := none
        passed := st.passed ∪ { r | r ∈ result.records } }
  | abandon : Step st { st with fetch := none, decided := none }

/-! ### What a pull has covered -/

namespace PullState

variable {peer : String} {encoding : Encoding} {syncMaxBytes : Int} {st st' : PullState}

structure Progress (server : MemoryStore) (passed : Set Record) (result : Snapshot) (cursor upper : Watermarks) :
    Prop where
  cursor_le : ∀ o, cursor.get o ≤ server.watermarks.get o
  upper_le : ∀ o, upper.get o ≤ server.watermarks.get o
  received : ∀ r ∈ server.records, r.sequence ≤ cursor.get r.origin → r ∈ passed ∨ r ∈ result.records

variable (peer) in
structure Inv (st : PullState) : Prop where
  valid : st.server.Valid
  covered : st.server.view.Covered Record.labels
  distinct : st.server.view.Distinct Record.labels
  peer_le : ∀ o, (st.client.peerWatermarksOf peer).get o ≤ st.server.watermarks.get o
  merged : ∀ r ∈ st.server.records, r.sequence ≤ (st.client.peerWatermarksOf peer).get r.origin → r ∈ st.passed
  requested : ∀ fetch, st.fetch = some fetch → ∀ o, fetch.watermarks.get o ≤ (st.client.peerWatermarksOf peer).get o
  progress : ∀ fetch cursor upper, st.fetch = some fetch → fetch.position = some (cursor, upper) →
    Progress st.server st.passed fetch.result cursor upper

variable {fetch : Fetch} {response : Response}

theorem Inv.selected (hinv : st.Inv peer) (hfetch : st.fetch = some fetch) {full : Bool}
    (hread : snapshot.Reorders st.server.snapshot) {r : Record} (hr : r ∈ st.server.records) :
    r ∈ st.passed ∨ r ∈ (selectForPeer full snapshot (filterMemoryWatermarks fetch.watermarks)).records := by
  have hmem : r ∈ snapshot.records :=
    hread.records.mem_iff.mpr (st.server.snapshot_records.mem_iff.mpr hr)
  cases full with
  | true => exact .inr hmem
  | false =>
    by_cases hnewer : recordIsNewer r.origin r.sequence (filterMemoryWatermarks fetch.watermarks) = true
    · right
      change r ∈ (snapshotSince snapshot _).records
      rw [snapshotSince_records]
      exact List.mem_filter.mpr ⟨hmem, hnewer⟩
    left
    have hold : r.sequence ≤ (filterMemoryWatermarks fetch.watermarks).get r.origin := by
      simp [recordIsNewer] at hnewer
      omega
    refine hinv.merged r hr (hold.trans ?_)
    exact (Lib.Clock.get_filter_le _ _ _).trans (hinv.requested fetch hfetch r.origin)

theorem Inv.position (hinv : st.Inv peer) (hfetch : st.fetch = some fetch) {selected : Snapshot}
    (hselected : selected.watermarks = st.server.watermarks) :
    Progress st.server st.passed fetch.result (fetch.position.getD (∅, selected.watermarks)).1
      (fetch.position.getD (∅, selected.watermarks)).2 := by
  cases hposition : fetch.position with
  | some position => exact hinv.progress fetch position.1 position.2 hfetch hposition
  | none =>
    refine ⟨fun o => Nat.zero_le _, fun o => ?_, fun r hr hzero => ?_⟩
    · change selected.watermarks.get o ≤ _
      rw [hselected]
    -- the first page starts before every stamp
    have hstamped := (hinv.valid.wellFormed r hr).1
    exact absurd (.inr (Nat.le_zero.mp hzero)) hstamped

theorem selected_sublist (hread : snapshot.Reorders st.server.snapshot) (full : Bool) (w : Watermarks) :
    ∃ listed, listed.Perm st.server.records ∧ (selectForPeer full snapshot w).records.Sublist listed := by
  refine ⟨snapshot.records, hread.records.trans st.server.snapshot_records, ?_⟩
  cases full with
  | true => exact List.Sublist.refl _
  | false =>
    change (snapshotSince snapshot w).records.Sublist _
    rw [snapshotSince_records]
    exact List.filter_sublist

section

variable (hinv : st.Inv peer)

include hinv

/-- A reply covers the server's records from the client's cursor up to the upper watermarks, or up to its own cursor if
it is not the last. -/
theorem Inv.answered (hfetch : st.fetch = some fetch) (hanswer : st.Answers encoding syncMaxBytes fetch response) :
    Progress st.server st.passed (appendRecords fetch.result response.page)
      (response.cursor.getD response.watermarks) response.watermarks ∧
    (response.cursor = none → response.page.watermarks = ∅ ∨ response.page.watermarks = response.watermarks) := by
  obtain ⟨full, snapshot, -, hread, hok⟩ := hanswer
  generalize hselected : selectForPeer full snapshot (filterMemoryWatermarks fetch.watermarks) = selected
  have hwatermarks : selected.watermarks = st.server.watermarks := by
    rw [← hselected]
    cases full <;> exact hread.watermarks
  have hposition := hinv.position hfetch hwatermarks
  generalize hat : fetch.position.getD (∅, selected.watermarks) = at_ at hposition
  obtain ⟨cursor, upper⟩ := at_
  obtain ⟨page, hpage, hupper, hcursor, hrecords, hheader⟩ := handlePeerMemorySyncGet_eq_ok hselected hat hok
  obtain ⟨_, hperm, hsub⟩ := st.selected_sublist hread full (filterMemoryWatermarks fetch.watermarks)
  rw [hselected] at hsub
  have hcovers : page.Covers selected cursor upper := by
    refine pageSnapshot_covers (fun r hr => ?_) ?_ hpage
    · exact (hinv.valid.wellFormed r (hperm.mem_iff.mp (hsub.subset hr))).1
    · exact ((hperm.map Record.stamp).nodup_iff.mpr hinv.distinct).sublist (hsub.map _)
  have hend : response.cursor.getD response.watermarks = if page.more then page.cursor else upper := by
    rw [hcursor, hupper]
    cases hmore : page.more with
    | false => rfl
    | true => simp [hcovers.cursor_of_more hmore]
  have hend_le : ∀ o, (response.cursor.getD response.watermarks).get o ≤ max (cursor.get o) (upper.get o) := by
    intro o
    rw [hend]
    split
    · exact hcovers.cursor_le_upper o
    · exact le_max_right _ _
  refine ⟨⟨fun o => ?_, ?_, fun r hr hle => ?_⟩, fun hlast => ?_⟩
  · exact (hend_le o).trans (max_le (hposition.cursor_le o) (hposition.upper_le o))
  · rw [hupper]
    exact hposition.upper_le
  · rw [mem_appendRecords, hrecords]
    by_cases hseen : r.sequence ≤ cursor.get r.origin
    · exact (hposition.received r hr hseen).imp_right .inl
    have hbound := hle.trans (hend_le r.origin)
    have hwithin : r.sequence ≤ upper.get r.origin := by omega
    rcases hinv.selected hfetch hread hr with hpassed | hsent
    · exact .inl hpassed
    rw [hselected] at hsent
    rcases hcovers.complete r hsent (Nat.lt_of_not_le hseen) hwithin with hpaged | ⟨hmore, hlater⟩
    · exact .inr (.inr hpaged)
    · rw [hend, if_pos hmore] at hle
      omega
  · have hmore : page.more = false := by
      cases hmore : page.more with
      | false => rfl
      | true => simp [hcursor, hmore, hcovers.cursor_of_more hmore] at hlast
    rcases hheader with hempty | hsame
    · exact .inl hempty
    · exact .inr (by rw [hsame, hcovers.watermarks hmore, hupper])

theorem Inv.serverWrite (op : LocalWrite) (hu : (op.apply st.server).Unwrapped) :
    Inv peer { st with server := op.apply st.server } := by
  have hrefines := op.refines hinv.valid hu
  have hrun := Lib.Replica.localRun hrefines.steps
  have hclock : ∀ o, st.server.watermarks.get o ≤ (op.apply st.server).watermarks.get o := hrun.clock_le
  have hold : ∀ r ∈ (op.apply st.server).records, ∀ w : Watermarks, (∀ o, w.get o ≤ st.server.watermarks.get o) →
      r.sequence ≤ w.get r.origin → r ∈ st.server.records := by
    intro r hr w hw hle
    rcases hrun.mem_held r hr with hmem | ⟨ho, hlt⟩
    · exact hmem
    change r.origin = st.server.origin at ho
    change st.server.watermarks.get st.server.origin < r.sequence at hlt
    have hbound := hw r.origin
    rw [ho] at hbound hle
    omega
  refine ⟨hrefines.valid, hrun.covered hinv.covered, hrun.distinct hinv.covered hinv.distinct,
    fun o => (hinv.peer_le o).trans (hclock o), fun r hr hle => ?_, hinv.requested, fun fetch cursor upper hf hp => ?_⟩
  · exact hinv.merged r (hold r hr _ hinv.peer_le hle) hle
  have hprogress := hinv.progress fetch cursor upper hf hp
  exact ⟨fun o => (hprogress.cursor_le o).trans (hclock o), fun o => (hprogress.upper_le o).trans (hclock o),
    fun r hr hle => hprogress.received r (hold r hr _ hprogress.cursor_le hle) hle⟩

theorem Inv.page {fetch' : Fetch} (hfetch : st.fetch = some fetch)
    (hanswer : st.Answers encoding syncMaxBytes fetch response)
    (hreceive : fetch.receive response = .ok (.more fetch')) :
    Inv peer { st with fetch := some fetch', decided := none } := by
  obtain ⟨hprogress, -⟩ := hinv.answered hfetch hanswer
  unfold Fetch.receive at hreceive
  cases hcursor : response.cursor with
  | none => simp [hcursor] at hreceive
  | some =>
    simp only [hcursor] at hreceive
    split at hreceive
    · cases hreceive
    split at hreceive
    · cases hreceive
    obtain rfl := Fetched.more.inj (Except.ok.inj hreceive)
    rw [hcursor] at hprogress
    refine ⟨hinv.valid, hinv.covered, hinv.distinct, hinv.peer_le, hinv.merged, fun f hf => ?_, fun f c u hf hp => ?_⟩
    · obtain rfl := some.inj hf
      exact hinv.requested fetch hfetch
    obtain rfl := some.inj hf
    obtain ⟨rfl, rfl⟩ := Prod.mk.inj (some.inj hp)
    exact hprogress

/-- After the last page the client's record of the server moves to the upper watermarks, and all up to there is in. -/
theorem Inv.lastPage {result : Snapshot} (hfetch : st.fetch = some fetch)
    (hanswer : st.Answers encoding syncMaxBytes fetch response)
    (hreceive : fetch.receive response = .ok (.done result)) (now : Clocks) :
    Inv peer { st with
      client := (st.client.mergeSnapshotFrom result peer now).2
      fetch := none
      decided := none
      passed := st.passed ∪ { r | r ∈ result.records } } := by
  obtain ⟨hprogress, hheader⟩ := hinv.answered hfetch hanswer
  unfold Fetch.receive at hreceive
  cases hcursor : response.cursor with
  | some =>
    simp only [hcursor] at hreceive
    split at hreceive
    · cases hreceive
    · split at hreceive <;> cases hreceive
  | none =>
    simp only [hcursor] at hreceive
    obtain rfl := Fetched.done.inj (Except.ok.inj hreceive)
    rw [hcursor] at hprogress
    have hwatermarks : (if response.page.watermarks.isEmpty then response.watermarks else response.page.watermarks) =
        response.watermarks := by
      split
      · rfl
      rename_i hne
      rcases hheader hcursor with hempty | hsame
      · exact absurd (congrArg Lib.Keyed.isEmpty hempty) hne
      · exact hsame
    simp only [hwatermarks]
    generalize hresult : ({ appendRecords fetch.result response.page with
      syncVersion := syncProtocolVersion, watermarks := response.watermarks } : Snapshot) = result
    have hrecords : result.records = (appendRecords fetch.result response.page).records := by
      rw [← hresult]
      rfl
    have hpeer : ∀ o, ((st.client.mergeSnapshotFrom result peer now).2.peerWatermarksOf peer).get o ≤
        max ((st.client.peerWatermarksOf peer).get o) (response.watermarks.get o) := by
      intro o
      have hle := st.client.peerWatermarks_mergeSnapshotFrom_le result peer now peer o
      rwa [← hresult] at hle ⊢
    refine ⟨hinv.valid, hinv.covered, hinv.distinct, fun o => ?_, fun r hr hle => ?_, fun f hf => ?_, fun f c u hf => ?_⟩
    · exact (hpeer o).trans (max_le (hinv.peer_le o) (hprogress.upper_le o))
    · rcases le_max_iff.mp (hle.trans (hpeer r.origin)) with hbefore | hnow
      · exact .inl (hinv.merged r hr hbefore)
      rcases hprogress.received r hr hnow with hpassed | hgot
      · exact .inl hpassed
      refine .inr ?_
      rw [hrecords]
      exact hgot
    · cases hf
    · cases hf

theorem Inv.step (h : Step peer encoding syncMaxBytes st st') (hu : st'.server.Unwrapped) : st'.Inv peer := by
  cases h with
  | serverWrite op => exact hinv.serverWrite op hu
  | clientWrite op =>
    have hpeer : (op.apply st.client).peerWatermarksOf peer = st.client.peerWatermarksOf peer :=
      (op.keeps st.client).peerWatermarksOf_eq peer
    refine ⟨hinv.valid, hinv.covered, hinv.distinct, fun o => ?_, fun r hr hle => ?_, fun fetch hf o => ?_, hinv.progress⟩
    · exact hpeer ▸ hinv.peer_le o
    · exact hinv.merged r hr (hpeer ▸ hle)
    · exact hpeer.symm ▸ hinv.requested fetch hf o
  | start =>
    refine ⟨hinv.valid, hinv.covered, hinv.distinct, hinv.peer_le, hinv.merged, fun fetch hf o => ?_, fun fetch cursor upper hf hp => ?_⟩
    · obtain rfl := some.inj hf
      exact le_rfl
    · obtain rfl := some.inj hf
      cases hp
  | compare =>
    exact ⟨hinv.valid, hinv.covered, hinv.distinct, hinv.peer_le, hinv.merged, hinv.requested, hinv.progress⟩
  | page hf hanswer hreceive => exact hinv.page hf hanswer hreceive
  | lastPage hf hanswer hreceive now => exact hinv.lastPage hf hanswer hreceive now
  | abandon =>
    refine ⟨hinv.valid, hinv.covered, hinv.distinct, hinv.peer_le, hinv.merged, fun fetch hf => ?_, fun fetch cursor upper hf => ?_⟩
    · cases hf
    · cases hf

end

theorem Step.server_unwrapped (h : Step peer encoding syncMaxBytes st st') (hu : st'.server.Unwrapped) :
    st.server.Unwrapped := by
  cases h with
  | serverWrite op => exact (op.grows st.server).unwrapped hu
  | clientWrite | start | compare | page | lastPage | abandon => exact hu

/-- A pull loses nothing: whatever the server writes between pages and however often pulls are given up, a record the
server holds is still ahead of what the client asks from, or was given to the client in that very version. The server
may hold anything a store of a cluster can hold. -/
theorem pull_loses_nothing {ι : Type} [DecidableEq ι] {owner : ι → String} {c : ClusterState ι} {i : ι}
    {client : MemoryStore} (hinj : Function.Injective owner) (hne : ∀ i, owner i ≠ "")
    (hcluster : ReflTransGen ClusterState.Step (ClusterState.start owner) c) (huc : ∀ i, (c.stores i).Unwrapped)
    (hclient : ∀ o, (client.peerWatermarksOf peer).get o = 0)
    (hrun : ReflTransGen (Step peer encoding syncMaxBytes) { server := c.stores i, client } st)
    (hu : st.server.Unwrapped) :
    ∀ r ∈ st.server.records, (st.client.peerWatermarksOf peer).get r.origin < r.sequence ∨ r ∈ st.passed := by
  have hinv : st.Inv peer := by
    induction hrun with
    | refl =>
      obtain ⟨_, hsim⟩ := ClusterState.simulates_of_run hinj hne hcluster huc
      have hcovered := hsim.coherent.covered i
      have hdistinct := hsim.coherent.distinct i
      rw [hsim.view i] at hcovered hdistinct
      refine ⟨hsim.valid i, hcovered, hdistinct, fun o => ?_, fun r hr hle => ?_, fun f hf => ?_, fun f c u hf => ?_⟩
      · rw [hclient o]
        exact Nat.zero_le _
      · rw [hclient] at hle
        exact absurd (.inr (Nat.le_zero.mp hle)) ((hsim.valid i).wellFormed r hr).1
      · cases hf
      · cases hf
    | tail _ hstep ih => exact (ih (hstep.server_unwrapped hu)).step hstep hu
  intro r hr
  by_cases hle : r.sequence ≤ (st.client.peerWatermarksOf peer).get r.origin
  · exact .inr (hinv.merged r hr hle)
  · exact .inl (Nat.lt_of_not_le hle)

end PullState

end Maistr0.NodeAgent

namespace Maistr0.NodeAgent.PullState

open Memory Relation

def flatEncoding : Encoding := ⟨fun _ => .ok 10, fun _ => .ok 10⟩

def beforePull : PullState :=
  { server := ClusterState.afterOneFact.stores true, client := newInMemoryStore "right" }

def pulledSnapshot : Snapshot :=
  { facts := beforePull.server.facts.vals, syncVersion := syncProtocolVersion, watermarks := beforePull.server.watermarks }

def afterPull : PullState :=
  { server := beforePull.server
    client := (beforePull.client.mergeSnapshotFrom pulledSnapshot "left" fun _ => ⟨2, Go.Time.two_ne_zero⟩).2
    passed := ∅ ∪ { r | r ∈ pulledSnapshot.records } }

theorem run_afterPull : ReflTransGen (Step "left" flatEncoding 1000) beforePull afterPull := by
  refine .tail (.tail (.tail .refl (.start rfl)) (.compare rfl)) ?_
  exact .lastPage rfl ⟨false, _, rfl, ⟨.refl _, .refl _, .refl _, .refl _, rfl⟩, rfl⟩ rfl fun _ => ⟨2, by decide⟩

theorem pull_loses_nothing_afterPull :
    (afterPull.client.peerWatermarksOf "left").get "left" = 1 ∧ ∀ r ∈ afterPull.server.records,
      (afterPull.client.peerWatermarksOf "left").get r.origin < r.sequence ∨ r ∈ afterPull.passed :=
  ⟨by decide, pull_loses_nothing ClusterState.twoOwners_injective (by decide) ClusterState.run_afterOneFact
    ClusterState.unwrapped_afterOneFact (fun _ => rfl) run_afterPull (ClusterState.unwrapped_afterOneFact true)⟩

end Maistr0.NodeAgent.PullState
