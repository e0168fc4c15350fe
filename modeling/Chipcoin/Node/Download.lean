import Chipcoin.Node.Chain
import Chipcoin.Node.Ready

/-!
# Planning block downloads

`reserve_block_downloads` assigns the blocks that are missing on the path of the best header to
peers. Requests in flight and the counters of peers are attributes of the sync manager that the
other methods do not read, so they stand in a state of their own.

* `reserveBlockDownloads`: the method.
* `reserveLoop_ok`: its loop does not raise on stored headers.
* `HeaderTree.reserves_iff`: it assigns a block exactly when a peer covers a missing one.
-/

namespace Chipcoin

open Checked Effect List

variable {blockHash peerId : PyStr}

/-! ### State and arguments -/

/-- `BlockRequestState`. Times are rational seconds. -/
structure BlockRequestState where
  blockHash : PyStr
  peerId : PyStr
  requestedAt : ℚ
  deadlineAt : ℚ
  attempt : ℕ

/-- `BlockDownloadAssignment`. -/
structure BlockDownloadAssignment where
  blockHash : PyStr
  peerId : PyStr
  deadlineAt : ℚ
  attempt : ℕ

/-- The download attributes of the sync manager. -/
structure Downloads where
  /-- `_inflight_blocks`. -/
  inflightBlocks : Std.ExtTreeMap PyStr BlockRequestState
  /-- `_block_peer_counts`. -/
  blockPeerCounts : Std.ExtTreeMap PyStr ℕ
  /-- `_stalled_peer_counts`. -/
  stalledPeerCounts : Std.ExtTreeMap PyStr ℕ

/-- The arguments of `reserve_block_downloads`. -/
structure DownloadRequest where
  peerIds : List PyStr
  peerHeights : Std.ExtTreeMap PyStr Int := ∅
  maxWindowSize : Int
  maxInflightPerPeer : Int
  timeoutSeconds : ℚ
  now : ℚ

/-! ### The method -/

/-- `inflight_by_peer` at the start: the requests in flight of each peer. -/
def inflightByPeer (downloads : Downloads) (peerIds : List PyStr) : Std.ExtTreeMap PyStr ℕ :=
  peerIds.foldl (fun counts peerId => counts.insert peerId
    (downloads.inflightBlocks.toList.countP fun request => request.2.peerId = peerId)) ∅

/-- The height of a block that is to be requested; an unknown header has none. -/
def requestHeight (store : Store) (blockHash : PyStr) : Except PyError (Option ℕ) :=
  match store.getRecord blockHash with
  | none => .ok none
  | some record => do
    let height ← orRaise record.row.height (.type "int() argument must not be NoneType")
    return some height

/-- A peer that is not known to be below the height. -/
def DownloadRequest.eligible (request : DownloadRequest) (blockHeight : Option ℕ)
    (peerId : PyStr) : Bool :=
  blockHeight.all fun height : ℕ => decide ((height : Int) ≤ request.peerHeights.getD peerId height)

/-- The peer that is asked for a block: the least busy and least stalled of the eligible ones, if it
is below the limit. -/
def selectPeer (request : DownloadRequest) (downloads : Downloads)
    (counts : Std.ExtTreeMap PyStr ℕ) (blockHeight : Option ℕ) : Option PyStr :=
  (Sorting.sortBy (compareLex (compareOn fun peerId => counts.getD peerId 0)
    (compareLex (compareOn fun peerId => downloads.stalledPeerCounts.getD peerId 0) (compareOn id)))
    (request.peerIds.filter (request.eligible blockHeight))).find?
      fun peerId => (counts.getD peerId 0 : Int) < max 1 request.maxInflightPerPeer

/-- The request of a block is entered into the attributes. -/
def Downloads.assign (downloads : Downloads) (request : DownloadRequest)
    (blockHash peerId : PyStr) :
    Downloads :=
  { downloads with
    inflightBlocks := downloads.inflightBlocks.insert blockHash {
      blockHash := blockHash
      peerId := peerId
      requestedAt := request.now
      deadlineAt := request.now + request.timeoutSeconds
      attempt := 1 }
    blockPeerCounts :=
      downloads.blockPeerCounts.insert peerId (downloads.blockPeerCounts.getD peerId 0 + 1) }

/-- The loop of `reserve_block_downloads` over the hashes of the window. -/
def reserveLoop (store : Store) (request : DownloadRequest) :
    List PyStr → Std.ExtTreeMap PyStr ℕ → EStateM PyError Downloads (List BlockDownloadAssignment)
  | [], _ => return []
  | blockHash :: rest, counts => do
    let downloads ← get
    if store.blocks[blockHash]?.isSome then do
      set { downloads with inflightBlocks := downloads.inflightBlocks.erase blockHash }
      reserveLoop store request rest counts
    else if downloads.inflightBlocks.contains blockHash then reserveLoop store request rest counts
    else do
      let blockHeight ← check (requestHeight store blockHash)
      match selectPeer request downloads counts blockHeight with
      | none => return []
      | some peerId => do
        set (downloads.assign request blockHash peerId)
        let assignments ← reserveLoop store request rest
          (counts.insert peerId (counts.getD peerId 0 + 1))
        return {
          blockHash := blockHash
          peerId := peerId
          deadlineAt := request.now + request.timeoutSeconds
          attempt := 1 } :: assignments

/-- `reserve_block_downloads`. -/
def reserveBlockDownloads (store : Store) (request : DownloadRequest) :
    EStateM PyError Downloads (List BlockDownloadAssignment) := do
  if request.peerIds = [] then return []
  else match store.findBestTip with
    | none => return []
    | some best =>
      if store.needsBlocks best = false then return []
      else do
        let missingBlocks ← check (store.missingBlocksForTip best.blockHash)
        let downloads ← get
        reserveLoop store request (missingBlocks.take (max 1 request.maxWindowSize).toNat)
          (inflightByPeer downloads request.peerIds)

/-! ### The loop -/

section

variable {db : Store} {request : DownloadRequest} {downloads : Downloads}

/-- The loop does not raise on hashes of stored headers. -/
theorem reserveLoop_ok {window : List PyStr}
    (hknown : ∀ blockHash ∈ window, ∃ height, requestHeight db blockHash = .ok height)
    (counts : Std.ExtTreeMap PyStr ℕ) (downloads : Downloads) :
    ∃ assignments downloads',
      reserveLoop db request window counts downloads = .ok assignments downloads' := by
  induction window generalizing counts downloads with
  | nil => exact ⟨[], downloads, rfl⟩
  | cons blockHash rest ih =>
    have hrest := ih (forall_mem_of_forall_mem_cons hknown)
    rw [reserveLoop, get_bind_apply]
    split_ifs with hstored hinflight
    · -- A stored block is dropped from the downloads, one in flight is passed over.
      exact hrest counts _
    · exact hrest counts downloads
    · obtain ⟨height, hheight⟩ := hknown blockHash mem_cons_self
      rw [hheight]
      change ∃ assignments downloads', (match selectPeer request downloads counts height with
        | none => _
        | some peerId => _ : EStateM PyError Downloads _) downloads = .ok assignments downloads'
      cases selectPeer request downloads counts height with
      | none => exact ⟨[], downloads, rfl⟩
      | some peerId =>
        obtain ⟨assignments, downloads', hloop⟩ := hrest
          (counts.insert peerId (counts.getD peerId 0 + 1))
          (downloads.assign request blockHash peerId)
        dsimp only
        rw [set_bind_apply, bind_of_ok hloop]
        exact ⟨_, downloads', rfl⟩

/-- The first hash of the window is assigned when a peer is found for it; otherwise nothing is. -/
theorem reserveLoop_cons {rest : List PyStr} {counts : Std.ExtTreeMap PyStr ℕ} {height : Option ℕ}
    (hmissing : db.blocks[blockHash]? = none) (hfree : blockHash ∉ downloads.inflightBlocks)
    (hheight : requestHeight db blockHash = .ok height)
    {assignments : List BlockDownloadAssignment} {downloads' : Downloads}
    (h : reserveLoop db request (blockHash :: rest) counts downloads =
      .ok assignments downloads') :
    assignments ≠ [] ↔ (selectPeer request downloads counts height).isSome := by
  rw [reserveLoop, get_bind_apply, if_neg (by simp [hmissing]), if_neg (by simpa using hfree)] at h
  obtain ⟨found, hfound, h⟩ := check_bind_eq_ok.mp h
  obtain rfl := ok_unique hheight hfound
  cases hselect : selectPeer request downloads counts height with
  -- The source breaks off: no later hash is tried.
  | none =>
    rw [hselect] at h
    cases h
    simp
  | some peerId =>
    rw [hselect] at h
    dsimp only at h
    rw [set_bind_apply] at h
    cases hloop : reserveLoop db request rest (counts.insert peerId (counts.getD peerId 0 + 1))
        (downloads.assign request blockHash peerId) with
    | ok later downloads'' =>
      rw [bind_of_ok hloop] at h
      cases h
      simp
    | error error downloads'' =>
      rw [bind_of_error hloop] at h
      cases h

/-- Without requests in flight every peer is free. -/
theorem inflightByPeer_idle (idle : downloads.inflightBlocks = ∅) (peerIds : List PyStr)
    (peerId : PyStr) : (inflightByPeer downloads peerIds).getD peerId 0 = 0 := by
  have hloop : ∀ (counts : Std.ExtTreeMap PyStr ℕ), counts.getD peerId 0 = 0 →
      (peerIds.foldl (fun counts peerId => counts.insert peerId
        (downloads.inflightBlocks.toList.countP fun entry => entry.2.peerId = peerId))
          counts).getD peerId 0 = 0 := by
    induction peerIds with
    | nil => exact fun _ hcounts => hcounts
    | cons first rest ih =>
      intro counts hcounts
      refine ih _ ?_
      rw [Std.ExtTreeMap.getD_insert, idle, Std.ExtTreeMap.toList_eq_nil_iff.mpr rfl]
      split_ifs
      · rfl
      · exact hcounts
  exact hloop ∅ (by simp)

/-- Without requests in flight a peer is found exactly when one is eligible. -/
theorem selectPeer_isSome (idle : downloads.inflightBlocks = ∅) {height : Option ℕ} :
    (selectPeer request downloads (inflightByPeer downloads request.peerIds) height).isSome ↔
      ∃ peerId ∈ request.peerIds, request.eligible height peerId := by
  rw [selectPeer, find?_isSome]
  constructor
  · rintro ⟨peerId, hmem, -⟩
    obtain ⟨hmem, heligible⟩ := List.mem_filter.mp (Sorting.mem_sortBy.mp hmem)
    exact ⟨peerId, hmem, heligible⟩
  · rintro ⟨peerId, hmem, heligible⟩
    refine ⟨peerId, Sorting.mem_sortBy.mpr (List.mem_filter.mpr ⟨hmem, heligible⟩), ?_⟩
    rw [inflightByPeer_idle idle]
    simp only [Nat.cast_zero, decide_eq_true_eq]
    omega

end

/-! ### A waiting branch -/

/-- A peer covers a block: it is not known to be below the height of the block. -/
def DownloadRequest.Covers (request : DownloadRequest) (store : Store) (peerId blockHash : PyStr) :
    Prop :=
  peerId ∈ request.peerIds ∧
    ∀ row height, store.headers[blockHash]? = some row → row.height = some height →
      (height : Int) ≤ request.peerHeights.getD peerId height

/-- A block that is missing on a path, above the snapshot if there is one. -/
def Store.MissingOn (store : Store) (tipHash blockHash : PyStr) : Prop :=
  ∃ path above, store.pathToRoot tipHash = .ok path ∧ store.aboveAnchor path = some above ∧
    blockHash ∈ above ∧ store.blocks[blockHash]? = none

/-- **A waiting branch.** A known header with more work than the active tip, whose path contains the
snapshot anchor and nothing quarantined, and a block that it misses and that a peer covers. -/
structure Waiting (state : SyncState) (request : DownloadRequest)
    (tip : HeaderRecord) (blockHash peerId : PyStr) : Prop where
  stored : state.store.headers[tip.blockHash]? = some tip.row
  heavier : state.store.tipWork < tip.row.cumulativeWork.getD 0
  valid : ∀ path, state.store.pathToRoot tip.blockHash = .ok path →
    ∀ inner ∈ path, inner ∉ state.invalidActivationTips
  missing : state.store.MissingOn tip.blockHash blockHash
  covered : request.Covers state.store peerId blockHash

/-- `reserve_block_downloads` returns at least one assignment. -/
def Reserves (store : Store) (request : DownloadRequest) (downloads : Downloads) : Prop :=
  ∃ assignments downloads', reserveBlockDownloads store request downloads =
    .ok assignments downloads' ∧ assignments ≠ []

/-- The path of the heaviest header contains the snapshot anchor and misses a block that a peer
covers. -/
def BestWaits (store : Store) (request : DownloadRequest) : Prop :=
  ∃ best blockHash peerId, store.findBestTip = some best ∧
    store.MissingOn best.blockHash blockHash ∧ request.Covers store peerId blockHash

section

variable {known : Set BlockHeader} {Fit : List BlockHeader → BlockHeader → Prop}
  {db : Store} {request : DownloadRequest} {downloads : Downloads}

/-- The best header needs blocks when some header has more work than the active tip. -/
theorem Store.needsBlocks_of_heavier {best : HeaderRecord} (hbest : db.findBestTip = some best)
    (hheavier : db.tipWork < best.row.cumulativeWork.getD 0) :
    db.needsBlocks best = true := by
  rw [Store.needsBlocks]
  cases htip : db.getTip with
  | none => rfl
  | some tip =>
    have hother : best.blockHash ≠ tip.blockHash := by
      intro hsame
      have hwork : db.tipWork = best.row.cumulativeWork.getD 0 := by
        simp [Store.tipWork, htip, Store.getRecord, ← hsame, Store.findBestTip_row hbest]
      omega
    dsimp only
    rw [if_neg hother, decide_eq_true hheavier, Bool.true_or]

/-- A peer that is eligible for a block is eligible for lower ones. -/
theorem DownloadRequest.eligible_of_le {height lower : ℕ} (hle : lower ≤ height)
    (h : request.eligible (some height) peerId) : request.eligible (some lower) peerId := by
  rw [DownloadRequest.eligible, Option.all_some, decide_eq_true_eq,
    Std.ExtTreeMap.getD_eq_getD_getElem?] at h ⊢
  cases hpeer : request.peerHeights[peerId]? with
  | none => simp
  | some peerHeight =>
    rw [hpeer, Option.getD_some] at h
    rw [Option.getD_some]
    omega

variable [Platform]

private theorem HeaderTree.requestHeight (tree : HeaderTree known Fit db) {row : HeaderRow}
    (hrow : db.headers[blockHash]? = some row) :
    requestHeight db blockHash = .ok (some (db.rank blockHash)) := by
  obtain ⟨height, hheight, hrank⟩ := tree.exists_height hrow
  simp [Chipcoin.requestHeight, Store.getRecord, hrow, hheight, hrank, orRaise, pure, Except.pure,
    bind, Except.bind]

/-- Eligibility for a stored block, by its height. -/
theorem HeaderTree.covers_iff (tree : HeaderTree known Fit db) {row : HeaderRow}
    (hrow : db.headers[blockHash]? = some row) :
    request.Covers db peerId blockHash ↔
      peerId ∈ request.peerIds ∧ request.eligible (some (db.rank blockHash)) peerId := by
  obtain ⟨height, hheight, hrank⟩ := tree.exists_height hrow
  rw [DownloadRequest.Covers, DownloadRequest.eligible, Option.all_some, decide_eq_true_eq, hrank]
  refine and_congr_right fun _ => ⟨fun h => h row height hrow hheight, ?_⟩
  intro h row' height' hrow' hheight'
  obtain rfl := Option.mem_unique hrow hrow'
  obtain rfl := Option.mem_unique hheight hheight'
  exact h

/-- The loop over the first of the missing blocks, in the order of their heights. -/
theorem HeaderTree.reserveLoop_iff (tree : HeaderTree known Fit db) {missing : List PyStr}
    (hstored : ∀ blockHash ∈ missing, ∃ row, db.headers[blockHash]? = some row)
    (hsorted : missing.Pairwise fun a b => db.rank a < db.rank b)
    (habsent : ∀ blockHash ∈ missing, db.blocks[blockHash]? = none)
    (idle : downloads.inflightBlocks = ∅) {size : ℕ} (hsize : 0 < size) :
    (∃ assignments downloads', reserveLoop db request (missing.take size)
        (inflightByPeer downloads request.peerIds) downloads = .ok assignments downloads' ∧
        assignments ≠ []) ↔
      ∃ blockHash ∈ missing, ∃ peerId, request.Covers db peerId blockHash := by
  cases missing with
  | nil =>
    refine iff_of_false ?_ (by simp)
    rintro ⟨assignments, downloads', hrun, hne⟩
    rw [take_nil, reserveLoop] at hrun
    cases hrun
    exact hne rfl
  | cons first rest =>
    obtain ⟨size, rfl⟩ : ∃ n, size = n + 1 := ⟨size - 1, by omega⟩
    rw [take_succ_cons]
    obtain ⟨row, hrow⟩ := hstored first mem_cons_self
    have hknown : ∀ blockHash ∈ first :: rest.take size,
        ∃ height, Chipcoin.requestHeight db blockHash = .ok height := by
      intro blockHash hmem
      obtain ⟨row, hrow⟩ := hstored blockHash (by
        rcases List.mem_cons.mp hmem with rfl | hmem
        · exact mem_cons_self
        · exact mem_cons_of_mem _ (mem_of_mem_take hmem))
      exact ⟨_, tree.requestHeight hrow⟩
    obtain ⟨assignments, downloads', hrun⟩ := @reserveLoop_ok _ request _ hknown
      (inflightByPeer downloads request.peerIds) downloads
    have hassigned := reserveLoop_cons (habsent first mem_cons_self) (by simp [idle])
      (tree.requestHeight hrow) hrun
    rw [selectPeer_isSome idle] at hassigned
    constructor
    · rintro ⟨other, downloads'', hother, hne⟩
      cases hrun.symm.trans hother
      obtain ⟨peerId, hpeer⟩ := hassigned.mp hne
      exact ⟨first, mem_cons_self, peerId, (tree.covers_iff hrow).mpr hpeer⟩
    · -- The first missing block is the lowest, so whoever covers one of them covers it.
      rintro ⟨blockHash, hmem, peerId, hcovers⟩
      obtain ⟨row', hrow'⟩ := hstored blockHash hmem
      obtain ⟨hpeer, heligible⟩ := (tree.covers_iff hrow').mp hcovers
      have hle : db.rank first ≤ db.rank blockHash := by
        rcases List.mem_cons.mp hmem with rfl | hmem
        · exact le_refl _
        · exact (rel_of_pairwise_cons hsorted hmem).le
      exact ⟨assignments, downloads', hrun,
        hassigned.mpr ⟨peerId, hpeer, DownloadRequest.eligible_of_le hle heligible⟩⟩

/-- **Which blocks are requested.** -/
theorem HeaderTree.reserves_iff (tree : HeaderTree known Fit db) {best : HeaderRecord}
    (hbest : db.findBestTip = some best)
    (hheavier : db.tipWork < best.row.cumulativeWork.getD 0) (hpeers : request.peerIds ≠ [])
    (idle : downloads.inflightBlocks = ∅) :
    Reserves db request downloads ↔ BestWaits db request := by
  obtain ⟨path, hpath⟩ := tree.exists_headerPath (Store.findBestTip_row hbest)
  have hroot := tree.pathToRoot hpath
  have hneeds := Store.needsBlocks_of_heavier hbest hheavier
  have hreserve : reserveBlockDownloads db request downloads =
      (check (db.missingBlocksForTip best.blockHash) >>= fun missingBlocks => do
        let downloads ← get
        reserveLoop db request (missingBlocks.take (max 1 request.maxWindowSize).toNat)
          (inflightByPeer downloads request.peerIds)) downloads := by
    simp only [reserveBlockDownloads, hpeers, if_false, hbest, hneeds, Bool.true_eq_false]
  rw [Reserves, hreserve]
  cases habove : db.aboveAnchor path with
  | none =>
    -- The path bypasses the anchor: the computation of the missing blocks raises.
    refine iff_of_false ?_ ?_
    · rintro ⟨assignments, downloads', hrun, -⟩
      obtain ⟨missing, hmissing, -⟩ := check_bind_eq_ok.mp hrun
      rw [Store.missingBlocksForTip, hroot, ok_bind, habove] at hmissing
      cases hmissing
    · rintro ⟨other, blockHash, peerId, hother, ⟨path', above, hpath', habove', -⟩, -⟩
      obtain rfl := Option.mem_unique hbest hother
      obtain rfl := ok_unique hroot hpath'
      rw [habove] at habove'
      cases habove'
  | some above =>
    set missing := above.filter fun blockHash => db.blocks[blockHash]?.isNone with hmissing
    have hlisted : db.missingBlocksForTip best.blockHash = .ok missing := by
      rw [Store.missingBlocksForTip, hroot, ok_bind, habove]
      rfl
    have hsublist : missing.Sublist path :=
      (filter_sublist).trans (Store.aboveAnchor_sublist habove)
    have hwaits : BestWaits db request ↔
        ∃ blockHash ∈ missing, ∃ peerId, request.Covers db peerId blockHash := by
      constructor
      · rintro ⟨other, blockHash, peerId, hother, ⟨path', above', hpath', habove', hmem, habsent⟩,
          hcovers⟩
        obtain rfl := Option.mem_unique hbest hother
        obtain rfl := ok_unique hroot hpath'
        obtain rfl := Option.mem_unique habove habove'
        exact ⟨blockHash, List.mem_filter.mpr ⟨hmem, by simp [habsent]⟩, peerId, hcovers⟩
      · rintro ⟨blockHash, hmem, peerId, hcovers⟩
        obtain ⟨hmem, habsent⟩ := List.mem_filter.mp hmem
        exact ⟨best, blockHash, peerId, hbest,
          ⟨path, above, hroot, habove, hmem, by simpa using habsent⟩, hcovers⟩
    rw [hwaits, hlisted]
    refine tree.reserveLoop_iff (fun blockHash hmem => ?_) ?_ (fun blockHash hmem => ?_) idle
      (by have := le_max_left 1 request.maxWindowSize; omega)
    · exact Store.HeaderPath.exists_row hpath (hsublist.subset hmem)
    · exact (tree.ranked.pairwise_path hpath).sublist hsublist
    · simpa using (List.mem_filter.mp hmem).2

/-! ### After any calls -/

/-- **A waiting branch is downloaded exactly when the heaviest one can be.** On a node that was
empty or had the headers of a snapshot, after any calls: while a branch waits and nothing is in
flight, a block is assigned exactly when the path of the heaviest header contains the anchor and
misses a block that a peer covers. -/
theorem waiting_download_iff (manager : SyncManager) {start : Store} (calls : List Call)
    {known : Set BlockHeader} (clean : CleanHashes known)
      (tables : HeaderTree known AnyHeader start)
    (hknown : delivered calls ⊆ known) {tip : HeaderRecord} {blockHash peerId : PyStr}
    (waiting : Waiting (manager.runOn start calls) request tip blockHash peerId)
    (idle : downloads.inflightBlocks = ∅) :
    Reserves (manager.runOn start calls).store request downloads ↔
      BestWaits (manager.runOn start calls).store request := by
  have tree := manager.runOn_headerTree clean tables hknown
  have hwork : tip.row.cumulativeWork.isSome := by
    have hheavier := waiting.heavier
    cases hvalue : tip.row.cumulativeWork with
    | none => simp [hvalue] at hheavier
    | some _ => rfl
  obtain ⟨best, hbest, hle⟩ := Store.le_work_findBestTip waiting.stored hwork
  exact tree.reserves_iff hbest (waiting.heavier.trans_le hle)
    (ne_nil_of_mem waiting.covered.1) idle

end

namespace SampleDownload

local instance platform : Platform := samplePlatform []

def manager : SyncManager := sampleManager

/-- A first block that pays the subsidy. -/
def genesis : Block := sampleChainBlock zeroHash 0 []

/-- A block on top of it that pays too much. -/
def overpaid : Block :=
  sampleBlock genesis.sampleHash 1000 0x207FFFFF
    [sampleCoinbase 1 [{ value := 51, recipient := sampleAddress }]]

/-- A block on top of the invalid one. -/
def burden : Block := sampleChainBlock overpaid.sampleHash 2 []

/-- A valid block on top of the first. -/
def honest : Block := sampleChainBlock genesis.sampleHash 1 []

/-- One peer that has two blocks. -/
def request : DownloadRequest where
  peerIds := [str "peer"]
  peerHeights := .ofList [(str "peer", (1 : Int))]
  maxWindowSize := 128
  maxInflightPerPeer := 16
  timeoutSeconds := 30
  now := 0

/-- Nothing is in flight. -/
def downloads : Downloads := ⟨∅, ∅, ∅⟩

/-- A header of height one is that of a waiting branch, as one check. -/
def waits (state : SyncState) (key : PyStr) : Bool :=
  (state.store.getRecord key).any fun record =>
    decide (state.store.tipWork < record.row.cumulativeWork.getD 0 ∧ record.row.height = some 1 ∧
      state.store.blocks[key]? = none) &&
      (state.store.pathToRoot key).toOption.any fun path =>
        (path.all fun inner => !state.invalidActivationTips.contains inner) &&
          decide (state.store.aboveAnchor path = some path ∧ key ∈ path)

private theorem waiting_of_waits {state : SyncState} {key : PyStr} (h : waits state key = true) :
    ∃ tip, tip.blockHash = key ∧ Waiting state request tip key (str "peer") := by
  obtain ⟨record, hrecord, h⟩ := (Option.any_eq_true _ _).mp h
  obtain ⟨row, hrow, rfl⟩ := Option.map_eq_some_iff.mp hrecord
  obtain ⟨hchecks, h⟩ := Bool.and_eq_true_iff.mp h
  obtain ⟨hheavier, hheight, habsent⟩ := of_decide_eq_true hchecks
  obtain ⟨path, hpath, h⟩ := (Option.any_eq_true _ _).mp h
  obtain ⟨hclear, h⟩ := Bool.and_eq_true_iff.mp h
  obtain ⟨habove, hmem⟩ := of_decide_eq_true h
  have hroot := eq_ok_of_toOption hpath
  refine ⟨⟨key, row⟩, rfl, hrow, hheavier, ?_, ⟨path, path, hroot, habove, hmem, habsent⟩, ?_⟩
  · intro path' hpath' inner hinner
    obtain rfl := ok_unique hroot hpath'
    simpa [← Std.ExtTreeMap.contains_iff_mem] using List.all_eq_true.mp hclear inner hinner
  · refine ⟨mem_singleton_self _, fun row' height hrow' hheight' => ?_⟩
    obtain rfl := Option.mem_unique hrow hrow'
    obtain rfl := Option.mem_unique hheight hheight'
    decide

/-- An honest block, an invalid one and a child of it arrive, and the header of a valid branch is
announced. -/
def stalled : SyncState :=
  manager.runOn .empty [.receiveBlock genesis, .receiveBlock overpaid, .receiveBlock burden,
    .ingestHeaders [honest.header]]

/-- The stalled state, evaluated. -/
theorem evaluated_stalled :
    (match reserveBlockDownloads stalled.store request downloads with
      | .ok assignments _ => assignments.isEmpty
      | .error _ _ => true) = true ∧
    waits stalled honest.sampleHash = true ∧
    stalled.store.findBestTip.map (·.blockHash) = some burden.sampleHash ∧
    overpaid.sampleHash ∈ stalled.invalidActivationTips := by
  decide +kernel

/-- **A valid branch is not downloaded.** The heaviest header stands on the quarantined block and
misses no body, so nothing is requested, while the valid branch waits for its block. -/
theorem quarantined_best_stalls :
    (∃ tip, Waiting stalled request tip honest.sampleHash (str "peer")) ∧
      downloads.inflightBlocks = ∅ ∧
      (∃ best, stalled.store.findBestTip = some best ∧ best.blockHash = burden.sampleHash) ∧
      overpaid.sampleHash ∈ stalled.invalidActivationTips ∧
      ¬ Reserves stalled.store request downloads := by
  obtain ⟨hempty, hwaits, hbest, hquarantined⟩ := evaluated_stalled
  obtain ⟨tip, -, hwaiting⟩ := waiting_of_waits hwaits
  refine ⟨⟨tip, hwaiting⟩, rfl, Option.map_eq_some_iff.mp hbest, hquarantined, ?_⟩
  rintro ⟨assignments, downloads', hrun, hne⟩
  rw [hrun] at hempty
  exact hne (List.isEmpty_iff.mp hempty)

/-- The invalid block is quarantined, the one before it is active. -/
theorem activeChain_ready_stalled :
    overpaid.sampleHash ∈ stalled.invalidActivationTips ∧
      ∃ path above, stalled.store.Ready genesis.sampleHash path above ∧
        ∀ inner ∈ above, inner ∉ stalled.invalidActivationTips := by
  have hactive : stalled.ActiveReady := activeChain_ready manager _
    (cleanHashes_delivered (by decide +kernel)) HeaderTree.empty (Set.Subset.refl _) nofun
  obtain ⟨htip, hkept⟩ : stalled.store.chainTipHash = some genesis.sampleHash ∧
      ∀ activation ∈ stalled.activations, activation.raised.isSome →
        activation.after.getTip = activation.before.getTip := by
    decide +kernel
  obtain ⟨path, above, ready, hclear⟩ := hactive _ htip
  exact ⟨evaluated_stalled.2.2.2, path, above, ready, hclear hkept⟩

/-- The first block is there and the header of the next one is announced. -/
def announced : List Call := [.receiveBlock genesis, .ingestHeaders [honest.header]]

/-- The announced state, evaluated. -/
theorem evaluated_announced :
    waits (manager.runOn .empty announced) honest.sampleHash = true ∧
    (manager.runOn .empty announced).store.findBestTip.map (·.blockHash) =
      some honest.sampleHash ∧
    ∀ a ∈ announced.flatMap Call.headers, a.blockHash ≠ .ok zeroHash ∧
      ∀ b ∈ announced.flatMap Call.headers, a.blockHash = b.blockHash → a = b := by
  decide +kernel

/-- When the waiting branch is the heaviest, its block is requested. -/
theorem waiting_download_announced :
    BestWaits (manager.runOn .empty announced).store request ∧
      Reserves (manager.runOn .empty announced).store request downloads := by
  obtain ⟨hwaits, hbest, hclean⟩ := evaluated_announced
  obtain ⟨tip, htip, hwaiting⟩ := waiting_of_waits hwaits
  obtain ⟨best, hbest, hhash⟩ := Option.map_eq_some_iff.mp hbest
  have hwaits : BestWaits (manager.runOn .empty announced).store request :=
    ⟨best, honest.sampleHash, str "peer", hbest, hhash.trans htip.symm ▸ hwaiting.missing,
      hwaiting.covered⟩
  exact ⟨hwaits, (waiting_download_iff manager announced (cleanHashes_delivered hclean)
    HeaderTree.empty (Set.Subset.refl _) hwaiting rfl).mpr hwaits⟩

end SampleDownload

end Chipcoin
