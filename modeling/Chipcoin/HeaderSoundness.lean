import Chipcoin.Node.SyncRun

/-!
# Soundness of the header table

`ingest_headers` checks proof of work, required bits and timestamp of a header before it stores it;
`receive_block` stores the header of a block whose parent is known without these checks. The header
table is therefore sound in exactly those runs in which received blocks bring headers that would
have passed.

* `FitsOn`: what the checks demand of a header on top of its ancestors.
* `HeaderSound`: what a row of the table should satisfy.
* `headerTable_sound`: all rows are sound when the received blocks have fitting headers.
* `SampleHeader`: a block whose header has no work behind it and becomes the best header.
-/

namespace Chipcoin

open Checked Database Effect Forest List

variable {blockHash parentHash : PyStr} {header : BlockHeader} {path : List PyStr} {row : HeaderRow}

/-! ### The retarget rule along a path -/

/-- The rule reads headers below the height only. -/
theorem expectedBits_congr {params : ConsensusParams} {headerAt headerAt' : ℕ → Option BlockHeader}
    {height : ℕ} (h : ∀ i < height, headerAt i = headerAt' i) :
    expectedBits params headerAt height = expectedBits params headerAt' height := by
  unfold expectedBits
  by_cases hzero : height = 0
  · rw [if_pos hzero, if_pos hzero]
  rw [if_neg hzero, if_neg hzero, h (height - 1) (by omega)]
  cases headerAt' (height - 1) with
  | none => rfl
  | some previous =>
    by_cases hwindow : params.difficultyAdjustmentWindow = 0
    · rw [raiseIf, if_pos hwindow]
      rfl
    · rw [h (height - params.difficultyAdjustmentWindow) (by omega)]

namespace Store

private theorem headersOn_append (db : Store) (path path' : List PyStr) :
    db.headersOn (path ++ path') = db.headersOn path ++ db.headersOn path' :=
  filterMap_append

private theorem headersOn_singleton {db : Store} (h : db.headers[blockHash]? = some row) :
    db.headersOn [blockHash] = [row.header] := by
  rw [headersOn, filterMap_cons, getHeader_of_row h]
  rfl

theorem getElem?_headersOn {db : Store}
    (h : ∀ key ∈ path, ∃ row : HeaderRow, db.headers[key]? = some row) (i : ℕ) :
    (db.headersOn path)[i]? = db.pathHeaderAt path i := by
  induction path generalizing i with
  | nil => rfl
  | cons key rest ih =>
    obtain ⟨row, hrow⟩ := h key mem_cons_self
    have hrest := ih (forall_mem_of_forall_mem_cons h)
    have hcons : db.headersOn (key :: rest) = row.header :: db.headersOn rest := by
      rw [headersOn, filterMap_cons, getHeader_of_row hrow]
      rfl
    rw [hcons]
    cases i with
    | zero => simp [pathHeaderAt, getHeader_of_row hrow]
    | succ i => simpa [pathHeaderAt] using hrest i

private theorem length_headersOn {db : Store}
    (h : ∀ key ∈ path, ∃ row : HeaderRow, db.headers[key]? = some row) :
    (db.headersOn path).length = path.length := by
  induction path with
  | nil => rfl
  | cons key rest ih =>
    obtain ⟨row, hrow⟩ := h key mem_cons_self
    rw [← singleton_append, headersOn_append, headersOn_singleton hrow, length_append,
      length_append, ih (forall_mem_of_forall_mem_cons h)]
    rfl

private theorem getLast?_headersOn {db : Store} (hpath : db.HeaderPath blockHash path)
    (hrow : db.headers[blockHash]? = some row) :
    (db.headersOn path).getLast? = some row.header := by
  have hrows : ∀ key ∈ path, ∃ row : HeaderRow, db.headers[key]? = some row :=
    fun key hkey => HeaderPath.exists_row hpath hkey
  rw [getLast?_eq_getElem?, length_headersOn hrows, getElem?_headersOn hrows, pathHeaderAt,
    ← getLast?_eq_getElem?, hpath.getLast?, Option.bind_some, getHeader_of_row hrow]

/-- The last step of a path. -/
theorem HeaderPath.front {db : Store} (hrow : db.headers[blockHash]? = some row)
    (h : db.HeaderPath blockHash path) :
    ∃ front, path = front ++ [blockHash] ∧ db.Under row.header.previousBlockHash front := by
  cases h with
  | root link =>
    rw [up_of_row hrow] at link
    exact ⟨[], rfl, by simp [Under, Option.some.inj link]⟩
  | @child _ parent front link hinner tail =>
    rw [up_of_row hrow] at link
    obtain rfl := Option.some.inj link
    exact ⟨front, rfl, by rwa [Under, if_neg hinner]⟩

end Store

section

variable [Platform]

/-! ### Fitting headers -/

/-- What the header checks demand of a header on top of its ancestors, first ancestor first. -/
structure FitsOn (params : ConsensusParams) (ancestors : List BlockHeader) (header : BlockHeader) :
    Prop where
  work : verifyProofOfWork header = .ok true
  bits : expectedBits params (fun i => ancestors[i]?) ancestors.length = .ok header.bits
  timestamp : ∀ parent ∈ ancestors.getLast?, parent.timestamp ≤ header.timestamp

/-- A chain of headers from the zero hash to the header with a given hash. -/
inductive Leads : List BlockHeader → PyStr → Prop
  | start : Leads [] zeroHash
  | extend {ancestors : List BlockHeader} {header : BlockHeader} {blockHash : PyStr}
      (chain : Leads ancestors header.previousBlockHash)
      (hash_eq : header.blockHash = .ok blockHash) : Leads (ancestors ++ [header]) blockHash

/-- The header fits on every chain of known headers that leads to its parent. -/
def HeaderFits (params : ConsensusParams) (known : Set BlockHeader) (header : BlockHeader) : Prop :=
  ∀ ancestors : List BlockHeader, (∀ ancestor ∈ ancestors, ancestor ∈ known) →
    Leads ancestors header.previousBlockHash → FitsOn params ancestors header

section

variable {known : Set BlockHeader} {Fit : List BlockHeader → BlockHeader → Prop} {db : Store}
  {params : ConsensusParams}

private theorem HeaderTree.leads (tree : HeaderTree known Fit db)
    (h : db.HeaderPath blockHash path) :
    Leads (db.headersOn path) blockHash := by
  induction h with
  | @root key link =>
    obtain ⟨row, hrow, hfirst⟩ := Store.up_eq_some.mp link
    rw [Store.headersOn_singleton hrow]
    exact .extend (show Leads [] _ from hfirst ▸ Leads.start) (tree.hashed hrow).1
  | @child key parent path link _ _ ih =>
    obtain ⟨row, hrow, rfl⟩ := Store.up_eq_some.mp link
    rw [Store.headersOn_append, Store.headersOn_singleton hrow]
    exact .extend ih (tree.hashed hrow).1

private theorem HeaderTree.leads_under (tree : HeaderTree known Fit db)
    (h : db.Under parentHash path) :
    Leads (db.headersOn path) parentHash := by
  rw [Store.Under] at h
  split_ifs at h with hzero
  · rw [h, hzero]
    exact .start
  · exact tree.leads h

omit [Platform] in
private theorem Store.Under.exists_row {key : PyStr} (h : db.Under parentHash path)
    (hmem : key ∈ path) :
    ∃ row : HeaderRow, db.headers[key]? = some row := by
  rw [Store.Under] at h
  split_ifs at h with hzero
  · rw [h] at hmem
    cases hmem
  · exact Store.HeaderPath.exists_row h hmem

section

variable (tree : HeaderTree known Fit db)
include tree

private theorem HeaderTree.known_headersOn (hmem : header ∈ db.headersOn path) :
    header ∈ known := by
  obtain ⟨key, -, hkey⟩ := List.mem_filterMap.mp hmem
  obtain ⟨row, hrow, rfl⟩ := Option.map_eq_some_iff.mp hkey
  exact (tree.hashed hrow).2

/-- The sync manager's own version of the retarget rule agrees with the one for blocks. -/
theorem HeaderTree.expectedBitsForCandidateHeader_eq {parent : HeaderRow}
    (hparent : db.headers[parentHash]? = some parent)
      (hpath : db.HeaderPath parentHash path) :
    expectedBitsForCandidateHeader params db (some ⟨parentHash, parent⟩) path.length =
      expectedBits params (db.pathHeaderAt path) path.length := by
  have hlast : db.pathHeaderAt path (path.length - 1) = some parent.header := by
    rw [Store.pathHeaderAt, ← getLast?_eq_getElem?, hpath.getLast?, Option.bind_some,
      Store.getHeader_of_row hparent]
  have hne : path.length ≠ 0 := by simpa using hpath.ne_nil
  unfold expectedBitsForCandidateHeader expectedBits
  dsimp only
  rw [if_neg hne, if_neg hne, hlast]
  dsimp only
  by_cases hwindow : params.difficultyAdjustmentWindow = 0
  · rw [raiseIf, if_pos hwindow]
    rfl
  rw [raiseIf, if_neg hwindow]
  by_cases hmod : path.length % params.difficultyAdjustmentWindow ≠ 0
  · rw [if_pos hmod, if_pos hmod]
  -- At a retarget height the window starts at a header of the path.
  rw [if_neg hmod, if_neg hmod, tree.pathToRoot hpath]
  have hwithin : path.length - params.difficultyAdjustmentWindow < path.length := by omega
  obtain ⟨first, hfirst⟩ : ∃ first,
      path[path.length - params.difficultyAdjustmentWindow]? = some first :=
    ⟨_, getElem?_eq_getElem hwithin⟩
  obtain ⟨row, hrow⟩ := Store.HeaderPath.exists_row hpath (mem_of_getElem? hfirst)
  rw [Store.pathHeaderAt, hfirst, Option.bind_some, Store.getHeader_of_row hrow]
  rw [ok_bind, ok_bind, ok_bind, orRaise_eq_ok.mpr hfirst, ok_bind, Store.getHeader_of_row hrow]

/-- **The header checks** make a header fit on the ancestors of its parent. -/
theorem HeaderTree.fitsOn_of_checks {height : ℕ} (hpath : db.Under header.previousBlockHash path)
    (hheight : heightUnder (db.parentRecord header.previousBlockHash) = .ok height)
    (hchecks : validateHeaderCandidate params db header
      (db.parentRecord header.previousBlockHash) height = .ok ()) :
    FitsOn params (db.headersOn path) header := by
  simp only [validateHeaderCandidate, bind_eq_ok, raiseIf_eq_ok, Unique.exists_iff]
    at hchecks
  obtain ⟨-, work, hwork, hworkOk, -, htimestamp, bits, hbits, hbitsOk⟩ := hchecks
  obtain rfl : work = true := by simpa using hworkOk
  obtain rfl : header.bits = bits := by simpa using hbitsOk
  by_cases hzero : header.previousBlockHash = zeroHash
  · rw [Store.parentRecord, if_pos hzero] at hheight hbits
    obtain rfl : path = [] := by simpa [Store.Under, hzero] using hpath
    refine ⟨hwork, ?_, ?_⟩
    · exact hbits
    · intro parent hparent
      cases hparent
  · rw [Store.Under, if_neg hzero] at hpath
    have hrows : ∀ key ∈ path, ∃ row : HeaderRow, db.headers[key]? = some row :=
      fun key hkey => Store.HeaderPath.exists_row hpath hkey
    obtain ⟨parent, hparent⟩ := hrows _ (mem_of_getLast? hpath.getLast?)
    have hrecord : db.parentRecord header.previousBlockHash =
        some ⟨header.previousBlockHash, parent⟩ := by
      simp [Store.parentRecord, hzero, Store.getRecord, hparent]
    rw [hrecord] at hheight hbits htimestamp
    obtain ⟨parentHeight, hparentHeight, hheight⟩ := bind_eq_ok.mp hheight
    replace hparentHeight : parent.height = some parentHeight := orRaise_eq_ok.mp hparentHeight
    obtain rfl := pure_eq_ok.mp hheight
    -- The height of the parent's row is its position on the path.
    have hrank : db.rank header.previousBlockHash = parentHeight := by
      simp [Store.rank, hparent, hparentHeight]
    have hlength : path.length = parentHeight + 1 := by
      rw [tree.ranked.length_path hpath, hrank]
    refine ⟨hwork, ?_, ?_⟩
    · rw [← hlength, tree.expectedBitsForCandidateHeader_eq hparent hpath] at hbits
      rw [← hbits, Store.length_headersOn hrows]
      exact expectedBits_congr fun i _ => Store.getElem?_headersOn hrows i
    · intro other hother
      rw [Store.getLast?_headersOn hpath hparent] at hother
      obtain rfl := Option.some.inj hother
      simpa using htimestamp

/-- The work recorded in a row is that of the headers on its path. -/
theorem HeaderTree.works (hrow : db.headers[blockHash]? = some row)
    (hpath : db.HeaderPath blockHash path) :
    ∃ works, (db.headersOn path).mapM headerWork = .ok works ∧
      row.cumulativeWork = some works.sum := by
  induction hpath generalizing row with
  | @root key link =>
    obtain ⟨row', hrow', hfirst⟩ := Store.up_eq_some.mp link
    obtain rfl := Option.mem_unique hrow' hrow
    rw [Store.headersOn_singleton hrow]
    cases tree.linked hrow with
    | @root work _ own _ total => exact ⟨[work], by simp [own], by simp [total]⟩
    | child inner _ _ _ _ _ _ => exact absurd hfirst inner
  | @child key parent path link hinner _ ih =>
    obtain ⟨row', hrow', rfl⟩ := Store.up_eq_some.mp link
    obtain rfl := Option.mem_unique hrow' hrow
    rw [Store.headersOn_append, Store.headersOn_singleton hrow]
    cases tree.linked hrow with
    | root first _ _ _ => exact absurd first hinner
    | @child parentRow _ parentWork work _ stored _ hparentWork own _ total =>
      obtain ⟨works, hworks, hsum⟩ := ih stored
      obtain rfl := Option.mem_unique hparentWork hsum
      exact ⟨works ++ [work], by simp [mapM_append, hworks, own], by simp [total]⟩

end

/-! ### Sound rows -/

/-- What the row of a header should say about it. -/
structure HeaderSound (params : ConsensusParams) (db : Store) (blockHash : PyStr)
    (row : HeaderRow) : Prop where
  work : verifyProofOfWork row.header = .ok true
  bits : ∃ path, db.pathToRoot blockHash = .ok path ∧
    expectedBits params (db.pathHeaderAt path) (path.length - 1) = .ok row.header.bits
  timestamp : ∀ parent : HeaderRow, row.header.previousBlockHash ≠ zeroHash →
    db.headers[row.header.previousBlockHash]? = some parent →
    parent.header.timestamp ≤ row.header.timestamp
  /-- The height and the work are those of the parent's row plus its own. -/
  linked : RowLinked db.headers row

/-- **In a tree of fitting headers every row is sound.** -/
theorem HeaderTree.headerSound (tree : HeaderTree known (FitsOn params) db)
    (hrow : db.headers[blockHash]? = some row) : HeaderSound params db blockHash row := by
  obtain ⟨path, hpath⟩ := tree.exists_headerPath hrow
  obtain ⟨front, rfl, hunder⟩ := Store.HeaderPath.front hrow hpath
  have hfits := tree.fits hrow hpath
  have hrows : ∀ key ∈ front, ∃ row : HeaderRow, db.headers[key]? = some row :=
    fun key hkey => hunder.exists_row hkey
  refine ⟨hfits.work, ⟨_, tree.pathToRoot hpath, ?_⟩, ?_, tree.linked hrow⟩
  · have hlength : (front ++ [blockHash]).length - 1 = (db.headersOn front).length := by
      simp [Store.length_headersOn hrows]
    rw [hlength, ← hfits.bits]
    refine expectedBits_congr fun i hi => ?_
    rw [Store.length_headersOn hrows] at hi
    rw [Store.getElem?_headersOn hrows, Store.pathHeaderAt, Store.pathHeaderAt,
      getElem?_append_left hi]
  · intro parent hinner hparent
    rw [Store.Under, if_neg hinner] at hunder
    exact hfits.timestamp parent.header (Store.getLast?_headersOn hunder hparent)

end

/-- The header checks and the condition on received blocks keep a tree of fitting headers. -/
theorem fitsTree_fitsOn {manager : SyncManager} {calls : List Call}
    (hblocks : ∀ block, ReceivedIn calls block →
      HeaderFits manager.node.params (delivered calls) block.header) :
    FitsTree manager (AnnouncedIn calls) (ReceivedIn calls) (delivered calls)
      (FitsOn manager.node.params) where
  announced := fun _ hannounced => .inl hannounced
  received := fun block hreceived => .inr ⟨block, hreceived, rfl⟩
  checked := fun tree hpath hheight hchecks => tree.fitsOn_of_checks hpath hheight hchecks
  unchecked := fun tree hreceived hpath =>
    hblocks _ hreceived _ (fun _ hmem => tree.known_headersOn hmem) (tree.leads_under hpath)

/-- **Soundness of the header table.** After any calls on an empty node, provided that the header of
every received block fits on the chains of delivered headers that lead to it, every row is sound;
and the work of the best header is that of the headers on its path, each with its proof of work. -/
theorem headerTable_sound (manager : SyncManager) (calls : List Call)
    (clean : CleanHashes (delivered calls)) (hblocks : ∀ block, ReceivedIn calls block →
      HeaderFits manager.node.params (delivered calls) block.header) :
    (∀ (blockHash : PyStr) (row : HeaderRow),
      (manager.run calls).store.headers[blockHash]? = some row →
      HeaderSound manager.node.params (manager.run calls).store blockHash row) ∧
    ∀ best, (manager.run calls).store.findBestTip = some best →
      ∃ path works, (manager.run calls).store.pathToRoot best.blockHash = .ok path ∧
        ((manager.run calls).store.headersOn path).mapM headerWork = .ok works ∧
        best.row.cumulativeWork = some works.sum ∧
        ∀ header ∈ (manager.run calls).store.headersOn path, verifyProofOfWork header =
          .ok true := by
  have tree : HeaderTree (delivered calls) (FitsOn manager.node.params)
      (manager.run calls).store :=
    SyncRun.headerTree clean (fitsTree_fitsOn hblocks) (manager.run_syncRun calls) HeaderTree.empty
  refine ⟨fun blockHash row hrow => tree.headerSound hrow, fun best hbest => ?_⟩
  have hrow := Store.findBestTip_row hbest
  obtain ⟨path, hpath⟩ := tree.exists_headerPath hrow
  obtain ⟨works, hworks, htotal⟩ := tree.works hrow hpath
  refine ⟨path, works, tree.pathToRoot hpath, hworks, htotal, fun header hmem => ?_⟩
  obtain ⟨key, -, hkey⟩ := List.mem_filterMap.mp hmem
  obtain ⟨row, hrow, rfl⟩ := Option.map_eq_some_iff.mp hkey
  exact (tree.headerSound hrow).work

end

namespace SampleHeader

local instance platform : Platform := samplePlatform []

def manager : SyncManager := sampleManager

/-- A first block that pays the subsidy. -/
def genesis : Block :=
  sampleBlock zeroHash 0 0x207FFFFF
    [sampleCoinbase 0 [{ value := 50, recipient := str "miner" }]]

/-- A block whose compact target is zero: no hash meets it, and its nominal work is the largest. -/
def fake : Block :=
  sampleBlock zeroHash 0 1 [sampleCoinbase 0 [{ value := 50, recipient := str "thief" }]]

/-- The tables after an honest block and the fake one. -/
def afterFake : Store := (manager.run [.receiveBlock genesis, .receiveBlock fake]).store

/-- The fake block is refused, but its header stays in the table, as the best one. -/
theorem receivedHeader_unsound :
    (∃ best, afterFake.findBestTip = some best ∧ verifyProofOfWork best.row.header = .ok false ∧
      afterFake.chainTipHash ≠ some best.blockHash) ∧
    ¬ ∀ (blockHash : PyStr) (row : HeaderRow), afterFake.headers[blockHash]? = some row →
      HeaderSound sampleParams afterFake blockHash row := by
  have hbest : (afterFake.findBestTip.any fun best =>
      verifyProofOfWork best.row.header = .ok false ∧
        afterFake.chainTipHash ≠ some best.blockHash) = true := by decide +kernel
  obtain ⟨best, hfound, hfake⟩ := (Option.any_eq_true _ _).mp hbest
  obtain ⟨hwork, htip⟩ := of_decide_eq_true hfake
  refine ⟨⟨best, hfound, hwork, htip⟩, fun hsound => ?_⟩
  have hproof := (hsound best.blockHash best.row (Store.findBestTip_row hfound)).work
  rw [hwork] at hproof
  cases hproof

/-- An announced header and its block. -/
def honestCalls : List Call := [.ingestHeaders [genesis.header], .receiveBlock genesis]

private theorem delivered_honestCalls (h : header ∈ delivered honestCalls) :
    header = genesis.header := by
  rcases h with ⟨headers, hcall, hmem⟩ | ⟨block, hcall, rfl⟩
  · simp [honestCalls] at hcall
    simpa [hcall] using hmem
  · simp [ReceivedIn, honestCalls] at hcall
    rw [hcall]

theorem headerTable_sound_honest :
    (manager.run honestCalls).store.headers.size = 1 ∧
      ∀ (blockHash : PyStr) (row : HeaderRow),
        (manager.run honestCalls).store.headers[blockHash]? = some row →
        HeaderSound sampleParams (manager.run honestCalls).store blockHash row := by
  have hnonzero : genesis.header.blockHash ≠ .ok zeroHash := by decide +kernel
  have clean : CleanHashes (delivered honestCalls) := by
    refine ⟨fun a ha b hb _ _ _ => ?_, fun a ha => ?_⟩
    · rw [delivered_honestCalls ha, delivered_honestCalls hb]
    · rw [delivered_honestCalls ha]
      exact hnonzero
  refine ⟨by decide +kernel, (headerTable_sound manager honestCalls clean ?_).1⟩
  intro block hblock ancestors hknown hleads
  obtain rfl : block = genesis := by simpa [ReceivedIn, honestCalls] using hblock
  -- No delivered header has the zero hash, so the chain below is empty.
  generalize hzero : genesis.header.previousBlockHash = parentHash at hleads
  cases hleads with
  | start =>
    refine ⟨by decide +kernel, by decide +kernel, ?_⟩
    intro parent hparent
    cases hparent
  | @extend _ header _ _ hash_eq =>
    rw [delivered_honestCalls (hknown header (by simp)), ← hzero] at hash_eq
    exact absurd hash_eq hnonzero

end SampleHeader

end Chipcoin
