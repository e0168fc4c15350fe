import Chipcoin.Lib.Run
import Chipcoin.Node.Replay

/-!
# The tables and their repositories

The store is one record with a field for each table that the node's chain logic reads or writes.
Rows are keyed by their primary key; a `UNIQUE` column of `INSERT OR REPLACE` removes the rows it
conflicts with. Reads are functions of the store, and each writing method of a repository is a
program (`Db`) made of the statements it executes inside its transaction block.
-/

namespace Chipcoin

open Checked Sorting Database

variable {record : HeaderRecord} {db : Store}

/-- A row of `headers`; the columns that repeat header fields are read from the header. -/
structure HeaderRow where
  header : BlockHeader
  height : Option ℕ
  cumulativeWork : Option ℕ
  isMainChain : Bool
deriving DecidableEq

/-- `HeaderRecord`: a row with its key. -/
structure HeaderRecord where
  blockHash : PyStr
  row : HeaderRow
deriving DecidableEq

/-- `HeaderRecord.previous_block_hash`. -/
def HeaderRecord.previousBlockHash (record : HeaderRecord) : PyStr :=
  record.row.header.previousBlockHash

/-- `ChainTip`. -/
structure ChainTip where
  blockHash : PyStr
  height : ℕ
deriving DecidableEq

/-- `SnapshotAnchor`. -/
structure SnapshotAnchor where
  height : ℕ
  blockHash : PyStr
deriving DecidableEq

/-- `MempoolEntry`. -/
structure MempoolEntry where
  transaction : Transaction
  fee : Int
  addedAt : Int
deriving DecidableEq

/-- The tables. -/
structure Store where
  headers : Std.ExtTreeMap PyStr HeaderRow
  blocks : Std.ExtTreeMap PyStr Block
  utxos : UtxoSet
  nodeRegistry : Std.ExtTreeMap PyStr NodeRecord
  /-- `reward_attestation_bundles`, by txid. -/
  bundles : Std.ExtTreeMap PyStr StoredRewardAttestationBundle
  /-- `reward_attestation_entries`: the rows of each txid in the order of `bundle_position`. -/
  attestationEntries : Std.ExtTreeMap PyStr (List RewardAttestation)
  /-- `epoch_settlements`, by txid. -/
  settlements : Std.ExtTreeMap PyStr StoredEpochSettlement
  /-- `epoch_settlement_entries`: the rows of each txid. -/
  settlementEntries : Std.ExtTreeMap PyStr (List RewardSettlementEntry)
  /-- The key `chain_tip_hash` of `chain_meta`. -/
  chainTipHash : Option PyStr
  /-- The keys `snapshot_height` and `snapshot_block_hash` of `chain_meta`. -/
  snapshotAnchor : Option SnapshotAnchor
  mempool : Std.ExtTreeMap PyStr MempoolEntry
deriving DecidableEq

/-- The tables of a new database. -/
def Store.empty : Store where
  headers := ∅
  blocks := ∅
  utxos := ∅
  nodeRegistry := ∅
  bundles := ∅
  attestationEntries := ∅
  settlements := ∅
  settlementEntries := ∅
  chainTipHash := none
  snapshotAnchor := none
  mempool := ∅

/-- A program over the tables. -/
abbrev Db := Program Store PyError

/-- A statement that cannot fail. -/
def update (f : Store → Store) : Db Unit := .statement fun store => .ok (f store)

namespace Store

/-! ### Headers -/

/-- `get_record`. -/
def getRecord (store : Store) (blockHash : PyStr) : Option HeaderRecord :=
  store.headers[blockHash]?.map fun row => { blockHash := blockHash, row := row }

/-- `SQLiteHeaderRepository.get`. -/
def getHeader (store : Store) (blockHash : PyStr) : Option BlockHeader :=
  store.headers[blockHash]?.map (·.header)

/-- `get_tip`. -/
def getTip (store : Store) : Option ChainTip := do
  let blockHash ← store.chainTipHash
  let row ← store.headers[blockHash]?
  let height ← row.height
  return { blockHash := blockHash, height := height }

/-- The loop of `path_to_root`, from a hash towards its root; the path so far is at the back. Each
round visits one row, so a path longer than the table would never end. -/
def pathLoop (store : Store) : ℕ → PyStr → List PyStr → Except PyError (List PyStr)
  | 0, _, _ => .error (.runtime "header path does not end")
  | fuel + 1, currentHash, path =>
    if currentHash.isEmpty then .ok path
    else match store.headers[currentHash]? with
      | none => .error (.value "Unknown header in path lookup")
      | some row =>
        if row.header.previousBlockHash = zeroHash then .ok (currentHash :: path)
        else pathLoop store fuel row.header.previousBlockHash (currentHash :: path)

/-- `path_to_root`: the ancestors of a block from the root to the block. -/
def pathToRoot (store : Store) (blockHash : PyStr) : Except PyError (List PyStr) :=
  store.pathLoop (store.headers.size + 1) blockHash []

/-- `get_hash_at_height`: a row of the main chain at the height. -/
def getHashAtHeight (store : Store) (height : ℕ) : Option PyStr :=
  (store.headers.toList.find? fun entry =>
    entry.2.isMainChain && entry.2.height = some height).map Prod.fst

/-- The order of `find_best_tip` and `list_candidate_tips`: by work, height and hash, descending. -/
def compareTips : HeaderRecord → HeaderRecord → Ordering :=
  fun a b => (compareLex (compareOn fun record => record.row.cumulativeWork.getD 0) <|
    compareLex (compareOn fun record => (record.row.height.map (Int.ofNat ·)).getD (-1))
      (compareOn HeaderRecord.blockHash)) b a

/-- The rows with known work, as records. -/
def workRecords (store : Store) : List HeaderRecord :=
  (store.headers.toList.map fun entry => (⟨entry.1, entry.2⟩ : HeaderRecord)).filter
    fun record => record.row.cumulativeWork.isSome

/-- `find_best_tip`. -/
def findBestTip (store : Store) : Option HeaderRecord :=
  (sortBy compareTips store.workRecords).head?

theorem workRecords_row (h : record ∈ db.workRecords) :
    db.headers[record.blockHash]? = some record.row := by
  obtain ⟨entry, hentry, rfl⟩ := List.mem_map.mp (List.mem_of_mem_filter h)
  exact Std.ExtTreeMap.mem_toList_iff_getElem?_eq_some.mp hentry

theorem findBestTip_row {best : HeaderRecord} (h : db.findBestTip = some best) :
    db.headers[best.blockHash]? = some best.row :=
  workRecords_row (mem_sortBy.mp (List.mem_of_mem_head? h))

instance : Std.TransCmp compareTips := by
  unfold compareTips
  exact Std.TransCmp.opposite

/-- **The best header has the most work.** -/
theorem le_work_findBestTip (hstored : db.headers[record.blockHash]? = some record.row)
    (hwork : record.row.cumulativeWork.isSome) :
    ∃ best, db.findBestTip = some best ∧
      record.row.cumulativeWork.getD 0 ≤ best.row.cumulativeWork.getD 0 := by
  have hmem : record ∈ sortBy compareTips db.workRecords := by
    rw [mem_sortBy, workRecords, List.mem_filter, List.mem_map]
    exact ⟨⟨(record.blockHash, record.row),
      Std.ExtTreeMap.mem_toList_iff_getElem?_eq_some.mpr hstored, rfl⟩, hwork⟩
  have hsorted : (sortBy compareTips db.workRecords).Pairwise _ := sortBy_pairwise _
  rw [findBestTip]
  cases hlist : sortBy compareTips db.workRecords with
  | nil => simp [hlist] at hmem
  | cons best rest =>
    rw [hlist] at hmem hsorted
    refine ⟨best, rfl, ?_⟩
    rcases List.mem_cons.mp hmem with rfl | hrest
    · exact le_refl _
    · have hle := List.rel_of_pairwise_cons hsorted hrest
      exact Nat.isLE_compare.mp (Ordering.isLE_left_of_isLE_then hle)

/-- `list_candidate_tips`: the rows that are no row's parent. -/
def listCandidateTips (store : Store) : List HeaderRecord :=
  sortBy compareTips (store.workRecords.filter fun record =>
    !store.headers.toList.any fun entry => entry.2.header.previousBlockHash = record.blockHash)

theorem listCandidateTips_row (h : record ∈ db.listCandidateTips) :
    db.headers[record.blockHash]? = some record.row :=
  workRecords_row (List.mem_of_mem_filter (mem_sortBy.mp h))

/-! ### Reward tables and the registry -/

/-- The order of `list_bundles`. -/
def compareBundles : StoredRewardAttestationBundle → StoredRewardAttestationBundle → Ordering :=
  compareLex (compareOn StoredRewardAttestationBundle.blockHeight) <|
  compareLex (compareOn fun stored => stored.bundle.epochIndex) <|
  compareLex (compareOn fun stored => stored.bundle.bundleWindowIndex)
    (compareOn StoredRewardAttestationBundle.txid)

/-- `list_bundles`. -/
def listBundles (store : Store) : List StoredRewardAttestationBundle :=
  sortBy compareBundles (store.bundles.toList.map Prod.snd)

/-- `attestation_identities`. -/
def attestationIdentities (store : Store) : Finset AttestationIdentity :=
  (store.attestationEntries.toList.flatMap fun entry => entry.2.map attestationIdentity).toFinset

/-- The order of `list_settlements`. -/
def compareSettlements : StoredEpochSettlement → StoredEpochSettlement → Ordering :=
  compareLex (compareOn StoredEpochSettlement.blockHeight) <|
  compareLex (compareOn fun stored => stored.settlement.epochIndex)
    (compareOn StoredEpochSettlement.txid)

/-- `list_settlements`. -/
def listSettlements (store : Store) : List StoredEpochSettlement :=
  sortBy compareSettlements (store.settlements.toList.map Prod.snd)

/-- `settled_epoch_indexes`. -/
def settledEpochIndexes (store : Store) : Finset Int :=
  (store.settlements.toList.map fun entry => entry.2.settlement.epochIndex).toFinset

/-- `SQLiteNodeRegistryRepository.snapshot`: the rows in the order of their node id. -/
def registrySnapshot (store : Store) : NodeRegistryView :=
  .fromRecords (store.nodeRegistry.toList.map Prod.snd)

/-- `list_all` of the mempool. -/
def listMempool (store : Store) : List MempoolEntry :=
  (sortBy (compareLex (compareOn fun entry => entry.2.addedAt) (compareOn Prod.fst))
    store.mempool.toList).map Prod.snd

end Store

/-! ### Writes -/

section

variable [Platform]

/-- `INSERT OR REPLACE INTO headers`. -/
def Store.insertHeader (store : Store) (blockHash : PyStr) (row : HeaderRow) : Store :=
  { store with headers := store.headers.insert blockHash row }

/-- `SQLiteHeaderRepository.put`. -/
def putHeader (header : BlockHeader) (height cumulativeWork : Option ℕ) (isMainChain : Bool) :
    Db Unit := do
  let blockHash ← .ofExcept header.blockHash
  .transact <| update fun store =>
    store.insertHeader blockHash ⟨header, height, cumulativeWork, isMainChain⟩

/-- `INSERT OR REPLACE INTO blocks`. -/
def Store.insertBody (store : Store) (blockHash : PyStr) (block : Block) : Store :=
  { store with blocks := store.blocks.insert blockHash block }

/-- `SQLiteBlockRepository.put`. -/
def putBlock (block : Block) : Db Unit := do
  let blockHash ← .ofExcept block.blockHash
  .transact do
    let _ ← .ofExcept (serializeBlock block)
    update fun store => store.insertBody blockHash block

/-- `set_tip`. -/
def setTip (blockHash : PyStr) (height : ℕ) : Db Unit :=
  .transact do
    update fun store => { store with chainTipHash := some blockHash }
    update fun store => { store with
      headers := store.headers.modify blockHash fun row =>
        { row with height := some height, isMainChain := true } }

/-- The rows of `headers` after `set_main_chain`. -/
def markMainChain (pathHashes : List PyStr) (headers : Std.ExtTreeMap PyStr HeaderRow) :
    Std.ExtTreeMap PyStr HeaderRow :=
  pathHashes.zipIdx.foldl
    (fun headers (blockHash, height) => headers.modify blockHash fun row =>
      { row with isMainChain := true, height := some height })
    (headers.map fun _ row => { row with isMainChain := false })

/-- `set_main_chain`. -/
def setMainChain (pathHashes : List PyStr) : Db Unit :=
  .transact do
    update fun store => { store with headers := markMainChain pathHashes store.headers }
    match pathHashes.getLast? with
    | some tip => update fun store => { store with chainTipHash := some tip }
    | none => pure ()

/-- `spend_utxo`. -/
def spendUtxo (outpoint : OutPoint) : Db Unit :=
  .transact <| update fun store => { store with utxos := store.utxos.erase outpoint }

/-- `put_utxo`. -/
def putUtxo (outpoint : OutPoint) (entry : UtxoEntry) : Db Unit :=
  .transact <| update fun store => { store with utxos := store.utxos.insert outpoint entry }

/-- `SQLiteChainStateRepository.apply_transaction`. -/
def applyTransactionUtxos (transaction : Transaction) (height : ℕ) (isCoinbase : Bool) :
    Db Unit := do
  transaction.inputs.forM fun txInput => spendUtxo txInput.previousOutput
  let txid ← .ofExcept transaction.txid
  (createdEntries txid transaction height isCoinbase).forM fun created =>
    putUtxo created.1 created.2

/-- `SQLiteChainStateRepository.apply_block`. -/
def applyBlockUtxos (block : Block) (height : ℕ) : Db Unit :=
  block.transactions.zipIdx.forM fun (transaction, index) =>
    applyTransactionUtxos transaction height (index == 0)

/-- `SQLiteChainStateRepository.replace_all`. -/
def replaceAllUtxos (entries : UtxoSet) : Db Unit :=
  .transact do
    update fun store => { store with utxos := ∅ }
    update fun store => { store with utxos := entries }

/-- The registry rows after `INSERT OR REPLACE`: rows of the same owner give way. -/
def upsertNodeRow (record : NodeRecord) (rows : Std.ExtTreeMap PyStr NodeRecord) :
    Std.ExtTreeMap PyStr NodeRecord :=
  (rows.filter fun _ row => row.ownerPubkey ≠ record.ownerPubkey).insert record.nodeId record

/-- `SQLiteNodeRegistryRepository.upsert`. -/
def upsertNode (record : NodeRecord) : Db Unit :=
  .transact <| update fun store => { store with
    nodeRegistry := upsertNodeRow record store.nodeRegistry }

/-- `INSERT` of a registry row. -/
def insertNodeRow (rows : Std.ExtTreeMap PyStr NodeRecord) (record : NodeRecord) :
    Except PyError (Std.ExtTreeMap PyStr NodeRecord) := do
  raiseIf (rows.contains record.nodeId ∨
      rows.toList.any fun entry => entry.2.ownerPubkey = record.ownerPubkey)
    (.integrity "UNIQUE constraint failed: node_registry")
  return rows.insert record.nodeId record

/-- `SQLiteNodeRegistryRepository.replace_all`. -/
def replaceAllNodes (records : List NodeRecord) : Db Unit :=
  .transact do
    update fun store => { store with nodeRegistry := ∅ }
    .statement fun store => do
      return { store with nodeRegistry := ← records.foldlM insertNodeRow store.nodeRegistry }

/-- The rows that a list leaves under its key: none when it is empty. -/
def setRows {α : Type} (rows : Std.ExtTreeMap PyStr (List α)) (txid : PyStr) (items : List α) :
    Std.ExtTreeMap PyStr (List α) :=
  if items.isEmpty then rows else rows.insert txid items

/-- `add_bundle`. -/
def addBundle (stored : StoredRewardAttestationBundle) : Db Unit :=
  .transact do
    update fun store => { store with bundles := store.bundles.insert stored.txid stored }
    update fun store => { store with
      attestationEntries := store.attestationEntries.erase stored.txid }
    update fun store => { store with
      attestationEntries :=
        setRows store.attestationEntries stored.txid stored.bundle.attestations }

/-- `SQLiteRewardAttestationRepository.replace_all`. -/
def replaceAllBundles (bundles : List StoredRewardAttestationBundle) : Db Unit :=
  .transact do
    update fun store => { store with attestationEntries := ∅ }
    update fun store => { store with bundles := ∅ }
    bundles.forM addBundle

/-- The settlement rows after `INSERT OR REPLACE`: a row of the same epoch gives way. -/
def upsertSettlementRow (stored : StoredEpochSettlement)
    (rows : Std.ExtTreeMap PyStr StoredEpochSettlement) :
    Std.ExtTreeMap PyStr StoredEpochSettlement :=
  (rows.filter fun _ row => row.settlement.epochIndex ≠ stored.settlement.epochIndex).insert
    stored.txid stored

/-- `add_settlement`. -/
def addSettlement (stored : StoredEpochSettlement) : Db Unit :=
  .transact do
    update fun store => { store with
      settlements := upsertSettlementRow stored store.settlements }
    update fun store => { store with
      settlementEntries := store.settlementEntries.erase stored.txid }
    .statement fun store => do
      raiseIf (¬ (stored.settlement.rewardEntries.map (·.selectionRank)).Nodup)
        (.integrity "UNIQUE constraint failed: epoch_settlement_entries")
      return { store with
        settlementEntries :=
          setRows store.settlementEntries stored.txid stored.settlement.rewardEntries }

/-- `SQLiteEpochSettlementRepository.replace_all`. -/
def replaceAllSettlements (settlements : List StoredEpochSettlement) : Db Unit :=
  .transact do
    update fun store => { store with settlementEntries := ∅ }
    update fun store => { store with settlements := ∅ }
    settlements.forM addSettlement

/-- `SQLiteMempoolRepository.add`. -/
def addMempool (entry : MempoolEntry) : Db Unit :=
  .transact do
    let txid ← .ofExcept entry.transaction.txid
    update fun store => { store with mempool := store.mempool.insert txid entry }

/-- `SQLiteMempoolRepository.remove`. -/
def removeMempool (txid : PyStr) : Db Unit :=
  .transact <| update fun store => { store with mempool := store.mempool.erase txid }

/-- `SQLiteMempoolRepository.clear`. -/
def clearMempool : Db Unit :=
  .transact <| update fun store => { store with mempool := ∅ }

end

end Chipcoin
