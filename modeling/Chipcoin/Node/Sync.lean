import Chipcoin.Lib.Effect
import Chipcoin.Node.Service

/-!
# The sync manager

`SyncManager` takes headers and blocks from peers, stores them, and activates the strongest chain
whose blocks are there. Its methods raise, and what they have changed by then stays. The caches of
paths and ready tips, the bookkeeping of downloads and the counters of peers are left out: the
caches are dropped before the tables they depend on change, and the rest is not read here.
-/

namespace Chipcoin

open Checked Database Effect

/-! ### State -/

/-- One call of `activate_chain` by the sync manager: the candidate, and the tables before and
after. -/
structure Activation where
  tipHash : PyStr
  before : Store
  after : Store
  /-- What the call raised, if it did. -/
  raised : Option PyError

/-- The tables of the node and the attributes of the sync manager. -/
structure SyncState where
  store : Store
  /-- `_orphan_blocks`: for each unknown parent the blocks that wait for it, by hash. -/
  orphanBlocks : List (PyStr × List (PyStr × Block))
  /-- `_invalid_activation_tips`: the error for each quarantined hash. -/
  invalidActivationTips : Std.ExtTreeMap PyStr PyError
  /-- The activations so far, latest first: a history that no method reads, except that the clock
  goes on from one activation to the next. -/
  activations : List Activation

/-- A new sync manager on a new node. -/
def SyncState.empty : SyncState where
  store := .empty
  orphanBlocks := []
  invalidActivationTips := ∅
  activations := []

/-- A method of the sync manager. -/
abbrev Sync := EStateM PyError SyncState

/-- `SyncManager`, with what the clock answers during each activation. -/
structure SyncManager where
  node : Node
  maxHeaders : ℕ := 2000
  clock : ℕ → ℕ → Int

/-- A manager of a sample node, whose clock stands still. -/
def sampleManager : SyncManager where
  node := { params := sampleParams, network := str "mainnet" }
  clock := fun _ _ => 0

/-- `_MAX_ORPHAN_BLOCKS`. -/
def maxOrphanBlocks : ℕ := 256

/-- A call of a node method on the connection, which is idle between calls. -/
def callNode {α : Type} (program : Db α) : Sync α := fun state =>
  match exec program { committed := state.store } with
  | (.returned value, connection) => .ok value { state with store := connection.committed }
  | (.raised error, connection) => .error error { state with store := connection.committed }
  -- Faults do not occur in these runs.
  | (.interrupted, connection) | (.stopped, connection) =>
    .error (.runtime "interrupted") { state with store := connection.committed }

/-! ### Reading the header table -/

namespace Store

/-- `_best_header_needs_blocks`: the header has more work than the active tip, or is higher. -/
def needsBlocks (store : Store) (best : HeaderRecord) : Bool :=
  match store.getTip with
  | none => true
  | some tip =>
    if best.blockHash = tip.blockHash then false
    else
      decide (best.row.cumulativeWork.getD 0 > store.tipWork) ||
        best.row.height.any (· > tip.height)

/-- The part of a path above the snapshot; nothing when the path does not go through it. -/
def aboveAnchor (store : Store) (pathHashes : List PyStr) : Option (List PyStr) :=
  match store.snapshotAnchor with
  | none => some pathHashes
  | some anchor =>
    if pathHashes[anchor.height]? = some anchor.blockHash
    then some (pathHashes.drop (anchor.height + 1)) else none

/-- `missing_blocks_for_tip`. -/
def missingBlocksForTip (store : Store) (tipHash : PyStr) : Except PyError (List PyStr) := do
  let pathHashes ← store.pathToRoot tipHash
  let pathHashes ← orRaise (store.aboveAnchor pathHashes) (.value "snapshot anchor mismatch")
  return pathHashes.filter fun blockHash => store.blocks[blockHash]?.isNone

/-- The missing blocks of the best header. -/
def missingBlocksForBest (store : Store) : Except PyError (List PyStr) :=
  match store.findBestTip with
  | none => .ok []
  | some best => store.missingBlocksForTip best.blockHash

/-- The last hash of a path up to which all bodies are stored. -/
def readyPrefix (store : Store) (pathHashes : List PyStr) : Option PyStr :=
  ((pathHashes.takeWhile fun blockHash => store.blocks[blockHash]?.isSome).getLast?).or
    (store.snapshotAnchor.map (·.blockHash))

/-- One round of the loop of `best_ready_tip`. -/
def candidateReadyTip (store : Store) (invalid : Std.ExtTreeMap PyStr PyError)
    (candidate : HeaderRecord) : Except PyError (Option PyStr) :=
  if store.needsBlocks candidate = false then .ok none
  else do
    let pathHashes ← store.pathToRoot candidate.blockHash
    return do
      let pathHashes ← store.aboveAnchor pathHashes
      if pathHashes.any (invalid.contains ·) then none
      else do
        let readyTip ← store.readyPrefix pathHashes
        if invalid.contains readyTip then none
        else do
          let record ← store.getRecord readyTip
          if store.needsBlocks record then some readyTip else none

/-- The loop of `best_ready_tip`. -/
def firstReadyTip (store : Store) (invalid : Std.ExtTreeMap PyStr PyError) :
    List HeaderRecord → Except PyError (Option PyStr)
  | [] => .ok none
  | candidate :: rest => do
    match ← store.candidateReadyTip invalid candidate with
    | some readyTip => return some readyTip
    | none => firstReadyTip store invalid rest

/-- `best_ready_tip`: the ready part of the strongest leaf that has one and is not quarantined. -/
def bestReadyTip (store : Store) (invalid : Std.ExtTreeMap PyStr PyError) :
    Except PyError (Option PyStr) :=
  store.firstReadyTip invalid store.listCandidateTips

/-- The path of a tip; without a tip it is empty. -/
def pathOfTip (store : Store) (tip : Option ChainTip) : Except PyError (List PyStr) :=
  match tip with
  | none => .ok []
  | some tip => store.pathToRoot tip.blockHash

/-- The loop of `_is_ancestor_hash`; each round visits one row. -/
def isAncestorLoop (store : Store) (ancestor : HeaderRecord) : ℕ → HeaderRecord → Bool
  | 0, _ => false
  | fuel + 1, current =>
    if current.blockHash = ancestor.blockHash then true
    else if current.previousBlockHash = zeroHash then false
    else if (ancestor.row.height.any fun height =>
        current.row.height.any fun currentHeight => currentHeight ≤ height) then false
    else match store.getRecord current.previousBlockHash with
      | none => false
      | some parent => isAncestorLoop store ancestor fuel parent

/-- `_is_ancestor_hash`. -/
def isAncestorHash (store : Store) (ancestorHash : PyStr) (descendant : HeaderRecord) : Bool :=
  match store.getRecord ancestorHash with
  | none => false
  | some ancestor =>
    if (ancestor.row.height.any fun height =>
        descendant.row.height.any fun currentHeight => height > currentHeight) then false
    else isAncestorLoop store ancestor (store.headers.size + 1) descendant

end Store

section

variable [Platform]

/-! ### Header checks -/

/-- `_expected_bits_for_candidate_header`. -/
def expectedBitsForCandidateHeader (params : ConsensusParams) (store : Store)
    (parentRecord : Option HeaderRecord) (height : ℕ) : Except PyError Int :=
  match parentRecord with
  | none => .ok params.genesisBits
  | some parent =>
    if height = 0 then .ok params.genesisBits
    else do
      let previousHeader := parent.row.header
      raiseIf (params.difficultyAdjustmentWindow = 0) .zeroDivision
      if height % params.difficultyAdjustmentWindow ≠ 0 then return previousHeader.bits
      else do
        let pathHashes ← store.pathToRoot parent.blockHash
        let firstHash ← orRaise pathHashes[height - params.difficultyAdjustmentWindow]?
          (.index "tuple index out of range")
        match store.getHeader firstHash with
        | none => return previousHeader.bits
        | some firstHeader =>
          calculateNextWorkRequired previousHeader.bits
            (max 1 (previousHeader.timestamp - firstHeader.timestamp)) params height

/-- `_validate_header_candidate`. -/
def validateHeaderCandidate (params : ConsensusParams) (store : Store) (header : BlockHeader)
    (parentRecord : Option HeaderRecord) (height : ℕ) : Except PyError Unit := do
  raiseIf (header.timestamp < 0) (.stateless "Header timestamp cannot be negative.")
  raiseIf ((← verifyProofOfWork header) = false) (.stateless "Header proof of work is invalid.")
  raiseIf (parentRecord.any fun parent => header.previousBlockHash ≠ parent.blockHash)
    (.contextual "Header does not connect to the expected parent.")
  raiseIf (parentRecord.any fun parent => header.timestamp < parent.row.header.timestamp)
    (.contextual "Header timestamp is below the previous header timestamp.")
  let expectedBits ← expectedBitsForCandidateHeader params store parentRecord height
  raiseIf (header.bits ≠ expectedBits)
    (.contextual "Header bits do not match expected difficulty target.")

/-- The height of a header under a parent; the zero hash has none. -/
def heightUnder (parentRecord : Option HeaderRecord) : Except PyError ℕ :=
  match parentRecord with
  | none => .ok 0
  | some parent => do
    let height ← orRaise parent.row.height (.type "int() argument must not be NoneType")
    return height + 1

/-- The work of a header added to that of its parent. -/
def workUnder (parentRecord : Option HeaderRecord) (header : BlockHeader) : Except PyError ℕ := do
  return (parentRecord.bind (·.row.cumulativeWork)).getD 0 + (← headerWork header)

/-! ### Headers -/

/-- `HeaderIngestResult`. -/
structure HeaderIngestResult where
  headersReceived : ℕ
  parentUnknown : Option PyStr
  bestTipHash : Option PyStr
  bestTipHeight : Option ℕ
  missingBlockHashes : List PyStr
  needsMoreHeaders : Bool

/-- A new header names the header before it in the batch as its parent. -/
def checkConnects (previousInBatch : Option BlockHeader) (parentHash : PyStr) :
    Except PyError Unit :=
  match previousInBatch with
  | none => .ok ()
  | some previous => do
    let previousHash ← previous.blockHash
    raiseIf (parentHash ≠ previousHash)
      (.contextual "Header sequence does not connect to the previous header.")

/-- The record of a parent; the zero hash has none. -/
def Store.parentRecord (store : Store) (parentHash : PyStr) : Option HeaderRecord :=
  if parentHash = zeroHash then none else store.getRecord parentHash

/-- The check and the insertion of one new header whose parent is known. -/
def storeHeader (params : ConsensusParams) (header : BlockHeader)
    (parentRecord : Option HeaderRecord) : Sync Unit := do
  let height ← check (heightUnder parentRecord)
  check (validateHeaderCandidate params (← get).store header parentRecord height)
  let cumulativeWork ← check (workUnder parentRecord header)
  callNode (putHeader header (some height) (some cumulativeWork) false)

/-- The loop of `ingest_headers`: how many headers were stored, and the parent that is missing. -/
def ingestLoop (params : ConsensusParams) :
    List BlockHeader → Option BlockHeader → ℕ → Sync (ℕ × Option PyStr)
  | [], _, stored => return (stored, none)
  | header :: rest, previousInBatch, stored => do
    let blockHash ← check header.blockHash
    if ((← get).store.getRecord blockHash).isSome then ingestLoop params rest (some header) stored
    else do
      let parentHash := header.previousBlockHash
      check (checkConnects previousInBatch parentHash)
      let parentRecord := (← get).store.parentRecord parentHash
      if parentHash ≠ zeroHash ∧ parentRecord.isNone then return (stored, some parentHash)
      else do
        storeHeader params header parentRecord
        ingestLoop params rest (some header) (stored + 1)

/-- `ingest_headers`. -/
def ingestHeaders (manager : SyncManager) (headers : List BlockHeader) :
    Sync HeaderIngestResult := do
  let (stored, parentUnknown) ← ingestLoop manager.node.params headers none 0
  let store := (← get).store
  let missing ← check (store.missingBlocksForBest)
  return {
    headersReceived := stored
    parentUnknown := parentUnknown
    bestTipHash := store.findBestTip.map (·.blockHash)
    bestTipHeight := store.findBestTip.bind (·.row.height)
    missingBlockHashes := missing
    needsMoreHeaders := headers.length ≥ manager.maxHeaders }

/-! ### Activation -/

/-- `SyncResult`, as activation fills it in. -/
structure SyncResult where
  activatedTip : Option PyStr
  reorged : Bool := false
  reorgDepth : ℕ := 0
  oldTip : Option PyStr := none
  newTip : Option PyStr := none
  commonAncestor : Option PyStr := none
  readdedTransactionCount : ℕ := 0

/-- `except (StatelessValidationError, ContextualValidationError, ValueError)`. -/
def PyError.isActivationError : PyError → Bool
  | .stateless _ | .contextual _ | .value _ => true
  | _ => false

/-- `self.node.activate_chain(tip_hash)`, recorded in the history. -/
def activateTip (manager : SyncManager) (tipHash : PyStr) : Sync ChainActivationResult := do
  let before ← get
  let record (raised : Option PyError) : Sync Unit := modify fun state => { state with
    activations := ⟨tipHash, before.store, state.store, raised⟩ :: state.activations }
  let clock := manager.clock before.activations.length
  let result ← tryCatch (callNode (activateChain manager.node clock tipHash)) fun error => do
    record (some error)
    throw error
  record none
  return result

/-- The quarantine after a failed activation: the hashes of the candidate path that are not on the
path of the current tip. -/
def quarantine (currentTip : Option ChainTip) (readyTip : PyStr) (error : PyError) :
    Sync Unit := do
  let store := (← get).store
  let currentPath ← check (store.pathOfTip currentTip)
  let readyPath ← check (store.pathToRoot readyTip)
  modify fun state => { state with
    invalidActivationTips := (readyPath.filter (· ∉ currentPath)).foldl
      (fun invalid blockHash => invalid.insert blockHash error) state.invalidActivationTips }

/-- The end of `activate_best_chain_if_ready`, once a tip is chosen; `activate` is what is called as
`activate_chain`. -/
def activateReadyTipWith (activate : PyStr → Sync ChainActivationResult) (readyTip : HeaderRecord)
    (raiseOnInvalid : Bool) : Sync SyncResult := do
  let store := (← get).store
  let currentTip := store.getTip
  let reorged := currentTip.any fun tip =>
    tip.blockHash ≠ readyTip.blockHash ∧ ¬ store.isAncestorHash tip.blockHash readyTip
  tryCatch
    (do
      let activation ← activate readyTip.blockHash
      return {
        activatedTip := some readyTip.blockHash
        reorged := reorged
        reorgDepth := activation.reorgDepth
        oldTip := activation.oldTip
        newTip := some activation.newTip
        commonAncestor := activation.commonAncestor
        readdedTransactionCount := activation.readdedTransactionCount })
    fun error =>
      if error.isActivationError then do
        quarantine currentTip readyTip.blockHash error
        if raiseOnInvalid then throw error
        else return { activatedTip := currentTip.map (·.blockHash) }
      else throw error

/-- The end of `activate_best_chain_if_ready` on the node of the manager. -/
def activateReadyTip (manager : SyncManager) (readyTip : HeaderRecord) (raiseOnInvalid : Bool) :
    Sync SyncResult :=
  activateReadyTipWith (activateTip manager) readyTip raiseOnInvalid

/-- The tip that `activate_best_chain_if_ready` decides to activate, if any. -/
def chosenTip (state : SyncState) : Except PyError (Option HeaderRecord) :=
  match state.store.findBestTip with
  | none => .ok none
  | some best =>
    if state.store.needsBlocks best = false then .ok none
    else do
      let readyTip ← state.store.bestReadyTip state.invalidActivationTips
      return do
        let readyTip ← readyTip
        if state.invalidActivationTips.contains readyTip then none
        else do
          let record ← state.store.getRecord readyTip
          if state.store.needsBlocks record then some record else none

/-- `activate_best_chain_if_ready`, calling `activate` as `activate_chain`. -/
def activateBestChainIfReadyWith (activate : PyStr → Sync ChainActivationResult)
    (raiseOnInvalid : Bool) : Sync SyncResult := do
  let state ← get
  match ← check (chosenTip state) with
  | none => return { activatedTip := state.store.getTip.map (·.blockHash) }
  | some readyTip => activateReadyTipWith activate readyTip raiseOnInvalid

/-- `activate_best_chain_if_ready`. -/
def activateBestChainIfReady (manager : SyncManager) (raiseOnInvalid : Bool) :
    Sync SyncResult :=
  activateBestChainIfReadyWith (activateTip manager) raiseOnInvalid

/-! ### Blocks -/

/-- `BlockIngestResult`. -/
structure BlockIngestResult where
  blockHash : PyStr
  activation : SyncResult
  parentUnknown : Option PyStr
  acceptedBlocks : ℕ

/-- `_remember_orphan`: the bucket of the parent moves to the end, and the oldest buckets go. -/
def rememberOrphan (block : Block) (blockHash : PyStr)
    (orphans : List (PyStr × List (PyStr × Block))) : List (PyStr × List (PyStr × Block)) :=
  let parentHash := block.header.previousBlockHash
  let bucket := (orphans.lookup parentHash).getD []
  let updated := orphans.filter (·.1 ≠ parentHash) ++
    [(parentHash, bucket.filter (·.1 ≠ blockHash) ++ [(blockHash, block)])]
  updated.drop (updated.length - maxOrphanBlocks)

/-- The blocks that wait for a parent, by their hash. -/
def pendingChildren (orphans : List (PyStr × List (PyStr × Block))) (parentHash : PyStr) :
    List Block :=
  (Sorting.sortBy (compareOn Prod.fst) ((orphans.lookup parentHash).getD [])).map Prod.snd

/-- The header of a received block is stored as it is, unless it is known. -/
def storeBlockHeader (block : Block) (blockHash : PyStr) (parentRecord : Option HeaderRecord) :
    Sync Unit := do
  if ((← get).store.getRecord blockHash).isSome then return ()
  else do
    let height ← check (heightUnder parentRecord)
    let cumulativeWork ← check (workUnder parentRecord block.header)
    callNode (putHeader block.header (some height) (some cumulativeWork) false)

/-- The header and the body of a block whose parent is known are stored before any check. -/
def storeBlock (block : Block) (blockHash : PyStr) (parentRecord : Option HeaderRecord) :
    Sync Unit := do
  storeBlockHeader block blockHash parentRecord
  callNode (putBlock block)

/-- `_accept_pending_children`: the blocks that wait for a parent are received in turn. -/
def acceptPendingChildren (receive : Block → Sync BlockIngestResult) (parentHash : PyStr) :
    Sync ℕ := do
  let pending := pendingChildren (← get).orphanBlocks parentHash
  modify fun state => { state with
    orphanBlocks := state.orphanBlocks.filter (·.1 ≠ parentHash) }
  pending.foldlM (fun accepted child => do
    return accepted + (← receive child).acceptedBlocks) 0

/-- The body of `receive_block`, calling `activate` as `activate_chain`. Every level of its
recursion takes a bucket from the orphans, so their number bounds the depth. -/
def receiveBlockWith (activate : PyStr → Sync ChainActivationResult) :
    ℕ → Block → Sync BlockIngestResult
  | 0, _ => throw (.runtime "maximum recursion depth exceeded")
  | fuel + 1, block => do
    let blockHash ← check block.blockHash
    let state ← get
    if state.store.blocks[blockHash]?.isSome then do
      let activation ← activateBestChainIfReadyWith activate true
      let accepted ← acceptPendingChildren (receiveBlockWith activate fuel) blockHash
      return ⟨blockHash, activation, none, accepted⟩
    else do
      let parentHash := block.header.previousBlockHash
      let parentRecord := state.store.parentRecord parentHash
      if parentHash ≠ zeroHash ∧ parentRecord.isNone then do
        modify fun state => { state with
          orphanBlocks := rememberOrphan block blockHash state.orphanBlocks }
        return ⟨blockHash, { activatedTip := state.store.getTip.map (·.blockHash) },
          some parentHash, 0⟩
      else do
        storeBlock block blockHash parentRecord
        let accepted ← acceptPendingChildren (receiveBlockWith activate fuel) blockHash
        let activation ← activateBestChainIfReadyWith activate true
        return ⟨blockHash, activation, none, 1 + accepted⟩

/-- The body of `receive_block` on the node of the manager. -/
def receiveBlockLoop (manager : SyncManager) : ℕ → Block → Sync BlockIngestResult :=
  receiveBlockWith (activateTip manager)

/-- `receive_block`. -/
def receiveBlock (manager : SyncManager) (block : Block) : Sync BlockIngestResult := do
  receiveBlockLoop manager ((← get).orphanBlocks.length + 1) block

end

end Chipcoin
