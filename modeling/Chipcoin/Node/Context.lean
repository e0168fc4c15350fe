import Chipcoin.Storage.Store

/-!
# Validation contexts

How the node service reads the tables, or a candidate branch, to set up the context of a block or
of a mempool transaction: epoch seeds, required bits, and the registry and reward state.
-/

namespace Chipcoin

open Checked

/-- The configuration of a node. -/
structure NodeConfig where
  params : ConsensusParams
  network : PyStr

/-! ### Epoch seeds -/

/-- `REWARD_EPOCH_SEED_V2_BLOCK_WINDOW`. -/
def rewardEpochSeedV2BlockWindow : ℕ := 16

/-- `_hash_at_height`: from the candidate branch when it reaches that high, else from the main
chain. -/
def hashAtHeight (store : Store) (pathHashes : Option (List PyStr)) (height : ℕ) : Option PyStr :=
  match pathHashes.bind (·[height]?) with
  | some blockHash => some blockHash
  | none => store.getHashAtHeight height

/-- `_previous_epoch_seed_block_hashes` of an epoch whose predecessor closes at the given height:
the last hashes before the epoch, or nothing when one of them is unknown. -/
def previousEpochSeedBlockHashes (hashAt : ℕ → Option PyStr) (network : PyStr) (epochIndex : ℕ)
    (previousCloseHeight : ℕ) : List PyStr :=
  let windowSize :=
    if rewardEpochSeedVersion network epochIndex = 1 then 1 else rewardEpochSeedV2BlockWindow
  let startHeight := previousCloseHeight + 1 - windowSize
  ((List.range' startHeight (previousCloseHeight + 1 - startHeight)).mapM hashAt).getD []

section

variable [Platform]

/-- The loop of `_epoch_seed_map`: `count` epochs from `epochIndex` on, until a hash is missing. -/
def epochSeedLoop (node : NodeConfig) (hashAt : ℕ → Option PyStr) :
    ℕ → ℕ → Std.ExtTreeMap Int Bytes → Except PyError (Std.ExtTreeMap Int Bytes)
  | 0, _, mapping => .ok mapping
  | count + 1, epochIndex, mapping => do
    let previousCloseHeight ← epochCloseHeight ((epochIndex : Int) - 1) node.params
    match hashAt previousCloseHeight.toNat with
    | none => return mapping
    | some previousCloseHash =>
      let seedHashes := previousEpochSeedBlockHashes hashAt node.network epochIndex
        previousCloseHeight.toNat
      if seedHashes.isEmpty then return mapping
      else do
        let seed ← rewardEpochSeed previousCloseHash seedHashes epochIndex node.network
        epochSeedLoop node hashAt count (epochIndex + 1) (mapping.insert epochIndex seed)

/-- `_epoch_seed_map`, with the hashes found by `hashAt`. -/
def epochSeedMap (node : NodeConfig) (hashAt : ℕ → Option PyStr) (nextHeight : ℕ) :
    Except PyError (Std.ExtTreeMap Int Bytes) := do
  let seed ← rewardEpochSeed zeroHash [zeroHash] 0 node.network
  epochSeedLoop node hashAt (nextHeight / node.params.epochLengthBlocks) 1
    ((∅ : Std.ExtTreeMap Int Bytes).insert 0 seed)

end

/-! ### Required bits -/

/-- The retarget rule over the headers below a height: `_expected_bits_for_height` and
`_expected_bits_for_candidate_height`, which differ in where they find a header. -/
def expectedBits (params : ConsensusParams) (headerAt : ℕ → Option BlockHeader) (height : ℕ) :
    Except PyError Int := do
  if height = 0 then return params.genesisBits
  else match headerAt (height - 1) with
    | none => return params.genesisBits
    | some previousHeader =>
      raiseIf (params.difficultyAdjustmentWindow = 0) .zeroDivision
      if height % params.difficultyAdjustmentWindow ≠ 0 then return previousHeader.bits
      else match headerAt (height - params.difficultyAdjustmentWindow) with
        | none => return previousHeader.bits
        | some firstHeader => do
          let actualTimespanSeconds := max 1 (previousHeader.timestamp - firstHeader.timestamp)
          let bits ← calculateNextWorkRequired previousHeader.bits actualTimespanSeconds params
            height
          return bits

/-- The main-chain header at a height. -/
def Store.mainHeaderAt (store : Store) (height : ℕ) : Option BlockHeader :=
  (store.getHashAtHeight height).bind store.getHeader

/-- The header at a height of a branch. -/
def Store.pathHeaderAt (store : Store) (pathHashes : List PyStr) (height : ℕ) :
    Option BlockHeader :=
  pathHashes[height]?.bind store.getHeader

/-- `_expected_bits_for_height`. -/
def expectedBitsForHeight (params : ConsensusParams) (store : Store) (height : ℕ) :
    Except PyError Int :=
  expectedBits params store.mainHeaderAt height

/-- `self.headers.get(path_hashes[index])`. -/
def Store.getHeaderOnPath (store : Store) (pathHashes : List PyStr) (index : ℕ) :
    Except PyError (Option BlockHeader) := do
  return store.getHeader (← orRaise pathHashes[index]? (.index "list index out of range"))

/-- `previous_header` of `_expected_bits_for_candidate_height`. -/
def Store.candidatePreviousHeader (store : Store) (height : ℕ)
    (validatedHeaders : List BlockHeader) : Option (List PyStr) → Except PyError
    (Option BlockHeader)
  | none => .ok validatedHeaders.getLast?
  | some pathHashes => store.getHeaderOnPath pathHashes (height - 1)

/-- `first_header` of `_expected_bits_for_candidate_height`. -/
def Store.candidateFirstHeader (store : Store) (windowStartHeight : ℕ)
    (validatedHeaders : List BlockHeader) : Option (List PyStr) → Except PyError
    (Option BlockHeader)
  | none => do
    return some (← orRaise validatedHeaders[windowStartHeight]? (.index "list index out of range"))
  | some pathHashes => store.getHeaderOnPath pathHashes windowStartHeight

/-- `_expected_bits_for_candidate_height`: the header before the candidate and the first one of the
window are read from the headers validated so far, or from the header table along a path. -/
def expectedBitsForCandidateHeight (params : ConsensusParams) (store : Store) (height : ℕ)
    (validatedHeaders : List BlockHeader) (pathHashes : Option (List PyStr)) :
    Except PyError Int := do
  if height = 0 then return params.genesisBits
  else match ← store.candidatePreviousHeader height validatedHeaders pathHashes with
    | none => return params.genesisBits
    | some previousHeader =>
      raiseIf (params.difficultyAdjustmentWindow = 0) .zeroDivision
      if height % params.difficultyAdjustmentWindow ≠ 0 then return previousHeader.bits
      else do
        let windowStartHeight := height - params.difficultyAdjustmentWindow
        match ← store.candidateFirstHeader windowStartHeight validatedHeaders pathHashes with
        | none => return previousHeader.bits
        | some firstHeader => do
          let actualTimespanSeconds := max 1 (previousHeader.timestamp - firstHeader.timestamp)
          let bits ← calculateNextWorkRequired previousHeader.bits actualTimespanSeconds params
            height
          return bits

/-! ### Contexts -/

/-- The height of the next block. -/
def Store.nextHeight (store : Store) : ℕ := (store.getTip.map (·.height + 1)).getD 0

/-- The timestamp of the tip, zero without one. -/
def Store.tipTimestamp (store : Store) : Int :=
  ((store.getTip.bind fun tip => store.getHeader tip.blockHash).map (·.timestamp)).getD 0

/-- The hash that the next block must name as its parent. -/
def Store.tipHash (store : Store) : PyStr := (store.getTip.map (·.blockHash)).getD zeroHash

/-- The work behind the tip. -/
def Store.tipWork (store : Store) : ℕ :=
  ((store.getTip.bind fun tip => store.getRecord tip.blockHash).bind (·.row.cumulativeWork)).getD 0

/-- `OverlayUtxoView(self.chainstate)`. -/
def Store.overlay (store : Store) : UtxoView := .overlay (.inMemory store.utxos) ∅ ∅

section

variable [Platform]

/-- The context of `apply_block`. -/
def applyBlockContext (node : NodeConfig) (store : Store) : Except PyError ValidationContext := do
  return {
    height := store.nextHeight
    medianTimePast := store.tipTimestamp
    params := node.params
    utxoView := store.overlay
    network := node.network
    nodeRegistryView := store.registrySnapshot
    rewardAttestationIdentities := store.attestationIdentities
    rewardAttestationBundles := store.listBundles.map (·.bundle)
    settledEpochIndexes := store.settledEpochIndexes
    epochSeedByIndex := ← epochSeedMap node (hashAtHeight store none) store.nextHeight
    expectedPreviousBlockHash := some store.tipHash
    expectedBits := some (← expectedBits node.params store.mainHeaderAt store.nextHeight) }

/-- `_validation_context_for_view`. -/
def validationContextForView (node : NodeConfig) (store : Store) (utxoView : UtxoView)
    (registryView : NodeRegistryView) (rewardFeeRegistryCount : Option ℕ) :
    Except PyError ValidationContext := do
  return {
    height := store.nextHeight
    medianTimePast := store.tipTimestamp
    params := node.params
    utxoView := utxoView
    network := node.network
    nodeRegistryView := registryView
    rewardAttestationIdentities := store.attestationIdentities
    rewardAttestationBundles := store.listBundles.map (·.bundle)
    settledEpochIndexes := store.settledEpochIndexes
    epochSeedByIndex := ← epochSeedMap node (hashAtHeight store none) store.nextHeight
    rewardFeeRegistryCount := some (rewardFeeRegistryCount.getD
      (rewardFeeNodeCount registryView store.nextHeight node.params)) }

/-- The context of a block at a height of a candidate branch in `activate_chain`. -/
def branchContext (node : NodeConfig) (store : Store) (pathHashes : List PyStr)
    (state : ReplayState) (height : ℕ) (previousHash : PyStr) (medianTimePast : Int) :
    Except PyError ValidationContext := do
  return {
    height := height
    medianTimePast := medianTimePast
    params := node.params
    utxoView := .inMemory state.utxos
    network := node.network
    nodeRegistryView := state.registry
    rewardAttestationIdentities := state.identities
    rewardAttestationBundles := state.bundles.map (·.bundle)
    settledEpochIndexes := state.settledEpochs
    epochSeedByIndex := ← epochSeedMap node (hashAtHeight store (some pathHashes)) height
    expectedPreviousBlockHash := some previousHash
    expectedBits := some (← expectedBits node.params (store.pathHeaderAt pathHashes) height) }

end

end Chipcoin
