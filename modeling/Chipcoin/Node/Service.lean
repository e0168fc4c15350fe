import Chipcoin.Node.Mempool

/-!
# Applying blocks and activating branches

`apply_block` extends the active chain by one block; `activate_chain` moves it to the tip of a
stored branch, replaying the branch in memory before it replaces the tables. Both write inside one
`sqlite_transaction` block, which is a transaction block of the connection around those of the
repositories.
-/

namespace Chipcoin

open Checked Database

section

variable [Platform]

/-! ### One block -/

/-- `_apply_node_registry_block` on the registry table. -/
def applyNodeRegistryRows (block : Block) (height : ℕ) : Db Unit :=
  block.transactions.tail.forM fun transaction =>
    if isSpecialNodeTransaction transaction then do
      let store ← .get
      let record ← .ofExcept (specialNodeRecord transaction height (store.nodeRegistry[·]?))
      upsertNode record
    else pure ()

/-- `_apply_native_reward_block`. -/
def applyNativeRewardBlock (block : Block) (height : ℕ) : Db Unit :=
  block.transactions.tail.forM fun transaction => do
    match ← .ofExcept (rewardPayload height transaction) with
    | some (.bundle stored) => addBundle stored
    | some (.settlement stored) => addSettlement stored
    | none => pure ()

/-- The writes of `apply_block` before it moves the tip. -/
def blockRows (block : Block) (height previousCumulativeWork : ℕ) : Db Unit := do
  let work ← .ofExcept (headerWork block.header)
  putHeader block.header (some height) (some (previousCumulativeWork + work)) true
  putBlock block
  applyBlockUtxos block height
  applyNodeRegistryRows block height
  applyNativeRewardBlock block height

/-- `apply_block`: the total fees of the block. -/
def applyBlock (node : Node) (clock : ℕ → Int) (block : Block) : Db Int := do
  let store ← .get
  let context ← .ofExcept (applyBlockContext node.toNodeConfig store)
  let totalFees ← .ofExcept (validateBlock block context)
  .transact do
    blockRows block store.nextHeight store.tipWork
    setTip (← .ofExcept block.blockHash) store.nextHeight
    reconcile node clock []
  return totalFees

/-! ### Replaying a branch -/

/-- The local variables of `activate_chain` while it walks a branch. -/
structure BranchState where
  state : ReplayState
  previousHash : PyStr
  medianTimePast : Int

/-- The variables before the first block of a chain. -/
def BranchState.empty : BranchState where
  state := .empty
  previousHash := zeroHash
  medianTimePast := 0

/-- One round of the loops of `activate_chain`. -/
def replayStep (node : NodeConfig) (store : Store) (pathHashes : List PyStr)
    (branch : BranchState) (step : PyStr × ℕ) : Except PyError BranchState := do
  let (blockHash, height) := step
  let block ← orRaise store.blocks[blockHash]?
    (.value "Cannot activate chain without stored block")
  let context ← branchContext node store pathHashes branch.state height branch.previousHash
    branch.medianTimePast
  let _ ← validateBlock block context
  let state ← branch.state.connectBlock block height
  return {
    state := state
    previousHash := blockHash
    medianTimePast := block.header.timestamp }

/-- The blocks of a branch from a height on. -/
def replayBranch (node : NodeConfig) (store : Store) (pathHashes : List PyStr) (start : ℕ)
    (branch : BranchState) : Except PyError BranchState :=
  (pathHashes.zipIdx.drop start).foldlM (replayStep node store pathHashes) branch

/-- The variables as read from the tables, when the branch extends the active chain. -/
def Store.replayState (store : Store) : ReplayState where
  utxos := store.utxos
  registry := store.registrySnapshot
  bundles := store.listBundles
  settlements := store.listSettlements
  identities := store.attestationIdentities
  settledEpochs := store.settledEpochIndexes

/-- The length of the common beginning of two paths. -/
def commonPrefix : List PyStr → List PyStr → ℕ
  | a :: as, b :: bs => if a = b then commonPrefix as bs + 1 else 0
  | _, _ => 0

/-- The candidate chain goes through the snapshot that the node was started from. -/
def checkSnapshotAnchor (anchor : Option SnapshotAnchor) (pathHashes : List PyStr) :
    Except PyError Unit :=
  match anchor with
  | none => .ok ()
  | some anchor => raiseIf (pathHashes[anchor.height]? ≠ some anchor.blockHash)
      (.value "candidate chain does not match the trusted snapshot anchor")

/-- `_disconnected_branch_transactions`, given the hashes that leave the active chain. -/
def disconnectedTransactions (store : Store) (disconnectedHashes : List PyStr) :
    List Transaction :=
  disconnectedHashes.flatMap fun blockHash =>
    match store.blocks[blockHash]? with
    | some block => block.transactions.tail
    | none => []

/-! ### Activation -/

/-- `ChainActivationResult`. -/
structure ChainActivationResult where
  activatedTip : PyStr
  appliedBlocks : ℕ
  reorged : Bool
  reorgDepth : ℕ
  oldTip : Option PyStr
  newTip : PyStr
  commonAncestor : Option PyStr
  disconnectedBlocks : ℕ
  readdedTransactionCount : ℕ

/-- What `activate_chain` has computed about a branch before it writes. -/
structure BranchPlan where
  pathHashes : List PyStr
  oldPath : List PyStr
  branch : BranchState

/-- The path of the current tip. -/
def Store.activePath (store : Store) : Except PyError (List PyStr) :=
  match store.getTip with
  | none => .ok []
  | some tip => store.pathToRoot tip.blockHash

/-- The replay of a candidate path: from the tables if it extends the active one, and otherwise from
the first block. The source replays the common part first, and then the rest by the same loop. -/
def replayCandidate (node : NodeConfig) (store : Store) (oldPath pathHashes : List PyStr) :
    Except PyError BranchState :=
  let common := commonPrefix oldPath pathHashes
  if store.getTip.isSome && common = oldPath.length then
    replayBranch node store pathHashes common {
      state := store.replayState
      previousHash := store.tipHash
      medianTimePast := store.tipTimestamp }
  else replayBranch node store pathHashes 0 .empty

/-- The reading part of `activate_chain` for a branch: paths, snapshot check and replay. -/
def planBranch (node : NodeConfig) (store : Store) (tipHash : PyStr) :
    Except PyError BranchPlan := do
  let pathHashes ← store.pathToRoot tipHash
  checkSnapshotAnchor store.snapshotAnchor pathHashes
  let oldPath ← store.activePath
  let branch ← replayCandidate node store oldPath pathHashes
  return { pathHashes := pathHashes, oldPath := oldPath, branch := branch }

/-- **Inversion of the reading part.** -/
theorem planBranch_ok {node : NodeConfig} {db : Store} {tipHash : PyStr} {plan : BranchPlan}
    (h : planBranch node db tipHash = .ok plan) :
    db.pathToRoot tipHash = .ok plan.pathHashes ∧
      checkSnapshotAnchor db.snapshotAnchor plan.pathHashes = .ok () ∧
      db.activePath = .ok plan.oldPath ∧
      replayCandidate node db plan.oldPath plan.pathHashes = .ok plan.branch := by
  simp only [planBranch, bind_eq_ok, pure_eq_ok] at h
  obtain ⟨pathHashes, hpath, _, hanchor, oldPath, hold, branch, hbranch, rfl⟩ := h
  exact ⟨hpath, hanchor, hold, hbranch⟩

/-- The writes of `activate_chain` before it moves the tip. -/
def branchRows (state : ReplayState) : Db Unit := do
  replaceAllUtxos state.utxos
  replaceAllNodes state.registry.listRecords
  replaceAllBundles state.bundles
  replaceAllSettlements state.settlements

/-- The transactions of the blocks that leave the active chain. -/
def BranchPlan.disconnected (plan : BranchPlan) (store : Store) : List Transaction :=
  disconnectedTransactions store (plan.oldPath.drop (commonPrefix plan.oldPath plan.pathHashes))

/-- The part of `activate_chain` for a branch that is not one block on top of the tip. -/
def activateBranch (node : Node) (clock : ℕ → Int) (tipHash : PyStr) :
    Db ChainActivationResult := do
  let store ← .get
  let plan ← .ofExcept (planBranch node.toNodeConfig store tipHash)
  let common := commonPrefix plan.oldPath plan.pathHashes
  let disconnectedHashes := plan.oldPath.drop common
  let oldTip := store.getTip.map (·.blockHash)
  .transact do
    branchRows plan.branch.state
    setMainChain plan.pathHashes
    reconcile node clock (plan.disconnected store)
  return {
    activatedTip := tipHash
    appliedBlocks := plan.pathHashes.length - common
    reorged := oldTip.any fun old => old ≠ tipHash ∧ old ∉ plan.pathHashes
    reorgDepth := disconnectedHashes.length
    oldTip := oldTip
    newTip := tipHash
    commonAncestor := if common = 0 then none else plan.pathHashes[common - 1]?
    disconnectedBlocks := disconnectedHashes.length
    readdedTransactionCount := (plan.disconnected store).length }

/-- The result of an activation that does not leave the current tip behind. -/
def ChainActivationResult.onTip (oldTip : Option PyStr) (tipHash : PyStr) (appliedBlocks : ℕ) :
    ChainActivationResult where
  activatedTip := tipHash
  appliedBlocks := appliedBlocks
  reorged := false
  reorgDepth := 0
  oldTip := oldTip
  newTip := tipHash
  commonAncestor := oldTip
  disconnectedBlocks := 0
  readdedTransactionCount := 0

/-- The candidate is one block on top of the current tip. -/
def Store.extendsTip (store : Store) (tipHash : PyStr) : Bool :=
  match store.getTip, store.getRecord tipHash with
  | some tip, some record => record.previousBlockHash = tip.blockHash
  | _, _ => false

/-- `activate_chain`. -/
def activateChain (node : Node) (clock : ℕ → Int) (tipHash : PyStr) :
    Db ChainActivationResult := do
  let store ← .get
  let oldTip := store.getTip.map (·.blockHash)
  if oldTip = some tipHash then return .onTip oldTip tipHash 0
  else if store.extendsTip tipHash then do
    let block ← .ofExcept (orRaise store.blocks[tipHash]?
      (.value "Cannot activate chain without stored block"))
    let _ ← applyBlock node clock block
    return .onTip oldTip tipHash 1
  else activateBranch node clock tipHash

end

end Chipcoin
