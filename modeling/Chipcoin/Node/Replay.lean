import Chipcoin.Consensus.Validation

/-!
# Connecting blocks

The part of the node state that consensus validation reads, and the effect of a connected block on
it: outputs, node registry, attestation bundles and settlements. `activate_chain` keeps it in local
variables while it replays a branch; `apply_block` writes the same changes to the tables.
-/

namespace Chipcoin

open Checked

/-- `StoredRewardAttestationBundle`. -/
structure StoredRewardAttestationBundle where
  txid : PyStr
  blockHeight : ℕ
  bundle : RewardAttestationBundle
deriving DecidableEq

/-- `StoredEpochSettlement`. -/
structure StoredEpochSettlement where
  txid : PyStr
  blockHeight : ℕ
  settlement : RewardSettlement
deriving DecidableEq

/-- The local variables of `activate_chain` that the replayed blocks change. -/
structure ReplayState where
  utxos : UtxoSet
  registry : NodeRegistryView
  /-- `reward_attestation_bundles`, in the order of their blocks and transactions. -/
  bundles : List StoredRewardAttestationBundle
  /-- `reward_settlements`. -/
  settlements : List StoredEpochSettlement
  /-- `reward_attestation_identities`. -/
  identities : Finset AttestationIdentity
  /-- `settled_epoch_indexes`. -/
  settledEpochs : Finset Int

/-- The state before the first block. -/
def ReplayState.empty : ReplayState where
  utxos := ∅
  registry := .empty
  bundles := []
  settlements := []
  identities := ∅
  settledEpochs := ∅

section

variable [Platform]

/-- The registry actions among some transactions, on an in-memory registry. -/
def applyNodeRegistry (transactions : List Transaction) (height : ℕ)
    (registry : NodeRegistryView) : Except PyError NodeRegistryView :=
  transactions.foldlM
    (fun registry transaction =>
      if isSpecialNodeTransaction transaction then
        applySpecialNodeTransaction transaction height registry
      else .ok registry)
    registry

/-- `_apply_node_registry_block`: the coinbase is passed over. -/
def applyNodeRegistryBlock (block : Block) :
    ℕ → NodeRegistryView → Except PyError NodeRegistryView :=
  applyNodeRegistry block.transactions.tail

/-- One reward payload of a block, as `_collect_native_reward_block` finds it. -/
inductive RewardPayload
  | bundle (stored : StoredRewardAttestationBundle)
  | settlement (stored : StoredEpochSettlement)

/-- The reward payload that a transaction carries, if any. -/
def rewardPayload (height : ℕ) (transaction : Transaction) :
    Except PyError (Option RewardPayload) :=
  if isRewardAttestationBundleTransaction transaction then do
    let bundle ← parseRewardAttestationBundleMetadata transaction
    return some (.bundle { txid := ← transaction.txid, blockHeight := height, bundle := bundle })
  else if isRewardSettleEpochTransaction transaction then do
    let settlement ← parseRewardSettlementMetadata transaction
    return some (.settlement
      { txid := ← transaction.txid, blockHeight := height, settlement := settlement })
  else return none

/-- What a reward payload adds to the replayed state. -/
def ReplayState.addPayload (state : ReplayState) : RewardPayload → ReplayState
  | .bundle stored => { state with
      bundles := state.bundles ++ [stored]
      identities := state.identities ∪ (stored.bundle.attestations.map
        attestationIdentity).toFinset }
  | .settlement stored =>
    { state with
      settlements := state.settlements ++ [stored]
      settledEpochs := insert stored.settlement.epochIndex state.settledEpochs }

/-- The reward payloads of some transactions, added to the replayed state in their order. -/
def collectRewards (transactions : List Transaction) (height : ℕ) (state : ReplayState) :
    Except PyError ReplayState :=
  transactions.foldlM
    (fun state transaction => do
      match ← rewardPayload height transaction with
      | some payload => return state.addPayload payload
      | none => return state)
    state

/-- `_collect_native_reward_block`: the coinbase is passed over. -/
def collectNativeRewardBlock (block : Block) : ℕ → ReplayState → Except PyError ReplayState :=
  collectRewards block.transactions.tail

/-- The effect of a block on the replayed state. -/
def ReplayState.connectBlock (state : ReplayState) (block : Block) (height : ℕ) :
    Except PyError ReplayState := do
  let utxos ← state.utxos.applyBlock block height
  let registry ← applyNodeRegistryBlock block height state.registry
  collectNativeRewardBlock block height { state with utxos := utxos, registry := registry }

/-- Collecting rewards does not touch the outputs and the registry. -/
theorem collectNativeRewardBlock_frame {block : Block} {height : ℕ} {state state' : ReplayState}
    (h : collectNativeRewardBlock block height state = .ok state') :
    state'.utxos = state.utxos ∧ state'.registry = state.registry := by
  refine foldlM_invariant (fun s => s.utxos = state.utxos ∧ s.registry = state.registry) ?_ h
    ⟨rfl, rfl⟩
  intro s tx s' _ hstep hs
  obtain ⟨payload, -, hadd⟩ := bind_eq_ok.mp hstep
  cases payload with
  | none =>
    obtain rfl := pure_eq_ok.mp hadd
    exact hs
  | some payload =>
    obtain rfl := pure_eq_ok.mp hadd
    cases payload with
    | bundle stored => exact hs
    | settlement stored => exact hs

theorem ReplayState.connectBlock_utxos {state state' : ReplayState} {block : Block} {height : ℕ}
    (h : state.connectBlock block height = .ok state') :
    state.utxos.applyBlock block height = .ok state'.utxos := by
  simp only [ReplayState.connectBlock, bind_eq_ok] at h
  obtain ⟨utxos, hutxos, registry, -, hcollect⟩ := h
  rw [hutxos, (collectNativeRewardBlock_frame hcollect).1]

end

end Chipcoin
