import Chipcoin.Consensus.Registry
import Chipcoin.Node.Replay

/-!
# Chains as lists of blocks

`AcceptedBlocks` is a chain of accepted blocks, with the blocks themselves and a condition that each
of them meets. A block is accepted in a context that shows the outputs and the registry records
which its predecessors have left; the rest of the context is free. A node that follows the chain
live and a node that replays it both validate in such contexts.

* `AcceptedBlocks.unique`: the registry of a chain is unique.
* `registryRun_of_connected`: the registry actions of a block, on the registry of the chain.
-/

namespace Chipcoin

open Checked

variable {block : Block} {height : ℕ} {state : ReplayState}

namespace NodeRegistryView.SameRecords

variable {view other : NodeRegistryView}

private theorem getByOwnerPubkey (h : view.SameRecords other) (unique : RegistryUnique view) :
    view.getByOwnerPubkey = other.getByOwnerPubkey := by
  funext ownerPubkey
  refine Option.ext fun record => ?_
  rw [unique.getByOwnerPubkey, (unique.congr h).getByOwnerPubkey, h record]

private theorem findRegistryRecordByNodePubkey (h : view.SameRecords other)
    (unique : RegistryUnique view) :
    Chipcoin.findRegistryRecordByNodePubkey view =
      Chipcoin.findRegistryRecordByNodePubkey other := by
  funext key
  refine Option.ext fun record => ?_
  rw [unique.findRegistryRecordByNodePubkey, (unique.congr h).findRegistryRecordByNodePubkey,
    h record]

end NodeRegistryView.SameRecords

/-- An action does not depend on the order of records. -/
theorem RegistryAction.congr {tx : Transaction} {view other : NodeRegistryView}
    {record : NodeRecord} (h : view.SameRecords other) (unique : RegistryUnique view)
    (action : RegistryAction tx params height view record) :
    RegistryAction tx params height other record := by
  have hid := h.getByNodeId
  have howner := h.getByOwnerPubkey unique
  have hkey := h.findRegistryRecordByNodePubkey unique
  cases action with
  | register kind nodeId_eq newId newOwner =>
    exact .register kind nodeId_eq (hid ▸ newId) (howner ▸ newOwner)
  | registerReward kind nodeId_eq upgrade owner nodeKey =>
    rw [hid]
    exact .registerReward kind nodeId_eq (hid ▸ upgrade) (howner ▸ owner) (hkey ▸ nodeKey)
  | renew kind nodeId_eq stored epoch => exact .renew kind nodeId_eq ((h _).mp stored) epoch
  | renewReward kind nodeId_eq stored epoch =>
    exact .renewReward kind nodeId_eq ((h _).mp stored) epoch

section

variable [Platform]

theorem RegistryRun.congr {view view' other : NodeRegistryView} {txs : List Transaction}
    (run : RegistryRun params height view txs view') (h : view.SameRecords other)
    (unique : RegistryUnique view) :
    ∃ other', RegistryRun params height other txs other' ∧ view'.SameRecords other' := by
  induction run generalizing other with
  | done => exact ⟨other, .done, h⟩
  | other kind _ ih =>
    obtain ⟨other', hrun, hsame⟩ := ih h unique
    exact ⟨other', .other kind hrun, hsame⟩
  | @action _ _ _ record _ kind action record_eq _ ih =>
    obtain ⟨other', hrun, hsame⟩ := ih (h.upsert record) (action.unique unique)
    exact ⟨other', .action kind (action.congr h unique) (h.getByNodeId ▸ record_eq) hrun, hsame⟩

/-- The actions of a run are those that connecting the block applies. -/
theorem RegistryRun.applyNodeRegistry {view view' : NodeRegistryView}
    {txs : List Transaction} (run : RegistryRun params height view txs view') :
    applyNodeRegistry txs height view = .ok view' := by
  induction run with
  | done => rfl
  | other kind _ ih =>
    refine foldlM_cons_eq_ok.mpr ⟨_, ?_, ih⟩
    rw [kind]
    rfl
  | @action view _ _ record _ kind _ record_eq _ ih =>
    refine foldlM_cons_eq_ok.mpr ⟨view.upsert record, ?_, ih⟩
    rw [if_pos kind, applySpecialNodeTransaction, record_eq]
    rfl

/-! ### Chains -/

/-- A context that shows the outputs and the registry records of a replayed state. -/
structure ValidationContext.Observes (context : ValidationContext) (state : ReplayState)
    (params : ConsensusParams) (height : ℕ) : Prop where
  height_eq : context.height = height
  params_eq : context.params = params
  view : ∀ outpoint, context.utxoView.get outpoint = state.utxos[outpoint]?
  /-- A snapshot of the table lists the records in another order than a replay. -/
  registry : context.nodeRegistryView.SameRecords state.registry

/-- A condition on the blocks of a chain: on the state before a block, the context in which it is
validated, and the block. -/
abbrev BlockCondition := ReplayState → ValidationContext → Block → Prop

/-- The condition that every block meets. -/
def AnyBlock : BlockCondition := fun _ _ _ => True

instance (state : ReplayState) (context : ValidationContext) (block : Block) :
    Decidable (AnyBlock state context block) := inferInstanceAs (Decidable True)

/-- **The chain relation.** The blocks of a chain, each accepted in a context that observes the
state its predecessors have left and each meeting a condition there; and the state that they
leave. -/
inductive AcceptedBlocks (params : ConsensusParams) (Meets : BlockCondition) :
    List Block → ReplayState → Prop
  | empty : AcceptedBlocks params Meets [] .empty
  | extend {blocks : List Block} {state state' : ReplayState} {context : ValidationContext}
      {block : Block} {fees : Int} (chain : AcceptedBlocks params Meets blocks state)
      (observes : context.Observes state params blocks.length)
      (accepted : validateBlock block context = .ok fees)
      (meets : Meets state context block)
      (connected : state.connectBlock block blocks.length = .ok state') :
      AcceptedBlocks params Meets (blocks ++ [block]) state'

private theorem ReplayState.connectBlock_registry {state' : ReplayState}
    (h : state.connectBlock block height = .ok state') :
    Chipcoin.applyNodeRegistry block.transactions.tail height state.registry =
      .ok state'.registry := by
  simp only [ReplayState.connectBlock, bind_eq_ok] at h
  obtain ⟨utxos, -, registry, hregistry, hcollect⟩ := h
  rw [(collectNativeRewardBlock_frame hcollect).2]
  exact hregistry

/-- **The registry actions of a block of a chain.** -/
theorem registryRun_of_connected {state' : ReplayState} {ctx : ValidationContext} {fees : Int}
    (unique : RegistryUnique state.registry) (observes : ctx.Observes state params height)
    (accepted : validateBlock block ctx = .ok fees)
    (connected : state.connectBlock block height = .ok state') :
    RegistryRun params height state.registry block.transactions.tail state'.registry := by
  obtain ⟨coinbase, rest, stage, checks, -⟩ := validateBlock_ok accepted
  have hrun := checks.registryRun
  rw [observes.params_eq, observes.height_eq] at hrun
  obtain ⟨registry, hrun, -⟩ :=
    hrun.congr observes.registry (unique.congr observes.registry.symm)
  have happlied := ReplayState.connectBlock_registry connected
  rw [checks.transactions_eq, List.tail_cons] at happlied ⊢
  obtain rfl := ok_unique hrun.applyNodeRegistry happlied
  exact hrun

/-- The context that a replay sets up for the next block. -/
def ReplayState.context (state : ReplayState) (params : ConsensusParams) (network : PyStr)
    (height : ℕ) (previousHash : PyStr) (epochSeedByIndex : Std.ExtTreeMap Int Bytes) :
    ValidationContext where
  height := height
  medianTimePast := 0
  params := params
  utxoView := .inMemory state.utxos
  network := network
  nodeRegistryView := state.registry
  rewardAttestationIdentities := state.identities
  rewardAttestationBundles := state.bundles.map (·.bundle)
  settledEpochIndexes := state.settledEpochs
  epochSeedByIndex := epochSeedByIndex
  expectedPreviousBlockHash := some previousHash
  expectedBits := some params.genesisBits

omit [Platform] in
theorem ReplayState.context_nodeRegistryView (state : ReplayState) (params : ConsensusParams)
    (network : PyStr) (height : ℕ) (previousHash : PyStr) (seeds : Std.ExtTreeMap Int Bytes) :
    (state.context params network height previousHash seeds).nodeRegistryView = state.registry :=
  rfl

omit [Platform] in
theorem ReplayState.context_observes (state : ReplayState) (params : ConsensusParams)
    (network : PyStr) (height : ℕ) (previousHash : PyStr) (seeds : Std.ExtTreeMap Int Bytes) :
    (state.context params network height previousHash seeds).Observes state params height :=
  ⟨rfl, rfl, fun _ => rfl, .refl _⟩

/-- Whether a block is accepted in that context and connects. -/
def ReplayState.takes (state : ReplayState) (params : ConsensusParams) (network : PyStr)
    (height : ℕ) (previousHash : PyStr) (epochSeedByIndex : Std.ExtTreeMap Int Bytes)
    (block : Block) : Bool :=
  (validateBlock block
    (state.context params network height previousHash epochSeedByIndex)).toOption.isSome &&
      (state.connectBlock block height).toOption.isSome

/-- The state after a block, for a block that connects. -/
def ReplayState.next (state : ReplayState) (block : Block) (height : ℕ) : ReplayState :=
  (state.connectBlock block height).toOption.getD state

/-- The state after some blocks. -/
def ReplayState.after (state : ReplayState) : ℕ → List Block → ReplayState
  | _, [] => state
  | height, block :: rest => (state.next block height).after (height + 1) rest

/-- The hash of a block, for a block that has one. -/
def Block.sampleHash (block : Block) : PyStr := block.blockHash.toOption.getD []

section

variable {params : ConsensusParams} {Meets : BlockCondition}

/-- **The registry of a chain is unique.** By induction on the chain; the actions of a block were
accepted on the records that the chain has left. -/
theorem AcceptedBlocks.unique {blocks : List Block}
    (chain : AcceptedBlocks params Meets blocks state) : RegistryUnique state.registry := by
  induction chain with
  | empty => exact .empty
  | extend _ observes accepted _ connected ih =>
    exact (registryRun_of_connected ih observes accepted connected).unique ih

/-- A chain grows by a block that is seen to be accepted and to connect. -/
theorem AcceptedBlocks.take {blocks : List Block} {network previousHash : PyStr}
    {seeds : Std.ExtTreeMap Int Bytes} (chain : AcceptedBlocks params Meets blocks state)
    (meets : Meets state (state.context params network blocks.length previousHash seeds) block)
    (taken : state.takes params network blocks.length previousHash seeds block) :
    AcceptedBlocks params Meets (blocks ++ [block]) (state.next block blocks.length) := by
  rw [ReplayState.takes, Bool.and_eq_true] at taken
  exact .extend chain (state.context_observes ..) (@eq_ok_getD _ _ _ 0 taken.1) meets
    (eq_ok_getD taken.2)

section

variable (Meets) [∀ state ctx block, Decidable (Meets state ctx block)]
  (params : ConsensusParams) (network : PyStr) (seeds : Std.ExtTreeMap Int Bytes)

/-- Whether a replay takes some blocks one after the other, and each of them meets a condition. -/
def replaysFrom : ReplayState → ℕ → PyStr → List Block → Bool
  | _, _, _, [] => true
  | state, height, previousHash, block :: rest =>
    decide (Meets state (state.context params network height previousHash seeds) block) &&
      state.takes params network height previousHash seeds block &&
      replaysFrom (state.next block height) (height + 1) block.sampleHash rest

/-- Whether some blocks are such a chain from the first block on. -/
def replays : List Block → Bool := replaysFrom Meets params network seeds .empty 0 zeroHash

variable {Meets params network seeds}

/-- Replayed blocks extend a chain, also one of another condition that the contexts of a replay
meet. By induction on the blocks that are still to be taken. -/
theorem AcceptedBlocks.grow {Seen : BlockCondition} {blocks rest : List Block}
    {previousHash : PyStr} (chain : AcceptedBlocks params Seen blocks state)
    (seen : ∀ state height previousHash block,
      Meets state (state.context params network height previousHash seeds) block →
        Seen state (state.context params network height previousHash seeds) block)
    (replayed : replaysFrom Meets params network seeds state blocks.length previousHash rest) :
    AcceptedBlocks params Seen (blocks ++ rest) (state.after blocks.length rest) := by
  induction rest generalizing blocks state previousHash with
  | nil => rwa [List.append_nil]
  | cons block rest ih =>
    rw [replaysFrom, Bool.and_eq_true, Bool.and_eq_true, decide_eq_true_eq] at replayed
    obtain ⟨⟨meets, taken⟩, hrest⟩ := replayed
    have hchain := ih (chain.take (seen _ _ _ _ meets) taken)
      (by rwa [List.length_append, List.length_singleton])
    rwa [List.append_assoc, List.length_append] at hchain

/-- **Replayed blocks are a chain.** -/
theorem AcceptedBlocks.of_replays {blocks : List Block}
    (replayed : replays Meets params network seeds blocks) :
    AcceptedBlocks params Meets blocks (ReplayState.empty.after 0 blocks) :=
  AcceptedBlocks.grow .empty (fun _ _ _ _ meets => meets) replayed

end

end

/-! ### Special transactions of closed instances -/

/-- A special transaction on mainnet; the node id serves as the owner key. -/
def sampleSpecial (kind : String) (nodeId : PyStr) (fields : List (String × PyStr)) :
    Transaction where
  version := 1
  inputs := []
  outputs := []
  metadata := .ofPairs ([
    ("kind", str kind), ("node_id", nodeId),
    ("owner_pubkey_hex", hex (nodeId.map UInt8.ofNat)), ("owner_signature_hex", str "00"),
    ("owner_signature_version", str "v2"), ("owner_signature_network", str "mainnet")] ++ fields)

/-- The address to which sample nodes are paid, that of the empty key on the sample platform. -/
def sampleAddress : PyStr := str "CHCCGTta3M4t3yXu8uRgonkfHQeeRv9FG2UuM"

def sampleRegistration (nodeId : PyStr) : Transaction :=
  sampleSpecial "register_node" nodeId [("payout_address", sampleAddress)]

def sampleRewardRegistration (nodeId : PyStr) (fee : ℕ) : Transaction :=
  sampleSpecial "register_reward_node" nodeId [
    ("payout_address", sampleAddress), ("node_pubkey_hex", hex (nodeId.map UInt8.ofNat)),
    ("declared_host", str "host"), ("declared_port", str "1"),
    ("registration_fee_chipbits", strOfInt fee)]

def sampleRenewal (nodeId : PyStr) (epoch : ℕ) : Transaction :=
  sampleSpecial "renew_node" nodeId [("renewal_epoch", strOfInt epoch)]

def sampleRewardRenewal (nodeId : PyStr) (epoch fee : ℕ) : Transaction :=
  sampleSpecial "renew_reward_node" nodeId [
    ("renewal_epoch", strOfInt epoch), ("declared_host", str "moved"), ("declared_port", str "2"),
    ("renewal_fee_chipbits", strOfInt fee)]

/-- A bundle without attestations; `[]` is the one document that it needs decoded. -/
def sampleBundle (submitter : PyStr) (epoch : ℕ) : Transaction where
  version := 1
  inputs := []
  outputs := []
  metadata := .ofPairs [
    ("kind", str "reward_attestation_bundle"), ("epoch_index", strOfInt epoch),
    ("bundle_window_index", str "0"), ("bundle_submitter_node_id", submitter),
    ("attestation_count", str "0"), ("attestations_json", str "[]")]

/-- The block at a height of a sample chain: its coinbase pays the subsidy of fifty chipbits. Blocks
are far apart in time, so that the difficulty stays the lowest. -/
def sampleChainBlock (previousBlockHash : PyStr) (height : ℕ) (transactions : List Transaction) :
    Block :=
  sampleBlock previousBlockHash (1000 * height) 0x207FFFFF
    (sampleCoinbase height [{ value := 50, recipient := sampleAddress }] :: transactions)

/-- A first block that registers a reward node. -/
def sampleRewardGenesis : Block :=
  sampleChainBlock zeroHash 0 [sampleRewardRegistration (str "a") 20000]

end

end Chipcoin
