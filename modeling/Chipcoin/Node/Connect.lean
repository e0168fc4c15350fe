import Chipcoin.Conservation
import Chipcoin.Node.Rewards

/-!
# Connecting an accepted block

What a block that was accepted does to the state of its chain: it spends and creates outputs, its
registry actions apply one after the other, and so do its reward payloads.

* `Connects`: one connected block; `connects_of_accepted` finds it for every accepted block, so that
  connecting never raises.
* `rewards_counted_once`: no attestation and no settlement is counted twice along a chain.
* `SampleRewards`: an epoch of two nodes that is attested and settled.
-/

namespace Chipcoin

open Checked

variable {blocks : List Block} {state state' : ReplayState}

section

variable [Platform] {params : ConsensusParams} {height : ℕ} {block : Block}

/-- A block connected to a state, by what it changes. -/
structure Connects (params : ConsensusParams) (height : ℕ) (state : ReplayState) (block : Block)
    (state' : ReplayState) : Prop where
  utxos : state.utxos.applyBlock block height = .ok state'.utxos
  registry : RegistryRun params height state.registry block.transactions.tail state'.registry
  rewards : RewardRun height { state with utxos := state'.utxos, registry := state'.registry }
    block.transactions.tail state'

section

variable (connects : Connects params height state block state')
include connects

private theorem Connects.connectBlock : state.connectBlock block height = .ok state' := by
  have hregistry : applyNodeRegistryBlock block height state.registry = .ok state'.registry :=
    connects.registry.applyNodeRegistry
  have hrewards : collectNativeRewardBlock block height
      { state with utxos := state'.utxos, registry := state'.registry } = .ok state' :=
    connects.rewards.collectRewards
  rw [ReplayState.connectBlock, connects.utxos, ok_bind, hregistry, ok_bind, hrewards]

private theorem Connects.keyed {known : Set Transaction} (clean : CleanTxids known)
    (hknown : ∀ tx ∈ block.transactions, tx ∈ known)
    (keyed : KeyedSettlements known state) : KeyedSettlements known state' :=
  connects.rewards.keyed clean
    (fun tx hmem => hknown tx (List.mem_of_mem_tail hmem))
    ⟨keyed.parsed, keyed.nodup, keyed.settled⟩

end

/-! ### Accepted blocks -/

/-- The context shows which attestations and which settled epochs a state has. -/
structure SeesRewards (state : ReplayState) (context : ValidationContext) (_ : Block) : Prop where
  identities_eq : context.rewardAttestationIdentities = state.identities
  settled_eq : context.settledEpochIndexes = state.settledEpochs

/-- **An accepted block connects.** No step of it raises, since validation has passed through the
same actions and payloads, on the records and the sets that the context shows. -/
private theorem connects_of_accepted {ctx : ValidationContext} {fees : Int}
    (unique : RegistryUnique state.registry) (observes : ctx.Observes state params height)
    (sees : SeesRewards state ctx block) (accepted : validateBlock block ctx = .ok fees) :
    ∃ state', Connects params height state block state' ∧
      (CountedOnce state → CountedOnce state') := by
  obtain ⟨coinbase, rest, stage, checks, -⟩ := validateBlock_ok accepted
  obtain ⟨utxos, hutxos⟩ : ∃ utxos, state.utxos.applyBlock block height = .ok utxos :=
    applyBlockWith_total _ _ _ _ _ checks.exists_txid
  -- The registry actions were checked on the records of the context.
  have hactions := checks.registryRun
  rw [observes.params_eq, observes.height_eq] at hactions
  obtain ⟨registry, hregistry, -⟩ :=
    hactions.congr observes.registry (unique.congr observes.registry.symm)
  obtain ⟨state', hrewards, hcounts⟩ := @BlockChecks.rewardRun _ _ _ _ _ _ checks
    { state with utxos := utxos, registry := registry } sees.identities_eq sees.settled_eq
  rw [observes.height_eq] at hrewards
  have hframe := hrewards.frame
  have htail : block.transactions.tail = rest := by rw [checks.transactions_eq, List.tail_cons]
  refine ⟨state', ⟨?_, ?_, ?_⟩, fun counted =>
    hcounts ⟨counted.attestations, counted.identities, counted.epochs, counted.settled⟩⟩
  · rw [hframe.1]
    exact hutxos
  · rw [hframe.2, htail]
    exact hregistry
  · rw [hframe.1, hframe.2, htail]
    exact hrewards

/-! ### Chains -/

/-- Where octets do not collide, a txid determines the metadata. -/
theorem CollisionFree.cleanTxids {txs : List Transaction} (free : CollisionFree txs) :
    CleanTxids {tx | tx ∈ txs} := by
  intro a ha b hb txid hatxid hbtxid
  obtain ⟨u, hu, rfl⟩ := Transaction.txid_ok hatxid
  obtain ⟨v, hv, hsame⟩ := Transaction.txid_ok hbtxid
  obtain rfl := free a ha b hb u v hu hv (hex_injective hsame)
  -- The texts of the outpoints may differ, so the canonical forms are compared.
  obtain ⟨hca, hua⟩ := serializeTransaction_canonical hu
  obtain ⟨hcb, hub⟩ := serializeTransaction_canonical hv
  have hmetadata : a.canonical.metadata = b.canonical.metadata :=
    congrArg Transaction.metadata (delimits_serializeTransaction.injOn hca hcb hua hub)
  exact hmetadata

/-- The blocks of a chain connect as `connects_of_accepted` says. -/
theorem connects_of_connected {ctx : ValidationContext} {fees : Int}
    (unique : RegistryUnique state.registry) (observes : ctx.Observes state params height)
    (sees : SeesRewards state ctx block) (accepted : validateBlock block ctx = .ok fees)
    (connected : state.connectBlock block height = .ok state') :
    Connects params height state block state' ∧ (CountedOnce state → CountedOnce state') := by
  obtain ⟨found, connects, hcounts⟩ := connects_of_accepted unique observes sees accepted
  obtain rfl := ok_unique connects.connectBlock connected
  exact ⟨connects, hcounts⟩

section

variable (chain : AcceptedBlocks params SeesRewards blocks state)
include chain

/-- **The settlements of a chain** have distinct txids. -/
theorem AcceptedBlocks.keyed {known : Set Transaction} (clean : CleanTxids known)
    (hknown : ∀ block ∈ blocks, ∀ tx ∈ block.transactions, tx ∈ known) :
    KeyedSettlements known state := by
  induction chain with
  | empty => constructor <;> simp [ReplayState.empty]
  | extend chain observes accepted sees connected ih =>
    have hkeyed := ih fun other hmem => hknown other (List.mem_append_left _ hmem)
    exact (connects_of_connected chain.unique observes sees accepted connected).1.keyed clean
      (hknown _ (by simp)) hkeyed

theorem AcceptedBlocks.countedOnce : CountedOnce state := by
  induction chain with
  | empty => exact ⟨.nil, rfl, .nil, rfl⟩
  | extend chain observes accepted sees connected ih =>
    exact (connects_of_connected chain.unique observes sees accepted connected).2 ih

/-- **Rewards are counted once** by the replay of `activate_chain`. A block that is accepted on a
replayed chain connects to the replayed state. Among all bundles of that state, those of the block
included, no attestation occurs twice, in one bundle or in several, and no epoch is settled
twice. -/
theorem rewards_counted_once {ctx : ValidationContext} {fees : Int}
    (observes : ctx.Observes state params blocks.length)
    (sees : SeesRewards state ctx block) (accepted : validateBlock block ctx = .ok fees) :
    ∃ state', state.connectBlock block blocks.length = .ok state' ∧
      (state'.bundles.flatMap (·.bundle.attestations.map attestationIdentity)).Nodup ∧
      (state'.settlements.map (·.settlement.epochIndex)).Nodup := by
  obtain ⟨state', connects, hcounts⟩ := connects_of_accepted chain.unique observes sees accepted
  have hcounted := hcounts chain.countedOnce
  exact ⟨state', connects.connectBlock, hcounted.attestations, hcounted.epochs⟩

end

end

/-! ### A settled epoch -/

namespace SampleRewards

/-- A pass of a window of the node `a`, attested by the node `b`. -/
def pass (window : ℕ) : Json :=
  .obj [(str "epoch_index", .int 0), (str "check_window_index", .int window),
    (str "candidate_node_id", .str (str "a")), (str "verifier_node_id", .str (str "b")),
    (str "result_code", .str (str "pass")), (str "observed_sync_gap", .int 0),
    (str "endpoint_commitment", .str []), (str "concentration_key", .str (str "key")),
    (str "signature_hex", .str [])]

/-- The whole pool for the node `a`. -/
def wholePool : Json :=
  .obj [(str "concentration_key", .str (str "key")), (str "final_confirmation_passed", .bool true),
    (str "node_id", .str (str "a")), (str "payout_address", .str sampleAddress),
    (str "reward_chipbits", .int 30), (str "selection_rank", .int 0)]

local instance platform : Platform := samplePlatform [
  (str "first", .arr [pass 0]), (str "second", .arr [pass 1]), (str "pool", .arr [wholePool])]

/-- A bundle of the node `b` for one window. -/
def bundle (window text : String) : Transaction where
  version := 1
  inputs := []
  outputs := []
  metadata := .ofPairs [("kind", str "reward_attestation_bundle"), ("epoch_index", str "0"),
    ("bundle_window_index", str window), ("bundle_submitter_node_id", str "b"),
    ("attestation_count", str "1"), ("attestations_json", str text)]

/-- The bundles of both windows. -/
def passes : List Transaction := [bundle "0" "first", bundle "1" "second"]

/-- The settlement that pays the whole pool to the node `a`. -/
def settlement : Transaction := SampleEpoch.settlement "30" "0" "1" (str "pool")

/-- A first block that registers both nodes. -/
def genesis : Block :=
  sampleChainBlock zeroHash 0
    [sampleRewardRegistration (str "a") 20000, sampleRewardRegistration (str "b") 20000]

/-- A second block with some bundles. -/
def second (bundles : List Transaction) : Block := sampleChainBlock genesis.sampleHash 1 bundles

/-- A third block, which closes the epoch: some bundles and the settlement. -/
def third (earlier bundles : List Transaction) : Block :=
  sampleBlock (second earlier).sampleHash 2000 0x207FFFFF
    (sampleCoinbase 2 [{ value := 50, recipient := sampleAddress },
      { value := 30, recipient := sampleAddress }] :: bundles ++ [settlement])

/-- The seed of the epoch. -/
def seeds : Std.ExtTreeMap Int Bytes :=
  (∅ : Std.ExtTreeMap Int Bytes).insert 0 (List.replicate 32 0)

def afterSecond (earlier : List Transaction) : ReplayState :=
  .after .empty 0 [genesis, second earlier]

def afterThird (earlier bundles : List Transaction) : ReplayState :=
  .after .empty 0 [genesis, second earlier, third earlier bundles]

/-- The context of the third block. -/
def thirdContext (params : ConsensusParams) (earlier : List Transaction) : ValidationContext :=
  (afterSecond earlier).context params (str "mainnet") 2 (second earlier).sampleHash seeds

/-- The chain with both bundles in its second block, evaluated. -/
theorem passes_evaluated :
    replays AnyBlock sampleParams (str "mainnet") seeds [genesis, second passes] ∧
      validateBlock (third passes []) (thirdContext sampleParams passes) = .ok 0 ∧
      (afterSecond passes).bundles.length = 2 := by
  decide +kernel

/-- Two attestations are on chain when the third block settles the epoch. -/
theorem rewards_counted_once_third :
    (afterSecond passes).bundles.length = 2 ∧
      ∃ state', (afterSecond passes).connectBlock (third passes []) 2 = .ok state' ∧
        (state'.bundles.flatMap (·.bundle.attestations.map attestationIdentity)).Nodup ∧
        (state'.settlements.map (·.settlement.epochIndex)).Nodup := by
  obtain ⟨hreplayed, haccepted, hcount⟩ := passes_evaluated
  have chain : AcceptedBlocks sampleParams SeesRewards [genesis, second passes]
      (afterSecond passes) :=
    AcceptedBlocks.grow .empty (fun _ _ _ _ _ => ⟨rfl, rfl⟩) hreplayed
  have sees : SeesRewards (afterSecond passes) (thirdContext sampleParams passes)
      (third passes []) := ⟨rfl, rfl⟩
  have counted := rewards_counted_once chain (ReplayState.context_observes ..) sees haccepted
  exact ⟨hcount, counted⟩

end SampleRewards

end Chipcoin
