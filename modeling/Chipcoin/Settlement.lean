import Chipcoin.Consensus.Acceptance

/-!
# Exactness of epoch settlements

A settlement is meant to pay the deterministic recipients of its epoch out of the scheduled pool.
The validator derives the recipients from the amount that the settlement says it distributes, and
does not derive them at all when the settlement has no entries. So acceptance alone does not make
a settlement exact. `settlement_exact_iff` says what does:

* a settlement with entries is exact when it leaves nothing undistributed;
* a settlement without entries is exact when nobody is due a reward.

`emptySettlement_accepted` is an epoch with a node due the whole pool whose empty settlement is
accepted.
-/

namespace Chipcoin

open Checked List

section

variable {ctx : ValidationContext} {pool : Int}

/-! ### The split of a pool -/

/-- Equal shares with the remainder to the first ranks add up. -/
theorem sum_mapIdx_shares {α : Type*} (xs : List α) (share remainder : Int)
    (hremainder : 0 ≤ remainder) :
    (xs.mapIdx fun index _ => share + if (index : Int) < remainder then 1 else 0).sum =
      xs.length * share + min remainder xs.length := by
  induction xs using List.reverseRecOn with
  | nil => simp [hremainder]
  | append_singleton xs x ih =>
    rw [mapIdx_concat, sum_append, ih]
    simp only [sum_singleton, length_append, length_singleton]
    push_cast
    rw [add_mul]
    split <;> omega

/-- **The split distributes its pool.** -/
theorem sum_splitPool {ordered : List QualifiedNode} (hne : ordered ≠ []) (hpool : 0 < pool) :
    ((splitPool ordered pool).map (·.rewardChipbits)).sum = pool := by
  have hlen : (0 : Int) < ordered.length := by
    have := List.length_pos_iff.mpr hne
    omega
  have hcond : ¬ (ordered.isEmpty = true ∨ pool ≤ 0) := by
    simp [hne, hpool]
  rw [splitPool, if_neg hcond, mapIdx_eq_zipIdx_map, map_map]
  have hsum := sum_mapIdx_shares ordered (pool / ordered.length) (pool % ordered.length)
    (Int.emod_nonneg _ hlen.ne')
  have hlt := Int.emod_lt_of_pos pool hlen
  have hdiv := Int.mul_ediv_add_emod pool ordered.length
  rw [min_eq_left hlt.le, mapIdx_eq_zipIdx_map] at hsum
  exact hsum.trans hdiv

theorem splitPool_eq_nil_iff {ordered : List QualifiedNode} :
    splitPool ordered pool = [] ↔ ordered = [] ∨ pool ≤ 0 := by
  unfold splitPool
  split
  · next h => simpa using h
  · next h =>
    have hne : ordered ≠ [] := fun hnil => h (.inl (by simp [hnil]))
    simp only [mapIdx_eq_nil_iff, hne, false_or, false_iff]
    exact fun hpool => h (.inr hpool)

variable [Platform]

theorem deriveRewardSettlementEntries_eq_ok {active : Std.ExtTreeMap PyStr NodeRecord}
    {seed : Bytes} {attestations : List RewardAttestation} {params : ConsensusParams}
    {entries : List RewardSettlementEntry} :
    deriveRewardSettlementEntries active seed attestations pool params = .ok entries ↔
      ∃ ordered, rankedRecipients active seed attestations params = .ok ordered ∧
        entries = splitPool ordered pool := by
  simp only [deriveRewardSettlementEntries, bind_eq_ok, pure_eq_ok]
  exact exists_congr fun _ => and_congr_right fun _ => eq_comm

/-! ### Exactness -/

/-- The recipients due at a settlement's epoch, in rank order. -/
def dueRecipients (ctx : ValidationContext) (settlement : RewardSettlement) (seed : Bytes) :
    Except PyError (List QualifiedNode) :=
  rankedRecipients
    (activeRewardRecordsById ctx.nodeRegistryView ctx.height ctx.params) seed
    (epochAttestations ctx settlement.epochIndex) ctx.params

/-- The pool scheduled for the height of a context. -/
def scheduledPool (ctx : ValidationContext) : ℕ :=
  (subsidySplitChipbits ctx.height ctx.params).2

/-- The entries of a settlement transaction are those derived from the active reward nodes, the
epoch seed, the attestations on chain and the scheduled pool. -/
def SettlesExactly (tx : Transaction) (ctx : ValidationContext) : Prop :=
  ∃ settlement seed, parseRewardSettlement tx = .ok settlement ∧
    ctx.epochSeedByIndex[settlement.epochIndex]? = some seed ∧
    deriveRewardSettlementEntries
      (activeRewardRecordsById ctx.nodeRegistryView ctx.height ctx.params) seed
      (epochAttestations ctx settlement.epochIndex) (scheduledPool ctx) ctx.params =
      .ok settlement.rewardEntries

/-- A settlement transaction that either distributes the whole pool, or has no entries in an
epoch in which nothing is due to anybody. -/
def SettlesInFull (tx : Transaction) (ctx : ValidationContext) : Prop :=
  ∃ settlement seed, parseRewardSettlement tx = .ok settlement ∧
    ctx.epochSeedByIndex[settlement.epochIndex]? = some seed ∧
    (settlement.rewardEntries ≠ [] ∧ settlement.undistributedNodeRewardChipbits = 0 ∨
      settlement.rewardEntries = [] ∧
        ∃ due, dueRecipients ctx settlement seed = .ok due ∧
          (due = [] ∨ scheduledPool ctx = 0))

private theorem SettlementChecks.exact_iff {settlement : RewardSettlement} {seed : Bytes}
    (checks : SettlementChecks ctx settlement seed) :
    deriveRewardSettlementEntries
        (activeRewardRecordsById ctx.nodeRegistryView ctx.height ctx.params) seed
        (epochAttestations ctx settlement.epochIndex) (scheduledPool ctx)
        ctx.params = .ok settlement.rewardEntries ↔
      (settlement.rewardEntries ≠ [] ∧ settlement.undistributedNodeRewardChipbits = 0 ∨
        settlement.rewardEntries = [] ∧
          ∃ due, dueRecipients ctx settlement seed = .ok due ∧
            (due = [] ∨ scheduledPool ctx = 0)) := by
  have hpool : settlement.distributedNodeRewardChipbits +
      settlement.undistributedNodeRewardChipbits = scheduledPool ctx := checks.pool
  by_cases hnil : settlement.rewardEntries = []
  · -- Without entries, exactness says that the split of the pool is empty.
    rw [deriveRewardSettlementEntries_eq_ok]
    simp only [hnil, ne_eq, not_true_eq_false, false_and, true_and, false_or]
    refine exists_congr fun due => and_congr_right fun _ => ?_
    rw [eq_comm, splitPool_eq_nil_iff]
    exact or_congr_right (by omega)
  · obtain ⟨due, hdue, hentries⟩ :=
      deriveRewardSettlementEntries_eq_ok.mp (checks.derived hnil)
    simp only [hnil, ne_eq, not_false_eq_true, true_and, false_and, or_false]
    constructor
    · -- The entries add up to the distributed amount, and exact ones to the pool.
      intro hexact
      obtain ⟨due', hdue', hentries'⟩ := deriveRewardSettlementEntries_eq_ok.mp hexact
      have hnotnil : ¬ (due' = [] ∨ (scheduledPool ctx : Int) ≤ 0) := by
        rw [← splitPool_eq_nil_iff, ← hentries']
        exact hnil
      rw [not_or, not_le] at hnotnil
      have hsum := sum_splitPool hnotnil.1 hnotnil.2
      rw [← hentries', checks.total] at hsum
      omega
    · intro hfull
      have hdistributed : settlement.distributedNodeRewardChipbits = scheduledPool ctx := by
        omega
      exact deriveRewardSettlementEntries_eq_ok.mpr ⟨due, hdue, by rw [← hdistributed, hentries]⟩

/-- An accepted settlement that is not flagged as a coinbase has passed the settlement checks. -/
theorem validateTransaction_settlement {tx : Transaction} {fee : Int}
    (hsettle : isRewardSettleEpochTransaction tx) (hplain : ¬ isCoinbaseTransaction tx)
    (haccepted : validateTransaction tx ctx = .ok fee) :
    ∃ settlement seed, parseRewardSettlement tx = .ok settlement ∧
      SettlementChecks ctx settlement seed := by
  obtain ⟨-, -, hstateful⟩ := bind_eq_ok.mp haccepted
  obtain ⟨-, -, hstateful⟩ := bind_eq_ok.mp hstateful
  rw [if_neg hplain, if_neg (by simp [not_special_of_settle hsettle]),
    if_neg (by simp [not_bundle_of_settle hsettle]), if_pos hsettle] at hstateful
  obtain ⟨_, hchecks, -⟩ := bind_eq_ok.mp hstateful
  exact validateRewardSettleEpochTransactionWithParams_ok hchecks

/-- **Settlement exactness.** An accepted settlement has the entries derived from the scheduled
pool exactly when it settles in full. -/
theorem settlement_exact_iff {tx : Transaction} {ctx : ValidationContext}
    {fee : Int} (hsettle : isRewardSettleEpochTransaction tx) (hplain : ¬ isCoinbaseTransaction tx)
    (haccepted : validateTransaction tx ctx = .ok fee) :
    SettlesExactly tx ctx ↔ SettlesInFull tx ctx := by
  obtain ⟨settlement, seed, hparse, checks⟩ :=
    validateTransaction_settlement hsettle hplain haccepted
  -- The payload and the seed of both sides are those the validator has read.
  constructor
  · rintro ⟨settlement', seed', hparse', hseed', hexact⟩
    obtain rfl := ok_unique hparse hparse'
    obtain rfl := Option.mem_unique checks.seedKnown hseed'
    exact ⟨settlement, seed, hparse, checks.seedKnown, checks.exact_iff.mp hexact⟩
  · rintro ⟨settlement', seed', hparse', hseed', hfull⟩
    obtain rfl := ok_unique hparse hparse'
    obtain rfl := Option.mem_unique checks.seedKnown hseed'
    exact ⟨settlement, seed, hparse, checks.seedKnown, checks.exact_iff.mpr hfull⟩

end

/-! ### An epoch on the sample network

Two reward nodes are active; the second one has attested both check windows of the first, which is
therefore due the whole pool of thirty chipbits. -/

namespace SampleEpoch

/-- A reward node registered at the first height. -/
def node (nodeId : String) : NodeRecord where
  nodeId := str nodeId
  payoutAddress := str "payout"
  ownerPubkey := []
  registeredHeight := 0
  lastRenewedHeight := 0
  nodePubkey := some []
  rewardRegistration := true

/-- A passed check of the first node by the second. -/
def attestation (window : ℕ) (concentrationKey : String) : RewardAttestation where
  epochIndex := 0
  checkWindowIndex := window
  candidateNodeId := str "a"
  verifierNodeId := str "b"
  resultCode := str "pass"
  observedSyncGap := 0
  endpointCommitment := []
  concentrationKey := str concentrationKey
  signatureHex := []

/-- The bundle that carries one check. -/
def bundle (window : ℕ) (concentrationKey : String) : RewardAttestationBundle where
  epochIndex := 0
  bundleWindowIndex := window
  bundleSubmitterNodeId := str "b"
  attestations := [attestation window concentrationKey]

/-- The context at the height that closes the epoch. -/
def ctx : ValidationContext where
  height := 2
  medianTimePast := 0
  params := sampleParams
  utxoView := .inMemory ∅
  network := str "mainnet"
  nodeRegistryView := .fromRecords [node "a", node "b"]
  rewardAttestationIdentities := ∅
  rewardAttestationBundles := [bundle 0 "key", bundle 1 "key"]
  settledEpochIndexes := ∅
  epochSeedByIndex := (∅ : Std.ExtTreeMap Int Bytes).insert 0 (List.replicate 32 0)

/-- The entry that pays the whole pool to the first node. -/
def wholePoolEntry : RewardSettlementEntry where
  nodeId := str "a"
  payoutAddress := str "payout"
  rewardChipbits := 30
  selectionRank := 0
  concentrationKey := str "key"
  finalConfirmationPassed := true

/-- The JSON text of that entry. -/
def wholePoolJson : PyStr :=
  str ("[\x7b\"concentration_key\":\"key\",\"final_confirmation_passed\":true,\"node_id\":\"a\"," ++
    "\"payout_address\":\"payout\",\"reward_chipbits\":30,\"selection_rank\":0\x7d]")

/-- The documents that the settlements below carry, with their decoded values. -/
def documents : List (PyStr × Json) :=
  [(str "[]", .arr []),
    (wholePoolJson, .arr [.obj [
      (str "concentration_key", .str (str "key")), (str "final_confirmation_passed", .bool true),
      (str "node_id", .str (str "a")), (str "payout_address", .str (str "payout")),
      (str "reward_chipbits", .int 30), (str "selection_rank", .int 0)]])]

/-- A settlement of the epoch with given amounts and entries. -/
def settlement (distributed undistributed count : String) (entries : PyStr) : Transaction where
  version := 1
  inputs := []
  outputs := []
  metadata := .ofPairs [
    ("kind", str "reward_settle_epoch"), ("epoch_index", str "0"),
    ("epoch_start_height", str "0"), ("epoch_end_height", str "2"),
    ("epoch_seed", zeroHash), ("policy_version", str "v1"),
    ("candidate_summary_root", zeroHash),
    ("verified_nodes_root", zeroHash),
    ("rewarded_nodes_root", zeroHash), ("rewarded_node_count", str count),
    ("distributed_node_reward_chipbits", str distributed),
    ("undistributed_node_reward_chipbits", str undistributed), ("reward_entries_json", entries)]

local instance platform : Platform := samplePlatform documents

/-- The parsed empty settlement. -/
def emptySettlement : RewardSettlement where
  epochIndex := 0
  epochStartHeight := 0
  epochEndHeight := 2
  epochSeedHex := zeroHash
  policyVersion := str "v1"
  submissionMode := str "manual"
  candidateSummaryRoot := zeroHash
  verifiedNodesRoot := zeroHash
  rewardedNodesRoot := zeroHash
  rewardedNodeCount := 0
  distributedNodeRewardChipbits := 0
  undistributedNodeRewardChipbits := 30
  rewardEntries := []

/-- Both settlements and the entries that are due, evaluated. -/
theorem settlements_evaluated :
    (deriveRewardSettlementEntries
        (activeRewardRecordsById ctx.nodeRegistryView ctx.height ctx.params)
        (List.replicate 32 0) (epochAttestations ctx 0) (scheduledPool ctx)
        ctx.params = .ok [wholePoolEntry] ∧
      ctx.epochSeedByIndex[(0 : Int)]? = some (List.replicate 32 0)) ∧
    (isRewardSettleEpochTransaction (settlement "0" "30" "0" (str "[]")) = true ∧
      isCoinbaseTransaction (settlement "0" "30" "0" (str "[]")) = false ∧
      validateTransaction (settlement "0" "30" "0" (str "[]")) ctx = .ok 0 ∧
      parseRewardSettlement (settlement "0" "30" "0" (str "[]")) = .ok emptySettlement) ∧
    (isRewardSettleEpochTransaction (settlement "30" "0" "1" wholePoolJson) = true ∧
      ¬ isCoinbaseTransaction (settlement "30" "0" "1" wholePoolJson) ∧
      validateTransaction (settlement "30" "0" "1" wholePoolJson) ctx = .ok 0) := by
  decide +kernel

/-- **An empty settlement cancels the rewards of an epoch.** It is accepted although the first
node is due the whole pool. -/
theorem emptySettlement_accepted :
    isRewardSettleEpochTransaction (settlement "0" "30" "0" (str "[]")) = true ∧
      isCoinbaseTransaction (settlement "0" "30" "0" (str "[]")) = false ∧
      validateTransaction (settlement "0" "30" "0" (str "[]")) ctx = .ok 0 ∧
      ¬ SettlesExactly (settlement "0" "30" "0" (str "[]")) ctx := by
  obtain ⟨⟨hderived, hknown⟩, ⟨hkind, hplain, haccepted, hempty⟩, -⟩ := settlements_evaluated
  refine ⟨hkind, hplain, haccepted, ?_⟩
  rintro ⟨parsed, seed, hparse, hseed, hexact⟩
  obtain rfl := ok_unique hempty hparse
  obtain rfl := Option.mem_unique hknown hseed
  exact absurd (hderived.symm.trans hexact) (by decide)

/-- The settlement that pays the whole pool is accepted and exact. -/
theorem settlement_exact_wholePool :
    SettlesExactly (settlement "30" "0" "1" wholePoolJson) ctx ↔
      SettlesInFull (settlement "30" "0" "1" wholePoolJson) ctx := by
  obtain ⟨-, -, hkind, hplain, haccepted⟩ := settlements_evaluated
  exact settlement_exact_iff hkind hplain haccepted

end SampleEpoch

end Chipcoin
