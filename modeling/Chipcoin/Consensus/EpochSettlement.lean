import Chipcoin.Crypto
import Chipcoin.Lib.Sorting

/-!
# Epoch settlement of native node rewards

The payloads of reward transactions, their parsers, and the deterministic derivation of the
reward recipients of one epoch from the active reward nodes, the epoch seed and the attestations
on chain.

`deriveRewardSettlementEntries` keeps the part of `analyze_reward_settlement` that decides the
entries; the diagnostic reports built along the way are left out. Medians are exact: the tie-break
compares twice the median, an integer, which orders as the median does.
-/

namespace Chipcoin

open Checked Sorting

/-! ### Kinds and payloads -/

/-- The consensus-visible node registry record. -/
structure NodeRecord where
  nodeId : PyStr
  payoutAddress : PyStr
  ownerPubkey : Bytes
  registeredHeight : ℕ
  lastRenewedHeight : ℕ
  nodePubkey : Option Bytes := none
  declaredHost : Option PyStr := none
  declaredPort : Option Int := none
  rewardRegistration : Bool := false
deriving DecidableEq, Repr

/-- One verifier attestation for one candidate check. -/
structure RewardAttestation where
  epochIndex : Int
  checkWindowIndex : Int
  candidateNodeId : PyStr
  verifierNodeId : PyStr
  resultCode : PyStr
  observedSyncGap : Int
  endpointCommitment : PyStr
  concentrationKey : PyStr
  signatureHex : PyStr
deriving DecidableEq, Repr

/-- Carriage for the attestations of one window. -/
structure RewardAttestationBundle where
  epochIndex : Int
  bundleWindowIndex : Int
  bundleSubmitterNodeId : PyStr
  attestations : List RewardAttestation
deriving DecidableEq, Repr

/-- One reward recipient of an epoch settlement. -/
structure RewardSettlementEntry where
  nodeId : PyStr
  payoutAddress : PyStr
  rewardChipbits : Int
  selectionRank : Int
  concentrationKey : PyStr
  finalConfirmationPassed : Bool
deriving DecidableEq, Repr

/-- A parsed epoch settlement. -/
structure RewardSettlement where
  epochIndex : Int
  epochStartHeight : Int
  epochEndHeight : Int
  epochSeedHex : PyStr
  policyVersion : PyStr
  submissionMode : PyStr
  candidateSummaryRoot : PyStr
  verifiedNodesRoot : PyStr
  rewardedNodesRoot : PyStr
  rewardedNodeCount : Int
  distributedNodeRewardChipbits : Int
  undistributedNodeRewardChipbits : Int
  rewardEntries : List RewardSettlementEntry
deriving DecidableEq, Repr

/-- The identity under which an attestation may be recorded once. -/
structure AttestationIdentity where
  epochIndex : Int
  checkWindowIndex : Int
  candidateNodeId : PyStr
  verifierNodeId : PyStr
deriving DecidableEq, Repr

/-- `attestation_identity`. -/
def attestationIdentity (attestation : RewardAttestation) : AttestationIdentity where
  epochIndex := attestation.epochIndex
  checkWindowIndex := attestation.checkWindowIndex
  candidateNodeId := attestation.candidateNodeId
  verifierNodeId := attestation.verifierNodeId

/-! ### Seeds and epoch boundaries -/

section

variable [Platform]

/-- `epoch_seed`, version 1. -/
def epochSeed (previousEpochClosingBlockHash : PyStr) (epochIndex : ℕ) :
    Except PyError Bytes := do
  raiseIf (previousEpochClosingBlockHash.length ≠ 64)
    (.value "previous_epoch_closing_block_hash must be 32 bytes hex")
  let hash ← fromHex previousEpochClosingBlockHash
  let index ← toBytesBig 8 epochIndex
  let domain ← utf8Encode (str "reward-epoch-v1")
  return doubleSha256 (hash ++ index ++ domain)

/-- `reward_epoch_seed_version`. -/
def rewardEpochSeedVersion (network : PyStr) (epochIndex : ℕ) : ℕ :=
  if (network = str "devnet" ∨ network = str "testnet") ∧ epochIndex < 112 then 1 else 2

/-- `reward_epoch_seed_v2`. -/
def rewardEpochSeedV2 (previousEpochBlockHashes : List PyStr) (epochIndex : ℕ)
    (network : PyStr) : Except PyError Bytes := do
  raiseIf (network.isEmpty) (.value "network cannot be empty")
  raiseIf (previousEpochBlockHashes.isEmpty)
    (.value "previous_epoch_block_hashes cannot be empty")
  let blockHashBytes ← previousEpochBlockHashes.mapM fun blockHash => do
    raiseIf (blockHash.length ≠ 64)
      (.value "previous_epoch_block_hashes entries must be 32 bytes hex")
    fromHex blockHash
  let domain ← utf8Encode (str "chipcoin:reward-epoch-seed:v2:" ++ network)
  let index ← toBytesBig 8 epochIndex
  let count ← toBytesBig 2 blockHashBytes.length
  return doubleSha256 (domain ++ [0] ++ index ++ count ++ blockHashBytes.flatten)

/-- `reward_epoch_seed`. -/
def rewardEpochSeed (previousEpochClosingBlockHash : PyStr)
    (previousEpochBlockHashes : List PyStr) (epochIndex : ℕ) (network : PyStr) :
    Except PyError Bytes :=
  if rewardEpochSeedVersion network epochIndex = 1 then
    epochSeed previousEpochClosingBlockHash epochIndex
  else rewardEpochSeedV2 previousEpochBlockHashes epochIndex network

/-- `epoch_close_height`. -/
def epochCloseHeight (epochIndex : Int) (params : ConsensusParams) : Except PyError Int := do
  raiseIf (epochIndex < 0) (.value "epoch_index cannot be negative")
  return (epochIndex + 1) * params.epochLengthBlocks - 1

/-! ### Deterministic assignment -/

/-- `_score_bytes`. -/
def scoreBytes (seed : Bytes) (payload : PyStr) : Except PyError Bytes := do
  return doubleSha256 (seed ++ (← utf8Encode payload))

/-- `candidate_check_windows`: the windows of lowest score, in window order. -/
def candidateCheckWindows (nodeId : PyStr) (seed : Bytes) (params : ConsensusParams) :
    Except PyError (List ℕ) := do
  raiseIf (params.rewardTargetChecksPerEpoch > params.rewardCheckWindowsPerEpoch)
    (.value "reward_target_checks_per_epoch cannot exceed reward_check_windows_per_epoch")
  let scoredWindows ← (List.range params.rewardCheckWindowsPerEpoch).mapM
    fun (windowIndex : ℕ) => do
      let score ← scoreBytes seed
        (str "candidate-window|" ++ strOfInt windowIndex ++ str "|" ++ nodeId)
      return (score, windowIndex)
  let ranked := sortBy (compareLex (compareOn Prod.fst) (compareOn Prod.snd)) scoredWindows
  return sortBy compare ((ranked.take params.rewardTargetChecksPerEpoch).map Prod.snd)

/-- `verifier_committee`: the verifiers of lowest score other than the candidate. -/
def verifierCommittee (candidateNodeId : PyStr) (activeVerifierNodeIds : List PyStr)
    (checkWindowIndex : Int) (seed : Bytes) (params : ConsensusParams) :
    Except PyError (List PyStr) := do
  raiseIf (checkWindowIndex < 0 ∨ checkWindowIndex ≥ params.rewardCheckWindowsPerEpoch)
    (.value "check_window_index out of range")
  let scored ← (activeVerifierNodeIds.filter (· ≠ candidateNodeId)).mapM fun verifierNodeId => do
    let score ← scoreBytes seed
      (str "verifier|" ++ strOfInt checkWindowIndex ++ str "|" ++ candidateNodeId ++ str "|"
        ++ verifierNodeId)
    return (score, verifierNodeId)
  let ranked := sortBy (compareLex (compareOn Prod.fst) (compareOn Prod.snd)) scored
  return (ranked.take params.rewardVerifierCommitteeSize).map Prod.snd

/-! ### Bundles -/

/-- `attestation_bundle_duplicates` is not empty: some identity occurs twice. -/
def hasDuplicateAttestations (bundle : RewardAttestationBundle) : Bool :=
  !decide (bundle.attestations.map attestationIdentity).Nodup

/-- `verifier_emission_counts` at one window and verifier. -/
def verifierEmissionCount (bundle : RewardAttestationBundle) (window : Int)
    (verifier : PyStr) : ℕ :=
  bundle.attestations.countP fun attestation =>
    attestation.checkWindowIndex = window ∧ attestation.verifierNodeId = verifier

/-- `bundle_rule_violations`. -/
def bundleRuleViolations (bundle : RewardAttestationBundle) (params : ConsensusParams) :
    List String :=
  (if bundle.attestations.length > params.maxAttestationsPerBundle
    then ["too_many_attestations"] else []) ++
  (if hasDuplicateAttestations bundle then ["duplicate_attestation"] else []) ++
  (if bundle.attestations.any fun attestation =>
      verifierEmissionCount bundle attestation.checkWindowIndex attestation.verifierNodeId
        > params.maxAttestationsPerVerifierPerWindow
    then ["verifier_over_emission"] else [])

/-- `reward_attestation_signature_digest`. -/
def rewardAttestationSignatureDigest (attestation : RewardAttestation) :
    Except PyError Bytes := do
  let payload ← utf8Encode (Platform.jsonDumps (.obj [
    (str "candidate_node_id", .str attestation.candidateNodeId),
    (str "check_window_index", .int attestation.checkWindowIndex),
    (str "concentration_key", .str attestation.concentrationKey),
    (str "endpoint_commitment", .str attestation.endpointCommitment),
    (str "epoch_index", .int attestation.epochIndex),
    (str "observed_sync_gap", .int attestation.observedSyncGap),
    (str "result_code", .str attestation.resultCode),
    (str "verifier_node_id", .str attestation.verifierNodeId)]))
  return doubleSha256 payload

/-! ### Parsing -/

/-- Every named metadata field is present and not empty. -/
def requireDeclared (transaction : Transaction) (kind : String) (keys : List String) :
    Except PyError Unit :=
  forM keys fun key =>
    raiseIf (transaction.getD key = [])
      (.value s!"{kind} transactions must declare {key}.")

/-- `json.loads(text)`, which must be an array. -/
def loadArray (text : PyStr) (kind field : String) : Except PyError (List Json) := do
  match ← Platform.jsonLoads text with
  | .arr items => return items
  | _ => .error (.value s!"{kind} {field} must be a JSON array.")

/-- One attestation of `attestations_json`. -/
def parseAttestation (item : Json) : Except PyError RewardAttestation := do
  return {
    epochIndex := ← (← item.item "epoch_index").toInt
    checkWindowIndex := ← (← item.item "check_window_index").toInt
    candidateNodeId := (← item.item "candidate_node_id").toStr
    verifierNodeId := (← item.item "verifier_node_id").toStr
    resultCode := (← item.item "result_code").toStr
    observedSyncGap := ← (← item.item "observed_sync_gap").toInt
    endpointCommitment := (← item.item "endpoint_commitment").toStr
    concentrationKey := (← item.item "concentration_key").toStr
    signatureHex := (← item.item "signature_hex").toStr }

/-- `parse_reward_attestation_bundle_metadata`. -/
def parseRewardAttestationBundleMetadata (transaction : Transaction) :
    Except PyError RewardAttestationBundle := do
  requireDeclared transaction "reward_attestation_bundle"
    ["epoch_index", "bundle_window_index", "bundle_submitter_node_id", "attestation_count",
      "attestations_json"]
  let raw ← loadArray (transaction.getD "attestations_json") "reward_attestation_bundle"
    "attestations_json"
  let attestations ← raw.mapM parseAttestation
  let count ← intOfStr (transaction.getD "attestation_count")
  raiseIf (count ≠ attestations.length)
    (.value "reward_attestation_bundle attestation_count does not match attestations_json length.")
  return {
    epochIndex := ← intOfStr (transaction.getD "epoch_index")
    bundleWindowIndex := ← intOfStr (transaction.getD "bundle_window_index")
    bundleSubmitterNodeId := transaction.getD "bundle_submitter_node_id"
    attestations := attestations }

/-- One entry of `reward_entries_json`. -/
def parseSettlementEntry (item : Json) : Except PyError RewardSettlementEntry := do
  return {
    nodeId := (← item.item "node_id").toStr
    payoutAddress := (← item.item "payout_address").toStr
    rewardChipbits := ← (← item.item "reward_chipbits").toInt
    selectionRank := ← (← item.item "selection_rank").toInt
    concentrationKey := (← item.item "concentration_key").toStr
    finalConfirmationPassed := (← item.item "final_confirmation_passed").toBool }

/-- The metadata fields that a settlement must declare. -/
def settlementKeys : List String :=
  ["epoch_index", "epoch_start_height", "epoch_end_height", "epoch_seed", "policy_version",
    "candidate_summary_root", "verified_nodes_root", "rewarded_nodes_root",
    "rewarded_node_count", "distributed_node_reward_chipbits",
    "undistributed_node_reward_chipbits", "reward_entries_json"]

/-- `parse_reward_settlement_metadata`. -/
def parseRewardSettlementMetadata (transaction : Transaction) :
    Except PyError RewardSettlement := do
  requireDeclared transaction "reward_settle_epoch" settlementKeys
  let raw ← loadArray (transaction.getD "reward_entries_json") "reward_settle_epoch"
    "reward_entries_json"
  let rewardEntries ← raw.mapM parseSettlementEntry
  return {
    epochIndex := ← intOfStr (transaction.getD "epoch_index")
    epochStartHeight := ← intOfStr (transaction.getD "epoch_start_height")
    epochEndHeight := ← intOfStr (transaction.getD "epoch_end_height")
    epochSeedHex := transaction.getD "epoch_seed"
    policyVersion := transaction.getD "policy_version"
    submissionMode := (transaction.get? "submission_mode").getD (str "manual")
    candidateSummaryRoot := transaction.getD "candidate_summary_root"
    verifiedNodesRoot := transaction.getD "verified_nodes_root"
    rewardedNodesRoot := transaction.getD "rewarded_nodes_root"
    rewardedNodeCount := ← intOfStr (transaction.getD "rewarded_node_count")
    distributedNodeRewardChipbits :=
      ← intOfStr (transaction.getD "distributed_node_reward_chipbits")
    undistributedNodeRewardChipbits :=
      ← intOfStr (transaction.getD "undistributed_node_reward_chipbits")
    rewardEntries := rewardEntries }

/-! ### Derivation of the reward entries -/

/-- The first passing attestation of each verifier, in the order the verifiers first passed:
the dictionary `passed_by_verifier`. -/
def passedByVerifier (params : ConsensusParams) (attestations : List RewardAttestation) :
    List RewardAttestation :=
  attestations.foldl (fun passed attestation =>
    if attestation.resultCode ≠ str "pass" then passed
    else if attestation.observedSyncGap > (params.rewardSyncLagToleranceBlocks : Int) then passed
    else if passed.any (·.verifierNodeId = attestation.verifierNodeId) then passed
    else passed ++ [attestation]) []

/-- The sync gaps observed in one assigned window, when the window passes its quorum. -/
def windowGaps (params : ConsensusParams) (attestations : List RewardAttestation)
    (nodeId : PyStr) (windowIndex : ℕ) (committee : List PyStr) : Option (List Int) :=
  let windowAttestations := attestations.filter fun attestation =>
    attestation.candidateNodeId = nodeId ∧ attestation.checkWindowIndex = (windowIndex : Int) ∧
      attestation.verifierNodeId ∈ committee
  let effectiveQuorum := min params.rewardVerifierQuorum committee.dedup.length
  let passed := passedByVerifier params windowAttestations
  if effectiveQuorum > 0 ∧ passed.length ≥ effectiveQuorum
  then some (passed.map (·.observedSyncGap)) else none

/-- The concentration key of a node: the first one that some attestation names for it. -/
def concentrationKeyOf (attestations : List RewardAttestation) (nodeId : PyStr) : PyStr :=
  match attestations.find? fun attestation =>
      attestation.candidateNodeId = nodeId ∧ attestation.concentrationKey ≠ [] with
  | some attestation => attestation.concentrationKey
  | none => str "unscoped:" ++ nodeId

/-- A node that qualifies for a reward, with what the tie-break reads. -/
structure QualifiedNode where
  record : NodeRecord
  passedWindows : ℕ
  observedSyncGaps : List Int
  concentrationKey : PyStr
  hashRank : Bytes
deriving DecidableEq

/-- Twice `statistics.median`. -/
def medianTwice (gaps : List Int) : Int :=
  let sorted := sortBy compare gaps
  if gaps.length % 2 = 1 then 2 * sorted.getD (gaps.length / 2) 0
  else sorted.getD (gaps.length / 2 - 1) 0 + sorted.getD (gaps.length / 2) 0

/-- `concentration_tiebreak_key`, then node id and payout address: more passed windows first,
then the lower median gap (an empty list of gaps counts as infinite), then the hash rank. -/
def compareTiebreak : QualifiedNode → QualifiedNode → Ordering :=
  compareLex (compareOn fun node => -(node.passedWindows : Int)) <|
  compareLex (compareOn fun node => if node.observedSyncGaps.isEmpty then (1 : ℕ) else 0) <|
  compareLex (compareOn fun node => medianTwice node.observedSyncGaps) <|
  compareLex (compareOn fun node => node.hashRank) <|
  compareLex (compareOn fun node => node.record.nodeId)
    (compareOn fun node => node.record.payoutAddress)

/-- The evaluation of one active node; `none` when it does not qualify. -/
def qualifyNode (activeIds : List PyStr) (seed : Bytes) (attestations : List RewardAttestation)
    (params : ConsensusParams) (nodeId : PyStr) (record : NodeRecord) :
    Except PyError (Option QualifiedNode) := do
  let assignedWindows ← candidateCheckWindows nodeId seed params
  let outcomes ← assignedWindows.mapM fun (windowIndex : ℕ) => do
    let committee ← verifierCommittee nodeId activeIds windowIndex seed params
    return (windowIndex, windowGaps params attestations nodeId windowIndex committee)
  let passed := outcomes.filterMap Prod.snd
  let finalConfirmationPassed := outcomes.any fun (windowIndex, outcome) =>
    outcome.isSome ∧ some windowIndex = assignedWindows.getLast?
  if passed.length ≥ params.rewardMinPassedChecksPerEpoch ∧ finalConfirmationPassed then do
    let hashRank ← scoreBytes seed
      (str "concentration-rank|" ++ record.nodeId ++ str "|" ++ record.payoutAddress)
    return some {
      record := record
      passedWindows := passed.length
      observedSyncGaps := passed.flatten
      concentrationKey := concentrationKeyOf attestations nodeId
      hashRank := hashRank }
  else return none

/-- One node survives for each concentration key, in key order. -/
def resolveConcentration (qualified : List QualifiedNode) : List QualifiedNode :=
  (sortBy compare (qualified.map (·.concentrationKey)).dedup).filterMap fun key =>
    (sortBy compareTiebreak (qualified.filter (·.concentrationKey = key))).head?

/-- The ranked recipients of an epoch, before the pool is split among them. -/
def rankedRecipients (activeRecordsById : Std.ExtTreeMap PyStr NodeRecord) (seed : Bytes)
    (attestations : List RewardAttestation) (params : ConsensusParams) :
    Except PyError (List QualifiedNode) := do
  let items := activeRecordsById.toList
  let evaluated ← items.mapM fun (nodeId, record) =>
    qualifyNode (items.map Prod.fst) seed attestations params nodeId record
  let resolved := resolveConcentration (evaluated.filterMap id)
  return (sortBy compareTiebreak resolved).take params.maxRewardedNodesPerEpoch

/-- Split a pool equally, with the remainder to the earlier ranks. -/
def splitPool (ordered : List QualifiedNode) (distributedRewardChipbits : Int) :
    List RewardSettlementEntry :=
  if ordered.isEmpty ∨ distributedRewardChipbits ≤ 0 then []
  else ordered.mapIdx fun index node => {
    nodeId := node.record.nodeId
    payoutAddress := node.record.payoutAddress
    rewardChipbits := distributedRewardChipbits / ordered.length
      + if (index : Int) < distributedRewardChipbits % ordered.length then 1 else 0
    selectionRank := index
    concentrationKey := node.concentrationKey
    finalConfirmationPassed := true }

/-- `derive_reward_settlement_entries`. -/
def deriveRewardSettlementEntries (activeRecordsById : Std.ExtTreeMap PyStr NodeRecord)
    (seed : Bytes) (attestations : List RewardAttestation) (distributedRewardChipbits : Int)
    (params : ConsensusParams) : Except PyError (List RewardSettlementEntry) := do
  return splitPool (← rankedRecipients activeRecordsById seed attestations params)
    distributedRewardChipbits

end

end Chipcoin
