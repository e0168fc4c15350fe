import Chipcoin.Consensus.Economics
import Chipcoin.Consensus.Pow
import Chipcoin.Consensus.Utxo

/-!
# Transaction and block validation

The consensus checks, in the order in which the source makes them and with its error messages.
A check that passes returns; a failing one raises. The logging of a failed transaction and the
timing of signature checks are left out.

A transaction is dispatched by its metadata, its version and the shape of its inputs through five
branches: coinbase, registry action, attestation bundle, epoch settlement and standard spend. A
block is validated by staging its transactions one after the other (`stageTransaction`) on copies
of the views, and then comparing the coinbase with the fees and the settlement found on the way.
-/

namespace Chipcoin

open Checked Sorting

/-- `ValidationContext`, without the observer of signature timings. -/
structure ValidationContext where
  height : ℕ
  medianTimePast : Int
  params : ConsensusParams
  utxoView : UtxoView
  network : PyStr
  nodeRegistryView : NodeRegistryView
  rewardAttestationIdentities : Finset AttestationIdentity
  rewardAttestationBundles : List RewardAttestationBundle
  settledEpochIndexes : Finset Int
  epochSeedByIndex : Std.ExtTreeMap Int Bytes
  expectedPreviousBlockHash : Option PyStr := none
  expectedBits : Option Int := none
  enforceCoinbaseMaturity : Bool := true
  rewardFeeRegistryCount : Option ℕ := none

variable [Platform]

/-- `is_coinbase_transaction`. -/
def isCoinbaseTransaction (transaction : Transaction) : Bool :=
  transaction.inputs.isEmpty && transaction.get? "coinbase" = some (str "true")

/-- `_is_reward_attestation_bundle_transaction`. -/
def isRewardAttestationBundleTransaction (transaction : Transaction) : Bool :=
  transaction.hasKind "reward_attestation_bundle"

/-- `_is_reward_settle_epoch_transaction`. -/
def isRewardSettleEpochTransaction (transaction : Transaction) : Bool :=
  transaction.hasKind "reward_settle_epoch"

/-- `transaction_output_total`. -/
def transactionOutputTotal (transaction : Transaction) : Int :=
  (transaction.outputs.map (·.value)).sum

/-- `transaction_weight_units`. -/
def transactionWeightUnits (transaction : Transaction) : Except PyError ℕ := do
  return (← serializeTransaction transaction).length

/-- `block_weight_units`. -/
def blockWeightUnits (block : Block) : Except PyError ℕ := do
  return (← block.transactions.mapM transactionWeightUnits).sum

/-- `is_coinbase_mature`. -/
def isCoinbaseMature (entry : UtxoEntry) (spendHeight : ℕ) (params : ConsensusParams) : Bool :=
  !entry.isCoinbase || (spendHeight : Int) - entry.height ≥ params.coinbaseMaturity

/-- `transaction_signature_digest`. -/
def transactionSignatureDigest (transaction : Transaction) (inputIndex : ℕ)
    (previousOutput : TxOutput) (network : PyStr) : Except PyError Bytes := do
  return doubleSha256 (← serializeTransactionForSigning transaction inputIndex
    previousOutput.value previousOutput.recipient network)

/-! ### Reward payloads -/

/-- `_parse_reward_attestation_bundle`: the parsed payload with well-formed signatures. -/
def parseRewardAttestationBundle (transaction : Transaction) :
    Except PyError RewardAttestationBundle := do
  let bundle ← parseRewardAttestationBundleMetadata transaction
  let _ ← bundle.attestations.mapM fun attestation => fromHex attestation.signatureHex
  return bundle

/-- `_parse_reward_settlement`: the parsed payload with well-formed hashes. -/
def parseRewardSettlement (transaction : Transaction) : Except PyError RewardSettlement := do
  let settlement ← parseRewardSettlementMetadata transaction
  let _ ← fromHex settlement.epochSeedHex
  let _ ← fromHex settlement.candidateSummaryRoot
  let _ ← fromHex settlement.verifiedNodesRoot
  let _ ← fromHex settlement.rewardedNodesRoot
  return settlement

/-! ### Stateless checks -/

/-- `_validate_reward_attestation_bundle_transaction_stateless`. -/
def validateRewardAttestationBundleTransactionStateless (transaction : Transaction) :
    Except PyError Unit := do
  raiseIf (transaction.inputs ≠ [])
    (.value "reward_attestation_bundle transactions must not contain UTXO inputs.")
  raiseIf (transaction.outputs ≠ [])
    (.value "reward_attestation_bundle transactions must not contain outputs.")
  let bundle ← parseRewardAttestationBundle transaction
  raiseIf (bundle.attestations.any fun attestation =>
      decide (attestation.epochIndex ≠ bundle.epochIndex))
    (.value "reward_attestation_bundle attestations must match bundle epoch_index.")
  raiseIf (bundle.attestations.any fun attestation =>
      decide (attestation.checkWindowIndex ≠ bundle.bundleWindowIndex))
    (.value "reward_attestation_bundle attestations must match bundle_window_index.")

/-- `_validate_reward_settle_epoch_transaction_stateless`. -/
def validateRewardSettleEpochTransactionStateless (transaction : Transaction) :
    Except PyError Unit := do
  raiseIf (transaction.inputs ≠ [])
    (.value "reward_settle_epoch transactions must not contain UTXO inputs.")
  raiseIf (transaction.outputs ≠ [])
    (.value "reward_settle_epoch transactions must not contain outputs.")
  requireDeclared transaction "reward_settle_epoch" settlementKeys
  raiseIf ((transaction.getD "epoch_seed").length ≠ 64)
    (.value "reward_settle_epoch epoch_seed must be 32-byte hex.")
  forM ["candidate_summary_root", "verified_nodes_root", "rewarded_nodes_root"] fun key =>
    raiseIf ((transaction.getD key).length ≠ 64)
      (.value s!"reward_settle_epoch {key} must be 32-byte hex.")
  let rewardEntries := (← parseRewardSettlement transaction).rewardEntries
  let rewardedNodeCount ← intOfStr (transaction.getD "rewarded_node_count")
  raiseIf (rewardedNodeCount ≠ rewardEntries.length)
    (.value
      "reward_settle_epoch rewarded_node_count does not match reward_entries_json length.")
  let distributed ← intOfStr (transaction.getD "distributed_node_reward_chipbits")
  let undistributed ← intOfStr (transaction.getD "undistributed_node_reward_chipbits")
  raiseIf (distributed < 0 ∨ undistributed < 0)
    (.value "reward_settle_epoch reward amounts must be non-negative.")
  raiseIf (rewardEntries.map (·.selectionRank) ≠
      (List.range rewardEntries.length).map fun (rank : ℕ) => (rank : Int))
    (.value ("reward_settle_epoch reward_entries_json must use contiguous zero-based " ++
      "selection_rank ordering."))

/-- `_validate_outpoint`: a transaction identifier is 32 octets in hexadecimal. -/
def validateOutpoint (txid : PyStr) : Except PyError Unit :=
  raiseIf (txid.length ≠ 64 ∨ txid.any fun character => (hexValue character).isNone)
    (.stateless "Outpoint transaction identifiers must be 32-byte hex strings.")

/-- The checks on one input of a standard transaction, given the outpoints seen before it. -/
def validateInputStateless (version : Int) (seenOutpoints : Finset OutPoint)
    (txInput : TxInput) : Except PyError (Finset OutPoint) := do
  validateOutpoint txInput.previousOutput.txid
  raiseIf (txInput.previousOutput.index < 0) (.stateless "Outpoint index cannot be negative.")
  raiseIf (txInput.previousOutput ∈ seenOutpoints)
    (.stateless "Transaction cannot spend the same outpoint twice.")
  raiseIf (txInput.sigSchemeId < 0 ∨ txInput.sigSchemeId > 0xFF)
    (.stateless "Signature scheme id must fit in one byte.")
  raiseIf (version = 1 ∧ txInput.sigSchemeId ≠ sigSchemeLegacyEcdsa)
    (.stateless "Transaction v1 inputs cannot declare non-legacy signature schemes.")
  raiseIf (version ≥ pqTransactionVersion ∧ ¬ isKnownSignatureScheme txInput.sigSchemeId)
    (.stateless "Transaction input declares an unknown signature scheme.")
  raiseIf (txInput.publicKey.length > 4096)
    (.stateless "Transaction input public key exceeds maximum size.")
  raiseIf (txInput.signature.length > 8192)
    (.stateless "Transaction input signature exceeds maximum size.")
  raiseIf (txInput.signature = []) (.stateless "Non-coinbase inputs must include a signature.")
  raiseIf (txInput.publicKey = []) (.stateless "Non-coinbase inputs must include a public key.")
  return insert txInput.previousOutput seenOutpoints

/-- The checks of `validate_transaction_stateless` on coinbase and standard transactions. -/
def validatePaymentStateless (transaction : Transaction) : Except PyError Unit := do
  raiseIf (transaction.outputs = []) (.stateless "Transaction must contain at least one output.")
  raiseIf (transaction.locktime < 0) (.stateless "Transaction locktime cannot be negative.")
  forM transaction.outputs fun output => do
    raiseIf (output.value < 0) (.stateless "Transaction outputs cannot be negative.")
    raiseIf (output.recipient = []) (.stateless "Transaction outputs must declare a recipient.")
  if isCoinbaseTransaction transaction then return ()
  else do
    raiseIf (transaction.inputs = [])
      (.stateless "Non-coinbase transactions must have at least one input.")
    let _ ← transaction.inputs.foldlM (validateInputStateless transaction.version) ∅

/-- `validate_transaction_stateless`. -/
def validateTransactionStateless (transaction : Transaction) : Except PyError Unit := do
  raiseIf (transaction.version ≤ 0) (.stateless "Transaction version must be positive.")
  if isSpecialNodeTransaction transaction then
    rethrow (onValueError .stateless) (validateSpecialNodeTransactionStateless transaction)
  else if isRewardAttestationBundleTransaction transaction then
    rethrow (onValueError .stateless)
      (validateRewardAttestationBundleTransactionStateless transaction)
  else if isRewardSettleEpochTransaction transaction then
    rethrow (onValueError .stateless) (validateRewardSettleEpochTransactionStateless transaction)
  else validatePaymentStateless transaction

/-! ### Signatures of standard inputs -/

/-- `_pq_support_active`. -/
def pqSupportActive (context : ValidationContext) : Bool :=
  pqSupportIsActive context.network context.height context.params

/-- `_validate_transaction_outputs_for_activation`. -/
def validateTransactionOutputsForActivation (transaction : Transaction)
    (context : ValidationContext) : Except PyError Unit :=
  forM transaction.outputs fun output =>
    if pqAddressPrefix.isPrefixOf output.recipient then do
      let info ← rethrow
        (onValueError fun _ =>
          .contextual "Transaction output recipient is not a valid CHCQ address.")
        (parseAddress output.recipient)
      raiseIf (info.kind = .pq ∧ ¬ pqSupportActive context)
        (.contextual "CHCQ outputs are not active on this network at this height.")
    else .ok ()

/-- `_validate_legacy_input_signature`. -/
def validateLegacyInputSignature (transaction : Transaction) (inputIndex : ℕ)
    (txInput : TxInput) (previousOutput : TxOutput) (context : ValidationContext) :
    Except PyError Unit := do
  let derivedRecipient ← rethrow
    (onValueError fun _ =>
      .contextual "Input public key is not a valid secp256k1 public key.")
    (publicKeyToAddress txInput.publicKey)
  raiseIf (derivedRecipient ≠ previousOutput.recipient)
    (.contextual "Input public key does not match the referenced output recipient.")
  let digest ← transactionSignatureDigest transaction inputIndex previousOutput context.network
  raiseIf (¬ verifyDigest txInput.publicKey digest txInput.signature)
    (.contextual "Input signature is invalid.")

/-- The checks of `_validate_standard_input_signature` on the spend of a `CHCQ` output. -/
def validatePqInputSignature (transaction : Transaction) (inputIndex : ℕ)
    (txInput : TxInput) (previousOutput : TxOutput) (addressInfo : AddressInfo)
    (context : ValidationContext) : Except PyError Unit := do
  raiseIf (¬ pqSupportActive context)
    (.contextual "CHCQ spends are not active on this network at this height.")
  raiseIf (txInput.sigSchemeId ≠ addressInfo.schemeId)
    (.contextual "Input signature scheme does not match the CHCQ address.")
  let scheme ← rethrow (onValueError fun _ => .contextual "Input signature scheme is unknown.")
    (getSignatureScheme txInput.sigSchemeId)
  raiseIf (¬ scheme.activated ∨ ¬ scheme.supportsVerify)
    (.contextual "Input signature scheme is not verification-capable.")
  let verifier ← orRaise scheme.verifier
    (.contextual "Input signature scheme is not verification-capable.")
  let publicKeySize ← orRaise scheme.publicKeySize
    (.contextual "Input signature scheme has no fixed consensus sizes.")
  let signatureSize ← orRaise scheme.signatureSize
    (.contextual "Input signature scheme has no fixed consensus sizes.")
  raiseIf (txInput.publicKey.length ≠ publicKeySize)
    (.contextual "Input public key has the wrong size for its signature scheme.")
  raiseIf (txInput.signature.length ≠ signatureSize)
    (.contextual "Input signature has the wrong size for its signature scheme.")
  raiseIf (pqPublicKeyCommitment txInput.publicKey ≠ addressInfo.hashOrCommitment)
    (.contextual "Input public key does not match the CHCQ commitment.")
  let digest ← transactionSignatureDigest transaction inputIndex previousOutput context.network
  let verified ← rethrow
    (fun error => match error with
      | .runtime _ => some (.contextual "Input signature scheme backend is unavailable.")
      | _ => none)
    (verifier txInput.publicKey digest txInput.signature)
  raiseIf (¬ verified) (.contextual "Input signature is invalid.")

/-- `_validate_standard_input_signature`. -/
def validateStandardInputSignature (transaction : Transaction) (inputIndex : ℕ)
    (txInput : TxInput) (previousOutput : TxOutput) (context : ValidationContext) :
    Except PyError Unit := do
  let addressInfo ← rethrow
    (onValueError fun _ =>
      .contextual "Referenced output recipient is not a valid Chipcoin address.")
    (parseAddress previousOutput.recipient)
  if transaction.version = 1 then do
    raiseIf (addressInfo.kind ≠ .legacy)
      (.contextual "Transaction v1 cannot spend CHCQ outputs.")
    raiseIf (txInput.sigSchemeId ≠ sigSchemeLegacyEcdsa)
      (.contextual "Transaction v1 inputs must use the legacy signature scheme.")
    validateLegacyInputSignature transaction inputIndex txInput previousOutput context
  else do
    raiseIf (transaction.version ≥ pqTransactionVersion ∧ ¬ pqSupportActive context)
      (.contextual
        "Transaction v2 wallet spends are not active on this network at this height.")
    if addressInfo.kind = .legacy then do
      raiseIf (txInput.sigSchemeId ≠ sigSchemeLegacyEcdsa)
        (.contextual "CHC spends must use the legacy signature scheme.")
      validateLegacyInputSignature transaction inputIndex txInput previousOutput context
    else validatePqInputSignature transaction inputIndex txInput previousOutput addressInfo context

/-! ### Stateful checks of the special kinds -/

/-- The registry count that drives the adaptive fees in a context. -/
def feeRegistryCount (context : ValidationContext) : ℕ :=
  match context.rewardFeeRegistryCount with
  | some count => count
  | none => rewardFeeNodeCount context.nodeRegistryView context.height context.params

/-- `_find_registry_record_by_node_pubkey`. -/
def findRegistryRecordByNodePubkey (view : NodeRegistryView) (nodePubkey : Bytes) :
    Option NodeRecord :=
  view.listRecords.find? (·.nodePubkey = some nodePubkey)

/-- The stateful checks on `register_node`. -/
def validateRegisterNodeStateful (transaction : Transaction) (context : ValidationContext)
    (ownerPubkey : Bytes) : Except PyError Unit := do
  let nodeId ← transaction.get "node_id"
  raiseIf (context.nodeRegistryView.getByNodeId nodeId ≠ none)
    (.contextual "register_node transaction reuses an existing node_id.")
  raiseIf (context.nodeRegistryView.getByOwnerPubkey ownerPubkey ≠ none)
    (.contextual "register_node transaction reuses an existing owner_pubkey.")

/-- The stateful checks on `register_reward_node`. -/
def validateRegisterRewardNodeStateful (transaction : Transaction) (context : ValidationContext)
    (ownerPubkey : Bytes) : Except PyError Unit := do
  let nodeId ← transaction.get "node_id"
  raiseIf ((context.nodeRegistryView.getByNodeId nodeId).any fun existing =>
      existing.rewardRegistration ∨ existing.ownerPubkey ≠ ownerPubkey)
    (.contextual "register_reward_node transaction reuses an existing node_id.")
  raiseIf ((context.nodeRegistryView.getByOwnerPubkey ownerPubkey).any fun existing =>
      existing.nodeId ≠ nodeId)
    (.contextual "register_reward_node transaction reuses an existing owner_pubkey.")
  let nodePubkey ← fromHex (← transaction.get "node_pubkey_hex")
  raiseIf ((findRegistryRecordByNodePubkey context.nodeRegistryView nodePubkey).any
      fun existing => existing.nodeId ≠ nodeId)
    (.contextual "register_reward_node transaction reuses an existing node_pubkey.")
  let expectedFee ← registerRewardNodeFeeChipbits (feeRegistryCount context) context.params
  let fee ← intOfStr ((transaction.get? "registration_fee_chipbits").getD (str "-1"))
  raiseIf (fee ≠ expectedFee)
    (.contextual ("register_reward_node transaction registration_fee_chipbits does not match " ++
      "consensus fee schedule."))

/-- What the two renewals check: the node is known, its owner signs, and the epoch is current.
`kind` is the transaction kind in the messages. -/
def validateRenewal (transaction : Transaction) (context : ValidationContext)
    (ownerPubkey : Bytes) (kind : String) : Except PyError Unit := do
  let nodeId ← transaction.get "node_id"
  let record ← orRaise (context.nodeRegistryView.getByNodeId nodeId)
    (.contextual s!"{kind} transaction references an unknown node_id.")
  raiseIf (record.ownerPubkey ≠ ownerPubkey)
    (.contextual s!"{kind} transaction owner_pubkey does not match the registered node owner.")
  raiseIf (transaction.get? "renewal_epoch" ≠
      some (strOfInt (context.height / context.params.epochLengthBlocks : ℕ)))
    (.contextual s!"{kind} transaction renewal_epoch does not match the block epoch.")

/-- The stateful checks on `renew_reward_node`. -/
def validateRenewRewardNodeStateful (transaction : Transaction) (context : ValidationContext)
    (ownerPubkey : Bytes) : Except PyError Unit := do
  validateRenewal transaction context ownerPubkey "renew_reward_node"
  let expectedFee ← renewRewardNodeFeeChipbits (feeRegistryCount context) context.params
  let fee ← intOfStr ((transaction.get? "renewal_fee_chipbits").getD (str "-1"))
  raiseIf (fee ≠ expectedFee)
    (.contextual ("renew_reward_node transaction renewal_fee_chipbits does not match " ++
      "consensus fee schedule."))

/-- `_validate_special_node_transaction_stateful`. -/
def validateSpecialNodeTransactionStateful (transaction : Transaction)
    (context : ValidationContext) : Except PyError Unit := do
  let ownerPubkey ← fromHex (← transaction.get "owner_pubkey_hex")
  let valid ← specialNodeTransactionSignatureIsValid transaction context.network context.height
  raiseIf (¬ valid)
    (.contextual "Special node transaction owner signature is invalid for this network.")
  if isLegacyRegisterNodeTransaction transaction then
    validateRegisterNodeStateful transaction context ownerPubkey
  else if isRegisterRewardNodeTransaction transaction then
    validateRegisterRewardNodeStateful transaction context ownerPubkey
  else if isLegacyRenewNodeTransaction transaction then
    validateRenewal transaction context ownerPubkey "renew_node"
  else if isRenewRewardNodeTransaction transaction then
    validateRenewRewardNodeStateful transaction context ownerPubkey
  else .error (.contextual "Unsupported special node transaction kind.")

/-- The checks on one attestation of a bundle. -/
def validateAttestation (context : ValidationContext) (seed : Bytes)
    (activeById : Std.ExtTreeMap PyStr NodeRecord) (attestation : RewardAttestation) :
    Except PyError Unit := do
  raiseIf (attestationIdentity attestation ∈ context.rewardAttestationIdentities)
    (.contextual "reward_attestation_bundle replays an attestation already recorded on chain.")
  let candidate ← orRaise activeById[attestation.candidateNodeId]?
    (.contextual ("reward_attestation_bundle references a candidate node that is not active in " ++
      "the current epoch."))
  let verifier ← orRaise activeById[attestation.verifierNodeId]?
    (.contextual ("reward_attestation_bundle references a verifier node that is not active in " ++
      "the current epoch."))
  let assignedWindows ← candidateCheckWindows candidate.nodeId seed context.params
  raiseIf (attestation.checkWindowIndex ∉
      assignedWindows.map fun (window : ℕ) => (window : Int))
    (.contextual ("reward_attestation_bundle attestation is not assigned to the candidate's " ++
      "deterministic check windows."))
  let committee ← verifierCommittee candidate.nodeId activeById.keys attestation.checkWindowIndex
    seed context.params
  raiseIf (verifier.nodeId ∉ committee)
    (.contextual ("reward_attestation_bundle attestation verifier is not in the deterministic " ++
      "committee."))
  let nodePubkey ← orRaise verifier.nodePubkey
    (.contextual ("reward_attestation_bundle verifier is missing a native reward-node public " ++
      "key."))
  let signature ← rethrow
    (onValueError fun _ => .contextual "reward_attestation_bundle signature_hex is invalid.")
    (fromHex attestation.signatureHex)
  let digest ← rewardAttestationSignatureDigest attestation
  raiseIf (¬ verifyDigest nodePubkey digest signature)
    (.contextual "reward_attestation_bundle attestation signature is invalid.")

/-- `_validate_reward_attestation_bundle_transaction_with_params`. -/
def validateRewardAttestationBundleTransactionWithParams (transaction : Transaction)
    (context : ValidationContext) : Except PyError Unit := do
  let bundle ← parseRewardAttestationBundle transaction
  let violations := bundleRuleViolations bundle context.params
  raiseIf (violations ≠ [])
    (.contextual ("reward_attestation_bundle violates rules: " ++ ", ".intercalate violations))
  raiseIf (context.height < context.params.nodeRewardActivationHeight)
    (.contextual ("reward_attestation_bundle transactions are not active before " ++
      "node_reward_activation_height."))
  raiseIf (bundle.epochIndex ≠ (context.height / context.params.epochLengthBlocks : ℕ))
    (.contextual "reward_attestation_bundle epoch_index must match the current block epoch.")
  let seed ← orRaise context.epochSeedByIndex[bundle.epochIndex]?
    (.contextual
      "reward_attestation_bundle epoch seed is unavailable for the declared epoch.")
  let activeById :=
    activeRewardRecordsById context.nodeRegistryView context.height context.params
  raiseIf (bundle.bundleSubmitterNodeId ∉ activeById)
    (.contextual "reward_attestation_bundle submitter must be an active reward node.")
  forM bundle.attestations (validateAttestation context seed activeById)

/-- The attestations on chain for one epoch, in the order of the context's bundles. -/
def epochAttestations (context : ValidationContext) (epochIndex : Int) : List RewardAttestation :=
  (context.rewardAttestationBundles.filter (·.epochIndex = epochIndex)).flatMap (·.attestations)

/-- `_validate_reward_settle_epoch_transaction_with_params`. -/
def validateRewardSettleEpochTransactionWithParams (transaction : Transaction)
    (context : ValidationContext) : Except PyError Unit := do
  let settlement ← parseRewardSettlement transaction
  raiseIf (context.height < context.params.nodeRewardActivationHeight)
    (.contextual ("reward_settle_epoch transactions are not active before " ++
      "node_reward_activation_height."))
  raiseIf (settlement.epochIndex ∈ context.settledEpochIndexes)
    (.contextual "reward_settle_epoch duplicates an already-settled epoch.")
  raiseIf (context.height ≠ settlement.epochEndHeight)
    (.contextual "reward_settle_epoch must appear at the declared epoch_end_height.")
  let closeHeight ← epochCloseHeight settlement.epochIndex context.params
  raiseIf (settlement.epochEndHeight ≠ closeHeight)
    (.contextual
      "reward_settle_epoch epoch_end_height does not match consensus epoch boundaries.")
  raiseIf (settlement.epochStartHeight ≠
      settlement.epochIndex * context.params.epochLengthBlocks)
    (.contextual
      "reward_settle_epoch epoch_start_height does not match consensus epoch boundaries.")
  let expectedSeed ← orRaise context.epochSeedByIndex[settlement.epochIndex]?
    (.contextual "reward_settle_epoch epoch seed is unavailable for the declared epoch.")
  raiseIf (settlement.epochSeedHex ≠ hex expectedSeed)
    (.contextual "reward_settle_epoch epoch_seed does not match the deterministic epoch seed.")
  raiseIf ((settlement.rewardEntries.map (·.rewardChipbits)).sum ≠
      settlement.distributedNodeRewardChipbits)
    (.contextual
      "reward_settle_epoch distributed reward does not match reward_entries_json totals.")
  let scheduledPool := (subsidySplitChipbits context.height context.params).2
  raiseIf (settlement.distributedNodeRewardChipbits +
      settlement.undistributedNodeRewardChipbits ≠ scheduledPool)
    (.contextual ("reward_settle_epoch distributed and undistributed reward does not match the " ++
      "scheduled epoch reward."))
  raiseIf (settlement.rewardedNodeCount ≠ settlement.rewardEntries.length)
    (.contextual "reward_settle_epoch rewarded_node_count does not match the reward entry count.")
  raiseIf (¬ (settlement.rewardEntries.map fun entry =>
      (entry.nodeId, entry.payoutAddress)).Nodup)
    (.contextual ("reward_settle_epoch reward_entries_json must not contain duplicate rewarded " ++
      "recipients."))
  if settlement.rewardEntries ≠ [] then do
    let expectedEntries ← deriveRewardSettlementEntries
      (activeRewardRecordsById context.nodeRegistryView context.height context.params)
      expectedSeed (epochAttestations context settlement.epochIndex)
      settlement.distributedNodeRewardChipbits context.params
    raiseIf (settlement.rewardEntries ≠ expectedEntries)
      (.contextual
        ("reward_settle_epoch reward_entries_json does not match deterministic quorum " ++
        "and concentration results."))
  else
    raiseIf (settlement.undistributedNodeRewardChipbits ≠ scheduledPool)
      (.contextual ("reward_settle_epoch with zero rewarded nodes must leave the full scheduled " ++
        "pool undistributed."))

/-! ### Stateful checks of a transaction -/

/-- One input of a standard transaction: it exists, is mature and is signed for. The result adds
its value to the total so far. -/
def validateSpend (transaction : Transaction) (context : ValidationContext)
    (inputTotalChipbits : Int) (indexed : TxInput × ℕ) : Except PyError Int := do
  let (txInput, inputIndex) := indexed
  let entry ← orRaise (context.utxoView.get txInput.previousOutput)
    (.contextual "Referenced input does not exist in the UTXO set.")
  raiseIf (context.enforceCoinbaseMaturity ∧
      ¬ isCoinbaseMature entry context.height context.params)
    (.contextual "Coinbase output is not mature enough to spend.")
  validateStandardInputSignature transaction inputIndex txInput entry.output context
  return inputTotalChipbits + entry.output.value

/-- The checks of `validate_transaction_stateful` on a standard transaction; the result is its
fee. -/
def validateStandardStateful (transaction : Transaction) (context : ValidationContext) :
    Except PyError Int := do
  let inputTotalChipbits ← transaction.inputs.zipIdx.foldlM
    (validateSpend transaction context) 0
  raiseIf (inputTotalChipbits < transactionOutputTotal transaction)
    (.contextual "Transaction outputs exceed transaction inputs.")
  return inputTotalChipbits - transactionOutputTotal transaction

/-- `validate_transaction_stateful`: the fee of the transaction. -/
def validateTransactionStateful (transaction : Transaction) (context : ValidationContext) :
    Except PyError Int := do
  validateTransactionOutputsForActivation transaction context
  if isCoinbaseTransaction transaction then return 0
  else if isSpecialNodeTransaction transaction then do
    validateSpecialNodeTransactionStateful transaction context
    return 0
  else if isRewardAttestationBundleTransaction transaction then do
    validateRewardAttestationBundleTransactionWithParams transaction context
    return 0
  else if isRewardSettleEpochTransaction transaction then do
    validateRewardSettleEpochTransactionWithParams transaction context
    return 0
  else validateStandardStateful transaction context

/-- `validate_transaction`. -/
def validateTransaction (transaction : Transaction) (context : ValidationContext) :
    Except PyError Int := do
  validateTransactionStateless transaction
  validateTransactionStateful transaction context

/-! ### Staging the transactions of a block -/

/-- The local variables of `validate_block_stateful` while it walks the transactions. -/
structure Stage where
  stagedView : UtxoView
  stagedRegistry : NodeRegistryView
  totalFeesChipbits : Int
  seenSpends : Finset OutPoint
  seenAttestations : Finset AttestationIdentity
  /-- The (window, verifier) pairs of the attestations met so far; `verifier_window_counts` is
  how often each occurs. -/
  verifierWindows : List (Int × PyStr)
  stagedAttestationIdentities : Finset AttestationIdentity
  stagedAttestationBundles : List RewardAttestationBundle
  stagedSettledEpochIndexes : Finset Int
  stagedEpochSettlement : Option RewardSettlement

/-- The variables at the start of the walk. -/
def initialStage (context : ValidationContext) : Stage where
  stagedView := context.utxoView
  stagedRegistry := context.nodeRegistryView
  totalFeesChipbits := 0
  seenSpends := ∅
  seenAttestations := ∅
  verifierWindows := []
  stagedAttestationIdentities := context.rewardAttestationIdentities
  stagedAttestationBundles := context.rewardAttestationBundles
  stagedSettledEpochIndexes := context.settledEpochIndexes
  stagedEpochSettlement := none

/-- The context in which a transaction of the block is validated. -/
def stagedContext (context : ValidationContext) (stage : Stage) : ValidationContext :=
  { context with
    utxoView := stage.stagedView
    nodeRegistryView := stage.stagedRegistry
    rewardAttestationIdentities := stage.stagedAttestationIdentities
    rewardAttestationBundles := stage.stagedAttestationBundles
    settledEpochIndexes := stage.stagedSettledEpochIndexes
    expectedPreviousBlockHash := none
    expectedBits := none
    rewardFeeRegistryCount := some (feeRegistryCount context) }

/-- The in-block limits on one attestation. -/
def stageAttestation (params : ConsensusParams) (stage : Stage)
    (attestation : RewardAttestation) : Except PyError Stage := do
  let identity := attestationIdentity attestation
  raiseIf (identity ∈ stage.seenAttestations)
    (.contextual "Block contains a duplicate reward attestation.")
  let verifierWindows :=
    (attestation.checkWindowIndex, attestation.verifierNodeId) :: stage.verifierWindows
  raiseIf (verifierWindows.count (attestation.checkWindowIndex, attestation.verifierNodeId) >
      params.maxAttestationsPerVerifierPerWindow)
    (.contextual "Block exceeds per-window verifier attestation emission limits.")
  return { stage with
    seenAttestations := insert identity stage.seenAttestations
    verifierWindows := verifierWindows }

/-- No two inputs of a block spend the same outpoint. -/
def stageSpend (seenSpends : Finset OutPoint) (txInput : TxInput) :
    Except PyError (Finset OutPoint) := do
  raiseIf (txInput.previousOutput ∈ seenSpends) (.contextual "Block contains a double spend.")
  return insert txInput.previousOutput seenSpends

/-- The checks on a transaction against the transactions before it in the block. -/
def stageLimits (context : ValidationContext) (stage : Stage) (transaction : Transaction) :
    Except PyError Stage := do
  let stage ←
    if isRewardAttestationBundleTransaction transaction then do
      let bundle ← parseRewardAttestationBundle transaction
      bundle.attestations.foldlM (stageAttestation context.params) stage
    else pure stage
  if isSpecialNodeTransaction transaction then return stage
  else do
    let seenSpends ← transaction.inputs.foldlM stageSpend stage.seenSpends
    return { stage with seenSpends := seenSpends }

/-- The effect of a validated transaction on the staged state. -/
def stageEffect (context : ValidationContext) (stage : Stage) (transaction : Transaction) :
    Except PyError Stage := do
  if isSpecialNodeTransaction transaction then do
    let registry ← applySpecialNodeTransaction transaction context.height stage.stagedRegistry
    return { stage with stagedRegistry := registry }
  else if isRewardAttestationBundleTransaction transaction then do
    let bundle ← parseRewardAttestationBundle transaction
    return { stage with
      stagedAttestationBundles := stage.stagedAttestationBundles ++ [bundle]
      stagedAttestationIdentities := stage.stagedAttestationIdentities ∪
        (bundle.attestations.map attestationIdentity).toFinset }
  else if isRewardSettleEpochTransaction transaction then do
    let settlement ← parseRewardSettlement transaction
    return { stage with
      stagedSettledEpochIndexes := insert settlement.epochIndex stage.stagedSettledEpochIndexes
      stagedEpochSettlement :=
        if settlement.epochEndHeight = context.height then some settlement
        else stage.stagedEpochSettlement }
  else do
    let view ← stage.stagedView.applyTransaction transaction context.height false
    return { stage with stagedView := view }

/-- One round of the loop of `validate_block_stateful`. -/
def stageTransaction (context : ValidationContext) (stage : Stage) (transaction : Transaction) :
    Except PyError Stage := do
  let stage ← stageLimits context stage transaction
  let feeChipbits ← validateTransactionStateful transaction (stagedContext context stage)
  stageEffect context
    { stage with totalFeesChipbits := stage.totalFeesChipbits + feeChipbits } transaction

/-! ### Blocks -/

/-- The node reward outputs that the block's settlement asks of the coinbase, in rank order. -/
def settlementOutputs : Option RewardSettlement → List TxOutput
  | none => []
  | some settlement =>
    (sortBy (compareOn RewardSettlementEntry.selectionRank) settlement.rewardEntries).map
      fun entry => { value := entry.rewardChipbits, recipient := entry.payoutAddress }

/-- `_validate_coinbase_distribution`. -/
def validateCoinbaseDistribution (coinbaseTransaction : Transaction) (totalFeesChipbits : Int)
    (context : ValidationContext) (epochSettlement : Option RewardSettlement) :
    Except PyError Unit := do
  raiseIf (coinbaseTransaction.outputs = [])
    (.contextual "Coinbase transaction must contain at least one output.")
  let split := subsidySplitChipbits context.height context.params
  let epochClosingHeight := isEpochRewardHeight context.height context.params
  let rewardedOutputs := settlementOutputs epochSettlement
  let distributedNodeRewardChipbits : Int :=
    (epochSettlement.map (·.distributedNodeRewardChipbits)).getD 0
  raiseIf (¬ epochClosingHeight ∧ split.2 ≠ 0)
    (.contextual "Node reward can only be minted on epoch-closing blocks.")
  raiseIf (¬ epochClosingHeight ∧ rewardedOutputs ≠ [])
    (.contextual "Node reward recipients are not allowed on non-epoch blocks.")
  raiseIf (coinbaseTransaction.outputs.length ≠ 1 + rewardedOutputs.length)
    (.contextual
      "Coinbase outputs do not match the expected miner and node reward distribution.")
  raiseIf ((coinbaseTransaction.outputs.head?.map (·.value)) ≠
      some (split.1 + totalFeesChipbits))
    (.contextual "Coinbase miner payout amount is incorrect.")
  forM (coinbaseTransaction.outputs.tail.zip rewardedOutputs) fun (actual, expected) => do
    raiseIf (actual.recipient ≠ expected.recipient)
      (.contextual "Coinbase node reward recipient ordering is incorrect.")
    raiseIf (actual.value ≠ expected.value)
      (.contextual "Coinbase node reward amount is incorrect.")
  raiseIf (rewardedOutputs ≠ [] ∧ distributedNodeRewardChipbits ≠ split.2)
    (.contextual "Coinbase node reward split does not match the scheduled epoch reward.")
  raiseIf (rewardedOutputs = [] ∧ distributedNodeRewardChipbits ≠ 0)
    (.contextual ("Coinbase must not mint node reward outputs when no nodes are eligible for " ++
      "the epoch."))

/-- The part of `validate_block_stateless` before the proof of work. -/
def validateBlockContents (block : Block) (context : ValidationContext) :
    Except PyError Unit := do
  raiseIf (block.transactions = [])
    (.stateless "Block must contain at least one transaction.")
  raiseIf (¬ block.transactions.head?.any isCoinbaseTransaction)
    (.stateless "First block transaction must be coinbase.")
  raiseIf (block.transactions.tail.any isCoinbaseTransaction)
    (.stateless "Only the first block transaction may be coinbase.")
  forM block.transactions validateTransactionStateless
  raiseIf (block.transactions.countP isRewardAttestationBundleTransaction >
      context.params.maxAttestationBundlesPerBlock)
    (.stateless "Block contains too many reward_attestation_bundle transactions.")
  raiseIf ((← blockWeightUnits block) > context.params.maxBlockWeight)
    (.stateless "Block exceeds maximum block weight.")
  let expectedMerkleRoot ← merkleRoot (← block.transactions.mapM Transaction.txid)
  raiseIf (block.header.merkleRoot ≠ expectedMerkleRoot)
    (.stateless "Block Merkle root does not match transaction contents.")
  raiseIf (block.header.timestamp < 0) (.stateless "Block timestamp cannot be negative.")
  raiseIf (block.header.timestamp < context.medianTimePast)
    (.stateless "Block timestamp is below median time past.")
  let _ ← bitsToTarget block.header.bits

/-- `validate_block_stateless`, with a context. -/
def validateBlockStateless (block : Block) (context : ValidationContext) :
    Except PyError Unit := do
  validateBlockContents block context
  raiseIf ((← verifyProofOfWork block.header) = false)
    (.stateless "Block proof of work is invalid.")

/-- `validate_block_stateful`: the total fees of the block. -/
def validateBlockStateful (block : Block) (context : ValidationContext) :
    Except PyError Int := do
  raiseIf (context.expectedPreviousBlockHash.any (block.header.previousBlockHash ≠ ·))
    (.contextual "Block does not connect to the expected previous hash.")
  raiseIf (context.expectedBits.any (block.header.bits ≠ ·))
    (.contextual "Block bits do not match expected difficulty target.")
  let stage ← block.transactions.tail.foldlM (stageTransaction context) (initialStage context)
  let coinbaseTransaction ← orRaise block.transactions.head? (.index "tuple index out of range")
  validateCoinbaseDistribution coinbaseTransaction stage.totalFeesChipbits context
    stage.stagedEpochSettlement
  return stage.totalFeesChipbits

/-- `validate_block`. -/
def validateBlock (block : Block) (context : ValidationContext) : Except PyError Int := do
  validateBlockStateless block context
  validateBlockStateful block context

end Chipcoin
