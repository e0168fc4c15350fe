import Chipcoin.Node.Context

/-!
# The mempool

Admission policy, the pass that rebuilds the mempool after the active chain has moved
(`reconcile`), and admission of one transaction (`accept`). The counters of post-quantum traffic
and the log lines are left out: nothing reads them.
-/

namespace Chipcoin

open Checked Sorting Database

/-- `PQPolicyLimits`, the fields that admission uses. -/
structure PQPolicyLimits where
  maxPqSignatureSize : ℕ := 2420
  maxPqPublicKeySize : ℕ := 1312
  maxPqInputs : ℕ := 16
  maxPqTxSize : ℕ := 64000
  maxPqSigopsPerTx : ℕ := 16
  pqSigopCostMldsa44 : ℕ := 16

/-- `MempoolPolicy`. -/
structure MempoolPolicy where
  minFeeChipbitsNormalTx : Int := 1
  maxTransactionSizeBytes : ℕ := 100000
  maxTransactionInputs : ℕ := 128
  maxTransactionOutputs : ℕ := 128
  maxMempoolTransactions : ℕ := 1000
  maxSpecialNodeTransactions : ℕ := 32
  maxRegisterRewardNodeTransactions : ℕ := 8
  maxRenewRewardNodeTransactions : ℕ := 16
  maxRewardAttestationBundleTransactions : ℕ := 128
  transactionTtlSeconds : Int := 72 * 60 * 60
  pqLimits : PQPolicyLimits := {}

/-- The node service with its mempool policy. -/
structure Node extends NodeConfig where
  policy : MempoolPolicy := {}

/-- The error is a `ValidationError`. -/
def PyError.isValidation : PyError → Bool
  | .stateless _ | .contextual _ | .validation _ => true
  | _ => false

/-- `_is_expired`. -/
def isExpired (policy : MempoolPolicy) (addedAt now : Int) : Bool :=
  now - addedAt ≥ policy.transactionTtlSeconds

section

variable [Platform]

/-! ### Policy on one transaction -/

/-- `is_pq_transaction`. -/
def isPqTransaction (transaction : Transaction) : Bool :=
  (transaction.inputs.any fun txInput => txInput.sigSchemeId ≠ sigSchemeLegacyEcdsa) ||
    transaction.outputs.any fun output =>
      match parseAddress output.recipient with
      | .ok info => info.kind = .pq
      | .error _ => false

/-- `pq_sigop_count`. -/
def pqSigopCount (transaction : Transaction) : ℕ :=
  transaction.inputs.countP fun txInput => txInput.sigSchemeId = sigSchemeMlDsa44

/-- The checks of `enforce_pq_mempool_precheck` on one input, given the inputs counted so far. -/
def precheckPqInput (limits : PQPolicyLimits) (pqInputs : ℕ) (txInput : TxInput) :
    Except PyError ℕ := do
  if txInput.sigSchemeId = sigSchemeLegacyEcdsa then return pqInputs
  else do
    raiseIf (pqInputs + 1 > limits.maxPqInputs)
      (.value "PQ transaction exceeds mempool PQ input-count policy.")
    raiseIf (¬ isKnownSignatureScheme txInput.sigSchemeId)
      (.value "PQ transaction input declares an unknown signature scheme.")
    let scheme ← getSignatureScheme txInput.sigSchemeId
    raiseIf (¬ scheme.activated ∨ ¬ scheme.supportsVerify)
      (.value "PQ transaction input uses a non-verification-capable signature scheme.")
    raiseIf (txInput.sigSchemeId ≠ sigSchemeMlDsa44)
      (.value "PQ transaction input uses an unsupported active signature scheme.")
    raiseIf (txInput.signature.length ≠ 2420)
      (.value "PQ transaction input signature has the wrong size for ML-DSA-44.")
    raiseIf (txInput.publicKey.length ≠ 1312)
      (.value "PQ transaction input public key has the wrong size for ML-DSA-44.")
    raiseIf (txInput.signature.length > limits.maxPqSignatureSize)
      (.value "PQ transaction input signature exceeds policy size.")
    raiseIf (txInput.publicKey.length > limits.maxPqPublicKeySize)
      (.value "PQ transaction input public key exceeds policy size.")
    return pqInputs + 1

/-- `enforce_pq_mempool_precheck`. -/
def enforcePqMempoolPrecheck (transaction : Transaction) (limits : PQPolicyLimits) :
    Except PyError Unit := do
  if isPqTransaction transaction then do
    raiseIf ((transaction.inputs.any fun txInput => txInput.sigSchemeId ≠ sigSchemeLegacyEcdsa) ∧
        transaction.version ≠ pqTransactionVersion)
      (.value "PQ transaction must use transaction version 2.")
    let pqSigops ← transaction.inputs.foldlM (precheckPqInput limits) 0
    raiseIf (pqSigops > limits.maxPqSigopsPerTx)
      (.value "PQ transaction exceeds mempool PQ sigops policy.")
    raiseIf (pqSigopCount transaction * limits.pqSigopCostMldsa44 >
        limits.maxPqSigopsPerTx * limits.pqSigopCostMldsa44)
      (.value "PQ transaction exceeds mempool PQ signature-cost policy.")
    raiseIf ((← serializeTransaction transaction).length > limits.maxPqTxSize)
      (.value "PQ transaction exceeds mempool PQ size policy.")
    forM transaction.outputs fun output => do
      let addressInfo ← rethrow
        (onValueError fun _ =>
          .value "PQ transaction output recipient is not a valid Chipcoin address.")
        (parseAddress output.recipient)
      raiseIf (addressInfo.kind = .pq ∧ addressInfo.schemeId ≠ sigSchemeMlDsa44)
        (.value "PQ transaction output uses an unsupported CHCQ signature scheme.")
  else return ()

/-- `_enforce_pre_validation_policy`. -/
def enforcePreValidationPolicy (policy : MempoolPolicy) (transaction : Transaction) :
    Except PyError Unit := do
  raiseIf ((← serializeTransaction transaction).length > policy.maxTransactionSizeBytes)
    (.validation "Transaction exceeds mempool size policy.")
  raiseIf (transaction.inputs.length > policy.maxTransactionInputs)
    (.validation "Transaction exceeds mempool input-count policy.")
  raiseIf (transaction.outputs.length > policy.maxTransactionOutputs)
    (.validation "Transaction exceeds mempool output-count policy.")
  rethrow (onValueError .validation) (enforcePqMempoolPrecheck transaction policy.pqLimits)
  forM transaction.outputs fun output => do
    raiseIf (output.value ≤ 0)
      (.validation "Transaction outputs must be positive for mempool policy.")
    raiseIf (¬ isValidAddress output.recipient)
      (.validation "Transaction output recipient is not a valid CHC address.")

/-- `_enforce_policy`. -/
def enforcePolicy (policy : MempoolPolicy) (transaction : Transaction) (feeChipbits : Int) :
    Except PyError Unit := do
  enforcePreValidationPolicy policy transaction
  raiseIf (feeChipbits < 0) (.validation "Transaction fee cannot be negative.")
  raiseIf (¬ isRewardAttestationBundleTransaction transaction ∧
      ¬ isRewardSettleEpochTransaction transaction ∧ ¬ isSpecialNodeTransaction transaction ∧
      feeChipbits < policy.minFeeChipbitsNormalTx)
    (.validation "Transaction fee is below the configured mempool minimum.")

/-! ### Policy against the pending transactions -/

/-- `_ensure_no_mempool_double_spend`. -/
def ensureNoMempoolDoubleSpend (transaction : Transaction) (entries : List MempoolEntry) :
    Except PyError Unit :=
  raiseIf (transaction.inputs.any fun txInput => entries.any fun entry =>
      entry.transaction.inputs.any fun reserved =>
        reserved.previousOutput = txInput.previousOutput)
    (.validation "Transaction conflicts with an existing mempool spend.")

/-- `_ensure_no_duplicate_register_reward_node_action`. -/
def ensureNoDuplicateRegisterRewardNodeAction (transaction : Transaction)
    (entries : List MempoolEntry) : Except PyError Unit :=
  forM entries fun entry => do
    let same := fun key => entry.transaction.get? key = transaction.get? key
    raiseIf (same "node_id") (.validation
      "Mempool already contains a register_reward_node transaction for this node_id.")
    raiseIf (same "owner_pubkey_hex") (.validation
      "Mempool already contains a register_reward_node transaction for this owner_pubkey.")
    raiseIf (same "node_pubkey_hex") (.validation
      "Mempool already contains a register_reward_node transaction for this node_pubkey.")

/-- `_ensure_no_duplicate_renew_reward_node_action`. -/
def ensureNoDuplicateRenewRewardNodeAction (transaction : Transaction)
    (entries : List MempoolEntry) : Except PyError Unit :=
  raiseIf (entries.any fun entry =>
      entry.transaction.get? "node_id" = transaction.get? "node_id" ∧
        entry.transaction.get? "renewal_epoch" = transaction.get? "renewal_epoch")
    (.validation
      "Mempool already contains a renew_reward_node transaction for this node_id and epoch.")

/-- `_enforce_special_node_mempool_policy`. -/
def enforceSpecialNodeMempoolPolicy (policy : MempoolPolicy) (transaction : Transaction)
    (entries : List MempoolEntry) : Except PyError Unit := do
  if isSpecialNodeTransaction transaction then do
    let specialEntries := entries.filter fun entry => isSpecialNodeTransaction entry.transaction
    raiseIf (specialEntries.length ≥ policy.maxSpecialNodeTransactions)
      (.validation "Mempool special-node transaction limit exceeded.")
    if isRegisterRewardNodeTransaction transaction then do
      let registerEntries := specialEntries.filter fun entry =>
        isRegisterRewardNodeTransaction entry.transaction
      raiseIf (registerEntries.length ≥ policy.maxRegisterRewardNodeTransactions)
        (.validation "Mempool register_reward_node transaction limit exceeded.")
      ensureNoDuplicateRegisterRewardNodeAction transaction registerEntries
    else if isRenewRewardNodeTransaction transaction then do
      let renewEntries := specialEntries.filter fun entry =>
        isRenewRewardNodeTransaction entry.transaction
      raiseIf (renewEntries.length ≥ policy.maxRenewRewardNodeTransactions)
        (.validation "Mempool renew_reward_node transaction limit exceeded.")
      ensureNoDuplicateRenewRewardNodeAction transaction renewEntries
    else return ()
  else return ()

/-- `except (KeyError, TypeError, ValueError) as exc: raise ValidationError(str(exc))`. -/
def onMetadataError : PyError → Option PyError
  | .key key => some (.validation key)
  | .type message | .value message => some (.validation message)
  | _ => none

/-- The parsed bundle of a pending entry; `none` when it has none that parses. Errors other than
`KeyError`, `TypeError` and `ValueError` propagate. -/
def pendingBundle (entry : MempoolEntry) : Except PyError (Option RewardAttestationBundle) :=
  match parseRewardAttestationBundleMetadata entry.transaction with
  | .ok bundle => .ok (some bundle)
  | .error error => if (onMetadataError error).isSome then .ok none else .error error

/-- `_enforce_reward_attestation_bundle_mempool_policy`. -/
def enforceRewardAttestationBundleMempoolPolicy (policy : MempoolPolicy)
    (transaction : Transaction) (entries : List MempoolEntry) : Except PyError Unit := do
  if isRewardAttestationBundleTransaction transaction then do
    let bundle ← rethrow onMetadataError (parseRewardAttestationBundleMetadata transaction)
    let bundleEntries := entries.filter fun entry =>
      isRewardAttestationBundleTransaction entry.transaction
    raiseIf (bundleEntries.length ≥ policy.maxRewardAttestationBundleTransactions)
      (.validation "Mempool reward_attestation_bundle transaction limit exceeded.")
    let existingAttestations ← bundleEntries.foldlM
      (fun existingAttestations entry => do
        match ← pendingBundle entry with
        | none => return existingAttestations
        | some existing =>
          raiseIf (existing.epochIndex = bundle.epochIndex ∧
              existing.bundleWindowIndex = bundle.bundleWindowIndex ∧
              existing.bundleSubmitterNodeId = bundle.bundleSubmitterNodeId)
            (.validation ("Mempool already contains a reward_attestation_bundle transaction " ++
              "for this epoch, window, and submitter."))
          return existingAttestations ∪ (existing.attestations.map attestationIdentity).toFinset)
      (∅ : Finset AttestationIdentity)
    raiseIf (bundle.attestations.any fun attestation =>
        attestationIdentity attestation ∈ existingAttestations)
      (.validation "Mempool already contains this reward attestation.")
  else return ()

/-! ### The active chain -/

/-- `_is_known_on_chain`: the transaction is in a stored block of the active chain. -/
def isKnownOnChain (store : Store) (txid : PyStr) : Bool :=
  match store.getTip with
  | none => false
  | some tip => (List.range (tip.height + 1)).any fun height =>
      match (store.getHashAtHeight height).bind (store.blocks[·]?) with
      | none => false
      | some block => block.transactions.any fun transaction =>
          match transaction.txid with
          | .ok known => known = txid
          | .error _ => false

/-! ### Reconciliation -/

/-- The variables of the pass: the view with the readmitted transactions, and their entries. -/
structure PendingState where
  view : UtxoView
  entries : List MempoolEntry

/-- The checks of `readmit_fast` inside its `try`: the fee, and the view with the transaction. -/
def readmissionChecks (node : Node) (store : Store) (pending : PendingState)
    (nextHeight : ℕ) (transaction : Transaction) : Except PyError (Int × UtxoView) := do
  enforceSpecialNodeMempoolPolicy node.policy transaction pending.entries
  enforceRewardAttestationBundleMempoolPolicy node.policy transaction pending.entries
  ensureNoMempoolDoubleSpend transaction pending.entries
  let context ← validationContextForView node.toNodeConfig store pending.view
    store.registrySnapshot none
  let feeChipbits ← validateTransaction transaction context
  enforcePolicy node.policy transaction feeChipbits
  return (feeChipbits, ← pending.view.applyTransaction transaction nextHeight false)

/-- `readmit_fast`: a transaction that fails a check is dropped. -/
def readmitFast (node : Node) (nextHeight : ℕ) (pending : PendingState)
    (transaction : Transaction) (addedAt now : Int) : Db PendingState := do
  if isExpired node.policy addedAt now then return pending
  else match enforcePreValidationPolicy node.policy transaction with
    | .error error => if error.isValidation then return pending else .raise error
    | .ok () => do
      let txid ← .ofExcept transaction.txid
      let store ← .get
      if isKnownOnChain store txid then return pending
      else match readmissionChecks node store pending nextHeight transaction with
        | .error error => if error.isValidation then return pending else .raise error
        | .ok (feeChipbits, view) => do
          let entry := { transaction := transaction, fee := feeChipbits, addedAt := addedAt }
          addMempool entry
          return { view := view, entries := pending.entries ++ [entry] }

/-- `_evict_if_needed`: the entries with the lowest fee go first. -/
def evictIfNeeded (policy : MempoolPolicy) : Db Unit := do
  let store ← .get
  let entries := store.mempool.toList
  let evictionOrder := sortBy
    (compareLex (compareOn fun entry => entry.2.fee) <|
      compareLex (compareOn fun entry => entry.2.addedAt) (compareOn Prod.fst)) entries
  (evictionOrder.take (entries.length - policy.maxMempoolTransactions)).forM fun entry =>
    removeMempool entry.1

/-- `reconcile`. The clock is asked once for each preserved entry, once for all extra transactions
together, and once for each of them; `clock i` is the answer to the `i`-th question. -/
def reconcile (node : Node) (clock : ℕ → Int) (extraTransactions : List Transaction) :
    Db Unit := do
  let preserved := (← .get).listMempool
  clearMempool
  let store ← .get
  let context ← .ofExcept (validationContextForView node.toNodeConfig store store.overlay
    store.registrySnapshot none)
  let pending ← preserved.zipIdx.foldlM
    (fun pending (entry, index) =>
      readmitFast node context.height pending entry.transaction entry.addedAt (clock index))
    { view := store.overlay, entries := [] }
  let now := clock preserved.length
  let _ ← extraTransactions.zipIdx.foldlM
    (fun pending (transaction, index) =>
      readmitFast node context.height pending transaction now
        (clock (preserved.length + 1 + index)))
    pending
  evictIfNeeded node.policy

/-! ### Replacement of bundles -/

/-- The loop of `_reward_attestation_bundle_replacement_txids`, with its two accumulators; `none`
when a pending bundle overlaps the new one without being contained in it. -/
def replacementLoop (incoming : RewardAttestationBundle)
    (incomingIdentities : Finset AttestationIdentity) :
    List MempoolEntry → List PyStr → Finset AttestationIdentity →
      Except PyError (Option (List PyStr × Finset AttestationIdentity))
  | [], replacementTxids, replacedIdentities => .ok (some (replacementTxids, replacedIdentities))
  | entry :: rest, replacementTxids, replacedIdentities =>
    let skip := replacementLoop incoming incomingIdentities rest replacementTxids replacedIdentities
    if isRewardAttestationBundleTransaction entry.transaction then do
      match ← pendingBundle entry with
      | none => skip
      | some existing =>
        let existingIdentities := (existing.attestations.map attestationIdentity).toFinset
        if existing.epochIndex ≠ incoming.epochIndex ∨
            existing.bundleWindowIndex ≠ incoming.bundleWindowIndex then skip
        else if existingIdentities = ∅ then skip
        else if existingIdentities ⊆ incomingIdentities then do
          let txid ← entry.transaction.txid
          replacementLoop incoming incomingIdentities rest (replacementTxids ++ [txid])
            (replacedIdentities ∪ existingIdentities)
        else if existingIdentities ∩ incomingIdentities ≠ ∅ then .ok none
        else skip
    else skip

/-- `_reward_attestation_bundle_replacement_txids`. -/
def rewardAttestationBundleReplacementTxids (transaction : Transaction)
    (entries : List MempoolEntry) : Except PyError (List PyStr) :=
  if isRewardAttestationBundleTransaction transaction then
    match parseRewardAttestationBundleMetadata transaction with
    | .error error => if (onMetadataError error).isSome then .ok [] else .error error
    | .ok incoming =>
      let incomingIdentities := (incoming.attestations.map attestationIdentity).toFinset
      if incomingIdentities.card ≠ incoming.attestations.length ∨ incomingIdentities.card ≤ 1 then
        .ok []
      else do
        match ← replacementLoop incoming incomingIdentities entries [] ∅ with
        | none => return []
        | some (replacementTxids, replacedIdentities) =>
          if replacementTxids.length > 1 ∨ incomingIdentities.card > replacedIdentities.card then
            return replacementTxids
          else return []
  else .ok []

/-! ### Admission -/

/-- `_snapshot_with_mempool_applied`. -/
def snapshotWithMempoolApplied (node : Node) (store : Store) : Except PyError UtxoView := do
  let context ← validationContextForView node.toNodeConfig store store.overlay
    store.registrySnapshot none
  store.listMempool.foldlM
    (fun view entry => view.applyTransaction entry.transaction context.height false) store.overlay

/-- The pending entries that a replacement leaves in place. A stored transaction has a txid. -/
def effectiveEntries (entries : List MempoolEntry) (replacementTxids : List PyStr) :
    List MempoolEntry :=
  entries.filter fun entry =>
    match entry.transaction.txid with
    | .ok txid => txid ∉ replacementTxids
    | .error _ => true

/-- What `accept` knows once all its checks have passed. -/
structure Admission where
  feeChipbits : Int
  replacementTxids : List PyStr

/-- The checks of `accept`; they read the tables and write nothing. -/
def admissionChecks (node : Node) (store : Store) (transaction : Transaction) :
    Except PyError Admission := do
  raiseIf (isCoinbaseTransaction transaction)
    (.validation "Coinbase transactions are not valid mempool entries.")
  enforcePreValidationPolicy node.policy transaction
  let txid ← transaction.txid
  raiseIf (store.mempool[txid]?.isSome)
    (.validation "Transaction is already present in the mempool.")
  raiseIf (isKnownOnChain store txid)
    (.validation "Transaction is already confirmed in the active chain.")
  let replacementTxids ← rewardAttestationBundleReplacementTxids transaction store.listMempool
  let entries := effectiveEntries store.listMempool replacementTxids
  enforceSpecialNodeMempoolPolicy node.policy transaction entries
  enforceRewardAttestationBundleMempoolPolicy node.policy transaction entries
  ensureNoMempoolDoubleSpend transaction entries
  let snapshot ← snapshotWithMempoolApplied node store
  let context ← validationContextForView node.toNodeConfig store snapshot store.registrySnapshot
    none
  let feeChipbits ← validateTransaction transaction context
  enforcePolicy node.policy transaction feeChipbits
  return { feeChipbits := feeChipbits, replacementTxids := replacementTxids }

/-- The round of `_prune_expired` on one entry. -/
def pruneEntry (policy : MempoolPolicy) (now : Int) (entry : MempoolEntry) : Db Unit :=
  if isExpired policy entry.addedAt now then do
    let txid ← .ofExcept entry.transaction.txid
    removeMempool txid
  else pure ()

/-- `_prune_expired`. -/
def pruneExpired (policy : MempoolPolicy) (now : Int) : Db Unit := do
  let store ← .get
  store.listMempool.forM (pruneEntry policy now)

/-- The reading of the clock that `accept` prunes at: it has asked once before when no admission
time is given. -/
def pruneTime (clock : ℕ → Int) (addedAt : Option Int) : Int :=
  if addedAt.isSome then clock 0 else clock 1

/-- `accept`: the fee. -/
def accept (node : Node) (clock : ℕ → Int) (transaction : Transaction) (addedAt : Option Int) :
    Db Int := do
  let store ← .get
  let admission ← .ofExcept (admissionChecks node store transaction)
  admission.replacementTxids.forM removeMempool
  addMempool {
    transaction := transaction
    fee := admission.feeChipbits
    addedAt := addedAt.getD (clock 0) }
  pruneExpired node.policy (pruneTime clock addedAt)
  evictIfNeeded node.policy
  return admission.feeChipbits

/-- `remove_many`. -/
def removeMany (txids : List PyStr) : Db Unit := txids.forM removeMempool

end

end Chipcoin
