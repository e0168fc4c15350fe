import Chipcoin.Consensus.EpochSettlement

/-!
# The node registry

The in-memory registry view, the activity rule of reward nodes, and the checks and effects of the
four special transactions that register and renew nodes.
-/

namespace Chipcoin

open Checked Sorting

/-! ### The registry view -/

/-- `InMemoryNodeRegistryView`: a dictionary from node id to record, in insertion order. -/
structure NodeRegistryView where
  entries : List NodeRecord
  /-- A node id is a dictionary key. -/
  nodup : (entries.map NodeRecord.nodeId).Nodup

namespace NodeRegistryView

/-- The empty registry. -/
def empty : NodeRegistryView := ⟨[], by simp⟩

/-- `get_by_node_id`. -/
def getByNodeId (view : NodeRegistryView) (nodeId : PyStr) : Option NodeRecord :=
  view.entries.find? (·.nodeId = nodeId)

/-- `get_by_owner_pubkey`: the first record of the owner. -/
def getByOwnerPubkey (view : NodeRegistryView) (ownerPubkey : Bytes) : Option NodeRecord :=
  view.entries.find? (·.ownerPubkey = ownerPubkey)

/-- A dictionary assignment: in place when the key is present, at the end otherwise. -/
def upsertEntries (record : NodeRecord) : List NodeRecord → List NodeRecord
  | [] => [record]
  | entry :: rest =>
    if entry.nodeId = record.nodeId then record :: rest else entry :: upsertEntries record rest

private theorem map_nodeId_upsertEntries (record : NodeRecord) (entries : List NodeRecord) :
    (upsertEntries record entries).map NodeRecord.nodeId =
      if record.nodeId ∈ entries.map NodeRecord.nodeId
      then entries.map NodeRecord.nodeId
      else entries.map NodeRecord.nodeId ++ [record.nodeId] := by
  induction entries with
  | nil => simp [upsertEntries]
  | cons entry rest ih =>
    by_cases h : entry.nodeId = record.nodeId
    · simp [upsertEntries, h]
    · simp only [upsertEntries, h, if_false, List.map_cons, ih, List.mem_cons]
      by_cases hrest : record.nodeId ∈ rest.map NodeRecord.nodeId
      · simp [hrest]
      · simp [hrest, Ne.symm h]

/-- `upsert`. -/
def upsert (view : NodeRegistryView) (record : NodeRecord) : NodeRegistryView where
  entries := upsertEntries record view.entries
  nodup := by
    rw [map_nodeId_upsertEntries]
    split
    · exact view.nodup
    · next h => exact List.nodup_append.mpr ⟨view.nodup, by simp, by
        rintro a ha b hb rfl
        exact h (List.mem_singleton.mp hb ▸ ha)⟩

/-- `from_records`. -/
def fromRecords (records : List NodeRecord) : NodeRegistryView :=
  records.foldl upsert empty

/-- Records are listed by node id, then payout address. -/
def compareRecords : NodeRecord → NodeRecord → Ordering :=
  compareLex (compareOn NodeRecord.nodeId) (compareOn NodeRecord.payoutAddress)

/-- `list_records`. -/
def listRecords (view : NodeRegistryView) : List NodeRecord :=
  sortBy compareRecords view.entries

end NodeRegistryView

/-! ### Kinds of transaction -/

/-- `metadata.get("kind") == kind`. -/
def Transaction.hasKind (transaction : Transaction) (kind : String) : Bool :=
  transaction.get? "kind" = some (str kind)

/-- `is_legacy_register_node_transaction`. -/
def isLegacyRegisterNodeTransaction (transaction : Transaction) : Bool :=
  transaction.hasKind "register_node"

/-- `is_legacy_renew_node_transaction`. -/
def isLegacyRenewNodeTransaction (transaction : Transaction) : Bool :=
  transaction.hasKind "renew_node"

/-- `is_register_reward_node_transaction`. -/
def isRegisterRewardNodeTransaction (transaction : Transaction) : Bool :=
  transaction.hasKind "register_reward_node"

/-- `is_renew_reward_node_transaction`. -/
def isRenewRewardNodeTransaction (transaction : Transaction) : Bool :=
  transaction.hasKind "renew_reward_node"

/-- `is_special_node_transaction`. -/
def isSpecialNodeTransaction (transaction : Transaction) : Bool :=
  isLegacyRegisterNodeTransaction transaction || isLegacyRenewNodeTransaction transaction ||
    isRegisterRewardNodeTransaction transaction || isRenewRewardNodeTransaction transaction

/-! ### Activity -/

/-- `current_epoch`. -/
def currentEpoch (height : ℕ) (params : ConsensusParams) : ℕ :=
  height / params.epochLengthBlocks

/-- `reward_node_warmup_complete_epoch`. -/
def rewardNodeWarmupCompleteEpoch (record : NodeRecord) (params : ConsensusParams) : ℕ :=
  if record.rewardRegistration then
    currentEpoch record.registeredHeight params + params.rewardNodeWarmupEpochs
  else currentEpoch record.registeredHeight params

/-- `reward_node_warmup_satisfied`. -/
def rewardNodeWarmupSatisfied (record : NodeRecord) (height : ℕ) (params : ConsensusParams) :
    Bool :=
  !record.rewardRegistration ||
    currentEpoch height params ≥ rewardNodeWarmupCompleteEpoch record params

/-- `reward_node_is_active`. -/
def rewardNodeIsActive (record : NodeRecord) (height : ℕ) (params : ConsensusParams) : Bool :=
  record.lastRenewedHeight < height &&
    currentEpoch record.lastRenewedHeight params = currentEpoch height params &&
    rewardNodeWarmupSatisfied record height params

/-- `active_node_records`. -/
def activeNodeRecords (view : NodeRegistryView) (height : ℕ) (params : ConsensusParams) :
    List NodeRecord :=
  view.listRecords.filter (rewardNodeIsActive · height params)

/-- `{record.node_id: record for record in active_records if record.reward_registration}`. -/
def activeRewardRecordsById (view : NodeRegistryView) (height : ℕ) (params : ConsensusParams) :
    Std.ExtTreeMap PyStr NodeRecord :=
  ((activeNodeRecords view height params).filter (·.rewardRegistration)).foldl
    (fun byId record => byId.insert record.nodeId record) ∅

/-! ### Owner signatures -/

section

variable [Platform]

/-- `"|".join(parts)`. -/
def joinBars (parts : List PyStr) : PyStr := (str "|").intercalate parts

/-- `_special_node_transaction_signature_payload_v1`. -/
def specialNodeSignaturePayloadV1 (transaction : Transaction) : Except PyError PyStr :=
  let field := transaction.getD
  if isLegacyRegisterNodeTransaction transaction then
    .ok (joinBars [str "register_node", field "node_id", field "payout_address",
      field "owner_pubkey_hex"])
  else if isRegisterRewardNodeTransaction transaction then
    .ok (joinBars [str "register_reward_node", field "node_id", field "payout_address",
      field "owner_pubkey_hex", field "node_pubkey_hex", field "declared_host",
      field "declared_port", field "registration_fee_chipbits"])
  else if isLegacyRenewNodeTransaction transaction then
    .ok (joinBars [str "renew_node", field "node_id", field "renewal_epoch",
      field "owner_pubkey_hex"])
  else if isRenewRewardNodeTransaction transaction then
    .ok (joinBars [str "renew_reward_node", field "node_id", field "renewal_epoch",
      field "owner_pubkey_hex", field "declared_host", field "declared_port",
      field "renewal_fee_chipbits"])
  else .error (.value "Unsupported special node transaction kind.")

/-- `special_node_transaction_signature_digest`. -/
def specialNodeSignatureDigest (transaction : Transaction) : Except PyError Bytes := do
  return doubleSha256 (← utf8Encode (← specialNodeSignaturePayloadV1 transaction))

/-- `special_node_transaction_signature_digest_v2`. -/
def specialNodeSignatureDigestV2 (transaction : Transaction) (network : PyStr) :
    Except PyError Bytes := do
  raiseIf network.isEmpty
    (.value "Special node transaction v2 signatures require a network.")
  let payload := joinBars [str "chipcoin:special-node-tx:v2:" ++ network,
    ← specialNodeSignaturePayloadV1 transaction]
  return doubleSha256 (← utf8Encode payload)

/-- `special_node_signature_version_for_height`. -/
def specialNodeSignatureVersionForHeight (network : PyStr) (height : ℕ) : PyStr :=
  if (network = str "devnet" ∨ network = str "testnet") ∧ height < 11111 then [] else str "v2"

/-- `special_node_transaction_signature_is_valid`. -/
def specialNodeTransactionSignatureIsValid (transaction : Transaction) (network : PyStr)
    (height : ℕ) : Except PyError Bool := do
  let ownerPubkey ← parsePublicKeyHex (← transaction.get "owner_pubkey_hex")
  let ownerSignature ← fromHex (← transaction.get "owner_signature_hex")
  let version := transaction.getD "owner_signature_version"
  if version ≠ specialNodeSignatureVersionForHeight network height then return false
  else if version = str "v2" then
    if transaction.getD "owner_signature_network" ≠ network then return false
    else do
      let digest ← specialNodeSignatureDigestV2 transaction network
      return verifyDigest ownerPubkey digest ownerSignature
  else return verifyDigest ownerPubkey (← specialNodeSignatureDigest transaction) ownerSignature

/-- `special_node_transaction_signature_is_valid_stateless`. -/
def specialNodeTransactionSignatureIsValidStateless (transaction : Transaction) :
    Except PyError Bool := do
  let ownerPubkey ← parsePublicKeyHex (← transaction.get "owner_pubkey_hex")
  let ownerSignature ← fromHex (← transaction.get "owner_signature_hex")
  let version := transaction.getD "owner_signature_version"
  if version = str "v2" then
    let signatureNetwork := transaction.getD "owner_signature_network"
    if signatureNetwork.isEmpty then return false
    else do
      let digest ← specialNodeSignatureDigestV2 transaction signatureNetwork
      return verifyDigest ownerPubkey digest ownerSignature
  else if version ≠ [] then return false
  else return verifyDigest ownerPubkey (← specialNodeSignatureDigest transaction) ownerSignature

/-! ### Stateless checks -/

/-- `_validate_node_metadata_common`. -/
def validateNodeMetadataCommon (transaction : Transaction) : Except PyError Unit := do
  raiseIf (transaction.inputs ≠ [])
    (.value "Special node transactions must not contain UTXO inputs.")
  raiseIf (transaction.outputs ≠ [])
    (.value "Special node transactions must not contain outputs.")
  raiseIf (transaction.getD "owner_pubkey_hex" = [])
    (.value "Special node transactions must declare owner_pubkey_hex.")
  raiseIf (transaction.getD "owner_signature_hex" = [])
    (.value "Special node transactions must declare owner_signature_hex.")
  let version := transaction.getD "owner_signature_version"
  raiseIf (version ≠ [] ∧ version ≠ str "v2")
    (.value "Special node transactions declare an unsupported owner_signature_version.")
  raiseIf (version = str "v2" ∧ transaction.getD "owner_signature_network" = [])
    (.value "Special node transaction v2 signatures must declare owner_signature_network.")

/-- `_validate_declared_endpoint`. -/
def validateDeclaredEndpoint (transaction : Transaction) (kind : String) :
    Except PyError Unit := do
  raiseIf (transaction.getD "declared_host" = [])
    (.value s!"{kind} transactions must declare declared_host.")
  raiseIf (transaction.getD "declared_port" = [])
    (.value s!"{kind} transactions must declare declared_port.")
  let port ← intOfStr (transaction.getD "declared_port")
  raiseIf (port ≤ 0 ∨ port > 65535)
    (.value s!"{kind} transactions must declare a valid declared_port.")

/-- The check that closes each of the four stateless validators. -/
def validateOwner (transaction : Transaction) (kind : String) : Except PyError Unit := do
  let _ ← parsePublicKeyHex (← transaction.get "owner_pubkey_hex")
  raiseIf ((← specialNodeTransactionSignatureIsValidStateless transaction) = false)
    (.value s!"{kind} transaction owner signature is invalid.")

/-- A fee field is declared and not negative. -/
def validateDeclaredFee (transaction : Transaction) (kind field : String) :
    Except PyError Unit := do
  let message := s!"{kind} transactions must declare a non-negative {field}."
  raiseIf (transaction.getD field = []) (.value message)
  raiseIf ((← intOfStr (transaction.getD field)) < 0) (.value message)

/-- `_validate_register_node_transaction`. -/
def validateRegisterNodeTransaction (transaction : Transaction) : Except PyError Unit := do
  validateNodeMetadataCommon transaction
  raiseIf (transaction.getD "node_id" = [])
    (.value "register_node transactions must declare a node_id.")
  raiseIf (transaction.getD "payout_address" = [] ∨
      ¬ isValidAddress (transaction.getD "payout_address"))
    (.value "register_node transactions must declare a valid payout_address.")
  validateOwner transaction "register_node"

/-- `_validate_renew_node_transaction`. -/
def validateRenewNodeTransaction (transaction : Transaction) : Except PyError Unit := do
  validateNodeMetadataCommon transaction
  raiseIf (transaction.getD "node_id" = [])
    (.value "renew_node transactions must declare a node_id.")
  raiseIf (transaction.getD "renewal_epoch" = [])
    (.value "renew_node transactions must declare renewal_epoch.")
  validateOwner transaction "renew_node"

/-- `_validate_register_reward_node_transaction`. -/
def validateRegisterRewardNodeTransaction (transaction : Transaction) : Except PyError Unit := do
  validateNodeMetadataCommon transaction
  raiseIf (transaction.getD "node_id" = [])
    (.value "register_reward_node transactions must declare a node_id.")
  raiseIf (transaction.getD "payout_address" = [] ∨
      ¬ isValidAddress (transaction.getD "payout_address"))
    (.value "register_reward_node transactions must declare a valid payout_address.")
  raiseIf (transaction.getD "node_pubkey_hex" = [])
    (.value "register_reward_node transactions must declare node_pubkey_hex.")
  let _ ← parsePublicKeyHex (transaction.getD "node_pubkey_hex")
  validateDeclaredEndpoint transaction "register_reward_node"
  validateDeclaredFee transaction "register_reward_node" "registration_fee_chipbits"
  validateOwner transaction "register_reward_node"

/-- `_validate_renew_reward_node_transaction`. -/
def validateRenewRewardNodeTransaction (transaction : Transaction) : Except PyError Unit := do
  validateNodeMetadataCommon transaction
  raiseIf (transaction.getD "node_id" = [])
    (.value "renew_reward_node transactions must declare a node_id.")
  raiseIf (transaction.getD "renewal_epoch" = [])
    (.value "renew_reward_node transactions must declare renewal_epoch.")
  validateDeclaredEndpoint transaction "renew_reward_node"
  validateDeclaredFee transaction "renew_reward_node" "renewal_fee_chipbits"
  validateOwner transaction "renew_reward_node"

/-- `validate_special_node_transaction_stateless`. -/
def validateSpecialNodeTransactionStateless (transaction : Transaction) : Except PyError Unit :=
  if isLegacyRegisterNodeTransaction transaction then
    validateRegisterNodeTransaction transaction
  else if isLegacyRenewNodeTransaction transaction then
    validateRenewNodeTransaction transaction
  else if isRegisterRewardNodeTransaction transaction then
    validateRegisterRewardNodeTransaction transaction
  else if isRenewRewardNodeTransaction transaction then
    validateRenewRewardNodeTransaction transaction
  else .error (.value "Transaction is not a special node transaction.")

/-! ### Effect on the registry -/

/-- The record that a special transaction writes, given the registry's lookup by node id. -/
def specialNodeRecord (transaction : Transaction) (height : ℕ)
    (getByNodeId : PyStr → Option NodeRecord) : Except PyError NodeRecord :=
  if isLegacyRegisterNodeTransaction transaction then do
    let ownerPubkey ← parsePublicKeyHex (← transaction.get "owner_pubkey_hex")
    return {
      nodeId := ← transaction.get "node_id"
      payoutAddress := ← transaction.get "payout_address"
      ownerPubkey := ownerPubkey
      registeredHeight := height
      lastRenewedHeight := height }
  else if isRegisterRewardNodeTransaction transaction then do
    let ownerPubkey ← parsePublicKeyHex (← transaction.get "owner_pubkey_hex")
    let existing := getByNodeId (← transaction.get "node_id")
    return {
      nodeId := ← transaction.get "node_id"
      payoutAddress := ← transaction.get "payout_address"
      ownerPubkey := ownerPubkey
      registeredHeight := (existing.map (·.registeredHeight)).getD height
      lastRenewedHeight := height
      nodePubkey := some (← parsePublicKeyHex (← transaction.get "node_pubkey_hex"))
      declaredHost := some (← transaction.get "declared_host")
      declaredPort := some (← intOfStr (← transaction.get "declared_port"))
      rewardRegistration := true }
  else if isLegacyRenewNodeTransaction transaction then do
    let record ← orRaise (getByNodeId (← transaction.get "node_id"))
      (.value "Cannot renew a node that is not registered.")
    -- A legacy renewal rebuilds the record without its reward fields.
    return {
      nodeId := record.nodeId
      payoutAddress := record.payoutAddress
      ownerPubkey := record.ownerPubkey
      registeredHeight := record.registeredHeight
      lastRenewedHeight := height }
  else if isRenewRewardNodeTransaction transaction then do
    let record ← orRaise (getByNodeId (← transaction.get "node_id"))
      (.value "Cannot renew a node that is not registered.")
    return { record with
      lastRenewedHeight := height
      declaredHost := some (← transaction.get "declared_host")
      declaredPort := some (← intOfStr (← transaction.get "declared_port")) }
  else .error (.value "Transaction is not a special node transaction.")

/-- `apply_special_node_transaction`. -/
def applySpecialNodeTransaction (transaction : Transaction) (height : ℕ)
    (view : NodeRegistryView) : Except PyError NodeRegistryView := do
  return view.upsert (← specialNodeRecord transaction height view.getByNodeId)

end

end Chipcoin
