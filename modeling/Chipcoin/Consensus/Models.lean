import Chipcoin.Runtime

/-!
# Consensus parameters, objects and their encoding

The parameters of a network, the consensus objects (transactions, headers, blocks), the
deterministic byte encoding under which they are hashed, and the Merkle root of a block.

Fields that Python holds as unbounded integers are `Int`: a field out of its wire range is a value
of the model and makes the encoding raise, as `struct.pack` does. A transaction's metadata is a
finite map, so that its encoding, in key order, does not depend on how the dictionary was built.
-/

namespace Chipcoin

open Checked

/-! ### Parameters -/

/-- `ConsensusParams`. The two divisors of the reward schedule are positive. -/
structure ConsensusParams where
  coinbaseMaturity : ℕ
  halvingInterval : ℕ
  initialMinerSubsidyChipbits : ℕ
  initialNodeEpochRewardChipbits : ℕ
  maxMoneyChipbits : ℕ
  targetBlockTimeSeconds : ℕ
  difficultyAdjustmentWindow : ℕ
  genesisBits : ℕ
  maxBlockWeight : ℕ
  epochLengthBlocks : ℕ
  registerNodeFeeChipbits : ℕ
  renewNodeFeeChipbits : ℕ
  nodeRewardActivationHeight : ℕ
  rewardNodeWarmupEpochs : ℕ
  rewardCheckWindowsPerEpoch : ℕ
  rewardTargetChecksPerEpoch : ℕ
  rewardMinPassedChecksPerEpoch : ℕ
  rewardVerifierCommitteeSize : ℕ
  rewardVerifierQuorum : ℕ
  rewardFinalConfirmationWindowBlocks : ℕ
  rewardSyncLagToleranceBlocks : ℕ
  maxRewardedNodesPerEpoch : ℕ
  maxAttestationBundlesPerBlock : ℕ
  maxAttestationsPerBundle : ℕ
  maxAttestationsPerVerifierPerWindow : ℕ
  targetBlockTimeActivationHeight : ℕ := 0
  legacyTargetBlockTimeSeconds : Option ℕ := none
  pqSupportActivationHeight : Option ℕ := none
  rewardNodeFeeRecentDriverActivationHeight : ℕ := 0
  halvingInterval_pos : 0 < halvingInterval := by decide
  epochLengthBlocks_pos : 0 < epochLengthBlocks := by decide

/-- `target_block_time_seconds_for_height`. -/
def targetBlockTimeSecondsForHeight (height : ℕ) (params : ConsensusParams) : ℕ :=
  match params.legacyTargetBlockTimeSeconds with
  | some legacy =>
    if height < params.targetBlockTimeActivationHeight then legacy
    else params.targetBlockTimeSeconds
  | none => params.targetBlockTimeSeconds

/-- The parameters of a small network, on which closed instances are evaluated: epochs of three
blocks with two check windows, a committee of one verifier, and a retarget every two blocks. -/
def sampleParams : ConsensusParams where
  coinbaseMaturity := 1
  halvingInterval := 1000
  initialMinerSubsidyChipbits := 50
  initialNodeEpochRewardChipbits := 30
  maxMoneyChipbits := 100000
  targetBlockTimeSeconds := 10
  difficultyAdjustmentWindow := 2
  genesisBits := 0x207FFFFF
  maxBlockWeight := 100000
  epochLengthBlocks := 3
  registerNodeFeeChipbits := 20000
  renewNodeFeeChipbits := 2000
  nodeRewardActivationHeight := 0
  rewardNodeWarmupEpochs := 0
  rewardCheckWindowsPerEpoch := 2
  rewardTargetChecksPerEpoch := 2
  rewardMinPassedChecksPerEpoch := 2
  rewardVerifierCommitteeSize := 1
  rewardVerifierQuorum := 1
  rewardFinalConfirmationWindowBlocks := 1
  rewardSyncLagToleranceBlocks := 5
  maxRewardedNodesPerEpoch := 5
  maxAttestationBundlesPerBlock := 4
  maxAttestationsPerBundle := 4
  maxAttestationsPerVerifierPerWindow := 1

/-! ### Objects -/

/-- A reference to one output of a transaction. -/
structure OutPoint where
  txid : PyStr
  index : Int
deriving DecidableEq, Repr

namespace OutPoint

/-- Outpoints are listed by transaction identifier, then by index. -/
instance : Ord OutPoint :=
  ⟨compareLex (compareOn OutPoint.txid) (compareOn OutPoint.index)⟩

instance : Std.TransOrd OutPoint :=
  inferInstanceAs
    (Std.TransCmp (compareLex (compareOn OutPoint.txid) (compareOn OutPoint.index)))

instance : Std.LawfulEqOrd OutPoint where
  eq_of_compare {a b} h := by
    obtain ⟨htxid, hindex⟩ := compareLex_eq_eq.mp h
    cases a
    cases b
    simp only [mk.injEq]
    exact ⟨Std.LawfulEqCmp.eq_of_compare htxid, Std.LawfulEqCmp.eq_of_compare hindex⟩

end OutPoint

/-- A transaction input. -/
structure TxInput where
  previousOutput : OutPoint
  signature : Bytes := []
  publicKey : Bytes := []
  sequence : Int := 0xFFFFFFFF
  sigSchemeId : Int := 0
deriving DecidableEq

/-- A transaction output. -/
structure TxOutput where
  value : Int
  recipient : PyStr
deriving DecidableEq

/-- Transaction metadata, a dictionary from strings to strings. -/
abbrev Metadata := Std.ExtTreeMap PyStr PyStr

/-- The dictionary written as a literal. -/
def Metadata.ofPairs (pairs : List (String × PyStr)) : Metadata :=
  pairs.foldl (fun metadata pair => metadata.insert (str pair.1) pair.2) ∅

/-- A transaction. -/
structure Transaction where
  version : Int
  inputs : List TxInput
  outputs : List TxOutput
  locktime : Int := 0
  metadata : Metadata := ∅
deriving DecidableEq

/-- `metadata.get(key)`. -/
def Transaction.get? (transaction : Transaction) (key : String) : Option PyStr :=
  transaction.metadata[str key]?

/-- `metadata.get(key, "")`. -/
def Transaction.getD (transaction : Transaction) (key : String) : PyStr :=
  (transaction.get? key).getD []

/-- `metadata[key]`. -/
def Transaction.get (transaction : Transaction) (key : String) : Except PyError PyStr :=
  orRaise (transaction.get? key) (.key key)

/-- The zero hash, the parent of a first block. -/
def zeroHash : PyStr := List.replicate 64 48

/-- A block header. -/
structure BlockHeader where
  version : Int
  previousBlockHash : PyStr
  merkleRoot : PyStr
  timestamp : Int
  bits : Int
  nonce : Int
deriving DecidableEq, Repr

/-- A block. -/
structure Block where
  header : BlockHeader
  transactions : List Transaction
deriving DecidableEq

/-! ### Encoding -/

/-- `_encode_varint`, on the lengths it is applied to. -/
def encodeVarint (value : ℕ) : Except PyError Bytes :=
  if value < 0xFD then .ok [UInt8.ofNat value]
  else if value ≤ 0xFFFF then .ok (0xFD :: leBytes 2 value)
  else if value ≤ 0xFFFFFFFF then .ok (0xFE :: leBytes 4 value)
  else if value ≤ 0xFFFFFFFFFFFFFFFF then .ok (0xFF :: leBytes 8 value)
  else .error (.value "varint value exceeds 64-bit range")

/-- `_encode_bytes`. -/
def encodeBytes (value : Bytes) : Except PyError Bytes := do
  return (← encodeVarint value.length) ++ value

/-- `_encode_string`. -/
def encodeString (value : PyStr) : Except PyError Bytes := do
  encodeBytes (← utf8Encode value)

/-- `_encode_hash`. -/
def encodeHash (hexValue : PyStr) : Except PyError Bytes := do
  let raw ← fromHex hexValue
  raiseIf (raw.length ≠ 32) (.value "hash values must be exactly 32 bytes")
  return raw

/-- `_encode_metadata`: the pairs in key order. -/
def encodeMetadata (metadata : Metadata) : Except PyError Bytes := do
  let items := metadata.toList
  let count ← encodeVarint items.length
  let encoded ← items.mapM fun (key, value) => do
    return (← encodeString key) ++ (← encodeString value)
  return count ++ encoded.flatten

/-- The scheme octet of an input, which only transactions of version 2 and above carry. -/
def encodeSigScheme (version sigSchemeId : Int) : Except PyError Bytes :=
  if version ≥ 2 then
    if sigSchemeId < 0 ∨ sigSchemeId > 0xFF then
      .error (.value "Signature scheme id must fit in one byte.")
    else .ok [UInt8.ofNat sigSchemeId.toNat]
  else if sigSchemeId ≠ 0 then
    .error (.value "Transaction v1 inputs cannot declare non-legacy signature schemes.")
  else .ok []

/-- The encoding of one input. -/
def serializeInput (version : Int) (txInput : TxInput) : Except PyError Bytes := do
  let txid ← encodeHash txInput.previousOutput.txid
  let index ← pack 4 txInput.previousOutput.index
  let scheme ← encodeSigScheme version txInput.sigSchemeId
  let signature ← encodeBytes txInput.signature
  let publicKey ← encodeBytes txInput.publicKey
  let sequence ← pack 4 txInput.sequence
  return txid ++ index ++ scheme ++ signature ++ publicKey ++ sequence

/-- The encoding of one output. -/
def serializeOutput (txOutput : TxOutput) : Except PyError Bytes := do
  return (← pack 8 txOutput.value) ++ (← encodeString txOutput.recipient)

/-- `serialize_transaction`. -/
def serializeTransaction (transaction : Transaction) : Except PyError Bytes := do
  let version ← pack 4 transaction.version
  let inputCount ← encodeVarint transaction.inputs.length
  let inputs ← transaction.inputs.mapM (serializeInput transaction.version)
  let outputCount ← encodeVarint transaction.outputs.length
  let outputs ← transaction.outputs.mapM serializeOutput
  let locktime ← pack 4 transaction.locktime
  let metadata ← encodeMetadata transaction.metadata
  return version ++ inputCount ++ inputs.flatten ++ outputCount ++ outputs.flatten ++ locktime
    ++ metadata

/-- The transaction with the unlocking data of its inputs removed. -/
def Transaction.stripped (transaction : Transaction) : Transaction :=
  { transaction with
    inputs := transaction.inputs.map fun txInput =>
      { previousOutput := txInput.previousOutput
        sequence := txInput.sequence
        sigSchemeId := txInput.sigSchemeId } }

/-- `serialize_transaction_for_signing`. -/
def serializeTransactionForSigning (transaction : Transaction) (inputIndex : ℕ)
    (previousOutputValue : Int) (previousOutputRecipient network : PyStr) :
    Except PyError Bytes := do
  raiseIf (transaction.inputs.length ≤ inputIndex)
    (.index "Transaction input index is out of range.")
  let encoded ← serializeTransaction transaction.stripped
  let index ← pack 4 inputIndex
  let value ← pack 8 previousOutputValue
  let recipient ← encodeString previousOutputRecipient
  let trailer ←
    if transaction.version ≥ 2 then do
      let domain ← encodeString (str "chipcoin:tx-signature:v2:" ++ network)
      pure (domain ++ leBytes 4 2)
    else pure (leBytes 4 1)
  return encoded ++ index ++ value ++ recipient ++ trailer

/-- `serialize_block_header`. -/
def serializeBlockHeader (header : BlockHeader) : Except PyError Bytes := do
  let version ← pack 4 header.version
  let previous ← encodeHash header.previousBlockHash
  let root ← encodeHash header.merkleRoot
  let timestamp ← pack 4 header.timestamp
  let bits ← pack 4 header.bits
  let nonce ← pack 4 header.nonce
  return version ++ previous ++ root ++ timestamp ++ bits ++ nonce

/-- `serialize_block`. -/
def serializeBlock (block : Block) : Except PyError Bytes := do
  let header ← serializeBlockHeader block.header
  let count ← encodeVarint block.transactions.length
  let transactions ← block.transactions.mapM serializeTransaction
  return header ++ count ++ transactions.flatten

/-! ### Hashes -/

section

variable [Platform]

/-- `double_sha256`. -/
def doubleSha256 (data : Bytes) : Bytes := Platform.sha256 (Platform.sha256 data)

@[simp] theorem length_doubleSha256 (data : Bytes) : (doubleSha256 data).length = 32 :=
  Platform.sha256_length _

/-- `double_sha256_hex`. -/
def doubleSha256Hex (data : Bytes) : PyStr := hex (doubleSha256 data)

/-- `Transaction.txid`. -/
def Transaction.txid (transaction : Transaction) : Except PyError PyStr := do
  return doubleSha256Hex (← serializeTransaction transaction)

/-- `BlockHeader.block_hash`. -/
def BlockHeader.blockHash (header : BlockHeader) : Except PyError PyStr := do
  return doubleSha256Hex (← serializeBlockHeader header)

/-- `Block.block_hash`. -/
def Block.blockHash (block : Block) : Except PyError PyStr := block.header.blockHash

/-- One level of the Merkle tree; the last node of an odd level is paired with itself. -/
def merkleLevel : List Bytes → List Bytes
  | [] => []
  | [a] => [doubleSha256 (a ++ a)]
  | a :: b :: rest => doubleSha256 (a ++ b) :: merkleLevel rest

/-- Combine levels until one node is left. Each round at least halves the level, so as many
rounds as there are nodes suffice. -/
def merkleLoop : ℕ → List Bytes → List Bytes
  | 0, level => level
  | fuel + 1, level => if level.length > 1 then merkleLoop fuel (merkleLevel level) else level

/-- `merkle_root`. -/
def merkleRoot (transactionIds : List PyStr) : Except PyError PyStr :=
  if transactionIds.isEmpty then .ok (hex (doubleSha256 []))
  else do
    let level ← transactionIds.mapM fromHex
    return hex ((merkleLoop level.length level).headD [])

/-! ### Blocks of closed instances -/

/-- A coinbase that pays given outputs; the height sets it apart from other coinbases. -/
def sampleCoinbase (height : ℕ) (outputs : List TxOutput) : Transaction where
  version := 1
  inputs := []
  outputs := outputs
  metadata := .ofPairs [("coinbase", str "true"), ("height", strOfInt height)]

/-- A block that commits to given transactions. -/
def sampleBlock (previousBlockHash : PyStr) (timestamp bits : Int)
    (transactions : List Transaction) : Block where
  header := {
    version := 1
    previousBlockHash := previousBlockHash
    merkleRoot := ((transactions.mapM Transaction.txid >>= merkleRoot).toOption).getD []
    timestamp := timestamp
    bits := bits
    nonce := 0 }
  transactions := transactions

end

end Chipcoin
