import Chipcoin.Consensus.Validation

/-!
# The wallet's signer

Input selection and `TransactionSigner.build_signed_transaction`. The arithmetic of signing is the
class `SigningPlatform`, beside the verification that `Platform` has; what a signature is good for
is a hypothesis where it is needed.
-/

namespace Chipcoin

open Checked Sorting

/-! ### Keys -/

/-- The functions of the signing libraries, and how long their results are. -/
class SigningPlatform extends Platform where
  /-- The SEC1 octets of the public key of a private key, compressed or not. -/
  secp256k1PublicKey : Bytes → Bool → Bytes
  secp256k1PublicKey_length : ∀ privateKey compressed,
    (secp256k1PublicKey privateKey compressed).length = if compressed then 33 else 65
  /-- An ECDSA signature by a private key over a digest, in DER. -/
  ecdsaSign : Bytes → Bytes → Bytes
  /-- A signature is two integers of at most 33 octets in DER. -/
  normalizeLowS_ecdsaSign : ∀ privateKey digest, ∃ signature,
    normalizeLowS (ecdsaSign privateKey digest) = some signature ∧
      signature ≠ [] ∧ signature.length ≤ 72
  /-- `derive_keypair` of the ML-DSA-44 backend. -/
  mldsa44DeriveKeypair : Bytes → Bytes × Bytes
  /-- `sign` of the ML-DSA-44 backend. -/
  mldsa44Sign : Bytes → Bytes → Bytes
  mldsa44Sign_length : ∀ seed digest, (mldsa44Sign seed digest).length = 2420

/-- `SECP256K1_ORDER`. -/
def secp256k1Order : ℕ := 0xFFFFFFFFFFFFFFFFFFFFFFFFFFFFFFFEBAAEDCE6AF48A03BBFD25E8CD0364141

/-- `validate_private_key`. -/
def validatePrivateKey (privateKey : Bytes) : Except PyError Unit := do
  raiseIf (privateKey.length ≠ 32) (.value "Private keys must be exactly 32 bytes.")
  raiseIf (fromBytesBig privateKey = 0 ∨ secp256k1Order ≤ fromBytesBig privateKey)
    (.value "Private key is outside the valid secp256k1 range.")

/-- `WalletKey`, with the fields that signing reads. -/
structure WalletKey where
  privateKey : Bytes
  publicKey : Bytes
  address : PyStr
  schemeId : Int := 0
  privateSeed : Option Bytes := none
deriving DecidableEq

section

variable [SigningPlatform]

/-- `derive_public_key`. -/
def derivePublicKey (privateKey : Bytes) (compressed : Bool) : Except PyError Bytes := do
  validatePrivateKey privateKey
  return SigningPlatform.secp256k1PublicKey privateKey compressed

/-- `sign_digest`. -/
def signDigest (privateKey digest : Bytes) : Except PyError Bytes := do
  raiseIf (digest.length ≠ 32) (.value "ECDSA signing expects a 32-byte digest.")
  validatePrivateKey privateKey
  orRaise (Platform.normalizeLowS (SigningPlatform.ecdsaSign privateKey digest))
    (.value "Invalid DER signature.")

/-- `_backend` of ML-DSA-44, which the verifier uses too. -/
def mldsa44Backend : Except PyError Unit :=
  raiseIf Platform.mldsa44Verify.isNone
    (.runtime "Pinned mldsa-native ML-DSA-44 backend is not available.")

/-- `derive_mldsa44_keypair`. -/
def deriveMldsa44Keypair (seed : Bytes) : Except PyError (Bytes × Bytes) := do
  raiseIf (seed.length ≠ 32) (.value "ML-DSA-44 seed must be exactly 32 bytes.")
  mldsa44Backend
  let (privateKey, publicKey) := SigningPlatform.mldsa44DeriveKeypair seed
  raiseIf (privateKey.length ≠ 2560)
    (.runtime "Pinned ML-DSA-44 backend returned an unexpected private key size.")
  raiseIf (publicKey.length ≠ 1312)
    (.runtime "Pinned ML-DSA-44 backend returned an unexpected public key size.")
  return (privateKey, publicKey)

/-- `sign_mldsa44`. -/
def signMldsa44 (seed digest : Bytes) : Except PyError Bytes := do
  raiseIf (seed.length ≠ 32) (.value "ML-DSA-44 seed must be exactly 32 bytes.")
  raiseIf (digest.length ≠ 32)
    (.value "Transaction signature digest must be exactly 32 bytes.")
  mldsa44Backend
  let signature := SigningPlatform.mldsa44Sign seed digest
  raiseIf (signature.length ≠ 2420)
    (.runtime "Pinned ML-DSA-44 backend returned an unexpected signature size.")
  return signature

/-- `wallet_key_from_private_key`. -/
def walletKeyFromPrivateKey (privateKey : Bytes) (compressed : Bool := true) :
    Except PyError WalletKey := do
  let publicKey ← derivePublicKey privateKey compressed
  return {
    privateKey := privateKey
    publicKey := publicKey
    address := ← publicKeyToAddress publicKey
    schemeId := sigSchemeLegacyEcdsa }

/-- `wallet_key_from_mldsa44_seed`. -/
def walletKeyFromMldsa44Seed (seed : Bytes) : Except PyError WalletKey := do
  let (privateMaterial, publicKey) ← deriveMldsa44Keypair seed
  return {
    privateKey := privateMaterial
    privateSeed := some seed
    publicKey := publicKey
    address := ← publicKeyToPqAddress publicKey sigSchemeMlDsa44
    schemeId := sigSchemeMlDsa44 }

/-- `self.wallet_key.private_seed or self.wallet_key.private_key`. -/
def WalletKey.seed (key : WalletKey) : Bytes :=
  match key.privateSeed with
  | some seed => if seed.isEmpty then key.privateKey else seed
  | none => key.privateKey

/-- `TransactionSigner.sign`. -/
def WalletKey.sign (key : WalletKey) (digest : Bytes) : Except PyError Bytes :=
  if key.schemeId = sigSchemeMlDsa44 then signMldsa44 key.seed digest
  else signDigest key.privateKey digest

end

/-! ### Selection -/

/-- `SpendCandidate`. -/
structure SpendCandidate where
  txid : PyStr
  index : Int
  amountChipbits : Int
  recipient : PyStr
deriving DecidableEq

/-- The output that a candidate stands for. -/
def SpendCandidate.outpoint (candidate : SpendCandidate) : OutPoint :=
  ⟨candidate.txid, candidate.index⟩

/-- What the candidate says about that output. -/
def SpendCandidate.output (candidate : SpendCandidate) : TxOutput :=
  ⟨candidate.amountChipbits, candidate.recipient⟩

/-- `SelectionResult`. -/
structure SelectionResult where
  selected : List SpendCandidate
  totalInputChipbits : Int
  changeChipbits : Int

/-- The order of selection: by amount, then by outpoint. -/
def compareCandidates : SpendCandidate → SpendCandidate → Ordering :=
  compareLex (compareOn SpendCandidate.amountChipbits)
    (compareLex (compareOn SpendCandidate.txid) (compareOn SpendCandidate.index))

/-- The loop of `select_inputs` over the candidates that remain. -/
def selectLoop (targetValue : Int) :
    List SpendCandidate → List SpendCandidate → Int → Except PyError SelectionResult
  | [], _, _ =>
    .error (.value "Insufficient spendable balance for the requested amount and fee.")
  | candidate :: rest, selected, total =>
    let selected := selected ++ [candidate]
    let total := total + candidate.amountChipbits
    if total ≥ targetValue then .ok {
      selected := selected
      totalInputChipbits := total
      changeChipbits := total - targetValue }
    else selectLoop targetValue rest selected total

/-- `select_inputs`. -/
def selectInputs (candidates : List SpendCandidate) (targetValue : Int) :
    Except PyError SelectionResult := do
  raiseIf (targetValue ≤ 0) (.value "Target value must be positive.")
  selectLoop targetValue (sortBy compareCandidates candidates) [] 0

/-! ### Payments -/

/-- `BuiltTransaction`. -/
structure BuiltTransaction where
  transaction : Transaction
  feeChipbits : Int
  changeChipbits : Int
deriving DecidableEq

/-- The arguments of `build_signed_transaction`. -/
structure PaymentRequest where
  spendCandidates : List SpendCandidate
  recipient : PyStr
  amountChipbits : Int
  feeChipbits : Int
  changeRecipient : Option PyStr := none
  locktime : Int := 0
  metadata : Option Metadata := none
  network : PyStr := str "mainnet"

section

variable [SigningPlatform]

/-- The transaction of a request before it is signed. -/
def WalletKey.unsigned (key : WalletKey) (request : PaymentRequest) (changeRecipient : PyStr)
    (selection : SelectionResult) : Transaction where
  version := if key.schemeId = sigSchemeLegacyEcdsa then 1 else 2
  inputs := selection.selected.map fun candidate =>
    { previousOutput := candidate.outpoint, sigSchemeId := key.schemeId }
  outputs := { value := request.amountChipbits, recipient := request.recipient } ::
    if selection.changeChipbits > 0 then
      [{ value := selection.changeChipbits, recipient := changeRecipient }]
    else []
  locktime := request.locktime
  metadata := request.metadata.getD ∅

/-- The signature of one input. -/
def WalletKey.signInput (key : WalletKey) (network : PyStr) (transaction : Transaction)
    (indexed : SpendCandidate × ℕ) : Except PyError TxInput := do
  let (candidate, inputIndex) := indexed
  raiseIf (candidate.recipient ≠ key.address)
    (.value "Spend candidate recipient does not belong to this wallet key.")
  let digest ← transactionSignatureDigest transaction inputIndex candidate.output network
  return {
    previousOutput := candidate.outpoint
    signature := ← key.sign digest
    publicKey := key.publicKey
    sigSchemeId := key.schemeId }

/-- `TransactionSigner.build_signed_transaction`. -/
def WalletKey.buildSignedTransaction (key : WalletKey) (request : PaymentRequest) :
    Except PyError BuiltTransaction := do
  raiseIf (request.amountChipbits ≤ 0) (.value "Amount must be positive.")
  raiseIf (request.feeChipbits < 0) (.value "Fee cannot be negative.")
  raiseIf (¬ isValidAddress request.recipient)
    (.value "Recipient must be a valid Chipcoin address.")
  let changeRecipient := request.changeRecipient.getD key.address
  raiseIf (¬ isValidAddress changeRecipient)
    (.value "Change recipient must be a valid Chipcoin address.")
  let selection ← selectInputs request.spendCandidates
    (request.amountChipbits + request.feeChipbits)
  let transaction := key.unsigned request changeRecipient selection
  let signedInputs ← selection.selected.zipIdx.mapM (key.signInput request.network transaction)
  return {
    transaction := { transaction with inputs := signedInputs }
    feeChipbits := request.feeChipbits
    changeChipbits := selection.changeChipbits }

end

end Chipcoin
