import Chipcoin.Consensus.Models

/-!
# Addresses, signatures and post-quantum activation

Base58Check addresses of the two kinds (`CHC`, a public-key hash; `CHCQ`, a signature scheme and a
public-key commitment), the signature checks that the validator calls, and the registry of
signature schemes. The curve and lattice arithmetic below them is the platform's.
-/

namespace Chipcoin

open Checked

variable [Platform]

/-! ### Base58Check -/

/-- `_BASE58_ALPHABET`. -/
def base58Alphabet : PyStr := str "123456789ABCDEFGHJKLMNPQRSTUVWXYZabcdefghijkmnopqrstuvwxyz"

/-- The octets of `n`, most significant first, with no leading zero octet. -/
def minimalBytesBig (n : ℕ) : Bytes :=
  if n = 0 then [] else (leBytes (n.log2 / 8 + 1) n).reverse

/-- The base-58 digits of a number in front of `encoded`. -/
def base58Digits : ℕ → ℕ → PyStr → PyStr
  | 0, _, encoded => encoded
  | fuel + 1, value, encoded =>
    if value = 0 then encoded
    else base58Digits fuel (value / 58) (base58Alphabet.getD (value % 58) 0 :: encoded)

/-- `_base58check_encode`. -/
def base58checkEncode (payload : Bytes) : PyStr :=
  let data := payload ++ (doubleSha256 payload).take 4
  let zeros := (data.takeWhile (· == 0)).length
  let value := fromBytesBig data
  let encoded := base58Digits (value.log2 + 1) value []
  List.replicate zeros 49 ++ (if encoded.isEmpty then [49] else encoded)

/-- The number written by base-58 digits. -/
def base58Number (value : PyStr) : Except PyError ℕ :=
  value.foldlM (fun number character =>
    match base58Alphabet.findIdx? (· == character) with
    | some index => .ok (number * 58 + index)
    | none => .error (.value "Address contains a non-Base58 character.")) 0

/-- `_base58check_decode`. -/
def base58checkDecode (value : PyStr) : Except PyError Bytes := do
  let number ← base58Number value
  let zeros := (value.takeWhile (· == 49)).length
  let raw := List.replicate zeros 0 ++ minimalBytesBig number
  raiseIf (raw.length < 5) (.value "Address payload is too short.")
  let payload := raw.take (raw.length - 4)
  let checksum := raw.drop (raw.length - 4)
  raiseIf ((doubleSha256 payload).take 4 ≠ checksum) (.value "Address checksum is invalid.")
  return payload

/-! ### Addresses -/

/-- The two kinds of address. -/
inductive AddressKind
  | legacy
  | pq
deriving DecidableEq, Repr

/-- `AddressInfo`, with the fields that validation reads. -/
structure AddressInfo where
  kind : AddressKind
  schemeId : Int
  hashOrCommitment : Bytes
deriving DecidableEq

/-- `ADDRESS_PREFIX`. -/
def addressPrefix : PyStr := str "CHC"

/-- `PQ_ADDRESS_PREFIX`. -/
def pqAddressPrefix : PyStr := str "CHCQ"

/-- `pq_public_key_commitment`. -/
def pqPublicKeyCommitment (publicKey : Bytes) : Bytes := Platform.sha3_256 publicKey

/-- `hash160`. -/
def hash160 (payload : Bytes) : Bytes := Platform.ripemd160 (Platform.sha256 payload)

/-- `load_public_key`, which only checks the encoding as far as its callers can see. -/
def loadPublicKey (publicKey : Bytes) : Except PyError Unit :=
  raiseIf (¬ Platform.isSecp256k1Point publicKey)
    (.value "Public key bytes are not a valid secp256k1 SEC1 point.")

/-- `parse_public_key_hex`. -/
def parsePublicKeyHex (value : PyStr) : Except PyError Bytes := do
  let publicKey ← rethrow (onValueError fun _ => .value "Public key hex is invalid.")
    (fromHex value)
  loadPublicKey publicKey
  return publicKey

/-- `public_key_to_address`. -/
def publicKeyToAddress (publicKey : Bytes) : Except PyError PyStr := do
  loadPublicKey publicKey
  return addressPrefix ++ base58checkEncode (0x1C :: hash160 publicKey)

/-- `public_key_to_pq_address`. -/
def publicKeyToPqAddress (publicKey : Bytes) (schemeId : Int) : Except PyError PyStr := do
  raiseIf (schemeId < 0 ∨ schemeId > 0xFF) (.value "Signature scheme id must fit in one byte.")
  return pqAddressPrefix ++
    base58checkEncode (0x50 :: UInt8.ofNat schemeId.toNat :: pqPublicKeyCommitment publicKey)

/-- `parse_address`: the longer prefix is tried first. -/
def parseAddress (address : PyStr) : Except PyError AddressInfo :=
  if pqAddressPrefix.isPrefixOf address then do
    let payload ← base58checkDecode (address.drop pqAddressPrefix.length)
    raiseIf (payload.length ≠ 34) (.value "CHCQ address payload has an unexpected length.")
    raiseIf (payload.getD 0 0 ≠ 0x50) (.value "CHCQ address version byte is not recognised.")
    let commitment := payload.drop 2
    raiseIf (commitment.length ≠ 32)
      (.value "CHCQ public-key commitment has an unexpected length.")
    return { kind := .pq, schemeId := (payload.getD 1 0).toNat, hashOrCommitment := commitment }
  else if addressPrefix.isPrefixOf address then do
    let payload ← base58checkDecode (address.drop addressPrefix.length)
    raiseIf (payload.length ≠ 21) (.value "Address payload has an unexpected length.")
    raiseIf (payload.getD 0 0 ≠ 0x1C) (.value "Address version byte is not recognised.")
    return { kind := .legacy, schemeId := 0, hashOrCommitment := payload.drop 1 }
  else .error (.value "Address does not start with a recognised Chipcoin prefix.")

/-- `is_valid_address`. The parser raises nothing but `ValueError`. -/
def isValidAddress (address : PyStr) : Bool := (parseAddress address).isOk

/-! ### Signatures -/

/-- `verify_digest`: a low-`s` ECDSA signature over a 32-octet digest. -/
def verifyDigest (publicKey digest signature : Bytes) : Bool :=
  digest.length = 32 &&
    Platform.normalizeLowS signature = some signature &&
    Platform.isSecp256k1Point publicKey &&
    Platform.ecdsaVerify publicKey digest signature

/-- `verify_mldsa44`. -/
def verifyMldsa44 (publicKey digest signature : Bytes) : Except PyError Bool :=
  if publicKey.length ≠ 1312 ∨ signature.length ≠ 2420 ∨ digest.length ≠ 32 then .ok false
  else match Platform.mldsa44Verify with
    | some verify => .ok (verify publicKey digest signature)
    | none => .error (.runtime "Pinned mldsa-native ML-DSA-44 backend is not available.")

/-- `SignatureScheme`, with the fields that validation reads. -/
structure SignatureScheme where
  publicKeySize : Option ℕ
  signatureSize : Option ℕ
  supportsVerify : Bool
  activated : Bool
  verifier : Option (Bytes → Bytes → Bytes → Except PyError Bool)

/-- `SIG_SCHEME_LEGACY_ECDSA`. -/
def sigSchemeLegacyEcdsa : Int := 0

/-- `SIG_SCHEME_ML_DSA_44`. -/
def sigSchemeMlDsa44 : Int := 10

/-- The registry `_SCHEMES`: ECDSA, ML-DSA-44, and three reserved identifiers. -/
def signatureScheme? (schemeId : Int) : Option SignatureScheme :=
  if schemeId = sigSchemeLegacyEcdsa then
    some { publicKeySize := none, signatureSize := none, supportsVerify := true,
           activated := true, verifier := none }
  else if schemeId = sigSchemeMlDsa44 then
    some { publicKeySize := some 1312, signatureSize := some 2420, supportsVerify := true,
           activated := true, verifier := some verifyMldsa44 }
  else if schemeId = 11 ∨ schemeId = 20 ∨ schemeId = 30 then
    some { publicKeySize := none, signatureSize := none, supportsVerify := false,
           activated := false, verifier := none }
  else none

/-- `get_signature_scheme`. -/
def getSignatureScheme (schemeId : Int) : Except PyError SignatureScheme :=
  orRaise (signatureScheme? schemeId) (.value s!"Unknown signature scheme id: {schemeId}")

/-- `is_known_signature_scheme`. -/
def isKnownSignatureScheme (schemeId : Int) : Bool := (signatureScheme? schemeId).isSome

/-! ### Post-quantum activation -/

/-- `PQ_TRANSACTION_VERSION`. -/
def pqTransactionVersion : Int := 2

/-- `pq_support_activation_height`. -/
def pqSupportActivationHeight (network : PyStr) (params : ConsensusParams) : ℕ :=
  match params.pqSupportActivationHeight with
  | some height => height
  | none =>
    let normalized := Platform.lower network
    if normalized = str "mainnet" then 0
    else if normalized = str "devnet" then 30000
    else 20000

/-- `pq_support_is_active`. -/
def pqSupportIsActive (network : PyStr) (height : ℕ) (params : ConsensusParams) : Bool :=
  height ≥ pqSupportActivationHeight network params

end Chipcoin
