import Chipcoin.Octets
import Chipcoin.Lib.Sorting

/-!
# The transaction encoder of the browser wallet

The browser wallet has an encoder of its own, in TypeScript. It is modelled here over the values of
JavaScript: a string is the list of its code points, an integral `number` is an `Int`, and an object
is the list of its own entries in property order. `DataView` setters wrap around where `struct.pack`
raises, `TextEncoder` replaces a lone surrogate where `encode` raises, and `Number.parseInt` reads
what it can of two characters.

`String.prototype.localeCompare` depends on the locale and on the collation tables of the engine, so
the order of texts is a parameter (`Collation`).
-/

namespace Chipcoin

namespace BrowserWallet

open Checked Sorting

/-! ### Numbers -/

/-- `encodeUint16`. -/
def encodeUint16 (value : Int) : Bytes := leBytes 2 (value % 2 ^ 16).toNat

/-- `encodeUint32`. -/
def encodeUint32 (value : Int) : Bytes := leBytes 4 (value % 2 ^ 32).toNat

/-- `encodeUint64`. -/
def encodeUint64 (value : Int) : Bytes := leBytes 8 (value % 2 ^ 64).toNat

/-- `encodeVarint`, on the lengths it is applied to. -/
def encodeVarint (value : ℕ) : Bytes :=
  if value < 0xfd then [UInt8.ofNat value]
  else if value ≤ 0xffff then 0xfd :: encodeUint16 value
  else if value ≤ 0xffffffff then 0xfe :: encodeUint32 value
  else 0xff :: encodeUint64 value

/-! ### Octets and text -/

/-- `encodeBytes`. -/
def encodeBytes (value : Bytes) : Bytes := encodeVarint value.length ++ value

/-- `new TextEncoder().encode(value)`: a lone surrogate is replaced by U+FFFD. -/
def textEncode (value : PyStr) : Bytes :=
  value.flatMap fun c => (utf8EncodeChar c).getD [0xEF, 0xBF, 0xBD]

/-- `encodeString`. -/
def encodeString (value : PyStr) : Bytes := encodeBytes (textEncode value)

/-- The white space of `String.prototype.trim` and `Number.parseInt`. -/
def isWhiteSpace (c : ℕ) : Bool :=
  (9 ≤ c && c ≤ 13) || c == 32 || c == 0xA0 || c == 0x1680 || (0x2000 ≤ c && c ≤ 0x200A) ||
    c == 0x2028 || c == 0x2029 || c == 0x202F || c == 0x205F || c == 0x3000 || c == 0xFEFF

/-- `value.trim()`. -/
def trim (value : PyStr) : PyStr :=
  ((value.dropWhile isWhiteSpace).reverse.dropWhile isWhiteSpace).reverse

/-- `Number.parseInt(pair, 16)` stored into an octet: as much of the pair as is a number, and zero
for `NaN`. -/
def parsePair (first second : ℕ) : UInt8 :=
  match hexValue first, hexValue second with
  | some high, some low => UInt8.ofNat (high * 16 + low)
  | some digit, none => UInt8.ofNat digit
  | none, some digit =>
    if isWhiteSpace first ∨ first = 43 then UInt8.ofNat digit
    else if first = 45 then UInt8.ofNat (256 - digit)
    else 0
  | none, none => 0

/-- The pairs of a text of even length. -/
def parsePairs : PyStr → Bytes
  | first :: second :: rest => parsePair first second :: parsePairs rest
  | _ => []

/-- `hexToBytes`. -/
def hexToBytes (value : PyStr) : Except String Bytes :=
  let normalized := trim value
  if normalized.length % 2 ≠ 0 then .error "Hex input must have an even length."
  else .ok (parsePairs normalized)

/-- `encodeHash`. -/
def encodeHash (hexValue : PyStr) : Except String Bytes := do
  let raw ← hexToBytes hexValue
  raiseIf (raw.length ≠ 32) "Hash values must be exactly 32 bytes."
  return raw

/-! ### Metadata -/

/-- `String.prototype.localeCompare` of a browser: a total preorder of texts. Different texts may
compare as equal, such as two spellings of one letter. -/
class Collation where
  localeCompare : PyStr → PyStr → Ordering
  total : Std.TransCmp localeCompare

export Collation (localeCompare)

variable [Collation]

/-- `encodeMetadata`, on the entries of the object. -/
def encodeMetadata (metadata : List (PyStr × PyStr)) : Bytes :=
  let items := sortBy (fun left right => localeCompare left.1 right.1) metadata
  encodeVarint items.length ++
    (items.map fun (key, value) => encodeString key ++ encodeString value).flatten

/-! ### Transactions -/

/-- `TxInputModel`. -/
structure TxInputModel where
  previousOutput : OutPoint
  signatureHex : PyStr
  publicKeyHex : PyStr
  sequence : Int
  sigSchemeId : Option Int := none
deriving DecidableEq

/-- `TransactionModel`. -/
structure TransactionModel where
  version : Int
  inputs : List TxInputModel
  outputs : List TxOutput
  locktime : Int
  metadata : List (PyStr × PyStr)
deriving DecidableEq

/-- The octets of a hexadecimal field, which may be empty. -/
def hexField (value : PyStr) : Except String Bytes :=
  if value = [] then .ok [] else hexToBytes value

/-- The encoding of one input. -/
def serializeInput (version : Int) (input : TxInputModel) : Except String Bytes := do
  let sigSchemeId := input.sigSchemeId.getD 0
  raiseIf (version < 2 ∧ sigSchemeId ≠ 0)
    "Transaction v1 inputs cannot declare non-legacy signature schemes."
  raiseIf (version ≥ 2 ∧ (sigSchemeId < 0 ∨ sigSchemeId > 0xff))
    "Signature scheme id must fit in one byte."
  let txid ← encodeHash input.previousOutput.txid
  let signature ← hexField input.signatureHex
  let publicKey ← hexField input.publicKeyHex
  return txid ++ encodeUint32 input.previousOutput.index ++
    (if version ≥ 2 then [UInt8.ofNat sigSchemeId.toNat] else []) ++
    encodeBytes signature ++ encodeBytes publicKey ++ encodeUint32 input.sequence

/-- `serializeTransaction`. -/
def serializeTransaction (transaction : TransactionModel) : Except String Bytes := do
  let inputs ← transaction.inputs.mapM (serializeInput transaction.version)
  let outputs := transaction.outputs.map fun output =>
    encodeUint64 output.value ++ encodeString output.recipient
  return encodeUint32 transaction.version ++ encodeVarint transaction.inputs.length ++
    inputs.flatten ++ encodeVarint transaction.outputs.length ++ outputs.flatten ++
    encodeUint32 transaction.locktime ++ encodeMetadata transaction.metadata

/-- The transaction with the unlocking data of its inputs removed. -/
def TransactionModel.stripped (transaction : TransactionModel) : TransactionModel :=
  { transaction with
    inputs := transaction.inputs.map fun input =>
      { previousOutput := input.previousOutput
        signatureHex := []
        publicKeyHex := []
        sequence := input.sequence
        sigSchemeId := input.sigSchemeId } }

/-- `serializeTransactionForSigning`. -/
def serializeTransactionForSigning (transaction : TransactionModel) (inputIndex : ℕ)
    (previousOutputValue : Int) (previousOutputRecipient network : PyStr) :
    Except String Bytes := do
  raiseIf (transaction.inputs.length ≤ inputIndex) "Transaction input index is out of range."
  let encoded ← serializeTransaction transaction.stripped
  return encoded ++ encodeUint32 inputIndex ++ encodeUint64 previousOutputValue ++
    encodeString previousOutputRecipient ++
    if transaction.version ≥ 2 then
      encodeString (str "chipcoin:tx-signature:v2:" ++ network) ++ encodeUint32 2
    else encodeUint32 1

section

variable [Platform]

/-- `transactionId`. -/
def transactionId (transaction : TransactionModel) : Except String PyStr := do
  return hex (doubleSha256 (← serializeTransaction transaction))

/-- `transactionSignatureDigest`. -/
def transactionSignatureDigest (transaction : TransactionModel) (inputIndex : ℕ)
    (previousOutputValue : Int) (previousOutputRecipient network : PyStr) :
    Except String Bytes := do
  return doubleSha256 (← serializeTransactionForSigning transaction inputIndex previousOutputValue
    previousOutputRecipient network)

end

end BrowserWallet

end Chipcoin
