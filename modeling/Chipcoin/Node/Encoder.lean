import Chipcoin.Node.Codec

/-!
# Encoding of messages

`encode_message` and the payload encoders of `node/p2p/codec.py`. The encoders of the codec have
their own copies of the primitives for lengths, texts and hashes, which raise `CodecError` where the
consensus module raises `ValueError`; transactions, headers and blocks are serialised by the
consensus module.
-/

namespace Chipcoin

open Checked

/-- The command of a message. -/
def MessageEnvelope.command : MessageEnvelope → CommandName
  | .version _ => .version
  | .verack => .verack
  | .ping _ => .ping
  | .pong _ => .pong
  | .getaddr => .getaddr
  | .addr _ => .addr
  | .inv _ => .inv
  | .getdata _ => .getdata
  | .tx _ => .tx
  | .block _ => .block
  | .getheaders _ _ _ => .getheaders
  | .headers _ => .headers
  | .getblocks _ _ _ => .getblocks

namespace Codec

/-- A step outside the codec, which does not translate its errors. -/
def foreign {α : Type} (result : Except PyError α) : Except SessionError α :=
  result.mapError .other

/-- `_encode_varint` of the codec. -/
def encodeVarint (value : ℕ) : Except SessionError Bytes :=
  (Chipcoin.encodeVarint value).mapError fun _ => codecError "varint value exceeds 64-bit range"

/-- `_encode_bytes` of the codec. -/
def encodeBytes (value : Bytes) : Except SessionError Bytes := do
  return (← encodeVarint value.length) ++ value

/-- `_encode_string` of the codec. -/
def encodeString (value : PyStr) : Except SessionError Bytes := do
  encodeBytes (← foreign (utf8Encode value))

/-- `_encode_hash` of the codec. -/
def encodeHash (hashHex : PyStr) : Except SessionError Bytes := do
  let raw ← foreign (fromHex hashHex)
  raiseIf (raw.length ≠ 32) (codecError "Hashes must be exactly 32 bytes.")
  return raw

/-- `pack` of one field. -/
def packField (width value : ℕ) : Except SessionError Bytes := foreign (pack width value)

/-- `_ensure_count_at_most`. -/
def ensureCountAtMost (name : String) (count limit : ℕ) : Except SessionError Unit :=
  raiseIf (count > limit) (codecError s!"{name} count exceeds limit: {count} > {limit}.")

/-- A list behind its length, with a limit on the length. -/
def encodeCounted {α : Type} (name : String) (limit : ℕ) (encode : α → Except SessionError Bytes)
    (items : List α) : Except SessionError Bytes := do
  ensureCountAtMost name items.length limit
  let count ← encodeVarint items.length
  let encoded ← items.mapM encode
  return count ++ encoded.flatten

/-- `INVENTORY_TYPE_CODES`. -/
def inventoryCode : InventoryType → ℕ
  | .tx => 1
  | .block => 2

/-- One item of `_encode_inventory`. -/
def encodeInventoryItem (item : InventoryVector) : Except SessionError Bytes := do
  let objectType ← packField 4 (inventoryCode item.objectType)
  let objectHash ← encodeHash item.objectHash
  return objectType ++ objectHash

/-- `_encode_inventory`. -/
def encodeInventory : List InventoryVector → Except SessionError Bytes :=
  encodeCounted "inventory" 500 encodeInventoryItem

/-- `_encode_hash_locator`. The count is checked before the version is packed. -/
def encodeHashLocator (protocolVersion : ℕ) (locatorHashes : List PyStr) (stopHash : PyStr) :
    Except SessionError Bytes := do
  ensureCountAtMost "locator" locatorHashes.length 64
  let version ← packField 4 protocolVersion
  let count ← encodeVarint locatorHashes.length
  let hashes ← locatorHashes.mapM encodeHash
  let stop ← encodeHash stopHash
  return version ++ (count ++ (hashes.flatten ++ stop))

/-- A `version` payload. -/
def encodeVersion (payload : VersionMessage) : Except SessionError Bytes := do
  let protocolVersion ← packField 4 payload.protocolVersion
  let network ← encodeString payload.network
  let nodeId ← encodeString payload.nodeId
  let startHeight ← packField 4 payload.startHeight
  let userAgent ← encodeString payload.userAgent
  let relay ← packField 1 (if payload.relay then 1 else 0)
  return protocolVersion ++ (network ++ (nodeId ++ (startHeight ++ (userAgent ++ relay))))

/-- One record of an `addr` payload. -/
def encodeAddress (address : PeerAddress) : Except SessionError Bytes := do
  let timestamp ← packField 4 address.timestamp
  let services ← packField 8 address.services
  let host ← encodeString address.host
  let port ← packField 2 address.port
  return timestamp ++ (services ++ (host ++ port))

end Codec

open Codec

/-- `_encode_payload`. -/
def encodePayload : MessageEnvelope → Except SessionError Bytes
  | .verack | .getaddr => .ok []
  | .version payload => encodeVersion payload
  | .ping nonce | .pong nonce => packField 8 nonce
  | .inv items | .getdata items => encodeInventory items
  | .tx transaction => foreign (serializeTransaction transaction)
  | .block block => foreign (serializeBlock block)
  | .getheaders protocolVersion locatorHashes stopHash
  | .getblocks protocolVersion locatorHashes stopHash =>
    encodeHashLocator protocolVersion locatorHashes stopHash
  | .headers headers =>
    encodeCounted "headers" 2000 (fun header => foreign (serializeBlockHeader header)) headers
  | .addr addresses => encodeCounted "addr" 1000 encodeAddress addresses

/-- `_encode_command`. -/
def encodeCommand (command : PyStr) : Except SessionError Bytes := do
  raiseIf (command.any (0x80 ≤ ·))
    (.other (.value "'ascii' codec can't encode character: ordinal not in range(128)"))
  raiseIf (command.length > 12) (codecError "Command name exceeds fixed-width header field.")
  return command.map UInt8.ofNat ++ List.replicate (12 - command.length) 0

/-- `encode_message`. -/
def encodeMessage [Platform] (message : MessageEnvelope) (magic : Bytes) :
    Except SessionError Bytes := do
  raiseIf (magic.length ≠ 4) (codecError "Network magic must be exactly four bytes.")
  let payload ← encodePayload message
  let command ← encodeCommand (str message.command.text)
  let checksum := (doubleSha256 payload).take 4
  let length ← packField 4 payload.length
  return magic ++ (command ++ (length ++ (checksum ++ payload)))

end Chipcoin
