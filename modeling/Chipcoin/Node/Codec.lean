import Chipcoin.Consensus.Decoding

/-!
# The message codec

`decode_message` and the payload decoders of `node/p2p/codec.py`. Frames carry a magic, a command, a
length and a checksum in front of a payload whose form depends on the command. Errors are of two
sorts: those that derive from `P2PError`, and all others, which come from the ASCII and UTF-8 codecs
and from the consensus decoders that the codec calls.

* `faults_decodeVersion`, `faults_decodeAddresses`, `faults_decodeHeaders`, `faults_plain`: where
  the payload decoders raise an error that is no `P2PError`.
* `decodeMessage_cases`: which frames raise one.
-/

namespace Chipcoin

open Checked Decoding List

/-! ### Errors -/

/-- The classes of `node/p2p/errors.py`, by the innermost class. -/
inductive P2pErrorClass
  | codec
  | wrongNetworkMagic
  | malformedMessage
  | checksum
  | protocol
  | handshakeFailed
  | protocolTimeout
  | blockRequestStalled
  | duplicateConnection
  | invalidBlock
  | invalidTx
  | transport
  | connectionClosed
  | transportTimeout
  | connectionFailed
deriving DecidableEq, Repr

/-- The subclasses of `CodecError`. -/
def P2pErrorClass.isCodec : P2pErrorClass → Bool
  | .codec | .wrongNetworkMagic | .malformedMessage | .checksum => true
  | _ => false

/-- An instance of `P2PError`. -/
structure P2pError where
  kind : P2pErrorClass
  message : String
deriving DecidableEq, Repr

/-- An exception in a session: a `P2PError` or any other. -/
inductive SessionError
  | p2p (error : P2pError)
  | other (error : PyError)
deriving DecidableEq, Repr

/-- An exception that is no `P2PError`. -/
def SessionError.Foreign : SessionError → Prop
  | .p2p _ => False
  | .other _ => True

/-! ### Messages -/

/-- `InventoryType`. -/
inductive InventoryType
  | tx
  | block
deriving DecidableEq, Repr

structure InventoryVector where
  objectType : InventoryType
  objectHash : PyStr
deriving DecidableEq, Repr

structure PeerAddress where
  host : PyStr
  port : ℕ
  services : ℕ
  timestamp : ℕ
deriving DecidableEq, Repr

structure VersionMessage where
  protocolVersion : ℕ
  network : PyStr
  nodeId : PyStr
  startHeight : ℕ
  userAgent : PyStr
  relay : Bool
deriving DecidableEq, Repr

/-- `CommandName`. -/
inductive CommandName
  | version
  | verack
  | ping
  | pong
  | getaddr
  | addr
  | inv
  | getdata
  | tx
  | block
  | getheaders
  | headers
  | getblocks
deriving DecidableEq, Repr

/-- The text of a command in the frame header. -/
def CommandName.text : CommandName → String
  | .version => "version"
  | .verack => "verack"
  | .ping => "ping"
  | .pong => "pong"
  | .getaddr => "getaddr"
  | .addr => "addr"
  | .inv => "inv"
  | .getdata => "getdata"
  | .tx => "tx"
  | .block => "block"
  | .getheaders => "getheaders"
  | .headers => "headers"
  | .getblocks => "getblocks"

/-- The command with a given text, if there is one. -/
def CommandName.ofText? (text : PyStr) : Option CommandName :=
  [.version, .verack, .ping, .pong, .getaddr, .addr, .inv, .getdata, .tx, .block, .getheaders,
    .headers, .getblocks].find? fun command => str command.text = text

/-- `MessageEnvelope`: the command and the payload that belongs to it. -/
inductive MessageEnvelope
  | version (payload : VersionMessage)
  | verack
  | ping (nonce : ℕ)
  | pong (nonce : ℕ)
  | getaddr
  | addr (addresses : List PeerAddress)
  | inv (items : List InventoryVector)
  | getdata (items : List InventoryVector)
  | tx (transaction : Transaction)
  | block (block : Block)
  | getheaders (protocolVersion : ℕ) (locatorHashes : List PyStr) (stopHash : PyStr)
  | headers (headers : List BlockHeader)
  | getblocks (protocolVersion : ℕ) (locatorHashes : List PyStr) (stopHash : PyStr)
deriving DecidableEq

/-! ### Fields -/

namespace Codec

/-- A plain `CodecError`. -/
def codecError (message : String) : SessionError := .p2p ⟨.codec, message⟩

/-- `_unpack_from`, by the width of the field. -/
def unpackField (width : ℕ) (context : String) : Decoder SessionError UInt8 ℕ :=
  unpackOr width fun _ _ => codecError s!"Unexpected end of payload while decoding {context}."

/-- `_decode_varint` of the codec. -/
def decodeVarint : Decoder SessionError UInt8 ℕ :=
  decodeVarintWith fun
    | 0 => codecError "Unexpected end of payload while decoding varint."
    | width => codecError s!"Unexpected end of payload while decoding varint uint{8 * width}."

/-- `_decode_bytes` of the codec. -/
def decodeBytes : Decoder SessionError UInt8 Bytes :=
  decodeBytesWith decodeVarint (codecError "Unexpected end of payload while decoding bytes.")

/-- `_decode_string` of the codec, whose last step raises a `UnicodeDecodeError`. -/
def decodeString : Decoder SessionError UInt8 PyStr :=
  decodeStringWith decodeBytes (.other invalidUtf8)

/-- `_decode_hash`. -/
def decodeHash : Decoder SessionError UInt8 PyStr := fun buffer offset => do
  raiseIf (buffer.length < offset + 32)
    (codecError "Unexpected end of payload while decoding hash.")
  return (hex ((buffer.drop offset).take 32), offset + 32)

/-- `_ensure_count_at_most`, in front of the loop that it protects. -/
def atMost {α : Type} (name : String) (count limit : ℕ) (decode : Decoder SessionError UInt8 α) :
    Decoder SessionError UInt8 α :=
  decode.guard (count > limit) (codecError s!"{name} count exceeds limit: {count} > {limit}.")

/-- `INVENTORY_TYPE_NAMES`. -/
def inventoryType? (code : ℕ) : Option InventoryType :=
  if code = 1 then some .tx else if code = 2 then some .block else none

/-- One item of `_decode_inventory`. -/
def decodeInventoryItem : Decoder SessionError UInt8 InventoryVector := fun buffer offset => do
  let (code, offset) ← unpackField 4 "inventory type" buffer offset
  let (objectHash, offset) ← decodeHash buffer offset
  let objectType ← orRaise (inventoryType? code)
    (codecError s!"Unknown inventory type code: {code}")
  return ({ objectType := objectType, objectHash := objectHash }, offset)

/-- `_decode_inventory`. -/
def decodeInventory : Decoder SessionError UInt8 (List InventoryVector) := fun buffer offset => do
  let (count, offset) ← decodeVarint buffer offset
  atMost "inventory" count 500 (decodeInventoryItem.times count) buffer offset

/-- `_decode_hash_locator`, with the message that its caller builds. -/
def decodeHashLocator (message : ℕ → List PyStr → PyStr → MessageEnvelope) :
    Decoder SessionError UInt8 MessageEnvelope := fun buffer offset => do
  let (protocolVersion, offset) ← unpackField 4 "locator protocol version" buffer offset
  let (count, offset) ← decodeVarint buffer offset
  let (locatorHashes, offset) ← atMost "locator" count 64 (decodeHash.times count) buffer offset
  let (stopHash, offset) ← decodeHash buffer offset
  return (message protocolVersion locatorHashes stopHash, offset)

/-- The fields of a `version` payload. -/
def decodeVersion : Decoder SessionError UInt8 MessageEnvelope := fun payload offset => do
  let (protocolVersion, offset) ← unpackField 4 "version protocol version" payload offset
  let (network, offset) ← decodeString payload offset
  let (nodeId, offset) ← decodeString payload offset
  let (startHeight, offset) ← unpackField 4 "version start height" payload offset
  let (userAgent, offset) ← decodeString payload offset
  let (relay, offset) ← unpackField 1 "version relay flag" payload offset
  return (.version {
    protocolVersion := protocolVersion
    network := network
    nodeId := nodeId
    startHeight := startHeight
    userAgent := userAgent
    relay := relay ≠ 0 }, offset)

/-- One record of an `addr` payload. -/
def decodeAddress : Decoder SessionError UInt8 PeerAddress := fun payload offset => do
  let (timestamp, offset) ← unpackField 4 "addr timestamp" payload offset
  let (services, offset) ← unpackField 8 "addr services" payload offset
  let (host, offset) ← decodeString payload offset
  let (port, offset) ← unpackField 2 "addr port" payload offset
  return ({ host := host, port := port, services := services, timestamp := timestamp }, offset)

/-- The records of an `addr` payload. -/
def decodeAddresses : Decoder SessionError UInt8 (List PeerAddress) := fun payload offset => do
  let (count, offset) ← decodeVarint payload offset
  atMost "addr" count 1000 (decodeAddress.times count) payload offset

/-- A consensus decoder in the codec, which does not translate its errors. -/
def plain {α : Type} (decode : Decoder PyError UInt8 α) : Decoder SessionError UInt8 α :=
  fun buffer offset => (decode buffer offset).mapError .other

/-- The headers of a `headers` payload. -/
def decodeHeaders : Decoder SessionError UInt8 (List BlockHeader) := fun payload offset => do
  let (count, offset) ← decodeVarint payload offset
  atMost "headers" count 2000 ((plain deserializeBlockHeader).times count) payload offset

end Codec

/-! ### Frames -/

open Codec

/-- `_ensure_fully_consumed`, behind the decoder of the payload. -/
def consume {α : Type} (command : String) (decode : Decoder SessionError UInt8 α)
    (payload : Bytes) : Except SessionError α := do
  let (value, offset) ← decode payload 0
  raiseIf (offset ≠ payload.length) (codecError s!"{command} payload contains trailing bytes.")
  return value

/-- `_decode_fixed_nonce`. -/
def decodeFixedNonce (command : String) (payload : Bytes) : Except SessionError ℕ := do
  raiseIf (payload.length ≠ 8) (codecError s!"{command} payload must be exactly eight bytes.")
  let (nonce, _) ← unpackField 8 s!"{command} nonce" payload 0
  return nonce

/-- `_decode_payload` on a known command. -/
def decodeKnownPayload (command : CommandName) (payload : Bytes) :
    Except SessionError MessageEnvelope :=
  match command with
  | .verack => .ok .verack
  | .getaddr => .ok .getaddr
  | .version => consume "version" decodeVersion payload
  | .ping => do return .ping (← decodeFixedNonce "ping" payload)
  | .pong => do return .pong (← decodeFixedNonce "pong" payload)
  | .inv => do return .inv (← consume "inv" decodeInventory payload)
  | .getdata => do return .getdata (← consume "getdata" decodeInventory payload)
  | .tx => do return .tx (← consume "tx" (plain deserializeTransaction) payload)
  | .block => do return .block (← consume "block" (plain deserializeBlock) payload)
  | .getheaders => consume "getheaders" (decodeHashLocator .getheaders) payload
  | .headers => do return .headers (← consume "headers" decodeHeaders payload)
  | .getblocks => consume "getblocks" (decodeHashLocator .getblocks) payload
  | .addr => do return .addr (← consume "addr" decodeAddresses payload)

/-- `_decode_payload`. -/
def decodePayload (command : PyStr) (payload : Bytes) : Except SessionError MessageEnvelope :=
  match CommandName.ofText? command with
  | some known => decodeKnownPayload known payload
  | none =>
    let name := String.ofList (command.map Char.ofNat)
    .error (codecError s!"Unsupported command: {name}")

/-- The error of `bytes.decode("ascii")`. -/
def notAscii : SessionError :=
  .other (.value "'ascii' codec can't decode byte: ordinal not in range(128)")

/-- `_decode_command`. -/
def decodeCommand (commandBytes : Bytes) : Except SessionError PyStr := do
  let command := commandBytes.rdropWhile (· = 0)
  raiseIf (command.any (0x80 ≤ ·)) notAscii
  raiseIf (command = []) (codecError "Frame command is empty.")
  return command.map UInt8.toNat

/-- `decode_message`. -/
def decodeMessage [Platform] (frame expectedMagic : Bytes) :
    Except SessionError MessageEnvelope := do
  raiseIf (frame.length < 24)
    (.p2p ⟨.malformedMessage, "Frame is shorter than the fixed header size."⟩)
  raiseIf (frame.take 4 ≠ expectedMagic) (.p2p ⟨.wrongNetworkMagic, "Unexpected network magic."⟩)
  let command ← decodeCommand ((frame.drop 4).take 12)
  let payloadLength := fromBytesLittle ((frame.drop 16).take 4)
  let checksum := (frame.drop 20).take 4
  let payload := frame.drop 24
  raiseIf (payload.length ≠ payloadLength)
    (.p2p ⟨.malformedMessage, "Frame payload length does not match header length."⟩)
  raiseIf ((doubleSha256 payload).take 4 ≠ checksum)
    (.p2p ⟨.checksum, "Frame checksum does not match payload."⟩)
  decodePayload command payload

/-! ### What the decoders read -/

variable {α : Type} {command : String} {format : Format UInt8 α} {x : Except SessionError α}
  {decode : Decoder PyError UInt8 α}

theorem reads_plain (h : Reads decode format) : Reads (plain decode) format where
  sound := by
    intro buffer offset a next hplain
    refine h.sound ?_
    unfold plain at hplain
    cases hdecode : decode buffer offset with
    | error e =>
      rw [hdecode] at hplain
      cases hplain
    | ok result =>
      rw [hdecode] at hplain
      rw [show result = (a, next) from Except.ok.inj hplain]
  complete := by
    intro buffer offset a word hword hformat
    rw [plain, h.complete hword hformat]
    rfl

theorem reads_unpackField {width : ℕ} (hpos : 0 < width) (ctx : String) :
    Reads (unpackField width ctx) (fieldFormat width) :=
  reads_unpackOr hpos _

theorem Codec.reads_decodeVarint : Reads Codec.decodeVarint varintFormat := reads_decodeVarintWith _

theorem Codec.reads_decodeString : Reads Codec.decodeString stringFormat :=
  reads_decodeStringWith (reads_decodeBytesWith Codec.reads_decodeVarint _) _

/-- One record of an `addr` payload. -/
def addressFormat : Format UInt8 PeerAddress :=
  (fieldFormat 4).seq fun timestamp => (fieldFormat 8).seq fun services =>
    stringFormat.seq fun host => (fieldFormat 2).seq fun port => .done {
      host := host
      port := port
      services := services
      timestamp := timestamp }

theorem decodeAddress_eq : decodeAddress = (unpackField 4 "addr timestamp").seq fun timestamp =>
      (unpackField 8 "addr services").seq fun services => Codec.decodeString.seq fun host =>
        (unpackField 2 "addr port").seq fun port => .done {
          host := host
          port := port
          services := services
          timestamp := timestamp } := rfl

private theorem reads_decodeAddress : Reads decodeAddress addressFormat := by
  rw [decodeAddress_eq]
  refine (reads_unpackField four_pos _).seq fun timestamp => ?_
  refine (reads_unpackField (show 0 < 8 by decide) _).seq fun services => ?_
  refine Codec.reads_decodeString.seq fun host => ?_
  exact (reads_unpackField Nat.two_pos _).seq fun port => Reads.done _

/-! ### Foreign errors -/

/-- A text field stands here, and its octets are no UTF-8. -/
def textFault (rest : Bytes) : Prop :=
  ∃ word raw, word <+: rest ∧ bytesFormat word raw ∧ ∀ text, utf8Encode? text ≠ some raw

/-- A sort of errors to which no `CodecError` belongs and everything that is no `P2PError`. The
codec raises errors of these two kinds only, so it raises one of the sort on the same frames for
every such sort. -/
structure Excludes (Bad : SessionError → Prop) : Prop where
  codec : ∀ {error : P2pError}, error.kind.isCodec → ¬ Bad (.p2p error)
  other : ∀ error, Bad (.other error)

theorem excludes_foreign : Excludes SessionError.Foreign := ⟨fun _ => id, fun _ => trivial⟩

/-- What is no `CodecError`. -/
def SessionError.Untyped : SessionError → Prop
  | .p2p error => ¬ error.kind.isCodec
  | .other _ => True

private theorem excludes_untyped :
    Excludes SessionError.Untyped := ⟨not_not_intro, fun _ => trivial⟩

section

variable {Bad : SessionError → Prop} (hbad : Excludes Bad)

include hbad

private theorem codecError_not_bad (message : String) : ¬ Bad (codecError message) := hbad.codec rfl

omit hbad in
private theorem typed_unpackOr (width : ℕ) {short : ℕ → ℕ → SessionError}
    (h : ∀ size offset, ¬ Bad (short size offset)) :
    Faults Bad (unpackOr width short) fun _ => False := by
  refine Faults.never fun {buffer offset e} he => ?_
  rcases bind_eq_error.mp he with he | ⟨⟨⟩, -, he⟩
  · obtain ⟨-, rfl⟩ := raiseIf_eq_error.mp he
    exact h _ _
  · cases he

private theorem typed_unpackField (width : ℕ) (ctx : String) :
    Faults Bad (unpackField width ctx) fun _ => False :=
  typed_unpackOr width fun _ _ => codecError_not_bad hbad _

private theorem typed_decodeVarint : Faults Bad Codec.decodeVarint fun _ => False := by
  have hshort : ∀ width, ¬ Bad (match width with
      | 0 => codecError "Unexpected end of payload while decoding varint."
      | width => codecError
        s!"Unexpected end of payload while decoding varint uint{8 * width}.") := by
    intro width
    cases width <;> exact codecError_not_bad hbad _
  refine Faults.seq_never ?_ fun marker => ?_
  · refine Faults.never fun {buffer offset e} he => ?_
    rcases bind_eq_error.mp he with he | ⟨_, -, he⟩
    · obtain ⟨-, rfl⟩ := orRaise_eq_error.mp he
      exact hshort 0
    · cases he
  · unfold varintTail
    split_ifs
    · exact Faults.done _
    · exact typed_unpackOr 2 fun _ _ => hshort 2
    · exact typed_unpackOr 4 fun _ _ => hshort 4
    · exact typed_unpackOr 8 fun _ _ => hshort 8

private theorem typed_decodeBytes : Faults Bad Codec.decodeBytes fun _ => False := by
  refine Faults.never fun {buffer offset e} he hforeign => ?_
  rcases bind_eq_error.mp he with he | ⟨⟨length, start⟩, -, he⟩
  · exact (typed_decodeVarint hbad buffer offset).mp ⟨e, he, hforeign⟩
  · rcases bind_eq_error.mp he with he | ⟨⟨⟩, -, he⟩
    · obtain ⟨-, rfl⟩ := raiseIf_eq_error.mp he
      exact codecError_not_bad hbad _ hforeign
    · cases he

private theorem faults_decodeString : Faults Bad Codec.decodeString textFault := by
  have hbytes : Reads Codec.decodeBytes bytesFormat :=
    reads_decodeBytesWith Codec.reads_decodeVarint _
  intro buffer offset
  constructor
  · rintro ⟨e, he, hforeign⟩
    rcases bind_eq_error.mp he with he | ⟨⟨raw, next⟩, hraw, he⟩
    · exact absurd ((typed_decodeBytes hbad buffer offset).mp ⟨e, he, hforeign⟩) not_false
    · obtain ⟨word, hword, -, hformat⟩ := hbytes.sound hraw
      refine ⟨word, raw, hword, hformat, fun text htext => ?_⟩
      rcases bind_eq_error.mp he with he | ⟨_, -, he⟩
      · rw [utf8Decode?_eq_some_iff.mpr htext] at he
        cases he
      · cases he
  · rintro ⟨word, raw, hword, hformat, hinvalid⟩
    refine ⟨.other invalidUtf8, ?_, hbad.other _⟩
    refine bind_eq_error.mpr (.inr ⟨_, hbytes.complete hword hformat, ?_⟩)
    refine bind_eq_error.mpr (.inl (orRaise_eq_error.mpr ⟨?_, rfl⟩))
    rw [Option.eq_none_iff_forall_ne_some]
    exact fun text htext => hinvalid text (utf8Decode?_eq_some_iff.mp htext)

private theorem typed_decodeHash : Faults Bad decodeHash fun _ => False := by
  refine Faults.never fun {buffer offset e} he => ?_
  rcases bind_eq_error.mp he with he | ⟨⟨⟩, -, he⟩
  · obtain ⟨-, rfl⟩ := raiseIf_eq_error.mp he
    exact codecError_not_bad hbad _
  · cases he

private theorem typed_atMost {decode : Decoder SessionError UInt8 α}
    (h : Faults Bad decode fun _ => False) (name : String) (count limit : ℕ) :
    Faults Bad (atMost name count limit decode) fun _ => False :=
  (Faults.guard h (codecError_not_bad hbad _)).congr fun _ => and_iff_right_of_imp False.elim

omit hbad in
theorem decodeInventoryItem_eq : decodeInventoryItem =
    (unpackField 4 "inventory type").seq fun code => decodeHash.seq fun objectHash _ offset => do
      let objectType ← orRaise (inventoryType? code)
        (codecError s!"Unknown inventory type code: {code}")
      return ({ objectType := objectType, objectHash := objectHash }, offset) := rfl

omit hbad in
theorem decodeInventory_eq : decodeInventory =
    Codec.decodeVarint.seq fun count =>
      atMost "inventory" count 500 (decodeInventoryItem.times count) := rfl

private theorem typed_decodeInventory : Faults Bad decodeInventory fun _ => False := by
  have hitem : Faults Bad decodeInventoryItem fun _ => False := by
    rw [decodeInventoryItem_eq]
    refine Faults.seq_never (typed_unpackField hbad 4 _) fun code =>
      Faults.seq_never (typed_decodeHash hbad) fun objectHash => ?_
    refine Faults.never fun {buffer offset e} he => ?_
    rcases bind_eq_error.mp he with he | ⟨_, -, he⟩
    · obtain ⟨-, rfl⟩ := orRaise_eq_error.mp he
      exact codecError_not_bad hbad _
    · cases he
  rw [decodeInventory_eq]
  exact Faults.seq_never (typed_decodeVarint hbad) fun count =>
    typed_atMost hbad (hitem.times_never count) _ _ _

omit hbad in
theorem decodeHashLocator_eq (message : ℕ → List PyStr → PyStr → MessageEnvelope) :
    decodeHashLocator message =
      (unpackField 4 "locator protocol version").seq fun protocolVersion =>
        Codec.decodeVarint.seq fun count =>
          (atMost "locator" count 64 (decodeHash.times count)).seq fun locatorHashes =>
            decodeHash.seq fun stopHash =>
              .done (message protocolVersion locatorHashes stopHash) := rfl

private theorem typed_decodeHashLocator (message : ℕ → List PyStr → PyStr → MessageEnvelope) :
    Faults Bad (decodeHashLocator message) fun _ => False := by
  rw [decodeHashLocator_eq]
  refine Faults.seq_never (typed_unpackField hbad 4 _) fun protocolVersion => ?_
  refine Faults.seq_never (typed_decodeVarint hbad) fun count => ?_
  refine Faults.seq_never (typed_atMost hbad ((typed_decodeHash hbad).times_never count) _ _ _)
    fun locatorHashes => ?_
  exact Faults.seq_never (typed_decodeHash hbad) fun stopHash => Faults.done _

/-- A text of a `version` payload that is reached and is no UTF-8. -/
def versionFault : Bytes → Prop :=
  (fieldFormat 4).andThen fun _ rest => textFault rest ∨
    stringFormat.andThen (fun _ rest => textFault rest ∨
      stringFormat.andThen (fun _ => (fieldFormat 4).andThen fun _ => textFault) rest) rest

omit hbad in
theorem decodeVersion_eq : decodeVersion =
    (unpackField 4 "version protocol version").seq fun protocolVersion =>
      Codec.decodeString.seq fun network => Codec.decodeString.seq fun nodeId =>
        (unpackField 4 "version start height").seq fun startHeight =>
          Codec.decodeString.seq fun userAgent =>
            (unpackField 1 "version relay flag").seq fun relay => .done (.version {
              protocolVersion := protocolVersion
              network := network
              nodeId := nodeId
              startHeight := startHeight
              userAgent := userAgent
              relay := relay ≠ 0 }) := rfl

theorem faults_decodeVersion : Faults Bad decodeVersion versionFault := by
  rw [decodeVersion_eq]
  refine Faults.behind (reads_unpackField four_pos _) (typed_unpackField hbad 4 _)
    fun protocolVersion => ?_
  refine Faults.seq Codec.reads_decodeString (faults_decodeString hbad) fun network => ?_
  refine Faults.seq Codec.reads_decodeString (faults_decodeString hbad) fun nodeId => ?_
  refine Faults.behind (reads_unpackField four_pos _) (typed_unpackField hbad 4 _) fun
    startHeight => ?_
  refine Faults.before Codec.reads_decodeString (faults_decodeString hbad) fun userAgent => ?_
  exact Faults.seq_never (typed_unpackField hbad 1 _) fun relay => Faults.done _

/-- The host of an `addr` record is reached and is no UTF-8. -/
def addressFault : Bytes → Prop :=
  (fieldFormat 4).andThen fun _ => (fieldFormat 8).andThen fun _ => textFault

/-- One of the records of an `addr` payload has a host that is no UTF-8. -/
def addressesFault : Bytes → Prop :=
  varintFormat.andThen fun count rest =>
    count ≤ 1000 ∧ addressFormat.faultAmong addressFault count rest

theorem faults_decodeAddress : Faults Bad decodeAddress addressFault := by
  rw [decodeAddress_eq]
  refine Faults.behind (reads_unpackField four_pos _) (typed_unpackField hbad 4 _) fun
    timestamp => ?_
  refine Faults.behind (reads_unpackField (show 0 < 8 by decide) _) (typed_unpackField hbad 8 _)
    fun services => ?_
  refine Faults.before Codec.reads_decodeString (faults_decodeString hbad) fun host => ?_
  exact Faults.seq_never (typed_unpackField hbad 2 _) fun port => Faults.done _

omit hbad in
theorem decodeAddresses_eq : decodeAddresses =
    Codec.decodeVarint.seq fun count => atMost "addr" count 1000 (decodeAddress.times count) := rfl

theorem faults_decodeAddresses : Faults Bad decodeAddresses addressesFault := by
  rw [decodeAddresses_eq]
  refine Faults.behind Codec.reads_decodeVarint (typed_decodeVarint hbad) fun count => ?_
  have haddresses := (faults_decodeAddress hbad).times reads_decodeAddress count
  refine (Faults.guard haddresses (codecError_not_bad hbad _)).congr fun rest => ?_
  rw [not_lt]

/-- No word of the format stands here. -/
def absent {α : Type} (format : Format UInt8 α) (rest : Bytes) : Prop :=
  ¬ ∃ word a, word <+: rest ∧ format word a

/-- **A consensus decoder raises foreign errors only**, so it does wherever it does not read. -/
theorem faults_plain (h : Reads decode format) : Faults Bad (plain decode) (absent format) := by
  intro buffer offset
  constructor
  · rintro ⟨e, he, -⟩ ⟨word, a, hword, hformat⟩
    rw [(reads_plain h).complete hword hformat] at he
    cases he
  · intro habsent
    unfold plain
    rcases hdecode : decode buffer offset with e | ⟨a, next⟩
    · exact ⟨.other e, rfl, hbad.other e⟩
    · obtain ⟨word, hword, -, hformat⟩ := h.sound hdecode
      exact absurd ⟨word, a, hword, hformat⟩ habsent

/-- A `headers` payload that counts more headers than its octets can hold. -/
def headersFault : Bytes → Prop :=
  varintFormat.andThen fun count rest => count ≤ 2000 ∧ rest.length < 80 * count

omit hbad in
/-- So many headers stand in a row exactly in so many times eighty octets. -/
theorem headers_faultAmong (count : ℕ) (rest : Bytes) :
    headerFormat.faultAmong (absent headerFormat) count rest ↔ rest.length < 80 * count := by
  -- Any eighty octets are a header.
  have hhere : ∀ octets : Bytes, absent headerFormat octets ↔ octets.length < 80 := by
    intro octets
    unfold absent
    rw [← not_le, not_iff_not]
    constructor
    · rintro ⟨word, header, hword, hformat⟩
      rw [← ((headerFormat_iff word header).mp hformat).1]
      exact hword.length_le
    · intro hle
      refine ⟨octets.take 80, headerOf (octets.take 80), take_prefix _ _, ?_⟩
      rw [headerFormat_iff, length_take]
      exact ⟨Nat.min_eq_left hle, rfl⟩
  induction count generalizing rest with
  | zero => simp [Format.faultAmong]
  | succ count ih =>
    rw [Format.faultAmong, hhere]
    constructor
    · rintro (hshort | ⟨word, header, hword, hformat, hlater⟩)
      · omega
      · have hlength := ((headerFormat_iff word header).mp hformat).1
        have hlater := (ih _).mp hlater
        rw [hlength, length_drop] at hlater
        omega
    · intro hshort
      rcases Nat.lt_or_ge rest.length 80 with hlt | hle
      · exact .inl hlt
      · refine .inr ⟨rest.take 80, headerOf (rest.take 80), take_prefix _ _, ?_, ?_⟩
        · rw [headerFormat_iff, length_take]
          exact ⟨Nat.min_eq_left hle, rfl⟩
        · refine (ih _).mpr ?_
          rw [length_take, Nat.min_eq_left hle, length_drop]
          omega

omit hbad in
theorem decodeHeaders_eq : decodeHeaders =
    Codec.decodeVarint.seq fun count =>
      atMost "headers" count 2000 ((plain deserializeBlockHeader).times count) := rfl

theorem faults_decodeHeaders : Faults Bad decodeHeaders headersFault := by
  rw [decodeHeaders_eq]
  refine Faults.behind Codec.reads_decodeVarint (typed_decodeVarint hbad) fun count => ?_
  have hheaders := (faults_plain hbad reads_deserializeBlockHeader).times
    (reads_plain reads_deserializeBlockHeader) count
  refine (Faults.guard hheaders (codecError_not_bad hbad _)).congr fun rest => ?_
  rw [not_lt, headers_faultAmong]

/-! ### Frames that raise foreign errors -/

/-- **The payloads that raise a foreign error**, by the command. -/
def PayloadFault (payload : Bytes) : CommandName → Prop
  | .version => versionFault payload
  | .addr => addressesFault payload
  | .headers => headersFault payload
  | .tx => absent transactionFormat payload
  | .block => absent blockFormat payload
  | _ => False

private theorem consume_bad {decode : Decoder SessionError UInt8 α} {fault : Bytes → Prop}
    (h : Faults Bad decode fault) (payload : Bytes) :
    (∃ e, consume command decode payload = .error e ∧ Bad e) ↔ fault payload := by
  have hstart := h payload 0
  rw [drop_zero] at hstart
  rw [← hstart]
  constructor
  · rintro ⟨e, he, hforeign⟩
    rcases bind_eq_error.mp he with he | ⟨⟨a, next⟩, -, he⟩
    · exact ⟨e, he, hforeign⟩
    · rcases bind_eq_error.mp he with he | ⟨⟨⟩, -, he⟩
      · obtain ⟨-, rfl⟩ := raiseIf_eq_error.mp he
        exact absurd hforeign (codecError_not_bad hbad _)
      · cases he
  · rintro ⟨e, he, hforeign⟩
    exact ⟨e, bind_eq_error.mpr (.inl he), hforeign⟩

private theorem decodeFixedNonce_typed {payload : Bytes} {e : SessionError}
    (h : decodeFixedNonce command payload = .error e) : ¬ Bad e := by
  intro hforeign
  rcases bind_eq_error.mp h with h | ⟨⟨⟩, -, h⟩
  · obtain ⟨-, rfl⟩ := raiseIf_eq_error.mp h
    exact codecError_not_bad hbad _ hforeign
  · rcases bind_eq_error.mp h with h | ⟨_, -, h⟩
    · exact (typed_unpackField hbad 8 _ payload 0).mp ⟨e, h, hforeign⟩
    · cases h

omit hbad in
private theorem map_bad {β : Type} {f : α → β} :
    (∃ e, (do return f (← x)) = (.error e : Except SessionError β) ∧ Bad e) ↔
      ∃ e, x = .error e ∧ Bad e := by
  cases x with
  | error e => simp
  | ok a => simp

private theorem decodeKnownPayload_bad_iff (command : CommandName) (payload : Bytes) :
    (∃ e, decodeKnownPayload command payload = .error e ∧ Bad e) ↔
      PayloadFault payload command := by
  have hnonce : ∀ name : String,
      ¬ ∃ e, decodeFixedNonce name payload = .error e ∧ Bad e := by
    rintro name ⟨e, he, hforeign⟩
    exact decodeFixedNonce_typed hbad he hforeign
  cases command with
  | version => exact consume_bad hbad (faults_decodeVersion hbad) payload
  | verack => exact iff_of_false (by simp [decodeKnownPayload]) id
  | ping => exact iff_of_false (fun h => hnonce _ (map_bad.mp h)) id
  | pong => exact iff_of_false (fun h => hnonce _ (map_bad.mp h)) id
  | getaddr => exact iff_of_false (by simp [decodeKnownPayload]) id
  | addr => exact map_bad.trans (consume_bad hbad (faults_decodeAddresses hbad) payload)
  | inv => exact map_bad.trans (consume_bad hbad (typed_decodeInventory hbad) payload)
  | getdata => exact map_bad.trans (consume_bad hbad (typed_decodeInventory hbad) payload)
  | tx =>
    exact map_bad.trans (consume_bad hbad (faults_plain hbad reads_deserializeTransaction) payload)
  | block =>
    exact map_bad.trans (consume_bad hbad (faults_plain hbad reads_deserializeBlock) payload)
  | getheaders => exact consume_bad hbad (typed_decodeHashLocator hbad _) payload
  | headers => exact map_bad.trans (consume_bad hbad (faults_decodeHeaders hbad) payload)
  | getblocks => exact consume_bad hbad (typed_decodeHashLocator hbad _) payload

/-- The octets of the command in a frame, without the padding. -/
def commandOctets (frame : Bytes) : Bytes := ((frame.drop 4).take 12).rdropWhile (· = 0)

/-- The length and the checksum in the header of a frame are those of its payload. -/
def Sealed [Platform] (frame : Bytes) : Prop :=
  (frame.drop 24).length = fromBytesLittle ((frame.drop 16).take 4) ∧
    (doubleSha256 (frame.drop 24)).take 4 = (frame.drop 20).take 4

/-- **The frames that raise a foreign error**: they get past the magic, and their command has an
octet that is not ASCII, or they get past the checksum and their payload is at fault. -/
def FrameFault [Platform] (expectedMagic frame : Bytes) : Prop :=
  24 ≤ frame.length ∧ frame.take 4 = expectedMagic ∧
    ((∃ octet ∈ commandOctets frame, 0x80 ≤ octet) ∨
      Sealed frame ∧ ∃ command,
        CommandName.ofText? ((commandOctets frame).map UInt8.toNat) = some command ∧
          PayloadFault (frame.drop 24) command)

/-- A check with a `CodecError` lets through the errors behind it. -/
theorem raiseIf_bind_bad {c : Prop} [Decidable c] {error : P2pError} (hcodec : error.kind.isCodec) :
    (∃ e, (raiseIf c (.p2p error) >>= fun _ => x) = .error e ∧ Bad e) ↔
      ¬ c ∧ ∃ e, x = .error e ∧ Bad e := by
  by_cases hc : c
  · simpa [raiseIf, hc] using hbad.codec hcodec
  · simp [raiseIf, hc]

omit hbad in
/-- A command without octets is unknown. -/
theorem CommandName.ofText?_nil : CommandName.ofText? [] = none := by decide

private theorem decodePayload_bad_iff (command : PyStr) (payload : Bytes) :
    (∃ e, decodePayload command payload = .error e ∧ Bad e) ↔
      ∃ known, CommandName.ofText? command = some known ∧ PayloadFault payload known := by
  unfold decodePayload
  cases CommandName.ofText? command with
  | none => simpa using codecError_not_bad hbad _
  | some known => simpa using decodeKnownPayload_bad_iff hbad known payload

theorem decodeMessage_bad_iff [Platform] (frame expectedMagic : Bytes) :
    (∃ e, decodeMessage frame expectedMagic = .error e ∧ Bad e) ↔
      FrameFault expectedMagic frame := by
  unfold decodeMessage FrameFault
  rw [raiseIf_bind_bad hbad rfl, raiseIf_bind_bad hbad rfl, not_lt, not_not]
  refine and_congr_right fun _ => and_congr_right fun _ => ?_
  -- The command is decoded before the length and the checksum are looked at.
  have hascii : (commandOctets frame).any (0x80 ≤ ·) ↔
      ∃ octet ∈ commandOctets frame, 0x80 ≤ octet := by
    simp [any_eq_true]
  rw [← hascii]
  by_cases hhigh : (commandOctets frame).any (0x80 ≤ ·)
  · refine iff_of_true ⟨notAscii, ?_, hbad.other _⟩ (.inl hhigh)
    refine bind_eq_error.mpr (.inl (bind_eq_error.mpr (.inl ?_)))
    exact raiseIf_eq_error.mpr ⟨hhigh, rfl⟩
  · rw [or_iff_right hhigh]
    by_cases hempty : commandOctets frame = []
    · have hcommand : decodeCommand ((frame.drop 4).take 12) =
          .error (codecError "Frame command is empty.") := by
        refine bind_eq_error.mpr (.inr ⟨(), raiseIf_eq_ok.mpr hhigh, ?_⟩)
        exact bind_eq_error.mpr (.inl (raiseIf_eq_error.mpr ⟨hempty, rfl⟩))
      rw [hcommand, hempty, map_nil, CommandName.ofText?_nil]
      simpa using codecError_not_bad hbad _
    · have hcommand : decodeCommand ((frame.drop 4).take 12) =
          .ok ((commandOctets frame).map UInt8.toNat) := by
        refine bind_eq_ok.mpr ⟨(), raiseIf_eq_ok.mpr hhigh, ?_⟩
        exact bind_eq_ok.mpr ⟨(), raiseIf_eq_ok.mpr hempty, rfl⟩
      rw [hcommand, ok_bind, raiseIf_bind_bad hbad rfl, raiseIf_bind_bad hbad rfl, not_not,
        not_not, decodePayload_bad_iff hbad, ← and_assoc]
      rfl

end

/-- **What becomes of a frame**: it is decoded, or a `CodecError` says why not, or it is one of the
frames at fault and the error is no `P2PError`. -/
theorem decodeMessage_cases [Platform] (frame expectedMagic : Bytes) :
    (∃ message, decodeMessage frame expectedMagic = .ok message ∧
      ¬ FrameFault expectedMagic frame) ∨
    (∃ error : P2pError, decodeMessage frame expectedMagic = .error (.p2p error) ∧
      error.kind.isCodec ∧ ¬ FrameFault expectedMagic frame) ∨
    ∃ error, decodeMessage frame expectedMagic = .error (.other error) ∧
      FrameFault expectedMagic frame := by
  have hforeign := decodeMessage_bad_iff excludes_foreign frame expectedMagic
  have huntyped := decodeMessage_bad_iff excludes_untyped frame expectedMagic
  rcases hdecode : decodeMessage frame expectedMagic with (error | error) | message
  · -- Both sorts of errors give the same frames, and a `P2PError` is in the first of them never.
    have hno : ¬ FrameFault expectedMagic frame := by
      rw [← hforeign]
      rintro ⟨e, he, hbad⟩
      rw [hdecode] at he
      cases he
      exact hbad
    refine .inr (.inl ⟨error, rfl, ?_, hno⟩)
    by_contra hkind
    exact hno (huntyped.mp ⟨_, hdecode, hkind⟩)
  · exact .inr (.inr ⟨error, rfl, hforeign.mp ⟨_, hdecode, trivial⟩⟩)
  · refine .inl ⟨message, rfl, ?_⟩
    rw [← hforeign]
    rintro ⟨e, he, -⟩
    rw [hdecode] at he
    cases he

end Chipcoin
