import Chipcoin.Node.Encoder
import Chipcoin.RoundTrip

/-!
# Round trip of peer messages

Each payload encoder writes a word that the payload decoder of the same command reads back
(`encodePayload_reads`), field by field along the sequence of reads. The frame around it has fixed
widths, so the decoder finds the fields where the encoder put them (`decodeMessage_frame`).

* `message_round_trip`: a message within the limits of the wire is decoded from its frame, and a
  frame for one magic is refused under every other one.
-/

namespace Chipcoin

open Checked Codec Decoding List

variable {message : MessageEnvelope} {α : Type}

/-! ### Messages within the limits of the wire -/

structure VersionMessage.WellFormed (payload : VersionMessage) : Prop where
  protocolVersion : payload.protocolVersion < 256 ^ 4
  network : IsText payload.network
  nodeId : IsText payload.nodeId
  startHeight : payload.startHeight < 256 ^ 4
  userAgent : IsText payload.userAgent

structure PeerAddress.WellFormed (address : PeerAddress) : Prop where
  timestamp : address.timestamp < 256 ^ 4
  services : address.services < 256 ^ 8
  host : IsText address.host
  port : address.port < 256 ^ 2

/-- A locator request: a version, at most 64 hashes, and the hash to stop at. -/
structure LocatorWellFormed (protocolVersion : ℕ) (locatorHashes : List PyStr) (stopHash : PyStr) :
    Prop where
  protocolVersion : protocolVersion < 256 ^ 4
  count : locatorHashes.length ≤ 64
  locatorHashes : ∀ locatorHash ∈ locatorHashes, IsHash locatorHash
  stopHash : IsHash stopHash

/-- The fields of a message are within the limits of the wire. -/
def MessageEnvelope.WellFormed : MessageEnvelope → Prop
  | .verack | .getaddr => True
  | .version payload => payload.WellFormed
  | .ping nonce | .pong nonce => nonce < 256 ^ 8
  | .inv items | .getdata items => items.length ≤ 500 ∧ ∀ item ∈ items, IsHash item.objectHash
  | .tx transaction => transaction.WellFormed
  | .block payload => payload.WellFormed
  | .getheaders protocolVersion locatorHashes stopHash
  | .getblocks protocolVersion locatorHashes stopHash =>
    LocatorWellFormed protocolVersion locatorHashes stopHash
  | .headers items => items.length ≤ 2000 ∧ ∀ header ∈ items, header.WellFormed
  | .addr addresses => addresses.length ≤ 1000 ∧ ∀ address ∈ addresses, address.WellFormed

/-! ### Fields -/

variable {a : α} {command length magic payload : Bytes} {text : PyStr} {items : List α}
  {decode : Decoder SessionError UInt8 α} {encode : α → Except SessionError Bytes}

private theorem foreign_ok {result : Except PyError α} (h : result = .ok a) :
    foreign result = .ok a := by
  rw [h]
  rfl

private theorem packField_reads {width value : ℕ} (hpos : 0 < width) (h : value < 256 ^ width)
    (context : String) : ∃ word, packField width value = .ok word ∧
      ReadsAt (unpackField width context) word value :=
  ⟨leBytes width value, foreign_ok (pack_natCast h),
    .of_reads (reads_unpackField hpos context) ⟨h, rfl⟩⟩

private theorem Codec.encodeVarint_reads {n : ℕ} (h : FitsLength n) :
    ∃ word, Codec.encodeVarint n = .ok word ∧ ReadsAt Codec.decodeVarint word n := by
  obtain ⟨word, hword, hformat⟩ := encodeVarint_writes h
  refine ⟨word, ?_, .of_reads Codec.reads_decodeVarint hformat⟩
  rw [Codec.encodeVarint, hword]
  rfl

private theorem Codec.encodeString_reads (h : IsText text) :
    ∃ word, Codec.encodeString text = .ok word ∧ ReadsAt Codec.decodeString word text := by
  obtain ⟨raw, hraw, hfits⟩ := h
  obtain ⟨count, hcount, hformat⟩ := encodeVarint_writes hfits
  refine ⟨count ++ raw, ?_, .of_reads Codec.reads_decodeString ⟨raw, hraw, count, hformat, rfl⟩⟩
  have hutf : utf8Encode text = .ok raw := orRaise_eq_ok.mpr hraw
  rw [Codec.encodeString, foreign_ok hutf, ok_bind, Codec.encodeBytes, Codec.encodeVarint, hcount]
  rfl

private theorem encodeHash_reads (h : IsHash text) :
    ∃ word, Codec.encodeHash text = .ok word ∧ ReadsAt decodeHash word text := by
  obtain ⟨raw, hraw, rfl⟩ := h
  refine ⟨raw, ?_, fun buffer offset hword => ?_⟩
  · have hdigits : fromHex (hex raw) = .ok raw := orRaise_eq_ok.mpr (fromHex?_hex raw)
    rw [Codec.encodeHash, foreign_ok hdigits, ok_bind]
    simp [raiseIf, hraw]
  · have hlength := hword.length_le
    rw [length_drop] at hlength
    have htake : (buffer.drop offset).take 32 = raw := by
      rw [← hraw]
      exact (List.prefix_iff_eq_take.mp hword).symm
    rw [decodeHash, raiseIf, if_neg (by omega), htake, hraw]
    rfl

/-! ### Lists -/

/-- The items of a list are read one after another. -/
theorem mapM_reads (h : ∀ item ∈ items, ∃ word, encode item = .ok word ∧ ReadsAt decode word item) :
    ∃ words, items.mapM encode = .ok words ∧
      ReadsAt (decode.times items.length) words.flatten items := by
  have hall : ∃ words, items.mapM encode = .ok words ∧
      List.Forall₂ (ReadsAt decode) words items := by
    induction items with
    | nil => exact ⟨[], rfl, .nil⟩
    | cons item rest ih =>
      obtain ⟨word, hword, hreads⟩ := h item mem_cons_self
      obtain ⟨words, hwords, hrest⟩ := ih (forall_mem_of_forall_mem_cons h)
      exact ⟨word :: words, mapM_cons_eq_ok.mpr ⟨word, words, hword, hwords, rfl⟩,
        .cons hreads hrest⟩
  obtain ⟨words, hwords, hreads⟩ := hall
  exact ⟨words, hwords, .times hreads⟩

/-- A list within its limit, behind its length. -/
theorem encodeCounted_reads (name : String) (limit : ℕ) (hlimit : limit < 256 ^ 8)
    (hcount : items.length ≤ limit)
    (h : ∀ item ∈ items, ∃ word, encode item = .ok word ∧ ReadsAt decode word item) :
    ∃ word, encodeCounted name limit encode items = .ok word ∧
      ReadsAt (Codec.decodeVarint.seq fun count => atMost name count limit (decode.times count))
        word items := by
  have hnot : ¬ items.length > limit := not_lt.mpr hcount
  obtain ⟨count, hcount', hreads⟩ := Codec.encodeVarint_reads (lt_of_le_of_lt hcount hlimit)
  obtain ⟨words, hwords, hitems⟩ := mapM_reads h
  refine ⟨count ++ words.flatten, ?_, hreads.seq (.guard hnot hitems)⟩
  rw [encodeCounted, ensureCountAtMost, raiseIf, if_neg hnot, ok_bind, hcount', ok_bind, hwords]
  rfl

/-! ### Payloads -/

private theorem encodeVersion_reads {payload : VersionMessage} (h : payload.WellFormed) :
    ∃ word, encodeVersion payload = .ok word ∧ ReadsAt decodeVersion word (.version payload) := by
  have hflag : (if payload.relay then 1 else 0) < 256 ^ 1 := by
    cases payload.relay <;> decide
  obtain ⟨w1, h1, r1⟩ := packField_reads four_pos h.protocolVersion "version protocol version"
  obtain ⟨w2, h2, r2⟩ := Codec.encodeString_reads h.network
  obtain ⟨w3, h3, r3⟩ := Codec.encodeString_reads h.nodeId
  obtain ⟨w4, h4, r4⟩ := packField_reads four_pos h.startHeight "version start height"
  obtain ⟨w5, h5, r5⟩ := Codec.encodeString_reads h.userAgent
  obtain ⟨w6, h6, r6⟩ := packField_reads Nat.one_pos hflag "version relay flag"
  refine ⟨w1 ++ (w2 ++ (w3 ++ (w4 ++ (w5 ++ w6)))), ?_, ?_⟩
  · rw [encodeVersion, h1, h2, h3, h4, h5, h6]
    rfl
  · -- The flag is written as zero or one, and read as "not zero".
    have hrelay : decide ((if payload.relay then 1 else 0) ≠ 0) = payload.relay := by
      cases payload.relay <;> rfl
    rw [decodeVersion_eq]
    refine r1.seq (r2.seq (r3.seq (r4.seq (r5.seq ?_))))
    have hlast := r6.last (f := fun relay => MessageEnvelope.version
      ⟨payload.protocolVersion, payload.network, payload.nodeId, payload.startHeight,
        payload.userAgent, decide (relay ≠ 0)⟩)
    rwa [hrelay] at hlast

private theorem encodeAddress_reads {address : PeerAddress} (h : address.WellFormed) :
    ∃ word, encodeAddress address = .ok word ∧ ReadsAt decodeAddress word address := by
  obtain ⟨w1, h1, r1⟩ := packField_reads four_pos h.timestamp "addr timestamp"
  obtain ⟨w2, h2, r2⟩ := packField_reads (show 0 < 8 by decide) h.services "addr services"
  obtain ⟨w3, h3, r3⟩ := Codec.encodeString_reads h.host
  obtain ⟨w4, h4, r4⟩ := packField_reads Nat.two_pos h.port "addr port"
  refine ⟨w1 ++ (w2 ++ (w3 ++ w4)), ?_, ?_⟩
  · rw [encodeAddress, h1, h2, h3, h4]
    rfl
  · rw [decodeAddress_eq]
    exact r1.seq (r2.seq (r3.seq r4.last))

private theorem encodeInventoryItem_reads {item : InventoryVector} (h : IsHash item.objectHash) :
    ∃ word, encodeInventoryItem item = .ok word ∧ ReadsAt decodeInventoryItem word item := by
  obtain ⟨objectType, objectHash⟩ := item
  have hcode : inventoryCode objectType < 256 ^ 4 := by cases objectType <;> decide
  have hknown : inventoryType? (inventoryCode objectType) = some objectType := by
    cases objectType <;> rfl
  obtain ⟨w1, h1, r1⟩ := packField_reads four_pos hcode "inventory type"
  obtain ⟨w2, h2, r2⟩ := encodeHash_reads h
  refine ⟨w1 ++ (w2 ++ []), ?_, ?_⟩
  · rw [encodeInventoryItem, h1, h2, append_nil]
    rfl
  · rw [decodeInventoryItem_eq]
    refine r1.seq (r2.seq fun buffer offset _ => ?_)
    rw [hknown]
    rfl

private theorem encodeInventory_reads {items : List InventoryVector} (hcount : items.length ≤ 500)
    (h : ∀ item ∈ items, IsHash item.objectHash) :
    ∃ word, encodeInventory items = .ok word ∧ ReadsAt decodeInventory word items := by
  rw [decodeInventory_eq]
  exact encodeCounted_reads "inventory" 500 (by decide) hcount fun item hitem =>
    encodeInventoryItem_reads (h item hitem)

private theorem encodeHashLocator_reads (message : ℕ → List PyStr → PyStr → MessageEnvelope)
    {protocolVersion : ℕ} {locatorHashes : List PyStr} {stopHash : PyStr}
    (h : LocatorWellFormed protocolVersion locatorHashes stopHash) :
    ∃ word, encodeHashLocator protocolVersion locatorHashes stopHash = .ok word ∧
      ReadsAt (decodeHashLocator message) word
        (message protocolVersion locatorHashes stopHash) := by
  have hnot : ¬ locatorHashes.length > 64 := not_lt.mpr h.count
  have hfits : FitsLength locatorHashes.length := lt_of_le_of_lt h.count
    (show 64 < 256 ^ 8 by decide)
  obtain ⟨w1, h1, r1⟩ := packField_reads four_pos h.protocolVersion "locator protocol version"
  obtain ⟨w2, h2, r2⟩ := Codec.encodeVarint_reads hfits
  obtain ⟨words, h3, r3⟩ := mapM_reads fun text htext => encodeHash_reads
    (h.locatorHashes text htext)
  obtain ⟨w4, h4, r4⟩ := encodeHash_reads h.stopHash
  refine ⟨w1 ++ (w2 ++ (words.flatten ++ w4)), ?_, ?_⟩
  · rw [encodeHashLocator, ensureCountAtMost, raiseIf, if_neg hnot, ok_bind, h1, h2, h3, h4]
    rfl
  · rw [decodeHashLocator_eq]
    exact r1.seq (r2.seq ((ReadsAt.guard hnot r3).seq r4.last))

/-- A consensus object in a message. -/
theorem foreign_reads {P : α → Prop} {encode : α → Except PyError Bytes}
    {decode : Decoder PyError UInt8 α} {format : Format UInt8 α} (hreads : Reads decode format)
    (hcodes : Codes P encode format) (ha : P a) :
    ∃ word, foreign (encode a) = .ok word ∧ ReadsAt (plain decode) word a := by
  obtain ⟨word, hword, hat⟩ := hcodes.readsAt (reads_plain hreads) ha
  exact ⟨word, foreign_ok hword, hat⟩

private theorem consume_whole (command : String) {word : Bytes} (h : ReadsAt decode word a) :
    consume command decode word = .ok a := by
  rw [consume, h.whole, ok_bind]
  simp [raiseIf]

private theorem decodeFixedNonce_pack (command : String) {nonce : ℕ} (h : nonce < 256 ^ 8) :
    ∃ word, packField 8 nonce = .ok word ∧ decodeFixedNonce command word = .ok nonce := by
  refine ⟨leBytes 8 nonce, foreign_ok (pack_natCast h), ?_⟩
  have hreads : ReadsAt (unpackField 8 s!"{command} nonce") (leBytes 8 nonce) nonce :=
    .of_reads (reads_unpackField (by decide) _) ⟨h, rfl⟩
  rw [decodeFixedNonce, length_leBytes, raiseIf, if_neg (by simp), ok_bind, hreads.whole]
  rfl

/-- **A payload is read back** by the decoder of its command. -/
theorem encodePayload_reads (h : message.WellFormed) :
    ∃ payload, encodePayload message = .ok payload ∧
      decodeKnownPayload message.command payload = .ok message := by
  cases message with
  | verack => exact ⟨[], rfl, rfl⟩
  | getaddr => exact ⟨[], rfl, rfl⟩
  -- Each decoder has to consume the whole payload; what is left over would be an error.
  | version payload =>
    obtain ⟨word, hword, hreads⟩ := encodeVersion_reads h
    exact ⟨word, hword, consume_whole "version" hreads⟩
  | ping nonce =>
    obtain ⟨word, hword, hreads⟩ := decodeFixedNonce_pack "ping" h
    exact ⟨word, hword, bind_eq_ok.mpr ⟨nonce, hreads, rfl⟩⟩
  | pong nonce =>
    obtain ⟨word, hword, hreads⟩ := decodeFixedNonce_pack "pong" h
    exact ⟨word, hword, bind_eq_ok.mpr ⟨nonce, hreads, rfl⟩⟩
  | inv items =>
    obtain ⟨word, hword, hreads⟩ := encodeInventory_reads h.1 h.2
    exact ⟨word, hword, bind_eq_ok.mpr ⟨items, consume_whole "inv" hreads, rfl⟩⟩
  | getdata items =>
    obtain ⟨word, hword, hreads⟩ := encodeInventory_reads h.1 h.2
    exact ⟨word, hword, bind_eq_ok.mpr ⟨items, consume_whole "getdata" hreads, rfl⟩⟩
  | tx transaction =>
    obtain ⟨word, hword, hreads⟩ :=
      foreign_reads reads_deserializeTransaction codes_serializeTransaction h
    exact ⟨word, hword, bind_eq_ok.mpr ⟨transaction, consume_whole "tx" hreads, rfl⟩⟩
  | block block =>
    obtain ⟨word, hword, hreads⟩ := foreign_reads reads_deserializeBlock codes_serializeBlock h
    exact ⟨word, hword, bind_eq_ok.mpr ⟨block, consume_whole "block" hreads, rfl⟩⟩
  | getheaders protocolVersion locatorHashes stopHash =>
    obtain ⟨word, hword, hreads⟩ := encodeHashLocator_reads .getheaders h
    exact ⟨word, hword, consume_whole "getheaders" hreads⟩
  | getblocks protocolVersion locatorHashes stopHash =>
    obtain ⟨word, hword, hreads⟩ := encodeHashLocator_reads .getblocks h
    exact ⟨word, hword, consume_whole "getblocks" hreads⟩
  | headers headers =>
    obtain ⟨word, hword, hreads⟩ := encodeCounted_reads "headers" 2000 (by decide) h.1
      fun header hheader =>
        foreign_reads reads_deserializeBlockHeader codes_serializeBlockHeader (h.2 header hheader)
    rw [← decodeHeaders_eq] at hreads
    exact ⟨word, hword, bind_eq_ok.mpr ⟨headers, consume_whole "headers" hreads, rfl⟩⟩
  | addr addresses =>
    obtain ⟨word, hword, hreads⟩ := encodeCounted_reads "addr" 1000 (by decide) h.1
      fun address haddress => encodeAddress_reads (h.2 address haddress)
    rw [← decodeAddresses_eq] at hreads
    exact ⟨word, hword, bind_eq_ok.mpr ⟨addresses, consume_whole "addr" hreads, rfl⟩⟩

/-! ### Frames -/

/-- The command field: twelve octets, from which the command is read back. -/
theorem encodeCommand_text (command : CommandName) :
    ∃ field, encodeCommand (str command.text) = .ok field ∧ field.length = 12 ∧
      decodeCommand field = .ok (str command.text) ∧
      CommandName.ofText? (str command.text) = some command := by
  cases command <;> exact ⟨_, rfl, rfl, by decide, by decide⟩

section

variable [Platform]

/-- **The fields of a frame are where the decoder looks for them.** -/
theorem decodeMessage_frame {checksum : Bytes} (hmagic : magic.length = 4)
    (hcommand : command.length = 12) (hlength : length.length = 4) (hchecksum : checksum.length = 4)
    (expectedMagic : Bytes) :
    decodeMessage (magic ++ (command ++ (length ++ (checksum ++ payload)))) expectedMagic = (do
      raiseIf (magic ≠ expectedMagic) (.p2p ⟨.wrongNetworkMagic, "Unexpected network magic."⟩)
      let command ← decodeCommand command
      raiseIf (payload.length ≠ fromBytesLittle length)
        (.p2p ⟨.malformedMessage, "Frame payload length does not match header length."⟩)
      raiseIf ((doubleSha256 payload).take 4 ≠ checksum)
        (.p2p ⟨.checksum, "Frame checksum does not match payload."⟩)
      decodePayload command payload) := by
  have hlong : ¬ (magic ++ (command ++ (length ++ (checksum ++ payload)))).length < 24 := by
    simp only [length_append]
    omega
  rw [decodeMessage, raiseIf, if_neg hlong, ok_bind]
  simp [drop_append, drop_eq_nil_of_le, hmagic, hcommand, hlength, hchecksum]

private theorem encodeMessage_eq_ok {frame : Bytes} :
    encodeMessage message magic = .ok frame ↔ magic.length = 4 ∧
      ∃ payload command length, encodePayload message = .ok payload ∧
        encodeCommand (str message.command.text) = .ok command ∧
        packField 4 payload.length = .ok length ∧
        frame = magic ++ (command ++ (length ++ ((doubleSha256 payload).take 4 ++ payload))) := by
  simp only [encodeMessage, bind_eq_ok, raiseIf_eq_ok, exists_and_left, exists_const, not_not,
    pure_eq_ok]
  refine and_congr_right fun _ => ⟨?_, ?_⟩
  · rintro ⟨payload, hpayload, command, hcommand, length, hlength, rfl⟩
    exact ⟨payload, hpayload, command, hcommand, length, hlength, rfl⟩
  · rintro ⟨payload, hpayload, command, hcommand, length, hlength, rfl⟩
    exact ⟨payload, hpayload, command, hcommand, length, hlength, rfl⟩

/-- The widths of the fields that the encoder writes. -/
theorem field_widths (hcommand : encodeCommand (str message.command.text) = .ok command)
    (hlength : packField 4 payload.length = .ok length) :
    command.length = 12 ∧ length.length = 4 ∧ ((doubleSha256 payload).take 4).length = 4 := by
  obtain ⟨field, hfield, hwidth, -⟩ := encodeCommand_text message.command
  obtain rfl := ok_unique hfield hcommand
  refine ⟨hwidth, ?_, ?_⟩
  · cases hpack : pack 4 (payload.length : Int) with
    | error error =>
      rw [packField, hpack] at hlength
      cases hlength
    | ok octets =>
      rw [packField, foreign_ok hpack] at hlength
      obtain rfl := Except.ok.inj hlength
      exact (fromBytesLittle_of_pack hpack).1
  · rw [length_take, length_doubleSha256]
    rfl

/-- **Round trip of peer messages.** A message within the limits of the wire whose payload has a
length that fits its field is decoded from its frame, and no frame is accepted under another magic
than the one it was encoded for. -/
theorem message_round_trip (magic : Bytes) :
    (magic.length = 4 → ∀ message : MessageEnvelope, message.WellFormed →
      (∀ payload, encodePayload message = .ok payload → payload.length < 256 ^ 4) →
      ∃ frame, encodeMessage message magic = .ok frame ∧
        decodeMessage frame magic = .ok message) ∧
      ∀ message frame expectedMagic, encodeMessage message magic = .ok frame →
        expectedMagic ≠ magic → decodeMessage frame expectedMagic =
          .error (.p2p ⟨.wrongNetworkMagic, "Unexpected network magic."⟩) := by
  refine ⟨fun hmagic message hmessage hfits => ?_, fun message frame expectedMagic hframe hne => ?_⟩
  · obtain ⟨payload, hpayload, hdecode⟩ := encodePayload_reads hmessage
    obtain ⟨command, hcommand, hwidth, htext, hknown⟩ := encodeCommand_text message.command
    have hlength := foreign_ok (pack_natCast (hfits payload hpayload))
    refine ⟨_, encodeMessage_eq_ok.mpr ⟨hmagic, payload, command, _, hpayload, hcommand, hlength,
      rfl⟩, ?_⟩
    obtain ⟨-, hwidth', hwidth''⟩ := field_widths hcommand hlength
    -- The length field gives back the length, so the cut is where the payload ends.
    have hvalue : fromBytesLittle (leBytes 4 payload.length) = payload.length :=
      (fromBytesLittle_eq_iff.mpr ⟨hfits payload hpayload, rfl⟩).2.symm
    rw [decodeMessage_frame hmagic hwidth hwidth' hwidth'', htext, hvalue]
    simp only [raiseIf, ne_eq, not_true_eq_false, if_false, ok_bind, decodePayload, hknown]
    exact hdecode
  · obtain ⟨hmagic, payload, command, length, -, hcommand, hlength, rfl⟩ :=
      encodeMessage_eq_ok.mp hframe
    obtain ⟨hwidth, hwidth', hwidth''⟩ := field_widths hcommand hlength
    -- The magic is compared before anything else is read.
    rw [decodeMessage_frame hmagic hwidth hwidth' hwidth'', raiseIf, if_pos (Ne.symm hne)]
    rfl

end

namespace SampleFrame

local instance platform : Platform := samplePlatform []

/-- A request with the locator of a chain of three blocks. -/
def locatorRequest : MessageEnvelope :=
  .getheaders 1 [hex (List.replicate 32 7), hex (List.replicate 32 5), hex (List.replicate 32 9)]
    (hex (List.replicate 32 0))

theorem message_round_trip_getheaders :
    ∃ frame, encodeMessage locatorRequest [1, 2, 3, 4] = .ok frame ∧
      decodeMessage frame [1, 2, 3, 4] = .ok locatorRequest := by
  refine (message_round_trip [1, 2, 3, 4]).1 rfl _ ⟨by decide, by decide, ?_, ?_⟩ ?_
  · intro text htext
    simp only [mem_cons, not_mem_nil, or_false] at htext
    rcases htext with rfl | rfl | rfl <;> exact ⟨_, length_replicate, rfl⟩
  · exact ⟨List.replicate 32 0, rfl, rfl⟩
  · intro payload hpayload
    have hencoded : ((encodePayload locatorRequest).toOption.getD []).length < 256 ^ 4 := by
      decide +kernel
    rwa [hpayload] at hencoded

end SampleFrame

end Chipcoin
