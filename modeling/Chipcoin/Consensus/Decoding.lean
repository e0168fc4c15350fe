import Chipcoin.Octets

/-!
# Decoding consensus objects

`deserialize_transaction`, `deserialize_block_header` and `deserialize_block`, and the wire formats
that they read. A format is a relation between octets and objects that mentions writers only: a
length may be written in any of its forms, metadata pairs may come in any order and repeat, the rest
is as the serialisers write it.

* `reads_decodeVarintWith`, `reads_decodeBytesWith`, `reads_decodeStringWith`: the fields.
* `reads_deserializeTransaction`, `reads_deserializeBlockHeader`, `reads_deserializeBlock`: each
  decoder succeeds exactly where a word of its format stands.
-/

namespace Chipcoin

open Checked Decoding List

variable {width : ℕ} {word : Bytes}

/-! ### Lengths, octets and texts

The consensus decoders and the message codec have these readers in common, up to the errors. -/

section

variable {ε : Type}

/-- One octet. -/
def byteOr (short : ε) : Decoder ε UInt8 UInt8 := fun buffer offset => do
  let octet ← orRaise buffer[offset]? short
  return (octet, offset + 1)

/-- The field that follows the first octet of a length. -/
def varintTail (truncated : ℕ → ε) (marker : UInt8) : Decoder ε UInt8 ℕ :=
  if marker.toNat < 0xFD then .done marker.toNat
  else if marker = 0xFD then unpackOr 2 fun _ _ => truncated 2
  else if marker = 0xFE then unpackOr 4 fun _ _ => truncated 4
  else unpackOr 8 fun _ _ => truncated 8

/-- `_decode_varint`, by the errors that it raises when the buffer ends before the first octet, or
before a field of some width. -/
def decodeVarintWith (truncated : ℕ → ε) : Decoder ε UInt8 ℕ := fun buffer offset => do
  let (marker, offset) ← byteOr (truncated 0) buffer offset
  varintTail truncated marker buffer offset

/-- `_decode_bytes`, by the decoder of the length and the error for a buffer that is too short. -/
def decodeBytesWith (varint : Decoder ε UInt8 ℕ) (short : ε) : Decoder ε UInt8 Bytes :=
  fun buffer offset => do
    let (length, offset) ← varint buffer offset
    raiseIf (buffer.length < offset + length) short
    return ((buffer.drop offset).take length, offset + length)

/-- `_decode_string`, by the decoder of the octets and the error for octets that are no UTF-8. -/
def decodeStringWith (bytes : Decoder ε UInt8 Bytes) (invalid : ε) : Decoder ε UInt8 PyStr :=
  fun buffer offset => do
    let (raw, offset) ← bytes buffer offset
    let text ← orRaise (utf8Decode? raw) invalid
    return (text, offset)

/-! ### Their formats -/

/-- A length, in one of four forms. -/
def varintFormat : Format UInt8 ℕ := fun word n =>
  (n < 0xFD ∧ word = [UInt8.ofNat n]) ∨ (n < 256 ^ 2 ∧ word = 0xFD :: leBytes 2 n) ∨
    (n < 256 ^ 4 ∧ word = 0xFE :: leBytes 4 n) ∨ (n < 256 ^ 8 ∧ word = 0xFF :: leBytes 8 n)

/-- Octets behind their number. -/
def bytesFormat : Format UInt8 Bytes := fun word raw =>
  ∃ count, varintFormat count raw.length ∧ word = count ++ raw

/-- A text in UTF-8, behind the number of its octets. -/
def stringFormat : Format UInt8 PyStr := fun word text =>
  ∃ raw, utf8Encode? text = some raw ∧ bytesFormat word raw

private theorem varintFormat_ne_nil {n : ℕ} (h : varintFormat word n) : word ≠ [] := by
  rcases h with ⟨-, rfl⟩ | ⟨-, rfl⟩ | ⟨-, rfl⟩ | ⟨-, rfl⟩ <;> exact cons_ne_nil _ _

private theorem reads_byteOr (short : ε) :
    Reads (byteOr short) fun word octet => word = [octet] := by
  refine @Reads.field _ _ _ _ _ 1 (fun word => word.headD 0) ?_ ?_ ?_ Nat.one_pos
  · intro word octet
    constructor
    · rintro rfl
      exact ⟨rfl, rfl⟩
    · rintro ⟨hlength, rfl⟩
      obtain ⟨octet, rfl⟩ := List.length_eq_one_iff.mp hlength
      rfl
  · intro buffer offset hle
    have hlt : offset < buffer.length := hle
    rw [byteOr, getElem?_eq_getElem hlt, drop_eq_getElem_cons hlt]
    rfl
  · intro buffer offset hlt
    refine ⟨short, ?_⟩
    rw [byteOr, getElem?_eq_none (by omega)]
    rfl

private theorem varintFormat_short {marker : UInt8} {n : ℕ} (h : marker.toNat < 0xFD) :
    varintFormat (marker :: word) n ↔ word = [] ∧ n = marker.toNat := by
  have hmark : ∀ {mark : UInt8} {tail : Bytes}, 0xFD ≤ mark.toNat →
      marker :: word ≠ mark :: tail := by
    intro mark tail hlarge hcon
    rw [← (List.cons.inj hcon).1] at hlarge
    omega
  constructor
  · rintro (⟨hn, hword⟩ | ⟨-, hword⟩ | ⟨-, hword⟩ | ⟨-, hword⟩)
    · obtain ⟨rfl, rfl⟩ := List.cons.inj hword
      rw [UInt8.toNat_ofNat']
      exact ⟨rfl, by omega⟩
    all_goals exact absurd hword (hmark (by decide))
  · rintro ⟨rfl, rfl⟩
    exact .inl ⟨h, by rw [UInt8.ofNat_toNat]⟩

/-- Behind one of the three marks stands a field of fixed width. -/
theorem varintFormat_wide (word : Bytes) (n : ℕ) :
    (varintFormat (0xFD :: word) n ↔ fieldFormat 2 word n) ∧
      (varintFormat (0xFE :: word) n ↔ fieldFormat 4 word n) ∧
      (varintFormat (0xFF :: word) n ↔ fieldFormat 8 word n) := by
  have hlong : ∀ {mark : UInt8}, 0xFD ≤ mark.toNat →
      ¬ (n < 0xFD ∧ mark :: word = [UInt8.ofNat n]) := by
    rintro mark hlarge ⟨hn, hword⟩
    rw [(List.cons.inj hword).1, UInt8.toNat_ofNat'] at hlarge
    omega
  refine ⟨?_, ?_, ?_⟩ <;>
    rw [varintFormat, or_iff_right (hlong (by decide))] <;>
    simp [fieldFormat]

private theorem reads_varintTail (truncated : ℕ → ε) (marker : UInt8) :
    Reads (varintTail truncated marker) fun word n => varintFormat (marker :: word) n := by
  unfold varintTail
  split_ifs with hshort h2 h4
  · exact (Reads.done marker.toNat).congr fun word n => (varintFormat_short hshort).symm
  · rw [h2]
    exact (reads_unpackOr Nat.two_pos _).congr fun word n => (varintFormat_wide word n).1.symm
  · rw [h4]
    exact (reads_unpackOr four_pos _).congr fun word n => (varintFormat_wide word n).2.1.symm
  · -- Above the short lengths there are three marks.
    have hlast : marker = 0xFF := by
      have hlt := marker.toNat_lt
      have hne2 : marker.toNat ≠ 0xFD := fun hcon => h2 (UInt8.toNat_inj.mp hcon)
      have hne4 : marker.toNat ≠ 0xFE := fun hcon => h4 (UInt8.toNat_inj.mp hcon)
      refine UInt8.toNat_inj.mp ?_
      show marker.toNat = 255
      omega
    rw [hlast]
    exact (reads_unpackOr (Nat.succ_pos 7) _).congr fun word n =>
      (varintFormat_wide word n).2.2.symm

theorem reads_decodeVarintWith (truncated : ℕ → ε) :
    Reads (decodeVarintWith truncated) varintFormat := by
  have hreads := (reads_byteOr (truncated 0)).seq (reads_varintTail truncated)
  refine hreads.congr fun word n => ?_
  constructor
  · rintro ⟨_, tail, marker, rfl, rfl, hformat⟩
    exact hformat
  · intro hformat
    obtain ⟨marker, tail, rfl⟩ := exists_cons_of_ne_nil (varintFormat_ne_nil hformat)
    exact ⟨[marker], tail, marker, rfl, rfl, hformat⟩

theorem reads_decodeBytesWith {varint : Decoder ε UInt8 ℕ} (hvarint : Reads varint varintFormat)
    (short : ε) : Reads (decodeBytesWith varint short) bytesFormat where
  sound := by
    intro buffer offset raw next h
    obtain ⟨⟨length, start⟩, hlength, h⟩ := bind_eq_ok.mp h
    obtain ⟨⟨⟩, hlong, h⟩ := bind_eq_ok.mp h
    obtain ⟨rfl, rfl⟩ := Prod.mk.inj (pure_eq_ok.mp h)
    obtain ⟨count, hcount, rfl, hformat⟩ := hvarint.sound hlength
    have hlong := raiseIf_eq_ok.mp hlong
    have hraw : ((buffer.drop (offset + count.length)).take length).length = length := by
      rw [length_take, length_drop]
      omega
    refine ⟨_, append_prefix_drop.mpr ⟨hcount, take_prefix length _⟩, ?_, count, ?_, rfl⟩
    · rw [length_append, hraw, Nat.add_assoc]
    · rw [hraw]
      exact hformat
  complete := by
    rintro buffer offset raw _ hword ⟨count, hformat, rfl⟩
    obtain ⟨hcount, hraw⟩ := append_prefix_drop.mp hword
    -- The length is not empty, so the octets start inside the buffer.
    have hpos := length_pos_of_ne_nil (varintFormat_ne_nil hformat)
    have hstart := hcount.length_le
    have hend := hraw.length_le
    rw [length_drop] at hstart hend
    refine bind_eq_ok.mpr ⟨_, hvarint.complete hcount hformat, ?_⟩
    refine bind_eq_ok.mpr ⟨(), raiseIf_eq_ok.mpr (by omega), ?_⟩
    rw [pure_eq_ok, ← List.prefix_iff_eq_take.mp hraw, length_append, Nat.add_assoc]

theorem reads_decodeStringWith {bytes : Decoder ε UInt8 Bytes} (hbytes : Reads bytes bytesFormat)
    (invalid : ε) : Reads (decodeStringWith bytes invalid) stringFormat where
  sound := by
    intro buffer offset text next h
    obtain ⟨⟨raw, behind⟩, hraw, h⟩ := bind_eq_ok.mp h
    obtain ⟨decoded, htext, h⟩ := bind_eq_ok.mp h
    obtain ⟨rfl, rfl⟩ := Prod.mk.inj (pure_eq_ok.mp h)
    obtain ⟨word, hword, hnext, hformat⟩ := hbytes.sound hraw
    exact ⟨word, hword, hnext, raw, utf8Decode?_eq_some_iff.mp (orRaise_eq_ok.mp htext), hformat⟩
  complete := by
    rintro buffer offset text word hword ⟨raw, htext, hformat⟩
    refine bind_eq_ok.mpr ⟨_, hbytes.complete hword hformat, ?_⟩
    refine bind_eq_ok.mpr ⟨text, orRaise_eq_ok.mpr (utf8Decode?_eq_some_iff.mpr htext), ?_⟩
    rfl

end

/-! ### The consensus decoders -/

/-- `_decode_varint` of the consensus module. -/
def decodeVarint : Decoder PyError UInt8 ℕ :=
  decodeVarintWith fun _ => .value "Unexpected end of payload while decoding varint."

/-- `_decode_bytes` of the consensus module. -/
def decodeBytes : Decoder PyError UInt8 Bytes :=
  decodeBytesWith decodeVarint (.value "Unexpected end of payload while decoding bytes.")

/-- The error of `bytes.decode("utf-8")`. -/
def invalidUtf8 : PyError := .value "'utf-8' codec can't decode bytes"

/-- `_decode_string` of the consensus module. -/
def decodeString : Decoder PyError UInt8 PyStr := decodeStringWith decodeBytes invalidUtf8

/-- One pair of the metadata. -/
def decodePair : Decoder PyError UInt8 (PyStr × PyStr) := fun buffer offset => do
  let (key, offset) ← decodeString buffer offset
  let (value, offset) ← decodeString buffer offset
  return ((key, value), offset)

/-- The dictionary of pairs that are assigned one after another. -/
def metadataOfPairs (pairs : List (PyStr × PyStr)) : Metadata :=
  pairs.foldl (fun metadata pair => metadata.insert pair.1 pair.2) ∅

/-- `_decode_metadata`. -/
def decodeMetadata : Decoder PyError UInt8 Metadata := fun buffer offset => do
  let (count, offset) ← decodeVarint buffer offset
  let (pairs, offset) ← decodePair.times count buffer offset
  return (metadataOfPairs pairs, offset)

/-- The outpoint of an input. The slice may fall short; the index behind it then raises. -/
def decodeOutPoint : Decoder PyError UInt8 OutPoint := fun payload offset => do
  let previousTxid := hex ((payload.drop offset).take 32)
  let (previousIndex, offset) ← unpackFrom 4 payload (offset + 32)
  return ({ txid := previousTxid, index := previousIndex }, offset)

/-- The scheme octet, which only transactions of version 2 and above carry. -/
def decodeSigScheme (version : ℕ) : Decoder PyError UInt8 ℕ :=
  if version ≥ 2 then fun payload offset => do
    let (octet, offset) ← byteOr
      (.value "Unexpected end of payload while decoding signature scheme id.") payload offset
    return (octet.toNat, offset)
  else .done 0

/-- One input of a transaction. -/
def deserializeInput (version : ℕ) : Decoder PyError UInt8 TxInput := fun payload offset => do
  let (previousOutput, offset) ← decodeOutPoint payload offset
  let (sigSchemeId, offset) ← decodeSigScheme version payload offset
  let (signature, offset) ← decodeBytes payload offset
  let (publicKey, offset) ← decodeBytes payload offset
  let (sequence, offset) ← unpackFrom 4 payload offset
  return ({
    previousOutput := previousOutput
    signature := signature
    publicKey := publicKey
    sequence := sequence
    sigSchemeId := sigSchemeId }, offset)

/-- One output of a transaction. -/
def deserializeOutput : Decoder PyError UInt8 TxOutput := fun payload offset => do
  let (value, offset) ← unpackFrom 8 payload offset
  let (recipient, offset) ← decodeString payload offset
  return ({ value := value, recipient := recipient }, offset)

/-- `deserialize_transaction`. -/
def deserializeTransaction : Decoder PyError UInt8 Transaction := fun payload offset => do
  let (version, offset) ← unpackFrom 4 payload offset
  let (inputCount, offset) ← decodeVarint payload offset
  let (inputs, offset) ← (deserializeInput version).times inputCount payload offset
  let (outputCount, offset) ← decodeVarint payload offset
  let (outputs, offset) ← deserializeOutput.times outputCount payload offset
  let (locktime, offset) ← unpackFrom 4 payload offset
  let (metadata, offset) ← decodeMetadata payload offset
  return ({
    version := version
    inputs := inputs
    outputs := outputs
    locktime := locktime
    metadata := metadata }, offset)

/-- `deserialize_block_header`. The slices may fall short; the nonce behind them then raises. -/
def deserializeBlockHeader : Decoder PyError UInt8 BlockHeader := fun payload offset => do
  let (version, _) ← unpackFrom 4 payload offset
  let previousBlockHash := hex ((payload.drop (offset + 4)).take 32)
  let merkleRoot := hex ((payload.drop (offset + 36)).take 32)
  let (timestamp, _) ← unpackFrom 4 payload (offset + 68)
  let (bits, _) ← unpackFrom 4 payload (offset + 72)
  let (nonce, _) ← unpackFrom 4 payload (offset + 76)
  return ({
    version := version
    previousBlockHash := previousBlockHash
    merkleRoot := merkleRoot
    timestamp := timestamp
    bits := bits
    nonce := nonce }, offset + 80)

/-- `deserialize_block`. -/
def deserializeBlock : Decoder PyError UInt8 Block := fun payload offset => do
  let (header, offset) ← deserializeBlockHeader payload offset
  let (transactionCount, offset) ← decodeVarint payload offset
  let (transactions, offset) ← deserializeTransaction.times transactionCount payload offset
  return ({ header := header, transactions := transactions }, offset)

/-! ### The formats of consensus objects -/

/-- An outpoint: the octets of its identifier and its index. -/
def outPointFormat : Format UInt8 OutPoint := fun word outpoint =>
  ∃ (raw : Bytes) (index : ℕ), raw.length = 32 ∧ index < 256 ^ 4 ∧
    word = raw ++ leBytes 4 index ∧ outpoint = { txid := hex raw, index := index }

/-- The scheme of an input: an octet from version 2 on, nothing before. -/
def schemeFormat (version : ℕ) : Format UInt8 ℕ := fun word scheme =>
  if version ≥ 2 then scheme < 256 ∧ word = [UInt8.ofNat scheme] else word = [] ∧ scheme = 0

def inputFormat (version : ℕ) : Format UInt8 TxInput :=
  outPointFormat.seq fun previousOutput => (schemeFormat version).seq fun sigSchemeId =>
    bytesFormat.seq fun signature => bytesFormat.seq fun publicKey =>
      (fieldFormat 4).seq fun sequence => .done {
        previousOutput := previousOutput
        signature := signature
        publicKey := publicKey
        sequence := sequence
        sigSchemeId := sigSchemeId }

def outputFormat : Format UInt8 TxOutput :=
  (fieldFormat 8).seq fun value => stringFormat.seq fun recipient => .done {
    value := value
    recipient := recipient }

def pairFormat : Format UInt8 (PyStr × PyStr) :=
  stringFormat.seq fun key => stringFormat.seq fun value => .done (key, value)

/-- A dictionary: any pairs that build it. -/
def metadataFormat : Format UInt8 Metadata :=
  varintFormat.seq fun count => (pairFormat.times count).seq fun pairs =>
    .done (metadataOfPairs pairs)

/-- **The wire format of a transaction.** -/
def transactionFormat : Format UInt8 Transaction :=
  (fieldFormat 4).seq fun version =>
    varintFormat.seq fun inputCount => ((inputFormat version).times inputCount).seq fun inputs =>
      varintFormat.seq fun outputCount => (outputFormat.times outputCount).seq fun outputs =>
        (fieldFormat 4).seq fun locktime => metadataFormat.seq fun metadata => .done {
          version := version
          inputs := inputs
          outputs := outputs
          locktime := locktime
          metadata := metadata }

/-- **The wire format of a header**: its serialisation, with hashes as `bytes.hex` writes them. -/
def headerFormat : Format UInt8 BlockHeader := fun word header =>
  Canonical header.previousBlockHash ∧ Canonical header.merkleRoot ∧
    serializeBlockHeader header = .ok word

/-- **The wire format of a block.** -/
def blockFormat : Format UInt8 Block :=
  headerFormat.seq fun header => varintFormat.seq fun count =>
    (transactionFormat.times count).seq fun transactions => .done {
      header := header
      transactions := transactions }

/-! ### Decoders and formats -/

private theorem reads_unpackFrom (hpos : 0 < width) :
    Reads (unpackFrom width) (fieldFormat width) :=
  reads_unpackOr hpos _

theorem reads_decodeVarint : Reads decodeVarint varintFormat := reads_decodeVarintWith _

theorem reads_decodeBytes : Reads decodeBytes bytesFormat :=
  reads_decodeBytesWith reads_decodeVarint _

theorem reads_decodeString : Reads decodeString stringFormat :=
  reads_decodeStringWith reads_decodeBytes _

private theorem reads_decodeMetadata : Reads decodeMetadata metadataFormat := by
  have hpair : Reads decodePair pairFormat :=
    reads_decodeString.seq fun key => reads_decodeString.seq fun value => Reads.done (key, value)
  exact reads_decodeVarint.seq fun count => (hpair.times count).seq fun pairs =>
    Reads.done (metadataOfPairs pairs)

private theorem reads_decodeOutPoint : Reads decodeOutPoint outPointFormat := by
  refine @Reads.field _ _ _ _ _ 36
    (fun word => { txid := hex (word.take 32), index := fromBytesLittle (word.drop 32) }) ?_ ?_ ?_
    (by decide)
  · -- The word: 32 octets of a hash and four of an index.
    intro word outpoint
    constructor
    · rintro ⟨raw, index, hraw, hindex, rfl, rfl⟩
      have hvalue := (fromBytesLittle_eq_iff.mpr ⟨hindex, rfl⟩).2
      refine ⟨by rw [length_append, hraw, length_leBytes], ?_⟩
      rw [← hraw, take_left, drop_left, ← hvalue]
    · rintro ⟨hlength, rfl⟩
      have hdrop : (word.drop 32).length = 4 := by rw [length_drop, hlength]
      obtain ⟨hlt, hfield⟩ := fromBytesLittle_eq_iff.mp ⟨hdrop, rfl⟩
      refine ⟨word.take 32, fromBytesLittle (word.drop 32), ?_, hlt, ?_, rfl⟩
      · rw [length_take, hlength]
        rfl
      · rw [← hfield, take_append_drop]
  · -- Enough octets: the source reads the two parts at their own offsets.
    intro buffer offset hle
    have htake : ((buffer.drop offset).take 36).take 32 = (buffer.drop offset).take 32 := by
      rw [take_take]
      rfl
    have hdrop : ((buffer.drop offset).take 36).drop 32 = (buffer.drop (offset + 32)).take 4 := by
      rw [drop_take, drop_drop]
    rw [htake, hdrop]
    simp only [decodeOutPoint, unpackFrom, unpackOr]
    rw [raiseIf, if_neg (by omega)]
    rfl
  · intro buffer offset hlt
    simp only [decodeOutPoint, unpackFrom, unpackOr]
    rw [raiseIf, if_pos (by omega)]
    exact ⟨_, rfl⟩

private theorem reads_decodeSigScheme (version : ℕ) :
    Reads (decodeSigScheme version) (schemeFormat version) := by
  unfold decodeSigScheme schemeFormat
  by_cases hversion : version ≥ 2
  · simp only [if_pos hversion]
    have hreads := (reads_byteOr (.value
      "Unexpected end of payload while decoding signature scheme id." : PyError)).seq
        fun octet => Reads.done octet.toNat
    refine Reads.congr hreads fun word scheme => ?_
    constructor
    · rintro ⟨_, _, octet, rfl, rfl, rfl, rfl⟩
      exact ⟨octet.toNat_lt, by rw [UInt8.ofNat_toNat, append_nil]⟩
    · rintro ⟨hlt, rfl⟩
      refine ⟨[UInt8.ofNat scheme], [], UInt8.ofNat scheme, rfl, rfl, rfl, ?_⟩
      rw [UInt8.toNat_ofNat', Nat.mod_eq_of_lt hlt]
  · simp only [if_neg hversion]
    exact Reads.done 0

private theorem reads_deserializeInput (version : ℕ) :
    Reads (deserializeInput version) (inputFormat version) :=
  reads_decodeOutPoint.seq fun previousOutput =>
    (reads_decodeSigScheme version).seq fun sigSchemeId =>
      reads_decodeBytes.seq fun signature => reads_decodeBytes.seq fun publicKey =>
        (reads_unpackFrom four_pos).seq fun sequence => Reads.done ({
          previousOutput := previousOutput
          signature := signature
          publicKey := publicKey
          sequence := sequence
          sigSchemeId := sigSchemeId } : TxInput)

private theorem reads_deserializeOutput : Reads deserializeOutput outputFormat :=
  (reads_unpackFrom (show 0 < 8 by decide)).seq fun value =>
    reads_decodeString.seq fun recipient => Reads.done ({
      value := value
      recipient := recipient } : TxOutput)

/-- **A transaction is decoded exactly where one stands.** -/
theorem reads_deserializeTransaction : Reads deserializeTransaction transactionFormat :=
  (reads_unpackFrom four_pos).seq fun version =>
    reads_decodeVarint.seq fun inputCount =>
      ((reads_deserializeInput version).times inputCount).seq fun inputs =>
        reads_decodeVarint.seq fun outputCount =>
          (reads_deserializeOutput.times outputCount).seq fun outputs =>
            (reads_unpackFrom four_pos).seq fun locktime =>
              reads_decodeMetadata.seq fun metadata => Reads.done ({
                version := version
                inputs := inputs
                outputs := outputs
                locktime := locktime
                metadata := metadata } : Transaction)

/-- A slice of the next octets is a slice of the buffer. -/
theorem slice_slice {buffer : Bytes} {offset start length : ℕ} (h : start + length ≤ width) :
    (((buffer.drop offset).take width).drop start).take length =
      (buffer.drop (offset + start)).take length := by
  rw [drop_take, take_take, drop_drop, Nat.min_eq_left (by omega)]

private theorem exists_split {a b : ℕ} (h : word.length = a + b) :
    ∃ u v, word = u ++ v ∧ u.length = a ∧ v.length = b := by
  refine ⟨word.take a, word.drop a, (take_append_drop a word).symm, ?_, ?_⟩
  · rw [length_take, h, Nat.min_eq_left (Nat.le_add_right a b)]
  · rw [length_drop, h, Nat.add_sub_cancel_left]

/-- The header that eighty octets hold. -/
def headerOf (word : Bytes) : BlockHeader where
  version := fromBytesLittle ((word.drop 0).take 4)
  previousBlockHash := hex ((word.drop 4).take 32)
  merkleRoot := hex ((word.drop 36).take 32)
  timestamp := fromBytesLittle ((word.drop 68).take 4)
  bits := fromBytesLittle ((word.drop 72).take 4)
  nonce := fromBytesLittle ((word.drop 76).take 4)

private theorem pack_fromBytesLittle {data : Bytes} (h : data.length = width) :
    pack width (fromBytesLittle data) = .ok data := by
  have hlt := fromBytesLittle_lt data
  rw [h] at hlt
  have hcast : ((fromBytesLittle data : ℕ) : Int) < 256 ^ width := by exact_mod_cast hlt
  rw [pack, raiseIf, if_neg (by omega), Int.toNat_natCast, ← h, leBytes_fromBytesLittle]
  rfl

theorem fromBytesLittle_of_pack {value : Int} {data : Bytes} (h : pack width value = .ok data) :
    data.length = width ∧ (fromBytesLittle data : Int) = value := by
  obtain ⟨hpos, hlt, rfl⟩ := pack_ok h
  obtain ⟨hlength, hvalue⟩ := fromBytesLittle_eq_iff.mpr ⟨hlt, rfl⟩
  exact ⟨hlength, by rw [← hvalue, Int.toNat_of_nonneg hpos]⟩

theorem of_encodeHash_hex {raw octets : Bytes} (h : encodeHash (hex raw) = .ok octets) :
    raw.length = 32 ∧ octets = raw := by
  obtain ⟨hraw, -, -⟩ := encodeHash_canonical h
  rw [fromHex?_hex] at hraw
  obtain rfl := Option.some.inj hraw
  simp only [encodeHash, bind_eq_ok, raiseIf_eq_ok, Unique.exists_iff, not_not, pure_eq_ok] at h
  obtain ⟨_, -, hlength, rfl⟩ := h
  exact ⟨hlength, rfl⟩

/-- The six fields of a header, cut out of its octets. -/
theorem headerFormat_iff (word : Bytes) (header : BlockHeader) :
    headerFormat word header ↔ word.length = 80 ∧ header = headerOf word := by
  -- On octets that are cut into fields both sides can be computed.
  have hfields : ∀ {v p r t b n : Bytes}, v.length = 4 → p.length = 32 → r.length = 32 →
      t.length = 4 → b.length = 4 → n.length = 4 →
      headerOf (v ++ (p ++ (r ++ (t ++ (b ++ n))))) = {
        version := fromBytesLittle v, previousBlockHash := hex p, merkleRoot := hex r,
        timestamp := fromBytesLittle t, bits := fromBytesLittle b,
          nonce := fromBytesLittle n } := by
    intro v p r t b n hv hp hr ht hb hn
    simp [headerOf, drop_append, drop_eq_nil_of_le, take_of_length_le, hv, hp, hr, ht, hb, hn]
  constructor
  · rintro ⟨⟨p, hp⟩, ⟨r, hr⟩, h⟩
    simp only [serializeBlockHeader, bind_eq_ok, pure_eq_ok] at h
    obtain ⟨v, hv, p', hp', r', hr', t, ht, b, hb, n, hn, rfl⟩ := h
    obtain ⟨hvlen, hv⟩ := fromBytesLittle_of_pack hv
    obtain ⟨htlen, ht⟩ := fromBytesLittle_of_pack ht
    obtain ⟨hblen, hb⟩ := fromBytesLittle_of_pack hb
    obtain ⟨hnlen, hn⟩ := fromBytesLittle_of_pack hn
    obtain ⟨hplen, rfl⟩ := of_encodeHash_hex (hp ▸ hp')
    obtain ⟨hrlen, rfl⟩ := of_encodeHash_hex (hr ▸ hr')
    simp only [append_assoc]
    rw [hfields hvlen hplen hrlen htlen hblen hnlen, hv, ht, hb, hn, ← hp, ← hr]
    refine ⟨?_, rfl⟩
    simp only [length_append, hvlen, hplen, hrlen, htlen, hblen, hnlen]
  · rintro ⟨hlength, rfl⟩
    obtain ⟨v, word, rfl, hv, hlength⟩ := @exists_split word 4 76 hlength
    obtain ⟨p, word, rfl, hp, hlength⟩ := @exists_split word 32 44 hlength
    obtain ⟨r, word, rfl, hr, hlength⟩ := @exists_split word 32 12 hlength
    obtain ⟨t, word, rfl, ht, hlength⟩ := @exists_split word 4 8 hlength
    obtain ⟨b, n, rfl, hb, hn⟩ := @exists_split word 4 4 hlength
    rw [hfields hv hp hr ht hb hn]
    refine ⟨⟨p, rfl⟩, ⟨r, rfl⟩, ?_⟩
    simp [serializeBlockHeader, pack_fromBytesLittle hv, encodeHash_hex hp, encodeHash_hex hr,
      pack_fromBytesLittle ht, pack_fromBytesLittle hb, pack_fromBytesLittle hn]

/-- **A header is decoded exactly where one stands.** -/
theorem reads_deserializeBlockHeader : Reads deserializeBlockHeader headerFormat := by
  refine Reads.field headerFormat_iff ?_ ?_ (show 0 < 80 by decide)
  · intro buffer offset hle
    have hfield : ∀ {start : ℕ}, start + 4 ≤ 80 → unpackFrom 4 buffer (offset + start) =
        .ok (fromBytesLittle ((buffer.drop (offset + start)).take 4), offset + start + 4) := by
      intro start hstart
      rw [unpackFrom, unpackOr, raiseIf, if_neg (by omega)]
      rfl
    simp only [headerOf, slice_slice (show 0 + 4 ≤ 80 by decide),
      slice_slice (show 4 + 32 ≤ 80 by decide), slice_slice (show 36 + 32 ≤ 80 by decide),
      slice_slice (show 68 + 4 ≤ 80 by decide), slice_slice (show 72 + 4 ≤ 80 by decide),
      slice_slice (show 76 + 4 ≤ 80 by decide)]
    have hversion := hfield (show 0 + 4 ≤ 80 by decide)
    rw [Nat.add_zero] at hversion
    rw [deserializeBlockHeader, hversion, hfield (show 68 + 4 ≤ 80 by decide),
      hfield (show 72 + 4 ≤ 80 by decide), hfield (show 76 + 4 ≤ 80 by decide)]
    rfl
  · intro buffer offset hlt
    -- If nothing raises before, reading the nonce does.
    rcases hresult : deserializeBlockHeader buffer offset with e | ⟨header, next⟩
    · exact ⟨e, rfl⟩
    · exfalso
      obtain ⟨_, -, h⟩ := bind_eq_ok.mp hresult
      obtain ⟨_, -, h⟩ := bind_eq_ok.mp h
      obtain ⟨_, -, h⟩ := bind_eq_ok.mp h
      obtain ⟨_, hnonce, -⟩ := bind_eq_ok.mp h
      obtain ⟨⟨⟩, hlong, -⟩ := bind_eq_ok.mp hnonce
      exact raiseIf_eq_ok.mp hlong (by omega)

/-- **A block is decoded exactly where one stands.** -/
theorem reads_deserializeBlock : Reads deserializeBlock blockFormat :=
  reads_deserializeBlockHeader.seq fun header => reads_decodeVarint.seq fun count =>
    (reads_deserializeTransaction.times count).seq fun txs => Reads.done ({
      header := header
      transactions := txs } : Block)

end Chipcoin
