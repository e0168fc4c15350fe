import Chipcoin.Wallet.Serialization
import Chipcoin.Lib.Ranking
import Chipcoin.Consensus.Validation

/-!
# Parity of the wallet's encoder and the node's

The two encoders write the same octets field by field; they disagree in one place. The node sorts
metadata by code points, the browser wallet by `localeCompare`, a collation. So a transaction with
the metadata keys `"Z"` and `"a"` has other octets in the wallet than on the node, hence another
identifier and another signature digest (`metadata_order_differs`).

`walletParity_iff` is exact for every collation that tells the metadata keys apart: both reject the
same transactions, and on the others the octets, the signing payloads, the identifier and the
digests agree exactly when the collation keeps the metadata keys in code-point order.
-/

namespace Chipcoin

variable {text : PyStr} {version : Int}

namespace BrowserWallet

open Checked Encoding List Sorting

/-! ### The transactions compared -/

/-- Lower-case hexadecimal text. -/
def LowerHex (text : PyStr) : Prop := ∀ c ∈ text, 48 ≤ c ∧ c ≤ 57 ∨ 97 ≤ c ∧ c ≤ 102

/-- The length of a JavaScript string or typed array. -/
def SafeLength (n : ℕ) : Prop := n < 2 ^ 53

private theorem safeLength_of_lt {n : ℕ} (h : n < 2 ^ 32) : SafeLength n := lt_trans h (by decide)

/-- The node's input for the wallet's. -/
def TxInputModel.toTxInput (input : TxInputModel) : TxInput where
  previousOutput := input.previousOutput
  signature := (fromHex? input.signatureHex).getD []
  publicKey := (fromHex? input.publicKeyHex).getD []
  sequence := input.sequence
  sigSchemeId := input.sigSchemeId.getD 0

/-- The dictionary with the entries of an object. -/
def toMetadata (entries : List (PyStr × PyStr)) : Metadata := Std.ExtTreeMap.ofList entries

/-- The node's transaction for the wallet's. -/
def TransactionModel.toTransaction (tx : TransactionModel) : Transaction where
  version := tx.version
  inputs := tx.inputs.map TxInputModel.toTxInput
  outputs := tx.outputs
  locktime := tx.locktime
  metadata := toMetadata tx.metadata

/-- Text without lone surrogates, of a length that JavaScript can represent. -/
structure WellFormedText (text : PyStr) : Prop where
  utf8 : HasUtf8 text
  length : SafeLength (textEncode text).length

/-- The fields of an input are in wire range; its scheme id is any integer. -/
structure TxInputModel.InRange (input : TxInputModel) : Prop where
  txid : LowerHex input.previousOutput.txid
  index : 0 ≤ input.previousOutput.index ∧ input.previousOutput.index < 2 ^ 32
  signature : ∃ octets, input.signatureHex = hex octets ∧ SafeLength octets.length
  publicKey : ∃ octets, input.publicKeyHex = hex octets ∧ SafeLength octets.length
  sequence : 0 ≤ input.sequence ∧ input.sequence < 2 ^ 32

/-- The fields of an output are in wire range. -/
structure OutputInRange (output : TxOutput) : Prop where
  value : 0 ≤ output.value ∧ output.value < 2 ^ 53
  recipient : WellFormedText output.recipient

/-- **Fields in wire range.** The metadata is any mapping of well-formed strings. -/
structure TransactionModel.InRange (tx : TransactionModel) : Prop where
  version : 0 ≤ tx.version ∧ tx.version < 2 ^ 32
  inputs : ∀ input ∈ tx.inputs, input.InRange
  outputs : ∀ output ∈ tx.outputs, OutputInRange output
  locktime : 0 ≤ tx.locktime ∧ tx.locktime < 2 ^ 32
  keys : (tx.metadata.map Prod.fst).Nodup
  texts : ∀ entry ∈ tx.metadata, WellFormedText entry.1 ∧ WellFormedText entry.2
  inputCount : tx.inputs.length < 2 ^ 32
  outputCount : tx.outputs.length < 2 ^ 32
  metadataCount : tx.metadata.length < 2 ^ 32

/-- What both encoders ask of an input: a hash of 32 octets, and a scheme id that the version
can carry. -/
def TxInputModel.Encodable (version : Int) (input : TxInputModel) : Prop :=
  input.previousOutput.txid.length = 64 ∧
    if version ≥ 2 then 0 ≤ input.sigSchemeId.getD 0 ∧ input.sigSchemeId.getD 0 ≤ 0xff
    else input.sigSchemeId.getD 0 = 0

/-- Every input can be encoded. -/
def TransactionModel.Encodable (tx : TransactionModel) : Prop :=
  ∀ input ∈ tx.inputs, input.Encodable tx.version

section

variable [Collation]

/-- The collation tells the metadata keys apart. -/
def TransactionModel.KeysApart (tx : TransactionModel) : Prop :=
  ∀ a ∈ tx.metadata, ∀ b ∈ tx.metadata,
    localeCompare a.1 b.1 = .eq → a.1 = b.1

/-- **The collation keeps the metadata keys in code-point order.** -/
def TransactionModel.KeysInOrder (tx : TransactionModel) : Prop :=
  ∀ a ∈ tx.metadata, ∀ b ∈ tx.metadata, compare a.1 b.1 = .lt →
    localeCompare a.1 b.1 = .lt

/-- What a signature of input `inputIndex` covers besides the transaction. -/
structure Spend where
  inputIndex : ℕ
  previousOutputValue : Int
  previousOutputRecipient : PyStr
  network : PyStr

/-- The fields of a spend are in wire range. The index need not be that of an input. -/
structure Spend.InRange (spend : Spend) : Prop where
  value : 0 ≤ spend.previousOutputValue ∧ spend.previousOutputValue < 2 ^ 53
  recipient : WellFormedText spend.previousOutputRecipient
  network : WellFormedText (str "chipcoin:tx-signature:v2:" ++ spend.network)

/-- **The encoders agree** on a transaction: the same octets and the same payload for each
signature, hence the same identifier and the same digests. Where one raises an error, so does the
other. -/
structure EncodedAlike [Platform] (tx : TransactionModel) : Prop where
  octets : (serializeTransaction tx).toOption =
    (Chipcoin.serializeTransaction tx.toTransaction).toOption
  payload : ∀ spend : Spend, spend.InRange →
    (serializeTransactionForSigning tx spend.inputIndex spend.previousOutputValue
      spend.previousOutputRecipient spend.network).toOption =
    (Chipcoin.serializeTransactionForSigning tx.toTransaction spend.inputIndex
      spend.previousOutputValue spend.previousOutputRecipient spend.network).toOption
  txid : (transactionId tx).toOption = tx.toTransaction.txid.toOption
  digest : ∀ spend : Spend, spend.InRange →
    (transactionSignatureDigest tx spend.inputIndex spend.previousOutputValue
      spend.previousOutputRecipient spend.network).toOption =
    (Chipcoin.transactionSignatureDigest tx.toTransaction spend.inputIndex
      ⟨spend.previousOutputValue, spend.previousOutputRecipient⟩ spend.network).toOption

/-- **The encoders reject alike**: each rejects exactly the transactions with an input that cannot
be encoded, and each refuses a payload for those and for an index without an input. -/
structure RejectedAlike (tx : TransactionModel) : Prop where
  wallet : (serializeTransaction tx).toOption = none ↔ ¬ tx.Encodable
  node : (Chipcoin.serializeTransaction tx.toTransaction).toOption = none ↔
    ¬ tx.Encodable
  walletPayload : ∀ spend : Spend, spend.InRange →
    ((serializeTransactionForSigning tx spend.inputIndex spend.previousOutputValue
      spend.previousOutputRecipient spend.network).toOption = none ↔
        ¬ (tx.Encodable ∧ spend.inputIndex < tx.inputs.length))
  nodePayload : ∀ spend : Spend, spend.InRange →
    ((Chipcoin.serializeTransactionForSigning tx.toTransaction spend.inputIndex
      spend.previousOutputValue spend.previousOutputRecipient spend.network).toOption = none ↔
        ¬ (tx.Encodable ∧ spend.inputIndex < tx.inputs.length))

end

/-! ### Fields -/

private theorem pack_uint32 {v : Int} (h : 0 ≤ v ∧ v < 2 ^ 32) :
    pack 4 v = .ok (encodeUint32 v) := by
  rw [pack_eq h.1 (by omega), encodeUint32, Int.emod_eq_of_lt h.1 h.2]

private theorem pack_uint64 {v : Int} (h : 0 ≤ v ∧ v < 2 ^ 53) :
    pack 8 v = .ok (encodeUint64 v) := by
  rw [pack_eq h.1 (by omega), encodeUint64, Int.emod_eq_of_lt h.1 (by omega)]

private theorem encodeVarint_eq {n : ℕ} (h : SafeLength n) :
    Chipcoin.encodeVarint n = .ok (encodeVarint n) := by
  unfold SafeLength at h
  have hwrap : ∀ m : ℕ, n < m → ((n : Int) % (m : Int)).toNat = n := fun m hm => by
    rw [Int.emod_eq_of_lt (by omega) (by omega), Int.toNat_natCast]
  unfold Chipcoin.encodeVarint encodeVarint encodeUint16 encodeUint32 encodeUint64
  split_ifs with h1 h2 h3 h4
  · rfl
  · exact congrArg (fun m => Except.ok (0xFD :: leBytes 2 m)) (hwrap (2 ^ 16) (by omega)).symm
  · exact congrArg (fun m => Except.ok (0xFE :: leBytes 4 m)) (hwrap (2 ^ 32) (by omega)).symm
  · exact congrArg (fun m => Except.ok (0xFF :: leBytes 8 m)) (hwrap (2 ^ 64) (by omega)).symm
  · omega

private theorem encodeBytes_eq {octets : Bytes} (h : SafeLength octets.length) :
    Chipcoin.encodeBytes octets = .ok (encodeBytes octets) := by
  unfold Chipcoin.encodeBytes
  rw [encodeVarint_eq h]
  rfl

private theorem textEncode_eq (h : HasUtf8 text) : utf8Encode? text = some (textEncode text) := by
  induction text with
  | nil => rfl
  | cons c rest ih =>
    obtain ⟨hc, hrest⟩ := hasUtf8_cons.mp h
    obtain ⟨first, hfirst⟩ := Option.isSome_iff_exists.mp hc
    have hsplit : textEncode (c :: rest) = first ++ textEncode rest := by
      rw [textEncode, flatMap_cons, hfirst]
      rfl
    rw [utf8Encode?, ih hrest, hfirst, hsplit]
    rfl

private theorem encodeString_eq (h : WellFormedText text) :
    Chipcoin.encodeString text = .ok (encodeString text) := by
  unfold Chipcoin.encodeString utf8Encode
  rw [textEncode_eq h.utf8]
  exact encodeBytes_eq h.length

/-! ### Hexadecimal text -/

private theorem not_isWhiteSpace {c : ℕ} (h : 48 ≤ c ∧ c ≤ 57 ∨ 97 ≤ c ∧ c ≤ 102) :
    isWhiteSpace c = false := by
  simp only [isWhiteSpace, Bool.or_eq_false_iff, Bool.and_eq_false_iff, decide_eq_false_iff_not,
    beq_eq_false_iff_ne]
  omega

private theorem dropWhile_lowerHex (h : LowerHex text) : text.dropWhile isWhiteSpace = text := by
  cases text with
  | nil => rfl
  | cons c rest =>
    rw [dropWhile_cons, not_isWhiteSpace (h c mem_cons_self)]
    rfl

private theorem trim_lowerHex (h : LowerHex text) : trim text = text := by
  unfold trim
  rw [dropWhile_lowerHex h, dropWhile_lowerHex fun c hc => h c (List.mem_reverse.mp hc),
    reverse_reverse]

private theorem hexValue_lower {c : ℕ} (h : 48 ≤ c ∧ c ≤ 57 ∨ 97 ≤ c ∧ c ≤ 102) :
    ∃ digit, hexValue c = some digit := by
  unfold hexValue
  split_ifs
  · exact ⟨_, rfl⟩
  · exact ⟨_, rfl⟩
  · exact ⟨_, rfl⟩
  · omega

/-- `bytes.fromhex` and `hexToBytes` read lower-case text alike. -/
theorem fromHex?_lowerHex (h : LowerHex text) :
    fromHex? text = if text.length % 2 ≠ 0 then none else some (parsePairs text) := by
  -- `bytes.fromhex` skips spaces, of which there are none.
  have hspace : ∀ c ∈ text, isAsciiSpace c = false := by
    intro c hc
    have hdigit := h c hc
    simp only [isAsciiSpace, Bool.or_eq_false_iff, beq_eq_false_iff_ne, Bool.and_eq_false_iff,
      decide_eq_false_iff_not]
    omega
  induction text using parsePairs.induct with
  | case1 first second rest ih =>
    obtain ⟨high, hhigh⟩ := hexValue_lower (h first mem_cons_self)
    obtain ⟨low, hlow⟩ := hexValue_lower (h second (mem_cons_of_mem _ mem_cons_self))
    have hrest := ih (fun c hc => h c (mem_cons_of_mem _ (mem_cons_of_mem _ hc)))
      fun c hc => hspace c (mem_cons_of_mem _ (mem_cons_of_mem _ hc))
    have hlength : (first :: second :: rest).length % 2 = rest.length % 2 := by
      rw [length_cons, length_cons]
      omega
    have hpair : parsePair first second = UInt8.ofNat (high * 16 + low) := by
      unfold parsePair
      rw [hhigh, hlow]
    rw [fromHex?, hspace first mem_cons_self, if_neg Bool.false_ne_true, hhigh, hlow, hrest,
      hlength, parsePairs, hpair]
    split_ifs <;> rfl
  -- Nothing is left, or a single digit that both refuse.
  | case2 text hshort =>
    cases text with
    | nil => rfl
    | cons c rest =>
      cases rest with
      | nil =>
        rw [fromHex?, hspace c mem_cons_self]
        rfl
      | cons d rest => exact absurd rfl (hshort c d rest)

private theorem hexToBytes_lowerHex (h : LowerHex text) {raw : Bytes} :
    hexToBytes text = .ok raw ↔ fromHex? text = some raw := by
  unfold hexToBytes
  rw [trim_lowerHex h, fromHex?_lowerHex h]
  dsimp only
  split_ifs
  · simp
  · rw [Except.ok.injEq, Option.some.injEq]

private theorem length_parsePairs (text : PyStr) : (parsePairs text).length = text.length / 2 := by
  induction text using parsePairs.induct with
  | case1 first second rest ih =>
    rw [parsePairs, length_cons, ih, length_cons, length_cons]
    omega
  | case2 text hshort =>
    cases text with
    | nil => rfl
    | cons c rest =>
      cases rest with
      | nil => simp [parsePairs]
      | cons d rest => exact absurd rfl (hshort c d rest)

/-- A hash is encoded exactly when it has 64 digits. -/
theorem encodeHash_lowerHex (h : LowerHex text) :
    (∃ raw, Chipcoin.encodeHash text = .ok raw) ↔ text.length = 64 := by
  simp only [Chipcoin.encodeHash, fromHex, bind_eq_ok, orRaise_eq_ok, raiseIf_eq_ok, pure_eq_ok,
    fromHex?_lowerHex h]
  constructor
  · rintro ⟨_, raw, hraw, -, hlength, -⟩
    split_ifs at hraw
    obtain rfl := Option.some.inj hraw
    rw [length_parsePairs] at hlength
    omega
  · intro hlength
    refine ⟨_, parsePairs text, if_neg (by omega), (), ?_, rfl⟩
    rw [length_parsePairs]
    omega

private theorem encodeHash_iff (h : LowerHex text) {raw : Bytes} :
    encodeHash text = .ok raw ↔ Chipcoin.encodeHash text = .ok raw := by
  simp only [encodeHash, Chipcoin.encodeHash, fromHex, bind_eq_ok, hexToBytes_lowerHex h,
    orRaise_eq_ok, raiseIf_eq_ok, pure_eq_ok]

private theorem lowerHex_hex (octets : Bytes) : LowerHex (hex octets) := by
  intro c hc
  obtain ⟨n, hn, rfl⟩ := exists_of_mem_hex hc
  unfold hexDigit
  split_ifs <;> omega

/-- A field that `hex` has written is read back. -/
theorem hexField_hex (octets : Bytes) : hexField (hex octets) = .ok octets := by
  unfold hexField
  split_ifs with hempty
  · cases octets with
    | nil => rfl
    | cons b rest => cases hempty
  · exact (hexToBytes_lowerHex (lowerHex_hex octets)).mpr (fromHex?_hex octets)

/-! ### Inputs and outputs -/

/-- **Inputs** are rejected alike and written alike. -/
theorem serializeInput_iff {input : TxInputModel} (h : input.InRange) {x : Bytes} :
    serializeInput version input = .ok x ↔
      Chipcoin.serializeInput version input.toTxInput = .ok x := by
  obtain ⟨signature, hsignature, hsignatureLength⟩ := h.signature
  obtain ⟨publicKey, hpublicKey, hpublicKeyLength⟩ := h.publicKey
  -- The wallet checks the scheme first, the node where it is written.
  have hscheme : ∀ scheme : Int,
      ((¬ (version < 2 ∧ scheme ≠ 0) ∧ ¬ (version ≥ 2 ∧ (scheme < 0 ∨ scheme > 0xff))) ↔
        encodeSigScheme version scheme =
          .ok (if version ≥ 2 then [UInt8.ofNat scheme.toNat] else [])) ∧
      (encodeSigScheme version scheme =
          .ok (if version ≥ 2 then [UInt8.ofNat scheme.toNat] else []) ∨
        ∃ e, encodeSigScheme version scheme = .error e) := by
    intro scheme
    unfold encodeSigScheme
    split_ifs <;> simp <;> omega
  obtain ⟨hiff, hcases⟩ := hscheme (input.sigSchemeId.getD 0)
  unfold serializeInput Chipcoin.serializeInput TxInputModel.toTxInput
  rw [hsignature, hpublicKey]
  simp only [hexField_hex, fromHex?_hex, Option.getD_some, pack_uint32 h.index,
    pack_uint32 h.sequence, encodeBytes_eq hsignatureLength, encodeBytes_eq hpublicKeyLength,
    ok_bind, bind_eq_ok, raiseIf_eq_ok, pure_eq_ok, encodeHash_iff h.txid]
  constructor
  · rintro ⟨-, hfirst, -, hsecond, txid, htxid, rfl⟩
    exact ⟨txid, htxid, _, hiff.mp ⟨hfirst, hsecond⟩, rfl⟩
  · rintro ⟨txid, htxid, scheme, hscheme, rfl⟩
    rcases hcases with hok | ⟨e, herror⟩
    · obtain rfl := ok_unique hok hscheme
      obtain ⟨hfirst, hsecond⟩ := hiff.mpr hok
      exact ⟨(), hfirst, (), hsecond, txid, htxid, rfl⟩
    · rw [herror] at hscheme
      cases hscheme

private theorem serializeInput_encodable {input : TxInputModel} (h : input.InRange) :
    (∃ x, Chipcoin.serializeInput version input.toTxInput = .ok x) ↔ input.Encodable version := by
  obtain ⟨signature, hsignature, hsignatureLength⟩ := h.signature
  obtain ⟨publicKey, hpublicKey, hpublicKeyLength⟩ := h.publicKey
  have hscheme : ∀ scheme : Int, (∃ x, encodeSigScheme version scheme = .ok x) ↔
      if version ≥ 2 then 0 ≤ scheme ∧ scheme ≤ 0xff else scheme = 0 := by
    intro scheme
    unfold encodeSigScheme
    split_ifs <;> simp <;> omega
  unfold TxInputModel.Encodable
  rw [← encodeHash_lowerHex h.txid, ← hscheme]
  unfold Chipcoin.serializeInput TxInputModel.toTxInput
  rw [hsignature, hpublicKey]
  simp only [fromHex?_hex, Option.getD_some, pack_uint32 h.index, pack_uint32 h.sequence,
    encodeBytes_eq hsignatureLength, encodeBytes_eq hpublicKeyLength, ok_bind, bind_eq_ok,
    pure_eq_ok]
  constructor
  · rintro ⟨_, txid, htxid, scheme, hscheme, -⟩
    exact ⟨⟨txid, htxid⟩, scheme, hscheme⟩
  · rintro ⟨⟨txid, htxid⟩, scheme, hscheme⟩
    exact ⟨_, txid, htxid, scheme, hscheme, rfl⟩

private theorem serializeOutput_eq {output : TxOutput} (h : OutputInRange output) :
    serializeOutput output =
      .ok (encodeUint64 output.value ++ encodeString output.recipient) := by
  unfold serializeOutput
  rw [pack_uint64 h.value, encodeString_eq h.recipient]
  rfl

/-! ### Metadata -/

/-- Entries written in the order of a list. -/
def encodeItems (items : List (PyStr × PyStr)) : Bytes :=
  encodeVarint items.length ++
    (items.map fun (key, value) => encodeString key ++ encodeString value).flatten

private theorem mapM_encodePair {items : List (PyStr × PyStr)}
    (h : ∀ entry ∈ items, WellFormedText entry.1 ∧ WellFormedText entry.2) :
    items.mapM encodePair =
      .ok (items.map fun (key, value) => encodeString key ++ encodeString value) := by
  induction items with
  | nil => rfl
  | cons entry rest ih =>
    obtain ⟨hkey, hvalue⟩ := h entry mem_cons_self
    have hentry : encodePair entry = .ok (encodeString entry.1 ++ encodeString entry.2) := by
      unfold encodePair
      rw [encodeString_eq hkey, encodeString_eq hvalue]
      rfl
    rw [mapM_cons, hentry, ih (forall_mem_of_forall_mem_cons h)]
    rfl

/-- What is written determines the order of the entries. -/
theorem encodeItems_inj {items items' : List (PyStr × PyStr)} (hlength : SafeLength items.length)
    (hlength' : SafeLength items'.length)
    (h : ∀ entry ∈ items, WellFormedText entry.1 ∧ WellFormedText entry.2)
    (h' : ∀ entry ∈ items', WellFormedText entry.1 ∧ WellFormedText entry.2)
    (heq : encodeItems items = encodeItems items') : items = items' := by
  refine (delimits_encodePair.counted delimits_encodeVarint (fun _ _ => trivial)
    (fun _ _ => trivial) (encodeVarint_eq hlength) (encodeVarint_eq hlength') (mapM_encodePair h)
    (mapM_encodePair h') (s := []) (t := []) ?_).1
  rw [append_nil, append_nil]
  exact heq

instance [Collation] : Std.TransCmp localeCompare := Collation.total

/-- Entries by their key, in code-point order. -/
def compareKeys (a b : PyStr × PyStr) : Ordering := compare a.1 b.1

/-- Entries by their key, in the order of the collation. -/
def localeCompareKeys [Collation] (a b : PyStr × PyStr) : Ordering := localeCompare a.1 b.1

instance : Std.TransCmp compareKeys :=
  inferInstanceAs (Std.TransCmp (compareOn Prod.fst))

instance [Collation] : Std.TransCmp localeCompareKeys where
  eq_swap {a b} := show localeCompare a.1 b.1 = (localeCompare b.1 a.1).swap from
    Std.OrientedCmp.eq_swap
  isLE_trans {a b c} hab hbc := show (localeCompare a.1 c.1).isLE = true from
    Std.TransCmp.isLE_trans (show (localeCompare a.1 b.1).isLE = true from hab) hbc

section Entries

variable {entries : List (PyStr × PyStr)}

section

variable (hkeys : (entries.map Prod.fst).Nodup)
include hkeys

private theorem separates_compareKeys : Separates compareKeys entries :=
  fun _ ha _ hb h =>
    inj_on_of_nodup_map hkeys ha hb (Std.LawfulEqCmp.compare_eq_iff_eq.mp h)

private theorem mem_toList_toMetadata (entry : PyStr × PyStr) :
    entry ∈ (toMetadata entries).toList ↔ entry ∈ entries := by
  have hdistinct : entries.Pairwise fun a b => ¬ compare a.1 b.1 = .eq :=
    (List.pairwise_map.mp hkeys).imp fun hne heq => hne (Std.LawfulEqCmp.compare_eq_iff_eq.mp heq)
  have hread : ∀ {key value}, (key, value) ∈ entries → (toMetadata entries)[key]? = some value :=
    fun hmem => Std.ExtTreeMap.getElem?_ofList_of_mem Std.ReflCmp.compare_self hdistinct hmem
  obtain ⟨key, value⟩ := entry
  rw [Std.ExtTreeMap.mem_toList_iff_getElem?_eq_some]
  constructor
  · intro hfound
    have hkey : key ∈ toMetadata entries :=
      Std.ExtTreeMap.mem_iff_isSome_getElem?.mpr (by rw [hfound]; rfl)
    rw [toMetadata, Std.ExtTreeMap.mem_ofList, contains_iff_mem, mem_map] at hkey
    obtain ⟨⟨key', value'⟩, hmem, rfl⟩ := hkey
    rw [hread hmem] at hfound
    rwa [← Option.some.inj hfound]
  · exact hread

/-- The node lists the entries in code-point order. -/
theorem toList_toMetadata : (toMetadata entries).toList = sortBy compareKeys entries := by
  have hsorted : (toMetadata entries).toList.Pairwise fun a b => compareKeys a b = .lt :=
    Std.ExtTreeMap.ordered_keys_toList
  refine eq_of_ascending hsorted (sortBy_strict (separates_compareKeys hkeys) hkeys.of_map) ?_
  intro entry
  rw [mem_toList_toMetadata hkeys, mem_sortBy]

end

end Entries

/-! ### Transactions -/

/-- What the node writes before the metadata. -/
def serializeHead (tx : Transaction) : Except PyError Bytes := do
  let version ← pack 4 tx.version
  let inputCount ← Chipcoin.encodeVarint tx.inputs.length
  let inputs ← tx.inputs.mapM (Chipcoin.serializeInput tx.version)
  let outputCount ← Chipcoin.encodeVarint tx.outputs.length
  let outputs ← tx.outputs.mapM serializeOutput
  let locktime ← pack 4 tx.locktime
  return version ++ inputCount ++ inputs.flatten ++ outputCount ++ outputs.flatten ++ locktime

private theorem serializeTransaction_eq_ok {tx : Transaction} {x : Bytes} :
    Chipcoin.serializeTransaction tx = .ok x ↔
      ∃ head metadata, serializeHead tx = .ok head ∧
        Chipcoin.encodeMetadata tx.metadata = .ok metadata ∧ x = head ++ metadata := by
  have hsplit : Chipcoin.serializeTransaction tx = do
      let head ← serializeHead tx
      let metadata ← Chipcoin.encodeMetadata tx.metadata
      return head ++ metadata := by
    simp only [Chipcoin.serializeTransaction, serializeHead, bind_assoc, pure_bind]
  simp only [hsplit, bind_eq_ok, pure_eq_ok, exists_and_left, @eq_comm _ x]

private theorem mapM_serializeInput_iff {inputs : List TxInputModel}
    (h : ∀ input ∈ inputs, input.InRange) {encoded : List Bytes} :
    inputs.mapM (serializeInput version) = .ok encoded ↔
      (inputs.map TxInputModel.toTxInput).mapM (Chipcoin.serializeInput version) = .ok encoded := by
  induction inputs generalizing encoded with
  | nil => simp only [map_nil, mapM_nil, pure_eq_ok]
  | cons input rest ih =>
    rw [map_cons, mapM_cons_eq_ok, mapM_cons_eq_ok]
    simp only [serializeInput_iff (h input mem_cons_self), ih (forall_mem_of_forall_mem_cons h)]

private theorem mapM_serializeOutput {outputs : List TxOutput}
    (h : ∀ output ∈ outputs, OutputInRange output) :
    outputs.mapM serializeOutput =
      .ok (outputs.map fun output =>
        encodeUint64 output.value ++ encodeString output.recipient) := by
  induction outputs with
  | nil => rfl
  | cons output rest ih =>
    rw [mapM_cons, serializeOutput_eq (h output mem_cons_self),
      ih (forall_mem_of_forall_mem_cons h)]
    rfl

section Transaction

variable {tx : TransactionModel}

section

variable (range : tx.InRange)
include range

/-- The head is written exactly when every input can be encoded. -/
theorem serializeHead_encodable :
    (∃ head, serializeHead tx.toTransaction = .ok head) ↔ tx.Encodable := by
  have hinputs : (∃ encoded, (tx.inputs.map TxInputModel.toTxInput).mapM
      (Chipcoin.serializeInput tx.version) = .ok encoded) ↔ tx.Encodable := by
    rw [mapM_returns_iff, forall_mem_map]
    exact forall₂_congr fun input hinput => serializeInput_encodable (range.inputs input hinput)
  rw [← hinputs]
  unfold serializeHead TransactionModel.toTransaction
  simp only [pack_uint32 range.version, pack_uint32 range.locktime,
    encodeVarint_eq (safeLength_of_lt range.inputCount),
    encodeVarint_eq (safeLength_of_lt range.outputCount), mapM_serializeOutput range.outputs,
    ok_bind, bind_eq_ok, pure_eq_ok, length_map]
  constructor
  · rintro ⟨_, encoded, hencoded, -⟩
    exact ⟨encoded, hencoded⟩
  · rintro ⟨encoded, hencoded⟩
    exact ⟨_, encoded, hencoded, rfl⟩

/-- The wallet writes the head and the entries in the order of the collation. -/
theorem toOption_serializeTransaction [Collation] :
    (serializeTransaction tx).toOption =
      (serializeHead tx.toTransaction).toOption.map
        (· ++ encodeItems (sortBy localeCompareKeys tx.metadata)) := by
  ext x
  rw [Option.map_eq_some_iff]
  simp only [toOption_eq_some_iff]
  unfold serializeTransaction serializeHead TransactionModel.toTransaction
  simp only [pack_uint32 range.version, pack_uint32 range.locktime,
    encodeVarint_eq (safeLength_of_lt range.inputCount),
    encodeVarint_eq (safeLength_of_lt range.outputCount), mapM_serializeOutput range.outputs,
    ok_bind, bind_eq_ok, pure_eq_ok, mapM_serializeInput_iff range.inputs, length_map]
  constructor
  · rintro ⟨inputs, hinputs, rfl⟩
    exact ⟨_, ⟨inputs, hinputs, rfl⟩, rfl⟩
  · rintro ⟨head, ⟨inputs, hinputs, rfl⟩, rfl⟩
    exact ⟨inputs, hinputs, rfl⟩

/-- The node writes the head and the entries in code-point order. -/
theorem toOption_serializeTransaction_toTransaction :
    (Chipcoin.serializeTransaction tx.toTransaction).toOption =
      (serializeHead tx.toTransaction).toOption.map
        (· ++ encodeItems (sortBy compareKeys tx.metadata)) := by
  have hmetadata : Chipcoin.encodeMetadata tx.toTransaction.metadata =
      .ok (encodeItems (sortBy compareKeys tx.metadata)) := by
    have hlength : SafeLength (sortBy compareKeys tx.metadata).length := by
      rw [length_sortBy]
      exact safeLength_of_lt range.metadataCount
    -- The node keeps a dictionary: distinct keys, read in the order of their code points.
    show (do
      let items := (toMetadata tx.metadata).toList
      let count ← Chipcoin.encodeVarint items.length
      let encoded ← items.mapM encodePair
      return count ++ encoded.flatten) = _
    dsimp only
    rw [toList_toMetadata range.keys, encodeVarint_eq hlength,
      mapM_encodePair fun entry hentry => range.texts entry (mem_sortBy.mp hentry)]
    rfl
  ext x
  rw [Option.map_eq_some_iff, toOption_eq_some_iff, serializeTransaction_eq_ok]
  simp only [hmetadata, Except.ok.injEq, toOption_eq_some_iff]
  constructor
  · rintro ⟨head, _, hhead, rfl, rfl⟩
    exact ⟨head, hhead, rfl⟩
  · rintro ⟨head, hhead, rfl⟩
    exact ⟨head, _, hhead, rfl, rfl⟩

/-- The metadata is written alike exactly when its keys are in order. -/
theorem encodeItems_eq_iff [Collation] (apart : tx.KeysApart) :
    encodeItems (sortBy localeCompareKeys tx.metadata) =
        encodeItems (sortBy compareKeys tx.metadata) ↔ tx.KeysInOrder := by
  have hlength : ∀ cmp : PyStr × PyStr → PyStr × PyStr → Ordering,
      SafeLength (sortBy cmp tx.metadata).length := fun cmp => by
    rw [length_sortBy]
    exact safeLength_of_lt range.metadataCount
  have htexts : ∀ cmp : PyStr × PyStr → PyStr × PyStr → Ordering,
      ∀ entry ∈ sortBy cmp tx.metadata, WellFormedText entry.1 ∧ WellFormedText entry.2 :=
    fun cmp entry hentry => range.texts entry (mem_sortBy.mp hentry)
  have hseparates : Separates localeCompareKeys tx.metadata :=
    fun a ha b hb h => inj_on_of_nodup_map range.keys ha hb (apart a ha b hb h)
  have horder := sortBy_eq_sortBy_iff range.keys.of_map (separates_compareKeys range.keys)
    hseparates
  refine Iff.trans ⟨fun h => ?_, fun h => by rw [h]⟩ horder
  exact encodeItems_inj (hlength _) (hlength _) (htexts _) (htexts _) h

/-- The octets agree exactly when there are none or the keys are in order. -/
theorem octets_eq_iff [Collation] (apart : tx.KeysApart) :
    (serializeTransaction tx).toOption =
        (Chipcoin.serializeTransaction tx.toTransaction).toOption ↔
      (tx.Encodable → tx.KeysInOrder) := by
  rw [toOption_serializeTransaction range, toOption_serializeTransaction_toTransaction range,
    ← encodeItems_eq_iff range apart, ← serializeHead_encodable range]
  cases serializeHead tx.toTransaction with
  | error e => simp [Except.toOption]
  | ok head => simp [Except.toOption]

end

end Transaction

/-! ### Signing payloads -/

section Signing

variable {tx : TransactionModel}

private theorem toTransaction_stripped :
    tx.stripped.toTransaction = tx.toTransaction.stripped := by
  unfold TransactionModel.stripped TransactionModel.toTransaction Transaction.stripped
  simp only [map_map, Transaction.mk.injEq, true_and, and_true]
  rfl

private theorem TransactionModel.InRange.stripped (range : tx.InRange) :
    tx.stripped.InRange where
  version := range.version
  inputs := by
    intro input hinput
    obtain ⟨original, horiginal, rfl⟩ := List.mem_map.mp hinput
    have horiginal := range.inputs original horiginal
    exact
      { txid := horiginal.txid
        index := horiginal.index
        signature := ⟨[], rfl, Nat.two_pow_pos 53⟩
        publicKey := ⟨[], rfl, Nat.two_pow_pos 53⟩
        sequence := horiginal.sequence }
  outputs := range.outputs
  locktime := range.locktime
  keys := range.keys
  texts := range.texts
  inputCount := by
    show (tx.inputs.map _).length < _
    rw [length_map]
    exact range.inputCount
  outputCount := range.outputCount
  metadataCount := range.metadataCount

private theorem encodable_stripped : tx.stripped.Encodable ↔ tx.Encodable := by
  show (∀ input ∈ tx.inputs.map _, TxInputModel.Encodable tx.version input) ↔ _
  rw [forall_mem_map]
  exact Iff.rfl

/-- What a payload has after the transaction. -/
def payloadTail (version : Int) (spend : Spend) : Bytes :=
  encodeUint32 spend.inputIndex ++ encodeUint64 spend.previousOutputValue ++
    encodeString spend.previousOutputRecipient ++
    if version ≥ 2 then
      encodeString (str "chipcoin:tx-signature:v2:" ++ spend.network) ++ encodeUint32 2
    else encodeUint32 1

/-- The wallet's payload: nothing for an index without an input. -/
theorem toOption_walletPayload [Collation] (spend : Spend) :
    (serializeTransactionForSigning tx spend.inputIndex spend.previousOutputValue
        spend.previousOutputRecipient spend.network).toOption =
      if spend.inputIndex < tx.inputs.length then
        (serializeTransaction tx.stripped).toOption.map
          (· ++ payloadTail tx.version spend)
      else none := by
  unfold serializeTransactionForSigning
  by_cases hindex : spend.inputIndex < tx.inputs.length
  · rw [if_pos hindex, raiseIf_bind (by omega), toOption_bind_pure]
    congr 1
    funext encoded
    simp only [payloadTail, append_assoc]
  · rw [if_neg hindex, raiseIf_eq_error.mpr ⟨not_lt.mp hindex, rfl⟩]
    rfl

/-- The node's payload has the same tail. -/
theorem toOption_nodePayload (range : tx.InRange) {spend : Spend} (hspend : spend.InRange) :
    (Chipcoin.serializeTransactionForSigning tx.toTransaction spend.inputIndex
        spend.previousOutputValue spend.previousOutputRecipient spend.network).toOption =
      if spend.inputIndex < tx.inputs.length then
        (Chipcoin.serializeTransaction tx.stripped.toTransaction).toOption.map
          (· ++ payloadTail tx.version spend)
      else none := by
  have hlength : tx.toTransaction.inputs.length = tx.inputs.length :=
    length_map _
  unfold Chipcoin.serializeTransactionForSigning
  rw [toTransaction_stripped, hlength]
  by_cases hindex : spend.inputIndex < tx.inputs.length
  · have hcount := range.inputCount
    have hpack : pack 4 (spend.inputIndex : Int) = .ok (encodeUint32 spend.inputIndex) :=
      pack_uint32 (by omega)
    rw [if_pos hindex, raiseIf_bind (by omega)]
    simp only [hpack, pack_uint64 hspend.value, encodeString_eq hspend.recipient,
      encodeString_eq hspend.network, ok_bind]
    -- From version 2 on the payload names the network.
    by_cases hversion : tx.version ≥ 2
    · have hversion' : tx.toTransaction.version ≥ 2 := hversion
      simp only [if_pos hversion', pure_bind, toOption_bind_pure, payloadTail, if_pos hversion,
        append_assoc]
      rfl
    · have hversion' : ¬ tx.toTransaction.version ≥ 2 := hversion
      simp only [if_neg hversion', pure_bind, toOption_bind_pure, payloadTail, if_neg hversion,
        append_assoc]
      rfl
  · rw [if_neg hindex, raiseIf_eq_error.mpr ⟨not_lt.mp hindex, rfl⟩]
    rfl

/-- **Both encoders reject** the transactions with an input that cannot be encoded, and no
others. -/
theorem rejectedAlike [Collation] (range : tx.InRange) : RejectedAlike tx := by
  have hoctets : ∀ {other : TransactionModel}, other.InRange → ∀ tail : Bytes,
      ((serializeHead other.toTransaction).toOption.map (· ++ tail) = none ↔
        ¬ other.Encodable) := by
    intro other hother tail
    rw [Option.map_eq_none_iff, toOption_eq_none_iff, serializeHead_encodable hother]
  have hpayload : ∀ {spend : Spend} {octets : Option Bytes} {tail : Bytes},
      (octets = none ↔ ¬ tx.Encodable) →
        ((if spend.inputIndex < tx.inputs.length then octets.map (· ++ tail) else none) =
            none ↔
          ¬ (tx.Encodable ∧ spend.inputIndex < tx.inputs.length)) := by
    intro spend octets tail h
    split_ifs with hindex
    · rw [Option.map_eq_none_iff, h, and_iff_left hindex]
    · exact iff_of_true rfl fun hand => hindex hand.2
  refine ⟨?_, ?_, fun spend _ => ?_, fun spend hspend => ?_⟩
  · rw [toOption_serializeTransaction range, hoctets range]
  · rw [toOption_serializeTransaction_toTransaction range, hoctets range]
  · rw [toOption_walletPayload, hpayload]
    rw [toOption_serializeTransaction range.stripped, hoctets range.stripped, encodable_stripped]
  · rw [toOption_nodePayload range hspend, hpayload]
    rw [toOption_serializeTransaction_toTransaction range.stripped, hoctets range.stripped,
      encodable_stripped]

/-- **Exact parity of the encoders**: they reject alike and, under every collation that tells the
metadata keys apart, agree on the octets, the payloads, the identifier and the digests exactly when
the collation keeps the keys of a transaction that can be encoded in code-point order. -/
theorem walletParity_iff [Platform] [Collation] (range : tx.InRange) (apart : tx.KeysApart) :
    RejectedAlike tx ∧
      (EncodedAlike tx ↔ (tx.Encodable → tx.KeysInOrder)) := by
  refine ⟨rejectedAlike range, fun h => (octets_eq_iff range apart).mp h.octets, fun h => ?_⟩
  have hoctets := (octets_eq_iff range apart).mpr h
  have hstripped := (octets_eq_iff range.stripped apart).mpr fun hencodable =>
    h (encodable_stripped.mp hencodable)
  refine ⟨hoctets, fun spend hspend => ?_, ?_, fun spend hspend => ?_⟩
  · rw [toOption_walletPayload, toOption_nodePayload range hspend, hstripped]
  · unfold transactionId Transaction.txid
    rw [toOption_bind_pure, toOption_bind_pure, hoctets]
    rfl
  · unfold transactionSignatureDigest Chipcoin.transactionSignatureDigest
    rw [toOption_bind_pure, toOption_bind_pure, toOption_walletPayload,
      toOption_nodePayload range hspend, hstripped]

end Signing

namespace SampleParity

/-- A letter without its case. -/
def foldCase (c : ℕ) : ℕ := if 65 ≤ c ∧ c ≤ 90 then c + 32 else c

/-- The default collation on single ASCII letters, the only keys compared below: the letters first,
the lower case first where only the case differs. -/
def compareLetters : PyStr → PyStr → Ordering :=
  compareLex (compareOn fun text => text.map foldCase) fun left right => compare right left

local instance collation : Collation where
  localeCompare := compareLetters
  total := by
    have hreverse : Std.TransCmp fun left right : PyStr => compare right left :=
      inferInstanceAs (Std.TransCmp fun left right : PyStr => compare right left)
    unfold compareLetters
    infer_instance

/-- The unsigned transaction of the parity tests, with metadata. -/
def unsignedTransaction (metadata : List (PyStr × PyStr)) : TransactionModel where
  version := 1
  inputs := [{ previousOutput := ⟨List.replicate 64 49, 0⟩, signatureHex := [], publicKeyHex := [],
               sequence := 0xffffffff }]
  outputs := [{ value := 700, recipient := str "CHCCH5FG4NCAWBFqa2zZKufrdnAa7rRE1gH5C" },
              { value := 200, recipient := str "CHCCT9A8CEgF7qJ3T6QuXSFQN31kEexxxa2oX" }]
  locktime := 0
  metadata := metadata

private theorem wellFormedText_str {s : String} (h : (textEncode (str s)).length < 2 ^ 53) :
    WellFormedText (str s) := ⟨hasUtf8_str s, h⟩

/-- The test transaction is in range with any short metadata. -/
theorem inRange_unsignedTransaction {metadata : List (PyStr × PyStr)}
    (hkeys : (metadata.map Prod.fst).Nodup) (hcount : metadata.length < 2 ^ 32)
    (htexts : ∀ entry ∈ metadata, WellFormedText entry.1 ∧ WellFormedText entry.2) :
    (unsignedTransaction metadata).InRange where
  version := show 0 ≤ (1 : Int) ∧ (1 : Int) < 2 ^ 32 by decide
  inputs := by
    intro input hinput
    obtain rfl := List.mem_singleton.mp hinput
    exact
      { txid := show ∀ c ∈ List.replicate 64 49, _ by decide
        index := by decide
        signature := ⟨[], rfl, Nat.two_pow_pos 53⟩
        publicKey := ⟨[], rfl, Nat.two_pow_pos 53⟩
        sequence := by decide }
  outputs := by
    intro output houtput
    rcases List.mem_pair.mp houtput with rfl | rfl
    · exact ⟨by decide, wellFormedText_str (by decide)⟩
    · exact ⟨by decide, wellFormedText_str (by decide)⟩
  locktime := show 0 ≤ (0 : Int) ∧ (0 : Int) < 2 ^ 32 by decide
  keys := hkeys
  texts := htexts
  inputCount := show 1 < 2 ^ 32 by decide
  outputCount := show 2 < 2 ^ 32 by decide
  metadataCount := hcount

/-- Metadata with the keys `"Z"` and `"a"`. -/
def mixedCase : List (PyStr × PyStr) := [(str "Z", str "1"), (str "a", str "2")]

/-- Metadata with the keys `"a"` and `"b"`. -/
def lowerCase : List (PyStr × PyStr) := [(str "b", str "1"), (str "a", str "2")]

private theorem inRange_sample (h : metadata = mixedCase ∨ metadata = lowerCase) :
    (unsignedTransaction metadata).InRange := by
  rcases h with rfl | rfl
  all_goals
    refine inRange_unsignedTransaction (by decide) (by decide) fun entry hentry => ?_
    rcases List.mem_pair.mp hentry with rfl | rfl
    all_goals exact ⟨wellFormedText_str (by decide), wellFormedText_str (by decide)⟩

/-- **The encoders disagree.** The test transaction with the metadata keys `"Z"` and `"a"` is in
range and both encoders accept it and the payload for its input, but they write other octets. -/
theorem metadata_order_differs :
    (unsignedTransaction mixedCase).InRange ∧
      (∃ wallet node, serializeTransaction (unsignedTransaction mixedCase) = .ok wallet ∧
        Chipcoin.serializeTransaction (unsignedTransaction mixedCase).toTransaction = .ok node ∧
        wallet ≠ node) ∧
      ∃ wallet node,
        serializeTransactionForSigning (unsignedTransaction mixedCase) 0 1000
          (str "CHCCT9A8CEgF7qJ3T6QuXSFQN31kEexxxa2oX") (str "testnet") = .ok wallet ∧
        Chipcoin.serializeTransactionForSigning (unsignedTransaction mixedCase).toTransaction 0 1000
          (str "CHCCT9A8CEgF7qJ3T6QuXSFQN31kEexxxa2oX") (str "testnet") = .ok node ∧
        wallet ≠ node := by
  have hdiffer : ∀ {wallet : Except String Bytes} {node : Except PyError Bytes},
      (wallet.toOption.isSome ∧ node.toOption.isSome ∧ wallet.toOption ≠ node.toOption) →
        ∃ x y, wallet = .ok x ∧ node = .ok y ∧ x ≠ y := by
    rintro (_ | x) (_ | y) ⟨hwallet, hnode, hne⟩
    · cases hwallet
    · cases hwallet
    · cases hnode
    · exact ⟨x, y, rfl, rfl, fun h => hne (congrArg some h)⟩
  exact ⟨inRange_sample (.inl rfl), hdiffer (by decide +kernel), hdiffer (by decide +kernel)⟩

section

local instance : Platform := samplePlatform []

/-- Lower-case keys are in order, so the encoders agree on them. -/
theorem walletParity_iff_lowerCase : EncodedAlike (unsignedTransaction lowerCase) := by
  have apart : (unsignedTransaction lowerCase).KeysApart := by
    show ∀ a ∈ lowerCase, ∀ b ∈ lowerCase, localeCompare a.1 b.1 = .eq → a.1 = b.1
    decide
  refine (walletParity_iff (inRange_sample (.inr rfl)) apart).2.mpr fun _ => ?_
  show ∀ a ∈ lowerCase, ∀ b ∈ lowerCase, compare a.1 b.1 = .lt → localeCompare a.1 b.1 = .lt
  decide

end

end SampleParity

end BrowserWallet

end Chipcoin
