import Chipcoin.Consensus.Encoding
import Chipcoin.Node.Chain

/-!
# What a signature covers

A signature is given for a payload. What it authorises is whatever has this payload, so a signature
binds exactly what its payload determines.

* The payload of a spend is a concatenation of fields that delimit themselves, and a trailer whose
  form the version decides. It determines the transaction up to its unlocking data and the texts of
  its outpoints, the input, the spent output, and, from version 2 on, the network
  (`signingPayload_binds`).
* The payload of a registry action is a list of texts joined by bars, and some of these texts are
  free. It determines the action among those that have as many bars in the free texts, and no
  further (`ownerSignature_binds_iff`).
-/

namespace Chipcoin

open Checked Encoding List

variable {a b tx : Transaction} {kind : SpecialKind} {u : Unit} {value : Int}

/-! ### Spends -/

/-- An outpoint by the octets of its hash. -/
def OutPoint.octets (outpoint : OutPoint) : Option Bytes × Int :=
  (fromHex? outpoint.txid, outpoint.index)

/-- The parts of a payload: the transaction without its unlocking data, the input, the spent output
and the trailer. -/
theorem serializeTransactionForSigning_ok {inputIndex : ℕ} {recipient network : PyStr}
    {payload : Bytes} (h : serializeTransactionForSigning tx inputIndex value recipient network =
      .ok payload) :
    ∃ encoded index amount address trailer,
      serializeTransaction tx.stripped = .ok encoded ∧ pack 4 inputIndex = .ok index ∧
      pack 8 value = .ok amount ∧ encodeString recipient = .ok address ∧
      (2 ≤ tx.version → ∃ domain,
        encodeString (str "chipcoin:tx-signature:v2:" ++ network) = .ok domain ∧
          trailer = domain ++ leBytes 4 2) ∧
      payload = encoded ++ (index ++ (amount ++ (address ++ trailer))) := by
  simp only [serializeTransactionForSigning, bind_eq_ok] at h
  obtain ⟨⟨⟩, -, encoded, hencoded, index, hindex, amount, hamount, address, haddress, h⟩ := h
  refine ⟨encoded, index, amount, address, ?_⟩
  split at h
  · simp only [bind_eq_ok, pure_bind, pure_eq_ok] at h
    obtain ⟨domain, hdomain, rfl⟩ := h
    exact ⟨domain ++ leBytes 4 2, hencoded, hindex, hamount, haddress,
      fun _ => ⟨domain, hdomain, rfl⟩, by simp only [append_assoc]⟩
  · next hversion =>
    simp only [pure_bind, pure_eq_ok] at h
    exact ⟨leBytes 4 1, hencoded, hindex, hamount, haddress, fun hpq => absurd hpq hversion,
      by simp only [← h, append_assoc]⟩

/-- What the canonical form of a stripped transaction still shows. -/
theorem stripped_canonical_eq (h : a.stripped.canonical = b.stripped.canonical) :
    a.version = b.version ∧
      a.inputs.map (·.previousOutput.octets) = b.inputs.map (·.previousOutput.octets) ∧
      a.inputs.map (·.sequence) = b.inputs.map (·.sequence) ∧
      a.inputs.map (·.sigSchemeId) = b.inputs.map (·.sigSchemeId) ∧
      a.outputs = b.outputs ∧ a.locktime = b.locktime ∧ a.metadata = b.metadata := by
  let shown (tx : Transaction) :=
    (tx.version, tx.inputs.map (·.previousOutput.octets),
      tx.inputs.map (·.sequence), tx.inputs.map (·.sigSchemeId),
      tx.outputs, tx.locktime, tx.metadata)
  have hshown : ∀ tx, shown tx.stripped.canonical = shown tx := by
    intro tx
    simp [shown, Transaction.canonical, Transaction.stripped, TxInput.canonical, OutPoint.octets,
      fromHex?_canonicalHash]
  have hsame : shown a = shown b := by rw [← hshown a, h, hshown]
  simpa [shown] using hsame

/-- **A spend signature binds the whole transaction**: what it spends and pays, which input and
which output it unlocks, and, from version 2 on, the network. -/
theorem signingPayload_binds {a b : Transaction} {i j : ℕ} {value value' : Int}
    {recipient recipient' network network' : PyStr} {payload : Bytes}
    (ha : serializeTransactionForSigning a i value recipient network = .ok payload)
    (hb : serializeTransactionForSigning b j value' recipient' network' = .ok payload) :
    a.version = b.version ∧
      a.inputs.map (·.previousOutput.octets) = b.inputs.map (·.previousOutput.octets) ∧
      a.inputs.map (·.sequence) = b.inputs.map (·.sequence) ∧
      a.inputs.map (·.sigSchemeId) = b.inputs.map (·.sigSchemeId) ∧
      a.outputs = b.outputs ∧ a.locktime = b.locktime ∧ a.metadata = b.metadata ∧
      i = j ∧ value = value' ∧ recipient = recipient' ∧ (2 ≤ a.version → network = network') := by
  obtain ⟨encoded, index, amount, address, trailer, hencoded, hindex, hamount, haddress, htrailer,
    rfl⟩ := serializeTransactionForSigning_ok ha
  obtain ⟨encoded', index', amount', address', trailer', hencoded', hindex', hamount', haddress',
    htrailer', heq⟩ := serializeTransactionForSigning_ok hb
  -- The fields, from the left. The transactions are compared in their canonical form.
  obtain ⟨hcanonical, hencoded⟩ := serializeTransaction_canonical hencoded
  obtain ⟨hcanonical', hencoded'⟩ := serializeTransaction_canonical hencoded'
  obtain ⟨htransaction, heq⟩ :=
    delimits_serializeTransaction.cut hcanonical hcanonical' hencoded hencoded' heq
  obtain ⟨hindex, heq⟩ := (delimits_pack 4).cut trivial trivial hindex hindex' heq
  obtain ⟨hvalue, heq⟩ := (delimits_pack 8).cut trivial trivial hamount hamount' heq
  obtain ⟨hrecipient, heq⟩ := delimits_encodeString.cut trivial trivial haddress haddress' heq
  obtain ⟨hversion, houtpoints, hsequences, hschemes, houtputs, hlocktime, hmetadata⟩ :=
    stripped_canonical_eq htransaction
  refine ⟨hversion, houtpoints, hsequences, hschemes, houtputs, hlocktime, hmetadata,
    Int.ofNat.inj hindex, hvalue, hrecipient, ?_⟩
  -- From version 2 on the trailer starts with the domain, which ends in the network.
  intro hpq
  obtain ⟨domain, hdomain, rfl⟩ := htrailer hpq
  obtain ⟨domain', hdomain', rfl⟩ := htrailer' (hversion ▸ hpq)
  obtain ⟨htext, -⟩ := delimits_encodeString.cut trivial trivial hdomain hdomain' heq
  exact append_cancel_left htext

namespace SampleSpend

/-- A spend with the hash of its outpoint in lower case, not yet signed. -/
def unsigned : Transaction where
  version := 2
  inputs := [{ previousOutput := ⟨List.replicate 64 97, 0⟩ }]
  outputs := [{ value := 5, recipient := str "r" }]

/-- The same spend, signed and with the hash in upper case. -/
def signed : Transaction where
  version := 2
  inputs := [{ previousOutput := ⟨List.replicate 64 65, 0⟩, signature := [1], publicKey := [2] }]
  outputs := [{ value := 5, recipient := str "r" }]

def payload (tx : Transaction) : Except PyError Bytes :=
  serializeTransactionForSigning tx 0 7 (str "q") (str "mainnet")

/-- Two spends with one payload name the same outpoints, in different texts. -/
theorem signingPayload_binds_signed :
    (payload unsigned).toOption = (payload signed).toOption ∧ unsigned.inputs ≠ signed.inputs ∧
      unsigned.inputs.map (·.previousOutput.octets) =
        signed.inputs.map (·.previousOutput.octets) := by
  have hsome : (payload unsigned).toOption.isSome := by decide +kernel
  have hsame : (payload unsigned).toOption = (payload signed).toOption := by decide +kernel
  have hunsigned := @eq_ok_getD _ _ _ [] hsome
  have hsigned : payload signed = .ok ((payload unsigned).toOption.getD []) := by
    rw [hsame]
    exact eq_ok_getD (hsame ▸ hsome)
  exact ⟨hsame, by decide, (signingPayload_binds hunsigned hsigned).2.1⟩

end SampleSpend

/-! ### Texts without a bar -/

/-- How many bars a text contains. -/
def bars (text : PyStr) : ℕ := text.count 124

private theorem bars_eq_zero {text : PyStr} (h : 124 ∉ text) :
    bars text = 0 := List.count_eq_zero.mpr h

private theorem hexValue_bar : hexValue 124 = none := by decide

/-- Hexadecimal text has no bar. -/
theorem bars_of_fromHex? {text : PyStr} {octets : Bytes} (h : fromHex? text = some octets) :
    bars text = 0 := by
  refine bars_eq_zero ?_
  induction text using fromHex?.induct generalizing octets with
  | case1 => simp
  | case2 c hspace =>
    rw [mem_singleton]
    rintro rfl
    simp [isAsciiSpace] at hspace
  | case3 c hspace => simp [fromHex?, hspace] at h
  | case4 a b rest hspace ih =>
    rw [fromHex?, if_pos hspace] at h
    rw [mem_cons, not_or]
    refine ⟨?_, ih h⟩
    rintro rfl
    simp [isAsciiSpace] at hspace
  | case5 a b rest hspace high low octets' hoctets hlow hhigh ih =>
    rw [mem_cons, mem_cons, not_or, not_or]
    refine ⟨?_, ?_, ih hoctets⟩
    · rintro rfl
      rw [hexValue_bar] at hhigh
      cases hhigh
    · rintro rfl
      rw [hexValue_bar] at hlow
      cases hlow
  | case6 a b rest hspace hnone ih =>
    -- One of the two digits or of the octets after them is missing.
    rw [fromHex?, if_neg hspace] at h
    split at h
    · next high low octets' hhigh hlow hoctets =>
      exact (hnone high low octets' hhigh hlow hoctets).elim
    · cases h

/-- Base58 text has no bar. -/
theorem bars_of_base58Number {text : PyStr} {number : ℕ} (h : base58Number text = .ok number) :
    bars text = 0 := by
  refine bars_eq_zero ?_
  rw [base58Number] at h
  generalize 0 = start at h
  induction text generalizing start with
  | nil => simp
  | cons c rest ih =>
    obtain ⟨next, hstep, hrest⟩ := foldlM_cons_eq_ok.mp h
    rw [mem_cons, not_or]
    refine ⟨?_, ih next hrest⟩
    rintro rfl
    have habsent : base58Alphabet.findIdx? (· == 124) = none := by decide
    rw [habsent] at hstep
    cases hstep

private theorem joinBars_eq (parts : List PyStr) : joinBars parts = [124].intercalate parts := rfl

section

variable [Platform]

private theorem bars_of_parsePublicKeyHex {text : PyStr} {key : Bytes}
    (h : parsePublicKeyHex text = .ok key) : bars text = 0 :=
  bars_of_fromHex? (orRaise_eq_ok.mp (fromHex_of_parsePublicKeyHex h))

private theorem bars_of_intOfStr {text : PyStr} (h : intOfStr text = .ok value) :
    bars text = 0 := by
  refine bars_eq_zero fun hbar => ?_
  rw [intOfStr, Platform.intOfStr_bar text hbar] at h
  cases h

/-- A valid address has no bar. -/
theorem bars_of_isValidAddress {address : PyStr} (h : isValidAddress address) :
    bars address = 0 := by
  -- Behind either of the two beginnings stands base58 text.
  have hbehind : ∀ {start : PyStr} {info : Bytes → Except PyError AddressInfo}, bars start = 0 →
      start.isPrefixOf address →
      (base58checkDecode (address.drop start.length) >>= info).isOk → bars address = 0 := by
    intro start info hstart hprefix hok
    obtain ⟨text, rfl⟩ := List.isPrefixOf_iff_prefix.mp hprefix
    rw [drop_left] at hok
    rw [bars, count_append]
    cases hnumber : base58Number text with
    | ok number => exact Nat.add_eq_zero_iff.mpr ⟨hstart, bars_of_base58Number hnumber⟩
    | error error =>
      rw [base58checkDecode, hnumber] at hok
      cases hok
  rw [isValidAddress, parseAddress] at h
  split at h
  · next hpq => exact hbehind (by decide) hpq h
  · split at h
    · next hlegacy => exact hbehind (by decide) hlegacy h
    · cases h

end

/-! ### Registry actions -/

/-- The four registry actions. -/
inductive SpecialKind
  | registerNode
  | registerRewardNode
  | renewNode
  | renewRewardNode
deriving DecidableEq

namespace SpecialKind

/-- The kind as the metadata name it. -/
def text : SpecialKind → String
  | registerNode => "register_node"
  | registerRewardNode => "register_reward_node"
  | renewNode => "renew_node"
  | renewRewardNode => "renew_reward_node"

/-- The metadata fields that the owner signs, in the order of the payload. -/
def fields : SpecialKind → List String
  | registerNode => ["node_id", "payout_address", "owner_pubkey_hex"]
  | registerRewardNode => ["node_id", "payout_address", "owner_pubkey_hex", "node_pubkey_hex",
      "declared_host", "declared_port", "registration_fee_chipbits"]
  | renewNode => ["node_id", "renewal_epoch", "owner_pubkey_hex"]
  | renewRewardNode => ["node_id", "renewal_epoch", "owner_pubkey_hex", "declared_host",
      "declared_port", "renewal_fee_chipbits"]

/-- The actions of reward nodes, which declare an endpoint. -/
def isReward : SpecialKind → Bool
  | registerRewardNode | renewRewardNode => true
  | registerNode | renewNode => false

private theorem text_injective {other : SpecialKind} (h : str kind.text = str other.text) :
    kind = other := by
  cases kind <;> cases other <;> first | rfl | exact absurd h (by decide)

private theorem bars_text (kind : SpecialKind) : bars (str kind.text) = 0 := by
  cases kind <;> decide

/-- A transaction has one kind. -/
theorem kinds_of_hasKind (h : tx.hasKind kind.text) :
    isLegacyRegisterNodeTransaction tx = decide (kind = .registerNode) ∧
      isRegisterRewardNodeTransaction tx = decide (kind = .registerRewardNode) ∧
      isLegacyRenewNodeTransaction tx = decide (kind = .renewNode) ∧
      isRenewRewardNodeTransaction tx = decide (kind = .renewRewardNode) := by
  have hkind : tx.get? "kind" = some (str kind.text) := by
    simpa [Transaction.hasKind] using h
  have hother : ∀ other : SpecialKind,
      tx.hasKind other.text = decide (kind = other) := by
    intro other
    rw [Transaction.hasKind, hkind]
    cases kind <;> cases other <;> decide
  exact ⟨hother .registerNode, hother .registerRewardNode, hother .renewNode,
    hother .renewRewardNode⟩

end SpecialKind

/-- The signed fields whose text no check restricts. -/
def freeFields : List String := ["node_id", "renewal_epoch", "declared_host"]

private theorem validateNodeMetadataCommon_owner (h : validateNodeMetadataCommon tx = .ok u) :
    tx.getD "owner_pubkey_hex" ≠ [] := by
  simp only [validateNodeMetadataCommon, bind_eq_ok, raiseIf_eq_ok] at h
  obtain ⟨_, -, _, -, _, howner, -⟩ := h
  exact howner

/-- The payload of an action of a given kind. -/
theorem specialNodeSignaturePayloadV1_eq (h : tx.hasKind kind.text) :
    specialNodeSignaturePayloadV1 tx =
      .ok (joinBars (str kind.text :: kind.fields.map tx.getD)) := by
  obtain ⟨h1, h2, h3, h4⟩ := SpecialKind.kinds_of_hasKind h
  cases kind <;>
    simp [specialNodeSignaturePayloadV1, h1, h2, h3, h4, SpecialKind.fields, SpecialKind.text]

section

variable [Platform]

/-- What the stateless checks establish about the signed fields of an action. -/
structure SignedFields (kind : SpecialKind) (tx : Transaction) : Prop where
  kind_eq : tx.hasKind kind.text
  declared : ∀ field ∈ kind.fields, tx.getD field ≠ []
  restricted : ∀ field ∈ kind.fields, field ∉ freeFields → bars (tx.getD field) = 0
  ownerKey : ∃ key, parsePublicKeyHex (tx.getD "owner_pubkey_hex") = .ok key
  nodeKey : kind = .registerRewardNode →
    ∃ key, parsePublicKeyHex (tx.getD "node_pubkey_hex") = .ok key
  port : kind.isReward → ∃ port, intOfStr (tx.getD "declared_port") = .ok port

private theorem validateOwner_ok {kind : String} (h : validateOwner tx kind = .ok u) :
    ∃ key, parsePublicKeyHex (tx.getD "owner_pubkey_hex") = .ok key := by
  simp only [validateOwner, bind_eq_ok] at h
  obtain ⟨text, htext, key, hkey, -⟩ := h
  refine ⟨key, ?_⟩
  rw [Transaction.getD, Transaction.get_eq_ok.mp htext]
  exact hkey

private theorem validateDeclaredFee_ok {kind field : String}
    (h : validateDeclaredFee tx kind field = .ok u) :
    tx.getD field ≠ [] ∧ bars (tx.getD field) = 0 := by
  obtain ⟨⟨⟩, hdeclared, h⟩ := bind_eq_ok.mp h
  obtain ⟨value, hvalue, -⟩ := bind_eq_ok.mp h
  exact ⟨raiseIf_eq_ok.mp hdeclared, bars_of_intOfStr hvalue⟩

private theorem validateRegisterNodeTransaction_ok
    (hkind : tx.hasKind SpecialKind.registerNode.text)
    (h : validateRegisterNodeTransaction tx = .ok u) :
    SignedFields .registerNode tx := by
  simp only [validateRegisterNodeTransaction, bind_eq_ok, raiseIf_eq_ok, not_or, not_not] at h
  obtain ⟨_, hcommon, _, hnode, _, hpayout, h⟩ := h
  obtain ⟨key, hkey⟩ := validateOwner_ok h
  have howner := validateNodeMetadataCommon_owner hcommon
  refine ⟨hkind, ?_, ?_, ⟨key, hkey⟩, nofun, nofun⟩
  · simp [SpecialKind.fields, hnode, hpayout.1, howner]
  · simp [SpecialKind.fields, freeFields, bars_of_isValidAddress hpayout.2,
      bars_of_parsePublicKeyHex hkey]

private theorem validateRegisterRewardNodeTransaction_ok
    (hkind : tx.hasKind SpecialKind.registerRewardNode.text)
    (h : validateRegisterRewardNodeTransaction tx = .ok u) :
    SignedFields .registerRewardNode tx := by
  simp only [validateRegisterRewardNodeTransaction, bind_eq_ok, raiseIf_eq_ok, not_or, not_not] at h
  obtain ⟨_, hcommon, _, hnode, _, hpayout, _, hnodeKey, nodeKey, hparsed, _, hendpoint, _, hfee,
    h⟩ := h
  obtain ⟨key, hkey⟩ := validateOwner_ok h
  have howner := validateNodeMetadataCommon_owner hcommon
  obtain ⟨hhost, hport, port, hvalue⟩ := validateDeclaredEndpoint_ok hendpoint
  obtain ⟨hfee, hfeeBars⟩ := validateDeclaredFee_ok hfee
  refine ⟨hkind, ?_, ?_, ⟨key, hkey⟩, fun _ => ⟨nodeKey, hparsed⟩, fun _ => ⟨port, hvalue⟩⟩
  · simp [SpecialKind.fields, hnode, hpayout.1, howner, hnodeKey, hhost, hport, hfee]
  · simp [SpecialKind.fields, freeFields, bars_of_isValidAddress hpayout.2,
      bars_of_parsePublicKeyHex hkey, bars_of_parsePublicKeyHex hparsed, bars_of_intOfStr hvalue,
      hfeeBars]

private theorem validateRenewNodeTransaction_ok (hkind : tx.hasKind SpecialKind.renewNode.text)
    (h : validateRenewNodeTransaction tx = .ok u) :
    SignedFields .renewNode tx := by
  simp only [validateRenewNodeTransaction, bind_eq_ok, raiseIf_eq_ok] at h
  obtain ⟨_, hcommon, _, hnode, _, hepoch, h⟩ := h
  obtain ⟨key, hkey⟩ := validateOwner_ok h
  have howner := validateNodeMetadataCommon_owner hcommon
  refine ⟨hkind, ?_, ?_, ⟨key, hkey⟩, nofun, nofun⟩
  · simp [SpecialKind.fields, hnode, hepoch, howner]
  · simp [SpecialKind.fields, freeFields, bars_of_parsePublicKeyHex hkey]

private theorem validateRenewRewardNodeTransaction_ok
    (hkind : tx.hasKind SpecialKind.renewRewardNode.text)
    (h : validateRenewRewardNodeTransaction tx = .ok u) :
    SignedFields .renewRewardNode tx := by
  simp only [validateRenewRewardNodeTransaction, bind_eq_ok, raiseIf_eq_ok] at h
  obtain ⟨_, hcommon, _, hnode, _, hepoch, _, hendpoint, _, hfee, h⟩ := h
  obtain ⟨key, hkey⟩ := validateOwner_ok h
  have howner := validateNodeMetadataCommon_owner hcommon
  obtain ⟨hhost, hport, port, hvalue⟩ := validateDeclaredEndpoint_ok hendpoint
  obtain ⟨hfee, hfeeBars⟩ := validateDeclaredFee_ok hfee
  refine ⟨hkind, ?_, ?_, ⟨key, hkey⟩, nofun, fun _ => ⟨port, hvalue⟩⟩
  · simp [SpecialKind.fields, hnode, hepoch, howner, hhost, hport, hfee]
  · simp [SpecialKind.fields, freeFields, bars_of_parsePublicKeyHex hkey, bars_of_intOfStr hvalue,
      hfeeBars]

/-- **The signed fields of an accepted action.** -/
theorem signedFields_of_stateless (h : validateSpecialNodeTransactionStateless tx = .ok u) :
    ∃ kind, SignedFields kind tx := by
  rw [validateSpecialNodeTransactionStateless] at h
  split at h
  · next hkind => exact ⟨.registerNode, validateRegisterNodeTransaction_ok hkind h⟩
  · split at h
    · next hkind => exact ⟨.renewNode, validateRenewNodeTransaction_ok hkind h⟩
    · split at h
      · next hkind => exact ⟨.registerRewardNode, validateRegisterRewardNodeTransaction_ok hkind h⟩
      · split at h
        · next hkind => exact ⟨.renewRewardNode, validateRenewRewardNodeTransaction_ok hkind h⟩
        · cases h

/-! ### The payload determines the fields between the bars -/

omit [Platform] in
private theorem kind_eq_of_payload {kind' : SpecialKind} {tx' : Transaction}
    (hpayload : joinBars (str kind.text :: kind.fields.map tx.getD) =
      joinBars (str kind'.text :: kind'.fields.map tx'.getD)) : kind = kind' := by
  -- The kind is the text before the first bar.
  have hsplit : ∀ (kind : SpecialKind) (tx : Transaction), ∃ rest,
      joinBars (str kind.text :: kind.fields.map tx.getD) =
        str kind.text ++ 124 :: rest := by
    intro kind tx
    cases kind <;> exact ⟨_, rfl⟩
  obtain ⟨rest, hrest⟩ := hsplit kind tx
  obtain ⟨rest', hrest'⟩ := hsplit kind' tx'
  rw [hrest, hrest'] at hpayload
  have hcount : (str kind.text).count 124 = (str kind'.text).count 124 :=
    (kind.bars_text).trans (kind'.bars_text).symm
  exact SpecialKind.text_injective (cut_of_count hcount hpayload).1

section

variable (ha : SignedFields kind a) (hb : SignedFields kind b)
include ha hb

section

variable (hpayload : joinBars (str kind.text :: kind.fields.map a.getD) =
    joinBars (str kind.text :: kind.fields.map b.getD))
  (hnode : bars (a.getD "node_id") = bars (b.getD "node_id"))
  (hhost : kind.isReward → bars (a.getD "declared_host") = bars (b.getD "declared_host"))
include hpayload hnode hhost

/-- Fields with as many bars in the node id and in the host have as many bars everywhere: what is
left is one free field at most, and the payload has so many bars in all. -/
theorem bars_eq_of_payload : ∀ field ∈ kind.fields, bars (a.getD field) = bars (b.getD field) := by
  have htotal := congrArg (List.count 124) hpayload
  rw [joinBars_eq, joinBars_eq, count_intercalate, count_intercalate] at htotal
  have hfixed : ∀ field ∈ kind.fields, field ∉ freeFields →
      bars (a.getD field) = bars (b.getD field) := by
    intro field hmem hfree
    rw [ha.restricted field hmem hfree, hb.restricted field hmem hfree]
  -- The epoch is free as well, but its bars are the total less the others.
  have hepoch : "renewal_epoch" ∈ kind.fields →
      bars (a.getD "renewal_epoch") = bars (b.getD "renewal_epoch") := by
    intro hmem
    unfold bars at hnode hfixed hhost ⊢
    cases kind with
    | registerNode => exact absurd hmem (by decide)
    | registerRewardNode => exact absurd hmem (by decide)
    | renewNode =>
      have howner := hfixed "owner_pubkey_hex" (by decide) (by decide)
      simp [SpecialKind.fields] at htotal
      omega
    | renewRewardNode =>
      have howner := hfixed "owner_pubkey_hex" (by decide) (by decide)
      have hport := hfixed "declared_port" (by decide) (by decide)
      have hfee := hfixed "renewal_fee_chipbits" (by decide) (by decide)
      have hhost := hhost rfl
      simp [SpecialKind.fields] at htotal
      omega
  intro field hmem
  by_cases hfree : field ∈ freeFields
  · simp only [freeFields, mem_cons, not_mem_nil, or_false] at hfree
    rcases hfree with rfl | rfl | rfl
    · exact hnode
    · exact hepoch hmem
    · refine hhost ?_
      cases kind <;> first | rfl | exact absurd hmem (by decide)
  · exact hfixed field hmem hfree

/-- **The fields between the bars.** -/
theorem getD_eq_of_payload : ∀ field ∈ kind.fields, a.getD field = b.getD field := by
  have hcounts := bars_eq_of_payload ha hb hpayload hnode hhost
  rw [joinBars_eq, joinBars_eq] at hpayload
  have hparts := intercalate_injective (by
    rw [map_cons, map_cons, map_map, map_map, List.cons.injEq]
    exact ⟨rfl, List.map_inj_left.mpr hcounts⟩) hpayload
  exact List.map_inj_left.mp (List.cons.inj hparts).2

end

/-! ### The fields determine the effect -/

private theorem specialNodeRecord_congr
    (hfields : ∀ field ∈ kind.fields, a.getD field = b.getD field) (height : ℕ)
    (getByNodeId : PyStr → Option NodeRecord) :
    specialNodeRecord a height getByNodeId = specialNodeRecord b height getByNodeId := by
  have hget : ∀ field, (hmem : field ∈ kind.fields := by decide) → a.get field = b.get field := by
    intro field hmem
    rw [Transaction.get_of_getD_ne_nil (ha.declared field hmem),
      Transaction.get_of_getD_ne_nil (hb.declared field hmem), hfields field hmem]
  obtain ⟨ha1, ha2, ha3, ha4⟩ := SpecialKind.kinds_of_hasKind ha.kind_eq
  obtain ⟨hb1, hb2, hb3, hb4⟩ := SpecialKind.kinds_of_hasKind hb.kind_eq
  unfold specialNodeRecord
  rw [ha1, ha2, ha3, ha4, hb1, hb2, hb3, hb4]
  cases kind with
  | registerNode =>
    rw [hget "node_id", hget "payout_address", hget "owner_pubkey_hex"]
    rfl
  | registerRewardNode =>
    rw [hget "node_id", hget "payout_address", hget "owner_pubkey_hex", hget "node_pubkey_hex",
      hget "declared_host", hget "declared_port"]
  | renewNode =>
    rw [hget "node_id"]
    rfl
  | renewRewardNode =>
    rw [hget "node_id", hget "declared_host", hget "declared_port"]
    rfl

end

/-- **The record shows the node and the host** for which it was signed. -/
theorem specialNodeRecord_shows (h : SignedFields kind tx) {height : ℕ}
    {view : NodeRegistryView} {record : NodeRecord}
    (hrecord : specialNodeRecord tx height view.getByNodeId = .ok record) :
    record.nodeId = tx.getD "node_id" ∧
      (kind.isReward → record.declaredHost = some (tx.getD "declared_host")) := by
  have hget : ∀ field {value}, tx.get field = .ok value →
      (hmem : field ∈ kind.fields := by decide) → value = tx.getD field :=
    fun field _ hvalue hmem =>
      ok_unique hvalue (Transaction.get_of_getD_ne_nil (h.declared field hmem))
  obtain ⟨h1, h2, h3, h4⟩ := SpecialKind.kinds_of_hasKind h.kind_eq
  unfold specialNodeRecord at hrecord
  rw [h1, h2, h3, h4] at hrecord
  cases kind with
  | registerNode =>
    rw [if_pos (by decide)] at hrecord
    simp only [bind_eq_ok, pure_eq_ok] at hrecord
    obtain ⟨_, -, _, -, nodeId, hnode, _, -, rfl⟩ := hrecord
    exact ⟨hget "node_id" hnode, nofun⟩
  | registerRewardNode =>
    rw [if_neg (by decide), if_pos (by decide)] at hrecord
    simp only [bind_eq_ok, pure_eq_ok] at hrecord
    obtain ⟨_, -, _, -, _, -, nodeId, hnode, _, -, _, -, _, -, host, hhost, _, -, _, -, rfl⟩ :=
      hrecord
    exact ⟨hget "node_id" hnode,
      fun _ => congrArg some (hget "declared_host" hhost)⟩
  -- A renewal finds its record under the node id.
  | renewNode =>
    rw [if_neg (by decide), if_neg (by decide), if_pos (by decide)] at hrecord
    simp only [bind_eq_ok, pure_eq_ok] at hrecord
    obtain ⟨nodeId, hnode, old, hold, rfl⟩ := hrecord
    have hid := (NodeRegistryView.getByNodeId_eq_some.mp (orRaise_eq_ok.mp hold)).2
    exact ⟨hid.trans (hget "node_id" hnode), nofun⟩
  | renewRewardNode =>
    rw [if_neg (by decide), if_neg (by decide), if_neg (by decide), if_pos (by decide)] at hrecord
    simp only [bind_eq_ok, pure_eq_ok] at hrecord
    obtain ⟨nodeId, hnode, old, hold, host, hhost, _, -, _, -, rfl⟩ := hrecord
    have hid := (NodeRegistryView.getByNodeId_eq_some.mp (orRaise_eq_ok.mp hold)).2
    exact ⟨hid.trans (hget "node_id" hnode),
      fun _ => congrArg some (hget "declared_host" hhost)⟩

/-- An accepted action on a registered node writes a record. -/
theorem specialNodeRecord_total (h : SignedFields kind tx) (height : ℕ)
    {view : NodeRegistryView} {old : NodeRecord}
    (hold : view.getByNodeId (tx.getD "node_id") = some old) :
    ∃ record, specialNodeRecord tx height view.getByNodeId = .ok record := by
  have hget : ∀ field, (hmem : field ∈ kind.fields := by decide) →
      tx.get field = .ok (tx.getD field) := fun field hmem =>
    Transaction.get_of_getD_ne_nil (h.declared field hmem)
  obtain ⟨ownerKey, hownerKey⟩ := h.ownerKey
  obtain ⟨h1, h2, h3, h4⟩ := SpecialKind.kinds_of_hasKind h.kind_eq
  unfold specialNodeRecord
  rw [h1, h2, h3, h4]
  cases kind with
  | registerNode =>
    simp [hget "owner_pubkey_hex", hget "node_id", hget "payout_address", hownerKey]
  | registerRewardNode =>
    obtain ⟨nodeKey, hnodeKey⟩ := h.nodeKey rfl
    obtain ⟨port, hport⟩ := h.port rfl
    simp [hget "owner_pubkey_hex", hget "node_id", hget "payout_address", hget "node_pubkey_hex",
      hget "declared_host", hget "declared_port", hownerKey, hnodeKey, hport]
  | renewNode => simp [hget "node_id", hold, orRaise]
  | renewRewardNode =>
    obtain ⟨port, hport⟩ := h.port rfl
    simp [hget "node_id", hget "declared_host", hget "declared_port", hold, orRaise, hport]

/-! ### What an owner signature binds -/

/-- The text whose digest a version 2 signature signs. -/
def specialNodeSignaturePayloadV2 (tx : Transaction) (network : PyStr) :
    Except PyError PyStr := do
  raiseIf network.isEmpty
    (.value "Special node tx v2 signatures require a network.")
  return joinBars [str "chipcoin:special-node-tx:v2:" ++ network,
    ← specialNodeSignaturePayloadV1 tx]

/-- Two actions with one signed text: the legacy text, or the text of version 2 for one network. -/
def SignedAlike (a b : Transaction) : Prop :=
  (∃ payload, specialNodeSignaturePayloadV1 a = .ok payload ∧
      specialNodeSignaturePayloadV1 b = .ok payload) ∨
    ∃ network payload, specialNodeSignaturePayloadV2 a network = .ok payload ∧
      specialNodeSignaturePayloadV2 b network = .ok payload

omit [Platform] in
/-- Under one network the text of version 2 determines the legacy text inside it. -/
theorem SignedAlike.payload (h : SignedAlike a b) :
    ∃ payload, specialNodeSignaturePayloadV1 a = .ok payload ∧
      specialNodeSignaturePayloadV1 b = .ok payload := by
  rcases h with h | ⟨network, payload, ha, hb⟩
  · exact h
  · simp only [specialNodeSignaturePayloadV2, bind_eq_ok, pure_eq_ok] at ha hb
    obtain ⟨_, -, inner, hinner, rfl⟩ := ha
    obtain ⟨_, -, inner', hinner', hjoined⟩ := hb
    rw [joinBars_eq, joinBars_eq, intercalate_cons_cons, intercalate_cons_cons,
      intercalate_singleton, intercalate_singleton] at hjoined
    obtain rfl := append_cancel_left hjoined
    exact ⟨_, hinner, hinner'⟩

/-- **An owner signature binds the effect of an action on the registry** exactly against the actions
that have as many bars in the node id and, for reward nodes, in the declared host. -/
theorem ownerSignature_binds_iff {a b : Transaction}
    (ha : validateSpecialNodeTransactionStateless a = .ok ())
    (hb : validateSpecialNodeTransactionStateless b = .ok ()) (hsame : SignedAlike a b) :
    (∀ height view,
        applySpecialNodeTransaction a height view = applySpecialNodeTransaction b height view) ↔
      bars (a.getD "node_id") = bars (b.getD "node_id") ∧
        (isRegisterRewardNodeTransaction a ∨ isRenewRewardNodeTransaction a →
          bars (a.getD "declared_host") = bars (b.getD "declared_host")) := by
  obtain ⟨kind, fields⟩ := signedFields_of_stateless ha
  obtain ⟨kind', fields'⟩ := signedFields_of_stateless hb
  obtain ⟨payload, hpayload, hpayload'⟩ := hsame.payload
  rw [specialNodeSignaturePayloadV1_eq fields.kind_eq] at hpayload
  rw [specialNodeSignaturePayloadV1_eq fields'.kind_eq] at hpayload'
  have hjoined := Except.ok.inj (hpayload.trans hpayload'.symm)
  obtain rfl := kind_eq_of_payload hjoined
  have hreward : isRegisterRewardNodeTransaction a ∨ isRenewRewardNodeTransaction a ↔
      kind.isReward := by
    obtain ⟨-, h2, -, h4⟩ := SpecialKind.kinds_of_hasKind fields.kind_eq
    rw [h2, h4]
    cases kind <;> decide
  rw [hreward]
  constructor
  · -- On a registry with the node of `a` alone, `a` writes a record, and so must `b`.
    intro heffect
    let old : NodeRecord := {
      nodeId := a.getD "node_id", payoutAddress := [], ownerPubkey := [], registeredHeight := 0,
      lastRenewedHeight := 0 }
    have hold : (NodeRegistryView.empty.upsert old).getByNodeId (a.getD "node_id") = some old := by
      rw [NodeRegistryView.getByNodeId_upsert, if_pos rfl]
    obtain ⟨record, hrecord⟩ := specialNodeRecord_total fields 0 hold
    have hwrites := heffect 0 (NodeRegistryView.empty.upsert old)
    rw [applySpecialNodeTransaction, hrecord] at hwrites
    obtain ⟨record', hrecord', hview⟩ := bind_eq_ok.mp hwrites.symm
    have hviews := pure_eq_ok.mp hview
    obtain ⟨hnode, hhost⟩ := specialNodeRecord_shows fields hrecord
    obtain ⟨hnode', hhost'⟩ := specialNodeRecord_shows fields' hrecord'
    -- The two registries hold the same record.
    have hmem : record' ∈ ((NodeRegistryView.empty.upsert old).upsert record).entries := by
      rw [← hviews, NodeRegistryView.mem_upsert]
      exact .inl rfl
    have hsameRecord : record' = record := by
      rw [NodeRegistryView.mem_upsert, NodeRegistryView.mem_upsert] at hmem
      rcases hmem with hmem | ⟨rfl | ⟨hempty, -⟩, hother⟩
      · exact hmem
      · exact absurd hnode.symm hother
      · cases hempty
    subst hsameRecord
    refine ⟨by rw [← hnode, hnode'], fun hkind => ?_⟩
    have hhosts := (hhost hkind).symm.trans (hhost' hkind)
    rw [Option.some.inj hhosts]
  · rintro ⟨hnode, hhost⟩ height view
    have hfields := getD_eq_of_payload fields fields' hjoined hnode hhost
    rw [applySpecialNodeTransaction, applySpecialNodeTransaction,
      specialNodeRecord_congr fields fields' hfields]

end

namespace SampleOwner

local instance platform : Platform := samplePlatform []

/-- A registration of a reward node under an owner key of one octet. -/
def registration (nodeId nodeKey host signature : PyStr) : Transaction where
  version := 1
  inputs := []
  outputs := []
  metadata := .ofPairs [
    ("kind", str "register_reward_node"), ("node_id", nodeId), ("payout_address", sampleAddress),
    ("owner_pubkey_hex", str "61"), ("node_pubkey_hex", nodeKey), ("declared_host", host),
    ("declared_port", str "1"), ("registration_fee_chipbits", str "0"),
    ("owner_signature_hex", signature), ("owner_signature_version", str "v2"),
    ("owner_signature_network", str "mainnet")]

/-- The text of version 2 that the owner signs for a plain registration. -/
def plainPayload : PyStr :=
  joinBars [str "chipcoin:special-node-tx:v2:mainnet", str "register_reward_node", str "n",
    sampleAddress, str "61", str "62", str "h", str "1", str "0"]

/-- Two signatures of one owner for one registration have the same effect. -/
theorem ownerSignature_binds_resigned :
    validateSpecialNodeTransactionStateless
        (registration (str "n") (str "62") (str "h") (str "00")) = .ok () ∧
      ∀ height view,
        applySpecialNodeTransaction (registration (str "n") (str "62") (str "h") (str "00"))
            height view =
          applySpecialNodeTransaction (registration (str "n") (str "62") (str "h") (str "01"))
            height view := by
  refine ⟨?_, (ownerSignature_binds_iff ?_ ?_
    (.inr ⟨str "mainnet", plainPayload, ?_, ?_⟩)).mpr ⟨?_, fun _ => ?_⟩⟩
  all_goals decide +kernel

/-- What stands between the two node ids in the payload that both registrations have. -/
def between : PyStr := str "|" ++ sampleAddress ++ str "|61|62|h"

/-- The owner signs this registration of the node `n`, with a host that contains bars. -/
def signed : Transaction :=
  registration (str "n") (str "62") (str "h|" ++ sampleAddress ++ str "|61|63|g") (str "00")

/-- The same payload read as a registration of another node, at another host. -/
def replayed : Transaction := registration (str "n" ++ between) (str "63") (str "g") (str "00")

/-- The text that the owner signed, for either of them. -/
def sharedPayload : PyStr :=
  joinBars [str "chipcoin:special-node-tx:v2:mainnet", str "register_reward_node",
    str "n" ++ between, sampleAddress, str "61", str "63", str "g", str "1", str "0"]

/-- One signature registers two different nodes. -/
theorem ownerSignature_replayed :
    validateSpecialNodeTransactionStateless signed = .ok () ∧
      validateSpecialNodeTransactionStateless replayed = .ok () ∧ SignedAlike signed replayed ∧
      signed.get "owner_pubkey_hex" = replayed.get "owner_pubkey_hex" ∧
      signed.get "owner_signature_hex" = replayed.get "owner_signature_hex" ∧
      (applySpecialNodeTransaction signed 0 .empty).toOption.map (·.entries.map (·.nodeId)) =
        some [str "n"] ∧
      (applySpecialNodeTransaction replayed 0 .empty).toOption.map (·.entries.map (·.nodeId)) =
        some [str "n" ++ between] := by
  refine ⟨?_, ?_, .inr ⟨str "mainnet", sharedPayload, ?_, ?_⟩, ?_⟩
  all_goals decide +kernel

end SampleOwner

end Chipcoin
