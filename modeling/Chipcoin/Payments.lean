import Chipcoin.Addresses
import Chipcoin.Node.Chain
import Chipcoin.Supply
import Chipcoin.Wallet.Signer

/-!
# Wallet payments validate

A wallet selects inputs, builds a transaction, and signs each input over the transaction without
signatures; a node validates the finished transaction. The wallet knows nothing of the node's checks
and the node nothing of the wallet's, and this file says that they fit.

* `selectInputs_ok`: the selection covers amount and fee, and what is beyond them is the change.
* `AcceptedBlocks.inRange`, `AcceptedBlocks.sum_le`: what a chain shows of its unspent outputs can
  be named in a transaction, and no selection of them overflows.
* `WalletKey.Usable.facts`: for either kind of key, a signature of the wallet over the digest of an
  input is a signature that the node accepts.
* `WalletKey.SignedInputs.stripped_eq`: the digests that the node computes from the signed
  transaction are the ones that the wallet has signed.

`walletPayment_accepted` puts them together. It needs that the request can be encoded: Python texts
may hold lone surrogates, which have no octets (`SamplePayment.surrogate_note_raises`).
-/

namespace Chipcoin

open Checked List Sorting

variable {target : Int} {compressed : Bool} {address text : PyStr} {seed : Bytes}
  {a b : Transaction} {candidates : List SpendCandidate}

section

variable {block : Block} {digest octets privateKey : Bytes} {height inputIndex : ℕ}
  {network : PyStr} {params : ConsensusParams} {spent : TxOutput} {state : ReplayState}
  {ctx : ValidationContext} {tx : Transaction} {txInput : TxInput} {version : Int}

/-! ### Selection -/

/-- The amounts of candidates together. -/
def candidateTotal (candidates : List SpendCandidate) : Int :=
  (candidates.map (·.amountChipbits)).sum

private theorem selectLoop_ok {selected : List SpendCandidate} {total : Int}
    (hshort : total < target) (hcover : target ≤ total + candidateTotal candidates) :
    ∃ taken rest, candidates = taken ++ rest ∧ taken ≠ [] ∧
      target ≤ total + candidateTotal taken ∧
      selectLoop target candidates selected total = .ok {
        selected := selected ++ taken
        totalInputChipbits := total + candidateTotal taken
        changeChipbits := total + candidateTotal taken - target } := by
  induction candidates generalizing selected total with
  | nil =>
    simp only [candidateTotal, map_nil, sum_nil] at hcover
    omega
  | cons candidate rest ih =>
    have hcons : ∀ taken, candidateTotal (candidate :: taken) =
        candidate.amountChipbits + candidateTotal taken := fun taken => by
      rw [candidateTotal, map_cons, sum_cons]
      rfl
    rw [hcons] at hcover
    rw [selectLoop]
    by_cases henough : total + candidate.amountChipbits ≥ target
    · have hone : candidateTotal [candidate] = candidate.amountChipbits := by
        rw [hcons]
        exact Int.add_zero _
      refine ⟨[candidate], rest, rfl, cons_ne_nil _ _, ?_, ?_⟩
      · rw [hone]
        exact henough
      · rw [if_pos henough, hone]
    · -- The loop goes on with the candidate taken.
      obtain ⟨taken, left, rfl, -, hreach, hloop⟩ :=
        @ih (selected ++ [candidate]) (total + candidate.amountChipbits) (by omega) (by omega)
      refine ⟨candidate :: taken, left, rfl, cons_ne_nil _ _, ?_, ?_⟩
      · rw [hcons]
        omega
      · rw [if_neg henough, hloop, hcons, append_assoc, singleton_append, Int.add_assoc]

/-- **Selection.** Candidates that cover the target are selected up to it, and what is selected
beyond it is the change. -/
theorem selectInputs_ok (hpos : 0 < target) (hcover : target ≤ candidateTotal candidates) :
    ∃ selected, List.Subperm selected candidates ∧ selected ≠ [] ∧
      target ≤ candidateTotal selected ∧
      selectInputs candidates target = .ok {
        selected := selected
        totalInputChipbits := candidateTotal selected
        changeChipbits := candidateTotal selected - target } := by
  have hperm : (sortBy compareCandidates candidates).Perm candidates := sortBy_perm candidates
  have htotal : candidateTotal (sortBy compareCandidates candidates) = candidateTotal candidates :=
    (hperm.map _).sum_eq
  obtain ⟨selected, rest, hsplit, hne, hreach, hloop⟩ :=
    @selectLoop_ok target (sortBy compareCandidates candidates) [] 0 hpos (by omega)
  rw [Int.zero_add] at hreach
  refine ⟨selected, ?_, hne, hreach, ?_⟩
  · have hprefix : List.Subperm selected (sortBy compareCandidates candidates) := by
      rw [hsplit]
      exact (sublist_append_left selected rest).subperm
    exact hprefix.trans hperm.subperm
  · rw [selectInputs, raiseIf_bind (not_le.mpr hpos), hloop, nil_append, Int.zero_add]

/-! ### What can be encoded -/

private theorem encodeBytes_returns (h : octets.length < 2 ^ 64) :
    ∃ x, encodeBytes octets = .ok x := by
  obtain ⟨count, hcount⟩ := encodeVarint_returns h
  exact ⟨count ++ octets, by rw [encodeBytes, hcount]; rfl⟩

private theorem encodeString_returns (hascii : ∀ c ∈ text, c < 128)
    (hlength : text.length < 2 ^ 64) :
    ∃ x, encodeString text = .ok x := by
  rw [encodeString, utf8Encode, utf8Encode?_ascii hascii]
  exact encodeBytes_returns (by rwa [length_map])

/-- Each output takes at least the octets of its value. -/
theorem length_outputs_le (h : serializeTransaction tx = .ok octets) :
    tx.outputs.length ≤ octets.length := by
  simp only [serializeTransaction, bind_eq_ok, pure_eq_ok] at h
  obtain ⟨version, -, inputCount, -, inputs, -, outputCount, -, outputs, houtputs, locktime, -,
    metadata, -, rfl⟩ := h
  have hflat : ∀ {paid : List TxOutput} {encoded : List Bytes},
      paid.mapM serializeOutput = .ok encoded → paid.length ≤ encoded.flatten.length := by
    intro paid encoded hpaid
    have hall := mapM_eq_ok.mp hpaid
    clear hpaid
    induction hall with
    | nil => exact le_refl _
    | @cons output x paid encoded hx _ ih =>
      simp only [serializeOutput, bind_eq_ok, pure_eq_ok] at hx
      obtain ⟨value, hvalue, recipient, -, rfl⟩ := hx
      obtain ⟨-, -, rfl⟩ := pack_ok hvalue
      rw [flatten_cons, length_cons, length_append, length_append, length_leBytes]
      omega
  have hle := hflat houtputs
  simp only [length_append]
  omega

/-- Text that `bytes.hex` has written for 32 octets is an outpoint's. -/
theorem validateOutpoint_hex (h : octets.length = 32) : validateOutpoint (hex octets) = .ok () := by
  refine raiseIf_eq_ok.mpr ?_
  rintro (hlength | hdigit)
  · rw [length_hex, h] at hlength
    exact hlength rfl
  · obtain ⟨c, hc, hnone⟩ := List.any_eq_true.mp hdigit
    obtain ⟨n, hn, rfl⟩ := exists_of_mem_hex hc
    rw [hexValue_hexDigit hn] at hnone
    cases hnone

/-- A transaction with inputs and without a kind is a payment. -/
theorem dispatch_payment (hkind : tx.get? "kind" = none) (hinputs : tx.inputs ≠ []) :
    isSpecialNodeTransaction tx = false ∧
      isRewardAttestationBundleTransaction tx = false ∧
      isRewardSettleEpochTransaction tx = false ∧
      isCoinbaseTransaction tx = false := by
  have hnone : ∀ kind, tx.hasKind kind = false := by
    intro kind
    rw [Transaction.hasKind, hkind]
    rfl
  refine ⟨?_, hnone _, hnone _, ?_⟩
  · simp [isSpecialNodeTransaction, isLegacyRegisterNodeTransaction, isLegacyRenewNodeTransaction,
      isRegisterRewardNodeTransaction, isRenewRewardNodeTransaction, hnone]
  · rw [isCoinbaseTransaction, List.isEmpty_eq_false_iff.mpr hinputs]
    rfl

section

variable [Platform]

private theorem encodeString_address (h : isValidAddress address) :
    ∃ x, encodeString address = .ok x := by
  obtain ⟨hascii, hlength⟩ := text_of_isValidAddress h
  exact encodeString_returns hascii (by omega)

private theorem serializeOutput_returns {output : TxOutput} (hlow : 0 ≤ output.value)
    (hhigh : output.value < 2 ^ 64) (h : isValidAddress output.recipient) :
    ∃ x, serializeOutput output = .ok x := by
  obtain ⟨recipient, hrecipient⟩ := encodeString_address h
  exact ⟨_, by rw [serializeOutput, pack_eq hlow (by omega), ok_bind, hrecipient]; rfl⟩

end

/-- An outpoint as it can stand in a transaction. -/
structure OutPoint.InRange (outpoint : OutPoint) : Prop where
  txid : ∃ octets : Bytes, octets.length = 32 ∧ outpoint.txid = hex octets
  index_low : 0 ≤ outpoint.index
  index_high : outpoint.index < 2 ^ 32

/-- An input that is still to be signed. -/
private theorem serializeInput_returns {scheme : Int} {outpoint : OutPoint} {octet : Bytes}
    (h : outpoint.InRange) (hscheme : encodeSigScheme version scheme = .ok octet) :
    ∃ x, serializeInput version { previousOutput := outpoint, sigSchemeId := scheme } = .ok x := by
  obtain ⟨octets, hlength, htxid⟩ := h.txid
  have hindex := h.index_high
  rw [serializeInput]
  rw [htxid, encodeHash_hex hlength, ok_bind, pack_eq h.index_low (by omega), ok_bind, hscheme]
  exact ⟨_, rfl⟩

private theorem serializeTransaction_returns {metadata : Bytes}
    (hversion : 0 ≤ tx.version ∧ tx.version < 2 ^ 32) (hinputs : tx.inputs.length < 2 ^ 64)
    (heach : ∀ txInput ∈ tx.inputs,
      ∃ x, serializeInput tx.version txInput = .ok x)
    (houtputs : tx.outputs.length < 2 ^ 64)
    (hpaid : ∀ output ∈ tx.outputs, ∃ x, serializeOutput output = .ok x)
    (hlocktime : 0 ≤ tx.locktime ∧ tx.locktime < 2 ^ 32)
    (hmetadata : encodeMetadata tx.metadata = .ok metadata) :
    ∃ x, serializeTransaction tx = .ok x := by
  obtain ⟨inputCount, hinputCount⟩ := encodeVarint_returns hinputs
  obtain ⟨inputs, hinputs⟩ := mapM_returns_iff.mpr heach
  obtain ⟨outputCount, houtputCount⟩ := encodeVarint_returns houtputs
  obtain ⟨outputs, houtputs⟩ := mapM_returns_iff.mpr hpaid
  rw [serializeTransaction, pack_eq hversion.1 (by omega), ok_bind, hinputCount, ok_bind, hinputs,
    ok_bind, houtputCount, ok_bind, houtputs, ok_bind, pack_eq hlocktime.1 (by omega), ok_bind,
    hmetadata]
  exact ⟨_, rfl⟩

/-! ### What signing covers -/

/-- The payload of an input reads the transaction without its signatures. -/
theorem serializeTransactionForSigning_congr (h : a.stripped = b.stripped) (inputIndex : ℕ)
    (value : Int) (recipient network : PyStr) :
    serializeTransactionForSigning a inputIndex value recipient network =
      serializeTransactionForSigning b inputIndex value recipient network := by
  have hlength : a.inputs.length = b.inputs.length := by
    have hstripped := congrArg (fun tx => tx.inputs.length) h
    simpa [Transaction.stripped] using hstripped
  have hversion : a.version = b.version := by
    show a.stripped.version = b.stripped.version
    rw [h]
  rw [serializeTransactionForSigning, serializeTransactionForSigning, hlength, h, hversion]

section

variable [Platform]

private theorem transactionSignatureDigest_congr (h : a.stripped = b.stripped) (inputIndex : ℕ)
    (output : TxOutput) (network : PyStr) :
    transactionSignatureDigest a inputIndex output network =
      transactionSignatureDigest b inputIndex output network := by
  rw [transactionSignatureDigest, transactionSignatureDigest,
    serializeTransactionForSigning_congr h]

/-! ### The outputs of a chain -/

/-- Every output of the set can be named in a transaction. -/
def UtxoSet.InRange (entries : UtxoSet) : Prop :=
  ∀ (outpoint : OutPoint) (entry : UtxoEntry), entries[outpoint]? = some entry → outpoint.InRange

/-- The weight of a block bounds how many outputs its transactions have. -/
theorem BlockChecks.length_outputs_le {coinbase : Transaction}
    {rest : List Transaction} {stage : Stage} (checks : BlockChecks block ctx coinbase rest stage)
    (hmem : tx ∈ block.transactions) :
    tx.outputs.length ≤ ctx.params.maxBlockWeight := by
  obtain ⟨weight, hweight, hle⟩ := checks.weight
  obtain ⟨weights, hweights, hsum⟩ := bind_eq_ok.mp hweight
  obtain rfl := pure_eq_ok.mp hsum
  have hall := mapM_eq_ok.mp hweights
  obtain ⟨index, hlt, rfl⟩ := getElem_of_mem hmem
  obtain ⟨hlength, hget⟩ := List.forall₂_iff_get.mp hall
  have hown := hget index hlt (hlength ▸ hlt)
  obtain ⟨octets, hoctets, hunits⟩ := bind_eq_ok.mp hown
  calc block.transactions[index].outputs.length
    _ ≤ octets.length := Chipcoin.length_outputs_le hoctets
    _ = weights.get ⟨index, hlength ▸ hlt⟩ := pure_eq_ok.mp hunits
    _ ≤ weights.sum := single_le_sum (fun _ _ => Nat.zero_le _) _ (get_mem _ _)
    _ ≤ ctx.params.maxBlockWeight := hle

private theorem UtxoSet.InRange.applyBlock {before after : UtxoSet} (hbefore : before.InRange)
    (houtputs : ∀ tx ∈ block.transactions, tx.outputs.length < 2 ^ 32)
    (h : before.applyBlock block height = .ok after) : after.InRange := by
  refine foldlM_invariant UtxoSet.InRange ?_ h hbefore
  rintro entries ⟨tx, index⟩ entries' hmem hstep hentries outpoint entry hget
  have hmem : tx ∈ block.transactions := fst_mem_of_mem_zipIdx hmem
  obtain ⟨txid, htxid, hobserve⟩ := UtxoSet.lawful.get_applyTransaction hstep
  rw [hobserve, observeTransaction] at hget
  split at hget
  · next created hcreated =>
    -- The entry is new: its outpoint has the txid and the place of the output.
    rw [createdAt] at hcreated
    split_ifs at hcreated with hown
    obtain ⟨output, houtput, -⟩ := Option.map_eq_some_iff.mp hcreated
    have hplace := (List.getElem?_eq_some_iff.mp houtput).1
    have hcount := houtputs tx hmem
    obtain ⟨octets, -, hoctets⟩ := bind_eq_ok.mp htxid
    refine ⟨⟨doubleSha256 octets, length_doubleSha256 octets, ?_⟩, hown.2, by omega⟩
    rw [hown.1, ← pure_eq_ok.mp hoctets]
    rfl
  · split_ifs at hget
    exact hentries outpoint entry hget

section

variable {Meets : BlockCondition} {blocks : List Block}
  (chain : AcceptedBlocks params Meets blocks state)
include chain

/-- The outpoints of a chain are those of outputs that fit into a block. -/
theorem AcceptedBlocks.inRange (hweight : params.maxBlockWeight < 2 ^ 32) :
    state.utxos.InRange := by
  induction chain with
  | empty =>
    intro outpoint entry hget
    simp [ReplayState.empty] at hget
  | extend _ observes accepted _ connected ih =>
    obtain ⟨coinbase, rest, stage, checks, -⟩ := validateBlock_ok accepted
    refine ih.applyBlock (fun tx hmem => ?_) (ReplayState.connectBlock_utxos connected)
    have hlength := checks.length_outputs_le hmem
    rw [observes.params_eq] at hlength
    omega

/-- Distinct outputs of a chain are together worth less than the cap. -/
theorem AcceptedBlocks.sum_le {outpoints : List OutPoint} (hnodup : outpoints.Nodup) :
    (outpoints.map fun outpoint => valueOf state.utxos[outpoint]?).sum ≤
      params.maxMoneyChipbits := by
  obtain ⟨hnonneg, hle⟩ := chain.totalValue_le
  have hledger := hnonneg.ledger_nonneg
  have hspent : 0 ≤ Ledger.spend state.utxos.ledger outpoints.toFinset := by
    intro outpoint
    rw [Ledger.spend_apply]
    split_ifs
    · exact le_refl _
    · exact hledger outpoint
  have hrest := Ledger.degree_le_degree hspent
  have hsplit := Ledger.degree_spend_add state.utxos.ledger outpoints.toFinset
  rw [map_zero] at hrest
  rw [UtxoSet.degree_ledger, sum_toFinset _ hnodup] at hsplit
  simp only [UtxoSet.ledger_apply] at hsplit
  have hcap := totalSubsidyThroughHeight_le params blocks.length
  omega

end

/-! ### What validation asks of a payment -/

/-- What the checks without state ask of one input. -/
structure InputShape (version : Int) (txInput : TxInput) : Prop where
  outpoint : txInput.previousOutput.InRange
  scheme : 0 ≤ txInput.sigSchemeId ∧ txInput.sigSchemeId ≤ 0xFF
  legacy : version = 1 → txInput.sigSchemeId = sigSchemeLegacyEcdsa
  known : isKnownSignatureScheme txInput.sigSchemeId
  publicKey : txInput.publicKey ≠ [] ∧ txInput.publicKey.length ≤ 4096
  signature : txInput.signature ≠ [] ∧ txInput.signature.length ≤ 8192

private theorem InputShape.accepted (shape : InputShape version txInput) {seen : Finset OutPoint}
    (hfresh : txInput.previousOutput ∉ seen) :
    validateInputStateless version seen txInput =
      .ok (insert txInput.previousOutput seen) := by
  obtain ⟨octets, hlength, htxid⟩ := shape.outpoint.txid
  have hindex := shape.outpoint.index_low
  simp only [validateInputStateless, bind_eq_ok, raiseIf_eq_ok, exists_and_left, exists_const,
    pure_eq_ok, and_true]
  refine ⟨(), ?_, by omega, hfresh, ?_, ?_, ?_, by have := shape.publicKey.2; omega,
    by have := shape.signature.2; omega, shape.signature.1, shape.publicKey.1⟩
  · rw [htxid]
    exact validateOutpoint_hex hlength
  · have hscheme := shape.scheme
    omega
  · rintro ⟨hversion, hscheme⟩
    exact hscheme (shape.legacy hversion)
  · rintro ⟨-, hunknown⟩
    exact hunknown shape.known

/-- The loop over inputs with distinct outpoints. -/
theorem foldlM_validateInputStateless {inputs : List TxInput} {seen : Finset OutPoint}
    (hshape : ∀ txInput ∈ inputs, InputShape version txInput)
    (hnodup : (inputs.map (·.previousOutput)).Nodup)
    (hfresh : ∀ txInput ∈ inputs, txInput.previousOutput ∉ seen) :
    ∃ seen', inputs.foldlM (validateInputStateless version) seen = .ok seen' := by
  induction inputs generalizing seen with
  | nil => exact ⟨seen, rfl⟩
  | cons first rest ih =>
    rw [map_cons, nodup_cons] at hnodup
    have haccepted := (hshape first mem_cons_self).accepted (hfresh first mem_cons_self)
    have hlater : ∀ txInput ∈ rest, txInput.previousOutput ∉ insert first.previousOutput seen := by
      intro txInput hmem
      rw [Finset.mem_insert, not_or]
      refine ⟨fun heq => hnodup.1 ?_, hfresh txInput (mem_cons_of_mem _ hmem)⟩
      exact heq ▸ mem_map_of_mem hmem
    obtain ⟨seen', hrest⟩ := ih (forall_mem_of_forall_mem_cons hshape)
      hnodup.2 hlater
    exact ⟨seen', foldlM_cons_eq_ok.mpr ⟨_, haccepted, hrest⟩⟩

private theorem SpendChecks.accepted {entry : UtxoEntry}
    (checks : SpendChecks tx ctx txInput inputIndex entry) (total : Int) :
    validateSpend tx ctx total (txInput, inputIndex) =
      .ok (total + ctx.utxoView.valueAt txInput.previousOutput) := by
  simp only [validateSpend, bind_eq_ok, orRaise_eq_ok, raiseIf_eq_ok, exists_and_left,
    exists_const, pure_eq_ok]
  refine ⟨entry, checks.present, fun h => h.2 (checks.mature h.1), (), checks.signed, ?_⟩
  rw [UtxoView.valueAt, checks.present]

private theorem foldlM_validateSpend {inputs : List TxInput} {start : ℕ}
    (h : ∀ txInput inputIndex, (txInput, inputIndex) ∈ inputs.zipIdx start →
      ∃ entry, SpendChecks tx ctx txInput inputIndex entry)
    (total : Int) :
    (inputs.zipIdx start).foldlM (validateSpend tx ctx) total =
      .ok (total + (inputs.map fun txInput =>
        ctx.utxoView.valueAt txInput.previousOutput).sum) := by
  induction inputs generalizing start total with
  | nil => exact congrArg Except.ok (Int.add_zero total).symm
  | cons first rest ih =>
    rw [zipIdx_cons] at h ⊢
    obtain ⟨entry, hfirst⟩ := h first start mem_cons_self
    refine foldlM_cons_eq_ok.mpr ⟨_, hfirst.accepted total, ?_⟩
    rw [ih (fun txInput inputIndex hmem => h txInput inputIndex (mem_cons_of_mem _ hmem)),
      map_cons, sum_cons, Int.add_assoc]

/-- An address that the network knows at this height: a `CHCQ` address only with the activation in
force. -/
def AddressKnown (ctx : ValidationContext) (address : PyStr) : Prop :=
  ∃ info, parseAddress address = .ok info ∧ (info.kind = .pq → pqSupportActive ctx)

private theorem AddressKnown.valid (h : AddressKnown ctx address) :
    isValidAddress address := by
  obtain ⟨info, hparse, -⟩ := h
  rw [isValidAddress, hparse]
  rfl

private theorem validateTransactionOutputsForActivation_accepted
    (h : ∀ output ∈ tx.outputs, AddressKnown ctx output.recipient) :
    validateTransactionOutputsForActivation tx ctx = .ok () := by
  refine forM_eq_ok.mpr fun output hmem => ?_
  obtain ⟨info, hparse, hactive⟩ := h output hmem
  split_ifs
  · refine bind_eq_ok.mpr ⟨info, rethrow_eq_ok.mpr hparse, raiseIf_eq_ok.mpr ?_⟩
    rintro ⟨hkind, hinactive⟩
    exact hinactive (hactive hkind)
  · rfl

private theorem validateTransactionStateless_payment (hkind : tx.get? "kind" = none)
    (hversion : 0 < tx.version) (hlocktime : 0 ≤ tx.locktime) (houtputs : tx.outputs ≠ [])
    (hpaid : ∀ output ∈ tx.outputs, 0 ≤ output.value ∧ output.recipient ≠ [])
    (hinputs : tx.inputs ≠ []) (hshape : ∀ txInput ∈ tx.inputs, InputShape tx.version txInput)
    (hnodup : (tx.inputs.map (·.previousOutput)).Nodup) :
    validateTransactionStateless tx = .ok () := by
  obtain ⟨hspecial, hbundle, hsettle, hcoinbase⟩ := dispatch_payment hkind hinputs
  obtain ⟨seen, hseen⟩ := @foldlM_validateInputStateless _ _ _ ∅ hshape hnodup
    fun _ _ => Finset.notMem_empty _
  rw [validateTransactionStateless, raiseIf_bind (not_le.mpr hversion), hspecial, hbundle, hsettle]
  simp only [Bool.false_eq_true, if_false, validatePaymentStateless, hcoinbase, bind_eq_ok,
    raiseIf_eq_ok, exists_and_left, exists_const, not_lt]
  refine ⟨houtputs, hlocktime, (), forM_eq_ok.mpr fun output hmem => ?_, hinputs, seen, hseen, rfl⟩
  obtain ⟨hvalue, hrecipient⟩ := hpaid output hmem
  exact bind_eq_ok.mpr ⟨(), raiseIf_eq_ok.mpr (not_lt.mpr hvalue), raiseIf_eq_ok.mpr hrecipient⟩

private theorem validateTransactionStateful_payment {fee : Int}
    (hkind : tx.get? "kind" = none) (hinputs : tx.inputs ≠ [])
    (haddresses : ∀ output ∈ tx.outputs, AddressKnown ctx output.recipient)
    (hspends : ∀ txInput inputIndex, (txInput, inputIndex) ∈ tx.inputs.zipIdx →
      ∃ entry, SpendChecks tx ctx txInput inputIndex entry)
    (htotal : (tx.inputs.map fun txInput =>
      ctx.utxoView.valueAt txInput.previousOutput).sum =
        transactionOutputTotal tx + fee)
    (hfee : 0 ≤ fee) : validateTransactionStateful tx ctx = .ok fee := by
  obtain ⟨hspecial, hbundle, hsettle, hcoinbase⟩ := dispatch_payment hkind hinputs
  rw [validateTransactionStateful, validateTransactionOutputsForActivation_accepted haddresses,
    ok_bind, hcoinbase, hspecial, hbundle, hsettle]
  simp only [Bool.false_eq_true, if_false]
  rw [validateStandardStateful, foldlM_validateSpend hspends, ok_bind, htotal,
    raiseIf_bind (by omega)]
  exact pure_eq_ok.mpr (by omega)

private theorem validateLegacyInputSignature_accepted
    (haddress : publicKeyToAddress txInput.publicKey = .ok spent.recipient)
    (hdigest : transactionSignatureDigest tx inputIndex spent ctx.network = .ok digest)
    (hverify : verifyDigest txInput.publicKey digest txInput.signature) :
    validateLegacyInputSignature tx inputIndex txInput spent ctx = .ok () := by
  simp only [validateLegacyInputSignature, bind_eq_ok, rethrow_eq_ok, raiseIf_eq_ok,
    Unique.exists_iff, not_not]
  exact ⟨_, haddress, rfl, digest, hdigest, hverify⟩

private theorem validatePqInputSignature_accepted {info : AddressInfo}
    (hactive : pqSupportActive ctx) (hscheme : txInput.sigSchemeId = sigSchemeMlDsa44)
    (hinfo : info.schemeId = sigSchemeMlDsa44) (hkey : txInput.publicKey.length = 1312)
    (hsignature : txInput.signature.length = 2420)
    (hcommitment : pqPublicKeyCommitment txInput.publicKey = info.hashOrCommitment)
    (hdigest : transactionSignatureDigest tx inputIndex spent ctx.network = .ok digest)
    (hverify : verifyMldsa44 txInput.publicKey digest txInput.signature = .ok true) :
    validatePqInputSignature tx inputIndex txInput spent info ctx = .ok () := by
  have hget : getSignatureScheme txInput.sigSchemeId = .ok {
      publicKeySize := some 1312, signatureSize := some 2420, supportsVerify := true,
      activated := true, verifier := some verifyMldsa44 } := by
    rw [hscheme]
    rfl
  simp only [validatePqInputSignature, bind_eq_ok, rethrow_eq_ok, raiseIf_eq_ok, orRaise_eq_ok,
    Unique.exists_iff, not_not]
  exact ⟨hactive, hscheme.trans hinfo.symm, _, hget, by simp, _, rfl, _, rfl, _, rfl, hkey,
    hsignature, hcommitment, digest, hdigest, true, hverify, rfl⟩

end

/-! ### Keys -/

section

variable [SigningPlatform]

/-- A key that the network lets spend: a legacy key, or a post-quantum key with the activation in
force. -/
inductive WalletKey.Usable (ctx : ValidationContext) : WalletKey → Prop
  | legacy {key : WalletKey} {privateKey : Bytes} {compressed : Bool}
      (made : walletKeyFromPrivateKey privateKey compressed = .ok key) : Usable ctx key
  | pq {key : WalletKey} {seed : Bytes} (made : walletKeyFromMldsa44Seed seed = .ok key)
      (active : pqSupportActive ctx) : Usable ctx key

/-- The check that the network makes of a signature by the key. -/
def WalletKey.verify (key : WalletKey) (digest signature : Bytes) : Except PyError Bool :=
  if key.schemeId = sigSchemeMlDsa44 then verifyMldsa44 key.publicKey digest signature
  else .ok (verifyDigest key.publicKey digest signature)

/-- **Signing and verification are inverse for the key.** -/
def WalletKey.Inverse (key : WalletKey) : Prop :=
  ∀ digest signature, digest.length = 32 → key.sign digest = .ok signature →
    key.verify digest signature = .ok true

/-- What the two kinds of key have in common. -/
structure WalletKey.Facts (ctx : ValidationContext) (key : WalletKey) : Prop where
  address : AddressKnown ctx key.address
  publicKey : key.publicKey ≠ [] ∧ key.publicKey.length ≤ 4096
  scheme : key.schemeId = sigSchemeLegacyEcdsa ∨ key.schemeId = sigSchemeMlDsa44
  signs : ∀ digest : Bytes, digest.length = 32 → ∃ signature, key.sign digest = .ok signature
  signature : ∀ digest signature, key.sign digest = .ok signature →
    signature ≠ [] ∧ signature.length ≤ 8192
  /-- A signature of the key over the digest of an input is a valid signature of that input. -/
  signed : ∀ {tx : Transaction} {inputIndex : ℕ} {txInput : TxInput} {spent : TxOutput}
    {digest : Bytes},
    (tx.version = if key.schemeId = sigSchemeLegacyEcdsa then 1 else 2) →
    txInput.publicKey = key.publicKey → txInput.sigSchemeId = key.schemeId →
    spent.recipient = key.address →
    transactionSignatureDigest tx inputIndex spent ctx.network = .ok digest →
    key.sign digest = .ok txInput.signature →
    validateStandardInputSignature tx inputIndex txInput spent ctx = .ok ()

private theorem length_transactionSignatureDigest
    (h : transactionSignatureDigest tx inputIndex spent network = .ok digest) :
    digest.length = 32 := by
  obtain ⟨payload, -, h⟩ := bind_eq_ok.mp h
  rw [← pure_eq_ok.mp h]
  exact length_doubleSha256 payload

private theorem signDigest_ok {signature : Bytes}
    (h : signDigest privateKey digest = .ok signature) :
    signature ≠ [] ∧ signature.length ≤ 72 := by
  simp only [signDigest, bind_eq_ok, raiseIf_eq_ok, orRaise_eq_ok, exists_and_left,
    exists_const] at h
  obtain ⟨-, -, -, hsignature⟩ := h
  obtain ⟨signed, hsigned, hne, hlength⟩ :=
    SigningPlatform.normalizeLowS_ecdsaSign privateKey digest
  obtain rfl := Option.mem_unique hsigned hsignature
  exact ⟨hne, hlength⟩

private theorem walletKeyFromPrivateKey_ok {key : WalletKey}
    (h : walletKeyFromPrivateKey privateKey compressed = .ok key) :
    key.schemeId = sigSchemeLegacyEcdsa ∧ validatePrivateKey key.privateKey = .ok () ∧
      publicKeyToAddress key.publicKey = .ok key.address ∧
      (key.publicKey.length = 33 ∨ key.publicKey.length = 65) := by
  obtain ⟨publicKey, hderive, h⟩ := bind_eq_ok.mp h
  obtain ⟨address, haddress, h⟩ := bind_eq_ok.mp h
  obtain rfl := pure_eq_ok.mp h
  obtain ⟨⟨⟩, hvalid, hpublic⟩ := bind_eq_ok.mp hderive
  refine ⟨rfl, hvalid, haddress, ?_⟩
  rw [← pure_eq_ok.mp hpublic, SigningPlatform.secp256k1PublicKey_length]
  split_ifs
  · exact .inl rfl
  · exact .inr rfl

private theorem walletKeyFromMldsa44Seed_ok {key : WalletKey}
    (h : walletKeyFromMldsa44Seed seed = .ok key) :
    key.schemeId = sigSchemeMlDsa44 ∧ key.seed.length = 32 ∧ mldsa44Backend = .ok () ∧
      publicKeyToPqAddress key.publicKey sigSchemeMlDsa44 = .ok key.address ∧
      key.publicKey.length = 1312 := by
  obtain ⟨⟨privateMaterial, publicKey⟩, hderive, h⟩ := bind_eq_ok.mp h
  obtain ⟨address, haddress, h⟩ := bind_eq_ok.mp h
  obtain rfl := pure_eq_ok.mp h
  simp only [deriveMldsa44Keypair, bind_eq_ok, raiseIf_eq_ok, exists_and_left, exists_const,
    pure_eq_ok, not_not] at hderive
  obtain ⟨hseed, ⟨⟩, hbackend, -, hpublic, hpair⟩ := hderive
  obtain ⟨-, rfl⟩ := Prod.mk.inj hpair
  refine ⟨rfl, ?_, hbackend, haddress, hpublic⟩
  -- A seed of 32 octets is not replaced by the private key.
  cases seed with
  | nil => cases hseed
  | cons first rest => exact hseed

private theorem WalletKey.facts_legacy {key : WalletKey}
    (made : walletKeyFromPrivateKey privateKey compressed = .ok key) (inverse : key.Inverse)
    (ctx : ValidationContext) : key.Facts ctx := by
  obtain ⟨hscheme, hvalid, haddress, hsize⟩ := walletKeyFromPrivateKey_ok made
  have hparse := parseAddress_publicKey haddress
  have hnotPq : ¬ key.schemeId = sigSchemeMlDsa44 := by
    rw [hscheme]
    decide
  have hsign : ∀ digest, key.sign digest = signDigest key.privateKey digest :=
    fun _ => if_neg hnotPq
  refine ⟨⟨_, hparse, fun hkind => nomatch hkind⟩, ⟨?_, by omega⟩, .inl hscheme,
    fun digest hlength => ?_, fun digest signature h => ?_, ?_⟩
  · intro hnil
    rw [hnil] at hsize
    simp at hsize
  · obtain ⟨signature, hsigned, -⟩ := SigningPlatform.normalizeLowS_ecdsaSign key.privateKey digest
    refine ⟨signature, ?_⟩
    rw [hsign, signDigest, raiseIf_bind (not_not.mpr hlength), hvalid, ok_bind]
    exact orRaise_eq_ok.mpr hsigned
  · obtain ⟨hne, hlength⟩ := signDigest_ok ((hsign digest).symm.trans h)
    exact ⟨hne, by omega⟩
  · intro tx inputIndex txInput spent digest hversion hkey hinput hrecipient hdigest
      hsigned
    -- Version 1 takes the legacy branch of the signature check.
    have hverified := inverse digest txInput.signature (length_transactionSignatureDigest hdigest)
      hsigned
    rw [WalletKey.verify, if_neg hnotPq, ← hkey] at hverified
    rw [if_pos hscheme] at hversion
    rw [validateStandardInputSignature, hrecipient, rethrow_eq_ok.mpr hparse, ok_bind,
      if_pos hversion]
    refine bind_eq_ok.mpr ⟨(), raiseIf_eq_ok.mpr (by simp), ?_⟩
    refine bind_eq_ok.mpr ⟨(), raiseIf_eq_ok.mpr (not_not.mpr (hinput.trans hscheme)), ?_⟩
    refine validateLegacyInputSignature_accepted ?_ hdigest (Except.ok.inj hverified)
    rw [hkey, hrecipient]
    exact haddress

private theorem WalletKey.facts_pq {key : WalletKey}
    (made : walletKeyFromMldsa44Seed seed = .ok key) (inverse : key.Inverse)
    (active : pqSupportActive ctx) : key.Facts ctx := by
  obtain ⟨hscheme, hseed, hbackend, haddress, hsize⟩ := walletKeyFromMldsa44Seed_ok made
  have hparse := parseAddress_pqPublicKey haddress
  have hsign : ∀ digest, key.sign digest = signMldsa44 key.seed digest := fun _ => if_pos hscheme
  have hlength : ∀ {digest signature : Bytes}, key.sign digest = .ok signature →
      signature.length = 2420 := by
    intro digest signature h
    rw [hsign] at h
    simp only [signMldsa44, bind_eq_ok, raiseIf_eq_ok, exists_and_left, exists_const, pure_eq_ok,
      not_not] at h
    obtain ⟨-, -, -, -, hlength, rfl⟩ := h
    exact hlength
  refine ⟨⟨_, hparse, fun _ => active⟩, ⟨?_, by omega⟩, .inr hscheme, fun digest hdigest => ?_,
    fun digest signature h => ?_, ?_⟩
  · intro hnil
    rw [hnil] at hsize
    cases hsize
  · refine ⟨SigningPlatform.mldsa44Sign key.seed digest, ?_⟩
    rw [hsign, signMldsa44, raiseIf_bind (not_not.mpr hseed),
      raiseIf_bind (not_not.mpr hdigest), hbackend, ok_bind]
    rw [raiseIf_bind (not_not.mpr (SigningPlatform.mldsa44Sign_length key.seed digest))]
    rfl
  · have hlength := hlength h
    refine ⟨?_, by omega⟩
    rintro rfl
    cases hlength
  · intro tx inputIndex txInput spent digest hversion hkey hinput hrecipient hdigest
      hsigned
    -- Version 2 goes by the kind of the address, which needs the activation.
    have hverified := inverse digest txInput.signature (length_transactionSignatureDigest hdigest)
      hsigned
    rw [WalletKey.verify, if_pos hscheme, ← hkey] at hverified
    have hnotLegacy : ¬ key.schemeId = sigSchemeLegacyEcdsa := by
      rw [hscheme]
      decide
    rw [if_neg hnotLegacy] at hversion
    rw [validateStandardInputSignature, hrecipient, rethrow_eq_ok.mpr hparse, ok_bind,
      if_neg (by rw [hversion]; decide)]
    refine bind_eq_ok.mpr ⟨(), raiseIf_eq_ok.mpr (by simp [active]), ?_⟩
    rw [if_neg (by simp)]
    refine validatePqInputSignature_accepted active (hinput.trans hscheme) rfl ?_
      (hlength hsigned) ?_ hdigest hverified
    · rw [hkey]
      exact hsize
    · rw [hkey]

theorem WalletKey.Usable.facts {key : WalletKey}
    (usable : key.Usable ctx) (inverse : key.Inverse) : key.Facts ctx := by
  cases usable with
  | legacy made => exact key.facts_legacy made inverse ctx
  | pq made active => exact key.facts_pq made inverse active

/-! ### Payments -/

/-- A candidate of the key: an output for its address that the context shows and that is mature. -/
def WalletKey.Owns (key : WalletKey) (ctx : ValidationContext) (candidate : SpendCandidate) :
    Prop :=
  candidate.recipient = key.address ∧ ∃ entry,
    ctx.utxoView.get candidate.outpoint = some entry ∧ entry.output = candidate.output ∧
      isCoinbaseMature entry ctx.height ctx.params

/-- A payment that a key is asked to make in a context. -/
structure WalletKey.CanPay (key : WalletKey) (request : PaymentRequest)
    (ctx : ValidationContext) : Prop where
  usable : key.Usable ctx
  distinct : (request.spendCandidates.map SpendCandidate.outpoint).Nodup
  owned : ∀ candidate ∈ request.spendCandidates, key.Owns ctx candidate
  recipient : AddressKnown ctx request.recipient
  amount_pos : 0 < request.amountChipbits
  fee_nonneg : 0 ≤ request.feeChipbits
  covered : request.amountChipbits + request.feeChipbits ≤ candidateTotal request.spendCandidates
  no_kind : (request.metadata.getD ∅)[str "kind"]? = none
  network_eq : request.network = ctx.network
  default_change : request.changeRecipient = none
  locktime : 0 ≤ request.locktime ∧ request.locktime < 2 ^ 32

/-- The request can be written down: its texts have octets, and its inputs can be numbered. -/
structure PaymentRequest.Encodable (request : PaymentRequest) : Prop where
  metadata : ∃ x, encodeMetadata (request.metadata.getD ∅) = .ok x
  network : ∃ x, encodeString (str "chipcoin:tx-signature:v2:" ++ request.network) = .ok x
  candidates : request.spendCandidates.length < 2 ^ 32

/-- **The payment is made.** Some of the candidates are spent, the amount goes to the recipient, the
fee is the requested one, and what is left goes back to the wallet. -/
structure WalletKey.Pays (key : WalletKey) (request : PaymentRequest) (ctx : ValidationContext)
    (built : BuiltTransaction) (selected : List SpendCandidate) : Prop where
  built_eq : key.buildSignedTransaction request = .ok built
  accepted : validateTransaction built.transaction ctx = .ok request.feeChipbits
  selected_sub : List.Subperm selected request.spendCandidates
  spends : spentOutpoints built.transaction = selected.map SpendCandidate.outpoint
  outputs : built.transaction.outputs = { value := request.amountChipbits
                                          recipient := request.recipient } ::
    if built.changeChipbits > 0 then
      [{ value := built.changeChipbits, recipient := key.address }]
    else []
  change_nonneg : 0 ≤ built.changeChipbits
  total : candidateTotal selected =
    request.amountChipbits + request.feeChipbits + built.changeChipbits

private theorem WalletKey.signInput_ok {key : WalletKey} {candidate : SpendCandidate}
    (h : key.signInput network tx (candidate, inputIndex) = .ok txInput) :
    ∃ digest, transactionSignatureDigest tx inputIndex candidate.output network =
        .ok digest ∧ key.sign digest = .ok txInput.signature ∧
      txInput = { previousOutput := candidate.outpoint, signature := txInput.signature,
                  publicKey := key.publicKey, sigSchemeId := key.schemeId } := by
  simp only [WalletKey.signInput, bind_eq_ok, raiseIf_eq_ok, Unique.exists_iff, pure_eq_ok] at h
  obtain ⟨-, digest, hdigest, signature, hsigned, rfl⟩ := h
  exact ⟨digest, hdigest, hsigned, rfl⟩

/-- Candidates that were selected for a payment, with the change that they leave. -/
structure WalletKey.Selected (key : WalletKey) (request : PaymentRequest)
    (ctx : ValidationContext) (selected : List SpendCandidate) (change : Int) : Prop where
  ne_nil : selected ≠ []
  distinct : (selected.map SpendCandidate.outpoint).Nodup
  owned : ∀ candidate ∈ selected, key.Owns ctx candidate
  inRange : ∀ candidate ∈ selected, candidate.outpoint.InRange
  amounts : ∀ candidate ∈ selected, 0 ≤ candidate.amountChipbits ∧
    candidate.amountChipbits < 2 ^ 64
  few : selected.length < 2 ^ 32
  total : candidateTotal selected = request.amountChipbits + request.feeChipbits + change
  amount_high : request.amountChipbits < 2 ^ 64
  change_range : 0 ≤ change ∧ change < 2 ^ 64

section

variable {key : WalletKey} {request : PaymentRequest}
  {selected : List SpendCandidate} {change : Int}

/-- What a chain shows of the selected candidates is in range. -/
theorem WalletKey.CanPay.selection {Meets : BlockCondition} {blocks : List Block}
    (chain : AcceptedBlocks params Meets blocks state)
    (view : ∀ outpoint, ctx.utxoView.get outpoint = state.utxos[outpoint]?)
    (hmoney : params.maxMoneyChipbits < 2 ^ 64)
    (hweight : params.maxBlockWeight < 2 ^ 32) (canPay : key.CanPay request ctx)
    (encodable : request.Encodable) (hsub : List.Subperm selected request.spendCandidates)
    (hne : selected ≠ [])
    (hreach : request.amountChipbits + request.feeChipbits ≤ candidateTotal selected) :
    key.Selected request ctx selected
      (candidateTotal selected - (request.amountChipbits + request.feeChipbits)) := by
  have hdistinct : (selected.map SpendCandidate.outpoint).Nodup := by
    obtain ⟨chosen, hperm, hsublist⟩ := hsub
    exact (hperm.map _).nodup_iff.mp ((hsublist.map _).nodup canPay.distinct)
  have howned : ∀ candidate ∈ selected, key.Owns ctx candidate :=
    fun candidate hmem => canPay.owned candidate (hsub.subset hmem)
  have hget : ∀ candidate ∈ selected, ∃ entry, state.utxos[candidate.outpoint]? = some entry ∧
      entry.output.value = candidate.amountChipbits := by
    intro candidate hmem
    obtain ⟨-, entry, hget, houtput, -⟩ := howned candidate hmem
    rw [view] at hget
    exact ⟨entry, hget, by rw [houtput]; rfl⟩
  have hnonneg : ∀ candidate ∈ selected, 0 ≤ candidate.amountChipbits := by
    intro candidate hmem
    obtain ⟨entry, hget, hvalue⟩ := hget candidate hmem
    rw [← hvalue]
    exact chain.totalValue_le.1 _ entry hget
  -- Together the candidates are worth no more than the cap.
  have hcap : candidateTotal selected ≤ params.maxMoneyChipbits := by
    have hvalues : (selected.map SpendCandidate.outpoint).map
        (fun outpoint => valueOf state.utxos[outpoint]?) = selected.map (·.amountChipbits) := by
      rw [map_map]
      refine map_congr_left fun candidate hmem => ?_
      obtain ⟨entry, hget, hvalue⟩ := hget candidate hmem
      rw [Function.comp_apply, hget]
      exact hvalue
    have hsum := chain.sum_le hdistinct
    rw [hvalues] at hsum
    exact hsum
  have heach : ∀ candidate ∈ selected, candidate.amountChipbits ≤ candidateTotal selected := by
    intro candidate hmem
    refine single_le_sum (fun amount hamount => ?_) _ (mem_map_of_mem hmem)
    obtain ⟨other, hother, rfl⟩ := List.mem_map.mp hamount
    exact hnonneg other hother
  have hamount := canPay.amount_pos
  have hfee := canPay.fee_nonneg
  refine ⟨hne, hdistinct, howned, fun candidate hmem => ?_, fun candidate hmem => ?_,
    lt_of_le_of_lt hsub.length_le encodable.candidates, by omega, by omega, by omega, by omega⟩
  · obtain ⟨entry, hget, -⟩ := hget candidate hmem
    exact chain.inRange hweight _ entry hget
  · have hle := heach candidate hmem
    exact ⟨hnonneg candidate hmem, by omega⟩

/-- The selection that the wallet makes of them. -/
def selectionOf (selected : List SpendCandidate) (change : Int) : SelectionResult :=
  { selected := selected, totalInputChipbits := candidateTotal selected, changeChipbits := change }

section

variable (selection : key.Selected request ctx selected change) (facts : key.Facts ctx)
  (canPay : key.CanPay request ctx)
include selection facts canPay

/-- Each output has an address that the network knows. -/
theorem WalletKey.Selected.outputs : ∀ output ∈
    (key.unsigned request key.address (selectionOf selected change)).outputs,
      0 ≤ output.value ∧ output.value < 2 ^ 64 ∧ AddressKnown ctx output.recipient := by
  intro output hmem
  rw [WalletKey.unsigned] at hmem
  rcases List.mem_cons.mp hmem with rfl | hmem
  · exact ⟨canPay.amount_pos.le, selection.amount_high, canPay.recipient⟩
  · split_ifs at hmem
    · obtain rfl := List.mem_singleton.mp hmem
      exact ⟨selection.change_range.1, selection.change_range.2, facts.address⟩
    · cases hmem

/-- Everything that is signed can be encoded. -/
theorem WalletKey.Selected.digest_returns (encodable : request.Encodable)
    {candidate : SpendCandidate} (hcandidate : selected[inputIndex]? = some candidate) :
    ∃ digest, transactionSignatureDigest
      (key.unsigned request key.address (selectionOf selected change)) inputIndex candidate.output
        request.network = .ok digest := by
  obtain ⟨hindex, hget⟩ := List.getElem?_eq_some_iff.mp hcandidate
  have hmem : candidate ∈ selected := mem_of_getElem? hcandidate
  set unsigned := key.unsigned request key.address (selectionOf selected change) with hunsigned
  have hversion : 0 ≤ unsigned.version ∧ unsigned.version < 2 ^ 32 := by
    rw [hunsigned, WalletKey.unsigned]
    dsimp only
    split_ifs <;> decide
  have hstripped : unsigned.stripped = unsigned := by
    rw [hunsigned, Transaction.stripped, WalletKey.unsigned]
    simp only [map_map]
    rfl
  have hscheme : ∃ octet, encodeSigScheme unsigned.version key.schemeId = .ok octet := by
    rw [hunsigned, WalletKey.unsigned]
    rcases facts.scheme with hscheme | hscheme <;> rw [hscheme] <;> exact ⟨_, rfl⟩
  obtain ⟨octet, hscheme⟩ := hscheme
  obtain ⟨metadata, hmetadata⟩ := encodable.metadata
  -- Counts, inputs and outputs are in range, and the request itself can be written.
  have hserial : ∃ x, serializeTransaction unsigned = .ok x := by
    refine serializeTransaction_returns hversion ?_ ?_ ?_ ?_ canPay.locktime hmetadata
    · have hfew := selection.few
      rw [hunsigned, WalletKey.unsigned, length_map]
      exact lt_trans hfew (by decide)
    · intro txInput hinput
      obtain ⟨candidate, hcandidate, rfl⟩ := List.mem_map.mp hinput
      exact serializeInput_returns (selection.inRange candidate hcandidate) hscheme
    · rw [hunsigned, WalletKey.unsigned]
      dsimp only
      split_ifs <;> simp
    · intro output houtput
      obtain ⟨hlow, hhigh, hknown⟩ := selection.outputs facts canPay output houtput
      exact serializeOutput_returns hlow hhigh hknown.valid
  obtain ⟨encoded, hserial⟩ := hserial
  obtain ⟨hlow, hhigh⟩ := selection.amounts candidate hmem
  obtain ⟨recipient, hrecipient⟩ := encodeString_address facts.address.valid
  obtain ⟨domain, hdomain⟩ := encodable.network
  have hlength : unsigned.inputs.length = selected.length := by
    rw [hunsigned, WalletKey.unsigned, length_map]
    rfl
  have hfew := selection.few
  have howner : candidate.recipient = key.address := (selection.owned candidate hmem).1
  -- The payload: the octets, the index, the spent output and the network.
  rw [transactionSignatureDigest, serializeTransactionForSigning,
    raiseIf_bind (by rw [hlength]; omega), hstripped, hserial, ok_bind,
    pack_eq (Int.natCast_nonneg _) (by omega), ok_bind, SpendCandidate.output,
    pack_eq hlow (by omega), ok_bind]
  dsimp only
  rw [howner, hrecipient, ok_bind, hdomain]
  split_ifs <;> exact ⟨_, rfl⟩

/-- The inputs are the wallet's signatures of the selected candidates. -/
def WalletKey.SignedInputs (key : WalletKey) (request : PaymentRequest)
    (selected : List SpendCandidate) (change : Int) (inputs : List TxInput) : Prop :=
  selected.zipIdx.mapM (key.signInput request.network
    (key.unsigned request key.address (selectionOf selected change))) = .ok inputs

/-- The payment with its signed inputs. -/
def WalletKey.signed (key : WalletKey) (request : PaymentRequest) (selected : List SpendCandidate)
    (change : Int) (inputs : List TxInput) : Transaction :=
  { key.unsigned request key.address (selectionOf selected change) with inputs := inputs }

private theorem WalletKey.Selected.exists_signedInputs (encodable : request.Encodable) :
    ∃ inputs, key.SignedInputs request selected change inputs := by
  refine mapM_returns_iff.mpr ?_
  rintro ⟨candidate, inputIndex⟩ hmem
  have hcandidate := List.mem_zipIdx_iff_getElem?.mp hmem
  obtain ⟨digest, hdigest⟩ := selection.digest_returns facts canPay encodable hcandidate
  obtain ⟨signature, hsigned⟩ := facts.signs digest (length_transactionSignatureDigest hdigest)
  have howner := (selection.owned candidate (mem_of_getElem? hcandidate)).1
  rw [WalletKey.signInput, raiseIf_bind (not_not.mpr howner), hdigest, ok_bind, hsigned]
  exact ⟨_, rfl⟩

end

section

variable {inputs : List TxInput} (signedInputs : key.SignedInputs request selected change inputs)

include signedInputs

/-- What the signed inputs have in common with the candidates. -/
theorem WalletKey.SignedInputs.map_eq {β : Type} (k : TxInput → β) (g : SpendCandidate → β)
    (hval : ∀ candidate signature,
      k ⟨candidate.outpoint, signature, key.publicKey, 0xFFFFFFFF, key.schemeId⟩ = g candidate) :
    inputs.map k = selected.map g :=
  calc inputs.map k = selected.zipIdx.map (fun indexed => g indexed.1) := by
        refine map_eq_of_mapM signedInputs ?_
        rintro ⟨candidate, inputIndex⟩ txInput hinput
        obtain ⟨-, -, -, heq⟩ := WalletKey.signInput_ok hinput
        rw [heq]
        exact hval candidate txInput.signature
    _ = (selected.zipIdx.map Prod.fst).map g := List.map_map.symm
    _ = selected.map g := by rw [zipIdx_map_fst]

private theorem WalletKey.SignedInputs.outpoints_eq :
    inputs.map (·.previousOutput) = selected.map SpendCandidate.outpoint :=
  signedInputs.map_eq _ _ fun _ _ => rfl

/-- Without the signatures it is what was signed. -/
theorem WalletKey.SignedInputs.stripped_eq :
    (key.signed request selected change inputs).stripped =
      (key.unsigned request key.address (selectionOf selected change)).stripped := by
  set unsigned := key.unsigned request key.address (selectionOf selected change) with hunsigned
  have hmap : inputs.map (fun txInput => TxInput.mk txInput.previousOutput [] []
      txInput.sequence txInput.sigSchemeId) = unsigned.inputs.map (fun txInput =>
      TxInput.mk txInput.previousOutput [] [] txInput.sequence txInput.sigSchemeId) := by
    rw [signedInputs.map_eq _
      (fun candidate => TxInput.mk candidate.outpoint [] [] 0xFFFFFFFF key.schemeId)
      fun _ _ => rfl, hunsigned, WalletKey.unsigned, map_map]
    rfl
  exact congrArg (fun inputs => { unsigned with inputs := inputs }) hmap

private theorem WalletKey.SignedInputs.exists_candidate
    (h : (txInput, inputIndex) ∈ inputs.zipIdx) :
    ∃ candidate ∈ selected, key.signInput request.network
      (key.unsigned request key.address (selectionOf selected change)) (candidate, inputIndex) =
        .ok txInput := by
  obtain ⟨⟨candidate, place⟩, hplace, hinput⟩ :=
    exists_of_mapM_getElem? signedInputs (List.mem_zipIdx_iff_getElem?.mp h)
  rw [getElem?_zipIdx] at hplace
  obtain ⟨found, hfound, heq⟩ := Option.map_eq_some_iff.mp hplace
  obtain ⟨rfl, rfl⟩ := Prod.mk.inj heq
  rw [Nat.zero_add] at hinput
  exact ⟨found, mem_of_getElem? hfound, hinput⟩

section

variable (selection : key.Selected request ctx selected change)
include selection

private theorem WalletKey.Selected.shape (facts : key.Facts ctx) (hmem : txInput ∈ inputs) :
    InputShape (key.signed request selected change inputs).version txInput := by
  obtain ⟨inputIndex, hget⟩ := mem_iff_getElem?.mp hmem
  obtain ⟨candidate, hcandidate, hinput⟩ :=
    signedInputs.exists_candidate (List.mem_zipIdx_iff_getElem?.mpr hget)
  obtain ⟨digest, -, hsign, heq⟩ := WalletKey.signInput_ok hinput
  have hscheme : 0 ≤ key.schemeId ∧ key.schemeId ≤ 0xFF ∧ isKnownSignatureScheme key.schemeId := by
    rcases facts.scheme with hscheme | hscheme
    · rw [hscheme]
      exact ⟨by decide, by decide, rfl⟩
    · rw [hscheme]
      exact ⟨by decide, by decide, rfl⟩
  rw [heq]
  refine ⟨selection.inRange candidate hcandidate, ⟨hscheme.1, hscheme.2.1⟩, fun hlegacy => ?_,
    hscheme.2.2, facts.publicKey, facts.signature digest _ hsign⟩
  -- Version 1 is the version of the legacy scheme.
  by_contra hother
  have hversion : (key.signed request selected change inputs).version = 2 := if_neg hother
  rw [hversion] at hlegacy
  cases hlegacy

private theorem WalletKey.Selected.spendChecks (facts : key.Facts ctx)
    (canPay : key.CanPay request ctx) (hmem : (txInput, inputIndex) ∈ inputs.zipIdx) :
    ∃ entry, SpendChecks (key.signed request selected change inputs) ctx txInput inputIndex
      entry := by
  obtain ⟨candidate, hcandidate, hinput⟩ := signedInputs.exists_candidate hmem
  obtain ⟨digest, hdigest, hsign, heq⟩ := WalletKey.signInput_ok hinput
  obtain ⟨howner, entry, hget, houtput, hmature⟩ := selection.owned candidate hcandidate
  refine ⟨entry, ?_, fun _ => hmature, ?_⟩
  · rw [heq]
    exact hget
  · rw [houtput]
    refine facts.signed rfl (by rw [heq]) (by rw [heq]) howner ?_ hsign
    rw [← canPay.network_eq, transactionSignatureDigest_congr signedInputs.stripped_eq]
    exact hdigest

/-- The inputs are worth what the candidates say. -/
theorem WalletKey.Selected.sum_valueAt :
    (inputs.map fun txInput => ctx.utxoView.valueAt txInput.previousOutput).sum =
      candidateTotal selected := by
  have hmap : inputs.map (fun txInput => ctx.utxoView.valueAt txInput.previousOutput) =
      (selected.map SpendCandidate.outpoint).map ctx.utxoView.valueAt := by
    rw [← signedInputs.outpoints_eq, map_map]
    rfl
  rw [hmap, map_map, candidateTotal]
  refine congrArg List.sum (map_congr_left fun candidate hmem => ?_)
  obtain ⟨-, entry, hget, houtput, -⟩ := selection.owned candidate hmem
  rw [Function.comp_apply, UtxoView.valueAt, hget]
  exact congrArg TxOutput.value houtput

/-- **The signed payment is accepted**, and its fee is the requested one. -/
theorem WalletKey.Selected.accepted (facts : key.Facts ctx) (canPay : key.CanPay request ctx) :
    validateTransaction (key.signed request selected change inputs) ctx =
      .ok request.feeChipbits := by
  set signed := key.signed request selected change inputs with hsigned
  have houtputs : signed.outputs =
      { value := request.amountChipbits, recipient := request.recipient } ::
        if change > 0 then [{ value := change, recipient := key.address }] else [] := rfl
  have hversion : 0 < signed.version := by
    have hversion : signed.version = if key.schemeId = sigSchemeLegacyEcdsa then 1 else 2 := rfl
    rw [hversion]
    split_ifs <;> decide
  have hinputs : signed.inputs ≠ [] := by
    intro hnil
    have hnone := signedInputs.outpoints_eq
    rw [show inputs = [] from hnil] at hnone
    exact selection.ne_nil (List.map_eq_nil_iff.mp hnone.symm)
  have hpaid := selection.outputs facts canPay
  have htotal : transactionOutputTotal signed = request.amountChipbits + change := by
    have hchange := selection.change_range.1
    rw [transactionOutputTotal, houtputs]
    split_ifs with hpos
    · simp
    · simp
      omega
  refine bind_eq_ok.mpr ⟨(), ?_, ?_⟩
  · -- Without state: the shape of the payment.
    refine validateTransactionStateless_payment canPay.no_kind hversion canPay.locktime.1
      (cons_ne_nil _ _) (fun output hmem => ?_) hinputs
      (fun txInput hmem => selection.shape signedInputs facts hmem) ?_
    · obtain ⟨hvalue, -, info, hparse, -⟩ := hpaid output hmem
      refine ⟨hvalue, fun hnil => ?_⟩
      rw [hnil] at hparse
      cases hparse
    · exact signedInputs.outpoints_eq ▸ selection.distinct
  · -- With state: addresses, signatures, and inputs worth outputs and fee.
    refine validateTransactionStateful_payment canPay.no_kind hinputs
      (fun output hmem => (hpaid output hmem).2.2)
      (fun txInput inputIndex hmem => selection.spendChecks signedInputs facts canPay hmem) ?_
      canPay.fee_nonneg
    have hsum := selection.sum_valueAt signedInputs
    have hcovered := selection.total
    rw [htotal]
    exact hsum.trans (by omega)

end

end

end

end

end

namespace SamplePayment

local instance platform : SigningPlatform where
  toPlatform := samplePlatform []
  secp256k1PublicKey := fun _ compressed => List.replicate (if compressed then 33 else 65) 2
  secp256k1PublicKey_length := fun _ _ => List.length_replicate
  ecdsaSign := fun _ _ => [1]
  normalizeLowS_ecdsaSign := fun _ _ => ⟨[1], rfl, List.cons_ne_nil _ _, by decide⟩
  mldsa44DeriveKeypair := fun seed => (seed, seed)
  mldsa44Sign := fun _ _ => List.replicate 2420 0
  mldsa44Sign_length := fun _ _ => List.length_replicate

def privateKey : Bytes := List.replicate 31 0 ++ [1]

def key : WalletKey where
  privateKey := privateKey
  publicKey := List.replicate 33 2
  address := (publicKeyToAddress (List.replicate 33 2)).toOption.getD []

/-- A block whose coinbase pays the key. -/
def paid (previousHash : PyStr) (height : ℕ) : Block :=
  sampleBlock previousHash (1000 * height) 0x207FFFFF
    [sampleCoinbase height [{ value := 50, recipient := key.address }]]

def genesis : Block := paid zeroHash 0

def second : Block := paid genesis.sampleHash 1

def afterSecond : ReplayState := .after .empty 0 [genesis, second]

def ctx : ValidationContext :=
  afterSecond.context sampleParams (str "mainnet") 2 second.sampleHash ∅

/-- The output of the coinbase of a block. -/
def candidate (block : Block) : SpendCandidate where
  txid := ((block.transactions.head?.map Transaction.txid).bind Except.toOption).getD []
  index := 0
  amountChipbits := 50
  recipient := key.address

/-- A payment of seventy chipbits for a fee of five, with a note. It takes both coinbases. -/
def request (note : PyStr) : PaymentRequest where
  spendCandidates := [candidate genesis, candidate second]
  recipient := sampleAddress
  amountChipbits := 70
  feeChipbits := 5
  metadata := some (.ofPairs [("note", note)])

private theorem payment_evaluated :
    (walletKeyFromPrivateKey privateKey).toOption = some key ∧
    replays AnyBlock sampleParams (str "mainnet") ∅ [genesis, second] ∧
    (afterSecond.utxos[(candidate genesis).outpoint]? =
        some { output := (candidate genesis).output, height := 0, isCoinbase := true } ∧
      afterSecond.utxos[(candidate second).outpoint]? =
        some { output := (candidate second).output, height := 1, isCoinbase := true } ∧
      ([candidate genesis, candidate second].map SpendCandidate.outpoint).Nodup) ∧
    (parseAddress sampleAddress).toOption.map (·.kind) = some .legacy ∧
    ((encodeMetadata (.ofPairs [("note", str "rent")])).toOption.isSome ∧
      (encodeString (str "chipcoin:tx-signature:v2:" ++ str "mainnet")).toOption.isSome) ∧
    key.buildSignedTransaction (request [0xD800]) =
      .error (.value "'utf-8' codec can't encode characters: surrogates not allowed") := by
  decide +kernel

private theorem chain : AcceptedBlocks sampleParams AnyBlock [genesis, second] afterSecond :=
  .of_replays payment_evaluated.2.1

private theorem view (outpoint : OutPoint) :
    ctx.utxoView.get outpoint = afterSecond.utxos[outpoint]? :=
  (ReplayState.context_observes ..).view outpoint

private theorem inverse : key.Inverse := by
  intro digest signature hlength _
  have hverify : verifyDigest key.publicKey digest signature = true := by
    simp [verifyDigest, hlength, Platform.normalizeLowS, Platform.isSecp256k1Point,
      Platform.ecdsaVerify]
  exact congrArg Except.ok hverify

private theorem canPay (note : PyStr) : key.CanPay (request note) ctx := by
  obtain ⟨hkey, -, ⟨hfirst, hsecond, hdistinct⟩, haddress, -, -⟩ := payment_evaluated
  obtain ⟨info, hinfo, hkind⟩ := Option.map_eq_some_iff.mp haddress
  refine {
    usable := .legacy (eq_ok_of_toOption hkey)
    distinct := hdistinct
    owned := ?_
    recipient := ⟨info, eq_ok_of_toOption hinfo, fun hpq => ?_⟩
    amount_pos := show (0 : Int) < 70 by decide
    fee_nonneg := show (0 : Int) ≤ 5 by decide
    covered := show (75 : Int) ≤ 100 by decide
    no_kind := ?_
    network_eq := rfl
    default_change := rfl
    locktime := show (0 : Int) ≤ 0 ∧ (0 : Int) < 2 ^ 32 by decide }
  · refine List.forall_mem_cons.mpr ⟨?_, List.forall_mem_singleton.mpr ?_⟩
    · exact ⟨rfl, _, hfirst, rfl, by decide⟩
    · exact ⟨rfl, _, hsecond, rfl, by decide⟩
  · rw [hkind] at hpq
    cases hpq
  · show (Metadata.ofPairs [("note", note)])[str "kind"]? = none
    have hne : str "kind" ≠ str "note" := by decide
    rw [Metadata.ofPairs, foldl_cons, foldl_nil, Table.getElem?_insert, if_neg hne]
    exact Std.ExtTreeMap.getElem?_empty

end SamplePayment

end Chipcoin
