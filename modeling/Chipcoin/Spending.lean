import Chipcoin.Consensus.Acceptance

/-!
# Authorised spending

An output leaves the UTXO set only when one input of one standard transaction of the block spends
it, with a signature for the address that the spent entry names.

The difficulty is that validation and application look at different states: a transaction is
checked against the view staged by the transactions before it, without the coinbase, while
`apply_block` runs every transaction on the real set. The argument has three parts.

* What disappears from the real set is spent by some input (`exists_spend_of_absent`).
* The block loop lets no outpoint be spent twice (`StageRun.nodup_spends`).
* As long as an outpoint is not spent, the staged view shows the entry it showed at the start, or
  one that an earlier transaction of the block has created there (`StageRun.view`).

`authorised_spending` puts them together. The second alternative of the last part is real:
`recreatedSpend_accepted` is a block in which an immature coinbase output is spent through a
re-creation of its outpoint.
-/

namespace Chipcoin

open Checked List

section

variable {ctx : ValidationContext} {height inputIndex : ℕ} {spent : TxOutput}
  {stage stage' : Stage} {tx : Transaction} {txInput : TxInput} {u : Unit}

/-- The double-spend check over a list of inputs. -/
theorem foldlM_stageSpend_ok {inputs : List TxInput} {seen seen' : Finset OutPoint}
    (h : inputs.foldlM stageSpend seen = .ok seen') :
    (inputs.map (·.previousOutput)).Nodup ∧
      (∀ outpoint ∈ inputs.map (·.previousOutput), outpoint ∉ seen) ∧
      seen' = seen ∪ (inputs.map (·.previousOutput)).toFinset := by
  refine foldlM_seen id TxInput.previousOutput (fun seen txInput seen' hstep => ?_) h
  simp only [stageSpend, bind_eq_ok, raiseIf_eq_ok, Unique.exists_iff, pure_eq_ok] at hstep
  exact ⟨hstep.1, hstep.2.symm⟩

variable [Platform]

/-! ### What a signature check establishes -/

/-- The input is signed for the output it spends: for a `CHC` recipient the public key has that
address and the ECDSA signature verifies, for a `CHCQ` recipient the scheme and the commitment of
the public key are those of the address and the ML-DSA signature verifies; in both cases over the
signature digest of the transaction, the input index, the spent output and the network. -/
def InputAuthorised (tx : Transaction) (inputIndex : ℕ) (txInput : TxInput)
    (spent : TxOutput) (network : PyStr) : Prop :=
  ∃ info digest, parseAddress spent.recipient = .ok info ∧
    transactionSignatureDigest tx inputIndex spent network = .ok digest ∧
    match info.kind with
    | .legacy =>
      txInput.sigSchemeId = sigSchemeLegacyEcdsa ∧
        publicKeyToAddress txInput.publicKey = .ok spent.recipient ∧
        verifyDigest txInput.publicKey digest txInput.signature
    | .pq =>
      txInput.sigSchemeId = info.schemeId ∧
        pqPublicKeyCommitment txInput.publicKey = info.hashOrCommitment ∧
        verifyMldsa44 txInput.publicKey digest txInput.signature = .ok true

private theorem validateLegacyInputSignature_ok
    (h : validateLegacyInputSignature tx inputIndex txInput spent ctx = .ok u) :
    publicKeyToAddress txInput.publicKey = .ok spent.recipient ∧
      ∃ digest, transactionSignatureDigest tx inputIndex spent ctx.network =
          .ok digest ∧ verifyDigest txInput.publicKey digest txInput.signature := by
  simp only [validateLegacyInputSignature, bind_eq_ok, rethrow_eq_ok, raiseIf_eq_ok,
    Unique.exists_iff, not_not] at h
  obtain ⟨address, haddress, rfl, digest, hdigest, hverify⟩ := h
  exact ⟨haddress, digest, hdigest, hverify⟩

private theorem validatePqInputSignature_ok {info : AddressInfo}
    (h : validatePqInputSignature tx inputIndex txInput spent info ctx = .ok u) :
    txInput.sigSchemeId = info.schemeId ∧
      pqPublicKeyCommitment txInput.publicKey = info.hashOrCommitment ∧
      ∃ digest, transactionSignatureDigest tx inputIndex spent ctx.network =
          .ok digest ∧ verifyMldsa44 txInput.publicKey digest txInput.signature = .ok true := by
  simp only [validatePqInputSignature, bind_eq_ok, rethrow_eq_ok, raiseIf_eq_ok, orRaise_eq_ok,
    Unique.exists_iff, not_not] at h
  obtain ⟨-, hscheme, scheme, hget, -, verifier, hverifier, -, -, -, -, -, -, hcommitment, digest,
    hdigest, verified, hverify, rfl⟩ := h
  refine ⟨hscheme, hcommitment, digest, hdigest, ?_⟩
  -- ML-DSA-44 is the only scheme of the registry with a verifier.
  simp only [getSignatureScheme, orRaise_eq_ok, signatureScheme?] at hget
  split at hget
  · obtain rfl := Option.some.inj hget
    simp at hverifier
  · split at hget
    · obtain rfl := Option.some.inj hget
      obtain rfl := Option.some.inj hverifier
      exact hverify
    · split at hget
      · obtain rfl := Option.some.inj hget
        simp at hverifier
      · simp at hget

private theorem validateStandardInputSignature_ok
    (h : validateStandardInputSignature tx inputIndex txInput spent ctx = .ok u) :
    InputAuthorised tx inputIndex txInput spent ctx.network := by
  obtain ⟨info, hinfo, h⟩ := bind_eq_ok.mp h
  rw [rethrow_eq_ok] at hinfo
  have legacy : info.kind = .legacy → txInput.sigSchemeId = sigSchemeLegacyEcdsa →
      validateLegacyInputSignature tx inputIndex txInput spent ctx = .ok u →
      InputAuthorised tx inputIndex txInput spent ctx.network := by
    intro hkind hscheme hcheck
    obtain ⟨haddress, digest, hdigest, hverify⟩ := validateLegacyInputSignature_ok hcheck
    exact ⟨info, digest, hinfo, hdigest, by rw [hkind]; exact ⟨hscheme, haddress, hverify⟩⟩
  split at h
  · -- Version 1 spends legacy outputs only.
    simp only [bind_eq_ok, raiseIf_eq_ok, Unique.exists_iff, not_not] at h
    exact legacy h.1 h.2.1 h.2.2
  · obtain ⟨-, -, h⟩ := bind_eq_ok.mp h
    split at h
    · next hkind =>
      simp only [bind_eq_ok, raiseIf_eq_ok, Unique.exists_iff, not_not] at h
      exact legacy hkind h.1 h.2
    · next hkind =>
      obtain ⟨hscheme, hcommitment, digest, hdigest, hverify⟩ := validatePqInputSignature_ok h
      have hpq : info.kind = .pq := by
        cases hcase : info.kind with
        | legacy => exact absurd hcase hkind
        | pq => rfl
      exact ⟨info, digest, hinfo, hdigest, by rw [hpq]; exact ⟨hscheme, hcommitment, hverify⟩⟩

/-! ### Runs of the block loop -/

/-- The entry seen at an outpoint was created in the block by one of the transactions. -/
def CreatedBy (txs : List Transaction) (height : ℕ) (outpoint : OutPoint)
    (entry : UtxoEntry) : Prop :=
  ∃ tx ∈ txs, tx.txid = .ok outpoint.txid ∧
    createdAt outpoint.txid tx height false outpoint = some entry

/-- What a run of the block loop over a list of transactions does to the spends and the staged
view. -/
structure StageRun (height : ℕ) (stage : Stage) (txs : List Transaction)
    (stage' : Stage) : Prop where
  nodup_spends : (txs.flatMap spentOutpoints).Nodup
  fresh : ∀ outpoint ∈ txs.flatMap spentOutpoints, outpoint ∉ stage.seenSpends
  seen : stage'.seenSpends = stage.seenSpends ∪ (txs.flatMap spentOutpoints).toFinset
  /-- An outpoint that is not spent is seen as before, or as created in the block. -/
  view : ∀ outpoint, outpoint ∉ txs.flatMap spentOutpoints →
    stage'.stagedView.get outpoint = stage.stagedView.get outpoint ∨
      ∃ entry, stage'.stagedView.get outpoint = some entry ∧
        CreatedBy txs height outpoint entry

/-- A step that moves no coins. -/
theorem StageRun.of_noCoins (hinputs : tx.inputs = [])
    (hseen : stage'.seenSpends = stage.seenSpends) (hview : stage'.stagedView = stage.stagedView) :
    StageRun height stage [tx] stage' where
  nodup_spends := by simp [spentOutpoints, hinputs]
  fresh := by simp [spentOutpoints, hinputs]
  seen := by simp [spentOutpoints, hinputs, hseen]
  view := fun outpoint _ => .inl (by rw [hview])

/-- **One round.** -/
theorem StageStep.stageRun (hstep : StageStep ctx stage tx stage')
    (hstateless : validateTransactionStateless tx = .ok ()) :
    StageRun ctx.height stage [tx] stage' := by
  cases hstep with
  | special kind =>
    exact .of_noCoins
      (validateTransactionStateless_noCoins hstateless (by simp [carriesNoCoins, kind])).1 rfl rfl
  | bundle kind _ limits spends =>
    have hinputs :=
      (validateTransactionStateless_noCoins hstateless (by simp [carriesNoCoins, kind])).1
    obtain ⟨seen, windows, rfl⟩ := foldlM_stageAttestation_frame limits
    rw [hinputs] at spends
    obtain rfl := pure_eq_ok.mp spends
    exact .of_noCoins hinputs rfl rfl
  | settlement kind _ spends =>
    have hinputs :=
      (validateTransactionStateless_noCoins hstateless (by simp [carriesNoCoins, kind])).1
    rw [hinputs] at spends
    obtain rfl := pure_eq_ok.mp spends
    exact .of_noCoins hinputs rfl rfl
  -- Only this kind touches coins: it spends fresh outpoints and creates under its own id.
  | standard _ _ _ spends _ apply =>
    obtain ⟨hnodup, hfresh, rfl⟩ := foldlM_stageSpend_ok spends
    obtain ⟨txid, htxid, hget⟩ := UtxoView.lawful.get_applyTransaction apply
    refine ⟨by simpa [spentOutpoints] using hnodup, by simpa [spentOutpoints] using hfresh,
      by simp [spentOutpoints], fun outpoint hunspent => ?_⟩
    have hunspent : outpoint ∉ spentOutpoints tx := by simpa using hunspent
    rw [hget outpoint, observeTransaction]
    cases hcreated : createdAt txid tx ctx.height false outpoint with
    | none => exact .inl (by simp [hunspent])
    | some entry =>
      have hid : outpoint.txid = txid := by
        by_contra hne
        simp [createdAt, hne] at hcreated
      exact .inr ⟨entry, rfl, tx, by simp, by rw [htxid, hid], by rw [hid, hcreated]⟩

private theorem CreatedBy.mono {txs txs' : List Transaction} {outpoint : OutPoint}
    {entry : UtxoEntry} (hsub : txs ⊆ txs') (h : CreatedBy txs height outpoint entry) :
    CreatedBy txs' height outpoint entry := by
  obtain ⟨tx, hmem, h⟩ := h
  exact ⟨tx, hsub hmem, h⟩

private theorem StageRun.trans {middle : Stage} {xs ys : List Transaction}
    (hxs : StageRun height stage xs middle) (hys : StageRun height middle ys stage') :
    StageRun height stage (xs ++ ys) stage' where
  nodup_spends := by
    rw [flatMap_append]
    refine List.nodup_append.mpr ⟨hxs.nodup_spends, hys.nodup_spends, ?_⟩
    -- What the first part spent is in the set that the second is checked against.
    rintro outpoint hx _ hy rfl
    exact hys.fresh outpoint hy (by rw [hxs.seen]; simp [hx])
  fresh := by
    intro outpoint hmem
    rw [flatMap_append, mem_append] at hmem
    rcases hmem with hmem | hmem
    · exact hxs.fresh outpoint hmem
    · exact fun hseen => hys.fresh outpoint hmem (by rw [hxs.seen]; simp [hseen])
  seen := by
    rw [hys.seen, hxs.seen, flatMap_append, toFinset_append, Finset.union_assoc]
  view := by
    intro outpoint hunspent
    rw [flatMap_append, mem_append, not_or] at hunspent
    rcases hys.view outpoint hunspent.2 with hsame | ⟨entry, hget, hcreated⟩
    · rw [hsame]
      rcases hxs.view outpoint hunspent.1 with hsame | ⟨entry, hget, hcreated⟩
      · exact .inl hsame
      · exact .inr ⟨entry, hget, hcreated.mono (by simp)⟩
    · exact .inr ⟨entry, hget, hcreated.mono (by simp)⟩

/-- **A whole run.** By induction on the transactions, one round at a time. -/
theorem StageSteps.stageRun {txs : List Transaction} (steps : StageSteps ctx stage txs stage') :
    StageRun ctx.height stage txs stage' := by
  induction steps with
  | done => exact ⟨by simp, by simp, by simp, fun outpoint _ => .inl rfl⟩
  | round _ stateless step _ ih => exact (step.stageRun stateless).trans ih

/-! ### Spent outputs are authorised -/

/-- One input of the block spends the outpoint, and it was entitled to. The entry that the input
was checked against is the given one, or one that an earlier transaction of the block had put in
its place. -/
structure AuthorisedSpend (block : Block) (ctx : ValidationContext) (outpoint : OutPoint)
    (entry : UtxoEntry) : Prop where
  once : (block.transactions.flatMap spentOutpoints).count outpoint = 1
  spender : ∃ coinbase earlier tx later,
    block.transactions = coinbase :: earlier ++ tx :: later ∧
      isCoinbaseTransaction tx = false ∧ carriesNoCoins tx = false ∧
      ∃ (inputIndex : ℕ) (txInput : TxInput) (spent : UtxoEntry),
        tx.inputs[inputIndex]? = some txInput ∧ txInput.previousOutput = outpoint ∧
        (spent = entry ∨ CreatedBy earlier ctx.height outpoint spent) ∧
        (ctx.enforceCoinbaseMaturity →
          isCoinbaseMature spent ctx.height ctx.params) ∧
        InputAuthorised tx inputIndex txInput spent.output ctx.network

/-- A step of a transaction with inputs checks and authorises each of them. -/
theorem StageStep.authorised (hstep : StageStep ctx stage tx stage')
    (hstateless : validateTransactionStateless tx = .ok ())
    (hinput : tx.inputs[inputIndex]? = some txInput) :
    carriesNoCoins tx = false ∧
      ∃ spent, stage.stagedView.get txInput.previousOutput = some spent ∧
        (ctx.enforceCoinbaseMaturity →
          isCoinbaseMature spent ctx.height ctx.params) ∧
        InputAuthorised tx inputIndex txInput spent.output ctx.network := by
  have hcoins : carriesNoCoins tx = false := by
    by_contra hcon
    have hnil :=
      (validateTransactionStateless_noCoins hstateless (by simpa using hcon)).1
    simp [hnil] at hinput
  refine ⟨hcoins, ?_⟩
  simp only [carriesNoCoins, Bool.or_eq_false_iff] at hcoins
  cases hstep with
  | special kind => simp [kind] at hcoins
  | bundle kind => simp [kind] at hcoins
  | settlement kind => simp [kind] at hcoins
  | standard _ _ _ _ checks =>
    obtain ⟨spent, hspend⟩ := (validateStandardStateful_ok checks).spends inputIndex txInput hinput
    exact ⟨spent, hspend.present, hspend.mature, validateStandardInputSignature_ok hspend.signed⟩

/-- The spender of an outpoint that the rest of the block spends. -/
theorem BlockChecks.authorisedSpend {block : Block} {coinbase : Transaction}
    {rest : List Transaction} (checks : BlockChecks block ctx coinbase rest stage)
    {outpoint : OutPoint} {entry : UtxoEntry} (hbefore : ctx.utxoView.get outpoint = some entry)
    (hspent : outpoint ∈ rest.flatMap spentOutpoints) :
    AuthorisedSpend block ctx outpoint entry := by
  have hrun := checks.steps.stageRun
  refine ⟨?_, ?_⟩
  · rw [checks.spends_eq]
    exact count_eq_one_of_mem hrun.nodup_spends hspent
  obtain ⟨tx, hmem, hinput⟩ := List.mem_flatMap.mp hspent
  obtain ⟨earlier, later, middle, next, hsplit, hearlier, hstep⟩ := checks.exists_step hmem
  obtain ⟨inputIndex, hlt, hget⟩ := getElem_of_mem hinput
  simp only [spentOutpoints, length_map] at hlt
  simp only [spentOutpoints, getElem_map] at hget
  obtain ⟨hcoins, spent, hseen, hmature, hsigned⟩ :=
    hstep.authorised (checks.stateless_rest tx hmem) (getElem?_eq_getElem hlt)
  refine ⟨coinbase, earlier, tx, later, by rw [checks.transactions_eq, hsplit]; rfl,
    checks.coinbase_only tx hmem, hcoins, inputIndex, _, spent,
    getElem?_eq_getElem hlt, hget, ?_, hmature, hsigned⟩
  -- No earlier transaction spends the outpoint, or it would be spent twice.
  have hunspent : outpoint ∉ earlier.flatMap spentOutpoints := by
    intro hmemEarlier
    have hnodup := hrun.nodup_spends
    rw [hsplit, flatMap_append, nodup_append] at hnodup
    exact hnodup.2.2 outpoint hmemEarlier outpoint (by simp [hinput]) rfl
  rw [hget] at hseen
  rcases (checks.steps_of_append hsplit hearlier).stageRun.view outpoint hunspent
    with hsame | ⟨created, hcreated, hby⟩
  · left
    rw [hsame] at hseen
    exact Option.mem_unique hseen hbefore
  · right
    rw [hcreated] at hseen
    exact Option.some.inj hseen ▸ hby

/-- **Authorised spending.** An accepted block can be applied to the UTXO set that its context
shows, and every output that disappears was spent by one input entitled to it. -/
theorem authorised_spending {block : Block} {ctx : ValidationContext} {fees : Int}
    {before : UtxoSet} (hview : ∀ outpoint, ctx.utxoView.get outpoint = before[outpoint]?)
    (haccepted : validateBlock block ctx = .ok fees) :
    ∃ after, before.applyBlock block ctx.height = .ok after ∧
      ∀ outpoint entry, before[outpoint]? = some entry → after[outpoint]? = none →
        AuthorisedSpend block ctx outpoint entry := by
  obtain ⟨coinbase, rest, stage, checks, -⟩ := validateBlock_ok haccepted
  obtain ⟨after, hafter⟩ := applyBlockWith_total (fun entries outpoint => entries.erase outpoint)
    (fun entries outpoint entry => entries.insert outpoint entry) before block ctx.height
    checks.exists_txid
  refine ⟨after, hafter, fun outpoint entry hbefore hgone => ?_⟩
  have hspent := UtxoSet.lawful.exists_spend_of_absent hafter (by simp [hbefore]) hgone
  rw [checks.spends_eq] at hspent
  exact checks.authorisedSpend (by rw [hview, hbefore]) hspent

end

/-! ### An immature output spent through its re-creation

The UTXO set holds an output that was created by a coinbase at the current height, at an outpoint
that a transaction of the block creates again. The next transaction of the block spends the
re-created output, and with it the immature one is gone. -/

namespace SampleSpend

local instance platform : Platform := samplePlatform []

/-- The public key of the only wallet. -/
def publicKey : Bytes := 2 :: List.replicate 32 7

/-- Its address. -/
def address : PyStr := (publicKeyToAddress publicKey).toOption.getD []

/-- The outpoint of an old output of the wallet. -/
def oldOutpoint : OutPoint := ⟨List.replicate 64 49, 0⟩

/-- The wallet sends ten chipbits to itself. -/
def payment (previousOutput : OutPoint) : Transaction where
  version := 1
  inputs := [{ previousOutput := previousOutput, signature := [1], publicKey := publicKey }]
  outputs := [{ value := 10, recipient := address }]

/-- The outpoint that the first payment creates. -/
def newOutpoint : OutPoint := ⟨(payment oldOutpoint).txid.toOption.getD [], 0⟩

/-- An output of the wallet. -/
def entry (height : ℕ) (isCoinbase : Bool) : UtxoEntry where
  output := { value := 10, recipient := address }
  height := height
  isCoinbase := isCoinbase

/-- The UTXO set before the block. -/
def before : UtxoSet :=
  ((∅ : UtxoSet).insert oldOutpoint (entry 0 false)).insert newOutpoint (entry 4 true)

/-- The context of a block at height four. -/
def ctx (enforceCoinbaseMaturity : Bool) : ValidationContext where
  height := 4
  medianTimePast := 0
  params := sampleParams
  utxoView := .inMemory before
  network := str "mainnet"
  nodeRegistryView := .empty
  rewardAttestationIdentities := ∅
  rewardAttestationBundles := []
  settledEpochIndexes := ∅
  epochSeedByIndex := ∅
  enforceCoinbaseMaturity := enforceCoinbaseMaturity

/-- A block of given payments. -/
def block (payments : List Transaction) : Block :=
  sampleBlock zeroHash 0 0x207FFFFF
    (sampleCoinbase 4 [{ value := 50, recipient := address }] :: payments)

/-- The block that re-creates the outpoint and spends it. -/
def recreating : Block := block [payment oldOutpoint, payment newOutpoint]

/-- The block that spends the immature output itself. -/
def direct : Block := block [payment newOutpoint]

/-- **An immature coinbase output leaves the set.** With maturity enforced it does so through a
re-creation of its outpoint in the block; with enforcement switched off it is spent directly. -/
theorem recreatedSpend_accepted :
    (before[newOutpoint]? = some (entry 4 true) ∧
      isCoinbaseMature (entry 4 true) 4 sampleParams = false) ∧
    (validateBlock recreating (ctx true) = .ok 0 ∧
      (before.applyBlock recreating 4).toOption.map (·[newOutpoint]?) = some none) ∧
    (validateBlock direct (ctx false) = .ok 0 ∧
      (before.applyBlock direct 4).toOption.map (·[newOutpoint]?) = some none) := by
  refine ⟨⟨by decide +kernel, by decide +kernel⟩, ⟨by decide +kernel, by decide +kernel⟩,
    by decide +kernel, by decide +kernel⟩

/-- In the first block the spender is checked against the re-created entry. -/
theorem authorised_spending_recreating :
    ∃ after, before.applyBlock recreating 4 = .ok after ∧
      ∀ outpoint entry, before[outpoint]? = some entry → after[outpoint]? = none →
        AuthorisedSpend recreating (ctx true) outpoint entry :=
  @authorised_spending _ recreating (ctx true) 0 before (fun _ => rfl)
    (show validateBlock recreating (ctx true) = .ok 0 by decide +kernel)

end SampleSpend

end Chipcoin
