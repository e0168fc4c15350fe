import Chipcoin.Consensus.Validation

/-!
# What an accepted transaction or block satisfies

One inversion lemma for each validator: from a successful run to the facts it has checked. Later
proofs use these and do not unfold the validators.

* `SettlementChecks`: an accepted `reward_settle_epoch` transaction;
* `SpendChecks`, `StandardChecks`: an accepted standard transaction and each of its inputs;
* `stageTransaction_cases`: one round of the block loop, by the kind of the transaction;
* `BlockChecks`: an accepted block, and `StageSteps`, the rounds of its loop.
-/

namespace Chipcoin

open Checked List Sorting

variable {block : Block} {coinbase tx : Transaction} {rest : List Transaction} {kind : String}
  {ctx : ValidationContext} {stage stage' : Stage} {fee fees total total' : Int} {u : Unit}

/-! ### Kinds exclude one another -/

theorem Transaction.hasKind_unique {kind' : String} (h : tx.hasKind kind)
    (h' : tx.hasKind kind') : str kind = str kind' := by
  simp only [Transaction.hasKind, decide_eq_true_eq] at h h'
  exact Option.mem_unique h h'

theorem Transaction.hasKind_eq_false {kind' : String} (h : tx.hasKind kind)
    (hne : str kind ≠ str kind') : tx.hasKind kind' = false := by
  by_contra hkind
  exact hne (Transaction.hasKind_unique h (by simpa using hkind))

theorem not_settle_of_special (h : isSpecialNodeTransaction tx) :
    isRewardSettleEpochTransaction tx = false := by
  by_contra hsettle
  simp only [isSpecialNodeTransaction, Bool.or_eq_true, Bool.not_eq_false] at h hsettle
  rcases h with ((hkind | hkind) | hkind) | hkind <;>
    exact absurd (Transaction.hasKind_unique hsettle hkind) (by decide)

theorem not_bundle_of_special (h : isSpecialNodeTransaction tx) :
    isRewardAttestationBundleTransaction tx = false := by
  by_contra hbundle
  simp only [isSpecialNodeTransaction, Bool.or_eq_true, Bool.not_eq_false] at h hbundle
  rcases h with ((hkind | hkind) | hkind) | hkind <;>
    exact absurd (Transaction.hasKind_unique hbundle hkind) (by decide)

theorem not_special_of_settle (h : isRewardSettleEpochTransaction tx) :
    isSpecialNodeTransaction tx = false := by
  by_contra hspecial
  simp [not_settle_of_special (by simpa using hspecial)] at h

theorem not_bundle_of_settle (h : isRewardSettleEpochTransaction tx) :
    isRewardAttestationBundleTransaction tx = false := by
  by_contra hbundle
  rw [Bool.not_eq_false] at hbundle
  exact absurd (Transaction.hasKind_unique h hbundle) (by decide)

theorem not_special_of_bundle (h : isRewardAttestationBundleTransaction tx) :
    isSpecialNodeTransaction tx = false := by
  by_contra hspecial
  simp [not_bundle_of_special (by simpa using hspecial)] at h

private theorem validateNodeMetadataCommon_ok (h : validateNodeMetadataCommon tx = .ok u) :
    tx.inputs = [] ∧ tx.outputs = [] := by
  simp only [validateNodeMetadataCommon, bind_eq_ok, raiseIf_eq_ok, Unique.exists_iff, not_not] at h
  exact ⟨h.1, h.2.1⟩

/-- The limits on attestations count attestations only. -/
theorem foldlM_stageAttestation_frame {params : ConsensusParams}
    {attestations : List RewardAttestation}
    (h : attestations.foldlM (stageAttestation params) stage = .ok stage') :
    ∃ seen windows, stage' =
      { stage with seenAttestations := seen, verifierWindows := windows } := by
  refine foldlM_invariant
    (fun s => ∃ seen windows,
      s = { stage with seenAttestations := seen, verifierWindows := windows })
    ?_ h ⟨_, _, rfl⟩
  rintro s attestation s' - hstep ⟨seen, windows, rfl⟩
  simp only [stageAttestation, bind_eq_ok, raiseIf_eq_ok, Unique.exists_iff, pure_eq_ok] at hstep
  obtain ⟨-, -, rfl⟩ := hstep
  exact ⟨_, _, rfl⟩

private theorem map_eq_of_zip {α β : Type*} {f : α → β} {xs ys : List α}
    (hlen : xs.length = ys.length) (h : ∀ p ∈ xs.zip ys, f p.1 = f p.2) : xs.map f = ys.map f := by
  induction xs generalizing ys with
  | nil =>
    obtain rfl : ys = [] := List.length_eq_zero_iff.mp hlen.symm
    rfl
  | cons x xs ih =>
    cases ys with
    | nil => simp at hlen
    | cons y ys =>
      rw [map_cons, map_cons, h (x, y) (by simp),
        ih (by simpa using hlen) fun p hp => h p (by simp [hp])]

variable [Platform]

/-! ### Settlements -/

/-- The facts that acceptance of a settlement establishes. -/
structure SettlementChecks (context : ValidationContext) (settlement : RewardSettlement)
    (seed : Bytes) : Prop where
  activated : context.params.nodeRewardActivationHeight ≤ context.height
  unsettled : settlement.epochIndex ∉ context.settledEpochIndexes
  endHeight : (context.height : Int) = settlement.epochEndHeight
  closeHeight : epochCloseHeight settlement.epochIndex context.params =
    .ok settlement.epochEndHeight
  seedKnown : context.epochSeedByIndex[settlement.epochIndex]? = some seed
  /-- The entries add up to the distributed amount. -/
  total : (settlement.rewardEntries.map (·.rewardChipbits)).sum =
    settlement.distributedNodeRewardChipbits
  /-- The distributed and undistributed amounts add up to the scheduled pool. -/
  pool : settlement.distributedNodeRewardChipbits + settlement.undistributedNodeRewardChipbits =
    (subsidySplitChipbits context.height context.params).2
  /-- Entries, when there are any, are derived from the distributed amount. -/
  derived : settlement.rewardEntries ≠ [] →
    deriveRewardSettlementEntries
      (activeRewardRecordsById context.nodeRegistryView context.height context.params) seed
      (epochAttestations context settlement.epochIndex)
      settlement.distributedNodeRewardChipbits context.params = .ok settlement.rewardEntries
  /-- Without entries only the undistributed amount is checked. -/
  undistributed : settlement.rewardEntries = [] →
    settlement.undistributedNodeRewardChipbits =
      (subsidySplitChipbits context.height context.params).2

theorem validateRewardSettleEpochTransactionWithParams_ok
    (h : validateRewardSettleEpochTransactionWithParams tx ctx = .ok u) :
    ∃ settlement seed, parseRewardSettlement tx = .ok settlement ∧
      SettlementChecks ctx settlement seed := by
  simp only [validateRewardSettleEpochTransactionWithParams, bind_eq_ok, raiseIf_eq_ok,
    orRaise_eq_ok, Unique.exists_iff] at h
  obtain ⟨settlement, hparse, hactive, hfresh, hend, close, hclose, hcloses, -, seed, hseed, -,
    htotal, hpool, -, -, hentries⟩ := h
  rw [not_not] at hend hcloses htotal hpool
  refine ⟨settlement, seed, hparse, ⟨not_lt.mp hactive, hfresh, hend, by rw [hclose, hcloses],
    hseed, htotal, hpool, fun hne => ?_, fun hnil => ?_⟩⟩
  · rw [if_pos hne, bind_eq_ok] at hentries
    obtain ⟨entries, hderive, heq⟩ := hentries
    rw [raiseIf_eq_ok, not_not] at heq
    rw [hderive, heq]
  · rw [if_neg (not_not.mpr hnil), raiseIf_eq_ok, not_not] at hentries
    exact hentries

/-! ### Stateless facts -/

theorem validateDeclaredEndpoint_ok (h : validateDeclaredEndpoint tx kind = .ok u) :
    tx.getD "declared_host" ≠ [] ∧ tx.getD "declared_port" ≠ [] ∧
      ∃ port, intOfStr (tx.getD "declared_port") = .ok port := by
  obtain ⟨⟨⟩, hhost, h⟩ := bind_eq_ok.mp h
  obtain ⟨⟨⟩, hport, h⟩ := bind_eq_ok.mp h
  obtain ⟨port, hvalue, -⟩ := bind_eq_ok.mp h
  exact ⟨raiseIf_eq_ok.mp hhost, raiseIf_eq_ok.mp hport, port, hvalue⟩

private theorem validateSpecialNodeTransactionStateless_ok
    (h : validateSpecialNodeTransactionStateless tx = .ok u) :
    tx.inputs = [] ∧ tx.outputs = [] := by
  -- Each of the four validators starts with the common metadata check.
  have common : ∀ {rest : Unit → Except PyError Unit},
      (validateNodeMetadataCommon tx >>= rest) = .ok u →
      tx.inputs = [] ∧ tx.outputs = [] := by
    intro rest hrest
    obtain ⟨⟨⟩, hcommon, -⟩ := bind_eq_ok.mp hrest
    exact validateNodeMetadataCommon_ok hcommon
  unfold validateSpecialNodeTransactionStateless at h
  split at h
  · exact common h
  · split at h
    · exact common h
    · split at h
      · exact common h
      · split at h
        · exact common h
        · cases h

/-- The kinds of transaction that must carry neither inputs nor outputs. -/
def carriesNoCoins (transaction : Transaction) : Bool :=
  isSpecialNodeTransaction transaction || isRewardAttestationBundleTransaction transaction ||
    isRewardSettleEpochTransaction transaction

section

variable (h : validateTransactionStateless tx = .ok u)
include h

/-- Registry actions, bundles and settlements move no coins. -/
theorem validateTransactionStateless_noCoins (hkind : carriesNoCoins tx) :
    tx.inputs = [] ∧ tx.outputs = [] := by
  obtain ⟨⟨⟩, -, h⟩ := bind_eq_ok.mp h
  split at h
  · exact validateSpecialNodeTransactionStateless_ok (rethrow_eq_ok.mp h)
  · next hspecial =>
    split at h
    · have hchecks := rethrow_eq_ok.mp h
      simp only [validateRewardAttestationBundleTransactionStateless, bind_eq_ok, raiseIf_eq_ok,
        Unique.exists_iff, not_not] at hchecks
      exact ⟨hchecks.1, hchecks.2.1⟩
    · next hbundle =>
      split at h
      · have hchecks := rethrow_eq_ok.mp h
        simp only [validateRewardSettleEpochTransactionStateless, bind_eq_ok, raiseIf_eq_ok,
          Unique.exists_iff, not_not] at hchecks
        exact ⟨hchecks.1, hchecks.2.1⟩
      · next hsettle => simp [carriesNoCoins, hspecial, hbundle, hsettle] at hkind

/-- The inputs of an accepted payment other than a coinbase. -/
theorem validateTransactionStateless_inputs (hplain : isCoinbaseTransaction tx = false)
    (hkind : carriesNoCoins tx = false) : tx.inputs ≠ [] := by
  obtain ⟨⟨⟩, -, h⟩ := bind_eq_ok.mp h
  simp only [carriesNoCoins, Bool.or_eq_false_iff] at hkind
  simp only [hkind.1.1, hkind.1.2, hkind.2, hplain, Bool.false_eq_true, if_false,
    validatePaymentStateless, bind_eq_ok, raiseIf_eq_ok, Unique.exists_iff, forM_eq_ok] at h
  exact h.2.2.2.1

/-- The outputs of an accepted payment are not negative. -/
theorem validateTransactionStateless_outputs :
    ∀ output ∈ tx.outputs, 0 ≤ output.value := by
  by_cases hkind : carriesNoCoins tx
  · simp [(validateTransactionStateless_noCoins h hkind).2]
  · obtain ⟨⟨⟩, -, h⟩ := bind_eq_ok.mp h
    simp only [carriesNoCoins, Bool.or_eq_true, not_or] at hkind
    rw [if_neg hkind.1.1, if_neg hkind.1.2, if_neg hkind.2] at h
    simp only [validatePaymentStateless, bind_eq_ok, raiseIf_eq_ok, Unique.exists_iff,
      forM_eq_ok] at h
    intro output hmem
    exact not_lt.mp (h.2.2.1 output hmem).1

end

/-! ### Standard transactions -/

/-- The value at an outpoint of a view, zero when it is absent. -/
def UtxoView.valueAt (view : UtxoView) (outpoint : OutPoint) : Int :=
  match view.get outpoint with
  | some entry => entry.output.value
  | none => 0

/-- The facts that acceptance establishes about one input of a standard transaction. -/
structure SpendChecks (transaction : Transaction) (context : ValidationContext)
    (txInput : TxInput) (inputIndex : ℕ) (entry : UtxoEntry) : Prop where
  present : context.utxoView.get txInput.previousOutput = some entry
  mature : context.enforceCoinbaseMaturity →
    isCoinbaseMature entry context.height context.params
  signed : validateStandardInputSignature transaction inputIndex txInput entry.output context =
    .ok ()

private theorem validateSpend_ok {txInput : TxInput} {inputIndex : ℕ}
    (h : validateSpend tx ctx total (txInput, inputIndex) = .ok total') :
    (∃ entry, SpendChecks tx ctx txInput inputIndex entry) ∧
      total' = total + ctx.utxoView.valueAt txInput.previousOutput := by
  simp only [validateSpend, bind_eq_ok, orRaise_eq_ok, raiseIf_eq_ok, exists_and_left,
    exists_const, pure_eq_ok] at h
  obtain ⟨entry, hget, hmature, ⟨⟩, hsigned, rfl⟩ := h
  refine ⟨⟨entry, hget, fun henforce => ?_, hsigned⟩, ?_⟩
  · by_contra hcon
    exact hmature ⟨henforce, hcon⟩
  · rw [UtxoView.valueAt, hget]

/-- The facts that acceptance of a standard transaction establishes, with its fee. -/
structure StandardChecks (transaction : Transaction) (context : ValidationContext)
    (fee : Int) : Prop where
  spends : ∀ (inputIndex : ℕ) txInput, transaction.inputs[inputIndex]? = some txInput →
    ∃ entry, SpendChecks transaction context txInput inputIndex entry
  fee_eq : fee =
    (transaction.inputs.map fun txInput =>
      context.utxoView.valueAt txInput.previousOutput).sum - transactionOutputTotal transaction
  fee_nonneg : 0 ≤ fee

private theorem foldlM_validateSpend_ok {inputs : List TxInput} {start : ℕ}
    (h : (inputs.zipIdx start).foldlM (validateSpend tx ctx) total = .ok total') :
    (∀ (inputIndex : ℕ) txInput, inputs[inputIndex]? = some txInput →
      ∃ entry, SpendChecks tx ctx txInput (start + inputIndex) entry) ∧
      total' = total + (inputs.map fun txInput =>
        ctx.utxoView.valueAt txInput.previousOutput).sum := by
  induction inputs generalizing start total with
  | nil =>
    obtain rfl : total = total' := by simpa [pure_eq_ok] using h
    simp
  | cons first rest ih =>
    rw [zipIdx_cons] at h
    obtain ⟨middle, hfirst, hrest⟩ := foldlM_cons_eq_ok.mp h
    obtain ⟨hspend, rfl⟩ := validateSpend_ok hfirst
    obtain ⟨hspends, rfl⟩ := ih hrest
    refine ⟨fun inputIndex txInput hget => ?_, by simp [add_assoc]⟩
    cases inputIndex with
    | zero =>
      obtain rfl : first = txInput := by simpa using hget
      simpa using hspend
    | succ inputIndex =>
      have := hspends inputIndex txInput (by simpa using hget)
      rwa [show start + 1 + inputIndex = start + (inputIndex + 1) by omega] at this

theorem validateStandardStateful_ok (h : validateStandardStateful tx ctx = .ok fee) :
    StandardChecks tx ctx fee := by
  simp only [validateStandardStateful, bind_eq_ok, raiseIf_eq_ok, Unique.exists_iff,
    pure_eq_ok] at h
  obtain ⟨total, hfold, hle, rfl⟩ := h
  obtain ⟨hspends, htotal⟩ := foldlM_validateSpend_ok hfold
  refine ⟨fun inputIndex txInput hget => ?_, by rw [htotal, zero_add], by omega⟩
  simpa using hspends inputIndex txInput hget

/-! ### One round of the block loop -/

/-- What one round of the block loop does, by the kind of the transaction. -/
inductive StageStep (context : ValidationContext) :
    Stage → Transaction → Stage → Prop
  /-- A registry action changes the staged registry only. -/
  | special {stage : Stage} {transaction : Transaction} {registry : NodeRegistryView}
      (kind : isSpecialNodeTransaction transaction)
      (checks : validateSpecialNodeTransactionStateful transaction (stagedContext context stage) =
        .ok ())
      (apply : applySpecialNodeTransaction transaction context.height stage.stagedRegistry =
        .ok registry) :
      StageStep context stage transaction { stage with stagedRegistry := registry }
  /-- A bundle is added to the staged attestations. -/
  | bundle {stage limited : Stage} {transaction : Transaction} {bundle : RewardAttestationBundle}
      {seenSpends : Finset OutPoint}
      (kind : isRewardAttestationBundleTransaction transaction)
      (parse : parseRewardAttestationBundle transaction = .ok bundle)
      (limits : bundle.attestations.foldlM (stageAttestation context.params) stage = .ok limited)
      (spends : transaction.inputs.foldlM stageSpend limited.seenSpends = .ok seenSpends)
      (checks : validateRewardAttestationBundleTransactionWithParams transaction
        (stagedContext context { limited with seenSpends := seenSpends }) = .ok ()) :
      StageStep context stage transaction { limited with
        seenSpends := seenSpends
        stagedAttestationBundles := limited.stagedAttestationBundles ++ [bundle]
        stagedAttestationIdentities := limited.stagedAttestationIdentities ∪
          (bundle.attestations.map attestationIdentity).toFinset }
  /-- A settlement marks its epoch as settled and, at the height it names, is remembered. -/
  | settlement {stage : Stage} {transaction : Transaction} {settlement : RewardSettlement}
      {seenSpends : Finset OutPoint}
      (kind : isRewardSettleEpochTransaction transaction)
      (parse : parseRewardSettlement transaction = .ok settlement)
      (spends : transaction.inputs.foldlM stageSpend stage.seenSpends = .ok seenSpends)
      (checks : validateRewardSettleEpochTransactionWithParams transaction
        (stagedContext context { stage with seenSpends := seenSpends }) = .ok ()) :
      StageStep context stage transaction { stage with
        seenSpends := seenSpends
        stagedSettledEpochIndexes := insert settlement.epochIndex stage.stagedSettledEpochIndexes
        stagedEpochSettlement :=
          if settlement.epochEndHeight = context.height then some settlement
          else stage.stagedEpochSettlement }
  /-- A standard transaction spends and creates on the staged view and pays its fee. -/
  | standard {stage : Stage} {transaction : Transaction} {seenSpends : Finset OutPoint}
      {fee : Int} {view : UtxoView}
      (notSpecial : isSpecialNodeTransaction transaction = false)
      (notBundle : isRewardAttestationBundleTransaction transaction = false)
      (notSettle : isRewardSettleEpochTransaction transaction = false)
      (spends : transaction.inputs.foldlM stageSpend stage.seenSpends = .ok seenSpends)
      (checks : validateStandardStateful transaction
        (stagedContext context { stage with seenSpends := seenSpends }) = .ok fee)
      (apply : stage.stagedView.applyTransaction transaction context.height false = .ok view) :
      StageStep context stage transaction { stage with
        seenSpends := seenSpends
        totalFeesChipbits := stage.totalFeesChipbits + fee
        stagedView := view }

/-- The fee check of a transaction that is not flagged as a coinbase, by kind. -/
theorem validateTransactionStateful_ok (hplain : isCoinbaseTransaction tx = false)
    (h : validateTransactionStateful tx ctx = .ok fee) :
    validateTransactionOutputsForActivation tx ctx = .ok () ∧
      (if isSpecialNodeTransaction tx then
        validateSpecialNodeTransactionStateful tx ctx = .ok () ∧ fee = 0
      else if isRewardAttestationBundleTransaction tx then
        validateRewardAttestationBundleTransactionWithParams tx ctx = .ok () ∧
          fee = 0
      else if isRewardSettleEpochTransaction tx then
        validateRewardSettleEpochTransactionWithParams tx ctx = .ok () ∧ fee = 0
      else validateStandardStateful tx ctx = .ok fee) := by
  obtain ⟨⟨⟩, hactive, h⟩ := bind_eq_ok.mp h
  refine ⟨hactive, ?_⟩
  rw [if_neg (by simp [hplain])] at h
  have hzero : ∀ {x : Except PyError Unit}, (x >>= fun _ => pure 0) = .ok fee →
      x = .ok () ∧ fee = 0 := by
    intro x hx
    obtain ⟨⟨⟩, hx, hfee⟩ := bind_eq_ok.mp hx
    exact ⟨hx, (pure_eq_ok.mp hfee).symm⟩
  -- The order of the tests is that of the source: special, bundle, settlement, payment.
  split at h
  · next hkind => rw [if_pos hkind]; exact hzero h
  · next hkind =>
    rw [if_neg hkind]
    split at h
    · next hkind => rw [if_pos hkind]; exact hzero h
    · next hkind =>
      rw [if_neg hkind]
      split at h
      · next hkind => rw [if_pos hkind]; exact hzero h
      · next hkind => rw [if_neg hkind]; exact h

/-- **Inversion of the block loop.** A successful round is one of the four steps. -/
theorem stageTransaction_cases (hplain : isCoinbaseTransaction tx = false)
    (h : stageTransaction ctx stage tx = .ok stage') :
    StageStep ctx stage tx stage' := by
  obtain ⟨limited, hlimits, h⟩ := bind_eq_ok.mp h
  obtain ⟨fee, hvalid, heffect⟩ := bind_eq_ok.mp h
  obtain ⟨-, hvalid⟩ := validateTransactionStateful_ok hplain hvalid
  by_cases hspecial : isSpecialNodeTransaction tx
  · -- The limits do not look at a registry action.
    have hbundle := not_bundle_of_special hspecial
    obtain rfl : stage = limited := by
      simpa [stageLimits, hbundle, hspecial, pure_eq_ok, bind_eq_ok] using hlimits
    rw [if_pos hspecial] at hvalid
    obtain ⟨hchecks, rfl⟩ := hvalid
    simp only [stageEffect, if_pos hspecial, bind_eq_ok, pure_eq_ok, add_zero] at heffect
    obtain ⟨registry, happly, rfl⟩ := heffect
    exact .special hspecial hchecks happly
  rw [if_neg hspecial] at hvalid
  simp only [stageLimits, if_neg hspecial] at hlimits
  by_cases hbundle : isRewardAttestationBundleTransaction tx
  · simp only [if_pos hbundle, bind_eq_ok, pure_eq_ok] at hlimits hvalid
    obtain ⟨bundle, hparse, counted, hcount, seen, hseen, rfl⟩ := hlimits
    obtain ⟨hchecks, rfl⟩ := hvalid
    simp only [stageEffect, if_neg hspecial, if_pos hbundle, hparse, ok_bind, pure_eq_ok,
      add_zero] at heffect
    subst heffect
    exact .bundle hbundle hparse hcount hseen hchecks
  simp only [if_neg hbundle, pure_bind, bind_eq_ok, pure_eq_ok] at hlimits
  rw [if_neg hbundle] at hvalid
  obtain ⟨seen, hseen, rfl⟩ := hlimits
  by_cases hsettle : isRewardSettleEpochTransaction tx
  · rw [if_pos hsettle] at hvalid
    obtain ⟨hchecks, rfl⟩ := hvalid
    simp only [stageEffect, if_neg hspecial, if_neg hbundle, if_pos hsettle, bind_eq_ok,
      pure_eq_ok, add_zero] at heffect
    obtain ⟨settlement, hparse, rfl⟩ := heffect
    exact .settlement hsettle hparse hseen hchecks
  · rw [if_neg hsettle] at hvalid
    simp only [stageEffect, if_neg hspecial, if_neg hbundle, if_neg hsettle, bind_eq_ok,
      pure_eq_ok] at heffect
    obtain ⟨view, happly, rfl⟩ := heffect
    exact .standard (by simpa using hspecial) (by simpa using hbundle) (by simpa using hsettle)
      hseen hvalid happly

/-! ### Blocks -/

/-- What the entries of a block's settlement add up to. -/
def settledRewards : Option RewardSettlement → Int
  | none => 0
  | some settlement => (settlement.rewardEntries.map (·.rewardChipbits)).sum

omit [Platform] in
private theorem sum_settlementOutputs (epochSettlement : Option RewardSettlement) :
    ((settlementOutputs epochSettlement).map (·.value)).sum = settledRewards epochSettlement := by
  cases epochSettlement with
  | none => rfl
  | some settlement =>
    -- Sorting by rank does not change the sum.
    rw [settlementOutputs, settledRewards, map_map]
    exact ((sortBy_perm settlement.rewardEntries).map _).sum_eq

omit [Platform] in
/-- **Coinbase amounts.** The outputs of an accepted coinbase add up to the miner subsidy, the
fees, and the rewards of the block's settlement; a settlement with entries distributes the whole
scheduled pool. -/
theorem validateCoinbaseDistribution_ok {epochSettlement : Option RewardSettlement}
    (h : validateCoinbaseDistribution coinbase fees ctx epochSettlement = .ok u) :
    coinbase.outputs ≠ [] ∧
      transactionOutputTotal coinbase =
        (subsidySplitChipbits ctx.height ctx.params).1 + fees +
          settledRewards epochSettlement ∧
      ∀ settlement, epochSettlement = some settlement → settlement.rewardEntries ≠ [] →
        settlement.distributedNodeRewardChipbits =
          (subsidySplitChipbits ctx.height ctx.params).2 := by
  simp only [validateCoinbaseDistribution, bind_eq_ok, raiseIf_eq_ok, Unique.exists_iff,
    forM_eq_ok, not_and, not_not] at h
  obtain ⟨hne, -, -, hcount, hminer, hpairs, hwhole, -⟩ := h
  refine ⟨hne, ?_, ?_⟩
  · obtain ⟨miner, rest, hout⟩ : ∃ miner rest, coinbase.outputs = miner :: rest :=
      exists_cons_of_ne_nil hne
    rw [hout] at hcount hminer hpairs
    -- The loop over pairs sees all outputs, since there are as many of them as entries.
    have hlen : rest.length = (settlementOutputs epochSettlement).length := by
      simp only [length_cons] at hcount
      omega
    have hvalues : rest.map (·.value) = (settlementOutputs epochSettlement).map (·.value) :=
      map_eq_of_zip hlen fun p hp => (hpairs p hp).2
    have hfirst : miner.value = (subsidySplitChipbits ctx.height ctx.params).1 + fees := by
      simpa using hminer
    rw [transactionOutputTotal, hout, map_cons, sum_cons, hvalues, hfirst, sum_settlementOutputs]
  · rintro settlement rfl hentries
    refine hwhole fun hnil => hentries ?_
    have hsorted : sortBy (compareOn RewardSettlementEntry.selectionRank) settlement.rewardEntries =
        [] := List.map_eq_nil_iff.mp hnil
    exact (hsorted ▸ (sortBy_perm settlement.rewardEntries).symm).eq_nil

/-- The facts that acceptance of a block establishes. -/
structure BlockChecks (block : Block) (context : ValidationContext) (coinbase : Transaction)
    (rest : List Transaction) (stage : Stage) : Prop where
  transactions_eq : block.transactions = coinbase :: rest
  coinbase_first : isCoinbaseTransaction coinbase
  coinbase_only : ∀ transaction ∈ rest, isCoinbaseTransaction transaction = false
  stateless : ∀ transaction ∈ block.transactions,
    validateTransactionStateless transaction = .ok ()
  txids : ∃ txids, block.transactions.mapM Transaction.txid = .ok txids ∧
    merkleRoot txids = .ok block.header.merkleRoot
  weight : ∃ weight, blockWeightUnits block = .ok weight ∧ weight ≤ context.params.maxBlockWeight
  proofOfWork : verifyProofOfWork block.header = .ok true
  connects : ∀ hash, context.expectedPreviousBlockHash = some hash →
    block.header.previousBlockHash = hash
  bits : ∀ bits, context.expectedBits = some bits → block.header.bits = bits
  timestamp : context.medianTimePast ≤ block.header.timestamp
  staged : rest.foldlM (stageTransaction context) (initialStage context) = .ok stage
  distribution : validateCoinbaseDistribution coinbase stage.totalFeesChipbits context
    stage.stagedEpochSettlement = .ok ()

theorem BlockChecks.stateless_rest (checks : BlockChecks block ctx coinbase rest stage) :
    ∀ tx ∈ rest, validateTransactionStateless tx = .ok () :=
  fun tx hmem => checks.stateless tx (by simp [checks.transactions_eq, hmem])

/-- Rounds of the block loop, over transactions that pass the stateless checks. -/
inductive StageSteps (context : ValidationContext) : Stage → List Transaction → Stage → Prop
  | done {stage : Stage} : StageSteps context stage [] stage
  | round {stage middle stage' : Stage} {transaction : Transaction} {rest : List Transaction}
      (plain : isCoinbaseTransaction transaction = false)
      (stateless : validateTransactionStateless transaction = .ok ())
      (step : StageStep context stage transaction middle)
      (later : StageSteps context middle rest stage') :
      StageSteps context stage (transaction :: rest) stage'

private theorem stageSteps_of_foldlM (hplain : ∀ tx ∈ rest, isCoinbaseTransaction tx = false)
    (hstateless : ∀ tx ∈ rest, validateTransactionStateless tx = .ok ())
    (h : rest.foldlM (stageTransaction ctx) stage = .ok stage') :
    StageSteps ctx stage rest stage' := by
  induction rest generalizing stage with
  | nil =>
    obtain rfl : stage = stage' := by simpa [pure_eq_ok] using h
    exact .done
  | cons tx rest ih =>
    obtain ⟨middle, hfirst, hrest⟩ := foldlM_cons_eq_ok.mp h
    have hone := hplain tx mem_cons_self
    exact .round hone (hstateless tx mem_cons_self)
      (stageTransaction_cases hone hfirst) (ih (forall_mem_of_forall_mem_cons hplain)
        (forall_mem_of_forall_mem_cons hstateless) hrest)

/-- **Inversion of block validation.** -/
theorem validateBlock_ok (h : validateBlock block ctx = .ok fees) :
    ∃ coinbase rest stage, BlockChecks block ctx coinbase rest stage ∧
      fees = stage.totalFeesChipbits := by
  obtain ⟨⟨⟩, hstateless, hstateful⟩ := bind_eq_ok.mp h
  obtain ⟨⟨⟩, hcontents, hpow⟩ := bind_eq_ok.mp hstateless
  simp only [validateBlockContents, bind_eq_ok, raiseIf_eq_ok, exists_and_left, exists_const,
    forM_eq_ok, not_not] at hcontents
  obtain ⟨hne, hfirst, honly, hall, -, weight, hweight, hlight, txids, htxids, root, hroot, hmerkle,
    -, htime, -⟩ := hcontents
  simp only [bind_eq_ok, raiseIf_eq_ok] at hpow
  obtain ⟨pow, hverify, hpow⟩ := hpow
  simp only [validateBlockStateful, bind_eq_ok, raiseIf_eq_ok, orRaise_eq_ok, exists_and_left,
    exists_const, pure_eq_ok] at hstateful
  obtain ⟨hconnects, hbits, stage, hstaged, coinbase, hhead, ⟨⟩, hdistribution, rfl⟩ := hstateful
  obtain ⟨first, rest, heq⟩ := exists_cons_of_ne_nil hne
  obtain rfl : first = coinbase := by simpa [heq] using hhead
  refine ⟨first, rest, stage, ⟨heq, by simpa [heq] using hfirst, ?_, hall, ⟨txids, htxids, ?_⟩,
    ⟨weight, hweight, not_lt.mp hlight⟩, ?_, ?_, ?_, by omega, by simpa [heq] using hstaged,
      hdistribution⟩, rfl⟩
  · -- Only the first transaction is a coinbase.
    intro tx hmem
    by_contra hcon
    rw [heq, tail_cons] at honly
    exact honly (List.any_eq_true.mpr ⟨tx, hmem, by simpa using hcon⟩)
  · rw [hroot, hmerkle]
  · rw [hverify, show pow = true by simpa using hpow]
  · intro hash hhash
    simpa [hhash] using hconnects
  · intro bits hexpected
    simpa [hexpected] using hbits

namespace BlockChecks

variable (checks : BlockChecks block ctx coinbase rest stage)
include checks

/-- The rounds over the first transactions after the coinbase. -/
theorem steps_of_append {before after : List Transaction} (hrest : rest = before ++ after)
    (h : before.foldlM (stageTransaction ctx) (initialStage ctx) = .ok stage') :
    StageSteps ctx (initialStage ctx) before stage' := by
  subst hrest
  exact stageSteps_of_foldlM (fun t ht => checks.coinbase_only t (mem_append_left _ ht))
    (fun t ht => checks.stateless_rest t (mem_append_left _ ht)) h

theorem steps : StageSteps ctx (initialStage ctx) rest stage :=
  stageSteps_of_foldlM checks.coinbase_only checks.stateless_rest checks.staged

/-- A transaction of an accepted block was validated at a stage that the ones before it have
left. -/
theorem exists_step (hmem : tx ∈ rest) :
    ∃ before after reached next, rest = before ++ tx :: after ∧
      before.foldlM (stageTransaction ctx) (initialStage ctx) = .ok reached ∧
      StageStep ctx reached tx next := by
  obtain ⟨before, after, rfl⟩ := append_of_mem hmem
  obtain ⟨reached, hbefore, hafter⟩ := foldlM_append_eq_ok.mp checks.staged
  obtain ⟨next, hstep, -⟩ := foldlM_cons_eq_ok.mp hafter
  exact ⟨before, after, reached, next, rfl, hbefore,
    stageTransaction_cases (checks.coinbase_only tx hmem) hstep⟩

/-- The coinbase spends nothing, so the spends of the block are those of the rest. -/
theorem spends_eq : block.transactions.flatMap spentOutpoints = rest.flatMap spentOutpoints := by
  have hinputs := checks.coinbase_first
  simp only [isCoinbaseTransaction, Bool.and_eq_true, List.isEmpty_iff] at hinputs
  simp [checks.transactions_eq, spentOutpoints, hinputs.1]

theorem exists_txid : ∀ tx ∈ block.transactions, ∃ txid, tx.txid = .ok txid := by
  obtain ⟨txids, htxids, -⟩ := checks.txids
  exact mapM_returns_iff.mp ⟨txids, htxids⟩

end BlockChecks

end Chipcoin
