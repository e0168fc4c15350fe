import Chipcoin.Consensus.Acceptance
import Chipcoin.Lib.Ledger
import Chipcoin.Node.Chain
import Chipcoin.Spending

/-!
# The supply never exceeds the schedule

Along every chain of accepted blocks the values of all unspent outputs add up to at most the
subsidies scheduled so far, which never exceed the cap.

The chain is compared with an abstract ledger of amounts at outpoints. A transaction changes it by
`payLedger`: the amounts at its inputs are spent, the amounts of its outputs are issued. The ledger
bounds every view of the outputs from above, and it does so whichever view the transaction is
applied to (`LawfulView.covers_applyTransaction`), so it bounds both states that matter for a block.

* The staged view of validation: there the fee that is computed from the view pays for what the
  ledger loses (`degree_payLedger_standard`), so the block loop burns its fees.
* The real set, which also holds the coinbase outputs: it stays below the staged ledger plus the
  coinbase (`foldl_payLedger_add_le`).

The coinbase is worth the miner subsidy, the fees, and the node rewards of a settlement that adds
up to the scheduled pool, so a block issues at most its scheduled subsidy.
-/

namespace Chipcoin

open Checked Ledger List

variable {isCoinbase : Bool} {block : Block} {stage' : Stage} {after before : UtxoSet}
  {coinbase : Transaction} {txs : List Transaction}

section

variable {ctx : ValidationContext} {height : ℕ} {stage : Stage} {tx : Transaction}
  {txid : PyStr}
open Finsupp (degree)

/-- The value of all entries of a UTXO set. -/
def UtxoSet.totalValue (entries : UtxoSet) : Int :=
  (entries.toList.map fun entry => entry.2.output.value).sum

/-- The value of what a lookup has found. -/
def valueOf (found : Option UtxoEntry) : Int := found.elim 0 (·.output.value)

theorem UtxoView.valueAt_eq (view : UtxoView) (outpoint : OutPoint) :
    view.valueAt outpoint = valueOf (view.get outpoint) := by
  rw [UtxoView.valueAt, valueOf]
  cases view.get outpoint <;> rfl

/-- The ledger of a UTXO set. -/
noncomputable def UtxoSet.ledger (entries : UtxoSet) : OutPoint →₀ ℤ :=
  ofMap (·.output.value) entries

theorem UtxoSet.degree_ledger (entries : UtxoSet) : degree entries.ledger = entries.totalValue :=
  degree_ofMap _ entries

theorem UtxoSet.ledger_apply (entries : UtxoSet) (outpoint : OutPoint) :
    entries.ledger outpoint = valueOf entries[outpoint]? := rfl

section

variable [Platform] {ledger : OutPoint →₀ ℤ}

/-! ### The ledger of a transaction -/

/-- The amounts that a transaction issues at the outpoints of its outputs. -/
def createdAmounts (tx : Transaction) : List (OutPoint × ℤ) :=
  match tx.txid with
  | .ok txid => tx.outputs.mapIdx fun index output => (⟨txid, index⟩, output.value)
  | .error _ => []

/-- The effect of a transaction on a ledger. -/
noncomputable def payLedger (ledger : OutPoint →₀ ℤ) (tx : Transaction) : OutPoint →₀ ℤ :=
  spend ledger (spentOutpoints tx).toFinset + issue (createdAmounts tx)

theorem payLedger_apply (ledger : OutPoint →₀ ℤ) (tx : Transaction) (outpoint : OutPoint) :
    payLedger ledger tx outpoint =
      (if outpoint ∈ spentOutpoints tx then 0 else ledger outpoint) +
        issue (createdAmounts tx) outpoint := by
  rw [payLedger, Finsupp.add_apply, spend_apply]
  simp only [mem_toFinset]

/-- The outputs of a transaction are worth nothing negative. -/
def OutputsNonneg (tx : Transaction) : Prop :=
  ∀ output ∈ tx.outputs, 0 ≤ output.value

private theorem createdAmounts_nonneg (h : OutputsNonneg tx) :
    ∀ amount ∈ createdAmounts tx, 0 ≤ amount.2 := by
  intro amount hmem
  rw [createdAmounts] at hmem
  split at hmem
  · obtain ⟨index, hlt, rfl⟩ := List.mem_mapIdx.mp hmem
    exact h _ (getElem_mem hlt)
  · simp at hmem

theorem createdAmounts_eq (htxid : tx.txid = .ok txid) :
    createdAmounts tx =
      tx.outputs.mapIdx fun index output => (⟨txid, index⟩, output.value) := by
  rw [createdAmounts, htxid]

theorem degree_issue_createdAmounts (htxid : tx.txid = .ok txid) :
    degree (issue (createdAmounts tx)) = transactionOutputTotal tx := by
  rw [degree_issue, createdAmounts_eq htxid, transactionOutputTotal]
  congr 1
  refine ext_getElem (by simp) fun index _ _ => ?_
  simp

/-- What a transaction creates is covered by what it issues. -/
theorem valueOf_createdAt_le {outpoint : OutPoint} {entry : UtxoEntry}
    (hnonneg : OutputsNonneg tx) (htxid : tx.txid = .ok txid)
    (hcreated : createdAt txid tx height isCoinbase outpoint = some entry) :
    entry.output.value ≤ issue (createdAmounts tx) outpoint := by
  refine le_issue (createdAmounts_nonneg hnonneg) ?_
  rw [createdAt] at hcreated
  split at hcreated
  · next hown =>
    obtain ⟨output, hget, rfl⟩ := Option.map_eq_some_iff.mp hcreated
    obtain ⟨hlt, houtput⟩ := List.getElem?_eq_some_iff.mp hget
    rw [createdAmounts_eq htxid]
    refine List.mem_mapIdx.mpr ⟨outpoint.index.toNat, hlt, ?_⟩
    obtain ⟨id, index⟩ := outpoint
    obtain ⟨rfl, hindex⟩ := hown
    rw [houtput, Int.toNat_of_nonneg hindex]
  · simp at hcreated

private theorem payLedger_nonneg (hledger : 0 ≤ ledger) (hnonneg : OutputsNonneg tx) :
    0 ≤ payLedger ledger tx := by
  intro outpoint
  rw [payLedger_apply]
  have hissue := issue_nonneg (createdAmounts_nonneg hnonneg) outpoint
  split
  · simpa using hissue
  · exact add_nonneg (hledger outpoint) hissue

/-- Registry actions, bundles and settlements do not change the ledger. -/
theorem payLedger_of_noCoins (h : tx.inputs = [] ∧ tx.outputs = []) :
    payLedger ledger tx = ledger := by
  have hcreated : createdAmounts tx = [] := by
    rw [createdAmounts, h.2]
    split <;> rfl
  ext outpoint
  rw [payLedger_apply, hcreated, spentOutpoints, h.1]
  simp [issue]

private theorem payLedger_add_le {extra : OutPoint →₀ ℤ} (hextra : 0 ≤ extra) (tx : Transaction) :
    payLedger (ledger + extra) tx ≤ payLedger ledger tx + extra := by
  intro outpoint
  have hnonneg : 0 ≤ extra outpoint := hextra outpoint
  rw [Finsupp.add_apply, payLedger_apply, payLedger_apply, Finsupp.add_apply]
  split <;> linarith

private theorem payLedger_mono {ledger' : OutPoint →₀ ℤ} (h : ledger ≤ ledger') (tx : Transaction) :
    payLedger ledger tx ≤ payLedger ledger' tx := by
  intro outpoint
  have hle : ledger outpoint ≤ ledger' outpoint := h outpoint
  rw [payLedger_apply, payLedger_apply]
  split <;> linarith

private theorem foldl_payLedger_mono {ledger' : OutPoint →₀ ℤ} (h : ledger ≤ ledger')
    (txs : List Transaction) :
    txs.foldl payLedger ledger ≤ txs.foldl payLedger ledger' := by
  induction txs generalizing ledger ledger' with
  | nil => exact h
  | cons tx rest ih => exact ih (payLedger_mono h tx)

/-- The same for a whole list of transactions. -/
theorem foldl_payLedger_add_le {extra : OutPoint →₀ ℤ} (hextra : 0 ≤ extra)
    (txs : List Transaction) :
    txs.foldl payLedger (ledger + extra) ≤ txs.foldl payLedger ledger +
      extra := by
  induction txs generalizing ledger with
  | nil => exact le_refl _
  | cons tx rest ih =>
    exact (foldl_payLedger_mono (payLedger_add_le hextra tx) rest).trans ih

/-! ### The ledger covers every view -/

/-- The ledger holds at least what a lookup finds, at every outpoint. -/
def Covers (ledger : OutPoint →₀ ℤ) (get : OutPoint → Option UtxoEntry) : Prop :=
  ∀ outpoint, valueOf (get outpoint) ≤ ledger outpoint

section

variable {σ : Type} {get : σ → OutPoint → Option UtxoEntry} {spend : σ → OutPoint → σ}
  {add : σ → OutPoint → UtxoEntry → σ} (laws : LawfulView get spend add) {view view' : σ}
include laws

/-- **Refinement, one transaction.** On any view, the ledger step covers the view step. -/
theorem LawfulView.covers_applyTransaction
    (h : applyTransactionWith spend add view tx height isCoinbase = .ok view')
    (hnonneg : OutputsNonneg tx) (hledger : 0 ≤ ledger)
    (hcovers : Covers ledger (get view)) : Covers (payLedger ledger tx) (get view') := by
  intro outpoint
  obtain ⟨txid, htxid, hget⟩ := laws.get_applyTransaction h
  have hissue : 0 ≤ issue (createdAmounts tx) outpoint :=
    issue_nonneg (createdAmounts_nonneg hnonneg) outpoint
  have hheld : 0 ≤ ledger outpoint := hledger outpoint
  rw [hget, observeTransaction, payLedger_apply]
  cases hcreated : createdAt txid tx height isCoinbase outpoint with
  | some entry =>
    -- A created output is issued; what was there before only helps.
    have hle := valueOf_createdAt_le hnonneg htxid hcreated
    change entry.output.value ≤ _
    split <;> linarith
  | none =>
    by_cases hspent : outpoint ∈ spentOutpoints tx
    · simpa [hspent, valueOf] using hissue
    · have hle := hcovers outpoint
      simp only [hspent, if_false]
      linarith

/-- **Refinement, a list of transactions.** -/
theorem LawfulView.covers_foldlM {start : ℕ} (h : (txs.zipIdx start).foldlM (fun view (tx, index) =>
      applyTransactionWith spend add view tx height (index == 0)) view = .ok view')
    (hnonneg : ∀ tx ∈ txs, OutputsNonneg tx) (hledger : 0 ≤ ledger)
    (hcovers : Covers ledger (get view)) :
    Covers (txs.foldl payLedger ledger) (get view') := by
  induction txs generalizing view ledger start with
  | nil =>
    obtain rfl : view = view' := by simpa [pure_eq_ok] using h
    exact hcovers
  | cons tx rest ih =>
    rw [zipIdx_cons] at h
    obtain ⟨middle, hfirst, hrest⟩ := foldlM_cons_eq_ok.mp h
    have hout := hnonneg tx (by simp)
    exact ih hrest (fun t ht => hnonneg t (by simp [ht])) (payLedger_nonneg hledger hout)
      (laws.covers_applyTransaction hfirst hout hledger hcovers)

end

/-! ### The block loop burns its fees -/

/-- The relation between the variables of the block loop and the ledger. -/
structure StageLedger (start : OutPoint →₀ ℤ) (ledger : OutPoint →₀ ℤ) (stage : Stage) :
    Prop where
  nonneg : 0 ≤ ledger
  covers : Covers ledger stage.stagedView.get
  /-- The fees collected so far are missing from the ledger. -/
  fees : degree ledger + stage.totalFeesChipbits ≤ degree start
  /-- The remembered settlement adds up. -/
  settlement : ∀ settlement, stage.stagedEpochSettlement = some settlement →
    (settlement.rewardEntries.map (·.rewardChipbits)).sum =
      settlement.distributedNodeRewardChipbits

/-- What a standard transaction takes from the ledger pays for its outputs and its fee. -/
theorem degree_payLedger_standard {fee : Int} (htxid : tx.txid = .ok txid)
    (hcovers : Covers ledger ctx.utxoView.get) (hnodup : (spentOutpoints tx).Nodup)
    (checks : StandardChecks tx ctx fee) :
    degree (payLedger ledger tx) + fee ≤ degree ledger := by
  have hspent : (tx.inputs.map fun txInput =>
      ctx.utxoView.valueAt txInput.previousOutput).sum ≤
        ∑ outpoint ∈ (spentOutpoints tx).toFinset, ledger outpoint := by
    rw [sum_toFinset _ hnodup, spentOutpoints, map_map]
    refine sum_le_sum fun txInput _ => ?_
    rw [UtxoView.valueAt_eq]
    exact hcovers txInput.previousOutput
  have htotal := degree_spend_add ledger (spentOutpoints tx).toFinset
  rw [payLedger, map_add, degree_issue_createdAmounts htxid, checks.fee_eq]
  linarith

/-- **One round.** -/
theorem StageStep.stageLedger {start : OutPoint →₀ ℤ} (hstep : StageStep ctx stage tx stage')
    (hstateless : validateTransactionStateless tx = .ok ())
    (hledger : StageLedger start ledger stage) :
    StageLedger start (payLedger ledger tx) stage' := by
  have hnonneg : OutputsNonneg tx := validateTransactionStateless_outputs hstateless
  have hnoCoins : carriesNoCoins tx → payLedger ledger tx = ledger := fun hkind =>
    payLedger_of_noCoins (validateTransactionStateless_noCoins hstateless hkind)
  cases hstep with
  | special kind =>
    rw [hnoCoins (by simp [carriesNoCoins, kind])]
    exact ⟨hledger.nonneg, hledger.covers, hledger.fees, hledger.settlement⟩
  | bundle kind _ limits =>
    rw [hnoCoins (by simp [carriesNoCoins, kind])]
    obtain ⟨seen, windows, rfl⟩ := foldlM_stageAttestation_frame limits
    exact ⟨hledger.nonneg, hledger.covers, hledger.fees, hledger.settlement⟩
  | settlement kind parse _ checks =>
    rw [hnoCoins (by simp [carriesNoCoins, kind])]
    refine ⟨hledger.nonneg, hledger.covers, hledger.fees, fun settlement hremembered => ?_⟩
    -- A newly remembered settlement has just been accepted.
    obtain ⟨parsed, seed, hparse, hchecks⟩ :=
      validateRewardSettleEpochTransactionWithParams_ok checks
    obtain rfl := ok_unique hparse parse
    split at hremembered
    · obtain rfl := Option.some.inj hremembered
      exact hchecks.total
    · exact hledger.settlement settlement hremembered
  | standard _ _ _ spends checks apply =>
    obtain ⟨hnodup, -, -⟩ := foldlM_stageSpend_ok spends
    obtain ⟨txid, htxid, -⟩ := UtxoView.lawful.get_applyTransaction apply
    have hfee := degree_payLedger_standard htxid hledger.covers hnodup
      (validateStandardStateful_ok checks)
    have hfees := hledger.fees
    refine ⟨payLedger_nonneg hledger.nonneg hnonneg,
      UtxoView.lawful.covers_applyTransaction apply hnonneg hledger.nonneg hledger.covers, ?_,
      hledger.settlement⟩
    linarith

/-- **The whole loop.** -/
theorem StageSteps.stageLedger {start : OutPoint →₀ ℤ}
    (steps : StageSteps ctx stage txs stage') (hledger : StageLedger start ledger stage) :
    StageLedger start (txs.foldl payLedger ledger) stage' := by
  induction steps generalizing ledger with
  | done => exact hledger
  | round _ stateless step _ ih => exact ih (step.stageLedger stateless hledger)

/-! ### One block -/

/-- No entry of the set has a negative value. -/
def UtxoSet.Nonneg (entries : UtxoSet) : Prop :=
  ∀ (outpoint : OutPoint) (entry : UtxoEntry), entries[outpoint]? = some entry →
    0 ≤ entry.output.value

omit [Platform] in
theorem UtxoSet.Nonneg.ledger_nonneg {entries : UtxoSet} (h : entries.Nonneg) :
    0 ≤ entries.ledger := by
  intro outpoint
  rw [UtxoSet.ledger_apply]
  cases hget : entries[outpoint]? with
  | none => exact le_refl _
  | some entry => exact h outpoint entry hget

private theorem UtxoSet.Nonneg.applyBlock (hbefore : before.Nonneg)
    (houtputs : ∀ tx ∈ block.transactions, OutputsNonneg tx)
    (h : before.applyBlock block height = .ok after) : after.Nonneg := by
  refine foldlM_invariant UtxoSet.Nonneg ?_ h hbefore
  rintro entries ⟨tx, index⟩ entries' hmem hstep hentries outpoint entry hget
  have hmem : tx ∈ block.transactions := fst_mem_of_mem_zipIdx hmem
  obtain ⟨txid, -, hobserve⟩ := UtxoSet.lawful.get_applyTransaction hstep
  rw [hobserve, observeTransaction] at hget
  split at hget
  · next created hcreated =>
    -- The entry is new, so its output is one of the transaction's.
    obtain rfl := Option.some.inj hget
    rw [createdAt] at hcreated
    split at hcreated
    · obtain ⟨output, houtput, rfl⟩ := Option.map_eq_some_iff.mp hcreated
      exact houtputs tx hmem output (mem_of_getElem? houtput)
    · simp at hcreated
  · split at hget
    · simp at hget
    · exact hentries outpoint entry hget

/-- A coinbase spends nothing, so the ledger only gains what it issues. -/
theorem payLedger_coinbase (h : isCoinbaseTransaction coinbase) (ledger : OutPoint →₀ ℤ) :
    payLedger ledger coinbase = ledger + issue (createdAmounts coinbase) := by
  simp only [isCoinbaseTransaction, Bool.and_eq_true, List.isEmpty_iff] at h
  ext outpoint
  rw [payLedger_apply, Finsupp.add_apply, spentOutpoints, h.1]
  simp

/-- **A block issues at most its scheduled subsidy.** -/
theorem BlockChecks.totalValue_le {rest : List Transaction}
    (checks : BlockChecks block ctx coinbase rest stage)
    (hview : ∀ outpoint, ctx.utxoView.get outpoint = before[outpoint]?)
    (hbefore : before.Nonneg) (happly : before.applyBlock block ctx.height = .ok after) :
    after.totalValue ≤ before.totalValue +
      ((subsidySplitChipbits ctx.height ctx.params).1 +
        (subsidySplitChipbits ctx.height ctx.params).2) := by
  have hnonneg : ∀ tx ∈ block.transactions, OutputsNonneg tx :=
    fun tx hmem => validateTransactionStateless_outputs (checks.stateless tx hmem)
  -- The block loop starts from the ledger of the set and burns the fees.
  have hstart : StageLedger before.ledger before.ledger (initialStage ctx) :=
    ⟨hbefore.ledger_nonneg, fun outpoint => by
      rw [show (initialStage ctx).stagedView = ctx.utxoView from rfl, hview]; rfl,
      by simp [initialStage], by simp [initialStage]⟩
  have hloop := checks.steps.stageLedger hstart
  have hburned := hloop.fees
  -- The real set is covered by the ledger of the loop and the coinbase.
  have hcovers : Covers (block.transactions.foldl payLedger before.ledger) (fun op => after[op]?) :=
    UtxoSet.lawful.covers_foldlM happly hnonneg hbefore.ledger_nonneg fun _ => le_refl _
  obtain ⟨txid, htxid⟩ := checks.exists_txid coinbase (by simp [checks.transactions_eq])
  have hissued : 0 ≤ issue (createdAmounts coinbase) :=
    issue_nonneg (createdAmounts_nonneg (hnonneg coinbase (by simp [checks.transactions_eq])))
  have hledger : after.ledger ≤
      rest.foldl payLedger before.ledger + issue (createdAmounts coinbase) := by
    refine le_trans hcovers ?_
    rw [checks.transactions_eq, foldl_cons, payLedger_coinbase checks.coinbase_first]
    exact foldl_payLedger_add_le hissued rest
  have htotal := degree_le_degree hledger
  rw [map_add, degree_issue_createdAmounts htxid, UtxoSet.degree_ledger] at htotal
  rw [UtxoSet.degree_ledger] at hburned
  -- The coinbase is worth the miner subsidy, the fees and the rewards of the settlement.
  obtain ⟨-, hcoinbase, hwhole⟩ := validateCoinbaseDistribution_ok checks.distribution
  cases hsettled : stage.stagedEpochSettlement with
  | none =>
    rw [hsettled, settledRewards] at hcoinbase
    linarith
  | some settlement =>
    have hsum := hloop.settlement settlement hsettled
    rw [hsettled, settledRewards] at hcoinbase
    by_cases hentries : settlement.rewardEntries = []
    · rw [hentries, map_nil, sum_nil] at hcoinbase
      linarith
    · rw [hsum, hwhole settlement hsettled hentries] at hcoinbase
      linarith

/-! ### The chain -/

/-- **Supply along a chain.** By induction on the chain: each block adds its scheduled subsidy to
the bound. Of the context only the outputs, the height and the parameters matter. -/
theorem AcceptedBlocks.totalValue_le {params : ConsensusParams} {Meets : BlockCondition}
    {blocks : List Block} {state : ReplayState} (chain : AcceptedBlocks params Meets blocks state) :
    state.utxos.Nonneg ∧
      state.utxos.totalValue ≤ totalSubsidyThroughHeight ((blocks.length : Int) - 1) params := by
  induction chain with
  | empty =>
    refine ⟨fun outpoint entry hget => ?_, ?_⟩
    · simp [ReplayState.empty] at hget
    · have htotal : ReplayState.empty.utxos.totalValue = 0 := by
        rw [UtxoSet.totalValue, ReplayState.empty, Std.ExtTreeMap.toList_eq_nil_iff.mpr rfl]
        rfl
      rw [htotal]
      exact Int.natCast_nonneg _
  | @extend blocks state state' ctx block fees _ observes accepted _ connected ih =>
    obtain ⟨hnonneg, hle⟩ := ih
    obtain ⟨coinbase, rest, stage, checks, -⟩ := validateBlock_ok accepted
    have happly := ReplayState.connectBlock_utxos connected
    refine ⟨hnonneg.applyBlock (fun tx hmem =>
      validateTransactionStateless_outputs (checks.stateless tx hmem)) happly, ?_⟩
    rw [← observes.height_eq] at happly
    have hblock := checks.totalValue_le observes.view hnonneg happly
    rw [observes.height_eq, observes.params_eq] at hblock
    have hschedule := totalSubsidyThroughHeight_succ params blocks.length
    have hcast : ((blocks ++ [block]).length : Int) - 1 = blocks.length := by simp
    rw [hcast]
    omega

/-- **Supply cap.** After blocks at heights `0` to `height`, each accepted in a context that
observes what its predecessors have left, the unspent outputs are worth at most the subsidies
scheduled through that height, and these are at most the cap. -/
theorem supply_cap {params : ConsensusParams} {Meets : BlockCondition} {blocks : List Block}
    {height : ℕ} {state : ReplayState} (chain : AcceptedBlocks params Meets blocks state)
    (hlength : blocks.length = height + 1) :
    state.utxos.totalValue ≤ totalSubsidyThroughHeight height params ∧
      totalSubsidyThroughHeight height params ≤ params.maxMoneyChipbits := by
  have hle := chain.totalValue_le.2
  have hcap := totalSubsidyThroughHeight_le params (height + 1)
  rw [hlength] at hle
  rw [show ((height + 1 : ℕ) : Int) - 1 = height by push_cast; ring] at hle hcap
  exact ⟨hle, hcap⟩

end

end

namespace SampleSupply

local instance platform : Platform := samplePlatform []

/-- The public key of a wallet. -/
def wallet : Bytes := List.replicate 33 2

/-- A first block that pays the wallet. -/
def paid : Block :=
  sampleBlock zeroHash 0 0x207FFFFF
    [sampleCoinbase 0 [⟨50, (publicKeyToAddress wallet).toOption.getD []⟩]]

/-- A payment by the wallet, with a fee of ten chipbits. -/
def payment : Transaction where
  version := 1
  inputs := paid.transactions.map fun coinbase => {
    previousOutput := ⟨coinbase.txid.toOption.getD [], 0⟩
    signature := [1]
    publicKey := wallet }
  outputs := [⟨40, sampleAddress⟩]

/-- A second block with the payment; its miner takes the fee. -/
def paying : Block :=
  sampleBlock paid.sampleHash 1000 0x207FFFFF [sampleCoinbase 1 [⟨60, sampleAddress⟩], payment]

def afterPaying : ReplayState := .after .empty 0 [paid, paying]

theorem paying_replayed : replays AnyBlock sampleParams (str "mainnet") ∅ [paid, paying] := by
  decide +kernel

/-- After the payment both subsidies are unspent: the bound is attained. -/
theorem supply_cap_paying :
    AcceptedBlocks sampleParams AnyBlock [paid, paying] afterPaying ∧
      afterPaying.utxos.totalValue = 100 ∧
      afterPaying.utxos.totalValue ≤ totalSubsidyThroughHeight 1 sampleParams ∧
        totalSubsidyThroughHeight 1 sampleParams ≤ sampleParams.maxMoneyChipbits := by
  have chain : AcceptedBlocks sampleParams AnyBlock [paid, paying] afterPaying :=
    .of_replays paying_replayed
  exact ⟨chain, by decide +kernel, supply_cap chain rfl⟩

end SampleSupply

end Chipcoin
