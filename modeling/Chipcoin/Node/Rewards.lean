import Chipcoin.Node.Chain
import Chipcoin.Settlement

/-!
# The reward payloads of a chain

A block adds its attestation bundles and settlements to the state one after the other. Acceptance
makes each of them new: no attestation of a bundle is on chain before it, and no epoch is settled
twice. So every settlement occurs once, and a table keyed by txid can hold them.

* `RewardRun`: the payloads of a block in their order; `BlockChecks.rewardRun` finds it in every
  accepted block.
* `CountedOnce`: no attestation and no settled epoch occurs twice.
* `KeyedSettlements`: the settlements have distinct txids.
-/

namespace Chipcoin

open Checked List

variable {a b tx : Transaction} {bundle : RewardAttestationBundle}
  {ctx : ValidationContext} {height : ℕ} {settlement : RewardSettlement} {state' : ReplayState}
  {txs : List Transaction} {txid : PyStr} {state : ReplayState}

/-! ### Payloads of a block -/

/-- The limits of a block let no attestation occur twice in a bundle. -/
theorem nodup_of_limits {params : ConsensusParams} {attestations : List RewardAttestation}
    {stage limited : Stage}
    (h : attestations.foldlM (stageAttestation params) stage = .ok limited) :
    (attestations.map attestationIdentity).Nodup := by
  refine (foldlM_seen Stage.seenAttestations attestationIdentity
    (fun stage attestation stage' hstep => ?_) h).1
  simp only [stageAttestation, bind_eq_ok, raiseIf_eq_ok, Unique.exists_iff, pure_eq_ok] at hstep
  obtain ⟨hnew, -, rfl⟩ := hstep
  exact ⟨hnew, rfl⟩

section

variable [Platform]

/-- The payloads of a list of transactions in their order, each new to the state it is added to. -/
inductive RewardRun (height : ℕ) : ReplayState → List Transaction → ReplayState → Prop
  | done {state : ReplayState} : RewardRun height state [] state
  | other {state state' : ReplayState} {transaction : Transaction} {rest : List Transaction}
      (payload : rewardPayload height transaction = .ok none)
      (tail : RewardRun height state rest state') :
      RewardRun height state (transaction :: rest) state'
  | bundle {state state' : ReplayState} {transaction : Transaction} {rest : List Transaction}
      {stored : StoredRewardAttestationBundle}
      (payload : rewardPayload height transaction = .ok (some (.bundle stored)))
      (fresh : ∀ attestation ∈ stored.bundle.attestations,
        attestationIdentity attestation ∉ state.identities)
      (tail : RewardRun height (state.addPayload (.bundle stored)) rest state') :
      RewardRun height state (transaction :: rest) state'
  | settlement {state state' : ReplayState} {transaction : Transaction} {rest : List Transaction}
      {stored : StoredEpochSettlement}
      (payload : rewardPayload height transaction = .ok (some (.settlement stored)))
      (fresh : stored.settlement.epochIndex ∉ state.settledEpochs)
      (tail : RewardRun height (state.addPayload (.settlement stored)) rest state') :
      RewardRun height state (transaction :: rest) state'

/-- The payloads of a run are those that connecting the block collects. -/
theorem RewardRun.collectRewards (run : RewardRun height state txs state') :
    collectRewards txs height state = .ok state' := by
  induction run with
  | done => rfl
  | other payload _ ih =>
    refine foldlM_cons_eq_ok.mpr ⟨_, ?_, ih⟩
    rw [payload]
    rfl
  | bundle payload _ _ ih =>
    refine foldlM_cons_eq_ok.mpr ⟨_, ?_, ih⟩
    rw [payload]
    rfl
  | settlement payload _ _ ih =>
    refine foldlM_cons_eq_ok.mpr ⟨_, ?_, ih⟩
    rw [payload]
    rfl

/-- Payloads leave outputs and registry alone. -/
theorem RewardRun.frame (run : RewardRun height state txs state') :
    state'.utxos = state.utxos ∧ state'.registry = state.registry := by
  induction run with
  | done => exact ⟨rfl, rfl⟩
  | other _ _ ih => exact ih
  | bundle _ _ _ ih => exact ih
  | settlement _ _ _ ih => exact ih

/-! ### Counting once -/

/-- Every attestation is counted once and every epoch is settled once, and the sets of a state hold
what was counted. -/
structure CountedOnce (state : ReplayState) : Prop where
  attestations : (state.bundles.flatMap (·.bundle.attestations.map attestationIdentity)).Nodup
  identities : state.identities =
    (state.bundles.flatMap (·.bundle.attestations.map attestationIdentity)).toFinset
  epochs : (state.settlements.map (·.settlement.epochIndex)).Nodup
  settled : state.settledEpochs = (state.settlements.map (·.settlement.epochIndex)).toFinset

section

variable {state : ReplayState} (counted : CountedOnce state)
include counted

omit [Platform] in
private theorem CountedOnce.addBundle {stored : StoredRewardAttestationBundle}
    (hnodup : (stored.bundle.attestations.map attestationIdentity).Nodup)
    (fresh : ∀ attestation ∈ stored.bundle.attestations,
      attestationIdentity attestation ∉ state.identities) :
    CountedOnce (state.addPayload (.bundle stored)) := by
  refine ⟨?_, ?_, counted.epochs, counted.settled⟩
  · rw [ReplayState.addPayload, flatMap_append, flatMap_singleton]
    refine nodup_append'.mpr ⟨counted.attestations, hnodup, fun identity hold hnew => ?_⟩
    obtain ⟨attestation, hmem, rfl⟩ := List.mem_map.mp hnew
    exact fresh attestation hmem (by rwa [counted.identities, mem_toFinset])
  · simp only [ReplayState.addPayload, flatMap_append, flatMap_singleton,
      toFinset_append, counted.identities]

omit [Platform] in
private theorem CountedOnce.addSettlement {stored : StoredEpochSettlement}
    (fresh : stored.settlement.epochIndex ∉ state.settledEpochs) :
    CountedOnce (state.addPayload (.settlement stored)) := by
  rw [counted.settled, mem_toFinset] at fresh
  refine ⟨counted.attestations, counted.identities, ?_, ?_⟩
  · rw [ReplayState.addPayload, map_append, map_singleton, nodup_append_comm]
    exact List.nodup_cons.mpr ⟨fresh, counted.epochs⟩
  · simp only [ReplayState.addPayload, map_append, map_singleton, toFinset_append, toFinset_cons,
      toFinset_nil, insert_empty_eq, counted.settled, Finset.union_comm, Finset.insert_eq]

end

/-! ### Accepted blocks -/

theorem rewardPayload_of_bundle (kind : isRewardAttestationBundleTransaction tx)
    (parse : parseRewardAttestationBundle tx = .ok bundle) (htxid : tx.txid = .ok txid) :
    rewardPayload height tx = .ok (some (.bundle ⟨txid, height, bundle⟩)) := by
  obtain ⟨found, hfound, h⟩ := bind_eq_ok.mp parse
  obtain ⟨signatures, -, h⟩ := bind_eq_ok.mp h
  obtain rfl := pure_eq_ok.mp h
  rw [rewardPayload, if_pos kind, hfound, htxid]
  rfl

theorem parseRewardSettlement_metadata (parse : parseRewardSettlement tx = .ok settlement) :
    parseRewardSettlementMetadata tx = .ok settlement := by
  simp only [parseRewardSettlement, bind_eq_ok, pure_eq_ok] at parse
  obtain ⟨found, hfound, -, -, -, -, -, -, -, -, rfl⟩ := parse
  exact hfound

private theorem rewardPayload_of_settlement (kind : isRewardSettleEpochTransaction tx)
    (parse : parseRewardSettlement tx = .ok settlement) (htxid : tx.txid = .ok txid) :
    rewardPayload height tx = .ok (some (.settlement ⟨txid, height, settlement⟩)) := by
  rw [rewardPayload, if_neg (by simp [not_bundle_of_settle kind]), if_pos kind,
    parseRewardSettlement_metadata parse, htxid]
  rfl

private theorem rewardPayload_of_other (notBundle : isRewardAttestationBundleTransaction tx = false)
    (notSettle : isRewardSettleEpochTransaction tx = false) :
    rewardPayload height tx = .ok none := by
  rw [rewardPayload, if_neg (by simp [notBundle]), if_neg (by simp [notSettle])]
  rfl

/-- An accepted bundle replays no attestation. -/
theorem fresh_of_bundleChecks (parse : parseRewardAttestationBundle tx = .ok bundle)
    (h : validateRewardAttestationBundleTransactionWithParams tx ctx = .ok ()) :
    ∀ attestation ∈ bundle.attestations,
      attestationIdentity attestation ∉ ctx.rewardAttestationIdentities := by
  simp only [validateRewardAttestationBundleTransactionWithParams, parse, ok_bind, bind_eq_ok,
    raiseIf_eq_ok, orRaise_eq_ok, Unique.exists_iff, forM_eq_ok] at h
  obtain ⟨-, -, -, seed, -, -, hall⟩ := h
  intro attestation hmem
  obtain ⟨⟨⟩, hfresh, -⟩ := bind_eq_ok.mp (hall attestation hmem)
  exact raiseIf_eq_ok.mp hfresh

section Rounds

variable {stage stage' : Stage} (step : StageStep ctx stage tx stage')
include step

/-- A round over a bundle. It was checked while its attestations were not staged yet. -/
theorem StageStep.of_bundle (hkind : isRewardAttestationBundleTransaction tx) :
    ∃ bundle staged, parseRewardAttestationBundle tx = .ok bundle ∧
      validateRewardAttestationBundleTransactionWithParams tx
        (stagedContext ctx staged) = .ok () ∧
      staged.stagedAttestationIdentities = stage.stagedAttestationIdentities ∧
      stage'.stagedAttestationIdentities = stage.stagedAttestationIdentities ∪
        (bundle.attestations.map attestationIdentity).toFinset := by
  cases step with
  | special kind => rw [not_bundle_of_special kind] at hkind; cases hkind
  | @bundle _ limited bundle seenSpends _ parse limits _ checks =>
    obtain ⟨seen, windows, rfl⟩ := foldlM_stageAttestation_frame limits
    exact ⟨bundle, _, parse, checks, rfl, rfl⟩
  | settlement kind => rw [not_bundle_of_settle kind] at hkind; cases hkind
  | standard _ notBundle => rw [notBundle] at hkind; cases hkind

/-- A round over a settlement. Validation does not look at the spends seen so far. -/
theorem StageStep.of_settlement (hkind : isRewardSettleEpochTransaction tx) :
    ∃ settlement seed, parseRewardSettlement tx = .ok settlement ∧
      SettlementChecks (stagedContext ctx stage) settlement seed ∧
      stage'.stagedSettledEpochIndexes =
        insert settlement.epochIndex stage.stagedSettledEpochIndexes := by
  cases step with
  | special kind => rw [not_settle_of_special kind] at hkind; cases hkind
  | bundle kind => rw [not_bundle_of_settle hkind] at kind; cases kind
  | settlement _ parse _ valid =>
    obtain ⟨found, seed, hfound, checks⟩ := validateRewardSettleEpochTransactionWithParams_ok valid
    obtain rfl := ok_unique parse hfound
    exact ⟨_, seed, parse, checks, rfl⟩
  | standard _ _ notSettle => rw [notSettle] at hkind; cases hkind

end Rounds

theorem StageSteps.rewardRun {stage stage' : Stage} (steps : StageSteps ctx stage txs stage')
    (htxids : ∀ tx ∈ txs, ∃ txid, tx.txid = .ok txid)
    (hidentities : stage.stagedAttestationIdentities = state.identities)
    (hsettled : stage.stagedSettledEpochIndexes = state.settledEpochs) :
    ∃ state', RewardRun ctx.height state txs state' ∧
      (CountedOnce state → CountedOnce state') := by
  induction steps generalizing state with
  | done => exact ⟨state, .done, id⟩
  | round _ _ step _ ih =>
    obtain ⟨txid, htxid⟩ := htxids _ mem_cons_self
    have htail {state : ReplayState} := @ih state (forall_mem_of_forall_mem_cons htxids)
    cases step with
    | special kind checks apply =>
      obtain ⟨state', hrun, hcounts⟩ := htail hidentities hsettled
      exact ⟨state', .other (rewardPayload_of_other (not_bundle_of_special kind)
        (not_settle_of_special kind)) hrun, hcounts⟩
    -- The staged identities are the replayed ones, so the check against them is `hfresh`.
    | @bundle _ limited bundle seenSpends kind parse limits spends checks =>
      have hnodup := nodup_of_limits limits
      obtain ⟨seen, windows, rfl⟩ := foldlM_stageAttestation_frame limits
      have hfresh := fresh_of_bundleChecks parse checks
      rw [hidentities] at hfresh
      obtain ⟨state', hrun, hcounts⟩ := @htail
        (state.addPayload (.bundle ⟨txid, ctx.height, bundle⟩))
        (congrArg (· ∪ _) hidentities) hsettled
      exact ⟨state', .bundle (rewardPayload_of_bundle kind parse htxid) hfresh hrun,
        fun counted => hcounts (counted.addBundle hnodup hfresh)⟩
    | @settlement _ settlement seenSpends kind parse spends checks =>
      obtain ⟨found, seed, hparse, hchecks⟩ :=
        validateRewardSettleEpochTransactionWithParams_ok checks
      obtain rfl := ok_unique parse hparse
      have hfresh := hchecks.unsettled
      rw [hsettled] at hfresh
      obtain ⟨state', hrun, hcounts⟩ := @htail
        (state.addPayload (.settlement ⟨txid, ctx.height, settlement⟩))
        hidentities (congrArg (insert _) hsettled)
      exact ⟨state', .settlement (rewardPayload_of_settlement kind parse htxid) hfresh
        hrun, fun counted => hcounts (counted.addSettlement hfresh)⟩
    | standard notSpecial notBundle notSettle spends checks apply =>
      obtain ⟨state', hrun, hcounts⟩ := htail hidentities hsettled
      exact ⟨state', .other (rewardPayload_of_other notBundle notSettle) hrun, hcounts⟩

/-- **The payloads of an accepted block.** -/
theorem BlockChecks.rewardRun {block : Block} {coinbase : Transaction} {rest : List Transaction}
    {stage : Stage} (checks : BlockChecks block ctx coinbase rest stage) {state : ReplayState}
    (hidentities : ctx.rewardAttestationIdentities = state.identities)
    (hsettled : ctx.settledEpochIndexes = state.settledEpochs) :
    ∃ state', RewardRun ctx.height state rest state' ∧
      (CountedOnce state → CountedOnce state') := by
  refine checks.steps.rewardRun (fun tx hmem => ?_) hidentities hsettled
  exact checks.exists_txid tx
    (checks.transactions_eq ▸ mem_cons_of_mem coinbase hmem)

/-! ### Payloads of a chain -/

theorem rewardPayload_eq_bundle {stored : StoredRewardAttestationBundle}
    (h : rewardPayload height tx = .ok (some (.bundle stored))) :
    tx.txid = .ok stored.txid ∧ stored.blockHeight = height ∧
      parseRewardAttestationBundleMetadata tx = .ok stored.bundle := by
  rw [rewardPayload] at h
  split_ifs at h with hbundle hsettle
  · obtain ⟨bundle, hbundle, h⟩ := bind_eq_ok.mp h
    obtain ⟨txid, htxid, h⟩ := bind_eq_ok.mp h
    cases h
    exact ⟨htxid, rfl, hbundle⟩
  · obtain ⟨settlement, -, h⟩ := bind_eq_ok.mp h
    obtain ⟨txid, -, h⟩ := bind_eq_ok.mp h
    cases h
  · cases h

theorem rewardPayload_eq_settlement {stored : StoredEpochSettlement}
    (h : rewardPayload height tx = .ok (some (.settlement stored))) :
    tx.txid = .ok stored.txid ∧
      parseRewardSettlementMetadata tx = .ok stored.settlement := by
  rw [rewardPayload] at h
  split_ifs at h with hbundle hsettle
  · obtain ⟨bundle, -, h⟩ := bind_eq_ok.mp h
    obtain ⟨txid, -, h⟩ := bind_eq_ok.mp h
    cases h
  · obtain ⟨settlement, hsettlement, h⟩ := bind_eq_ok.mp h
    obtain ⟨txid, htxid, h⟩ := bind_eq_ok.mp h
    cases h
    exact ⟨htxid, hsettlement⟩
  · cases h

/-- Transactions on which txids do not collide, as far as the metadata is concerned. -/
def CleanTxids (known : Set Transaction) : Prop :=
  ∀ a ∈ known, ∀ b ∈ known, ∀ txid, a.txid = .ok txid → b.txid = .ok txid → a.metadata = b.metadata

/-- Settlements are parsed from the metadata alone. -/
theorem parseRewardSettlementMetadata_congr (h : a.metadata = b.metadata) :
    parseRewardSettlementMetadata a = parseRewardSettlementMetadata b := by
  cases a
  cases b
  cases h
  rfl

/-- The settlements of a state are parsed from known transactions, and their txids are distinct. -/
structure KeyedSettlements (known : Set Transaction) (state : ReplayState) : Prop where
  parsed : ∀ stored ∈ state.settlements, ∃ transaction ∈ known,
    transaction.txid = .ok stored.txid ∧
      parseRewardSettlementMetadata transaction = .ok stored.settlement
  nodup : (state.settlements.map (·.txid)).Nodup
  settled : state.settledEpochs = (state.settlements.map (·.settlement.epochIndex)).toFinset

/-- **One settlement.** An earlier one under the same txid would have settled the same epoch. -/
theorem KeyedSettlements.addSettlement {known : Set Transaction} {state : ReplayState}
    (keyed : KeyedSettlements known state) (clean : CleanTxids known)
    (hknown : tx ∈ known) {stored : StoredEpochSettlement}
    (payload : rewardPayload height tx = .ok (some (.settlement stored)))
    (fresh : stored.settlement.epochIndex ∉ state.settledEpochs) :
    KeyedSettlements known (state.addPayload (.settlement stored)) := by
  obtain ⟨htxid, hparse⟩ := rewardPayload_eq_settlement payload
  refine ⟨?_, ?_, ?_⟩
  · exact List.forall_mem_append.mpr ⟨keyed.parsed,
      List.forall_mem_singleton.mpr ⟨tx, hknown, htxid, hparse⟩⟩
  · rw [ReplayState.addPayload, map_append, map_singleton, nodup_append_comm]
    refine List.nodup_cons.mpr ⟨fun hmem => fresh ?_, keyed.nodup⟩
    obtain ⟨other, hother, hsame⟩ := List.mem_map.mp hmem
    obtain ⟨origin, horigin, hotxid, hoparse⟩ := keyed.parsed other hother
    rw [parseRewardSettlementMetadata_congr
      (clean origin horigin tx hknown _ (hsame ▸ hotxid) htxid), hparse] at hoparse
    rw [keyed.settled, mem_toFinset, Except.ok.inj hoparse]
    exact mem_map_of_mem hother
  · simp only [ReplayState.addPayload, map_append, map_singleton, toFinset_append, toFinset_cons,
      toFinset_nil, insert_empty_eq, keyed.settled, Finset.union_comm, Finset.insert_eq]

/-- **The payloads of a block** keep the settlements apart; only settlements touch them. -/
theorem RewardRun.keyed {known : Set Transaction} {state : ReplayState}
    (run : RewardRun height state txs state') (clean : CleanTxids known)
    (hknown : ∀ tx ∈ txs, tx ∈ known)
    (keyed : KeyedSettlements known state) : KeyedSettlements known state' := by
  induction run with
  | done => exact keyed
  | other _ _ ih => exact ih (forall_mem_of_forall_mem_cons hknown) keyed
  | bundle _ _ _ ih =>
    exact ih (forall_mem_of_forall_mem_cons hknown) ⟨keyed.parsed, keyed.nodup, keyed.settled⟩
  | settlement payload fresh _ ih =>
    exact ih (forall_mem_of_forall_mem_cons hknown)
      (keyed.addSettlement clean (hknown _ mem_cons_self) payload fresh)

end

end Chipcoin
