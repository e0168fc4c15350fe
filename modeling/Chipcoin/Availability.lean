import Mathlib.Algebra.Order.Floor.Div
import Chipcoin.Node.Connect
import Chipcoin.Recipients

/-!
# Final availability

A rewarded node is meant to have been available at the end of the epoch: a quorum of its committee
attests a check in the last `reward_final_confirmation_window_blocks` blocks, and no check is
attested before its window has begun. An epoch is divided into check windows of equal length
(`windowStart`), and `FinallyAvailable` says this of a settlement and the attestations on chain.

Validation compares neither side. A bundle may carry attestations of windows that are still to come,
and the window that a settlement takes for the final one is the last window assigned to the node,
wherever it lies; `reward_final_confirmation_window_blocks` is never read. So an accepted settlement
need not be finally available (`settlement_not_finallyAvailable`).

`settlement_finallyAvailable`: in a chain whose blocks are all *timely* (`Timely`), every accepted
settlement is. A block is timely when

* the attestations it carries are of the window it lies in or of an earlier one, and
* each node that it pays has been assigned a window in the last blocks of the epoch.
-/

namespace Chipcoin

open Checked List Sorting

variable {params : ConsensusParams} {ctx : ValidationContext} {state : ReplayState}
  {blocks : List Block} {after before : List Transaction} {tx : Transaction} {reached : Stage}
  {attestation : RewardAttestation} {nodeId : PyStr} {epochIndex : Int} {height later window : ℕ}

/-! ### Check windows -/

section Windows

variable (params : ConsensusParams)

/-- The check window in which the block at a height lies. -/
def checkWindowAt (height : ℕ) : ℕ :=
  height % params.epochLengthBlocks * params.rewardCheckWindowsPerEpoch / params.epochLengthBlocks

/-- How many blocks of an epoch come before a window. -/
def windowOffset (window : ℕ) : ℕ :=
  window * params.epochLengthBlocks ⌈/⌉ params.rewardCheckWindowsPerEpoch

/-- The height of the first block of a window. -/
def windowStart (epochIndex : Int) (window : ℕ) : Int :=
  epochIndex * params.epochLengthBlocks + windowOffset params window

/-- The window lies in the last `reward_final_confirmation_window_blocks` blocks of its epoch. -/
def InFinalBlocks (window : ℕ) : Prop :=
  params.epochLengthBlocks ≤ windowOffset params window + params.rewardFinalConfirmationWindowBlocks

instance (window : ℕ) : Decidable (InFinalBlocks params window) :=
  inferInstanceAs (Decidable (_ ≤ _))

variable {params}

/-- A block of a window, or of a later one, is not before the first block of that window. -/
theorem windowStart_le (h : window ≤ checkWindowAt params height) :
    windowStart params (height / params.epochLengthBlocks : ℕ) window ≤ height := by
  have hdiv := Nat.div_add_mod' height params.epochLengthBlocks
  have hoffset : windowOffset params window ≤ height % params.epochLengthBlocks := by
    unfold windowOffset
    rcases Nat.eq_zero_or_pos params.rewardCheckWindowsPerEpoch with hnone | hwindows
    · rw [hnone, ceilDiv_zero]
      exact Nat.zero_le _
    · rw [ceilDiv_le_iff_le_mul hwindows, mul_comm params.rewardCheckWindowsPerEpoch]
      exact (Nat.le_div_iff_mul_le params.epochLengthBlocks_pos).mp h
  unfold windowStart
  norm_cast
  omega

private theorem windowOffset_mono (h : window ≤ later) :
    windowOffset params window ≤ windowOffset params later := by
  unfold windowOffset
  rw [Nat.ceilDiv_eq_add_pred_div, Nat.ceilDiv_eq_add_pred_div]
  have hmul := Nat.mul_le_mul_right params.epochLengthBlocks h
  exact Nat.div_le_div_right (by omega)

private theorem InFinalBlocks.mono (final : InFinalBlocks params window) (h : window ≤ later) :
    InFinalBlocks params later :=
  le_trans final (Nat.add_le_add_right (windowOffset_mono h) _)

end Windows

private theorem mem_epochAttestations :
    attestation ∈ epochAttestations ctx epochIndex ↔
      ∃ bundle ∈ ctx.rewardAttestationBundles, bundle.epochIndex = epochIndex ∧
        attestation ∈ bundle.attestations := by
  simp only [epochAttestations, mem_flatMap, mem_filter, decide_eq_true_eq, and_assoc]

/-- More attestations keep a window passed. -/
theorem WindowPassed.mono {attestations more : List RewardAttestation} {committee : List PyStr}
    (passed : WindowPassed params attestations nodeId window committee)
    (h : ∀ attestation ∈ attestations, ∀ verifier,
      attestation.Passes params nodeId window verifier → attestation ∈ more) :
    WindowPassed params more nodeId window committee := by
  refine ⟨passed.1, passed.2.trans (Finset.card_le_card fun verifier hverifier => ?_)⟩
  obtain ⟨hin, attestation, hmem, hpasses⟩ := Finset.mem_filter.mp hverifier
  exact Finset.mem_filter.mpr ⟨hin, attestation, h attestation hmem verifier hpasses, hpasses⟩

section

variable [Platform]

/-! ### The property -/

/-- The attestations of an epoch that the chain includes at a height or later. -/
def includedSince (bundles : List StoredRewardAttestationBundle) (epochIndex start : Int) :
    List RewardAttestation :=
  (bundles.filter fun stored =>
    stored.bundle.epochIndex = epochIndex ∧ start ≤ stored.blockHeight).flatMap
      (·.bundle.attestations)

/-- **Final availability** of the nodes that a settlement pays, by the bundles on chain and the
nodes and the seed from which the settlement is derived. -/
structure FinallyAvailable (params : ConsensusParams)
    (bundles : List StoredRewardAttestationBundle) (active : Std.ExtTreeMap PyStr NodeRecord)
    (seed : Bytes) (settlement : RewardSettlement) : Prop where
  /-- A paid node has a check window in the last blocks for which a quorum of its committee attests
  a pass, in blocks of that window or later. -/
  final : ∀ entry ∈ settlement.rewardEntries, ∃ window : ℕ,
    window < params.rewardCheckWindowsPerEpoch ∧ InFinalBlocks params window ∧
      WindowPassed params
        (includedSince bundles settlement.epochIndex
          (windowStart params settlement.epochIndex window))
        entry.nodeId window (committeeOf params active seed entry.nodeId window)
  /-- No pass of the epoch is included before the first block of its window. -/
  begun : ∀ stored ∈ bundles, stored.bundle.epochIndex = settlement.epochIndex →
    ∀ attestation ∈ stored.bundle.attestations, ∀ nodeId window verifier,
      attestation.Passes params nodeId window verifier →
        windowStart params settlement.epochIndex window ≤ stored.blockHeight

/-- A settlement of a block, with the active nodes and the seed that validation derives it from. The
nodes are those of the staged registry, which the transactions before the settlement have left. -/
structure SettledBy (ctx : ValidationContext) (block : Block) (settlement : RewardSettlement)
    (active : Std.ExtTreeMap PyStr NodeRecord) (seed : Bytes) : Prop where
  staged : ∃ before tx after stage,
    block.transactions.tail = before ++ tx :: after ∧
    before.foldlM (stageTransaction ctx) (initialStage ctx) = .ok stage ∧
    isRewardSettleEpochTransaction tx ∧
    parseRewardSettlement tx = .ok settlement ∧
    active = activeRewardRecordsById stage.stagedRegistry ctx.height ctx.params
  seed_eq : ctx.epochSeedByIndex[settlement.epochIndex]? = some seed

/-! ### Chains with their attestations -/

/-- The context shows the rewards of a state and its attestations, in any order. -/
structure SeesAttestations (state : ReplayState) (ctx : ValidationContext) (block : Block) :
    Prop extends SeesRewards state ctx block where
  attestations : ∀ epochIndex attestation,
    attestation ∈ epochAttestations ctx epochIndex ↔
      ∃ stored ∈ state.bundles, stored.bundle.epochIndex = epochIndex ∧
        attestation ∈ stored.bundle.attestations

omit [Platform] in
/-- A replay validates in such contexts. -/
theorem ReplayState.context_seesAttestations (state : ReplayState) (params : ConsensusParams)
    (network : PyStr) (height : ℕ) (previousHash : PyStr) (seeds : Std.ExtTreeMap Int Bytes)
    (block : Block) :
    SeesAttestations state (state.context params network height previousHash seeds) block where
  identities_eq := rfl
  settled_eq := rfl
  attestations := by
    intro epochIndex attestation
    rw [mem_epochAttestations]
    simp only [ReplayState.context, mem_map, exists_exists_and_eq_and]

/-- **A timely block.** It attests no window that is still to come, and pays only nodes to which the
seed has assigned a window in the last blocks of the epoch. -/
structure Timely (_ : ReplayState) (ctx : ValidationContext) (block : Block) : Prop where
  attested : ∀ tx ∈ block.transactions.tail,
    isRewardAttestationBundleTransaction tx →
    ∀ bundle, parseRewardAttestationBundle tx = .ok bundle →
    ∀ attestation ∈ bundle.attestations,
      attestation.checkWindowIndex ≤ checkWindowAt ctx.params ctx.height
  confirmed : ∀ tx ∈ block.transactions.tail,
    isRewardSettleEpochTransaction tx →
    ∀ settlement, parseRewardSettlement tx = .ok settlement →
    ∀ seed, ctx.epochSeedByIndex[settlement.epochIndex]? = some seed →
    ∀ entry ∈ settlement.rewardEntries,
      ∃ window ∈ assignedWindows ctx.params seed entry.nodeId,
        InFinalBlocks ctx.params window

instance (state : ReplayState) (ctx : ValidationContext) (block : Block) :
    Decidable (Timely state ctx block) :=
  decidable_of_iff
    ((∀ tx ∈ block.transactions.tail,
      (isRewardAttestationBundleTransaction tx →
        ∀ bundle ∈ (parseRewardAttestationBundle tx).toOption,
        ∀ attestation ∈ bundle.attestations,
          attestation.checkWindowIndex ≤ checkWindowAt ctx.params ctx.height) ∧
      (isRewardSettleEpochTransaction tx →
        ∀ settlement ∈ (parseRewardSettlement tx).toOption,
        ∀ seed ∈ ctx.epochSeedByIndex[settlement.epochIndex]?,
        ∀ entry ∈ settlement.rewardEntries,
          ∃ window ∈ assignedWindows ctx.params seed entry.nodeId,
            InFinalBlocks ctx.params window)))
    ⟨fun h =>
      ⟨fun tx hmem hkind bundle hparse =>
        (h tx hmem).1 hkind bundle (toOption_eq_some_iff.mpr hparse),
      fun tx hmem hkind settlement hparse =>
        (h tx hmem).2 hkind settlement (toOption_eq_some_iff.mpr hparse)⟩,
    fun h tx hmem =>
      ⟨fun hkind bundle hparse =>
        h.attested tx hmem hkind bundle (toOption_eq_some_iff.mp hparse),
      fun hkind settlement hparse =>
        h.confirmed tx hmem hkind settlement (toOption_eq_some_iff.mp hparse)⟩⟩

/-! ### Bundles of a block -/

/-- The epoch of an accepted bundle is that of its block. -/
theorem epoch_of_bundleChecks {bundle : RewardAttestationBundle}
    (parse : parseRewardAttestationBundle tx = .ok bundle)
    (h : validateRewardAttestationBundleTransactionWithParams tx ctx = .ok ()) :
    bundle.epochIndex = (ctx.height / ctx.params.epochLengthBlocks : ℕ) := by
  simp only [validateRewardAttestationBundleTransactionWithParams, parse, ok_bind, bind_eq_ok,
    raiseIf_eq_ok, orRaise_eq_ok, Unique.exists_iff, forM_eq_ok] at h
  obtain ⟨-, -, hepoch, -⟩ := h
  exact not_not.mp hepoch

private theorem BlockChecks.bundle {block : Block} {coinbase : Transaction}
    {rest : List Transaction} {stage : Stage} (checks : BlockChecks block ctx coinbase rest stage)
    (hmem : tx ∈ rest) (kind : isRewardAttestationBundleTransaction tx) :
    ∃ bundle, parseRewardAttestationBundle tx = .ok bundle ∧
      bundle.epochIndex = (ctx.height / ctx.params.epochLengthBlocks : ℕ) := by
  obtain ⟨-, -, reached, next, -, -, hstep⟩ := checks.exists_step hmem
  obtain ⟨bundle, staged, hparse, hchecks, -⟩ := hstep.of_bundle kind
  have hepoch := epoch_of_bundleChecks hparse hchecks
  exact ⟨bundle, hparse, hepoch⟩

private theorem mem_bundles_collectRewards {txs : List Transaction} {state' : ReplayState}
    (h : collectRewards txs height state = .ok state') {stored : StoredRewardAttestationBundle} :
    stored ∈ state'.bundles ↔ stored ∈ state.bundles ∨
      ∃ tx ∈ txs,
        rewardPayload height tx = .ok (some (.bundle stored)) := by
  induction txs generalizing state with
  | nil =>
    obtain rfl := pure_eq_ok.mp h
    simp
  | cons tx rest ih =>
    obtain ⟨next, hstep, hrest⟩ := foldlM_cons_eq_ok.mp h
    obtain ⟨payload, hpayload, hadd⟩ := bind_eq_ok.mp hstep
    -- What the first transaction adds.
    have hnext : stored ∈ next.bundles ↔
        stored ∈ state.bundles ∨ payload = some (.bundle stored) := by
      cases payload with
      | none =>
        obtain rfl := pure_eq_ok.mp hadd
        simp
      | some payload =>
        obtain rfl := pure_eq_ok.mp hadd
        cases payload with
        | bundle added => simp [ReplayState.addPayload, eq_comm]
        | settlement added => simp [ReplayState.addPayload]
    rw [ih hrest, hnext]
    simp only [mem_cons, exists_eq_or_imp, hpayload, Except.ok.injEq, or_assoc]

/-- The bundles that a connected block adds. -/
theorem ReplayState.mem_bundles_connectBlock {state' : ReplayState} {block : Block}
    (h : state.connectBlock block height = .ok state') {stored : StoredRewardAttestationBundle} :
    stored ∈ state'.bundles ↔ stored ∈ state.bundles ∨
      ∃ tx ∈ block.transactions.tail,
        rewardPayload height tx = .ok (some (.bundle stored)) := by
  simp only [ReplayState.connectBlock, bind_eq_ok] at h
  obtain ⟨utxos, -, registry, -, hcollect⟩ := h
  exact mem_bundles_collectRewards hcollect

/-! ### Attestations of windows that have begun -/

/-- The bundles of a state are of the epoch of their block, and attest windows that have begun. -/
def BegunBundles (params : ConsensusParams) (bundles : List StoredRewardAttestationBundle) : Prop :=
  ∀ stored ∈ bundles,
    stored.bundle.epochIndex = (stored.blockHeight / params.epochLengthBlocks : ℕ) ∧
      ∀ attestation ∈ stored.bundle.attestations,
        attestation.checkWindowIndex ≤ checkWindowAt params stored.blockHeight

section Step

variable {params : ConsensusParams} {state state' : ReplayState} {ctx : ValidationContext}
  {block : Block} {fees : Int} {height : ℕ}

private theorem kind_of_stored {stored : StoredRewardAttestationBundle}
    (hpayload : rewardPayload height tx = .ok (some (.bundle stored))) :
    isRewardAttestationBundleTransaction tx := by
  by_contra hkind
  rw [rewardPayload, if_neg hkind] at hpayload
  split_ifs at hpayload
  · obtain ⟨settlement, -, hpayload⟩ := bind_eq_ok.mp hpayload
    obtain ⟨txid, -, hpayload⟩ := bind_eq_ok.mp hpayload
    cases hpayload
  · cases hpayload

/-- A stored bundle of a block is what the validator has parsed. -/
theorem parse_of_stored {stored : StoredRewardAttestationBundle} {bundle : RewardAttestationBundle}
    (hpayload : rewardPayload height tx = .ok (some (.bundle stored)))
    (parse : parseRewardAttestationBundle tx = .ok bundle) : stored.bundle = bundle := by
  obtain ⟨-, -, hstored⟩ := rewardPayload_eq_bundle hpayload
  obtain ⟨found, hfound, h⟩ := bind_eq_ok.mp parse
  obtain ⟨signatures, -, h⟩ := bind_eq_ok.mp h
  obtain rfl := pure_eq_ok.mp h
  exact ok_unique hstored hfound

/-- **One step.** A timely block keeps the bundles of a state begun. -/
theorem BegunBundles.connectBlock (begun : BegunBundles params state.bundles)
    (observes : ctx.Observes state params height)
    (accepted : validateBlock block ctx = .ok fees) (timely : Timely state ctx block)
    (connected : state.connectBlock block height = .ok state') :
    BegunBundles params state'.bundles := by
  intro stored hstored
  rcases (ReplayState.mem_bundles_connectBlock connected).mp hstored with hold | ⟨tx, hmem,
    hpayload⟩
  · exact begun stored hold
  obtain ⟨coinbase, rest, stage, checks, -⟩ := validateBlock_ok accepted
  have hrest : tx ∈ rest := by
    rw [checks.transactions_eq] at hmem
    exact hmem
  have hheight := (rewardPayload_eq_bundle hpayload).2.1
  have hkind : isRewardAttestationBundleTransaction tx := kind_of_stored hpayload
  obtain ⟨bundle, hparse, hepoch⟩ := checks.bundle hrest hkind
  obtain rfl := parse_of_stored hpayload hparse
  have hattested := timely.attested tx hmem hkind _ hparse
  rw [observes.height_eq, observes.params_eq] at hepoch hattested
  rw [hheight]
  exact ⟨hepoch, hattested⟩

end Step

/-- **Whole runs.** The bundles of a chain of timely blocks are begun. -/
theorem AcceptedBlocks.begunBundles (chain : AcceptedBlocks params Timely blocks state) :
    BegunBundles params state.bundles := by
  induction chain with
  | empty => exact fun stored hstored => nomatch hstored
  | extend _ observes accepted timely connected ih =>
    exact ih.connectBlock observes accepted timely connected

/-! ### Settlements -/

/-- The last window of a node is the latest one. -/
theorem le_of_getLast? {seed : Bytes} {last : ℕ}
    (hlast : (assignedWindows params seed nodeId).getLast? = some last)
    (hwindow : window ∈ assignedWindows params seed nodeId) : window ≤ last := by
  have hsorted := (@ascending_assignedWindows _ params seed nodeId).1
  obtain ⟨earlier, heq⟩ := List.getLast?_eq_some_iff.mp hlast
  rw [heq] at hsorted hwindow
  rcases List.mem_append.mp hwindow with hwindow | hwindow
  · exact ((List.pairwise_append.mp hsorted).2.2 window hwindow last mem_cons_self).le
  · exact (List.mem_singleton.mp hwindow).le

section Settlement

variable {params : ConsensusParams} {state state' : ReplayState} {ctx : ValidationContext}
  {block : Block} {height : ℕ} {coinbase : Transaction} {rest : List Transaction} {stage : Stage}

/-- A round of the block loop adds the bundle of its transaction. -/
theorem StageStep.staged_bundles {next : Stage} {bundle : RewardAttestationBundle}
    (step : StageStep ctx reached tx next) (hbundle : bundle ∈ next.stagedAttestationBundles) :
    bundle ∈ reached.stagedAttestationBundles ∨
      isRewardAttestationBundleTransaction tx ∧
        parseRewardAttestationBundle tx = .ok bundle := by
  cases step with
  | special => exact .inl hbundle
  | @bundle _ _ added _ kind parse limits =>
    obtain ⟨seen, windows, rfl⟩ := foldlM_stageAttestation_frame limits
    rcases List.mem_append.mp hbundle with hold | hnew
    · exact .inl hold
    · obtain rfl := List.mem_singleton.mp hnew
      exact .inr ⟨kind, parse⟩
  | settlement => exact .inl hbundle
  | standard => exact .inl hbundle

private theorem StageSteps.staged_bundles {bundle : RewardAttestationBundle}
    (steps : StageSteps ctx stage before reached)
    (hbundle : bundle ∈ reached.stagedAttestationBundles) :
    bundle ∈ stage.stagedAttestationBundles ∨
      ∃ tx ∈ before, isRewardAttestationBundleTransaction tx ∧
        parseRewardAttestationBundle tx = .ok bundle := by
  induction steps with
  | done => exact .inl hbundle
  | @round _ _ _ tx _ _ _ step _ ih =>
    rcases ih hbundle with hold | ⟨other, hmem, hother⟩
    · exact (step.staged_bundles hold).imp_right (⟨tx, mem_cons_self, ·⟩)
    · exact .inr ⟨other, mem_cons_of_mem _ hmem, hother⟩

/-- What a settlement counts is on chain once its block is connected. -/
theorem BlockChecks.included (checks : BlockChecks block ctx coinbase rest stage)
    (sees : SeesAttestations state ctx block)
    (connected : state.connectBlock block height = .ok state') (hrest : rest = before ++ after)
    (hreached : before.foldlM (stageTransaction ctx) (initialStage ctx) = .ok reached)
    (hmem : attestation ∈ epochAttestations (stagedContext ctx reached) epochIndex) :
    ∃ stored ∈ state'.bundles, stored.bundle.epochIndex = epochIndex ∧
      attestation ∈ stored.bundle.attestations := by
  have hbundles {stored : StoredRewardAttestationBundle} :=
    @ReplayState.mem_bundles_connectBlock _ _ _ _ _ connected stored
  obtain ⟨bundle, hbundle, hepoch, hin⟩ := mem_epochAttestations.mp hmem
  rcases (checks.steps_of_append hrest hreached).staged_bundles hbundle with hold | ⟨tx,
    hbefore, kind, parse⟩
  · obtain ⟨stored, hstored, hsame⟩ :=
      (sees.attestations epochIndex attestation).mp
        (mem_epochAttestations.mpr ⟨bundle, hold, hepoch, hin⟩)
    exact ⟨stored, hbundles.mpr (.inl hstored), hsame⟩
  · have hin' : tx ∈ rest := hrest ▸ mem_append_left _ hbefore
    obtain ⟨txid, htxid⟩ := checks.exists_txid tx
      (checks.transactions_eq ▸ mem_cons_of_mem coinbase hin')
    refine ⟨⟨txid, height, bundle⟩, hbundles.mpr (.inr ⟨tx, ?_, ?_⟩), hepoch, hin⟩
    · rw [checks.transactions_eq]
      exact hin'
    · exact rewardPayload_of_bundle kind parse htxid

/-- **Final availability.** On a chain of timely blocks, every settlement of a timely block that is
accepted is finally available. -/
theorem settlement_finallyAvailable {blocks : List Block} {fees : Int}
    (chain : AcceptedBlocks params Timely blocks state)
    (observes : ctx.Observes state params blocks.length) (sees : SeesAttestations state ctx block)
    (accepted : validateBlock block ctx = .ok fees) (timely : Timely state ctx block)
    (connected : state.connectBlock block blocks.length = .ok state')
    {tx : Transaction} {settlement : RewardSettlement} (hmem : tx ∈ block.transactions.tail)
    (hkind : isRewardSettleEpochTransaction tx)
    (hparse : parseRewardSettlement tx = .ok settlement) :
    ∃ active seed, SettledBy ctx block settlement active seed ∧
      FinallyAvailable params state'.bundles active seed settlement := by
  obtain rfl := observes.params_eq
  have begun : BegunBundles ctx.params state'.bundles :=
    chain.begunBundles.connectBlock observes accepted timely connected
  -- A pass of a window is included in a block of that window or later.
  have hstart : ∀ stored ∈ state'.bundles, stored.bundle.epochIndex = settlement.epochIndex →
      ∀ attestation ∈ stored.bundle.attestations, ∀ nodeId window verifier,
        attestation.Passes ctx.params nodeId window verifier →
          windowStart ctx.params settlement.epochIndex window ≤ stored.blockHeight := by
    intro stored hstored hepoch attestation hin nodeId window verifier hpasses
    obtain ⟨hblock, hbegun⟩ := begun stored hstored
    have hle := hbegun attestation hin
    rw [hpasses.1.2] at hle
    rw [← hepoch, hblock]
    exact windowStart_le (by exact_mod_cast hle)
  obtain ⟨coinbase, rest, stage, checks, -⟩ := validateBlock_ok accepted
  have htail : block.transactions.tail = rest := by rw [checks.transactions_eq, tail_cons]
  obtain ⟨before, after, reached, next, hrest, hreached, hstep⟩ :=
    checks.exists_step (htail ▸ hmem)
  obtain ⟨found, seed, hfound, hchecks, -⟩ := hstep.of_settlement hkind
  obtain rfl := ok_unique hparse hfound
  have hseed : ctx.epochSeedByIndex[settlement.epochIndex]? = some seed := hchecks.seedKnown
  refine ⟨_, seed, ⟨⟨before, tx, after, reached, htail.trans hrest, hreached, hkind,
    hparse, rfl⟩, hseed⟩, ?_, hstart⟩
  intro entry hentry
  -- The entry was derived, so its node has passed its last window.
  obtain ⟨⟨-, -, last, hlast, hpassed⟩, -⟩ := winner_of_derived
    (keyed_activeRewardRecordsById _ _) (hchecks.derived (ne_nil_of_mem hentry)) hentry
  obtain ⟨hassigned, hpassed⟩ := Finset.mem_filter.mp hpassed
  rw [mem_toFinset] at hassigned
  obtain ⟨window, hwindow, hfinal⟩ :=
    timely.confirmed tx hmem hkind settlement hparse seed hseed entry hentry
  refine ⟨last, ascending_assignedWindows.2 last hassigned, hfinal.mono
    (le_of_getLast? hlast hwindow),
    hpassed.mono fun attestation hattestation verifier hpasses => ?_⟩
  obtain ⟨stored, hstored, hepoch, hin⟩ :=
    checks.included sees connected hrest hreached hattestation
  refine List.mem_flatMap.mpr ⟨stored, List.mem_filter.mpr ⟨hstored, decide_eq_true ?_⟩, hin⟩
  exact ⟨hepoch, hstart stored hstored hepoch attestation hin _ last verifier hpasses⟩

end Settlement

end

namespace SampleAvailability

open SampleRewards

local instance platform : Platform := SampleRewards.platform

/-- One check window for each node. -/
def singleCheck : ConsensusParams :=
  { sampleParams with rewardTargetChecksPerEpoch := 1, rewardMinPassedChecksPerEpoch := 1 }

/-- The settlement as it is parsed. -/
def parsed : RewardSettlement :=
  { SampleEpoch.emptySettlement with
    rewardedNodeCount := 1
    distributedNodeRewardChipbits := 30
    undistributedNodeRewardChipbits := 0
    rewardEntries := [{ SampleEpoch.wholePoolEntry with payoutAddress := sampleAddress }] }

/-- Three chains, evaluated: both windows attested in the second block; a single window, which is
not in the last block; and each window attested when it has begun. -/
theorem chains_evaluated :
    (isRewardSettleEpochTransaction settlement ∧ parseRewardSettlement settlement = .ok parsed) ∧
    (validateBlock (third [bundle "0" "first"] []) (thirdContext singleCheck [bundle "0" "first"]) =
        .ok 0 ∧
      replays AnyBlock sampleParams (str "mainnet") seeds
        [genesis, second passes, third passes []] ∧
      ∃ stored ∈ (afterThird passes []).bundles,
        stored.bundle.epochIndex = 0 ∧ stored.blockHeight = 1 ∧
          ∃ attestation ∈ stored.bundle.attestations,
            attestation.Passes sampleParams (str "a") 1 (str "b")) ∧
    (replays AnyBlock singleCheck (str "mainnet") seeds
        [genesis, second [bundle "0" "first"], third [bundle "0" "first"] []] ∧
      ∀ stored ∈ (afterThird [bundle "0" "first"] []).bundles,
        ∀ attestation ∈ stored.bundle.attestations, attestation.checkWindowIndex = 0) ∧
    replays Timely sampleParams (str "mainnet") seeds [genesis, second [bundle "0" "first"],
      third [bundle "0" "first"] [bundle "1" "second"]] := by
  decide +kernel

/-- The first two blocks of a chain of three, and the third. -/
theorem split_replayed {Meets : BlockCondition}
    [∀ state ctx block, Decidable (Meets state ctx block)] {earlier bundles : List Transaction}
    (h : replays Meets params (str "mainnet") seeds
      [genesis, second earlier, third earlier bundles]) :
    replays Meets params (str "mainnet") seeds [genesis, second earlier] ∧
      Meets (afterSecond earlier) (thirdContext params earlier) (third earlier bundles) ∧
      (∃ fees, validateBlock (third earlier bundles) (thirdContext params earlier) = .ok fees) ∧
      (afterSecond earlier).connectBlock (third earlier bundles) 2 =
        .ok (afterThird earlier bundles) := by
  simp only [replays, replaysFrom, ReplayState.takes, Bool.and_eq_true, Bool.and_true,
    decide_eq_true_eq] at h ⊢
  obtain ⟨hfirst, hsecond, hmeets, haccepted, hconnected⟩ := h
  exact ⟨⟨hfirst, hsecond⟩, hmeets, ⟨_, @eq_ok_getD _ _ _ 0 haccepted⟩, eq_ok_getD hconnected⟩

/-- An accepted settlement on a chain that pays a node which is not finally available, whatever the
active nodes and the seed. -/
def PaysUnavailable (params : ConsensusParams) (earlier bundles : List Transaction) : Prop :=
  AcceptedBlocks params SeesAttestations [genesis, second earlier] (afterSecond earlier) ∧
    (thirdContext params earlier).Observes (afterSecond earlier) params 2 ∧
    SeesAttestations (afterSecond earlier) (thirdContext params earlier) (third earlier bundles) ∧
    (∃ fees, validateBlock (third earlier bundles) (thirdContext params earlier) = .ok fees) ∧
    (afterSecond earlier).connectBlock (third earlier bundles) 2 =
      .ok (afterThird earlier bundles) ∧
    settlement ∈ (third earlier bundles).transactions.tail ∧
    isRewardSettleEpochTransaction settlement ∧ parseRewardSettlement settlement = .ok parsed ∧
    ∀ active seed,
      ¬ FinallyAvailable params (afterThird earlier bundles).bundles active seed parsed

private theorem PaysUnavailable.of_replays {earlier bundles : List Transaction}
    (h : replays AnyBlock params (str "mainnet") seeds
      [genesis, second earlier, third earlier bundles])
    (hunavailable : ∀ active seed,
      ¬ FinallyAvailable params (afterThird earlier bundles).bundles active seed parsed) :
    PaysUnavailable params earlier bundles := by
  obtain ⟨⟨hkind, hparse⟩, -⟩ := chains_evaluated
  obtain ⟨hreplayed, -, haccepted, hconnected⟩ := split_replayed h
  exact ⟨AcceptedBlocks.grow .empty (fun _ _ _ _ _ => ReplayState.context_seesAttestations ..)
    hreplayed, ReplayState.context_observes .., ReplayState.context_seesAttestations ..,
    haccepted, hconnected, mem_append_right _ (mem_singleton_self _), hkind, hparse,
    hunavailable⟩

/-- **Final availability fails twice.** On the sample network both checks of an epoch of three
blocks are attested in the second block, where the window of the last block has not begun. And with
a single check, which is in the first window, the last block of the epoch is not attested at all.
Both epochs are settled with the whole pool. -/
theorem settlement_not_finallyAvailable :
    PaysUnavailable sampleParams passes [] ∧
      PaysUnavailable singleCheck [bundle "0" "first"] [] := by
  obtain ⟨-, ⟨-, hearly, hstored⟩, ⟨hsingle, hwindows⟩, -⟩ := chains_evaluated
  refine ⟨.of_replays hearly ?_, .of_replays hsingle ?_⟩
  · intro active seed available
    obtain ⟨stored, hmem, hepoch, hheight, attestation, hin, hpasses⟩ := hstored
    have hbegun := available.begun stored hmem hepoch attestation hin _ 1 _ hpasses
    rw [hheight] at hbegun
    exact absurd hbegun (by decide)
  · intro active seed available
    obtain ⟨window, -, hfinal, hpositive, hquorum⟩ :=
      available.final _ (mem_singleton_self _)
    -- A quorum has a member, and every pass on chain is of the first window.
    obtain ⟨verifier, hverifier⟩ := Finset.card_pos.mp (lt_of_lt_of_le hpositive hquorum)
    obtain ⟨-, attestation, hin, hpasses⟩ := Finset.mem_filter.mp hverifier
    obtain ⟨stored, hmem, hin⟩ := List.mem_flatMap.mp hin
    have hzero := hwindows stored (mem_of_mem_filter hmem) attestation hin
    rw [hpasses.1.2, Int.natCast_eq_zero] at hzero
    subst hzero
    exact absurd hfinal (by decide)

/-- With each check attested when its window has begun, the settlement is finally available. -/
theorem settlement_finallyAvailable_third :
    ∃ active seed,
      FinallyAvailable sampleParams
        (afterThird [bundle "0" "first"] [bundle "1" "second"]).bundles active seed parsed := by
  obtain ⟨⟨hkind, hparse⟩, -, -, hreplayed⟩ := chains_evaluated
  obtain ⟨hchain, htimely, ⟨fees, haccepted⟩, hconnected⟩ := split_replayed hreplayed
  obtain ⟨active, seed, -, available⟩ := settlement_finallyAvailable (.of_replays hchain)
    (ReplayState.context_observes ..) (ReplayState.context_seesAttestations ..) haccepted htimely
    hconnected (mem_cons_of_mem _ (mem_singleton_self settlement)) hkind hparse
  exact ⟨active, seed, available⟩

end SampleAvailability

end Chipcoin
