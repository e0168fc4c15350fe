import Chipcoin.Node.Chain

/-!
# Registry actions inside their block

The protocol lets a registry action take effect from the next block. Block validation applies it to
a staged registry that the later transactions of the same block are validated against. An action
dates the record of its node at the height of the block, and a node dated at a height is not active
at it: the action takes the node out of the reward nodes for the rest of the block.

* `activeRewardRecordsById_staged`: the active reward nodes after some transactions of a block are
  those before it, without the nodes that an action has named.
* `stageTransaction_withRegistry`: other transactions see the registry through its active reward
  nodes only.
* `actions_deferred_iff`: the actions of a block leave the activity of nodes and the verdicts on
  later transactions as they are exactly when none of them names an active reward node.
-/

namespace Chipcoin

open Checked

section

variable {ctx : ValidationContext} {stage stage' : Stage} {tx : Transaction}
  {view : NodeRegistryView}

/-! ### Active reward nodes -/

/-- **The active reward nodes**, by lookup. -/
theorem getElem?_activeRewardRecordsById (view : NodeRegistryView) (height : ℕ)
    (params : ConsensusParams) (nodeId : PyStr) :
    (activeRewardRecordsById view height params)[nodeId]? =
      (view.getByNodeId nodeId).filter
        fun record => record.rewardRegistration && rewardNodeIsActive record height params := by
  have hmem : ∀ record : NodeRecord,
      record ∈ (activeNodeRecords view height params).filter (·.rewardRegistration) ↔
        record ∈ view.entries ∧
          (record.rewardRegistration && rewardNodeIsActive record height params) := by
    intro record
    simp [activeNodeRecords, NodeRegistryView.listRecords, and_comm, and_assoc]
  have hnodup : (((activeNodeRecords view height params).filter (·.rewardRegistration)).map
      NodeRecord.nodeId).Nodup := by
    have hlisted : (view.listRecords.map NodeRecord.nodeId).Nodup :=
      ((Sorting.sortBy_perm view.entries).map _).nodup_iff.mpr view.nodup
    exact hlisted.sublist ((List.filter_sublist.trans List.filter_sublist).map _)
  rw [activeRewardRecordsById, Table.getElem?_foldl_insert hnodup]
  refine Option.ext fun record => ?_
  rw [Std.ExtTreeMap.getElem?_empty, Option.or_none, Table.find?_key_eq_some hnodup, hmem,
    Option.filter_eq_some_iff, NodeRegistryView.getByNodeId_eq_some]
  tauto

/-- What an action writes is dated at the height of its block, under the id that it names. -/
theorem specialNodeRecord_dated [Platform] {height : ℕ} {record : NodeRecord}
    (h : specialNodeRecord tx height view.getByNodeId = .ok record) :
    record.lastRenewedHeight = height ∧ tx.get? "node_id" = some record.nodeId := by
  rw [specialNodeRecord] at h
  split_ifs at h
  · simp only [bind_eq_ok, pure_eq_ok, Transaction.get_eq_ok] at h
    obtain ⟨_, -, _, -, nodeId, hid, _, -, rfl⟩ := h
    exact ⟨rfl, hid⟩
  · simp only [bind_eq_ok, pure_eq_ok, Transaction.get_eq_ok] at h
    obtain ⟨_, -, _, -, _, -, nodeId, hid, _, -, _, -, _, -, _, -, _, -, _, -, rfl⟩ := h
    exact ⟨rfl, hid⟩
  · simp only [bind_eq_ok, orRaise_eq_ok, pure_eq_ok, Transaction.get_eq_ok] at h
    obtain ⟨nodeId, hid, old, hold, rfl⟩ := h
    obtain ⟨-, rfl⟩ := NodeRegistryView.getByNodeId_eq_some.mp hold
    exact ⟨rfl, hid⟩
  · simp only [bind_eq_ok, orRaise_eq_ok, pure_eq_ok, Transaction.get_eq_ok] at h
    obtain ⟨nodeId, hid, old, hold, _, -, _, -, _, -, rfl⟩ := h
    obtain ⟨-, rfl⟩ := NodeRegistryView.getByNodeId_eq_some.mp hold
    exact ⟨rfl, hid⟩

/-- **An action ends the activity of its node** at the height of the block. -/
theorem getElem?_activeRewardRecordsById_upsert {height : ℕ} {params : ConsensusParams}
    {record : NodeRecord} (hdate : record.lastRenewedHeight = height) (nodeId : PyStr) :
    (activeRewardRecordsById (view.upsert record) height params)[nodeId]? =
      if nodeId = record.nodeId then none
      else (activeRewardRecordsById view height params)[nodeId]? := by
  rw [getElem?_activeRewardRecordsById, getElem?_activeRewardRecordsById,
    NodeRegistryView.getByNodeId_upsert]
  split_ifs with h
  · -- A node is active only at heights above its date.
    have hinactive : rewardNodeIsActive record height params = false := by
      simp [rewardNodeIsActive, hdate]
    simp [hinactive]
  · rfl

/-! ### Rounds of the block loop -/

section

variable [Platform]

/-- The stage with another registry. -/
def Stage.withRegistry (stage : Stage) (view : NodeRegistryView) : Stage :=
  { stage with stagedRegistry := view }

/-- The context with another registry. -/
def ValidationContext.withRegistry (ctx : ValidationContext) (view : NodeRegistryView) :
    ValidationContext :=
  { ctx with nodeRegistryView := view }

omit [Platform] in
private theorem stagedContext_withRegistry (ctx : ValidationContext) (stage : Stage)
    (view : NodeRegistryView) :
    stagedContext ctx (stage.withRegistry view) =
      (stagedContext ctx stage).withRegistry view := rfl

omit [Platform] in
private theorem stageAttestation_withRegistry (params : ConsensusParams) (stage : Stage)
    (view : NodeRegistryView) (attestation : RewardAttestation) :
    stageAttestation params (stage.withRegistry view) attestation =
      (stageAttestation params stage attestation).map (·.withRegistry view) := by
  simp only [stageAttestation, map_bind]
  rfl

/-- The limits of a block do not look at the registry. -/
theorem stageLimits_withRegistry (ctx : ValidationContext) (stage : Stage)
    (view : NodeRegistryView) (tx : Transaction) :
    stageLimits ctx (stage.withRegistry view) tx =
      (stageLimits ctx stage tx).map (·.withRegistry view) := by
  have hcount : ∀ attestations : List RewardAttestation,
      attestations.foldlM (stageAttestation ctx.params) (stage.withRegistry view) =
        (attestations.foldlM (stageAttestation ctx.params) stage).map (·.withRegistry view) :=
    fun attestations => foldlM_map (g := (·.withRegistry view)) fun stage attestation _ =>
      stageAttestation_withRegistry ctx.params stage view attestation
  rw [stageLimits, stageLimits]
  by_cases hbundle : isRewardAttestationBundleTransaction tx
  · rw [if_pos hbundle, if_pos hbundle, map_bind]
    refine bind_congr fun bundle => ?_
    rw [hcount, bind_map, map_bind]
    refine bind_congr fun limited => ?_
    dsimp only
    -- The spends are recorded beside the registry.
    by_cases hspecial : isSpecialNodeTransaction tx
    · rw [if_pos hspecial, if_pos hspecial]
      rfl
    · rw [if_neg hspecial, if_neg hspecial, map_bind]
      rfl
  · rw [if_neg hbundle, if_neg hbundle, pure_bind, pure_bind]
    dsimp only
    by_cases hspecial : isSpecialNodeTransaction tx
    · rw [if_pos hspecial, if_pos hspecial]
      rfl
    · rw [if_neg hspecial, if_neg hspecial, map_bind]
      rfl

private theorem stageLimits_registry_eq {limited : Stage}
    (h : stageLimits ctx stage tx = .ok limited) :
    limited.stagedRegistry = stage.stagedRegistry := by
  -- Writing the registry of the stage to the stage changes nothing.
  have hsame := stageLimits_withRegistry ctx stage stage.stagedRegistry tx
  rw [show stage.withRegistry stage.stagedRegistry = stage from rfl, h] at hsame
  have hlimited : limited = limited.withRegistry stage.stagedRegistry := Except.ok.inj hsame
  rw [hlimited]
  rfl

section

variable (hactive : activeRewardRecordsById view ctx.height ctx.params =
    activeRewardRecordsById ctx.nodeRegistryView ctx.height ctx.params)
  (tx : Transaction)
include hactive

/-- A bundle is checked against the active reward nodes. -/
theorem validateBundle_withRegistry :
    validateRewardAttestationBundleTransactionWithParams tx (ctx.withRegistry view) =
      validateRewardAttestationBundleTransactionWithParams tx ctx := by
  simp only [validateRewardAttestationBundleTransactionWithParams, ValidationContext.withRegistry,
    hactive]
  rfl

/-- A settlement is checked against the active reward nodes. -/
theorem validateSettlement_withRegistry :
    validateRewardSettleEpochTransactionWithParams tx (ctx.withRegistry view) =
      validateRewardSettleEpochTransactionWithParams tx ctx := by
  simp only [validateRewardSettleEpochTransactionWithParams, ValidationContext.withRegistry,
    hactive]
  rfl

end

private theorem validateTransactionStateful_withRegistry
    (hkind : isSpecialNodeTransaction tx = false)
    (hactive : activeRewardRecordsById view ctx.height ctx.params =
      activeRewardRecordsById ctx.nodeRegistryView ctx.height ctx.params) :
    validateTransactionStateful tx (ctx.withRegistry view) =
      validateTransactionStateful tx ctx := by
  have hstandard : validateStandardStateful tx (ctx.withRegistry view) =
      validateStandardStateful tx ctx := rfl
  have houtputs : validateTransactionOutputsForActivation tx (ctx.withRegistry view) =
      validateTransactionOutputsForActivation tx ctx := rfl
  simp only [validateTransactionStateful, hkind, Bool.false_eq_true, if_false, hstandard, houtputs,
    validateBundle_withRegistry hactive, validateSettlement_withRegistry hactive]

/-- Only an action writes to the registry. -/
theorem stageEffect_withRegistry (hkind : isSpecialNodeTransaction tx = false) :
    stageEffect ctx (stage.withRegistry view) tx =
      (stageEffect ctx stage tx).map (·.withRegistry view) := by
  rw [stageEffect, stageEffect, hkind]
  simp only [Bool.false_eq_true, if_false]
  split_ifs
  · rw [map_bind]
    rfl
  · rw [map_bind]
    rfl
  · rw [map_bind]
    rfl

/-- **Other transactions see active reward nodes only.** A round that is not an action does the
same on every registry with the same active reward nodes. -/
theorem stageTransaction_withRegistry (hkind : isSpecialNodeTransaction tx = false)
    (hactive : activeRewardRecordsById view ctx.height ctx.params =
      activeRewardRecordsById stage.stagedRegistry ctx.height ctx.params) :
    stageTransaction ctx (stage.withRegistry view) tx =
      (stageTransaction ctx stage tx).map (·.withRegistry view) := by
  rw [stageTransaction, stageTransaction, stageLimits_withRegistry]
  cases hlimits : stageLimits ctx stage tx with
  | error e => rfl
  | ok limited =>
    -- The limits leave the registry, so that its active nodes are those of the stage.
    have hlimited : limited.stagedRegistry = stage.stagedRegistry :=
      stageLimits_registry_eq hlimits
    have hvalid : validateTransactionStateful tx
          (stagedContext ctx (limited.withRegistry view)) =
        validateTransactionStateful tx (stagedContext ctx limited) := by
      rw [stagedContext_withRegistry]
      refine validateTransactionStateful_withRegistry hkind ?_
      change activeRewardRecordsById view ctx.height ctx.params =
        activeRewardRecordsById limited.stagedRegistry ctx.height ctx.params
      rw [hlimited, hactive]
    have hmap : (Except.ok limited : Except PyError Stage).map (·.withRegistry view) =
      .ok (limited.withRegistry view) := rfl
    rw [hmap, ok_bind, ok_bind, hvalid, map_bind]
    refine bind_congr fun feeChipbits => ?_
    have heffect := @stageEffect_withRegistry ctx
      { limited with totalFeesChipbits := limited.totalFeesChipbits + feeChipbits } tx view
      _ hkind
    exact heffect

private theorem stageTransaction_special (hkind : isSpecialNodeTransaction tx)
    (h : stageTransaction ctx stage tx = .ok stage') :
    ∃ record, specialNodeRecord tx ctx.height stage.stagedRegistry.getByNodeId =
      .ok record ∧ stage' = stage.withRegistry (stage.stagedRegistry.upsert record) := by
  simp only [stageTransaction, bind_eq_ok] at h
  obtain ⟨limited, hlimits, fee, hvalid, heffect⟩ := h
  have hbundle := not_bundle_of_special hkind
  obtain rfl : stage = limited := by
    simpa [stageLimits, hbundle, hkind, pure_eq_ok, bind_eq_ok] using hlimits
  -- An action pays no fee, whether or not it is flagged as a coinbase.
  obtain rfl : 0 = fee := by
    obtain ⟨⟨⟩, -, hvalid⟩ := bind_eq_ok.mp hvalid
    rw [if_pos hkind] at hvalid
    split_ifs at hvalid
    · exact pure_eq_ok.mp hvalid
    · obtain ⟨⟨⟩, -, hfee⟩ := bind_eq_ok.mp hvalid
      exact pure_eq_ok.mp hfee
  simp only [stageEffect, if_pos hkind, bind_eq_ok, pure_eq_ok, add_zero] at heffect
  obtain ⟨registry, happly, rfl⟩ := heffect
  obtain ⟨record, hrecord, rfl⟩ := applySpecialNodeTransaction_eq_ok happly
  exact ⟨record, hrecord, rfl⟩

/-- Any other round leaves the registry. -/
theorem stageTransaction_registry_eq (hkind : isSpecialNodeTransaction tx = false)
    (h : stageTransaction ctx stage tx = .ok stage') :
    stage'.stagedRegistry = stage.stagedRegistry := by
  -- Writing the registry of the stage to the stage changes nothing.
  have hsame := @stageTransaction_withRegistry ctx stage tx stage.stagedRegistry _
    hkind rfl
  rw [show stage.withRegistry stage.stagedRegistry = stage from rfl, h] at hsame
  have hstage : stage' = stage'.withRegistry stage.stagedRegistry := Except.ok.inj hsame
  rw [hstage]
  rfl

/-! ### Transactions of a block -/

/-- Some action among the transactions names the node. -/
def Names (txs : List Transaction) (nodeId : PyStr) : Prop :=
  ∃ action ∈ txs, isSpecialNodeTransaction action ∧
    action.get? "node_id" = some nodeId

/-- The transactions without the registry actions. -/
def withoutActions (txs : List Transaction) : List Transaction :=
  txs.filter fun tx => !isSpecialNodeTransaction tx

open Classical in
/-- **Activity inside a block.** After some transactions of a block, the active reward nodes are
those before it that no action has named. -/
theorem activeRewardRecordsById_staged {txs : List Transaction}
    (h : txs.foldlM (stageTransaction ctx) stage = .ok stage') (nodeId : PyStr) :
    (activeRewardRecordsById stage'.stagedRegistry ctx.height ctx.params)[nodeId]? =
      if Names txs nodeId then none
      else (activeRewardRecordsById stage.stagedRegistry ctx.height
        ctx.params)[nodeId]? := by
  induction txs generalizing stage with
  | nil =>
    obtain rfl : stage = stage' := by simpa [pure_eq_ok] using h
    rw [if_neg (by simp [Names])]
  | cons tx rest ih =>
    obtain ⟨middle, hfirst, hrest⟩ := foldlM_cons_eq_ok.mp h
    rw [ih hrest]
    by_cases hlater : Names rest nodeId
    · -- A later action has already made the node inactive.
      obtain ⟨action, hmem, hnames⟩ := hlater
      rw [if_pos ⟨action, hmem, hnames⟩, if_pos ⟨action, List.mem_cons_of_mem _ hmem, hnames⟩]
    rw [if_neg hlater]
    by_cases hkind : isSpecialNodeTransaction tx
    · -- The record of an action carries this height, at which it is not yet active.
      obtain ⟨record, hrecord, rfl⟩ := stageTransaction_special hkind hfirst
      obtain ⟨hdate, hid⟩ := specialNodeRecord_dated hrecord
      rw [show (stage.withRegistry (stage.stagedRegistry.upsert record)).stagedRegistry =
        stage.stagedRegistry.upsert record from rfl, getElem?_activeRewardRecordsById_upsert hdate]
      have hiff : Names (tx :: rest) nodeId ↔ nodeId = record.nodeId := by
        constructor
        · rintro ⟨action, hmem, hspecial, hnames⟩
          rcases List.mem_cons.mp hmem with rfl | hmem
          · exact Option.mem_unique hnames hid
          · exact absurd ⟨action, hmem, hspecial, hnames⟩ hlater
        · rintro rfl
          exact ⟨tx, List.mem_cons_self, hkind, hid⟩
      simp only [hiff]
    · -- Other transactions leave the registry alone.
      have hiff : ¬ Names (tx :: rest) nodeId := by
        rintro ⟨action, hmem, hspecial, hnames⟩
        rcases List.mem_cons.mp hmem with rfl | hmem
        · exact hkind hspecial
        · exact hlater ⟨action, hmem, hspecial, hnames⟩
      rw [if_neg hiff, stageTransaction_registry_eq (by simpa using hkind) hfirst]

/-- **Leaving the actions out.** Transactions of a block whose actions name no active reward node
pass without the actions too, on the registry that the block starts from. -/
theorem foldlM_withoutActions {txs : List Transaction}
    (h : txs.foldlM (stageTransaction ctx) stage = .ok stage')
    (hactive : activeRewardRecordsById view ctx.height ctx.params =
      activeRewardRecordsById stage.stagedRegistry ctx.height ctx.params)
    (hnames : ∀ nodeId, Names txs nodeId →
      nodeId ∉ activeRewardRecordsById view ctx.height ctx.params) :
    (withoutActions txs).foldlM (stageTransaction ctx) (stage.withRegistry view) =
      .ok (stage'.withRegistry view) := by
  induction txs generalizing stage with
  | nil =>
    obtain rfl : stage = stage' := by simpa [pure_eq_ok] using h
    rfl
  | cons tx rest ih =>
    obtain ⟨middle, hfirst, hrest⟩ := foldlM_cons_eq_ok.mp h
    have hlater : ∀ nodeId, Names rest nodeId →
        nodeId ∉ activeRewardRecordsById view ctx.height ctx.params := by
      rintro nodeId ⟨action, hmem, hnamed⟩
      exact hnames nodeId ⟨action, List.mem_cons_of_mem _ hmem, hnamed⟩
    by_cases hkind : isSpecialNodeTransaction tx
    · -- The action writes the record of an inactive node, and nothing else.
      obtain ⟨record, hrecord, rfl⟩ := stageTransaction_special hkind hfirst
      obtain ⟨hdate, hid⟩ := specialNodeRecord_dated hrecord
      have hinactive := hnames record.nodeId ⟨tx, List.mem_cons_self, hkind, hid⟩
      have hnext : activeRewardRecordsById view ctx.height ctx.params =
          activeRewardRecordsById (stage.stagedRegistry.upsert record) ctx.height
            ctx.params := by
        refine Std.ExtTreeMap.ext_getElem? fun nodeId => ?_
        rw [getElem?_activeRewardRecordsById_upsert hdate, ← hactive]
        split_ifs with hsame
        · rw [hsame]
          exact Std.ExtTreeMap.getElem?_eq_none hinactive
        · rfl
      rw [withoutActions, List.filter_cons_of_neg (by simp [hkind])]
      have hrun := @ih (stage.withRegistry (stage.stagedRegistry.upsert record)) hrest hnext hlater
      exact hrun
    · rw [Bool.not_eq_true] at hkind
      rw [withoutActions, List.filter_cons_of_pos (by simp [hkind])]
      refine foldlM_cons_eq_ok.mpr ⟨middle.withRegistry view, ?_, ih hrest ?_ hlater⟩
      · rw [stageTransaction_withRegistry hkind hactive, hfirst]
        rfl
      · rw [stageTransaction_registry_eq hkind hfirst]
        exact hactive

/-- The verdict of the block loop on a transaction that stands behind others. -/
def verdictAfter (ctx : ValidationContext) (before : List Transaction)
    (tx : Transaction) : Except PyError Unit := do
  let stage ← before.foldlM (stageTransaction ctx) (initialStage ctx)
  let _ ← stageTransaction ctx stage tx

/-- **Actions act from the next block.** Behind the transactions before it in its block, a bundle or
settlement meets the active reward nodes of the registry that the block starts from, and the
verdict that it would get without the actions, exactly when no action before it names an active
reward node. -/
theorem actions_deferred_iff {ctx : ValidationContext} {before : List Transaction}
    {tx : Transaction} {stage : Stage} (kind : isRewardAttestationBundleTransaction tx ∨
      isRewardSettleEpochTransaction tx)
    (reached : before.foldlM (stageTransaction ctx) (initialStage ctx) = .ok stage) :
    (activeRewardRecordsById stage.stagedRegistry ctx.height ctx.params =
        activeRewardRecordsById ctx.nodeRegistryView ctx.height ctx.params ∧
      verdictAfter ctx before tx =
        verdictAfter ctx (withoutActions before) tx) ↔
    ∀ nodeId, Names before nodeId →
      nodeId ∉ activeRewardRecordsById ctx.nodeRegistryView ctx.height ctx.params := by
  have hplain : isSpecialNodeTransaction tx = false :=
    kind.elim not_special_of_bundle not_special_of_settle
  constructor
  · -- A node that an action names is not active behind it.
    rintro ⟨hactive, -⟩ nodeId hnamed hmem
    have hstaged := activeRewardRecordsById_staged reached nodeId
    rw [if_pos hnamed, hactive] at hstaged
    rw [Std.ExtTreeMap.mem_iff_isSome_getElem?, hstaged] at hmem
    cases hmem
  · intro hnames
    have hactive : activeRewardRecordsById ctx.nodeRegistryView ctx.height ctx.params =
        activeRewardRecordsById stage.stagedRegistry ctx.height ctx.params := by
      refine Std.ExtTreeMap.ext_getElem? fun nodeId => ?_
      rw [activeRewardRecordsById_staged reached nodeId]
      split_ifs with hnamed
      · exact Std.ExtTreeMap.getElem?_eq_none (hnames nodeId hnamed)
      · rfl
    refine ⟨hactive.symm, ?_⟩
    have hwithout : (withoutActions before).foldlM (stageTransaction ctx)
        (initialStage ctx) = .ok (stage.withRegistry ctx.nodeRegistryView) :=
      foldlM_withoutActions reached rfl hnames
    rw [verdictAfter, verdictAfter, reached, hwithout, ok_bind, ok_bind,
      stageTransaction_withRegistry hplain hactive, bind_map]

end

end

namespace SampleActivity

local instance platform : Platform := samplePlatform [(str "[]", .arr [])]

/-- The context of the block that follows the registration of a reward node. -/
def ctx : ValidationContext :=
  (ReplayState.empty.next sampleRewardGenesis 0).context sampleParams (str "mainnet") 1
    sampleRewardGenesis.sampleHash ((∅ : Std.ExtTreeMap Int Bytes).insert 0 (List.replicate 32 0))

def bundle : Transaction := sampleBundle (str "a") 0

def renewal : Transaction := sampleRewardRenewal (str "a") 0 2000

/-- The registration of another node. -/
def registration : Transaction := sampleRegistration (str "b")

/-- The two blocks and the verdicts on the bundle, evaluated. -/
theorem verdicts_evaluated :
    (([renewal].foldlM (stageTransaction ctx) (initialStage ctx)).toOption.isSome ∧
      verdictAfter ctx (withoutActions [renewal]) bundle = .ok () ∧
      (verdictAfter ctx [renewal] bundle).isOk = false) ∧
    (([registration].foldlM (stageTransaction ctx) (initialStage ctx)).toOption.isSome ∧
      registration.get? "node_id" = some (str "b") ∧
      str "b" ∉ activeRewardRecordsById ctx.nodeRegistryView ctx.height ctx.params ∧
      isRewardAttestationBundleTransaction bundle = true) := by
  decide +kernel

/-- **A renewal silences its node.** The active node may submit a bundle; behind a renewal of the
node in the same block the bundle is refused. -/
theorem renewal_not_deferred :
    verdictAfter ctx (withoutActions [renewal]) bundle = .ok () ∧
      (∃ stage, [renewal].foldlM (stageTransaction ctx) (initialStage ctx) = .ok stage) ∧
      (verdictAfter ctx [renewal] bundle).isOk = false := by
  obtain ⟨⟨hreached, hwithout, hbehind⟩, -⟩ := verdicts_evaluated
  exact ⟨hwithout, ⟨_, @eq_ok_getD _ _ _ (initialStage ctx) hreached⟩, hbehind⟩

/-- Behind the registration of another node the bundle gets the verdict that it gets without. -/
theorem actions_deferred_registration :
    verdictAfter ctx [registration] bundle =
      verdictAfter ctx (withoutActions [registration]) bundle := by
  obtain ⟨-, hreached, hnamed, hinactive, hbundle⟩ := verdicts_evaluated
  refine ((actions_deferred_iff (.inl hbundle)
    (@eq_ok_getD _ _ _ (initialStage ctx) hreached)).mpr ?_).2
  rintro nodeId ⟨action, hmem, -, hid⟩
  rw [List.mem_singleton] at hmem
  rw [hmem, hnamed] at hid
  obtain rfl := Option.some.inj hid
  exact hinactive

end SampleActivity

end Chipcoin
