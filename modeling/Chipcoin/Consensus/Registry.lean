import Chipcoin.Consensus.Acceptance
import Chipcoin.Lib.Table

/-!
# Registry actions

The registry as a set of records with distinct node ids, and what an accepted register or renew
transaction finds in it and writes to it.

* `NodeRegistryView.mem_upsert`, `NodeRegistryView.SameRecords`: records, whatever their order.
* `RegistryAction`: one accepted action, with the record that it writes, by kind.
* `RegistryRun`: the actions of a block, in their order; `BlockChecks.registryRun` finds it in every
  accepted block.
* `RegistryUnique`: owners and node keys are those of at most one record; every action keeps it.
-/

namespace Chipcoin

open Checked Sorting

variable {ctx : ValidationContext} {params : ConsensusParams} {height : ℕ}
  {view view' : NodeRegistryView} {record other : NodeRecord} {key ownerPubkey : Bytes}
  {nodeId text : PyStr} {stage stage' : Stage} {tx : Transaction} {txs : List Transaction}
  {u : Unit}

/-! ### The registry as a set of records -/

namespace NodeRegistryView

theorem eq_of_nodeId (view : NodeRegistryView) {a b : NodeRecord} (ha : a ∈ view.entries)
    (hb : b ∈ view.entries) (h : a.nodeId = b.nodeId) : a = b :=
  List.inj_on_of_nodup_map view.nodup ha hb h

theorem getByNodeId_eq_some :
    view.getByNodeId nodeId = some record ↔ record ∈ view.entries ∧ record.nodeId = nodeId :=
  Table.find?_key_eq_some view.nodup

theorem getByNodeId_eq_none :
    view.getByNodeId nodeId = none ↔ ∀ record ∈ view.entries, record.nodeId ≠ nodeId := by
  simp [getByNodeId]

private theorem getByOwnerPubkey_eq_none :
    view.getByOwnerPubkey ownerPubkey = none ↔
      ∀ record ∈ view.entries, record.ownerPubkey ≠ ownerPubkey := by
  simp [getByOwnerPubkey]

private theorem mem_upsertEntries {entries : List NodeRecord}
    (hnodup : (entries.map NodeRecord.nodeId).Nodup) :
    other ∈ upsertEntries record entries ↔
      other = record ∨ other ∈ entries ∧ other.nodeId ≠ record.nodeId := by
  induction entries with
  | nil => simp [upsertEntries]
  | cons entry rest ih =>
    rw [List.map_cons, List.nodup_cons] at hnodup
    by_cases h : entry.nodeId = record.nodeId
    · -- The entry is replaced; no other entry has its id.
      have hrest : ∀ a ∈ rest, a.nodeId ≠ record.nodeId := by
        intro a ha hid
        exact hnodup.1 (List.mem_map.mpr ⟨a, ha, hid.trans h.symm⟩)
      rw [upsertEntries, if_pos h, List.mem_cons, List.mem_cons]
      constructor
      · rintro (rfl | hmem)
        · exact .inl rfl
        · exact .inr ⟨.inr hmem, hrest other hmem⟩
      · rintro (rfl | ⟨rfl | hmem, hne⟩)
        · exact .inl rfl
        · exact absurd h hne
        · exact .inr hmem
    · rw [upsertEntries, if_neg h, List.mem_cons, List.mem_cons, ih hnodup.2]
      constructor
      · rintro (rfl | rfl | ⟨hmem, hne⟩)
        · exact .inr ⟨.inl rfl, h⟩
        · exact .inl rfl
        · exact .inr ⟨.inr hmem, hne⟩
      · rintro (rfl | ⟨rfl | hmem, hne⟩)
        · exact .inr (.inl rfl)
        · exact .inl rfl
        · exact .inr (.inr ⟨hmem, hne⟩)

/-- **Records after an upsert.** -/
theorem mem_upsert :
    other ∈ (view.upsert record).entries ↔
      other = record ∨ other ∈ view.entries ∧ other.nodeId ≠ record.nodeId :=
  mem_upsertEntries view.nodup

theorem getByNodeId_upsert (view : NodeRegistryView) (record : NodeRecord) (nodeId : PyStr) :
    (view.upsert record).getByNodeId nodeId =
      if nodeId = record.nodeId then some record else view.getByNodeId nodeId := by
  split_ifs with h
  · exact getByNodeId_eq_some.mpr ⟨mem_upsert.mpr (.inl rfl), h.symm⟩
  · refine Option.ext fun other => ?_
    rw [getByNodeId_eq_some, getByNodeId_eq_some, mem_upsert]
    constructor
    · rintro ⟨rfl | ⟨hmem, -⟩, hid⟩
      · exact absurd hid.symm h
      · exact ⟨hmem, hid⟩
    · rintro ⟨hmem, hid⟩
      exact ⟨.inr ⟨hmem, fun heq => h (hid.symm.trans heq)⟩, hid⟩

/-- Two registries with the same records. -/
def SameRecords (view other : NodeRegistryView) : Prop :=
  ∀ record, record ∈ view.entries ↔ record ∈ other.entries

namespace SameRecords

variable {view other : NodeRegistryView}

theorem refl (view : NodeRegistryView) : SameRecords view view := fun _ => Iff.rfl

theorem symm (h : SameRecords view other) : SameRecords other view := fun record => (h record).symm

theorem getByNodeId (h : SameRecords view other) : view.getByNodeId = other.getByNodeId := by
  funext nodeId
  refine Option.ext fun record => ?_
  rw [getByNodeId_eq_some, getByNodeId_eq_some, h record]

theorem upsert (h : SameRecords view other) (record : NodeRecord) :
    SameRecords (view.upsert record) (other.upsert record) := by
  intro found
  rw [mem_upsert, mem_upsert, h found]

end SameRecords

end NodeRegistryView

/-! ### Actions -/

theorem Transaction.get_eq_ok {key : String} :
    tx.get key = .ok text ↔ tx.get? key = some text := orRaise_eq_ok

theorem Transaction.get_of_getD_ne_nil {key : String} (h : tx.getD key ≠ []) :
    tx.get key = .ok (tx.getD key) := by
  rw [Transaction.getD] at h ⊢
  cases hget : tx.get? key with
  | none => simp [hget] at h
  | some text => exact Transaction.get_eq_ok.mpr hget

section

variable [Platform]

/-- `is_renew_node_transaction`. -/
def isRenewNodeTransaction (transaction : Transaction) : Bool :=
  isLegacyRenewNodeTransaction transaction || isRenewRewardNodeTransaction transaction

/-- The text in which a renewal names the epoch of a height. -/
def renewalEpoch (height : ℕ) (params : ConsensusParams) : PyStr :=
  strOfInt (currentEpoch height params : ℕ)

/-- One accepted registry action: what it finds in the registry, and the record that it writes. -/
inductive RegistryAction (transaction : Transaction) (params : ConsensusParams) (height : ℕ)
    (view : NodeRegistryView) : NodeRecord → Prop
  | register {nodeId payoutAddress : PyStr} {ownerPubkey : Bytes}
      (kind : isLegacyRegisterNodeTransaction transaction)
      (nodeId_eq : transaction.get? "node_id" = some nodeId)
      (newId : view.getByNodeId nodeId = none)
      (newOwner : view.getByOwnerPubkey ownerPubkey = none) :
      RegistryAction transaction params height view {
        nodeId := nodeId
        payoutAddress := payoutAddress
        ownerPubkey := ownerPubkey
        registeredHeight := height
        lastRenewedHeight := height }
  | registerReward {nodeId payoutAddress declaredHost : PyStr} {ownerPubkey nodePubkey : Bytes}
      {declaredPort : Int} (kind : isRegisterRewardNodeTransaction transaction)
      (nodeId_eq : transaction.get? "node_id" = some nodeId)
      (upgrade : ∀ old, view.getByNodeId nodeId = some old →
        old.rewardRegistration = false ∧ old.ownerPubkey = ownerPubkey)
      (owner : ∀ old, view.getByOwnerPubkey ownerPubkey = some old → old.nodeId = nodeId)
      (nodeKey : ∀ old, findRegistryRecordByNodePubkey view nodePubkey = some old →
        old.nodeId = nodeId) :
      RegistryAction transaction params height view {
        nodeId := nodeId
        payoutAddress := payoutAddress
        ownerPubkey := ownerPubkey
        registeredHeight := ((view.getByNodeId nodeId).map (·.registeredHeight)).getD height
        lastRenewedHeight := height
        nodePubkey := some nodePubkey
        declaredHost := some declaredHost
        declaredPort := some declaredPort
        rewardRegistration := true }
  /-- A legacy renewal rebuilds the record without its reward fields. -/
  | renew {old : NodeRecord} (kind : isLegacyRenewNodeTransaction transaction)
      (nodeId_eq : transaction.get? "node_id" = some old.nodeId) (stored : old ∈ view.entries)
      (epoch : transaction.get? "renewal_epoch" = some (renewalEpoch height params)) :
      RegistryAction transaction params height view {
        nodeId := old.nodeId
        payoutAddress := old.payoutAddress
        ownerPubkey := old.ownerPubkey
        registeredHeight := old.registeredHeight
        lastRenewedHeight := height }
  | renewReward {old : NodeRecord} {declaredHost : PyStr} {declaredPort : Int}
      (kind : isRenewRewardNodeTransaction transaction)
      (nodeId_eq : transaction.get? "node_id" = some old.nodeId) (stored : old ∈ view.entries)
      (epoch : transaction.get? "renewal_epoch" = some (renewalEpoch height params)) :
      RegistryAction transaction params height view { old with
        lastRenewedHeight := height
        declaredHost := some declaredHost
        declaredPort := some declaredPort }

theorem fromHex_of_parsePublicKeyHex (h : parsePublicKeyHex text = .ok key) :
    fromHex text = .ok key := by
  simp only [parsePublicKeyHex, bind_eq_ok, rethrow_eq_ok, pure_eq_ok] at h
  obtain ⟨parsed, hparsed, -, -, rfl⟩ := h
  exact hparsed

omit [Platform] in
/-- The checks on a renewal, with the record that it finds. -/
theorem validateRenewal_ok {kind : String} (h : validateRenewal tx ctx ownerPubkey kind = .ok u) :
    ∃ old ∈ ctx.nodeRegistryView.entries, tx.get? "node_id" = some old.nodeId ∧
      old.ownerPubkey = ownerPubkey ∧
      tx.get? "renewal_epoch" = some (renewalEpoch ctx.height ctx.params) := by
  simp only [validateRenewal, bind_eq_ok, raiseIf_eq_ok, orRaise_eq_ok, Unique.exists_iff, not_not,
    Transaction.get_eq_ok] at h
  obtain ⟨nodeId, hid, old, hfound, howner, hepoch⟩ := h
  obtain ⟨hmem, rfl⟩ := NodeRegistryView.getByNodeId_eq_some.mp hfound
  exact ⟨old, hmem, hid, howner, hepoch⟩

/-- **Inversion of a registry action**, for each of the four kinds. -/
theorem registryAction_of_checks (hchecks : validateSpecialNodeTransactionStateful tx ctx = .ok u)
    (hrecord : specialNodeRecord tx ctx.height ctx.nodeRegistryView.getByNodeId =
      .ok record) :
    RegistryAction tx ctx.params ctx.height ctx.nodeRegistryView record := by
  simp only [validateSpecialNodeTransactionStateful, bind_eq_ok, raiseIf_eq_ok,
    Unique.exists_iff] at hchecks
  obtain ⟨ownerHex, hownerHex, ownerPubkey, howner, valid, -, -, hchecks⟩ := hchecks
  -- The owner key that the checks look up is the one that the record holds.
  have hownerKey : ∀ {text : PyStr} {key : Bytes}, tx.get "owner_pubkey_hex" = .ok text →
      parsePublicKeyHex text = .ok key → key = ownerPubkey := by
    intro text key htext hkey
    obtain rfl := ok_unique hownerHex htext
    exact ok_unique (fromHex_of_parsePublicKeyHex hkey) howner
  rw [specialNodeRecord] at hrecord
  split_ifs at hchecks hrecord with hregister hregisterReward hrenew hrenewReward
  · simp only [bind_eq_ok, pure_eq_ok] at hrecord
    obtain ⟨text, htext, key, hkey, nodeId, hid, payout, -, rfl⟩ := hrecord
    obtain rfl := hownerKey htext hkey
    simp only [validateRegisterNodeStateful, bind_eq_ok, raiseIf_eq_ok, Unique.exists_iff,
      not_not] at hchecks
    obtain ⟨nodeId', hid', hnewId, hnewOwner⟩ := hchecks
    obtain rfl := ok_unique hid hid'
    exact .register hregister (Transaction.get_eq_ok.mp hid) hnewId hnewOwner
  · simp only [bind_eq_ok, pure_eq_ok] at hrecord
    obtain ⟨text, htext, key, hkey, nodeId, hid, nodeId₂, hid₂, payout, -, keyText, hkeyText,
      nodePubkey, hnodePubkey, host, -, portText, -, port, -, rfl⟩ := hrecord
    obtain rfl := hownerKey htext hkey
    obtain rfl := ok_unique hid hid₂
    simp only [validateRegisterRewardNodeStateful, bind_eq_ok, raiseIf_eq_ok,
      Unique.exists_iff] at hchecks
    obtain ⟨nodeId', hid', hupgrade, howner', keyText', hkeyText', nodePubkey', hnodePubkey',
      hnodeKey, -⟩ := hchecks
    obtain rfl := ok_unique hid hid'
    obtain rfl := ok_unique hkeyText hkeyText'
    obtain rfl := ok_unique (fromHex_of_parsePublicKeyHex hnodePubkey) hnodePubkey'
    refine .registerReward hregisterReward (Transaction.get_eq_ok.mp hid) ?_ ?_ ?_
    · intro old hold
      simpa [hold] using hupgrade
    · intro old hold
      simpa [hold] using howner'
    · intro old hold
      simpa [hold] using hnodeKey
  · obtain ⟨old, hmem, hid, -, hepoch⟩ := validateRenewal_ok hchecks
    simp only [bind_eq_ok, orRaise_eq_ok, pure_eq_ok, Transaction.get_eq_ok] at hrecord
    obtain ⟨nodeId, hid', found, hfound, rfl⟩ := hrecord
    obtain rfl := Option.mem_unique hid hid'
    obtain rfl : old = found := Option.some.inj
      ((NodeRegistryView.getByNodeId_eq_some.mpr ⟨hmem, rfl⟩).symm.trans hfound)
    exact .renew hrenew hid hmem hepoch
  · obtain ⟨⟨⟩, hrenewal, -⟩ := bind_eq_ok.mp hchecks
    obtain ⟨old, hmem, hid, -, hepoch⟩ := validateRenewal_ok hrenewal
    simp only [bind_eq_ok, orRaise_eq_ok, pure_eq_ok, Transaction.get_eq_ok] at hrecord
    obtain ⟨nodeId, hid', found, hfound, host, -, portText, -, port, -, rfl⟩ := hrecord
    obtain rfl := Option.mem_unique hid hid'
    obtain rfl : old = found := Option.some.inj
      ((NodeRegistryView.getByNodeId_eq_some.mpr ⟨hmem, rfl⟩).symm.trans hfound)
    exact .renewReward hrenewReward hid hmem hepoch

/-! ### The actions of a block -/

/-- The registry actions among some transactions, in their order, from one registry to another. -/
inductive RegistryRun (params : ConsensusParams) (height : ℕ) :
    NodeRegistryView → List Transaction → NodeRegistryView → Prop
  | done {view : NodeRegistryView} : RegistryRun params height view [] view
  | other {view view' : NodeRegistryView} {transaction : Transaction} {rest : List Transaction}
      (kind : isSpecialNodeTransaction transaction = false)
      (tail : RegistryRun params height view rest view') :
      RegistryRun params height view (transaction :: rest) view'
  | action {view view' : NodeRegistryView} {transaction : Transaction} {record : NodeRecord}
      {rest : List Transaction} (kind : isSpecialNodeTransaction transaction)
      (action : RegistryAction transaction params height view record)
      (record_eq : specialNodeRecord transaction height view.getByNodeId = .ok record)
      (tail : RegistryRun params height (view.upsert record) rest view') :
      RegistryRun params height view (transaction :: rest) view'

theorem applySpecialNodeTransaction_eq_ok
    (h : applySpecialNodeTransaction tx height view = .ok view') :
    ∃ record, specialNodeRecord tx height view.getByNodeId = .ok record ∧
      view' = view.upsert record := by
  simp only [applySpecialNodeTransaction, bind_eq_ok, pure_eq_ok] at h
  obtain ⟨record, hrecord, rfl⟩ := h
  exact ⟨record, hrecord, rfl⟩

/-- A round of the block loop that is not a registry action leaves the registry. -/
theorem StageStep.registry_eq (step : StageStep ctx stage tx stage')
    (hkind : isSpecialNodeTransaction tx = false) :
    stage'.stagedRegistry = stage.stagedRegistry := by
  cases step with
  | special kind _ _ => rw [kind] at hkind; cases hkind
  | bundle kind parse limits spends checks =>
    obtain ⟨seen, windows, rfl⟩ := foldlM_stageAttestation_frame limits
    rfl
  | settlement => rfl
  | standard => rfl

/-- A round over a registry action writes the record of the action. -/
theorem StageStep.of_special (step : StageStep ctx stage tx stage')
    (hkind : isSpecialNodeTransaction tx) :
    ∃ record, RegistryAction tx ctx.params ctx.height stage.stagedRegistry record ∧
      specialNodeRecord tx ctx.height stage.stagedRegistry.getByNodeId =
        .ok record ∧
      stage' = { stage with stagedRegistry := stage.stagedRegistry.upsert record } := by
  cases step with
  | special kind checks apply =>
    obtain ⟨record, hrecord, rfl⟩ := applySpecialNodeTransaction_eq_ok apply
    exact ⟨record, registryAction_of_checks checks hrecord, hrecord, rfl⟩
  | bundle kind => rw [not_special_of_bundle kind] at hkind; cases hkind
  | settlement kind => rw [not_special_of_settle kind] at hkind; cases hkind
  | standard notSpecial => rw [notSpecial] at hkind; cases hkind

theorem StageSteps.registryRun (steps : StageSteps ctx stage txs stage') :
    RegistryRun ctx.params ctx.height stage.stagedRegistry txs
      stage'.stagedRegistry := by
  induction steps with
  | done => exact .done
  | @round _ _ _ tx _ _ _ step _ ih =>
    by_cases hkind : isSpecialNodeTransaction tx
    · obtain ⟨record, action, hrecord, rfl⟩ := step.of_special hkind
      exact .action hkind action hrecord ih
    · rw [Bool.not_eq_true] at hkind
      rw [step.registry_eq hkind] at ih
      exact .other hkind ih

/-- **The registry actions of an accepted block.** -/
theorem BlockChecks.registryRun {block : Block} {coinbase : Transaction} {rest : List Transaction}
    (checks : BlockChecks block ctx coinbase rest stage) :
    RegistryRun ctx.params ctx.height ctx.nodeRegistryView rest
      stage.stagedRegistry :=
  checks.steps.registryRun

/-! ### Uniqueness -/

/-- Owner keys and node keys are those of at most one record. Node ids are, by the type. -/
structure RegistryUnique (view : NodeRegistryView) : Prop where
  owner : ∀ a ∈ view.entries, ∀ b ∈ view.entries, a.ownerPubkey = b.ownerPubkey → a = b
  nodeKey : ∀ a ∈ view.entries, ∀ b ∈ view.entries, a.nodePubkey ≠ none →
    a.nodePubkey = b.nodePubkey → a = b

section

omit [Platform]

theorem RegistryUnique.empty : RegistryUnique .empty := by
  constructor <;> simp [NodeRegistryView.empty]

theorem RegistryUnique.congr {other : NodeRegistryView} (h : view.SameRecords other)
    (unique : RegistryUnique view) : RegistryUnique other where
  owner := fun a ha b hb => unique.owner a ((h a).mpr ha) b ((h b).mpr hb)
  nodeKey := fun a ha b hb => unique.nodeKey a ((h a).mpr ha) b ((h b).mpr hb)

/-- In a unique registry the record with a node key is the one that the lookup finds. -/
theorem RegistryUnique.findRegistryRecordByNodePubkey (unique : RegistryUnique view) :
    Chipcoin.findRegistryRecordByNodePubkey view key =
      some record ↔ record ∈ view.entries ∧ record.nodePubkey = some key := by
  rw [Chipcoin.findRegistryRecordByNodePubkey, Table.find?_iff_of_unique,
    NodeRegistryView.listRecords, mem_sortBy]
  intro a ha b hb hkey hkey'
  exact unique.nodeKey a (mem_sortBy.mp ha) b (mem_sortBy.mp hb) (by simp [hkey])
    (hkey.trans hkey'.symm)

theorem RegistryUnique.getByOwnerPubkey (unique : RegistryUnique view) :
    view.getByOwnerPubkey ownerPubkey = some record ↔
      record ∈ view.entries ∧ record.ownerPubkey = ownerPubkey :=
  Table.find?_iff_of_unique fun a ha b hb h h' => unique.owner a ha b hb (h.trans h'.symm)

/-- **The written record shares its keys with no other node.** -/
theorem RegistryAction.apart (action : RegistryAction tx params height view record)
    (unique : RegistryUnique view) (hmem : other ∈ view.entries)
    (hid : other.nodeId ≠ record.nodeId) :
    other.ownerPubkey ≠ record.ownerPubkey ∧
      (record.nodePubkey ≠ none → other.nodePubkey ≠ record.nodePubkey) := by
  cases action with
  -- A registration finds no record of the owner, a renewal keeps the keys of its own record.
  | register _ _ _ newOwner =>
    refine ⟨NodeRegistryView.getByOwnerPubkey_eq_none.mp newOwner other hmem, ?_⟩
    intro hkey
    exact absurd rfl hkey
  | registerReward _ _ _ owner nodeKey =>
    constructor
    · intro heq
      exact hid (owner other (unique.getByOwnerPubkey.mpr ⟨hmem, heq⟩))
    · intro _ heq
      exact hid (nodeKey other (unique.findRegistryRecordByNodePubkey.mpr ⟨hmem, heq⟩))
  | @renew old _ _ stored _ =>
    constructor
    · intro heq
      obtain rfl := unique.owner other hmem old stored heq
      exact hid rfl
    · intro hkey
      exact absurd rfl hkey
  | @renewReward old _ _ _ _ stored _ =>
    constructor
    · intro heq
      obtain rfl := unique.owner other hmem old stored heq
      exact hid rfl
    · intro hkey heq
      obtain rfl := unique.nodeKey other hmem old stored (heq ▸ hkey) heq
      exact hid rfl

/-- **One action keeps the registry unique.** -/
theorem RegistryAction.unique (action : RegistryAction tx params height view record)
    (unique : RegistryUnique view) : RegistryUnique (view.upsert record) := by
  constructor
  · intro a ha b hb heq
    rcases NodeRegistryView.mem_upsert.mp ha with rfl | ⟨haOld, haId⟩
    · rcases NodeRegistryView.mem_upsert.mp hb with rfl | ⟨hbOld, hbId⟩
      · rfl
      · exact absurd heq.symm (action.apart unique hbOld hbId).1
    · rcases NodeRegistryView.mem_upsert.mp hb with rfl | ⟨hbOld, hbId⟩
      · exact absurd heq (action.apart unique haOld haId).1
      · exact unique.owner a haOld b hbOld heq
  · intro a ha b hb hkey heq
    rcases NodeRegistryView.mem_upsert.mp ha with rfl | ⟨haOld, haId⟩
    · rcases NodeRegistryView.mem_upsert.mp hb with rfl | ⟨hbOld, hbId⟩
      · rfl
      · exact absurd heq.symm ((action.apart unique hbOld hbId).2 hkey)
    · rcases NodeRegistryView.mem_upsert.mp hb with rfl | ⟨hbOld, hbId⟩
      · exact absurd heq ((action.apart unique haOld haId).2 (heq ▸ hkey))
      · exact unique.nodeKey a haOld b hbOld hkey heq

end

/-- **The actions of a block keep the registry unique.** -/
theorem RegistryRun.unique (run : RegistryRun params height view txs view')
    (unique : RegistryUnique view) : RegistryUnique view' := by
  induction run with
  | done => exact unique
  | other _ _ ih => exact ih unique
  | action _ action _ _ ih => exact ih (action.unique unique)

end

end Chipcoin
