import Chipcoin.Node.Chain
import Chipcoin.Storage.Store

/-!
# Renewals

Two properties of the transactions that renew a node, and how far the code has them.

A renewal should touch the date of its node only. `renew_reward_node` keeps the rest of the record,
while `renew_node` builds a fresh legacy record: the reward fields of a reward node are gone.

A signed action should take effect once. No rule of block validation looks for an earlier copy, so a
renewal can be confirmed again while its epoch lasts, and a reward registration can be confirmed
again once a legacy renewal has undone it.

* `renewal_frame_iff`: the renewals that keep the record of their node.
* `ActsOnce`: the invariant behind uniqueness, with one step lemma for the four kinds of action.
* `registryActions_once`: chains whose renewals are all due confirm no action twice.
-/

namespace Chipcoin

open Checked List

variable {tx : Transaction} {params : ConsensusParams} {view : NodeRegistryView}
  {height : ℕ}

section

variable {ctx : ValidationContext} {done : List Transaction}

/-! ### Kinds of renewal -/

private theorem kinds_of_legacyRenew (h : isLegacyRenewNodeTransaction tx) :
    isLegacyRegisterNodeTransaction tx = false ∧
      isRegisterRewardNodeTransaction tx = false ∧
      isRenewRewardNodeTransaction tx = false :=
  ⟨Transaction.hasKind_eq_false h (by decide), Transaction.hasKind_eq_false h (by decide),
    Transaction.hasKind_eq_false h (by decide)⟩

private theorem kinds_of_renewReward (h : isRenewRewardNodeTransaction tx) :
    isLegacyRegisterNodeTransaction tx = false ∧
      isRegisterRewardNodeTransaction tx = false ∧
      isLegacyRenewNodeTransaction tx = false :=
  ⟨Transaction.hasKind_eq_false h (by decide), Transaction.hasKind_eq_false h (by decide),
    Transaction.hasKind_eq_false h (by decide)⟩

private theorem currentEpoch_mono (params : ConsensusParams) {height' : ℕ} (h : height ≤ height') :
    currentEpoch height params ≤ currentEpoch height' params :=
  Nat.div_le_div_right h

variable [Platform]

/-! ### The frame of a renewal -/

/-- The record of a node after a renewal is the one before, up to the fields that the kind of the
renewal is about. -/
structure KeepsRecord (tx : Transaction) (old new : NodeRecord) : Prop where
  nodeId : new.nodeId = old.nodeId
  payoutAddress : new.payoutAddress = old.payoutAddress
  ownerPubkey : new.ownerPubkey = old.ownerPubkey
  registeredHeight : new.registeredHeight = old.registeredHeight
  nodePubkey : new.nodePubkey = old.nodePubkey
  rewardRegistration : new.rewardRegistration = old.rewardRegistration
  /-- Only a reward renewal declares an endpoint. -/
  endpoint : isLegacyRenewNodeTransaction tx →
    new.declaredHost = old.declaredHost ∧ new.declaredPort = old.declaredPort

/-- The frame of a renewal: one record changes, and it keeps what the renewal is not about. -/
def RenewalFrame (tx : Transaction) (view view' : NodeRegistryView) (old : NodeRecord) :
    Prop :=
  (∀ nodeId : PyStr, nodeId ≠ old.nodeId → view'.getByNodeId nodeId = view.getByNodeId nodeId) ∧
    ∃ new, view'.getByNodeId old.nodeId = some new ∧ KeepsRecord tx old new

/-- A record without the fields that only reward nodes have. -/
structure NodeRecord.Plain (record : NodeRecord) : Prop where
  nodePubkey : record.nodePubkey = none
  declaredHost : record.declaredHost = none
  declaredPort : record.declaredPort = none
  rewardRegistration : record.rewardRegistration = false

/-- The stateless checks of a reward renewal read the endpoint that it declares. -/
private theorem validateTransactionStateless_endpoint (kind : isRenewRewardNodeTransaction tx)
    (h : validateTransactionStateless tx = .ok ()) :
    ∃ host portText port, tx.get "declared_host" = .ok host ∧
      tx.get "declared_port" = .ok portText ∧ intOfStr portText = .ok port := by
  obtain ⟨⟨⟩, -, h⟩ := bind_eq_ok.mp h
  have hspecial : isSpecialNodeTransaction tx := by
    simp [isSpecialNodeTransaction, kind]
  rw [if_pos hspecial] at h
  have hchecks := rethrow_eq_ok.mp h
  obtain ⟨hregister, hregisterReward, hlegacy⟩ := kinds_of_renewReward kind
  simp only [validateSpecialNodeTransactionStateless, hregister, hregisterReward, hlegacy, kind,
    Bool.false_eq_true, if_false, if_true, validateRenewRewardNodeTransaction, bind_eq_ok]
    at hchecks
  obtain ⟨_, -, _, -, _, -, _, hendpoint, -⟩ := hchecks
  obtain ⟨hhost, hport, port, hparse⟩ := validateDeclaredEndpoint_ok hendpoint
  exact ⟨_, _, port, Transaction.get_of_getD_ne_nil hhost, Transaction.get_of_getD_ne_nil hport,
    hparse⟩

/-- An accepted renewal finds the record of its node and writes another. -/
theorem specialNodeRecord_of_renewal (kind : isRenewNodeTransaction tx)
    (stateless : validateTransactionStateless tx = .ok ())
    (checks : validateSpecialNodeTransactionStateful tx ctx = .ok ()) :
    ∃ record, specialNodeRecord tx ctx.height ctx.nodeRegistryView.getByNodeId =
      .ok record := by
  simp only [validateSpecialNodeTransactionStateful, bind_eq_ok, raiseIf_eq_ok,
    Unique.exists_iff] at checks
  obtain ⟨ownerHex, -, ownerPubkey, -, valid, -, -, checks⟩ := checks
  have hfound : ∀ {kind : String} {u : Unit},
      validateRenewal tx ctx ownerPubkey kind = .ok u →
      ∃ old : NodeRecord, tx.get "node_id" = .ok old.nodeId ∧
        ctx.nodeRegistryView.getByNodeId old.nodeId = some old := by
    intro kind u hrenewal
    obtain ⟨old, hmem, hid, -⟩ := validateRenewal_ok hrenewal
    exact ⟨old, Transaction.get_eq_ok.mpr hid, NodeRegistryView.getByNodeId_eq_some.mpr ⟨hmem, rfl⟩⟩
  rw [isRenewNodeTransaction, Bool.or_eq_true] at kind
  rcases kind with hlegacy | hreward
  · -- The legacy kind reads the node id and no endpoint.
    obtain ⟨hregister, hregisterReward, -⟩ := kinds_of_legacyRenew hlegacy
    simp only [hregister, hregisterReward, hlegacy, Bool.false_eq_true, if_false, if_true] at checks
    obtain ⟨old, hid, hold⟩ := hfound checks
    simp only [specialNodeRecord, hregister, hregisterReward, hlegacy, Bool.false_eq_true, if_false,
      if_true, hid, ok_bind, hold, orRaise]
    exact ⟨_, rfl⟩
  · obtain ⟨hregister, hregisterReward, hlegacy⟩ := kinds_of_renewReward hreward
    simp only [hregister, hregisterReward, hlegacy, hreward, Bool.false_eq_true, if_false,
      if_true] at checks
    obtain ⟨⟨⟩, hrenewal, -⟩ := bind_eq_ok.mp checks
    obtain ⟨old, hid, hold⟩ := hfound hrenewal
    -- The other kind parses one, which the checks without state have done.
    obtain ⟨host, portText, port, hhost, hportText, hport⟩ :=
      validateTransactionStateless_endpoint hreward stateless
    simp only [specialNodeRecord, hregister, hregisterReward, hlegacy, hreward, Bool.false_eq_true,
      if_false, if_true, hid, ok_bind, hold, orRaise, hhost, hportText, hport]
    exact ⟨_, rfl⟩

omit [Platform] in
/-- What a renewal writes, by its kind, against the record that it finds. -/
theorem RegistryAction.keepsRecord_iff {new : NodeRecord}
    (action : RegistryAction tx params height view new) (kind : isRenewNodeTransaction tx) :
    ∃ old ∈ view.entries, tx.get? "node_id" = some old.nodeId ∧
      new.nodeId = old.nodeId ∧
      (KeepsRecord tx old new ↔
        isRenewRewardNodeTransaction tx ∨ old.Plain) := by
  have hnot : isLegacyRegisterNodeTransaction tx = false ∧
      isRegisterRewardNodeTransaction tx = false := by
    rw [isRenewNodeTransaction, Bool.or_eq_true] at kind
    rcases kind with hkind | hkind
    · exact ⟨(kinds_of_legacyRenew hkind).1, (kinds_of_legacyRenew hkind).2.1⟩
    · exact ⟨(kinds_of_renewReward hkind).1, (kinds_of_renewReward hkind).2.1⟩
  cases action with
  | register kind _ _ _ => simp [hnot.1] at kind
  | registerReward kind _ _ _ _ => simp [hnot.2] at kind
  -- The legacy renewal builds a record with the fields of reward nodes left empty.
  | @renew old kind nodeId_eq stored _ =>
    refine ⟨old, stored, nodeId_eq, rfl, fun h => .inr ?_, ?_⟩
    · exact ⟨h.nodePubkey.symm, (h.endpoint kind).1.symm, (h.endpoint kind).2.symm,
        h.rewardRegistration.symm⟩
    · rintro (hreward | plain)
      · simp [(kinds_of_legacyRenew kind).2.2] at hreward
      · exact ⟨rfl, rfl, rfl, rfl, plain.nodePubkey.symm, plain.rewardRegistration.symm,
          fun _ => ⟨plain.declaredHost.symm, plain.declaredPort.symm⟩⟩
  | @renewReward old _ _ kind nodeId_eq stored _ =>
    refine ⟨old, stored, nodeId_eq, rfl, fun _ => .inl kind, fun _ => ?_⟩
    refine ⟨rfl, rfl, rfl, rfl, rfl, rfl, fun hlegacy => ?_⟩
    simp [(kinds_of_renewReward kind).2.2] at hlegacy

/-- **The frame of a renewal.** An accepted renewal can be applied, and it keeps to its frame
exactly when it is a reward renewal or the node that it renews is not a reward node. -/
theorem renewal_frame_iff {tx : Transaction} {ctx : ValidationContext} {fee : Int}
    (kind : isRenewNodeTransaction tx) (notCoinbase : isCoinbaseTransaction tx = false)
    (accepted : validateTransaction tx ctx = .ok fee) :
    ∃ old view', ctx.nodeRegistryView.getByNodeId (tx.getD "node_id") = some old ∧
      applySpecialNodeTransaction tx ctx.height ctx.nodeRegistryView = .ok view' ∧
      (RenewalFrame tx ctx.nodeRegistryView view' old ↔
        isRenewRewardNodeTransaction tx ∨ old.Plain) := by
  obtain ⟨⟨⟩, stateless, stateful⟩ := bind_eq_ok.mp accepted
  have hspecial : isSpecialNodeTransaction tx := by
    rw [isRenewNodeTransaction, Bool.or_eq_true] at kind
    rcases kind with hkind | hkind <;> simp [isSpecialNodeTransaction, hkind]
  have hchecks := (validateTransactionStateful_ok notCoinbase stateful).2
  rw [if_pos hspecial] at hchecks
  obtain ⟨new, hnew⟩ := specialNodeRecord_of_renewal kind stateless hchecks.1
  obtain ⟨old, hmem, hid, hnewId, hkeeps⟩ :=
    (registryAction_of_checks hchecks.1 hnew).keepsRecord_iff kind
  refine ⟨old, ctx.nodeRegistryView.upsert new, ?_, ?_, ?_⟩
  · rw [Transaction.getD, hid]
    exact NodeRegistryView.getByNodeId_eq_some.mpr ⟨hmem, rfl⟩
  · rw [applySpecialNodeTransaction, hnew]
    rfl
  · -- The upsert writes the record of the node and no other.
    have hwritten : (ctx.nodeRegistryView.upsert new).getByNodeId old.nodeId = some new := by
      rw [NodeRegistryView.getByNodeId_upsert, if_pos hnewId.symm]
    rw [← hkeeps]
    constructor
    · rintro ⟨-, found, hfound, hkept⟩
      obtain rfl := Option.mem_unique hwritten hfound
      exact hkept
    · intro hkept
      refine ⟨fun nodeId hne => ?_, new, hwritten, hkept⟩
      rw [NodeRegistryView.getByNodeId_upsert, if_neg (hnewId ▸ hne)]

/-! ### Actions take effect once -/

omit [Platform] in
/-- A renewal is due when its node was neither registered nor renewed in the epoch of the block. A
legacy renewal is never due for a reward node. -/
def renewalDue (tx : Transaction) (params : ConsensusParams) (height : ℕ)
    (record : NodeRecord) : Bool :=
  currentEpoch record.lastRenewedHeight params ≠ currentEpoch height params &&
    !(isLegacyRenewNodeTransaction tx && record.rewardRegistration)

/-- Every renewal among some transactions is due for the record that its node has when the
transactions before it are applied. -/
def renewalsDue (params : ConsensusParams) (height : ℕ) :
    List Transaction → NodeRegistryView → Bool
  | [], _ => true
  | tx :: rest, view => (!isRenewNodeTransaction tx ||
      (view.getByNodeId (tx.getD "node_id")).all
        (renewalDue tx params height)) &&
    match applyNodeRegistry [tx] height view with
    | .ok view' => renewalsDue params height rest view'
    | .error _ => true

/-- The renewals of a block are due. -/
def RenewalsDue : BlockCondition := fun state ctx block =>
  renewalsDue ctx.params ctx.height block.transactions.tail state.registry

instance (state : ReplayState) (ctx : ValidationContext) (block : Block) :
    Decidable (RenewalsDue state ctx block) :=
  inferInstanceAs (Decidable (renewalsDue _ _ _ _ = true))

/-- What the registry keeps of an action that has been confirmed. -/
def Confirmed (params : ConsensusParams) (view : NodeRegistryView) (tx : Transaction) :
    Prop :=
  ∃ record ∈ view.entries, tx.get? "node_id" = some record.nodeId ∧
    (isRegisterRewardNodeTransaction tx → record.rewardRegistration) ∧
    (isRenewNodeTransaction tx →
      ∃ height, tx.get? "renewal_epoch" = some (renewalEpoch height params) ∧
        currentEpoch height params ≤ currentEpoch record.lastRenewedHeight params)

/-- **The invariant behind uniqueness.** The actions confirmed so far are distinct, each has left
its trace, and no record is dated ahead of the chain. -/
structure ActsOnce (params : ConsensusParams) (height : ℕ) (view : NodeRegistryView)
    (done : List Transaction) : Prop where
  nodup : done.Nodup
  confirmed : ∀ tx ∈ done, Confirmed params view tx
  dated : ∀ record ∈ view.entries, record.lastRenewedHeight ≤ height

omit [Platform] in
private theorem ActsOnce.later {height' : ℕ} (once : ActsOnce params height view done)
    (h : height ≤ height') : ActsOnce params height' view done :=
  ⟨once.nodup, once.confirmed, fun record hmem => (once.dated record hmem).trans h⟩

omit [Platform] in
/-- A trace survives a write that does not take the reward registration away. -/
theorem Confirmed.upsert {record : NodeRecord} (h : Confirmed params view tx)
    (hdate : ∀ old ∈ view.entries, old.nodeId = record.nodeId →
      old.lastRenewedHeight ≤ record.lastRenewedHeight)
    (hreward : ∀ old ∈ view.entries, old.nodeId = record.nodeId → old.rewardRegistration →
      record.rewardRegistration) : Confirmed params (view.upsert record) tx := by
  obtain ⟨old, hmem, hid, hregistered, hrenewed⟩ := h
  by_cases hsame : old.nodeId = record.nodeId
  · refine ⟨record, NodeRegistryView.mem_upsert.mpr (.inl rfl), hsame ▸ hid,
      fun hkind => hreward old hmem hsame (hregistered hkind), fun hkind => ?_⟩
    obtain ⟨height, hepoch, hle⟩ := hrenewed hkind
    exact ⟨height, hepoch, hle.trans (currentEpoch_mono params (hdate old hmem hsame))⟩
  · exact ⟨old, NodeRegistryView.mem_upsert.mpr (.inr ⟨hmem, hsame⟩), hid, hregistered, hrenewed⟩

section

omit [Platform]
variable {record : NodeRecord}

private theorem RegistryAction.date_eq (action : RegistryAction tx params height view record) :
    record.lastRenewedHeight = height := by
  cases action <;> rfl

/-- A renewal is due for the record that it finds. -/
theorem renewalDue_of_stored {old : NodeRecord} (hmem : old ∈ view.entries)
    (hid : tx.get? "node_id" = some old.nodeId) (due : (view.getByNodeId (tx.getD "node_id")).all
      (renewalDue tx params height)) :
    currentEpoch old.lastRenewedHeight params ≠ currentEpoch height params ∧
      (isLegacyRenewNodeTransaction tx → old.rewardRegistration = false) := by
  have hfound : view.getByNodeId (tx.getD "node_id") = some old := by
    rw [Transaction.getD, hid]
    exact NodeRegistryView.getByNodeId_eq_some.mpr ⟨hmem, rfl⟩
  rw [hfound, Option.all_some, renewalDue, Bool.and_eq_true, decide_eq_true_eq] at due
  refine ⟨due.1, fun hlegacy => ?_⟩
  simpa [hlegacy] using due.2

variable (action : RegistryAction tx params height view record)
  (due : isRenewNodeTransaction tx →
    (view.getByNodeId (tx.getD "node_id")).all (renewalDue tx params height))

include action due

/-- An action that is due does not take a reward registration away. -/
theorem RegistryAction.keeps_reward :
    ∀ old ∈ view.entries, old.nodeId = record.nodeId → old.rewardRegistration →
      record.rewardRegistration := by
  intro old hmem hid hreward
  cases action with
  | register _ _ newId _ =>
    exact absurd hid (NodeRegistryView.getByNodeId_eq_none.mp newId old hmem)
  | registerReward => rfl
  | @renew found kind nodeId_eq stored _ =>
    obtain rfl : old = found := view.eq_of_nodeId hmem stored hid
    have hrenew : isRenewNodeTransaction tx := by simp [isRenewNodeTransaction, kind]
    have hplain := (renewalDue_of_stored stored nodeId_eq (due hrenew)).2 kind
    simp [hplain] at hreward
  | @renewReward found _ _ _ _ stored _ =>
    obtain rfl : old = found := view.eq_of_nodeId hmem stored hid
    exact hreward

/-- **No second copy.** An action that is due has not been confirmed before. -/
theorem RegistryAction.not_confirmed
    (dated : ∀ old ∈ view.entries, old.lastRenewedHeight ≤ height) :
    ¬ Confirmed params view tx := by
  rintro ⟨old, hmem, hid, hregistered, hrenewed⟩
  -- A renewal names the epoch of its block, so an earlier copy dates its node in that epoch.
  have hrenewal : ∀ found ∈ view.entries, tx.get? "node_id" = some found.nodeId →
      isRenewNodeTransaction tx →
      tx.get? "renewal_epoch" = some (renewalEpoch height params) → False := by
    intro found hstored hfound hkind hnow
    obtain rfl : old = found :=
      view.eq_of_nodeId hmem hstored (Option.mem_unique hid hfound)
    obtain ⟨earlier, hepoch, hle⟩ := hrenewed hkind
    have hsame : currentEpoch earlier params = currentEpoch height params := by
      have htext := strOfInt_injective (Option.mem_unique hepoch hnow)
      exact_mod_cast htext
    have hlast := currentEpoch_mono params (dated old hmem)
    exact (renewalDue_of_stored hmem hid (due hkind)).1 (by omega)
  cases action with
  | register _ nodeId_eq newId _ =>
    have hsame := Option.mem_unique hid nodeId_eq
    exact NodeRegistryView.getByNodeId_eq_none.mp newId old hmem hsame
  | registerReward kind nodeId_eq upgrade _ _ =>
    have hsame := Option.mem_unique hid nodeId_eq
    have hold := (upgrade old (NodeRegistryView.getByNodeId_eq_some.mpr ⟨hmem, hsame⟩)).1
    simp [hold] at hregistered
    simp [hregistered] at kind
  | renew kind nodeId_eq stored epoch =>
    exact hrenewal _ stored nodeId_eq (by simp [isRenewNodeTransaction, kind]) epoch
  | renewReward kind nodeId_eq stored epoch =>
    exact hrenewal _ stored nodeId_eq (by simp [isRenewNodeTransaction, kind]) epoch

omit due in
/-- An action leaves its trace. -/
theorem RegistryAction.confirmed : Confirmed params (view.upsert record) tx := by
  have hstored : record ∈ (view.upsert record).entries := NodeRegistryView.mem_upsert.mpr (.inl rfl)
  cases action with
  | register kind nodeId_eq _ _ =>
    refine ⟨_, hstored, nodeId_eq, fun hkind => ?_, fun hkind => ?_⟩
    · exact absurd (Transaction.hasKind_unique kind hkind) (by decide)
    · rw [isRenewNodeTransaction, Bool.or_eq_true] at hkind
      rcases hkind with hkind | hkind <;>
        exact absurd (Transaction.hasKind_unique kind hkind) (by decide)
  | registerReward kind nodeId_eq _ _ _ =>
    refine ⟨_, hstored, nodeId_eq, fun _ => rfl, fun hkind => ?_⟩
    rw [isRenewNodeTransaction, Bool.or_eq_true] at hkind
    rcases hkind with hkind | hkind <;>
      exact absurd (Transaction.hasKind_unique kind hkind) (by decide)
  | renew kind nodeId_eq _ epoch =>
    refine ⟨_, hstored, nodeId_eq, fun hkind => ?_, fun _ => ⟨height, epoch, le_refl _⟩⟩
    simp [(kinds_of_legacyRenew kind).2.1] at hkind
  | renewReward kind nodeId_eq _ epoch =>
    refine ⟨_, hstored, nodeId_eq, fun hkind => ?_, fun _ => ⟨height, epoch, le_refl _⟩⟩
    simp [(kinds_of_renewReward kind).2.1] at hkind

/-- **One action.** -/
theorem ActsOnce.extend (once : ActsOnce params height view done) :
    ActsOnce params height (view.upsert record) (done ++ [tx]) := by
  refine ⟨?_, ?_, ?_⟩
  · refine List.nodup_append.mpr ⟨once.nodup, nodup_singleton _, ?_⟩
    intro earlier hearlier other hother heq
    rw [mem_singleton] at hother
    subst hother heq
    exact action.not_confirmed due once.dated (once.confirmed earlier hearlier)
  · intro earlier hearlier
    rcases List.mem_append.mp hearlier with hdone | hnew
    · refine (once.confirmed earlier hdone).upsert (fun old hmem _ => ?_) (action.keeps_reward due)
      rw [action.date_eq]
      exact once.dated old hmem
    · rw [mem_singleton] at hnew
      rw [hnew]
      exact action.confirmed
  · intro stored hstored
    rcases NodeRegistryView.mem_upsert.mp hstored with rfl | ⟨hmem, -⟩
    · exact action.date_eq.le
    · exact once.dated stored hmem

end

/-- **The actions of a block.** -/
theorem RegistryRun.actsOnce {view' : NodeRegistryView} {txs : List Transaction}
    (run : RegistryRun params height view txs view')
    (due : renewalsDue params height txs view) (once : ActsOnce params height view done) :
    ActsOnce params height view' (done ++ txs.filter isSpecialNodeTransaction) := by
  induction run generalizing done with
  | done => simpa using once
  | @other view _ tx rest kind _ ih =>
    have hstep : Chipcoin.applyNodeRegistry [tx] height view = .ok view := by
      simp [Chipcoin.applyNodeRegistry, kind]
    rw [renewalsDue, hstep, Bool.and_eq_true] at due
    rw [filter_cons_of_neg (by simp [kind])]
    exact ih due.2 once
  | @action view _ tx record rest kind action record_eq _ ih =>
    have hstep : Chipcoin.applyNodeRegistry [tx] height view = .ok
      (view.upsert record) := by
      simp [Chipcoin.applyNodeRegistry, kind, applySpecialNodeTransaction, record_eq]
    rw [renewalsDue, hstep, Bool.and_eq_true, Bool.or_eq_true] at due
    have hdue : isRenewNodeTransaction tx →
        (view.getByNodeId (tx.getD "node_id")).all
          (renewalDue tx params height) := by
      intro hkind
      simpa [hkind] using due.1
    have hnext := ih due.2 (once.extend action hdue)
    rwa [append_assoc, singleton_append, ← filter_cons_of_pos kind] at hnext

/-- The special transactions of a chain, in their order. -/
def specialTransactions (blocks : List Block) : List Transaction :=
  blocks.flatMap fun block => block.transactions.filter isSpecialNodeTransaction

/-- The coinbase of an accepted block pays the miner, so it is not a registry action. -/
theorem BlockChecks.coinbase_not_special {block : Block} {coinbase : Transaction}
    {rest : List Transaction} {stage : Stage} (checks : BlockChecks block ctx coinbase rest stage) :
    isSpecialNodeTransaction coinbase = false := by
  by_contra hspecial
  rw [Bool.not_eq_false] at hspecial
  have hstateless := checks.stateless coinbase (by simp [checks.transactions_eq])
  have hempty := (validateTransactionStateless_noCoins hstateless
    (by simp [carriesNoCoins, hspecial])).2
  have hdistribution := checks.distribution
  simp [validateCoinbaseDistribution, bind_eq_ok, raiseIf_eq_ok, hempty] at hdistribution

/-- The run lemma: chains whose renewals are due keep the invariant. -/
theorem AcceptedBlocks.actsOnce {blocks : List Block} {state : ReplayState}
    (chain : AcceptedBlocks params RenewalsDue blocks state) :
    ActsOnce params blocks.length state.registry (specialTransactions blocks) := by
  induction chain with
  | empty =>
    exact ⟨nodup_nil, by simp [specialTransactions],
      by simp [ReplayState.empty, NodeRegistryView.empty]⟩
  | @extend blocks _ _ _ block _ chain observes accepted meets connected ih =>
    have hrun := registryRun_of_connected chain.unique observes accepted connected
    obtain ⟨coinbase, rest, stage, checks, -⟩ := validateBlock_ok accepted
    have hblock : specialTransactions (blocks ++ [block]) =
        specialTransactions blocks ++ block.transactions.tail.filter isSpecialNodeTransaction := by
      simp [specialTransactions, checks.transactions_eq, checks.coinbase_not_special]
    rw [RenewalsDue, observes.params_eq, observes.height_eq] at meets
    rw [hblock, length_append]
    exact (hrun.actsOnce meets ih).later (by simp)

/-- **A signed action takes effect once** in chains whose renewals are due. -/
theorem registryActions_once {params : ConsensusParams} {blocks : List Block}
    {state : ReplayState} (chain : AcceptedBlocks params RenewalsDue blocks state) :
    (specialTransactions blocks).Nodup :=
  chain.actsOnce.nodup

end

namespace SampleRenewal

local instance platform : Platform := samplePlatform []

/-- The first block registers a reward node. -/
def genesis : Block := sampleRewardGenesis

def afterGenesis : ReplayState := .after .empty 0 [genesis]

/-- The context of the second block. -/
def ctx : ValidationContext :=
  afterGenesis.context sampleParams (str "mainnet") 1 genesis.sampleHash ∅

def legacyRenewal : Transaction := sampleRenewal (str "a") 0

def rewardRenewal : Transaction := sampleRewardRenewal (str "a") 0 2000

/-- A block that renews the node, and one that repeats the renewal. -/
def renewed : Block := sampleChainBlock genesis.sampleHash 1 [rewardRenewal]

def repeated : Block := sampleChainBlock renewed.sampleHash 2 [rewardRenewal]

def afterRenewed : ReplayState := .after .empty 0 [genesis, renewed]

def afterRepeated : ReplayState := .after .empty 0 [genesis, renewed, repeated]

/-- Two blocks without transactions end the epoch; the next one renews the node. -/
def quiet : Block := sampleChainBlock genesis.sampleHash 1 []

def closing : Block := sampleChainBlock quiet.sampleHash 2 []

def nextEpoch : Block :=
  sampleChainBlock closing.sampleHash 3 [sampleRewardRenewal (str "a") 1 2000]

/-- The two renewals behind the first block, evaluated. -/
theorem renewals_evaluated :
    replays AnyBlock sampleParams (str "mainnet") ∅ [genesis] ∧
    ((applySpecialNodeTransaction legacyRenewal 1 afterGenesis.registry).toOption.any
        (fun view' => (view'.getByNodeId (str "a")).any fun new => !new.rewardRegistration) ∧
      (afterGenesis.registry.getByNodeId (str "a")).any
        (fun old => old.nodeId = str "a" ∧ old.rewardRegistration) ∧
      validateTransaction legacyRenewal ctx = .ok 0) ∧
    (isRenewNodeTransaction rewardRenewal ∧ isCoinbaseTransaction rewardRenewal = false ∧
      validateTransaction rewardRenewal ctx = .ok 0) := by
  decide +kernel

/-- **A legacy renewal ends a reward registration.** The owner's `renew_node` is accepted for the
reward node, and the record that it leaves has lost the registration and the node key. -/
theorem legacyRenewal_unframed :
    ∃ old view', AcceptedBlocks sampleParams AnyBlock [genesis] afterGenesis ∧
      validateTransaction legacyRenewal ctx = .ok 0 ∧
      ctx.nodeRegistryView = afterGenesis.registry ∧
      afterGenesis.registry.getByNodeId (str "a") = some old ∧
      applySpecialNodeTransaction legacyRenewal 1 afterGenesis.registry = .ok view' ∧
      ¬ RenewalFrame legacyRenewal afterGenesis.registry view' old := by
  obtain ⟨hreplayed, ⟨happly, hold, haccepted⟩, -⟩ := renewals_evaluated
  obtain ⟨old, hold, hreward⟩ := (Option.any_eq_true _ _).mp hold
  obtain ⟨hid, hreward⟩ := of_decide_eq_true hreward
  obtain ⟨view', hview, hnew⟩ := (Option.any_eq_true _ _).mp happly
  obtain ⟨new, hnew, hlost⟩ := (Option.any_eq_true _ _).mp hnew
  refine ⟨old, view', .of_replays hreplayed, haccepted, ?_, hold, eq_ok_of_toOption hview, ?_⟩
  · rw [ctx, ReplayState.context_nodeRegistryView]
  rintro ⟨-, found, hfound, hkept⟩
  rw [hid, hnew] at hfound
  obtain rfl := Option.some.inj hfound
  have hsame := hkept.rewardRegistration
  rw [hreward] at hsame
  simp [hsame] at hlost

/-- A reward renewal of the same node keeps to its frame. -/
theorem renewal_frame_rewardRenewal :
    ∃ old view', ctx.nodeRegistryView.getByNodeId (rewardRenewal.getD "node_id") = some old ∧
      applySpecialNodeTransaction rewardRenewal ctx.height ctx.nodeRegistryView =
        .ok view' ∧
      (RenewalFrame rewardRenewal ctx.nodeRegistryView view' old ↔
        isRenewRewardNodeTransaction rewardRenewal ∨ old.Plain) := by
  obtain ⟨-, -, hkind, hplain, haccepted⟩ := renewals_evaluated
  exact renewal_frame_iff hkind hplain haccepted

/-- **A renewal is confirmed twice.** The second copy moves the date of the node to the closing
block of the epoch, where the node would have been active and is not. -/
theorem renewal_confirmed_twice :
    AcceptedBlocks sampleParams AnyBlock [genesis, renewed, repeated] afterRepeated ∧
      ¬ (specialTransactions [genesis, renewed, repeated]).Nodup ∧
      (afterRenewed.registry.entries.map (rewardNodeIsActive · 2 sampleParams)) = [true] ∧
      (afterRepeated.registry.entries.map (rewardNodeIsActive · 2 sampleParams)) = [false] := by
  have hreplayed :
      replays AnyBlock sampleParams (str "mainnet") ∅ [genesis, renewed, repeated] := by
    decide +kernel
  exact ⟨.of_replays hreplayed, by decide +kernel⟩

/-- In the next epoch the renewal is due. -/
theorem registryActions_once_nextEpoch :
    (specialTransactions [genesis, quiet, closing, nextEpoch]).length = 2 ∧
      (specialTransactions [genesis, quiet, closing, nextEpoch]).Nodup := by
  have hreplayed : replays RenewalsDue sampleParams (str "mainnet") ∅
      [genesis, quiet, closing, nextEpoch] := by
    decide +kernel
  exact ⟨by decide +kernel, registryActions_once (.of_replays hreplayed)⟩

end SampleRenewal

end Chipcoin
