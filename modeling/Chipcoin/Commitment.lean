import Chipcoin.Consensus.Encoding
import Chipcoin.Lib.Merkle
import Chipcoin.Node.Rewards
import Chipcoin.Spending

/-!
# What a header commits to

The header of a block holds the Merkle root of its transactions and nothing else about them. The
tree pairs the last node of an odd level with itself, so the root does not tell a list of
transactions from a list in which a tail of the right length stands twice: it determines the list
that is filled up with the repeated tails (`filled_eq_of_root`). Which of the lists that fill up to
the same are bodies is left to the rules of the block loop.

* `merkleLoop_eq_climb`: the loop of the source is the tree of the library, over concatenation and
  the double hash.
* `Refused`: what a stage refuses, by kind. A round refuses nothing (`StageStep.not_refused`), what
  it has taken is refused from then on unless it is `repeatable` (`StageStep.refused`,
  `Refused.lasts`), so that only such transactions stand twice in a block
  (`StageSteps.repeatable_of_duplicate`).
* `body_determined`: a body is the only one of its header if every other list of its root holds a
  transaction twice that is not repeatable.
-/

namespace Chipcoin

open Checked Encoding List

variable {txs : List Transaction} {txids : List PyStr}

section

variable [Platform]

/-! ### The tree -/

/-- The parent of two nodes. -/
def hashPair (pair : Bytes × Bytes) : Bytes := doubleSha256 (pair.1 ++ pair.2)

private theorem merkleLevel_eq (level : List Bytes) :
    merkleLevel level = (Merkle.pairs level).map hashPair := by
  induction level using merkleLevel.induct with
  | case1 => simp [merkleLevel, Merkle.pairs]
  | case2 a => simp [merkleLevel, Merkle.pairs, hashPair]
  | case3 a b rest ih => rw [merkleLevel, Merkle.pairs, map_cons, ih, hashPair]

theorem merkleLoop_eq_climb (fuel : ℕ) (level : List Bytes) :
    merkleLoop fuel level = Merkle.climb hashPair fuel level := by
  induction fuel generalizing level with
  | zero => rfl
  | succ fuel ih => rw [merkleLoop, Merkle.climb, merkleLevel_eq, ih]

/-- Two nodes are cut out of their concatenation, since hashes have one length. -/
theorem hashPair_injOn {pair pair' : Bytes × Bytes} (hlen : pair.1.length = pair'.1.length)
    (hfree : doubleSha256 (pair.1 ++ pair.2) = doubleSha256 (pair'.1 ++ pair'.2) →
      pair.1 ++ pair.2 = pair'.1 ++ pair'.2)
    (h : hashPair pair = hashPair pair') : pair = pair' := by
  obtain ⟨hfst, hsnd⟩ := append_inj (hfree h) hlen
  exact Prod.ext hfst hsnd

/-! ### The data behind a root -/

/-- What octets stand for when they are hashed: a transaction, or two nodes of the tree. -/
inductive HashedKind
  | transaction
  | nodes
deriving DecidableEq

/-- Everything that is hashed for a root: the transactions, and the pairs of nodes. -/
def hashedData (txs : List Transaction) : List (HashedKind × Bytes) :=
  (txs.map fun tx => (.transaction, tx.octets)) ++
    (Merkle.combined hashPair txs.length (txs.map Transaction.digest)).map
      fun pair => (.nodes, pair.1 ++ pair.2)

/-- Among what is hashed for two roots nothing collides, and no transaction has the octets of two
nodes. -/
def NoCollision (txs txs' : List Transaction) : Prop :=
  ∀ u ∈ hashedData txs, ∀ v ∈ hashedData txs',
    doubleSha256 u.2 = doubleSha256 v.2 → u = v

instance (txs txs' : List Transaction) :
    Decidable (NoCollision txs txs') :=
  inferInstanceAs (Decidable (∀ u ∈ _, ∀ v ∈ _, _))

/-- The identifiers of transactions are the hashes of their octets, in hexadecimal digits. -/
theorem mapM_txid (h : txs.mapM Transaction.txid = .ok txids) :
    txids.mapM fromHex = .ok (txs.map Transaction.digest) ∧
      ∀ tx ∈ txs, serializeTransaction tx = .ok tx.octets := by
  induction txs generalizing txids with
  | nil =>
    obtain rfl : [] = txids := pure_eq_ok.mp h
    exact ⟨rfl, by simp⟩
  | cons tx rest ih =>
    obtain ⟨txid, txids', htxid, hrest, rfl⟩ := mapM_cons_eq_ok.mp h
    obtain ⟨hhashes, hwritten⟩ := ih hrest
    obtain ⟨octets, hoctets, rfl⟩ := Transaction.txid_ok htxid
    obtain rfl := Transaction.octets_eq hoctets
    refine ⟨mapM_cons_eq_ok.mpr ⟨_, _, ?_, hhashes, rfl⟩,
      List.forall_mem_cons.mpr ⟨hoctets, hwritten⟩⟩
    exact orRaise_eq_ok.mpr (fromHex?_hex tx.digest)

/-- **The root of a body**, from the octets of its transactions. -/
theorem merkleRoot_of_txids {root : PyStr} (hne : txs ≠ [])
    (htxids : txs.mapM Transaction.txid = .ok txids) (hroot : merkleRoot txids = .ok root) :
    ∃ node, root = hex node ∧
      Merkle.climb hashPair txs.length (txs.map Transaction.digest) = [node] := by
  obtain ⟨hhashes, -⟩ := mapM_txid htxids
  have hcount : txs.length = txids.length := (mapM_eq_ok.mp htxids).length_eq
  have hpos : 0 < txs.length := List.length_pos_iff.mpr hne
  have hnonempty : txids.isEmpty = false := by
    rw [isEmpty_eq_false_iff, ← length_pos_iff]
    omega
  rw [merkleRoot, hnonempty] at hroot
  simp only [Bool.false_eq_true, if_false, hhashes, ok_bind, pure_eq_ok] at hroot
  rw [merkleLoop_eq_climb, length_map] at hroot
  obtain ⟨node, hnode⟩ : ∃ node,
      Merkle.climb hashPair txs.length (txs.map Transaction.digest) = [node] := by
    refine List.length_eq_one_iff.mp (Merkle.length_climb ?_ ?_)
    · rw [← length_pos_iff, length_map]
      exact hpos
    · rw [length_map]
      omega
  refine ⟨node, ?_, hnode⟩
  rw [← hroot, hnode]
  rfl

section Roots

variable {txs' : List Transaction} (free : NoCollision txs txs')
include free

/-- Combined pairs do not collide: hashes have one length, so that two nodes are cut out of their
concatenation. -/
theorem NoCollision.pairs :
    ∀ p ∈ Merkle.combined hashPair txs.length (txs.map Transaction.digest),
      ∀ q ∈ Merkle.combined hashPair txs'.length (txs'.map Transaction.digest),
        hashPair p = hashPair q → p = q := by
  have hnodes : ∀ body : List Transaction,
      ∀ pair ∈ Merkle.combined hashPair body.length (body.map Transaction.digest),
        pair.1.length = 32 ∧ pair.2.length = 32 := by
    intro body
    refine Merkle.forall_combined (P := (·.length = 32)) ?_ fun pair _ =>
      length_doubleSha256 (pair.1 ++ pair.2)
    simp [Transaction.digest]
  intro p hp q hq hpq
  refine hashPair_injOn ((hnodes _ p hp).1.trans (hnodes _ q hq).1.symm) (fun heq => ?_) hpq
  exact congrArg Prod.snd (free _ (mem_append_right _ (mem_map_of_mem hp)) _
    (mem_append_right _ (mem_map_of_mem hq)) heq)

/-- No leaf is the parent of two nodes. -/
theorem NoCollision.leaf :
    ∀ leaf ∈ txs.map Transaction.digest,
      ∀ q ∈ Merkle.combined hashPair txs'.length (txs'.map Transaction.digest),
        leaf ≠ hashPair q := by
  intro leaf hleaf q hq heq
  obtain ⟨tx, hmem, rfl⟩ := List.mem_map.mp hleaf
  have hsame := free _ (mem_append_left _ (mem_map_of_mem hmem)) _
    (mem_append_right _ (mem_map_of_mem hq)) heq
  cases congrArg Prod.fst hsame

omit free in
private theorem NoCollision.symm (free : NoCollision txs txs') :
    NoCollision txs' txs :=
  fun u hu v hv heq => (free v hv u hu heq.symm).symm

/-- **One root, one filled body.** The leaves fill up to the same, hashes of octets agree only when
the octets do, and octets determine the transaction. -/
theorem filled_eq_of_root {txids' : List PyStr} {root : PyStr} (hne : txs ≠ [])
    (hne' : txs' ≠ []) (htxids : txs.mapM Transaction.txid = .ok txids)
    (htxids' : txs'.mapM Transaction.txid = .ok txids')
    (hroot : merkleRoot txids = .ok root) (hroot' : merkleRoot txids' = .ok root)
    (canonical : ∀ tx ∈ txs, tx.Canonical) (canonical' : ∀ tx ∈ txs', tx.Canonical) :
    Merkle.filled txs.length txs =
      Merkle.filled txs'.length txs' := by
  obtain ⟨node, rfl, hnode⟩ := merkleRoot_of_txids hne htxids hroot
  obtain ⟨node', hsame, hnode'⟩ := merkleRoot_of_txids hne' htxids' hroot'
  obtain rfl := hex_injective hsame
  have hleaves : Merkle.filled txs.length (txs.map Transaction.digest) =
      Merkle.filled txs'.length (txs'.map Transaction.digest) :=
    Merkle.filled_eq_of_climb_eq (by simpa using hne) (by simpa using hne') (by simp) (by simp)
      free.pairs free.leaf free.symm.leaf (hnode.trans hnode'.symm)
  rw [Merkle.filled_map, Merkle.filled_map] at hleaves
  refine Merkle.eq_of_map_eq hleaves fun a ha b hb heq => ?_
  have ha := Merkle.mem_of_mem_filled ha
  have hb := Merkle.mem_of_mem_filled hb
  have hoctets : a.octets = b.octets := congrArg Prod.snd
    (free _ (mem_append_left _ (mem_map_of_mem ha)) _
      (mem_append_left _ (mem_map_of_mem hb)) heq)
  exact delimits_serializeTransaction.injOn (canonical a ha) (canonical' b hb)
    ((mapM_txid htxids).2 a ha) (hoctets ▸ (mapM_txid htxids').2 b hb)

end Roots

/-! ### What a block refuses -/

variable {ctx : ValidationContext} {stage stage' : Stage} {tx : Transaction}

/-- A transaction that the block loop refuses at a stage, by kind. -/
inductive Refused (stage : Stage) (tx : Transaction) : Prop
  /-- A spend of what was spent before. -/
  | spend {outpoint : OutPoint} (spends : outpoint ∈ spentOutpoints tx)
      (seen : outpoint ∈ stage.seenSpends)
  /-- A bundle with an attestation that was staged before. -/
  | bundle {bundle : RewardAttestationBundle} {attestation : RewardAttestation}
      (kind : isRewardAttestationBundleTransaction tx)
      (parse : parseRewardAttestationBundle tx = .ok bundle)
      (mem : attestation ∈ bundle.attestations)
      (staged : attestationIdentity attestation ∈ stage.stagedAttestationIdentities)
  /-- A settlement of a settled epoch. -/
  | settlement {settlement : RewardSettlement} (kind : isRewardSettleEpochTransaction tx)
      (parse : parseRewardSettlement tx = .ok settlement)
      (settled : settlement.epochIndex ∈ stage.stagedSettledEpochIndexes)
  /-- A registration of a node that is registered. -/
  | register {record : NodeRecord} (kind : isLegacyRegisterNodeTransaction tx)
      (nodeId_eq : tx.get? "node_id" = some record.nodeId)
      (stored : record ∈ stage.stagedRegistry.entries)
  /-- A reward registration of a reward node. -/
  | registerReward {record : NodeRecord} (kind : isRegisterRewardNodeTransaction tx)
      (nodeId_eq : tx.get? "node_id" = some record.nodeId)
      (stored : record ∈ stage.stagedRegistry.entries) (reward : record.rewardRegistration)

/-- `other` takes the reward registration that `transaction` makes: a legacy renewal rebuilds the
record of the node. -/
def undoes (other tx : Transaction) : Bool :=
  isRegisterRewardNodeTransaction tx && isLegacyRenewNodeTransaction other &&
    other.get? "node_id" = tx.get? "node_id"

/-- Transactions that a body may hold more than once: renewals, bundles without attestations, and
reward registrations that a legacy renewal of the body undoes. -/
def repeatable (body : List Transaction) (tx : Transaction) : Bool :=
  isRenewNodeTransaction tx ||
    isRewardAttestationBundleTransaction tx &&
      (parseRewardAttestationBundle tx).toOption.any (·.attestations.isEmpty) ||
    body.any (undoes · tx)

section Actions

variable {params : ConsensusParams} {height : ℕ} {view : NodeRegistryView} {record : NodeRecord}
  (action : RegistryAction tx params height view record)
include action

omit [Platform] in
/-- A registration finds no record of its node, and a reward registration no reward record. -/
theorem RegistryAction.not_stored {old : NodeRecord} (stored : old ∈ view.entries)
    (nodeId_eq : tx.get? "node_id" = some old.nodeId) :
    isLegacyRegisterNodeTransaction tx = false ∧
      (isRegisterRewardNodeTransaction tx → old.rewardRegistration = false) := by
  have hfound := NodeRegistryView.getByNodeId_eq_some.mpr ⟨stored, rfl⟩
  cases action with
  | register kind hid newId =>
    obtain rfl := Option.mem_unique hid nodeId_eq
    rw [hfound] at newId
    cases newId
  | registerReward kind hid upgrade =>
    obtain rfl := Option.mem_unique hid nodeId_eq
    exact ⟨Transaction.hasKind_eq_false kind (by decide), fun _ => (upgrade old hfound).1⟩
  | renew kind =>
    exact ⟨Transaction.hasKind_eq_false kind (by decide), fun other =>
      absurd (Transaction.hasKind_unique kind other) (by decide)⟩
  | renewReward kind =>
    exact ⟨Transaction.hasKind_eq_false kind (by decide), fun other =>
      absurd (Transaction.hasKind_unique kind other) (by decide)⟩

omit [Platform] in
/-- A record keeps its node id through an action, and its reward registration unless the action is
a legacy renewal of the node. -/
theorem RegistryAction.kept {old : NodeRecord} (stored : old ∈ view.entries) :
    ∃ new ∈ (view.upsert record).entries, new.nodeId = old.nodeId ∧
      (old.rewardRegistration → new.rewardRegistration ∨
        isLegacyRenewNodeTransaction tx ∧
          tx.get? "node_id" = some old.nodeId) := by
  by_cases hid : old.nodeId = record.nodeId
  · refine ⟨record, NodeRegistryView.mem_upsert.mpr (.inl rfl), hid.symm, fun hreward => ?_⟩
    have hfound := NodeRegistryView.getByNodeId_eq_some.mpr ⟨stored, hid⟩
    cases action with
    | register _ _ newId =>
      rw [hfound] at newId
      cases newId
    | registerReward => exact .inl rfl
    | renew kind nodeId_eq => exact .inr ⟨kind, hid ▸ nodeId_eq⟩
    | renewReward _ _ stored' =>
      obtain rfl := view.eq_of_nodeId stored stored' hid
      exact .inl hreward
  · exact ⟨old, NodeRegistryView.mem_upsert.mpr (.inr ⟨stored, hid⟩), rfl, .inl⟩

end Actions

/-- A round takes nothing that is refused. -/
theorem StageStep.not_refused (step : StageStep ctx stage tx stage')
    (stateless : validateTransactionStateless tx = .ok ()) :
    ¬ Refused stage tx := by
  intro refused
  cases refused with
  | spend spends seen => exact (step.stageRun stateless).fresh _ (by simpa using spends) seen
  | bundle kind parse mem staged =>
    obtain ⟨bundle, other, hparse, hchecks, hother, -⟩ := step.of_bundle kind
    obtain rfl := ok_unique parse hparse
    rw [← hother] at staged
    exact fresh_of_bundleChecks hparse hchecks _ mem staged
  | settlement kind parse settled =>
    obtain ⟨found, seed, hparse, hchecks, -⟩ := step.of_settlement kind
    obtain rfl := ok_unique parse hparse
    exact hchecks.unsettled settled
  | register kind nodeId_eq stored =>
    obtain ⟨record, action, -⟩ := step.of_special (by simp [isSpecialNodeTransaction, kind])
    rw [(action.not_stored stored nodeId_eq).1] at kind
    cases kind
  | registerReward kind nodeId_eq stored reward =>
    obtain ⟨record, action, -⟩ := step.of_special (by simp [isSpecialNodeTransaction, kind])
    rw [(action.not_stored stored nodeId_eq).2 kind] at reward
    cases reward

/-- What a round has taken is refused afterwards, unless it is repeatable. -/
theorem StageStep.refused {body : List Transaction} (step : StageStep ctx stage tx stage')
    (plain : isCoinbaseTransaction tx = false)
    (stateless : validateTransactionStateless tx = .ok ())
    (once : repeatable body tx = false) : Refused stage' tx := by
  simp only [repeatable, isRenewNodeTransaction, Bool.or_eq_false_iff] at once
  obtain ⟨⟨⟨hrenew, hrenewReward⟩, hempty⟩, -⟩ := once
  by_cases hspecial : isSpecialNodeTransaction tx
  · obtain ⟨record, action, -, rfl⟩ := step.of_special hspecial
    have hstored : record ∈ (stage.stagedRegistry.upsert record).entries :=
      NodeRegistryView.mem_upsert.mpr (.inl rfl)
    cases action with
    | register kind nodeId_eq => exact .register kind nodeId_eq hstored
    | registerReward kind nodeId_eq => exact .registerReward kind nodeId_eq hstored rfl
    | renew kind => rw [hrenew] at kind; cases kind
    | renewReward kind => rw [hrenewReward] at kind; cases kind
  by_cases hbundle : isRewardAttestationBundleTransaction tx
  · obtain ⟨bundle, staged, hparse, -, -, hadded⟩ := step.of_bundle hbundle
    -- The bundle is not empty, so one of its attestations is staged now.
    have hne : bundle.attestations ≠ [] := by
      simpa [hbundle, hparse, Except.toOption] using hempty
    obtain ⟨attestation, hmem⟩ := exists_mem_of_ne_nil _ hne
    refine .bundle hbundle hparse hmem (hadded ▸ Finset.mem_union_right _ ?_)
    exact List.mem_toFinset.mpr (mem_map_of_mem hmem)
  by_cases hsettle : isRewardSettleEpochTransaction tx
  · obtain ⟨settlement, seed, hparse, -, hadded⟩ := step.of_settlement hsettle
    exact .settlement hsettle hparse (hadded ▸ Finset.mem_insert_self _ _)
  · -- A payment has an input.
    have hpays : tx.inputs ≠ [] := by
      obtain ⟨⟨⟩, -, hchecks⟩ := bind_eq_ok.mp stateless
      rw [if_neg hspecial, if_neg hbundle, if_neg hsettle] at hchecks
      simp only [validatePaymentStateless, plain, Bool.false_eq_true, if_false, bind_eq_ok,
        raiseIf_eq_ok, exists_and_left, exists_const] at hchecks
      obtain ⟨-, -, -, -, hinputs, -⟩ := hchecks
      exact hinputs
    obtain ⟨txInput, hmem⟩ := exists_mem_of_ne_nil _ hpays
    refine .spend (mem_map_of_mem hmem) ?_
    rw [(step.stageRun stateless).seen]
    refine Finset.mem_union_right _ (List.mem_toFinset.mpr ?_)
    simpa [spentOutpoints] using ⟨txInput, hmem, rfl⟩

private theorem StageStep.staged_subset (step : StageStep ctx stage tx stage') :
    stage.stagedAttestationIdentities ⊆ stage'.stagedAttestationIdentities ∧
      stage.stagedSettledEpochIndexes ⊆ stage'.stagedSettledEpochIndexes := by
  cases step with
  | special => exact ⟨subset_rfl, subset_rfl⟩
  | bundle _ _ limits =>
    obtain ⟨seen, windows, rfl⟩ := foldlM_stageAttestation_frame limits
    exact ⟨Finset.subset_union_left, subset_rfl⟩
  | settlement => exact ⟨subset_rfl, Finset.subset_insert _ _⟩
  | standard => exact ⟨subset_rfl, subset_rfl⟩

private theorem StageStep.kept {old : NodeRecord} (step : StageStep ctx stage tx stage')
    (stored : old ∈ stage.stagedRegistry.entries) :
    ∃ new ∈ stage'.stagedRegistry.entries, new.nodeId = old.nodeId ∧
      (old.rewardRegistration → new.rewardRegistration ∨
        isLegacyRenewNodeTransaction tx ∧
          tx.get? "node_id" = some old.nodeId) := by
  by_cases hspecial : isSpecialNodeTransaction tx
  · obtain ⟨record, action, -, rfl⟩ := step.of_special hspecial
    exact action.kept stored
  · rw [step.registry_eq (by simpa using hspecial)]
    exact ⟨old, stored, rfl, .inl⟩

/-- **Refusals last**, except that a legacy renewal undoes a reward registration. -/
theorem Refused.lasts {other : Transaction} (refused : Refused stage tx)
    (step : StageStep ctx stage other stage')
    (stateless : validateTransactionStateless other = .ok ())
    (notUndone : undoes other tx = false) : Refused stage' tx := by
  cases refused with
  | spend spends seen =>
    refine .spend spends ?_
    rw [(step.stageRun stateless).seen]
    exact Finset.mem_union_left _ seen
  | bundle kind parse mem staged => exact .bundle kind parse mem (step.staged_subset.1 staged)
  | settlement kind parse settled => exact .settlement kind parse (step.staged_subset.2 settled)
  | register kind nodeId_eq stored =>
    obtain ⟨new, hnew, hid, -⟩ := step.kept stored
    exact .register kind (hid ▸ nodeId_eq) hnew
  | registerReward kind nodeId_eq stored reward =>
    obtain ⟨new, hnew, hid, hreward⟩ := step.kept stored
    refine .registerReward kind (hid ▸ nodeId_eq) hnew ((hreward reward).resolve_right ?_)
    rintro ⟨hrenew, hsame⟩
    simp [undoes, kind, hrenew, hsame, nodeId_eq] at notUndone

/-- What is refused at a stage and not undone later is not among the transactions taken later. -/
theorem StageSteps.not_mem_of_refused (steps : StageSteps ctx stage txs stage')
    (refused : Refused stage tx) (notUndone : ∀ other ∈ txs, undoes other tx = false) :
    tx ∉ txs := by
  induction steps with
  | done => simp
  | round plain stateless step later ih =>
    rw [mem_cons, not_or]
    obtain ⟨hfirst, hrest⟩ := List.forall_mem_cons.mp notUndone
    refine ⟨?_, ih (refused.lasts step stateless hfirst) hrest⟩
    rintro rfl
    exact step.not_refused stateless refused

/-- **Only repeatable transactions stand twice** among those that the block loop has taken. By
induction on the rounds: what is taken first is refused in all later rounds. -/
theorem StageSteps.repeatable_of_duplicate (steps : StageSteps ctx stage txs stage')
    {body : List Transaction} (hbody : ∀ other ∈ txs, other ∈ body)
    (twice : List.Duplicate tx txs) : repeatable body tx := by
  by_contra once
  rw [Bool.not_eq_true] at once
  have notUndone : ∀ other ∈ body, undoes other tx = false := by
    intro other hmem
    simp only [repeatable, Bool.or_eq_false_iff, any_eq_false, Bool.not_eq_true] at once
    exact once.2 other hmem
  induction steps with
  | done => cases twice
  | round plain stateless step later ih =>
    obtain ⟨-, hrest⟩ := List.forall_mem_cons.mp hbody
    cases twice with
    | cons_mem hmem =>
      exact later.not_mem_of_refused (step.refused plain stateless once)
        (fun other hother => notUndone other (hrest other hother)) hmem
    | cons_duplicate twice => exact ih hrest twice

/-- A coinbase stands first and nowhere else, so what holds of the loop holds of the block. -/
theorem BlockChecks.repeatable_of_duplicate {block : Block} {coinbase : Transaction}
    {rest : List Transaction} (checks : BlockChecks block ctx coinbase rest stage)
    (twice : List.Duplicate tx block.transactions) :
    repeatable block.transactions tx := by
  rw [checks.transactions_eq] at twice ⊢
  cases twice with
  | cons_mem hmem =>
    have hplain := checks.coinbase_only _ hmem
    rw [checks.coinbase_first] at hplain
    cases hplain
  | cons_duplicate twice =>
    exact checks.steps.repeatable_of_duplicate (fun _ => mem_cons_of_mem coinbase) twice

end

namespace SampleCommitment

local instance platform : Platform := samplePlatform []

def afterGenesis : ReplayState := .after .empty 0 [sampleRewardGenesis]

/-- The context of the block that follows the registration of a reward node. -/
def ctx : ValidationContext :=
  afterGenesis.context sampleParams (str "mainnet") 1 sampleRewardGenesis.sampleHash ∅

def registration : Transaction := sampleRegistration (str "b")

def renewal : Transaction := sampleRewardRenewal (str "a") 0 2000

/-- A block of three transactions, the last of which renews the node. -/
def block : Block := sampleChainBlock sampleRewardGenesis.sampleHash 1 [registration, renewal]

/-- The same header over a body in which the renewal stands twice. -/
def doubled : Block := { block with transactions := block.transactions ++ [renewal] }

/-- A block in which the renewal comes before the registration. -/
def ordered : Block := sampleChainBlock sampleRewardGenesis.sampleHash 1 [renewal, registration]

/-- The same header over the first three of the filled leaves. -/
def cut : Block :=
  { ordered with transactions := (Merkle.filled 3 ordered.transactions).take 3 }

/-- The chain, the verdicts on the bodies and what is hashed for them, evaluated. -/
theorem bodies_evaluated :
    replays AnyBlock sampleParams (str "mainnet") ∅ [sampleRewardGenesis] ∧
    (validateBlock block ctx = .ok 0 ∧ validateBlock doubled ctx = .ok 0 ∧
      NoCollision block.transactions doubled.transactions) ∧
    (validateBlock ordered ctx = .ok 0 ∧ validateBlock cut ctx = .ok 0 ∧
      NoCollision ordered.transactions cut.transactions) ∧
    (∀ tx ∈ ordered.transactions ++ cut.transactions, tx.inputs = []) ∧
    Merkle.variants ordered.transactions = [ordered.transactions ++ [registration]] ∧
    ∀ body ∈ Merkle.variants ordered.transactions,
      ∃ tx ∈ body, 2 ≤ body.count tx ∧ repeatable body tx = false := by
  decide +kernel

end SampleCommitment

end Chipcoin
