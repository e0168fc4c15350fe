import Chipcoin.Node.Connect
import Chipcoin.Node.HeaderTree

/-!
# The reported supply

`_materialized_supply_snapshot` knows two ways to say what the coinbases of the active chain have
issued. The fast one takes the miners' part from the schedule and the nodes' part from the table of
settlements. The other one reads the blocks: for each height the miner subsidy, and from each
coinbase what its outputs after the first are worth.

* `BlockChecks.sum_coinbaseRewards`: in an accepted block these outputs are worth what the
  settlements of the block distribute.
* `AcceptedBlocks.distributed`: so along a chain they are worth what all its settlements distribute.
* `activateBranch_holdsChain`: a switch to a branch leaves the tables of its chain.
* `materializedSupply_agrees`: the two ways give the same report.
-/

namespace Chipcoin

open Checked Database List Table

/-! ### The two ways -/

/-- The report of `_materialized_supply_snapshot`. -/
structure MaterializedSupply where
  materializedSupplyChipbits : Int
  materializedMinerSupplyChipbits : Int
  materializedNodeRewardSupplyChipbits : Int
deriving DecidableEq

/-- The report on two totals. -/
def MaterializedSupply.ofTotals (miner nodeReward : Int) : MaterializedSupply where
  materializedSupplyChipbits := miner + nodeReward
  materializedMinerSupplyChipbits := miner
  materializedNodeRewardSupplyChipbits := nodeReward

/-- `get_block_by_height`. -/
def Store.getBlockByHeight (db : Store) (height : ℕ) : Option Block := do
  let blockHash ← db.getHashAtHeight height
  db.blocks[blockHash]?

/-- `total_distributed_node_reward_chipbits`. -/
def Store.totalDistributedNodeRewardChipbits (db : Store) : Int :=
  (db.settlements.toList.map fun entry => entry.2.settlement.distributedNodeRewardChipbits).sum

/-- What the outputs of a coinbase after the first are worth. -/
def coinbaseRewards (coinbase : Transaction) : Int := (coinbase.outputs.tail.map (·.value)).sum

/-- One round of the loop over the heights, on the totals of miners and nodes. -/
def materializedRound (params : ConsensusParams) (db : Store) (totals : Int × Int)
    (blockHeight : ℕ) : Int × Int :=
  match db.getBlockByHeight blockHeight with
  | none => totals
  | some block =>
    match block.transactions.head? with
    | none => totals
    | some coinbase =>
      if coinbase.outputs = [] then totals
      else (totals.1 + (subsidySplitChipbits blockHeight params).1,
        totals.2 + coinbaseRewards coinbase)

/-- `_materialized_supply_snapshot`. -/
def materializedSupplySnapshot (params : ConsensusParams) (db : Store)
    (scheduledMinerSupplyChipbits : Option Int) : MaterializedSupply :=
  match scheduledMinerSupplyChipbits with
  | some scheduled => .ofTotals scheduled db.totalDistributedNodeRewardChipbits
  | none =>
    let totals := match db.getTip with
      | none => (0, 0)
      | some tip => (List.range (tip.height + 1)).foldl (materializedRound params db) (0, 0)
    .ofTotals totals.1 totals.2

/-- The miners' part of the schedule up to the tip, as `supply_snapshot` passes it. -/
def scheduledMinerSupplyChipbits (params : ConsensusParams) (db : Store) : Int :=
  let height : Int := match db.getTip with
    | none => -1
    | some tip => tip.height
  (subsidyTotalsThroughHeight height params).1

/-! ### Tables of a chain -/

/-- The rows that the settlements of a chain leave, written one after the other. -/
def settlementTable (settlements : List StoredEpochSettlement) :
    Std.ExtTreeMap PyStr StoredEpochSettlement :=
  settlements.foldl (fun rows stored => upsertSettlementRow stored rows) ∅

/-- Settlements of different epochs and txids do not displace each other. -/
theorem holds_settlementTable {settlements : List StoredEpochSettlement}
    (hkeys : (settlements.map (·.txid)).Nodup)
    (hepochs : (settlements.map (·.settlement.epochIndex)).Nodup) :
    Table.Holds StoredEpochSettlement.txid (settlementTable settlements) settlements := by
  induction settlements using List.reverseRecOn with
  | nil => exact holds_empty
  | append_singleton earlier stored ih =>
    rw [map_append, map_singleton, nodup_append] at hkeys hepochs
    have hearlier := ih hkeys.1 hepochs.1
    have hkept : ∀ other ∈ earlier,
        other.settlement.epochIndex ≠ stored.settlement.epochIndex := by
      intro other hmem
      exact hepochs.2.2 _ (mem_map_of_mem hmem) _ (mem_singleton_self _)
    have hfresh : ∀ other ∈ earlier, other.txid ≠ stored.txid := by
      intro other hmem
      exact hkeys.2.2 _ (mem_map_of_mem hmem) _ (mem_singleton_self _)
    rw [settlementTable, foldl_append, foldl_cons, foldl_nil, upsertSettlementRow,
      ← settlementTable, hearlier.filter_eq fun other hmem => decide_eq_true (hkept other hmem)]
    exact hearlier.insert hfresh

/-- The tables of a node whose active chain consists of the blocks: their heights, their bodies and
their settlements. -/
structure Store.HoldsChain (db : Store) (blocks : List Block) (state : ReplayState) : Prop where
  nextHeight_eq : db.nextHeight = blocks.length
  bodies : ∀ height < blocks.length, db.getBlockByHeight height = blocks[height]?
  settlements_eq : db.settlements = settlementTable state.settlements

/-! ### Tables after a switch -/

section

variable {db db' : Store} {path : List PyStr} {tipHash key : PyStr} {row : HeaderRow}

/-- `set_main_chain` marks the rows of the path and no others. -/
theorem isMainChain_markMainChain {headers : Std.ExtTreeMap PyStr HeaderRow}
    (h : (markMainChain path headers)[key]? = some row) : row.isMainChain ↔ key ∈ path := by
  rw [markMainChain] at h
  induction path using List.reverseRecOn generalizing row with
  | nil =>
    rw [zipIdx_nil, foldl_nil, Std.ExtTreeMap.getElem?_map, Option.map_eq_some_iff] at h
    obtain ⟨old, -, rfl⟩ := h
    simp
  | append_singleton front last ih =>
    rw [zipIdx_append, foldl_append, zipIdx_singleton, foldl_cons,
      foldl_nil, Table.getElem?_modify] at h
    split_ifs at h with heq
    · obtain ⟨old, -, rfl⟩ := Option.map_eq_some_iff.mp h
      simp [heq]
    · simpa [heq] using ih h

private theorem eval_addSettlements {settlements : List StoredEpochSettlement}
    (hempty : db.settlements = ∅) (h : (settlements.forM addSettlement).eval db = .ok ((), db')) :
    db'.settlements = settlementTable settlements := by
  induction settlements using List.reverseRecOn generalizing db' with
  | nil =>
    cases h
    exact hempty
  | append_singleton front last ih =>
    obtain ⟨middle, hfront, h⟩ := Program.eval_forM_append_eq_ok.mp h
    obtain ⟨_, hwrite, hdone⟩ := Program.eval_andThen_eq_ok.mp h
    cases hdone
    obtain ⟨_, hbody, hdone⟩ := Program.eval_transaction_eq_ok.mp hwrite
    cases hdone
    obtain ⟨_, hfirst, hbody⟩ := Program.eval_andThen_eq_ok.mp hbody
    cases hfirst
    obtain ⟨_, hsecond, hbody⟩ := Program.eval_andThen_eq_ok.mp hbody
    cases hsecond
    -- The last statement can refuse the entries; it does not touch the settlements.
    obtain ⟨_, hstatement, hdone⟩ := Program.eval_write_eq_ok.mp hbody
    cases hdone
    obtain ⟨_, -, hreturn⟩ := bind_eq_ok.mp hstatement
    cases hreturn
    rw [settlementTable, foldl_append, ← settlementTable, ← ih hfront]
    rfl

/-- The table of settlements is emptied and filled from the replay. -/
theorem eval_branchRows {state : ReplayState} (h : (branchRows state).eval db = .ok ((), db')) :
    db'.settlements = settlementTable state.settlements := by
  obtain ⟨_, -, h⟩ := Program.eval_andThen_eq_ok.mp h
  obtain ⟨_, -, h⟩ := Program.eval_andThen_eq_ok.mp h
  obtain ⟨_, -, h⟩ := Program.eval_andThen_eq_ok.mp h
  obtain ⟨_, hbody, hdone⟩ := Program.eval_transaction_eq_ok.mp h
  cases hdone
  exact eval_addSettlements rfl hbody

variable [Platform] {known : Set BlockHeader} {Fit : List BlockHeader → BlockHeader → Prop}
  (tree : HeaderTree known Fit db)
include tree

/-- Where the rows of a path are the marked ones, the hash at a height is the one at the position:
heights are positions. -/
theorem TipMove.getHashAtHeight (move : TipMove db tipHash db') (hpath : db.HeaderPath tipHash path)
    (hmarked : ∀ {key : PyStr} {row : HeaderRow}, db'.headers[key]? = some row →
      (row.isMainChain ↔ key ∈ path)) (height : ℕ) :
    db'.getHashAtHeight height = path[height]? := by
  have hheight : ∀ {key : PyStr} {row : HeaderRow} {i : ℕ}, db'.headers[key]? = some row →
      path[i]? = some key → row.height = some i := by
    intro key row i hrow hget
    obtain ⟨old, hold, hcore⟩ := move.row_inv hrow
    obtain ⟨rank, hrank, heq⟩ := tree.exists_height hold
    rw [HeaderRow.height_of_core hcore, hrank, ← heq, tree.ranked.rank_of_getElem? hpath hget]
  cases h : db'.getHashAtHeight height with
  | some key =>
    obtain ⟨⟨_, row⟩, hfind, rfl⟩ := Option.map_eq_some_iff.mp h
    have hrow := Std.ExtTreeMap.mem_toList_iff_getElem?_eq_some.mp (mem_of_find?_eq_some hfind)
    have hflags := find?_some hfind
    simp only [Bool.and_eq_true, decide_eq_true_eq] at hflags
    obtain ⟨i, hi⟩ := mem_iff_getElem?.mp ((hmarked hrow).mp hflags.1)
    rw [← hi, ← Option.some.inj ((hheight hrow hi).symm.trans hflags.2)]
  | none =>
    rw [eq_comm, Option.eq_none_iff_forall_ne_some]
    intro key hget
    obtain ⟨old, hold⟩ := Store.HeaderPath.exists_row hpath (mem_of_getElem? hget)
    obtain ⟨row, hrow, -⟩ := move.keeps_row hold
    rw [Store.getHashAtHeight, Option.map_eq_none_iff, find?_eq_none] at h
    refine h (key, row) (Std.ExtTreeMap.mem_toList_iff_getElem?_eq_some.mpr hrow) ?_
    simp [(hmarked hrow).mpr (mem_of_getElem? hget), hheight hrow hget]

/-- **After a switch** the tables hold the chain of the branch, whatever they held before. -/
theorem activateBranch_holdsChain {node : Node} {clock : ℕ → Int} {result : ChainActivationResult}
    (hrow : db.headers[tipHash]? = some row)
    (h : (activateBranch node clock tipHash).eval db = .ok (result, db')) :
    ∃ plan, planBranch node.toNodeConfig db tipHash = .ok plan ∧
      ∀ blocks : List Block, blocks.map some = plan.pathHashes.map (db.blocks[·]?) →
        db'.HoldsChain blocks plan.branch.state := by
  obtain ⟨path, hpath⟩ := tree.exists_headerPath hrow
  have move := (activateBranch_tipMove tree node clock hrow).ended (closed_activateBranch ..)
    (.refl db tipHash) h
  rw [activateBranch, Program.eval_get_andThen] at h
  obtain ⟨plan, hplan, h⟩ := Program.eval_ofExcept_andThen_eq_ok.mp h
  have hplanned : plan.pathHashes = path :=
    Except.ok.inj ((planBranch_ok hplan).1.symm.trans (tree.pathToRoot hpath))
  obtain ⟨_, htransact, hdone⟩ := Program.eval_andThen_eq_ok.mp h
  cases hdone
  obtain ⟨_, hswitch, hdone⟩ := Program.eval_transaction_eq_ok.mp htransact
  cases hdone
  obtain ⟨⟨⟨⟩, replaced⟩, hrows, hswitch⟩ := Program.eval_andThen_eq_ok.mp hswitch
  obtain ⟨⟨⟨⟩, marked⟩, hmark, hpass⟩ := Program.eval_andThen_eq_ok.mp hswitch
  -- The mempool pass leaves what the switch wrote.
  let Inv (store : Store) : Prop :=
    store.settlements = settlementTable plan.branch.state.settlements ∧
      store.chainTipHash = some tipHash ∧ store.headers = markMainChain path replaced.headers
  have hmarked : Inv marked := by
    have hsettled := eval_branchRows hrows
    rw [setMainChain, hplanned, hpath.getLast?] at hmark
    cases hmark
    exact ⟨hsettled, rfl, rfl⟩
  have hkeeps := @preserves_reconcile _ Inv (fun _ _ h => h) node clock (plan.disconnected db)
  obtain ⟨hsettlements, htip, hheaders⟩ :=
    (Within.of_preserves hkeeps hmarked).ended (closed_reconcile ..) hmarked hpass
  refine ⟨plan, hplan, fun blocks hblocks => ⟨?_, fun height _ => ?_, hsettlements⟩⟩
  · obtain ⟨row', hrow', hcore⟩ := move.keeps_row hrow
    obtain ⟨rank, hrank, heq⟩ := tree.exists_height hrow
    have hlength := congrArg List.length hblocks
    rw [length_map, length_map, hplanned, tree.ranked.length_path hpath, heq] at hlength
    have hheight := (HeaderRow.height_of_core hcore).trans hrank
    simp [Store.nextHeight, Store.getTip, htip, hrow', hheight, hlength]
  · have hget := congrArg (·[height]?.bind id) hblocks
    simp only [getElem?_map, Option.bind_map, Function.comp_def, id, hplanned,
      Option.bind_fun_some] at hget
    rw [Store.getBlockByHeight, hget, move.blocks,
      move.getHashAtHeight tree hpath fun hrow => isMainChain_markMainChain (hheaders ▸ hrow)]
    rfl

end

section

variable [Platform] {params : ConsensusParams}

/-! ### One block -/

section

variable {block : Block} {ctx : ValidationContext} {coinbase : Transaction}
  {rest : List Transaction} {stage : Stage}

/-- **The outputs after the first** of an accepted coinbase pay what the settlements distribute. -/
theorem BlockChecks.sum_coinbaseRewards (checks : BlockChecks block ctx coinbase rest stage) :
    coinbase.outputs ≠ [] ∧ coinbaseRewards coinbase = (rest.map distributedReward).sum := by
  have hdistribution := checks.distribution
  simp only [validateCoinbaseDistribution, bind_eq_ok, raiseIf_eq_ok, Unique.exists_iff,
    not_not] at hdistribution
  obtain ⟨hne, -, -, -, hminer, -⟩ := hdistribution
  obtain ⟨miner, others, houtputs⟩ := exists_cons_of_ne_nil hne
  -- The first output takes the subsidy and the fees out of the whole.
  rw [houtputs, head?_cons, Option.map_some, Option.some.injEq] at hminer
  have htotal := checks.coinbase_total
  rw [transactionOutputTotal, houtputs, map_cons, sum_cons, issuedBy, checks.transactions_eq,
    map_cons, sum_cons, checks.distributedReward_coinbase, hminer] at htotal
  refine ⟨hne, ?_⟩
  rw [coinbaseRewards, houtputs, tail_cons]
  linarith

/-- The settlement transactions of an accepted block parse. -/
theorem BlockChecks.parsed (checks : BlockChecks block ctx coinbase rest stage) :
    ∀ tx ∈ rest, isRewardSettleEpochTransaction tx →
      ∃ settlement, parseRewardSettlement tx = .ok settlement := by
  intro tx hmem hsettle
  obtain ⟨-, -, reached, next, -, -, hstep⟩ := checks.exists_step hmem
  obtain ⟨settlement, seed, hparse, -⟩ := hstep.of_settlement hsettle
  exact ⟨settlement, hparse⟩

end

/-! ### Chains -/

/-- What the settlements of a state distribute. -/
def distributedTotal (state : ReplayState) : Int :=
  (state.settlements.map (·.settlement.distributedNodeRewardChipbits)).sum

private theorem distributedReward_of_payload {height : ℕ} {tx : Transaction}
    {payload : Option RewardPayload} (h : rewardPayload height tx = .ok payload)
    (hother : ∀ stored, payload ≠ some (.settlement stored)) :
    distributedReward tx = 0 := by
  rw [distributedReward, if_neg]
  intro hsettle
  rw [rewardPayload, if_neg (by simp [not_bundle_of_settle hsettle]), if_pos hsettle] at h
  obtain ⟨settlement, -, h⟩ := bind_eq_ok.mp h
  obtain ⟨txid, -, h⟩ := bind_eq_ok.mp h
  exact hother _ (pure_eq_ok.mp h).symm

private theorem settle_of_payload {height : ℕ} {tx : Transaction} {stored : StoredEpochSettlement}
    (h : rewardPayload height tx = .ok (some (.settlement stored))) :
    isRewardSettleEpochTransaction tx := by
  by_contra hother
  rw [rewardPayload] at h
  split_ifs at h
  · obtain ⟨bundle, -, h⟩ := bind_eq_ok.mp h
    obtain ⟨txid, -, h⟩ := bind_eq_ok.mp h
    cases h
  · cases h

/-- The payloads of a block add what its settlements distribute. -/
theorem RewardRun.distributedTotal_eq {height : ℕ} {state state' : ReplayState}
    {txs : List Transaction} (run : RewardRun height state txs state')
    (hparsed : ∀ tx ∈ txs, isRewardSettleEpochTransaction tx →
      ∃ settlement, parseRewardSettlement tx = .ok settlement) :
    distributedTotal state' =
      distributedTotal state + (txs.map distributedReward).sum := by
  induction run with
  | done => simp
  | other payload _ ih =>
    rw [ih (forall_mem_of_forall_mem_cons hparsed), map_cons,
      sum_cons, distributedReward_of_payload payload (by simp), zero_add]
  | bundle payload _ _ ih =>
    rw [ih (forall_mem_of_forall_mem_cons hparsed), map_cons,
      sum_cons, distributedReward_of_payload payload (by simp), zero_add]
    rfl
  | @settlement state _ tx _ stored payload _ _ ih =>
    rw [ih (forall_mem_of_forall_mem_cons hparsed), map_cons, sum_cons, ← add_assoc]
    have hsettle := settle_of_payload payload
    obtain ⟨settlement, hparse⟩ := hparsed tx mem_cons_self hsettle
    obtain ⟨-, hmetadata⟩ := rewardPayload_eq_settlement payload
    obtain rfl := ok_unique (parseRewardSettlement_metadata hparse) hmetadata
    rw [distributedReward, if_pos hsettle, hparse]
    simp [distributedTotal, ReplayState.addPayload]

/-- What the coinbase of a block pays beside its first output. -/
def blockRewards (block : Block) : Int := (block.transactions.head?.map coinbaseRewards).getD 0

/-- The block has a coinbase with an output. -/
def HasCoinbase (block : Block) : Prop :=
  ∃ coinbase, block.transactions.head? = some coinbase ∧ coinbase.outputs ≠ []

/-- **The rewards of a chain.** Every block of it has a coinbase, and the outputs after the first
are worth what the settlements distribute; by induction on the chain. -/
theorem AcceptedBlocks.distributed {blocks : List Block} {state : ReplayState}
    (chain : AcceptedBlocks params SeesRewards blocks state) :
    (∀ block ∈ blocks, HasCoinbase block) ∧
      distributedTotal state = (blocks.map blockRewards).sum := by
  induction chain with
  | empty => exact ⟨by simp, rfl⟩
  | @extend blocks state state' ctx block fees chain observes accepted sees connected ih =>
    obtain ⟨coinbase, rest, stage, checks, -⟩ := validateBlock_ok accepted
    obtain ⟨hne, hrewards⟩ := checks.sum_coinbaseRewards
    have hconnects := (connects_of_connected chain.unique observes sees accepted connected).1
    have hhead : block.transactions.head? = some coinbase := by rw [checks.transactions_eq]; rfl
    have htail : block.transactions.tail = rest := by rw [checks.transactions_eq]; rfl
    have hblock : blockRewards block = (rest.map distributedReward).sum := by
      rw [blockRewards, hhead, Option.map_some, Option.getD_some, hrewards]
    refine ⟨fun other hmem => ?_, ?_⟩
    · rcases List.mem_append.mp hmem with hmem | hmem
      · exact ih.1 other hmem
      · rw [List.mem_singleton.mp hmem]
        exact ⟨coinbase, hhead, hne⟩
    · have hrun := hconnects.rewards.distributedTotal_eq
        (htail ▸ checks.parsed)
      rw [hrun, htail, map_append, sum_append, map_singleton, sum_singleton, hblock, ← ih.2]
      rfl

/-! ### The report -/

variable {db : Store} {blocks : List Block} {state : ReplayState}

omit [Platform] in
private theorem Store.HoldsChain.scheduled (holds : db.HoldsChain blocks state) :
    scheduledMinerSupplyChipbits params db =
      ∑ height ∈ Finset.range blocks.length, ((subsidySplitChipbits height params).1 : Int) := by
  have hheight : (match db.getTip with
      | none => (-1 : Int)
      | some tip => tip.height) = (blocks.length : Int) - 1 := by
    rw [← holds.nextHeight_eq, Store.nextHeight]
    cases db.getTip with
    | none => rfl
    | some tip => simp
  rw [scheduledMinerSupplyChipbits, hheight, subsidyTotals_pred_fst]
  push_cast
  rfl

omit [Platform] in
/-- The loop over the heights of a prefix of the chain; by induction on its length. -/
theorem Store.HoldsChain.foldl_materializedRound (holds : db.HoldsChain blocks state)
    (hcoinbase : ∀ block ∈ blocks, HasCoinbase block) {n : ℕ} (hn : n ≤ blocks.length) :
    (List.range n).foldl (materializedRound params db) (0, 0) =
      (∑ height ∈ Finset.range n, ((subsidySplitChipbits height params).1 : Int),
        ((blocks.take n).map blockRewards).sum) := by
  induction n with
  | zero => rfl
  | succ n ih =>
    have hlt : n < blocks.length := hn
    obtain ⟨coinbase, hhead, hne⟩ := hcoinbase blocks[n] (getElem_mem hlt)
    have hblock : blockRewards blocks[n] = coinbaseRewards coinbase := by
      rw [blockRewards, hhead]
      rfl
    rw [range_succ, foldl_append, ih hlt.le, foldl_cons, foldl_nil,
      materializedRound, holds.bodies n hlt, getElem?_eq_getElem hlt]
    dsimp only
    rw [hhead]
    dsimp only
    rw [if_neg hne, Finset.sum_range_succ, take_succ_eq_append_getElem hlt, map_append,
      sum_append, map_singleton, sum_singleton, hblock]

omit [Platform] in
private theorem Store.HoldsChain.blockByBlock (holds : db.HoldsChain blocks state)
    (hcoinbase : ∀ block ∈ blocks, HasCoinbase block) :
    materializedSupplySnapshot params db none =
      .ofTotals
        (∑ height ∈ Finset.range blocks.length, ((subsidySplitChipbits height params).1 : Int))
        (blocks.map blockRewards).sum := by
  have hloop := @HoldsChain.foldl_materializedRound params _ _ _ holds hcoinbase _ le_rfl
  rw [take_length, ← holds.nextHeight_eq, Store.nextHeight] at hloop
  rw [materializedSupplySnapshot, ← holds.nextHeight_eq, Store.nextHeight]
  cases htip : db.getTip with
  | none =>
    rw [htip] at hloop
    rw [← (Prod.mk.inj hloop).2]
    rfl
  | some tip =>
    rw [htip, Option.map_some, Option.getD_some] at hloop
    dsimp only
    rw [hloop]
    rfl

/-- **The two ways agree.** On the tables of a node whose active chain is a chain of accepted
blocks, the report from the schedule and the settlements is the report from the blocks. -/
theorem materializedSupply_agrees (chain : AcceptedBlocks params SeesRewards blocks state)
    (free : CollisionFree (blocks.flatMap Block.transactions))
    (holds : db.HoldsChain blocks state) :
    materializedSupplySnapshot params db (some (scheduledMinerSupplyChipbits params db)) =
      materializedSupplySnapshot params db none := by
  obtain ⟨hcoinbase, hdistributed⟩ := chain.distributed
  have hkeyed := chain.keyed free.cleanTxids fun block hblock tx htransaction =>
    List.mem_flatMap.mpr ⟨block, hblock, htransaction⟩
  -- The table holds every settlement of the chain once.
  have hholds := holds_settlementTable hkeyed.nodup chain.countedOnce.epochs
  have hperm := hholds.perm (List.Nodup.of_map _ hkeyed.nodup)
  have htotal : db.totalDistributedNodeRewardChipbits = distributedTotal state := by
    rw [Store.totalDistributedNodeRewardChipbits, holds.settlements_eq, distributedTotal,
      ← (hperm.map _).sum_eq, map_map]
    rfl
  rw [holds.blockByBlock hcoinbase, materializedSupplySnapshot, holds.scheduled, htotal,
    hdistributed]

end

namespace SampleReport

open SampleRewards

local instance platform : Platform := SampleRewards.platform

/-- The chain that settles an epoch with the whole pool. -/
def settled : List Block := [genesis, second passes, third passes []]

/-- The tables after its blocks. -/
def tables : Store :=
  { Store.empty with
    headers := settled.zipIdx.foldl (fun rows indexed => rows.insert indexed.1.sampleHash
      ⟨indexed.1.header, some indexed.2, some (2 * indexed.2 + 2), true⟩) ∅
    blocks := settled.foldl (fun rows block => rows.insert block.sampleHash block) ∅
    settlements := settlementTable (afterThird passes []).settlements
    chainTipHash := some (third passes []).sampleHash }

/-- The chain and the report on it, evaluated. -/
theorem report_evaluated :
    replays AnyBlock sampleParams (str "mainnet") seeds settled ∧
    ((afterThird passes []).settlements.length = 1 ∧
      materializedSupplySnapshot sampleParams tables none = .ofTotals 150 30) ∧
    (tables.nextHeight = 3 ∧
      ∀ height < 3, tables.getBlockByHeight height = settled[height]?) ∧
    ((settled.flatMap Block.transactions).map Transaction.digest).Nodup := by
  decide +kernel

/-- Three subsidies have been issued, and the settled epoch has distributed its pool. -/
theorem materializedSupply_agrees_third :
    AcceptedBlocks sampleParams SeesRewards settled (afterThird passes []) ∧
      (afterThird passes []).settlements.length = 1 ∧
      materializedSupplySnapshot sampleParams tables none = .ofTotals 150 30 ∧
      materializedSupplySnapshot sampleParams tables
          (some (scheduledMinerSupplyChipbits sampleParams tables)) =
        materializedSupplySnapshot sampleParams tables none := by
  obtain ⟨hreplayed, ⟨hcount, hreport⟩, ⟨hheight, hbodies⟩, hfree⟩ := report_evaluated
  have chain : AcceptedBlocks sampleParams SeesRewards settled (afterThird passes []) :=
    AcceptedBlocks.grow .empty (fun _ _ _ _ _ => ⟨rfl, rfl⟩) hreplayed
  have holds : tables.HoldsChain settled (afterThird passes []) :=
    ⟨hheight, hbodies, by simp only [tables]⟩
  exact ⟨chain, hcount, hreport,
    materializedSupply_agrees chain (collisionFree_of_nodup hfree) holds⟩

end SampleReport

end Chipcoin
