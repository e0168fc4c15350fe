import Chipcoin.Node.Service

/-!
# Which tables the node's programs touch

Every writing method stands in its own transaction block, so the programs of the service are closed,
and each of them keeps what does not depend on the tables it writes.

* `RowInvariant`: what the writes of state rows keep.
* `preserves_blockRows`, `preserves_branchRows`: the rows of a block or of a branch.
* `preserves_reconcile`: the mempool pass writes only the mempool.
-/

namespace Chipcoin

open Checked Database

/-- An invariant that does not depend on the state and reward tables. -/
structure RowInvariant (Inv : Store → Prop) : Prop where
  utxos : ∀ store rows, Inv store → Inv { store with utxos := rows }
  nodeRegistry : ∀ store rows, Inv store → Inv { store with nodeRegistry := rows }
  bundles : ∀ store rows, Inv store → Inv { store with bundles := rows }
  attestationEntries : ∀ store rows, Inv store → Inv { store with attestationEntries := rows }
  settlements : ∀ store rows, Inv store → Inv { store with settlements := rows }
  settlementEntries : ∀ store rows, Inv store → Inv { store with settlementEntries := rows }

theorem rowInvariant_chainTipHash (tip : Option PyStr) :
    RowInvariant fun db => db.chainTipHash = tip := by
  constructor <;> exact fun _ _ h => h

/-! ### Statements -/

theorem preserves_update {Inv : Store → Prop} {f : Store → Store}
    (h : ∀ db, Inv db → Inv (f db)) : (update f).Preserves Inv := by
  refine ⟨fun db written hstore hwritten => ?_, trivial⟩
  cases hwritten
  exact h db hstore

theorem preserves_transact {Inv : Store → Prop} {body : Db Unit} (h : body.Preserves Inv) :
    (Program.transact body).Preserves Inv := ⟨h, trivial⟩

/-! ### Closed programs -/

theorem closed_branchRows (state : ReplayState) : (branchRows state).Closed := trivial

private theorem closed_evictIfNeeded (policy : MempoolPolicy) : (evictIfNeeded policy).Closed :=
  Program.closed_get.bind fun _ => Program.closed_forM fun _ _ => trivial

section

variable [Platform]

private theorem closed_putHeader (header : BlockHeader) (height cumulativeWork : Option ℕ)
    (isMainChain : Bool) : (putHeader header height cumulativeWork isMainChain).Closed :=
  (Program.closed_ofExcept _).bind fun _ => trivial

private theorem closed_putBlock (block : Block) : (putBlock block).Closed :=
  (Program.closed_ofExcept _).bind fun _ => trivial

private theorem closed_applyTransactionUtxos (tx : Transaction) (height : ℕ)
    (isCoinbase : Bool) : (applyTransactionUtxos tx height isCoinbase).Closed :=
  (Program.closed_forM fun _ _ => Program.closed_transact _).bind fun _ =>
    (Program.closed_ofExcept _).bind fun _ =>
      Program.closed_forM fun _ _ => Program.closed_transact _

private theorem closed_applyBlockUtxos (block : Block) (height : ℕ) :
    (applyBlockUtxos block height).Closed :=
  Program.closed_forM fun _ _ => closed_applyTransactionUtxos _ _ _

theorem closed_applyNodeRegistryRows (block : Block) (height : ℕ) :
    (applyNodeRegistryRows block height).Closed := by
  refine Program.closed_forM fun tx _ => ?_
  split
  · exact Program.closed_get.bind fun _ => (Program.closed_ofExcept _).bind fun _ => trivial
  · trivial

private theorem closed_applyNativeRewardBlock (block : Block) (height : ℕ) :
    (applyNativeRewardBlock block height).Closed := by
  refine Program.closed_forM fun tx _ => (Program.closed_ofExcept _).bind fun payload => ?_
  rcases payload with _ | _ | _ <;> trivial

theorem closed_blockRows (block : Block) (height previousCumulativeWork : ℕ) :
    (blockRows block height previousCumulativeWork).Closed :=
  (Program.closed_ofExcept _).bind fun _ => (closed_putHeader _ _ _ _).bind fun _ =>
    (closed_putBlock block).bind fun _ => (closed_applyBlockUtxos block height).bind fun _ =>
      (closed_applyNodeRegistryRows block height).bind fun _ =>
        closed_applyNativeRewardBlock block height

private theorem closed_readmitFast (node : Node) (nextHeight : ℕ) (pending : PendingState)
    (tx : Transaction) (addedAt now : Int) :
    (readmitFast node nextHeight pending tx addedAt now).Closed := by
  rw [readmitFast]
  split
  · trivial
  split
  · split <;> trivial
  refine (Program.closed_ofExcept _).bind fun txid => Program.closed_get.bind fun db => ?_
  split
  · trivial
  split
  · split <;> trivial
  · exact trivial

section

variable (node : Node) (clock : ℕ → Int)
include node clock

theorem closed_reconcile (extraTransactions : List Transaction) :
    (reconcile node clock extraTransactions).Closed := by
  refine Program.closed_get.bind fun _ => (Program.closed_transact _).bind fun _ =>
    Program.closed_get.bind fun _ => (Program.closed_ofExcept _).bind fun ctx => ?_
  refine (Program.closed_foldlM fun _ _ _ => closed_readmitFast _ _ _ _ _ _).bind fun _ =>
    (Program.closed_foldlM fun _ _ _ => closed_readmitFast _ _ _ _ _ _).bind fun _ =>
      closed_evictIfNeeded _

theorem closed_applyBlock (block : Block) : (applyBlock node clock block).Closed :=
  Program.closed_get.bind fun _ => (Program.closed_ofExcept _).bind fun _ =>
    (Program.closed_ofExcept _).bind fun _ => trivial

theorem closed_activateBranch (tipHash : PyStr) :
    (activateBranch node clock tipHash).Closed :=
  Program.closed_get.bind fun _ => (Program.closed_ofExcept _).bind fun _ =>
    (Program.closed_transact _).bind fun _ => trivial

theorem closed_activateChain (tipHash : PyStr) : (activateChain node clock tipHash).Closed := by
  refine Program.closed_get.bind fun db => ?_
  dsimp only
  split_ifs with hcurrent hextends
  · trivial
  · exact (Program.closed_ofExcept _).bind fun block =>
      (closed_applyBlock node clock block).bind fun _ => trivial
  · exact closed_activateBranch node clock tipHash

end

/-! ### What the programs keep -/

variable {Inv : Store → Prop}

private theorem preserves_putHeader {header : BlockHeader} {height cumulativeWork : Option ℕ}
    {isMainChain : Bool} (hinv : ∀ db blockHash, header.blockHash = .ok blockHash → Inv db →
      Inv (db.insertHeader blockHash ⟨header, height, cumulativeWork, isMainChain⟩)) :
    (putHeader header height cumulativeWork isMainChain).Preserves Inv := by
  rw [putHeader]
  cases hhash : header.blockHash with
  | error error => trivial
  | ok blockHash =>
    exact preserves_transact (preserves_update fun db => hinv db blockHash hhash)

private theorem preserves_putBlock {block : Block}
    (hinv : ∀ db blockHash, block.blockHash = .ok blockHash → Inv db →
      Inv (db.insertBody blockHash block)) :
    (putBlock block).Preserves Inv := by
  rw [putBlock]
  cases hhash : block.blockHash with
  | error error => trivial
  | ok blockHash =>
    exact preserves_transact ((Program.preserves_ofExcept Inv _).bind fun _ =>
      preserves_update fun db => hinv db blockHash hhash)

private theorem preserves_applyBlockUtxos
    (hinv : ∀ db rows, Inv db → Inv { db with utxos := rows }) (block : Block)
    (height : ℕ) : (applyBlockUtxos block height).Preserves Inv :=
  Program.preserves_forM fun _ =>
    (Program.preserves_forM fun _ =>
        preserves_transact (preserves_update fun db => hinv db _)).bind fun _ =>
      (Program.preserves_ofExcept Inv _).bind fun _ => Program.preserves_forM fun _ =>
        preserves_transact (preserves_update fun db => hinv db _)

private theorem preserves_applyNodeRegistryRows
    (hinv : ∀ db rows, Inv db → Inv { db with nodeRegistry := rows }) (block : Block)
    (height : ℕ) : (applyNodeRegistryRows block height).Preserves Inv := by
  refine Program.preserves_forM fun tx => ?_
  split
  · exact (Program.preserves_get Inv).bind fun _ => (Program.preserves_ofExcept Inv _).bind
      fun _ => preserves_transact (preserves_update fun db => hinv db _)
  · trivial

omit [Platform] in
private theorem preserves_addBundle (hinv : RowInvariant Inv)
    (stored : StoredRewardAttestationBundle) :
    (addBundle stored).Preserves Inv :=
  preserves_transact <| (preserves_update fun db => hinv.bundles db _).bind fun _ =>
    (preserves_update fun db => hinv.attestationEntries db _).bind fun _ =>
      preserves_update fun db => hinv.attestationEntries db _

omit [Platform] in
private theorem preserves_addSettlement (hinv : RowInvariant Inv) (stored : StoredEpochSettlement) :
    (addSettlement stored).Preserves Inv := by
  refine preserves_transact <| (preserves_update fun db => hinv.settlements db _).bind
    fun _ => (preserves_update fun db => hinv.settlementEntries db _).bind
    fun _ => ⟨fun db written hstore hwritten => ?_, trivial⟩
  obtain ⟨⟨⟩, -, hwritten⟩ := bind_eq_ok.mp hwritten
  cases hwritten
  exact hinv.settlementEntries db _ hstore

private theorem preserves_applyNativeRewardBlock (hinv : RowInvariant Inv) (block : Block)
    (height : ℕ) :
    (applyNativeRewardBlock block height).Preserves Inv := by
  refine Program.preserves_forM fun tx =>
    (Program.preserves_ofExcept Inv _).bind fun payload => ?_
  rcases payload with _ | stored | stored
  · trivial
  · exact preserves_addBundle hinv stored
  · exact preserves_addSettlement hinv stored

/-- The rows of a block. -/
theorem preserves_blockRows (hinv : RowInvariant Inv) {block : Block}
    {height previousCumulativeWork : ℕ}
    (hheader : ∀ db blockHash work, block.header.blockHash = .ok blockHash →
      headerWork block.header = .ok work → Inv db →
      Inv (db.insertHeader blockHash
        ⟨block.header, some height, some (previousCumulativeWork + work), true⟩))
    (hbody : ∀ db blockHash, block.blockHash = .ok blockHash → Inv db →
      Inv (db.insertBody blockHash block)) :
    (blockRows block height previousCumulativeWork).Preserves Inv := by
  have hrest : ∀ work, headerWork block.header = .ok work →
      (putHeader block.header (some height) (some (previousCumulativeWork + work)) true).Preserves
        Inv :=
    fun work hwork => preserves_putHeader fun db blockHash hhash =>
      hheader db blockHash work hhash hwork
  rw [blockRows]
  cases hwork : headerWork block.header with
  | error error => trivial
  | ok work =>
    exact (hrest work hwork).bind fun _ => (preserves_putBlock hbody).bind fun _ =>
      (preserves_applyBlockUtxos hinv.utxos block height).bind fun _ =>
        (preserves_applyNodeRegistryRows hinv.nodeRegistry block height).bind fun _ =>
          preserves_applyNativeRewardBlock hinv block height

omit [Platform] in
private theorem preserves_replaceAllNodes
    (hinv : ∀ db rows, Inv db → Inv { db with nodeRegistry := rows })
    (records : List NodeRecord) : (replaceAllNodes records).Preserves Inv := by
  refine preserves_transact <| (preserves_update fun db => hinv db _).bind fun _ =>
    ⟨fun db written hstore hwritten => ?_, trivial⟩
  obtain ⟨rows, -, hwritten⟩ := bind_eq_ok.mp hwritten
  cases hwritten
  exact hinv db _ hstore

omit [Platform] in
/-- The rows of a replayed branch. -/
theorem preserves_branchRows (hinv : RowInvariant Inv) (state : ReplayState) :
    (branchRows state).Preserves Inv := by
  have hutxos : (replaceAllUtxos state.utxos).Preserves Inv :=
    preserves_transact <| (preserves_update fun db => hinv.utxos db _).bind fun _ =>
      preserves_update fun db => hinv.utxos db _
  have hbundles : (replaceAllBundles state.bundles).Preserves Inv :=
    preserves_transact <| (preserves_update fun db => hinv.attestationEntries db _).bind
      fun _ => (preserves_update fun db => hinv.bundles db _).bind fun _ =>
        Program.preserves_forM fun _ => preserves_addBundle hinv _
  have hsettlements : (replaceAllSettlements state.settlements).Preserves Inv :=
    preserves_transact <| (preserves_update fun db => hinv.settlementEntries db _).bind
      fun _ => (preserves_update fun db => hinv.settlements db _).bind fun _ =>
        Program.preserves_forM fun _ => preserves_addSettlement hinv _
  exact hutxos.bind fun _ => (preserves_replaceAllNodes hinv.nodeRegistry _).bind fun _ =>
    hbundles.bind fun _ => hsettlements

section

variable (hinv : ∀ db rows, Inv db → Inv { db with mempool := rows }) (node : Node)
include hinv node

private theorem preserves_readmitFast (nextHeight : ℕ) (pending : PendingState) (tx : Transaction)
    (addedAt now : Int) :
    (readmitFast node nextHeight pending tx addedAt now).Preserves Inv := by
  rw [readmitFast]
  split
  · trivial
  split
  · split <;> trivial
  refine (Program.preserves_ofExcept Inv _).bind fun txid =>
    (Program.preserves_get Inv).bind fun db => ?_
  split
  · trivial
  split
  · split <;> trivial
  · exact Program.Preserves.bind (preserves_transact ((Program.preserves_ofExcept Inv _).bind
      fun _ => preserves_update fun db => hinv db _)) fun _ => trivial

/-- The mempool pass. -/
theorem preserves_reconcile (clock : ℕ → Int) (extraTransactions : List Transaction) :
    (reconcile node clock extraTransactions).Preserves Inv := by
  have hevict : (evictIfNeeded node.policy).Preserves Inv :=
    (Program.preserves_get Inv).bind fun _ => Program.preserves_forM fun _ =>
      preserves_transact (preserves_update fun db => hinv db _)
  have hclear : clearMempool.Preserves Inv :=
    preserves_transact (preserves_update fun db => hinv db _)
  refine (Program.preserves_get Inv).bind fun _ => hclear.bind fun _ =>
    (Program.preserves_get Inv).bind fun _ => (Program.preserves_ofExcept Inv _).bind
      fun ctx => ?_
  exact (Program.preserves_foldlM fun _ _ => preserves_readmitFast hinv _ _ _ _ _ _).bind fun _ =>
    (Program.preserves_foldlM fun _ _ => preserves_readmitFast hinv _ _ _ _ _ _).bind fun _ =>
      hevict

end

end

end Chipcoin
