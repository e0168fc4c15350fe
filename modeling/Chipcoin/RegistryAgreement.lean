import Chipcoin.Lib.Table
import Chipcoin.Node.Chain
import Chipcoin.Node.Frame

/-!
# The registry table

The registry of a chain lives in two places: in memory, as a dictionary by node id, and in a table
whose owner column is unique, so that an upsert deletes every other row of the same owner. Accepted
actions never share an owner with another node, so the table holds the records of the dictionary.

* `RowsOf`: a table with the records of a registry.
* `RegistryAction.upsertNodeRow_eq`: an accepted action adds or replaces one row.
* `registry_unique_and_stored`: uniqueness along chains, and the table after the writes of a chain.
-/

namespace Chipcoin

open Checked Database

/-- The table has the records of the registry under their ids. -/
def RowsOf (rows : Std.ExtTreeMap PyStr NodeRecord) (view : NodeRegistryView) : Prop :=
  ∀ nodeId : PyStr, rows[nodeId]? = view.getByNodeId nodeId

private theorem RowsOf.empty : RowsOf ∅ .empty := by
  intro nodeId
  simp [NodeRegistryView.empty, NodeRegistryView.getByNodeId]

variable {height : ℕ} {view : NodeRegistryView} {rows : Std.ExtTreeMap PyStr NodeRecord}

private theorem RowsOf.insert (h : RowsOf rows view) (record : NodeRecord) :
    RowsOf (rows.insert record.nodeId record) (view.upsert record) := by
  intro nodeId
  rw [Table.getElem?_insert, NodeRegistryView.getByNodeId_upsert, h nodeId]

/-- **No other row is deleted.** An accepted action adds a row or replaces that of its node. -/
theorem RegistryAction.upsertNodeRow_eq {tx : Transaction} {params : ConsensusParams}
    {record : NodeRecord} (action : RegistryAction tx params height view record)
    (unique : RegistryUnique view) (h : RowsOf rows view) :
    upsertNodeRow record rows = rows.insert record.nodeId record := by
  refine Std.ExtTreeMap.ext_getElem? fun nodeId => ?_
  rw [upsertNodeRow, Table.getElem?_insert, Table.getElem?_insert]
  split_ifs with hid
  · rfl
  · rw [Std.ExtTreeMap.getElem?_filter]
    cases hrow : rows[nodeId]? with
    | none => rfl
    | some row =>
      obtain ⟨hmem, rfl⟩ := NodeRegistryView.getByNodeId_eq_some.mp ((h nodeId).symm.trans hrow)
      have howner := (action.apart unique hmem hid).1
      simp [howner]

/-- The store with another registry table. -/
def Store.withRegistry (db : Store) (rows : Std.ExtTreeMap PyStr NodeRecord) : Store :=
  { db with nodeRegistry := rows }

section

variable [Platform]

/-- The writes of a block's registry actions leave the records that the actions give. -/
theorem RegistryRun.eval_rows {params : ConsensusParams} {view' : NodeRegistryView}
    {txs : List Transaction} (run : RegistryRun params height view txs view')
    (unique : RegistryUnique view) {db : Store} (h : RowsOf db.nodeRegistry view) :
    ∃ rows, (txs.forM fun tx =>
        if isSpecialNodeTransaction tx then do
          let db ← .get
          let record ← .ofExcept (specialNodeRecord tx height (db.nodeRegistry[·]?))
          upsertNode record
        else pure () : Db Unit).eval db = .ok ((), db.withRegistry rows) ∧
      RowsOf rows view' := by
  induction run generalizing db with
  | done => exact ⟨db.nodeRegistry, rfl, h⟩
  | @other _ _ tx _ kind _ ih =>
    obtain ⟨rows, heval, hrows⟩ := ih unique h
    refine ⟨rows, Program.eval_andThen_eq_ok.mpr ⟨((), db), ?_, heval⟩, hrows⟩
    dsimp only
    rw [kind]
    rfl
  | @action view _ tx record _ kind action record_eq _ ih =>
    have hrow := action.upsertNodeRow_eq unique h
    have hnext : RowsOf (upsertNodeRow record db.nodeRegistry) (view.upsert record) := by
      rw [hrow]
      exact h.insert record
    obtain ⟨rows, heval, hrows⟩ := @ih (action.unique unique)
      (db.withRegistry (upsertNodeRow record db.nodeRegistry)) hnext
    refine ⟨rows, Program.eval_andThen_eq_ok.mpr ⟨((), _), ?_, heval⟩, hrows⟩
    -- The table answers lookups like the registry.
    have hlookup : (fun nodeId : PyStr => db.nodeRegistry[nodeId]?) = view.getByNodeId :=
      funext h
    dsimp only
    rw [if_pos kind]
    refine Program.eval_andThen_eq_ok.mpr ⟨(db, db), Program.eval_get db, ?_⟩
    refine Program.eval_andThen_eq_ok.mpr ⟨(record, db),
      Program.eval_ofExcept_eq_ok.mpr ⟨?_, rfl⟩, rfl⟩
    rw [hlookup]
    exact record_eq

/-- The registry writes of a chain of blocks. -/
def registryWrites (blocks : List Block) : Db Unit :=
  blocks.zipIdx.forM fun indexed => applyNodeRegistryRows indexed.1 indexed.2

private theorem closed_registryWrites (blocks : List Block) : (registryWrites blocks).Closed :=
  Program.closed_forM fun indexed _ => closed_applyNodeRegistryRows indexed.1 indexed.2

section

variable {params : ConsensusParams} {Meets : BlockCondition}

private theorem AcceptedBlocks.eval_registryWrites {blocks : List Block} {state : ReplayState}
    (chain : AcceptedBlocks params Meets blocks state) :
    ∃ rows, (registryWrites blocks).eval .empty =
      .ok ((), Store.empty.withRegistry rows) ∧ RowsOf rows state.registry := by
  induction chain with
  | empty => exact ⟨∅, rfl, .empty⟩
  | @extend blocks state state' ctx block fees chain observes accepted _ connected ih =>
    obtain ⟨rows, heval, hrows⟩ := ih
    have hrun := registryRun_of_connected chain.unique observes accepted connected
    obtain ⟨rows', heval', hrows'⟩ :=
      @RegistryRun.eval_rows _ _ _ _ _ _ hrun chain.unique (Store.empty.withRegistry rows) hrows
    refine ⟨rows', ?_, hrows'⟩
    rw [registryWrites, List.zipIdx_append]
    refine Program.eval_forM_append_eq_ok.mpr ⟨_, heval, ?_⟩
    refine Program.eval_andThen_eq_ok.mpr ⟨((), Store.empty.withRegistry rows'), ?_, rfl⟩
    rw [Nat.zero_add]
    exact heval'

/-- **Uniqueness and agreement of the registry.** In the registry of a chain no two records share a
node id, an owner key or a node key; the writes of the same actions to the table return and leave
exactly its records; and the upsert of a further accepted action touches the row of its node
only. -/
theorem registry_unique_and_stored {blocks : List Block} {state : ReplayState}
    (chain : AcceptedBlocks params AnyBlock blocks state) :
    ((state.registry.entries.map NodeRecord.nodeId).Nodup ∧
      (state.registry.entries.map NodeRecord.ownerPubkey).Nodup ∧
      (state.registry.entries.filterMap NodeRecord.nodePubkey).Nodup) ∧
    (∃ log, Commits (registryWrites blocks) .empty (.ok ()) log ∧
      RowsOf (log.headD .empty).nodeRegistry state.registry) ∧
    ∀ (ctx : ValidationContext) (tx : Transaction) (record : NodeRecord)
      (rows : Std.ExtTreeMap PyStr NodeRecord),
      ctx.nodeRegistryView.SameRecords state.registry →
      validateSpecialNodeTransactionStateful tx ctx = .ok () →
      specialNodeRecord tx ctx.height ctx.nodeRegistryView.getByNodeId =
        .ok record →
      RowsOf rows state.registry → upsertNodeRow record rows =
        rows.insert record.nodeId record := by
  have unique := chain.unique
  have hentries : state.registry.entries.Nodup := List.Nodup.of_map _ state.registry.nodup
  refine ⟨⟨state.registry.nodup, ?_, ?_⟩, ?_, ?_⟩
  · exact hentries.map_on fun a ha b hb heq => unique.owner a ha b hb heq
  · -- A record without a node key shares it with none.
    rw [List.Nodup, List.pairwise_filterMap]
    refine hentries.pairwise_of_forall_ne fun a ha b hb hne key hkey key' hkey' heq => hne ?_
    exact unique.nodeKey a ha b hb (by simp [hkey]) (by rw [hkey, hkey', heq])
  · obtain ⟨rows, heval, hrows⟩ := chain.eval_registryWrites
    obtain ⟨log, hcommits, hlast⟩ := (closed_registryWrites blocks).commits_of_eval heval
    refine ⟨log, hcommits, ?_⟩
    rw [hlast]
    exact hrows
  · intro ctx tx record rows hsame hchecks hrecord hrows
    have hunique := unique.congr hsame.symm
    refine (registryAction_of_checks hchecks hrecord).upsertNodeRow_eq hunique fun nodeId => ?_
    rw [hrows nodeId, hsame.getByNodeId]

end

end

namespace SampleRegistry

local instance platform : Platform := samplePlatform []

/-- A first block that registers a node. -/
def genesis : Block := sampleChainBlock zeroHash 0 [sampleRegistration (str "a")]

/-- A block that makes it a reward node and registers a second one. -/
def upgrade : Block :=
  sampleChainBlock genesis.sampleHash 1
    [sampleRewardRegistration (str "a") 20000, sampleRegistration (str "b")]

def afterUpgrade : ReplayState := .after .empty 0 [genesis, upgrade]

/-- Two records, and the writes of both blocks leave them in the table. -/
theorem registry_unique_and_stored_upgrade :
    afterUpgrade.registry.entries.length = 2 ∧
      (afterUpgrade.registry.entries.map NodeRecord.ownerPubkey).Nodup ∧
      ∃ log, Commits (registryWrites [genesis, upgrade]) .empty (.ok ()) log ∧
        RowsOf (log.headD .empty).nodeRegistry afterUpgrade.registry := by
  obtain ⟨hreplayed, hcount⟩ :
      replays AnyBlock sampleParams (str "mainnet") ∅ [genesis, upgrade] ∧
        afterUpgrade.registry.entries.length = 2 := by
    decide +kernel
  have chain : AcceptedBlocks sampleParams AnyBlock [genesis, upgrade] afterUpgrade :=
    .of_replays hreplayed
  have hall := registry_unique_and_stored chain
  exact ⟨hcount, hall.1.2.1, hall.2.1⟩

end SampleRegistry

end Chipcoin
