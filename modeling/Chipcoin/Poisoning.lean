import Chipcoin.Consensus.Acceptance
import Chipcoin.Node.Chain
import Chipcoin.Node.SyncRun

/-!
# Bodies in the block store

The hash of a block covers its header only. `receive_block` stores a body before it is checked
against the Merkle root of the header, and it does not look at a body whose hash is stored already.
So the first body that arrives for a header stays, and a valid one that comes later is dropped.

* `SyncRun.keeps_body`: a stored body is never replaced.
* `receiveBlock_stores`: a body that arrives for a free hash under a known parent is stored.
* `body_kept_iff`: a valid block is kept exactly when no other body was there before it.
-/

namespace Chipcoin

open Checked Database Effect

variable {block : Block} {blockHash key : PyStr} {bytes : Bytes} {state state' : SyncState}

section

variable [Platform] {manager : SyncManager} {Announced : BlockHeader → Prop}
  {Received : Block → Prop} {known : Set BlockHeader}
  {Fit : List BlockHeader → BlockHeader → Prop}

/-! ### Bodies stay -/

/-- **One step** leaves every stored body as it is. -/
theorem SyncStep.keeps_body (clean : CleanHashes known) (tree : HeaderTree known Fit state.store)
    (step : SyncStep manager Announced Received state state')
    (hbody : state.store.blocks[key]? = some block) : state'.store.blocks[key]? = some block := by
  cases step with
  | header => exact hbody
  | blockHeader => exact hbody
  | body _ _ absent _ =>
    -- A body is stored for a hash that has none.
    dsimp only [Store.insertBody]
    rw [Table.getElem?_insert]
    split_ifs with heq
    · rw [heq, absent] at hbody
      cases hbody
    · exact hbody
  | remember => exact hbody
  | take => exact hbody
  | activate chosen run =>
    have move := tree.of_activation clean (chosenTip_row chosen).1 run
    rw [move.blocks]
    exact hbody
  | quarantine => exact hbody

/-- **A run** leaves every stored body as it is. -/
theorem SyncRun.keeps_body (clean : CleanHashes known)
    (fits : FitsTree manager Announced Received known Fit) (tree : HeaderTree known Fit state.store)
    (run : SyncRun manager Announced Received state state')
    (hbody : state.store.blocks[key]? = some block) : state'.store.blocks[key]? = some block :=
  SyncRun.invariant clean fits tree run (fun tree step => step.keeps_body clean tree) hbody

/-! ### A body for a free hash -/

/-- A parent that is stored gives its children a height. -/
theorem HeaderTree.heightUnder {db : Store} (tree : HeaderTree known Fit db) {parentHash : PyStr}
    (hparent : parentHash = zeroHash ∨ ∃ row, db.headers[parentHash]? = some row) :
    ∃ height, heightUnder (db.parentRecord parentHash) = .ok height := by
  rw [Store.parentRecord]
  split_ifs with hzero
  · exact ⟨0, rfl⟩
  · obtain ⟨row, hrow⟩ := hparent.resolve_left hzero
    obtain ⟨height, hheight, -⟩ := tree.exists_height hrow
    refine ⟨height + 1, ?_⟩
    simp only [Store.getRecord, hrow, Option.map_some, Chipcoin.heightUnder, hheight, orRaise,
      ok_bind]
    rfl

private theorem storeBlock_ok (tree : HeaderTree known Fit state.store) {work : ℕ}
    (hhash : block.blockHash = .ok blockHash) (hbytes : serializeBlock block = .ok bytes)
    (hwork : headerWork block.header = .ok work)
    (hparent : block.header.previousBlockHash = zeroHash ∨
      ∃ row, state.store.headers[block.header.previousBlockHash]? = some row) :
    ∃ state', storeBlock block blockHash
        (state.store.parentRecord block.header.previousBlockHash) state = .ok () state' ∧
      state'.store.blocks[blockHash]? = some block := by
  obtain ⟨middle, hheader⟩ : ∃ middle, storeBlockHeader block blockHash
      (state.store.parentRecord block.header.previousBlockHash) state = .ok () middle := by
    rw [storeBlockHeader, get_bind_apply]
    split_ifs with hknown
    · exact ⟨state, rfl⟩
    · obtain ⟨height, hheight⟩ := tree.heightUnder hparent
      rw [hheight, workUnder, hwork]
      exact ⟨_, callNode_ok (commits_putHeader hhash _ _ _ _)⟩
  rw [storeBlock, bind_of_ok hheader]
  rcases commits_putBlock hhash middle.store with ⟨_, -, hput⟩ | ⟨error, herror, -⟩
  · refine ⟨_, callNode_ok hput, ?_⟩
    exact (Table.getElem?_insert _ blockHash blockHash _).trans (if_pos rfl)
  · rw [hbytes] at herror
    cases herror

/-- **A body for a free hash** under a known parent is stored, whatever happens afterwards. -/
theorem receiveBlock_stores (clean : CleanHashes known)
    (fits : FitsTree manager Announced Received known Fit) (tree : HeaderTree known Fit state.store)
    (orphans : OrphansReceived Received state) {work : ℕ} (hreceived : Received block)
    (hhash : block.blockHash = .ok blockHash) (hbytes : serializeBlock block = .ok bytes)
    (hwork : headerWork block.header = .ok work)
    (hparent : block.header.previousBlockHash = zeroHash ∨
      ∃ row, state.store.headers[block.header.previousBlockHash]? = some row)
    (hfree : state.store.blocks[blockHash]? = none) :
    (after (receiveBlock manager block) state).store.blocks[blockHash]? = some block := by
  obtain ⟨stored, hstore, hbody⟩ := storeBlock_ok tree hhash hbytes hwork hparent
  have hhave : ¬ (block.header.previousBlockHash ≠ zeroHash ∧
      (state.store.parentRecord block.header.previousBlockHash).isNone) := by
    rintro ⟨hinner, hnone⟩
    obtain ⟨row, hrow⟩ := hparent.resolve_left hinner
    simp [Store.parentRecord, hinner, Store.getRecord, hrow] at hnone
  have hafter : after (receiveBlock manager block) state =
      after (finishBlock manager (receiveBlockLoop manager state.orphanBlocks.length) blockHash)
        stored := by
    rw [receiveBlock, after_get_bind, receiveBlockLoop, receiveBlockWith, hhash, check_ok_bind,
      after_get_bind]
    rw [if_neg (by simp [hfree]), if_neg hhave, after_bind, hstore]
    rfl
  -- Storing the block keeps the orphans, and everything after it consists of steps.
  have hbefore : SyncRun manager Announced Received state (after (storeBlock block blockHash
      (state.store.parentRecord block.header.previousBlockHash)) state) :=
    storeBlock_follows hreceived hhash hfree hparent orphans
  rw [after, hstore] at hbefore
  have hrest : SyncRun manager Announced Received stored (after (finishBlock manager
      (receiveBlockLoop manager state.orphanBlocks.length) blockHash) stored) :=
    finishBlock_follows (fun hchild => receiveBlockLoop_follows _ hchild) blockHash stored
      (SyncRun.orphansReceived hbefore orphans)
  rw [hafter]
  exact SyncRun.keeps_body clean fits (SyncRun.headerTree clean fits hbefore tree) hrest hbody

/-! ### Valid blocks -/

private theorem BlockChecks.headerWork {ctx : ValidationContext} {coinbase : Transaction}
    {rest : List Transaction} {stage : Stage} (checks : BlockChecks block ctx coinbase rest stage) :
    ∃ work, headerWork block.header = .ok work := by
  obtain ⟨target, htarget, -⟩ := bind_eq_ok.mp checks.proofOfWork
  exact ⟨_, by rw [Chipcoin.headerWork, htarget]; rfl⟩

/-- **No body poisoning.** A valid block is delivered when its parent is known. Whatever calls come
before and after it, its body is kept exactly when no other body was stored under its hash. -/
theorem body_kept_iff (manager : SyncManager) (calls later : List Call) {block : Block}
    {blockHash : PyStr} {bytes : Bytes} {ctx : ValidationContext} {fees : Int}
    (clean : CleanHashes (delivered (calls ++ .receiveBlock block :: later)))
    (hhash : block.blockHash = .ok blockHash) (hbytes : serializeBlock block = .ok bytes)
    (accepted : validateBlock block ctx = .ok fees)
    (hparent : block.header.previousBlockHash = zeroHash ∨
      ∃ row, (manager.run calls).store.headers[block.header.previousBlockHash]? = some row) :
    (manager.run (calls ++ .receiveBlock block :: later)).store.blocks[blockHash]? = some block ↔
      ∀ other, (manager.run calls).store.blocks[blockHash]? = some other → other = block := by
  set all := calls ++ .receiveBlock block :: later with hall
  have fits : FitsTree manager (AnnouncedIn all) (ReceivedIn all) (delivered all) AnyHeader :=
    fitsTree_anyHeader (Set.Subset.refl _)
  have hcalls : ∀ call ∈ calls, call ∈ all := by
    intro call hmem
    simp [hall, hmem]
  have hlater : ∀ call ∈ later, call ∈ all := by
    intro call hmem
    simp [hall, hmem]
  have hreceived : ReceivedIn all block := by simp [ReceivedIn, hall]
  -- The states before and after the delivery.
  have orphans : OrphansReceived (ReceivedIn all) SyncState.empty := orphansReceived_nil rfl
  have hbefore : SyncRun manager (AnnouncedIn all) (ReceivedIn all) .empty (manager.run calls) :=
    SyncManager.foldl_call_follows _ hcalls orphans
  have hdeliver : SyncRun manager (AnnouncedIn all) (ReceivedIn all) (manager.run calls)
      (after (receiveBlock manager block) (manager.run calls)) :=
    receiveBlock_follows hreceived _ (SyncRun.orphansReceived hbefore orphans)
  have hafter : SyncRun manager (AnnouncedIn all) (ReceivedIn all)
      (after (receiveBlock manager block) (manager.run calls)) (manager.run all) := by
    have hrun : manager.run all =
        later.foldl manager.call (after (receiveBlock manager block) (manager.run calls)) := by
      rw [hall, SyncManager.run, List.foldl_append, List.foldl_cons]
      rfl
    rw [hrun]
    exact SyncManager.foldl_call_follows _ hlater
      (SyncRun.orphansReceived (hbefore.trans hdeliver) orphans)
  have tree := SyncRun.headerTree clean fits hbefore HeaderTree.empty
  constructor
  · intro hkept other hother
    have hstays := SyncRun.keeps_body clean fits tree (hdeliver.trans hafter) hother
    exact Option.mem_unique hstays hkept
  · intro hfree
    cases hstored : (manager.run calls).store.blocks[blockHash]? with
    | none =>
      obtain ⟨coinbase, rest, stage, checks, -⟩ := validateBlock_ok accepted
      obtain ⟨work, hwork⟩ := checks.headerWork
      have hbody := receiveBlock_stores clean fits tree
        (SyncRun.orphansReceived hbefore orphans) hreceived hhash hbytes hwork hparent hstored
      exact SyncRun.keeps_body clean fits (SyncRun.headerTree clean fits hdeliver tree) hafter hbody
    | some other =>
      obtain rfl := hfree other hstored
      exact SyncRun.keeps_body clean fits tree (hdeliver.trans hafter) hstored

end

/-! ### A poisoned hash -/

namespace SamplePoisoning

local instance platform : Platform := samplePlatform []

def manager : SyncManager := sampleManager

def genesis : Block := sampleChainBlock zeroHash 0 []

def honest : Block := sampleChainBlock genesis.sampleHash 1 []

/-- The header of the honest block over no transactions. -/
def poison : Block := { honest with transactions := [] }

/-- The context of the honest block on its path. -/
def ctx : ValidationContext :=
  (ReplayState.empty.next genesis 0).context sampleParams (str "mainnet") 1 genesis.sampleHash ∅

/-- The honest block and the bodies that are stored, evaluated. -/
theorem bodies_evaluated :
    ((validateBlock honest ctx).toOption = some 0 ∧ honest.blockHash.toOption.isSome ∧
      (serializeBlock honest).toOption.isSome) ∧
    (manager.run [.receiveBlock genesis, .receiveBlock poison,
      .receiveBlock honest]).store.blocks[honest.sampleHash]? = some poison ∧
    ((manager.run [.receiveBlock genesis]).store.blocks[honest.sampleHash]? = none ∧
      (manager.run [.receiveBlock genesis]).store.headers[
        honest.header.previousBlockHash]?.isSome) := by
  decide +kernel

/-- **A valid body is dropped.** The body that came first is kept, though it does not have the
Merkle root of its header, and the valid one is not stored. -/
theorem poisoned_body_stays :
    validateBlock honest ctx = .ok 0 ∧ poison.header = honest.header ∧ poison ≠ honest ∧
      (manager.run [.receiveBlock genesis, .receiveBlock poison,
        .receiveBlock honest]).store.blocks[honest.sampleHash]? = some poison := by
  obtain ⟨⟨haccepted, -, -⟩, hpoisoned, -⟩ := bodies_evaluated
  refine ⟨eq_ok_of_toOption haccepted, rfl, ?_, hpoisoned⟩
  intro hsame
  have hcount : poison.transactions.length = honest.transactions.length := by rw [hsame]
  exact absurd hcount (by decide)

private theorem clean_honest :
    CleanHashes (delivered ([.receiveBlock genesis] ++ [.receiveBlock honest])) :=
  cleanHashes_delivered (by decide +kernel)

/-- When nothing else was delivered, the valid body is there. -/
theorem body_kept_honest :
    (∀ other, (manager.run [.receiveBlock genesis]).store.blocks[honest.sampleHash]? =
        some other → other = honest) ∧
      (manager.run ([.receiveBlock genesis] ++
        [.receiveBlock honest])).store.blocks[honest.sampleHash]? = some honest := by
  obtain ⟨⟨haccepted, hhash, hbytes⟩, -, hfree, hparent⟩ := bodies_evaluated
  have hnone : ∀ other, (manager.run [.receiveBlock genesis]).store.blocks[honest.sampleHash]? =
      some other → other = honest := by
    intro other hother
    rw [hfree] at hother
    cases hother
  have hhash : honest.blockHash = .ok honest.sampleHash := eq_ok_getD hhash
  have hbytes : serializeBlock honest = .ok _ := @eq_ok_getD _ _ _ [] hbytes
  have hkept := body_kept_iff manager [.receiveBlock genesis] [] clean_honest hhash
    hbytes (eq_ok_of_toOption haccepted) (.inr (Option.isSome_iff_exists.mp hparent))
  exact ⟨hnone, hkept.mpr hnone⟩

end SamplePoisoning

end Chipcoin
