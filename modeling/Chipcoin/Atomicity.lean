import Chipcoin.Consensus.Acceptance
import Chipcoin.Node.Frame
import Chipcoin.Storage.Path

/-!
# Faults during a chain update

`apply_block` and `activate_chain` put all their writes into one transaction block. Entering such a
block opens no transaction, so on an idle connection every repository method inside commits on its
own, and a fault can leave the tables between two of these commits. The writes come in three groups:
rows of the block or branch, then the tip, then the mempool pass. Only the second group moves the
recorded tip, which tells the stores before it from those after it.

* `atomic_applyBlock_iff`, `atomic_activateBranch_iff`: when a call is atomic on an idle connection.
* `chainWrites_atomic_iff`: both calls, on any connection.
-/

namespace Chipcoin

open Checked Database

variable {db : Store} {tipHash : PyStr}

/-! ### The tip -/

/-- The tables after `set_tip`. -/
def Store.withTip (db : Store) (blockHash : PyStr) (height : ℕ) : Store :=
  { db with
    chainTipHash := some blockHash
    headers := db.headers.modify blockHash fun row =>
      { row with height := some height, isMainChain := true } }

/-- The tables after `set_main_chain`. -/
def Store.withMainChain (db : Store) (pathHashes : List PyStr) (tipHash : PyStr) : Store :=
  { db with
    headers := markMainChain pathHashes db.headers
    chainTipHash := some tipHash }

private theorem commits_setTip (db : Store) (blockHash : PyStr) (height : ℕ) :
    Commits (setTip blockHash height) db (.ok ()) [db.withTip blockHash height] :=
  commits_transact_write (fun db => .ok { db with chainTipHash := some blockHash })
    (update fun db => { db with
      headers := db.headers.modify blockHash fun row =>
        { row with height := some height, isMainChain := true } }) db

private theorem commits_setMainChain (db : Store) {pathHashes : List PyStr}
    (hlast : pathHashes.getLast? = some tipHash) :
    Commits (setMainChain pathHashes) db (.ok ())
      [db.withMainChain pathHashes tipHash] := by
  rw [setMainChain, hlast]
  exact commits_transact_write
    (fun db => .ok { db with headers := markMainChain pathHashes db.headers })
    (update fun db => { db with chainTipHash := some tipHash }) db

private theorem Store.getTip_chainTipHash {tip : ChainTip} (h : db.getTip = some tip) :
    db.chainTipHash = some tip.blockHash := by
  simp only [getTip, Option.bind_eq_bind, Option.bind_eq_some_iff] at h
  obtain ⟨blockHash, hhash, row, -, height, -, h⟩ := h
  cases h
  exact hhash

section

variable [Platform]

/-! ### One block -/

/-- The rows of the block are in the tables already, and the mempool pass after it has nothing to
do. -/
def BlockInPlace (node : Node) (clock : ℕ → Int) (db : Store) (block : Block) : Prop :=
  Quiet (blockRows block db.nextHeight db.tipWork) db ∧
    (Still (blockRows block db.nextHeight db.tipWork) db →
      ∀ blockHash, block.blockHash = .ok blockHash →
        Still (reconcile node clock []) (db.withTip blockHash db.nextHeight))

/-- The condition can be read off two executions. -/
theorem BlockInPlace.of_exec {node : Node} {clock : ℕ → Int} {block : Block} {blockHash : PyStr}
    (hhash : block.blockHash = .ok blockHash)
    (hrows : ∀ written ∈ (exec (blockRows block db.nextHeight db.tipWork)
      { committed := db }).2.history, written = db)
    (hreturned : (exec (reconcile node clock [])
      { committed := db.withTip blockHash db.nextHeight }).1.IsReturned)
    (hpass : ∀ written ∈ (exec (reconcile node clock [])
      { committed := db.withTip blockHash db.nextHeight }).2.history,
      written = db.withTip blockHash db.nextHeight) :
    BlockInPlace node clock db block := by
  refine ⟨quiet_of_exec (closed_blockRows ..) hrows, fun _ other hother => ?_⟩
  obtain rfl : blockHash = other := by rw [hhash] at hother; exact Except.ok.inj hother
  exact still_of_exec (closed_reconcile ..) hreturned hpass

/-- The block is refused, or it is in place. -/
def AppliesAtOnce (node : Node) (clock : ℕ → Int) (db : Store) (block : Block) : Prop :=
  ∀ ctx, applyBlockContext node.toNodeConfig db = .ok ctx →
    ∀ fees, validateBlock block ctx = .ok fees → BlockInPlace node clock db block

theorem verifyProofOfWork_blockHash {header : BlockHeader} {valid : Bool}
    (h : verifyProofOfWork header = .ok valid) : ∃ blockHash, header.blockHash = .ok blockHash := by
  obtain ⟨target, -, h⟩ := bind_eq_ok.mp h
  obtain ⟨bytes, hbytes, -⟩ := bind_eq_ok.mp h
  exact ⟨doubleSha256Hex bytes, by rw [BlockHeader.blockHash, hbytes]; rfl⟩

/-- **Atomicity of `apply_block`** on an idle connection, for a block that is not the recorded
tip. -/
theorem atomic_applyBlock_iff (node : Node) (clock : ℕ → Int) {block : Block}
    (hnew : ∀ blockHash, block.blockHash = .ok blockHash → db.chainTipHash ≠ some blockHash) :
    Atomic (applyBlock node clock block) { committed := db } ↔
      AppliesAtOnce node clock db block := by
  rw [applyBlock, AppliesAtOnce, atomic_get_bind, atomic_ofExcept_bind]
  refine forall_congr' fun ctx => imp_congr_right fun _ => ?_
  rw [atomic_ofExcept_bind]
  refine forall_congr' fun fees => imp_congr_right fun haccepted => ?_
  obtain ⟨coinbase, rest, stage, checks, -⟩ := validateBlock_ok haccepted
  obtain ⟨blockHash, hhash⟩ := verifyProofOfWork_blockHash checks.proofOfWork
  have hblockHash : block.blockHash = .ok blockHash := hhash
  have hrows := closed_blockRows block db.nextHeight db.tipWork
  have hrest := closed_reconcile node clock []
  rw [atomic_bind_pure (Program.closed_transact _), hblockHash, atomic_transact_iff]
  · refine (atomic_marked_iff hrows hrest (fun start => commits_setTip start blockHash _)
      (fun _ => rfl) (preserves_blockRows (rowInvariant_chainTipHash db.chainTipHash)
        (fun _ _ _ _ _ h => h) fun _ _ _ h => h)
      (preserves_reconcile (fun _ _ h => h) ..) (hnew blockHash hblockHash)).trans ?_
    simp only [BlockInPlace, hblockHash, Except.ok.injEq, forall_eq']
  · exact hrows.bind fun _ => (Program.closed_transact _).bind fun _ => hrest

/-! ### A branch -/

/-- The replayed rows are in the tables already, and the mempool pass after the switch has nothing
to do. -/
def BranchInPlace (node : Node) (clock : ℕ → Int) (db : Store) (tipHash : PyStr)
    (plan : BranchPlan) : Prop :=
  Quiet (branchRows plan.branch.state) db ∧
    (Still (branchRows plan.branch.state) db →
      Still (reconcile node clock (plan.disconnected db))
        (db.withMainChain plan.pathHashes tipHash))

private theorem BranchInPlace.of_exec {node : Node} {clock : ℕ → Int} {plan : BranchPlan}
    (hrows : ∀ written ∈ (exec (branchRows plan.branch.state) { committed := db }).2.history,
      written = db)
    (hreturned : (exec (reconcile node clock (plan.disconnected db))
      { committed := db.withMainChain plan.pathHashes tipHash }).1.IsReturned)
    (hpass : ∀ written ∈ (exec (reconcile node clock (plan.disconnected db))
      { committed := db.withMainChain plan.pathHashes tipHash }).2.history,
      written = db.withMainChain plan.pathHashes tipHash) :
    BranchInPlace node clock db tipHash plan :=
  ⟨quiet_of_exec (closed_branchRows ..) hrows,
    fun _ => still_of_exec (closed_reconcile ..) hreturned hpass⟩

/-- **Atomicity of a branch switch** on an idle connection. -/
theorem atomic_activateBranch_iff (node : Node) (clock : ℕ → Int) (hne : tipHash ≠ [])
    (hnew : db.chainTipHash ≠ some tipHash) :
    Atomic (activateBranch node clock tipHash) { committed := db } ↔
      ∀ plan, planBranch node.toNodeConfig db tipHash = .ok plan →
        BranchInPlace node clock db tipHash plan := by
  rw [activateBranch, atomic_get_bind, atomic_ofExcept_bind]
  refine forall_congr' fun plan => imp_congr_right fun hplan => ?_
  have hlast := Store.getLast?_pathToRoot (planBranch_ok hplan).1 hne
  have hrows := closed_branchRows plan.branch.state
  have hrest := closed_reconcile node clock (plan.disconnected db)
  rw [atomic_bind_pure (Program.closed_transact _), atomic_transact_iff]
  · exact atomic_marked_iff hrows hrest (fun start => commits_setMainChain start hlast)
      (fun _ => rfl) (preserves_branchRows (rowInvariant_chainTipHash db.chainTipHash) ..)
      (preserves_reconcile (fun _ _ h => h) ..) hnew
  · exact hrows.bind fun _ => (Program.closed_transact _).bind fun _ => hrest

/-- The branch is refused, or it is in place. -/
def ActivatesAtOnce (node : Node) (clock : ℕ → Int) (db : Store) (tipHash : PyStr) : Prop :=
  if db.extendsTip tipHash then
    ∀ block, db.blocks[tipHash]? = some block → AppliesAtOnce node clock db block
  else ∀ plan, planBranch node.toNodeConfig db tipHash = .ok plan →
    BranchInPlace node clock db tipHash plan

/-- **Atomicity of `activate_chain`** on an idle connection. -/
theorem atomic_activateChain_iff (node : Node) (clock : ℕ → Int) (hne : tipHash ≠ [])
    (hnew : db.chainTipHash ≠ some tipHash)
    (hstored : ∀ block, db.blocks[tipHash]? = some block → block.blockHash = .ok tipHash) :
    Atomic (activateChain node clock tipHash) { committed := db } ↔
      ActivatesAtOnce node clock db tipHash := by
  have hmoves : db.getTip.map (·.blockHash) ≠ some tipHash := by
    intro h
    obtain ⟨tip, htip, rfl⟩ := Option.map_eq_some_iff.mp h
    exact hnew (Store.getTip_chainTipHash htip)
  rw [activateChain, atomic_get_bind, if_neg hmoves, ActivatesAtOnce]
  split_ifs with hextends
  · rw [atomic_ofExcept_bind]
    refine forall_congr' fun block => ?_
    rw [orRaise_eq_ok]
    refine imp_congr_right fun hblock => ?_
    rw [atomic_bind_pure (closed_applyBlock node clock block)]
    refine atomic_applyBlock_iff node clock fun blockHash hhash => ?_
    rw [hstored block hblock] at hhash
    exact Except.ok.inj hhash ▸ hnew
  · exact atomic_activateBranch_iff node clock hne hnew

/-! ### Both calls -/

/-- **Chain updates under faults.** A fault during `apply_block` or `activate_chain` leaves the
tables as they were or as the completed call leaves them exactly when a transaction was open before
the call, or the candidate is refused before the first write, or all the rows it would write before
moving the tip are in place already and the mempool pass has nothing to do. The block is not the
recorded tip, and bodies are stored under their hash. -/
theorem chainWrites_atomic_iff (node : Node) (clock : ℕ → Int) (db : Store)
    (pending : Option Store) :
    (∀ block,
      (∀ blockHash, block.blockHash = .ok blockHash → db.chainTipHash ≠ some blockHash) →
        (Atomic (applyBlock node clock block) { committed := db, pending := pending } ↔
          pending.isSome ∨ AppliesAtOnce node clock db block)) ∧
      ∀ tipHash, tipHash ≠ [] → db.chainTipHash ≠ some tipHash →
        (∀ block, db.blocks[tipHash]? = some block → block.blockHash = .ok tipHash) →
          (Atomic (activateChain node clock tipHash) { committed := db, pending := pending } ↔
            pending.isSome ∨ ActivatesAtOnce node clock db tipHash) := by
  cases pending with
  | some view =>
    have hopen : ∀ {α : Type} (program : Db α),
        Atomic program { committed := db, pending := some view } :=
      fun program => atomic_of_pending program rfl
    exact ⟨fun _ _ => iff_of_true (hopen _) (.inl rfl),
      fun _ _ _ _ => iff_of_true (hopen _) (.inl rfl)⟩
  | none =>
    refine ⟨fun block hnew => ?_, fun tipHash hne hnew hstored => ?_⟩
    · exact (atomic_applyBlock_iff node clock hnew).trans (by simp)
    · exact (atomic_activateChain_iff node clock hne hnew hstored).trans (by simp)

end

namespace SampleFault

local instance platform : Platform := samplePlatform []

def node : Node where
  params := sampleParams
  network := str "mainnet"

/-- A clock that stands still. -/
def clock : ℕ → Int := fun _ => 0

/-- A first block that pays the subsidy. -/
def genesis : Block :=
  sampleBlock zeroHash 0 0x207FFFFF
    [sampleCoinbase 0 [{ value := 50, recipient := str "miner" }]]

def genesisHash : PyStr := genesis.blockHash.toOption.getD []

/-- A node that has the block and its header and no chain yet. -/
def downloaded : Store :=
  (exec (do putHeader genesis.header (some 0) (some 2) false; putBlock genesis)
    { committed := Store.empty }).2.committed

/-- The tables after the process has stopped at a statement of `apply_block`. -/
def stoppedApply (statements : ℕ) : Store :=
  (exec (applyBlock node clock genesis)
    (Connection.withFault { committed := Store.empty } statements .stop)).2.committed

/-- The tables after the process has stopped at a statement of `activate_chain`. -/
def stoppedActivate (statements : ℕ) : Store :=
  (exec (activateChain node clock genesisHash)
    (Connection.withFault { committed := downloaded } statements .stop)).2.committed

/-- Before the statement that moves the tip, the outputs of the block are already committed: the
unspent outputs are those of a block above the recorded chain. -/
theorem stoppedUpdates_not_atomic :
    ((stoppedApply 3).utxos.size = 1 ∧ (stoppedApply 3).chainTipHash = none ∧
      ¬ Atomic (applyBlock node clock genesis) { committed := Store.empty }) ∧
    ((stoppedActivate 2).utxos.size = 1 ∧ (stoppedActivate 2).chainTipHash = none ∧
      ¬ Atomic (activateChain node clock genesisHash) { committed := downloaded }) := by
  refine ⟨⟨?_, ?_, not_atomic_of_fault 3 .stop ?_ ?_⟩, ?_, ?_,
    not_atomic_of_fault 2 .stop ?_ ?_⟩
  all_goals decide +kernel

/-- On the tables that the interrupted call has left, both calls are atomic: only the tip is
missing. -/
theorem chainWrites_atomic_restart :
    Atomic (applyBlock node clock genesis) { committed := stoppedApply 3 } ∧
      Atomic (activateChain node clock genesisHash) { committed := stoppedApply 3 } := by
  obtain ⟨happly, hactivate⟩ := chainWrites_atomic_iff node clock (stoppedApply 3) none
  have hhash : genesis.blockHash = .ok genesisHash := by decide +kernel
  have htip : (stoppedApply 3).chainTipHash = none := by decide +kernel
  have hnew : ∀ blockHash, (stoppedApply 3).chainTipHash ≠ some blockHash := by
    intro blockHash h
    rw [htip] at h
    cases h
  refine ⟨(happly genesis fun blockHash _ => hnew blockHash).mpr (.inr ?_),
    (hactivate genesisHash (by decide +kernel) (hnew genesisHash) ?_).mpr (.inr ?_)⟩
  · intro ctx _ fees _
    exact .of_exec hhash (by decide +kernel) (by decide +kernel) (by decide +kernel)
  · have hstored : ((stoppedApply 3).blocks[genesisHash]?.all
        fun block => block.blockHash = .ok genesisHash) = true := by decide +kernel
    intro block hblock
    simpa [hblock] using hstored
  · rw [ActivatesAtOnce, if_neg (by decide +kernel)]
    intro plan hplan
    -- The plan is computed, so what has to be checked about it is evaluated.
    have hquiet : (planBranch node.toNodeConfig (stoppedApply 3) genesisHash).toOption.all
        (fun plan => (exec (branchRows plan.branch.state)
          { committed := stoppedApply 3 }).2.history.all (· = stoppedApply 3)) = true := by
      decide +kernel
    have hstill : (planBranch node.toNodeConfig (stoppedApply 3) genesisHash).toOption.all
        (fun plan =>
          let after := (stoppedApply 3).withMainChain plan.pathHashes genesisHash
          let pass := exec (reconcile node clock (plan.disconnected (stoppedApply 3)))
            { committed := after }
          pass.1.IsReturned ∧ pass.2.history.all (· = after)) = true := by
      decide +kernel
    simp only [hplan, Except.toOption, Option.all_some, decide_eq_true_eq, List.all_eq_true]
      at hquiet hstill
    exact .of_exec hquiet hstill.1 hstill.2

end SampleFault

end Chipcoin
