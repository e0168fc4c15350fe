import Chipcoin.Node.Chain
import Chipcoin.Node.Ready

/-!
# The work of the active chain

`_best_header_needs_blocks` takes a header for better than the active tip when it has more work, or
when it is higher. Both `best_ready_tip` and `activate_best_chain_if_ready` rely on it, so a longer
chain of less work can be activated.

* `SyncStep.tipWork_le`: no step lowers the work of the tip, unless a longer downloaded chain has
  less work.
* `activeWork_monotone`: the same along any interleaving of calls.
-/

namespace Chipcoin

open Checked Database Effect Forest

/-- No downloaded header is higher than the active tip and has less work. -/
def Store.HeightFollowsWork (db : Store) : Prop :=
  ∀ tip, db.getTip = some tip → ∀ (blockHash : PyStr) (row : HeaderRow) (height : ℕ),
    db.headers[blockHash]? = some row → row.height = some height → tip.height < height →
    db.missingBlocksForTip blockHash = .ok [] → db.tipWork ≤ row.cumulativeWork.getD 0

section

variable [Platform] {known : Set BlockHeader} {Fit : List BlockHeader → BlockHeader → Prop}
  {db : Store}

private theorem HeaderTree.tipWork_eq (tree : HeaderTree known Fit db) {tipHash : PyStr}
    {row : HeaderRow} (htip : db.chainTipHash = some tipHash)
    (hrow : db.headers[tipHash]? = some row) :
    db.tipWork = row.cumulativeWork.getD 0 := by
  obtain ⟨height, hget⟩ := tree.getTip_eq htip
  simp [Store.tipWork, hget, Store.getRecord, hrow]

private theorem HeaderTree.missingBlocksForTip_of_ready (tree : HeaderTree known Fit db)
    {blockHash : PyStr} {path above : List PyStr} (ready : db.Ready blockHash path above) :
    db.missingBlocksForTip blockHash = .ok [] := by
  rw [Store.missingBlocksForTip, tree.pathToRoot ready.path_eq, ok_bind, ready.above_eq]
  have hnone : above.filter (fun inner => db.blocks[inner]?.isNone) = [] := by
    refine List.filter_eq_nil_iff.mpr fun inner hinner => ?_
    simpa using ready.bodies inner hinner
  rw [← hnone]
  rfl

/-- The chosen tip has at least the work of the active one. -/
theorem HeaderTree.tipWork_le_chosen {state : SyncState} (tree : HeaderTree known Fit state.store)
    (follows : state.store.HeightFollowsWork) {record : HeaderRecord}
    (chosen : chosenTip state = .ok (some record)) :
    state.store.tipWork ≤ record.row.cumulativeWork.getD 0 := by
  obtain ⟨hrow, hneeds, -⟩ := chosenTip_row chosen
  rw [Store.needsBlocks] at hneeds
  cases htip : state.store.getTip with
  | none => simp [Store.tipWork, htip]
  | some tip =>
    simp only [htip] at hneeds
    split_ifs at hneeds with hsame
    rw [Bool.or_eq_true, decide_eq_true_eq, Option.any_eq_true] at hneeds
    rcases hneeds with hheavier | ⟨height, hheight, hhigher⟩
    · exact hheavier.le
    · -- A higher header that is ready: here the assumption on the tables is needed.
      obtain ⟨path, above, ready, -⟩ := tree.chosenTip_ready chosen
      exact follows tip htip record.blockHash record.row height hrow hheight
        (of_decide_eq_true hhigher) (tree.missingBlocksForTip_of_ready ready)

/-- The work of the tip after it has moved at most to a given header. -/
theorem HeaderTree.tipWork_le_of_tipMove (tree : HeaderTree known Fit db) {db' : Store}
    {tipHash : PyStr} {row : HeaderRow} (move : TipMove db tipHash db')
    (hrow : db.headers[tipHash]? = some row)
    (hle : db.tipWork ≤ row.cumulativeWork.getD 0) : db.tipWork ≤ db'.tipWork := by
  have tree' := tree.tipMove move ⟨row, hrow⟩
  have hwork : ∀ {key : PyStr} {row : HeaderRow}, db'.chainTipHash = some key →
      db.headers[key]? = some row → db'.tipWork = row.cumulativeWork.getD 0 := by
    intro key row htip hrow
    obtain ⟨row', hrow', hcore⟩ := move.keeps_row hrow
    have hsame : row'.cumulativeWork = row.cumulativeWork := congrArg (·.2.2) hcore
    rw [tree'.tipWork_eq htip hrow', hsame]
  rcases move.tip with hsame | hmoved
  · cases htip : db.chainTipHash with
    | none => simp [Store.tipWork, Store.getTip, htip]
    | some key =>
      obtain ⟨tipRow, htipRow⟩ := tree.tip htip
      rw [hwork (hsame.trans htip) htipRow, tree.tipWork_eq htip htipRow]
  · rw [hwork hmoved hrow]
    exact hle

/-! ### Steps -/

variable {manager : SyncManager} {Announced : BlockHeader → Prop} {Received : Block → Prop}

/-- An activation does not lower the work of the tip, where the tables before it allow that. -/
def Activation.KeepsWork (activation : Activation) : Prop :=
  activation.before.HeightFollowsWork → activation.before.tipWork ≤ activation.after.tipWork

private theorem SyncStep.keepsWork (clean : CleanHashes known) {state state' : SyncState}
    (tree : HeaderTree known Fit state.store)
    (step : SyncStep manager Announced Received state state')
    (h : ∀ activation ∈ state.activations, activation.KeepsWork) :
    ∀ activation ∈ state'.activations, activation.KeepsWork := by
  cases step with
  | header => exact h
  | blockHeader => exact h
  | body => exact h
  | remember => exact h
  | take => exact h
  | activate chosen run =>
    intro activation hmem
    rcases List.mem_cons.mp hmem with rfl | hmem
    · intro follows
      have hrow := (chosenTip_row chosen).1
      exact tree.tipWork_le_of_tipMove (tree.of_activation clean hrow run) hrow
        (tree.tipWork_le_chosen follows chosen)
    · exact h activation hmem
  | quarantine => exact h

private theorem SyncRun.keepsWork (clean : CleanHashes known)
    (fits : FitsTree manager Announced Received known Fit) {state state' : SyncState}
    (tree : HeaderTree known Fit state.store)
    (run : SyncRun manager Announced Received state state')
    (h : ∀ activation ∈ state.activations, activation.KeepsWork) :
    ∀ activation ∈ state'.activations, activation.KeepsWork :=
  SyncRun.invariant clean fits tree run (fun tree step => step.keepsWork clean tree) h

/-! ### Calls -/

/-- A call of `activate_best_chain_if_ready` leaves the tables alone, or activates the chosen
tip. -/
theorem activateBestChainIfReady_store (raiseOnInvalid : Bool) (state : SyncState) :
    (after (activateBestChainIfReady manager raiseOnInvalid) state).store = state.store ∨
      ∃ record result log, chosenTip state = .ok (some record) ∧
        Commits (activateChain manager.node (manager.clock state.activations.length)
          record.blockHash) state.store result log ∧
        (after (activateBestChainIfReady manager raiseOnInvalid) state).store =
          log.headD state.store := by
  rw [activateBestChainIfReady, activateBestChainIfReadyWith, after_get_bind]
  cases hchosen : chosenTip state with
  | error error => exact .inl rfl
  | ok chosen =>
    rw [check_ok_bind]
    cases chosen with
    | none => exact .inl rfl
    | some record =>
      obtain ⟨result, log, hrun⟩ := (closed_activateChain manager.node
        (manager.clock state.activations.length) record.blockHash).commits state.store
      refine .inr ⟨record, result, log, rfl, hrun, ?_⟩
      dsimp only
      rw [activateReadyTipWith, after_get_bind, after_tryCatch]
      cases result with
      | ok value =>
        rw [bind_of_ok (activateTip_ok hrun)]
        rfl
      | error error =>
        rw [bind_of_error (activateTip_error hrun)]
        dsimp only
        by_cases hcaught : error.isActivationError
        · rw [if_pos hcaught]
          -- The quarantine is no table.
          refine relates_bind (R := fun a b : SyncState => b.store = a.store)
            (fun _ _ _ h h' => h'.trans h) ?_ fun _ state' _ => ?_
          · rw [quarantine, after_get_bind]
            refine relates_check_bind (R := fun a b : SyncState => b.store = a.store)
              (fun _ => rfl) fun currentPath _ => ?_
            exact relates_check_bind (R := fun a b : SyncState => b.store = a.store)
              (fun _ => rfl) fun readyPath _ => rfl
          · cases raiseOnInvalid <;> rfl
        · rw [if_neg hcaught]
          rfl

/-- **Work monotonicity.** On a node that was empty or had the headers of a snapshot, after any
calls: no activation so far, and no further call of `activate_best_chain_if_ready`, lowers the work
of the active tip, if before it no downloaded header was higher than the tip and had less work. -/
theorem activeWork_monotone (manager : SyncManager) {start : Store} (calls : List Call)
    {known : Set BlockHeader} (clean : CleanHashes known)
      (tables : HeaderTree known AnyHeader start) (hknown : delivered calls ⊆ known) :
    (∀ activation ∈ (manager.runOn start calls).activations, activation.before.HeightFollowsWork →
        activation.before.tipWork ≤ activation.after.tipWork) ∧
      ∀ raiseOnInvalid, (manager.runOn start calls).store.HeightFollowsWork →
        (manager.runOn start calls).store.tipWork ≤
          (manager.call (manager.runOn start calls)
            (.activateBestChainIfReady raiseOnInvalid)).store.tipWork := by
  constructor
  · refine SyncRun.keepsWork clean (fitsTree_anyHeader hknown) tables
      (manager.foldl_call_syncRun calls rfl) ?_
    intro activation hmem
    cases hmem
  · intro raiseOnInvalid follows
    have tree := manager.runOn_headerTree clean tables hknown
    rcases activateBestChainIfReady_store raiseOnInvalid (manager.runOn start calls) with
      hsame | ⟨record, result, log, chosen, run, hstore⟩
    · exact (congrArg Store.tipWork hsame).ge
    · have hrow := (chosenTip_row chosen).1
      have hle := tree.tipWork_le_of_tipMove (tree.of_activation clean hrow run) hrow
        (tree.tipWork_le_chosen follows chosen)
      exact hle.trans (congrArg Store.tipWork hstore).ge

end

namespace SampleWork

local instance platform : Platform := samplePlatform []

def manager : SyncManager := sampleManager

def coinbase (height : ℕ) : Transaction :=
  sampleCoinbase height [{ value := 50, recipient := sampleAddress }]

def genesis : Block := sampleChainBlock zeroHash 0 []

/-- Three quick blocks: the difficulty rises with the second. -/
def quick1 : Block := sampleBlock genesis.sampleHash 0 0x207FFFFF [coinbase 1]

def quick2 : Block := sampleBlock quick1.sampleHash 0 0x201FFFFF [coinbase 2]

def quick3 : Block := sampleBlock quick2.sampleHash 0 0x201FFFFF [coinbase 3]

/-- Three slow blocks of the lowest difficulty. -/
def slow1 : Block := sampleChainBlock genesis.sampleHash 1 []

def slow2 : Block := sampleChainBlock slow1.sampleHash 2 []

def slow3 : Block := sampleChainBlock slow2.sampleHash 3 []

/-- The blocks of both branches, and the header of the third quick block. -/
def calls : List Call :=
  [.receiveBlock genesis, .receiveBlock quick1, .receiveBlock quick2, .receiveBlock slow1,
    .receiveBlock slow2, .receiveBlock slow3, .ingestHeaders [quick3.header]]

/-- **A reorganisation to less work.** All blocks and headers are valid and the second quick block
is active. The best header is that of the third; its path is ready up to the active tip only, and
the slow branch, which is higher, is activated in its place. -/
theorem longer_lighter_activated :
    (manager.runOn .empty calls).store.chainTipHash = some quick2.sampleHash ∧
      (manager.runOn .empty calls).store.tipWork = 12 ∧
      (manager.call (manager.runOn .empty calls)
        (.activateBestChainIfReady true)).store.chainTipHash = some slow3.sampleHash ∧
      (manager.call (manager.runOn .empty calls)
        (.activateBestChainIfReady true)).store.tipWork = 8 ∧
      (manager.call (manager.runOn .empty calls)
        (.activateBestChainIfReady true)).activations.all (·.raised.isNone) := by
  decide +kernel

/-- The quick blocks alone. -/
def quickCalls : List Call :=
  [.receiveBlock genesis, .receiveBlock quick1, .receiveBlock quick2]

private theorem quickCalls_clean : CleanHashes (delivered quickCalls) :=
  cleanHashes_delivered (by decide +kernel)

/-- The condition on the tables, as one check over the rows. -/
def followsCheck (db : Store) : Bool :=
  db.headers.toList.all fun entry =>
    decide (db.tipWork ≤ entry.2.cumulativeWork.getD 0) ||
      db.getTip.all fun tip => entry.2.height.all fun height : ℕ => decide (height ≤ tip.height)

private theorem heightFollowsWork_of_check {db : Store} (h : followsCheck db = true) :
    db.HeightFollowsWork := by
  intro tip htip blockHash row height hrow hheight hhigher _
  have hentry := List.all_eq_true.mp h (blockHash, row)
    (Std.ExtTreeMap.mem_toList_iff_getElem?_eq_some.mpr hrow)
  rw [htip, Option.all_some, hheight, Option.all_some, Bool.or_eq_true, decide_eq_true_eq,
    decide_eq_true_eq] at hentry
  exact hentry.resolve_right (by omega)

private theorem exists_checked {activations : List Activation} {key : PyStr}
    (h : (activations.any fun activation =>
      decide (activation.tipHash = key) && followsCheck activation.before) = true) :
    ∃ activation ∈ activations, activation.tipHash = key ∧
      activation.before.HeightFollowsWork := by
  obtain ⟨activation, hmem, hcheck⟩ := List.any_eq_true.mp h
  obtain ⟨hhash, hfollows⟩ := Bool.and_eq_true_iff.mp hcheck
  exact ⟨activation, hmem, of_decide_eq_true hhash, heightFollowsWork_of_check hfollows⟩

/-- The activation of the second quick block is one that the tables allow. -/
theorem activeWork_monotone_quick :
    ∃ activation ∈ (manager.runOn .empty quickCalls).activations,
      activation.tipHash = quick2.sampleHash ∧ activation.before.HeightFollowsWork ∧
        activation.before.tipWork ≤ activation.after.tipWork := by
  obtain ⟨activation, hmem, hhash, hfollows⟩ := exists_checked
    (show ((manager.runOn .empty quickCalls).activations.any fun activation =>
      decide (activation.tipHash = quick2.sampleHash) && followsCheck activation.before) = true by
        decide +kernel)
  exact ⟨activation, hmem, hhash, hfollows,
    (activeWork_monotone manager quickCalls quickCalls_clean HeaderTree.empty
      (Set.Subset.refl _)).1 activation hmem hfollows⟩

end SampleWork

end Chipcoin
