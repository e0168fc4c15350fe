import Chipcoin.Node.HeaderTree

/-!
# Runs of the sync manager

Every method of the sync manager is a sequence of a few kinds of change to its state, whether it
returns or raises. `SyncStep` lists them with what holds when they happen; invariants of the manager
are proved for these steps and hold in every state it reaches.

* `SyncStep`, `SyncRun`: one change, and any number of them.
* `ingestHeaders_run`, `receiveBlock_run`, `activateBestChainIfReady_run`: the methods.
* `Call`, `SyncManager.run`: any interleaving of calls from an empty node.
-/

namespace Chipcoin

open Checked Database Effect

variable {block : Block} {blockHash tipHash : PyStr} {calls : List Call} {header : BlockHeader}
  {log : List Store} {state state' : SyncState} {db : Store} {α : Type} {program : Db α}
  {parentHash : PyStr} {error : PyError} {record : HeaderRecord}
  {receive : Block → Sync BlockIngestResult} {orphans : List (PyStr × List (PyStr × Block))}

/-! ### Calls of the node -/

theorem callNode_ok {value : α} (h : Commits program state.store (.ok value) log) :
    callNode program state = .ok value { state with store := log.headD state.store } := by
  rw [callNode, h [], ← Connection.committed_advance]
  rfl

private theorem callNode_error (h : Commits program state.store (.error error) log) :
    callNode program state = .error error { state with store := log.headD state.store } := by
  rw [callNode, h [], ← Connection.committed_advance]
  rfl

theorem getRecord_eq_none (h : ¬ (db.getRecord blockHash).isSome) :
    db.headers[blockHash]? = none := by
  simpa [Store.getRecord] using h

/-- The parent of a header is known unless its record is missing. -/
theorem parent_known (h : ¬ (parentHash ≠ zeroHash ∧ (db.parentRecord parentHash).isNone)) :
    parentHash = zeroHash ∨ ∃ row, db.headers[parentHash]? = some row := by
  by_cases hzero : parentHash = zeroHash
  · exact .inl hzero
  · refine .inr (Option.isSome_iff_exists.mp ?_)
    simpa [hzero, Store.parentRecord, Store.getRecord, ← Option.isSome_iff_ne_none] using h

theorem chosenTip_row (h : chosenTip state = .ok (some record)) :
    state.store.headers[record.blockHash]? = some record.row ∧
      state.store.needsBlocks record ∧
      state.store.bestReadyTip state.invalidActivationTips = .ok (some record.blockHash) := by
  rw [chosenTip] at h
  split at h
  · cases h
  split_ifs at h with hbest
  · cases h
  obtain ⟨ready, hready, h⟩ := bind_eq_ok.mp h
  have hchosen := Except.ok.inj h
  simp only [Option.bind_eq_bind, Option.bind_eq_some_iff] at hchosen
  obtain ⟨readyTip, rfl, hchosen⟩ := hchosen
  split_ifs at hchosen with hinvalid
  obtain ⟨found, hfound, hchosen⟩ := Option.bind_eq_some_iff.mp hchosen
  split_ifs at hchosen with hneeds
  obtain rfl := Option.some.inj hchosen
  obtain ⟨row, hrow, rfl⟩ := Option.map_eq_some_iff.mp hfound
  exact ⟨hrow, hneeds, hready⟩

section

variable [Platform]

theorem commits_putHeader (hhash : header.blockHash = .ok blockHash)
    (height cumulativeWork : Option ℕ) (isMainChain : Bool) (db : Store) :
    Commits (putHeader header height cumulativeWork isMainChain) db (.ok ())
      [db.insertHeader blockHash ⟨header, height, cumulativeWork, isMainChain⟩] := by
  rw [putHeader, hhash]
  exact commits_statement rfl

theorem commits_putBlock (hhash : block.blockHash = .ok blockHash) (db : Store) :
    (∃ bytes, serializeBlock block = .ok bytes ∧
      Commits (putBlock block) db (.ok ()) [db.insertBody blockHash block]) ∨
      ∃ error, serializeBlock block = .error error ∧
        Commits (putBlock block) db (.error error) [] := by
  rw [putBlock, hhash]
  cases hbytes : serializeBlock block with
  | ok bytes => exact .inl ⟨bytes, rfl, commits_statement rfl⟩
  | error error => exact .inr ⟨error, rfl, Commits.transact (Commits.raise error)⟩

/-! ### Steps -/

/-- What a call has raised. -/
def raisedBy {α : Type} : Except PyError α → Option PyError
  | .ok _ => none
  | .error error => some error

variable (manager : SyncManager) (Announced : BlockHeader → Prop) (Received : Block → Prop)

/-- One change that the sync manager makes, for announced headers and received blocks of some
kind. -/
inductive SyncStep : SyncState → SyncState → Prop
  /-- An announced header that passes the header checks. -/
  | header {state : SyncState} {header : BlockHeader} {blockHash : PyStr} {height work : ℕ}
      (announced : Announced header) (hash_eq : header.blockHash = .ok blockHash)
      (fresh : state.store.headers[blockHash]? = none)
      (parent : header.previousBlockHash = zeroHash ∨
        ∃ row, state.store.headers[header.previousBlockHash]? = some row)
      (height_eq : heightUnder (state.store.parentRecord header.previousBlockHash) = .ok height)
      (checks : validateHeaderCandidate manager.node.params state.store header
        (state.store.parentRecord header.previousBlockHash) height = .ok ())
      (work_eq : workUnder (state.store.parentRecord header.previousBlockHash) header = .ok work) :
      SyncStep state { state with
        store := state.store.insertHeader blockHash ⟨header, some height, some work, false⟩ }
  /-- The header of a received block, unchecked. -/
  | blockHeader {state : SyncState} {block : Block} {blockHash : PyStr} {height work : ℕ}
      (received : Received block) (hash_eq : block.blockHash = .ok blockHash)
      (fresh : state.store.headers[blockHash]? = none)
      (parent : block.header.previousBlockHash = zeroHash ∨
        ∃ row, state.store.headers[block.header.previousBlockHash]? = some row)
      (height_eq :
        heightUnder (state.store.parentRecord block.header.previousBlockHash) = .ok height)
      (work_eq :
        workUnder (state.store.parentRecord block.header.previousBlockHash) block.header =
          .ok work) :
      SyncStep state { state with
        store := state.store.insertHeader blockHash
          ⟨block.header, some height, some work, false⟩ }
  /-- The body of a received block whose header is stored. -/
  | body {state : SyncState} {block : Block} {blockHash : PyStr} {row : HeaderRow}
      (received : Received block) (hash_eq : block.blockHash = .ok blockHash)
      (absent : state.store.blocks[blockHash]? = none)
      (stored : state.store.headers[blockHash]? = some row) :
      SyncStep state { state with store := state.store.insertBody blockHash block }
  /-- A received block waits for its parent. -/
  | remember {state : SyncState} {block : Block} {blockHash : PyStr} (received : Received block)
      (hash_eq : block.blockHash = .ok blockHash) :
      SyncStep state { state with
        orphanBlocks := rememberOrphan block blockHash state.orphanBlocks }
  /-- The blocks that wait for a parent are taken out. -/
  | take {state : SyncState} (parentHash : PyStr) :
      SyncStep state { state with
        orphanBlocks := state.orphanBlocks.filter (·.1 ≠ parentHash) }
  /-- The chosen tip is activated, or the activation raises. -/
  | activate {state : SyncState} {record : HeaderRecord}
      {result : Except PyError ChainActivationResult} {log : List Store}
      (chosen : chosenTip state = .ok (some record))
      (run : Commits (activateChain manager.node (manager.clock state.activations.length)
        record.blockHash) state.store result log) :
      SyncStep state { state with
        store := log.headD state.store
        activations := {
          tipHash := record.blockHash
          before := state.store
          after := log.headD state.store
          raised := raisedBy result } :: state.activations }
  /-- The hashes of a path whose activation has failed are quarantined. -/
  | quarantine {state : SyncState} {activation : Activation} {earlier : List Activation}
      {error : PyError} {currentPath readyPath : List PyStr}
      (last : state.activations = activation :: earlier) (after_eq : activation.after = state.store)
      (raised : activation.raised = some error) (caught : error.isActivationError)
      (current : state.store.pathOfTip activation.before.getTip = .ok currentPath)
      (ready : state.store.pathToRoot activation.tipHash = .ok readyPath) :
      SyncStep state { state with
        invalidActivationTips := (readyPath.filter (· ∉ currentPath)).foldl
          (fun invalid blockHash => invalid.insert blockHash error) state.invalidActivationTips }

/-- Any number of changes. -/
abbrev SyncRun : SyncState → SyncState → Prop :=
  Relation.ReflTransGen (SyncStep manager Announced Received)

/-- Every waiting block was received. -/
def OrphansReceived (state : SyncState) : Prop :=
  ∀ bucket ∈ state.orphanBlocks, ∀ entry ∈ bucket.2, Received entry.2

/-- The second state comes from the first by changes, if the first holds received orphans only. -/
def Follows (state state' : SyncState) : Prop :=
  OrphansReceived Received state → SyncRun manager Announced Received state state'

end

section

variable [Platform] {manager : SyncManager} {Announced : BlockHeader → Prop}
  {Received : Block → Prop}

omit [Platform] in
private theorem received_of_lookup (h : ∀ bucket ∈ orphans, ∀ entry ∈ bucket.2, Received entry.2)
    {entry : PyStr × Block} (hentry : entry ∈ (orphans.lookup parentHash).getD []) :
    Received entry.2 := by
  cases hlookup : orphans.lookup parentHash with
  | none => simp [hlookup] at hentry
  | some items =>
    rw [hlookup, Option.getD_some] at hentry
    obtain ⟨before, rest, rfl, -⟩ := List.lookup_eq_some_iff.mp hlookup
    exact h (parentHash, items) (by simp) entry hentry

omit [Platform] in
private theorem received_rememberOrphan
    (h : ∀ bucket ∈ orphans, ∀ entry ∈ bucket.2, Received entry.2) (hreceived : Received block) :
    ∀ bucket ∈ rememberOrphan block blockHash orphans, ∀ entry ∈ bucket.2, Received entry.2 := by
  intro bucket hbucket entry hentry
  have hmem := List.mem_of_mem_drop hbucket
  rw [List.mem_append, List.mem_filter, List.mem_singleton] at hmem
  rcases hmem with ⟨hmem, -⟩ | rfl
  · exact h bucket hmem entry hentry
  · rw [List.mem_append, List.mem_filter, List.mem_singleton] at hentry
    rcases hentry with ⟨hentry, -⟩ | rfl
    · exact received_of_lookup h hentry
    · exact hreceived

private theorem SyncStep.orphansReceived (step : SyncStep manager Announced Received state state')
    (h : OrphansReceived Received state) : OrphansReceived Received state' := by
  cases step with
  | header => exact h
  | blockHeader => exact h
  | body => exact h
  | remember received _ =>
    dsimp only [OrphansReceived]
    exact received_rememberOrphan h received
  | take parentHash => exact fun bucket hbucket => h bucket (List.mem_of_mem_filter hbucket)
  | activate => exact h
  | quarantine => exact h

theorem SyncRun.orphansReceived (run : SyncRun manager Announced Received state state')
    (h : OrphansReceived Received state) : OrphansReceived Received state' := by
  induction run with
  | refl => exact h
  | tail _ step ih => exact step.orphansReceived ih

private theorem Follows.refl (state : SyncState) : Follows manager Announced Received state state :=
  fun _ => .refl

private theorem Follows.trans (first second third : SyncState)
    (h : Follows manager Announced Received first second)
    (h' : Follows manager Announced Received second third) :
    Follows manager Announced Received first third :=
  fun horphans => (h horphans).trans (h' (SyncRun.orphansReceived (h horphans) horphans))

private theorem Follows.step (h : SyncStep manager Announced Received state state') :
    Follows manager Announced Received state state' := fun _ => .single h

/-! ### Headers -/

private theorem storeHeader_follows (hannounced : Announced header)
    (hhash : header.blockHash = .ok blockHash) (hfresh : state.store.headers[blockHash]? = none)
    (hparent : header.previousBlockHash = zeroHash ∨
      ∃ row, state.store.headers[header.previousBlockHash]? = some row) :
    Follows manager Announced Received state (after (storeHeader manager.node.params header
      (state.store.parentRecord header.previousBlockHash)) state) := by
  refine relates_check_bind Follows.refl fun height hheight => ?_
  rw [after_get_bind]
  refine relates_check_bind Follows.refl fun _ hchecks => ?_
  refine relates_check_bind Follows.refl fun work hwork => ?_
  rw [after, callNode_ok (commits_putHeader hhash _ _ _ _)]
  exact .step (.header hannounced hhash hfresh hparent hheight hchecks hwork)

private theorem ingestLoop_follows {headers : List BlockHeader}
    (hannounced : ∀ header ∈ headers, Announced header) (previous : Option BlockHeader)
    (stored : ℕ) (state : SyncState) :
    Follows manager Announced Received state
      (after (ingestLoop manager.node.params headers previous stored) state) := by
  induction headers generalizing previous stored state with
  | nil => exact .refl state
  | cons header rest ih =>
    have hrest := ih (List.forall_mem_of_forall_mem_cons hannounced)
    refine relates_check_bind Follows.refl fun blockHash hhash => ?_
    rw [after_get_bind]
    split_ifs with hknown
    · exact hrest (some header) stored state
    · refine relates_check_bind Follows.refl fun _ hconnects => ?_
      rw [after_get_bind]
      dsimp only
      split_ifs with hmissing
      · exact .refl state
      · exact relates_bind Follows.trans
          (storeHeader_follows (hannounced header List.mem_cons_self) hhash
            (getRecord_eq_none hknown) (parent_known hmissing))
          fun _ state' _ => hrest (some header) (stored + 1) state'

private theorem ingestHeaders_follows {headers : List BlockHeader}
    (hannounced : ∀ header ∈ headers, Announced header) (state : SyncState) :
    Follows manager Announced Received state (after (ingestHeaders manager headers) state) := by
  refine relates_bind Follows.trans (ingestLoop_follows hannounced none 0 state) ?_
  rintro ⟨stored, parentUnknown⟩ state' -
  exact relates_check_bind Follows.refl fun missing _ => .refl state'

/-! ### Activation -/

theorem activateTip_ok {value : ChainActivationResult}
    (h : Commits (activateChain manager.node (manager.clock state.activations.length) tipHash)
      state.store (.ok value) log) :
    activateTip manager tipHash state = .ok value { state with
      store := log.headD state.store
      activations := ⟨tipHash, state.store, log.headD state.store, none⟩ :: state.activations
        } := by
  have hcall := callNode_ok h
  simp only [activateTip, bind, EStateM.bind, get, getThe, MonadStateOf.get, EStateM.get,
    tryCatch, tryCatchThe, MonadExceptOf.tryCatch, EStateM.tryCatch, hcall]
  rfl

theorem activateTip_error
    (h : Commits (activateChain manager.node (manager.clock state.activations.length) tipHash)
      state.store (.error error) log) :
    activateTip manager tipHash state = .error error { state with
      store := log.headD state.store
      activations :=
        ⟨tipHash, state.store, log.headD state.store, some error⟩ :: state.activations } := by
  have hcall := callNode_error h
  simp only [activateTip, bind, EStateM.bind, get, getThe, MonadStateOf.get, EStateM.get,
    tryCatch, tryCatchThe, MonadExceptOf.tryCatch, EStateM.tryCatch, hcall]
  rfl

private theorem activateReadyTip_follows (hchosen : chosenTip state = .ok (some record))
    (raiseOnInvalid : Bool) :
    Follows manager Announced Received state
      (after (activateReadyTip manager record raiseOnInvalid) state) := by
  obtain ⟨result, log, hrun⟩ := (closed_activateChain manager.node
    (manager.clock state.activations.length) record.blockHash).commits state.store
  have hstep : Follows manager Announced Received state _ :=
    .step (.activate hchosen hrun)
  rw [activateReadyTip, activateReadyTipWith, after_get_bind, after_tryCatch]
  cases result with
  | ok value =>
    rw [bind_of_ok (activateTip_ok hrun)]
    exact hstep
  | error error =>
    rw [bind_of_error (activateTip_error hrun)]
    dsimp only
    -- An error of the activation is caught and quarantines the branch; others pass through.
    by_cases hcaught : error.isActivationError
    · rw [if_pos hcaught]
      refine Follows.trans _ _ _ hstep (relates_bind Follows.trans ?_ fun _ state' _ => ?_)
      · rw [quarantine, after_get_bind]
        refine relates_check_bind Follows.refl fun currentPath hcurrent => ?_
        refine relates_check_bind Follows.refl fun readyPath hready => ?_
        exact .step (.quarantine rfl rfl rfl hcaught hcurrent hready)
      · cases raiseOnInvalid <;> exact .refl state'
    · rw [if_neg hcaught]
      exact hstep

private theorem activateBestChainIfReady_follows (raiseOnInvalid : Bool) (state : SyncState) :
    Follows manager Announced Received state
      (after (activateBestChainIfReady manager raiseOnInvalid) state) := by
  rw [activateBestChainIfReady, activateBestChainIfReadyWith, after_get_bind]
  refine relates_check_bind Follows.refl fun chosen hchosen => ?_
  cases chosen with
  | none => exact .refl state
  | some record => exact activateReadyTip_follows hchosen raiseOnInvalid

/-! ### Blocks -/

/-- Once its header is stored, a block has a row; bodies are as before. -/
theorem storeBlockHeader_ok {parentRecord : Option HeaderRecord}
    (hhash : block.blockHash = .ok blockHash)
    (h : storeBlockHeader block blockHash parentRecord state = .ok () state') :
    (∃ row, state'.store.headers[blockHash]? = some row) ∧
      state'.store.blocks = state.store.blocks := by
  rw [storeBlockHeader, get_bind_apply] at h
  split_ifs at h with hknown
  · cases h
    rw [Store.getRecord, Option.isSome_map] at hknown
    exact ⟨Option.isSome_iff_exists.mp hknown, rfl⟩
  · obtain ⟨height, -, h⟩ := check_bind_eq_ok.mp h
    obtain ⟨work, -, h⟩ := check_bind_eq_ok.mp h
    rw [callNode_ok (commits_putHeader hhash _ _ _ _)] at h
    cases h
    exact ⟨⟨_, (Table.getElem?_insert _ blockHash blockHash _).trans (if_pos rfl)⟩, rfl⟩

private theorem storeBlockHeader_follows (hreceived : Received block)
    (hhash : block.blockHash = .ok blockHash) (hparent : block.header.previousBlockHash = zeroHash ∨
      ∃ row, state.store.headers[block.header.previousBlockHash]? = some row) :
    Follows manager Announced Received state (after (storeBlockHeader block blockHash
      (state.store.parentRecord block.header.previousBlockHash)) state) := by
  rw [storeBlockHeader, after_get_bind]
  split_ifs with hknown
  · exact .refl state
  · refine relates_check_bind Follows.refl fun height hheight => ?_
    refine relates_check_bind Follows.refl fun work hwork => ?_
    rw [after, callNode_ok (commits_putHeader hhash _ _ _ _)]
    exact .step (.blockHeader hreceived hhash (getRecord_eq_none hknown) hparent hheight hwork)

theorem storeBlock_follows (hreceived : Received block) (hhash : block.blockHash = .ok blockHash)
    (habsent : state.store.blocks[blockHash]? = none)
    (hparent : block.header.previousBlockHash = zeroHash ∨
      ∃ row, state.store.headers[block.header.previousBlockHash]? = some row) :
    Follows manager Announced Received state (after (storeBlock block blockHash
      (state.store.parentRecord block.header.previousBlockHash)) state) := by
  refine relates_bind Follows.trans (storeBlockHeader_follows hreceived hhash hparent) ?_
  intro _ state' hheader
  obtain ⟨⟨row, hrow⟩, hblocks⟩ := storeBlockHeader_ok hhash hheader
  rw [← hblocks] at habsent
  rcases commits_putBlock hhash state'.store with ⟨bytes, -, hput⟩ | ⟨error, -, hput⟩
  · rw [after, callNode_ok hput]
    exact .step (.body hreceived hhash habsent hrow)
  · rw [after, callNode_error hput]
    exact .refl state'

private theorem acceptPendingChildren_follows (hreceive : ∀ child, Received child → ∀ state,
      Follows manager Announced Received state (after (receive child) state))
    (parentHash : PyStr) (state : SyncState) :
    Follows manager Announced Received state
      (after (acceptPendingChildren receive parentHash) state) := by
  intro horphans
  have hpending : ∀ child ∈ pendingChildren state.orphanBlocks parentHash, Received child := by
    intro child hchild
    obtain ⟨entry, hentry, rfl⟩ := List.mem_map.mp hchild
    exact received_of_lookup horphans (Sorting.mem_sortBy.mp hentry)
  rw [acceptPendingChildren, after_get_bind]
  refine relates_bind Follows.trans (Follows.step (.take parentHash))
    (fun _ state' _ => ?_) horphans
  refine relates_foldlM Follows.refl Follows.trans (fun child hchild accepted other => ?_) 0 state'
  exact relates_bind Follows.trans (hreceive child (hpending child hchild) other)
    fun _ other' _ => .refl other'

/-- What `receive_block` does once the block is stored. -/
def finishBlock (manager : SyncManager) (receive : Block → Sync BlockIngestResult)
    (blockHash : PyStr) : Sync BlockIngestResult := do
  let accepted ← acceptPendingChildren receive blockHash
  let activation ← activateBestChainIfReady manager true
  return ⟨blockHash, activation, none, 1 + accepted⟩

theorem finishBlock_follows (hreceive : ∀ {child : Block}, Received child → ∀ state,
      Follows manager Announced Received state (after (receive child) state))
    (blockHash : PyStr) (state : SyncState) :
    Follows manager Announced Received state (after (finishBlock manager receive blockHash)
      state) := by
  refine relates_bind Follows.trans
    (acceptPendingChildren_follows (fun child hchild => hreceive hchild) blockHash state) ?_
  intro accepted state' _
  exact relates_bind Follows.trans (activateBestChainIfReady_follows true state')
    fun _ other _ => .refl other

theorem receiveBlockLoop_follows (fuel : ℕ) (hreceived : Received block) (state : SyncState) :
    Follows manager Announced Received state
      (after (receiveBlockLoop manager fuel block) state) := by
  induction fuel generalizing block state with
  | zero => exact .refl state
  | succ fuel ih =>
    have hchildren := acceptPendingChildren_follows (fun child hchild => ih hchild)
    refine relates_check_bind Follows.refl fun blockHash hhash => ?_
    rw [after_get_bind]
    dsimp only
    split_ifs with hstored hmissing
    · refine relates_bind Follows.trans (activateBestChainIfReady_follows true state) ?_
      intro activation state' _
      exact relates_bind Follows.trans (hchildren blockHash state') fun _ state'' _ => .refl state''
    · exact .step (.remember hreceived hhash)
    · exact relates_bind Follows.trans (storeBlock_follows hreceived hhash (by simpa using hstored)
        (parent_known hmissing)) fun _ state' _ => finishBlock_follows ih blockHash state'

theorem receiveBlock_follows (hreceived : Received block) (state : SyncState) :
    Follows manager Announced Received state (after (receiveBlock manager block) state) := by
  rw [receiveBlock, after_get_bind]
  exact receiveBlockLoop_follows _ hreceived state

/-! ### Calls -/

/-- A call of the sync manager by the runtime. -/
inductive Call
  | ingestHeaders (headers : List BlockHeader)
  | receiveBlock (block : Block)
  | activateBestChainIfReady (raiseOnInvalid : Bool)

/-- The state after a call, whether it returns or raises. -/
def SyncManager.call (manager : SyncManager) (state : SyncState) : Call → SyncState
  | .ingestHeaders headers => after (ingestHeaders manager headers) state
  | .receiveBlock block => after (receiveBlock manager block) state
  | .activateBestChainIfReady raiseOnInvalid =>
    after (activateBestChainIfReady manager raiseOnInvalid) state

/-- The state of a node that was empty, after a list of calls. -/
def SyncManager.run (manager : SyncManager) (calls : List Call) : SyncState :=
  calls.foldl manager.call .empty

/-- A new sync manager on a node with given tables, as after the import of a snapshot. -/
def SyncState.on (store : Store) : SyncState := { SyncState.empty with store := store }

/-- The state of a node that had given tables, after a list of calls. -/
def SyncManager.runOn (manager : SyncManager) (store : Store) (calls : List Call) : SyncState :=
  calls.foldl manager.call (.on store)

/-- A header that one of the calls announces. -/
def AnnouncedIn (calls : List Call) (header : BlockHeader) : Prop :=
  ∃ headers, .ingestHeaders headers ∈ calls ∧ header ∈ headers

/-- A block that one of the calls brings. -/
def ReceivedIn (calls : List Call) (block : Block) : Prop := .receiveBlock block ∈ calls

/-- The headers that the calls bring, alone or with their blocks. -/
def delivered (calls : List Call) : Set BlockHeader :=
  { header | AnnouncedIn calls header ∨ ∃ block, ReceivedIn calls block ∧ block.header = header }

/-- The headers that one call brings. -/
def Call.headers : Call → List BlockHeader
  | .ingestHeaders headers => headers
  | .receiveBlock block => [block.header]
  | .activateBestChainIfReady _ => []

omit [Platform] in
private theorem mem_headers_of_delivered (h : header ∈ delivered calls) :
    header ∈ calls.flatMap Call.headers := by
  rw [List.mem_flatMap]
  rcases h with ⟨headers, hcall, hmem⟩ | ⟨block, hcall, rfl⟩
  · exact ⟨_, hcall, hmem⟩
  · exact ⟨_, hcall, List.mem_singleton_self _⟩

/-- Whether the hashes of the delivered headers collide can be tested. -/
theorem cleanHashes_delivered (h : ∀ a ∈ calls.flatMap Call.headers, a.blockHash ≠ .ok zeroHash ∧
      ∀ b ∈ calls.flatMap Call.headers, a.blockHash = b.blockHash → a = b) :
    CleanHashes (delivered calls) where
  injective := by
    intro a ha b hb blockHash hhash hhash'
    exact (h a (mem_headers_of_delivered ha)).2 b (mem_headers_of_delivered hb)
      (hhash.trans hhash'.symm)
  nonzero := fun a ha => (h a (mem_headers_of_delivered ha)).1

private theorem SyncManager.call_follows (state : SyncState) {call : Call} (hcall : call ∈ calls) :
    Follows manager (AnnouncedIn calls) (ReceivedIn calls) state (manager.call state call) := by
  cases call with
  | ingestHeaders headers =>
    exact ingestHeaders_follows (fun header hmem => ⟨headers, hcall, hmem⟩) state
  | receiveBlock block => exact receiveBlock_follows hcall state
  | activateBestChainIfReady raiseOnInvalid =>
    exact activateBestChainIfReady_follows raiseOnInvalid state

theorem SyncManager.foldl_call_follows {rest : List Call} (state : SyncState)
    (hrest : ∀ call ∈ rest, call ∈ calls) :
    Follows manager (AnnouncedIn calls) (ReceivedIn calls) state
      (rest.foldl manager.call state) := by
  induction rest generalizing state with
  | nil => exact .refl state
  | cons call rest ih =>
    exact Follows.trans _ _ _ (SyncManager.call_follows state (hrest call List.mem_cons_self))
      (ih (manager.call state call) (List.forall_mem_of_forall_mem_cons hrest))

omit [Platform] in
theorem orphansReceived_nil (h : state.orphanBlocks = []) : OrphansReceived Received state := by
  intro bucket hbucket
  rw [h] at hbucket
  cases hbucket

/-- **Calls are steps** with the headers and blocks that they bring. -/
theorem SyncManager.foldl_call_syncRun (manager : SyncManager) (calls : List Call)
    (orphans : state.orphanBlocks = []) :
    SyncRun manager (AnnouncedIn calls) (ReceivedIn calls) state
      (calls.foldl manager.call state) :=
  SyncManager.foldl_call_follows state (fun _ hmem => hmem) (orphansReceived_nil orphans)

/-- **Every reachable state is reached by steps.** -/
theorem SyncManager.run_syncRun (manager : SyncManager) (calls : List Call) :
    SyncRun manager (AnnouncedIn calls) (ReceivedIn calls) .empty (manager.run calls) :=
  manager.foldl_call_syncRun calls rfl

/-! ### The header tree along runs -/

theorem HeaderTree.of_activation {known : Set BlockHeader}
    {Fit : List BlockHeader → BlockHeader → Prop} {node : Node} {clock : ℕ → Int} {row : HeaderRow}
    {result : Except PyError ChainActivationResult} (tree : HeaderTree known Fit db)
    (clean : CleanHashes known) (hrow : db.headers[tipHash]? = some row)
    (hrun : Commits (activateChain node clock tipHash) db result log) :
    TipMove db tipHash (log.headD db) :=
  (activateChain_tipMove tree clean node clock hrow).headD (.refl db tipHash) hrun

section

variable {known : Set BlockHeader} {Fit : List BlockHeader → BlockHeader → Prop}

/-- Headers that pass the checks, and those of received blocks, satisfy a condition relative to
their ancestors. -/
structure FitsTree (manager : SyncManager) (Announced : BlockHeader → Prop)
    (Received : Block → Prop) (known : Set BlockHeader)
    (Fit : List BlockHeader → BlockHeader → Prop) : Prop where
  announced : ∀ header, Announced header → header ∈ known
  received : ∀ block, Received block → block.header ∈ known
  checked : ∀ {store : Store} {header : BlockHeader} {height : ℕ} {path : List PyStr},
    HeaderTree known Fit store → store.Under header.previousBlockHash path →
    heightUnder (store.parentRecord header.previousBlockHash) = .ok height →
    validateHeaderCandidate manager.node.params store header
      (store.parentRecord header.previousBlockHash) height = .ok () →
    Fit (store.headersOn path) header
  unchecked : ∀ {store : Store} {block : Block} {path : List PyStr}, HeaderTree known Fit store →
    Received block → store.Under block.header.previousBlockHash path →
    Fit (store.headersOn path) block.header

/-- **One step keeps the header tree.** -/
theorem SyncStep.headerTree (clean : CleanHashes known)
    (fits : FitsTree manager Announced Received known Fit)
    (step : SyncStep manager Announced Received state state')
    (tree : HeaderTree known Fit state.store) : HeaderTree known Fit state'.store := by
  cases step with
  | header announced hash_eq fresh parent height_eq checks work_eq =>
    exact tree.insertHeader (fits.announced _ announced) hash_eq fresh parent height_eq work_eq
      (fun path hpath => fits.checked tree hpath height_eq checks) false
  | blockHeader received hash_eq fresh parent height_eq work_eq =>
    exact tree.insertHeader (fits.received _ received) hash_eq fresh parent height_eq work_eq
      (fun path hpath => fits.unchecked tree received hpath) false
  | body received hash_eq absent stored =>
    exact tree.insertBody hash_eq (fits.received _ received) stored
  | remember => exact tree
  | take => exact tree
  | activate chosen run =>
    have hrow := (chosenTip_row chosen).1
    exact tree.tipMove (tree.of_activation clean hrow run) ⟨_, hrow⟩
  | quarantine => exact tree

theorem HeaderTree.empty : HeaderTree known Fit Store.empty := by
  constructor <;> simp [Store.empty]

/-- **Every state of a run has a header tree.** -/
theorem SyncRun.headerTree (clean : CleanHashes known)
    (fits : FitsTree manager Announced Received known Fit)
    (run : SyncRun manager Announced Received state state')
    (tree : HeaderTree known Fit state.store) : HeaderTree known Fit state'.store := by
  induction run with
  | refl => exact tree
  | tail _ step ih => exact step.headerTree clean fits ih

/-- An invariant of the steps between header trees is one of runs. -/
theorem SyncRun.invariant {Inv : SyncState → Prop} (clean : CleanHashes known)
    (fits : FitsTree manager Announced Received known Fit) (tree : HeaderTree known Fit state.store)
    (run : SyncRun manager Announced Received state state')
    (hstep : ∀ {state state' : SyncState}, HeaderTree known Fit state.store →
      SyncStep manager Announced Received state state' → Inv state → Inv state')
    (h : Inv state) : Inv state' := by
  induction run with
  | refl => exact h
  | tail before step ih => exact hstep (SyncRun.headerTree clean fits before tree) step ih

/-- A condition on headers that asks nothing. -/
def AnyHeader (_ : List BlockHeader) (_ : BlockHeader) : Prop := True

theorem fitsTree_anyHeader (hknown : delivered calls ⊆ known) :
    FitsTree manager (AnnouncedIn calls) (ReceivedIn calls) known AnyHeader where
  announced := fun _ hannounced => hknown (.inl hannounced)
  received := fun block hreceived => hknown (.inr ⟨block, hreceived, rfl⟩)
  checked := fun _ _ _ _ => trivial
  unchecked := fun _ _ _ => trivial

/-- **After any calls the header table is a tree**, whatever it holds about the headers. -/
theorem SyncManager.runOn_headerTree (manager : SyncManager) {start : Store}
    (clean : CleanHashes known) (tables : HeaderTree known AnyHeader start)
    (hknown : delivered calls ⊆ known) :
    HeaderTree known AnyHeader (manager.runOn start calls).store :=
  SyncRun.headerTree clean (fitsTree_anyHeader hknown) (manager.foldl_call_syncRun calls rfl) tables

end

end

end Chipcoin
