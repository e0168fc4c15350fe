import Chipcoin.Consensus.Acceptance
import Chipcoin.Lib.Pending
import Chipcoin.Lib.Table
import Chipcoin.Node.Frame

/-!
# What the mempool's programs do to the pool

The effect of each program of the mempool on its table, and what a transaction has passed when it
enters the pool.

* `eval_removeMany`, `eval_pruneExpired`, `eval_evictIfNeeded`: the rows that go.
* `readmitFast_ok`, `admissionChecks_ok`: the facts behind a new row.
* `validateTransaction_present`: a valid transaction finds its inputs in the view.
* `validateTransaction_congr`: it sees nothing else of the view.
* `snapshot_shows`, `get_applied`: what a view with pending transactions shows.
* `replacementTxids_ok`, `bundlePolicy_ok`: what a new bundle replaces and what it has passed.
-/

namespace Chipcoin

open Checked Database List Sorting

variable {bundle : RewardAttestationBundle} {ctx : ValidationContext}
  {entries : List MempoolEntry} {entry : MempoolEntry} {height : ℕ}
  {identities : Finset AttestationIdentity} {node : Node} {outpoint : OutPoint} {db : Store}
  {tx : Transaction} {txid : PyStr} {view : UtxoView}

/-! ### The pool as a table of transactions -/

/-- The pending transactions by the txid of their row. -/
def Store.pending (store : Store) (txid : PyStr) : Option Transaction :=
  store.mempool[txid]?.map (·.transaction)

theorem Store.pending_eq_some :
    db.pending txid = some tx ↔
      ∃ entry, db.mempool[txid]? = some entry ∧ entry.transaction = tx :=
  Option.map_eq_some_iff

theorem mem_listMempool :
    entry ∈ db.listMempool ↔ ∃ txid : PyStr, db.mempool[txid]? = some entry := by
  simp only [Store.listMempool, mem_map, mem_sortBy, Prod.exists,
    Std.ExtTreeMap.mem_toList_iff_getElem?_eq_some, exists_eq_right]

private theorem length_listMempool (db : Store) : db.listMempool.length = db.mempool.size := by
  rw [Store.listMempool, length_map, (sortBy_perm _).length_eq, Std.ExtTreeMap.length_toList]

/-- The pending transactions. -/
def Store.pendingTransactions (store : Store) : List Transaction :=
  store.listMempool.map (·.transaction)

theorem mem_pendingTransactions :
    tx ∈ db.pendingTransactions ↔
      ∃ txid, db.pending txid = some tx := by
  simp only [Store.pendingTransactions, mem_map, mem_listMempool, Store.pending_eq_some]
  constructor
  · rintro ⟨entry, ⟨txid, hget⟩, rfl⟩
    exact ⟨txid, entry, hget, rfl⟩
  · rintro ⟨txid, entry, hget, rfl⟩
    exact ⟨entry, ⟨txid, hget⟩, rfl⟩

theorem length_pendingTransactions (db : Store) :
    db.pendingTransactions.length = db.mempool.size := by
  rw [Store.pendingTransactions, length_map, length_listMempool]

/-- The tables with one more row in the pool. -/
def Store.putPending (store : Store) (txid : PyStr) (entry : MempoolEntry) : Store :=
  { store with mempool := store.mempool.insert txid entry }

theorem Store.pending_putPending (db : Store) (txid : PyStr) (entry : MempoolEntry) :
    (db.putPending txid entry).pending =
      Function.update db.pending txid (some entry.transaction) := by
  funext other
  rw [Function.update_apply, Store.pending, Store.putPending, Table.getElem?_insert]
  split_ifs
  · rfl
  · rfl

/-- The tables without some rows of the pool. -/
def Store.dropPending (store : Store) (txids : List PyStr) : Store :=
  { store with mempool := txids.foldl (fun pool txid => pool.erase txid) store.mempool }

theorem Store.mempool_dropPending (db : Store) (txids : List PyStr) (txid : PyStr) :
    (db.dropPending txids).mempool[txid]? =
      if txid ∈ txids then none else db.mempool[txid]? := by
  rw [Store.dropPending, Table.getElem?_foldl_erase]
  by_cases hmem : txid ∈ txids
  · rw [if_pos hmem, if_pos hmem]
  · rw [if_neg hmem, if_neg hmem]

theorem Store.pending_dropPending (db : Store) (txids : List PyStr) (txid : PyStr) :
    (db.dropPending txids).pending txid =
      if txid ∈ txids then none else db.pending txid := by
  rw [Store.pending, Store.mempool_dropPending]
  split_ifs
  · rfl
  · rfl

theorem sub_dropPending (db : Store) (txids : List PyStr) :
    Pending.Sub (db.dropPending txids).pending db.pending := by
  intro txid tx h
  rw [Store.pending_dropPending] at h
  split_ifs at h
  exact h

/-- The outpoints that a transaction spends. -/
def spendsOutpoint (transaction : Transaction) (outpoint : OutPoint) : Prop :=
  outpoint ∈ spentOutpoints transaction

/-- The outpoints that a transaction with a txid creates. -/
def createsOutpoint (txid : PyStr) (transaction : Transaction) (outpoint : OutPoint) : Prop :=
  outpoint.txid = txid ∧ 0 ≤ outpoint.index ∧
    outpoint.index.toNat < transaction.outputs.length

instance (transaction : Transaction) (outpoint : OutPoint) :
    Decidable (spendsOutpoint transaction outpoint) :=
  inferInstanceAs (Decidable (_ ∈ _))

instance (txid : PyStr) (transaction : Transaction) (outpoint : OutPoint) :
    Decidable (createsOutpoint txid transaction outpoint) :=
  inferInstanceAs (Decidable (_ ∧ _))

variable {nextHeight : ℕ} {fee : Int} {isCoinbase : Bool} {db' : Store} {clock : ℕ → Int}
  {view' : UtxoView} {admission : Admission} {addedAt : Option Int} {chosenTxids txids : List PyStr}
  {pending : PendingState} {policy : MempoolPolicy} {chosen : List MempoolEntry}

private theorem createsOutpoint_of_createdAt
    (h : createdAt txid tx height isCoinbase outpoint ≠ none) :
    createsOutpoint txid tx outpoint := by
  rw [createdAt] at h
  split_ifs at h with hown
  · refine ⟨hown.1, hown.2, ?_⟩
    by_contra hout
    rw [getElem?_eq_none (not_lt.mp hout)] at h
    exact h rfl
  · exact absurd rfl h

theorem eval_removeMany (txids : List PyStr) (db : Store) :
    (removeMany txids).eval db = .ok ((), db.dropPending txids) := by
  unfold removeMany
  induction txids generalizing db with
  | nil => rfl
  | cons txid rest ih => exact ih { db with mempool := db.mempool.erase txid }

private theorem removeMany_map (rows : List (PyStr × MempoolEntry)) :
    (rows.forM fun row => removeMempool row.1) = removeMany (rows.map Prod.fst) := by
  induction rows with
  | nil => rfl
  | cons row rest ih =>
    show (removeMempool row.1 >>= fun _ => rest.forM fun row => removeMempool row.1) = _
    rw [ih]
    rfl

theorem ensureNoMempoolDoubleSpend_ok (h : ensureNoMempoolDoubleSpend tx entries = .ok ())
    (hmem : entry ∈ entries) (hspends : spendsOutpoint tx outpoint) :
    ¬ spendsOutpoint entry.transaction outpoint := by
  intro hrival
  obtain ⟨txInput, hinput, rfl⟩ := List.mem_map.mp hspends
  obtain ⟨reserved, hreserved, hsame⟩ := List.mem_map.mp hrival
  have hnone := raiseIf_eq_ok.mp h
  refine hnone (List.any_eq_true.mpr ⟨txInput, hinput, List.any_eq_true.mpr ⟨entry, hmem, ?_⟩⟩)
  exact List.any_eq_true.mpr ⟨reserved, hreserved, by simpa using hsame⟩

theorem overlay_get (db : Store) (outpoint : OutPoint) :
    db.overlay.get outpoint = db.utxos[outpoint]? := by
  simp [Store.overlay, UtxoView.get]

private theorem createdAt_ne_none (h : createsOutpoint txid tx outpoint) (height : ℕ)
    (isCoinbase : Bool) : createdAt txid tx height isCoinbase outpoint ≠ none := by
  obtain ⟨hown, hindex, hlength⟩ := h
  rw [createdAt, if_pos ⟨hown, hindex⟩, getElem?_eq_getElem hlength]
  exact Option.some_ne_none _

section

variable [Platform]

/-- Every row stands under the txid of its transaction. -/
def Store.Keyed (store : Store) : Prop :=
  ∀ txid transaction, store.pending txid = some transaction → transaction.txid = .ok txid

theorem Store.Keyed.drop (hkeyed : db.Keyed) (txids : List PyStr) :
    (db.dropPending txids).Keyed :=
  fun txid tx h => hkeyed txid tx (sub_dropPending db txids txid tx h)

theorem Store.Keyed.put (hkeyed : db.Keyed) (htxid : entry.transaction.txid = .ok txid) :
    (db.putPending txid entry).Keyed := by
  intro other tx hpending
  rw [Store.pending_putPending, Function.update_apply] at hpending
  split_ifs at hpending with hother
  · cases hpending
    rw [hother, htxid]
  · exact hkeyed other tx hpending

/-- Rows with the same transaction have the same txid, so no transaction is pending twice. -/
theorem Store.Keyed.nodup_pendingTransactions (hkeyed : db.Keyed) :
    db.pendingTransactions.Nodup := by
  rw [Store.pendingTransactions, Store.listMempool, map_map]
  refine ((sortBy_perm _).map _).nodup_iff.mpr ?_
  refine List.pairwise_map.mpr ?_
  refine List.Pairwise.imp_of_mem ?_ db.mempool.distinct_keys_toList
  intro first second hfirst hsecond hkeys hsame
  have hrow : ∀ row ∈ db.mempool.toList, row.2.transaction.txid = .ok row.1 := by
    intro row hmem
    have hget := Std.ExtTreeMap.mem_toList_iff_getElem?_eq_some.mp hmem
    exact hkeyed row.1 _ (Store.pending_eq_some.mpr ⟨row.2, hget, rfl⟩)
  have htxid := hrow first hfirst
  rw [show first.2.transaction = second.2.transaction from hsame, hrow second hsecond] at htxid
  exact hkeys (by rw [Except.ok.inj htxid]; exact Std.ReflOrd.compare_self)

/-- A list that has every pending transaction bounds the size of the pool. -/
theorem Store.Keyed.size_le (hkeyed : db.Keyed) {known : List Transaction}
    (hknown : ∀ txid tx, db.pending txid = some tx → tx ∈ known) :
    db.mempool.size ≤ known.length := by
  rw [← length_pendingTransactions]
  refine (hkeyed.nodup_pendingTransactions.subperm fun tx hmem => ?_).length_le
  obtain ⟨txid, hpending⟩ := mem_pendingTransactions.mp hmem
  exact hknown txid tx hpending

/-! ### Rows that go -/

/-- The order of eviction: the lowest fee first, then the oldest row, then by txid. -/
def evictionOrder : PyStr × MempoolEntry → PyStr × MempoolEntry → Ordering :=
  compareLex (compareOn fun row => row.2.fee) <|
    compareLex (compareOn fun row => row.2.addedAt) (compareOn Prod.fst)

/-- The rows above the capacity. -/
def Store.surplus (store : Store) (policy : MempoolPolicy) : List (PyStr × MempoolEntry) :=
  (sortBy evictionOrder store.mempool.toList).take
    (store.mempool.size - policy.maxMempoolTransactions)

/-- The tables without the rows above the capacity. -/
def Store.evicted (store : Store) (policy : MempoolPolicy) : Store :=
  store.dropPending ((store.surplus policy).map Prod.fst)

omit [Platform] in
/-- An eviction deletes the rows above the capacity. -/
theorem eval_evictIfNeeded (policy : MempoolPolicy) (db : Store) :
    (evictIfNeeded policy).eval db = .ok ((), db.evicted policy) := by
  rw [Store.evicted, ← eval_removeMany, ← removeMany_map, Store.surplus,
    ← Std.ExtTreeMap.length_toList]
  rfl

omit [Platform] in
/-- Nothing is evicted from a pool that fits the capacity. -/
theorem Store.evicted_of_le (h : db.mempool.size ≤ policy.maxMempoolTransactions) :
    db.evicted policy = db := by
  rw [Store.evicted, Store.surplus, Nat.sub_eq_zero_of_le h]
  rfl

/-- The rounds of a pruning pass over entries that have a txid. -/
theorem eval_forM_pruneEntry (policy : MempoolPolicy) (now : Int)
    (hentries : ∀ entry ∈ entries, ∃ txid, entry.transaction.txid = .ok txid) (db : Store) :
    ∃ txids, (entries.forM (pruneEntry policy now)).eval db = (removeMany txids).eval db ∧
      ∀ txid, txid ∈ txids ↔ ∃ entry ∈ entries, entry.transaction.txid = .ok txid ∧
        isExpired policy entry.addedAt now := by
  -- The pass reads the pool once, so what it removes does not depend on the rounds before.
  induction entries generalizing db with
  | nil => exact ⟨[], rfl, by simp⟩
  | cons entry rest ih =>
    obtain ⟨txid, htxid⟩ := hentries entry mem_cons_self
    have hrest := forall_mem_of_forall_mem_cons hentries
    have hround : ((entry :: rest).forM (pruneEntry policy now)).eval db =
        (pruneEntry policy now entry >>= fun _ => rest.forM (pruneEntry policy now)).eval db :=
      rfl
    rw [hround, pruneEntry]
    by_cases hexpired : isExpired policy entry.addedAt now
    · obtain ⟨txids, heval, hmem⟩ := ih hrest { db with mempool := db.mempool.erase txid }
      refine ⟨txid :: txids, ?_, fun other => ?_⟩
      · rw [if_pos hexpired, htxid]
        exact heval
      · rw [mem_cons, hmem, exists_mem_cons_iff, htxid, Except.ok.injEq, @eq_comm _ txid other]
        simp only [hexpired, and_true]
    · obtain ⟨txids, heval, hmem⟩ := ih hrest db
      refine ⟨txids, ?_, fun other => ?_⟩
      · rw [if_neg hexpired]
        exact heval
      · rw [hmem, exists_mem_cons_iff]
        simp only [hexpired, Bool.false_eq_true, and_false, false_or]

/-- The rows of a keyed pool in the order of `list_all`. -/
theorem Store.Keyed.txid_of_mem (hkeyed : db.Keyed) (hmem : entry ∈ db.listMempool) :
    ∃ txid, entry.transaction.txid = .ok txid ∧ db.mempool[txid]? = some entry := by
  obtain ⟨txid, hget⟩ := mem_listMempool.mp hmem
  exact ⟨txid, hkeyed txid _ (Store.pending_eq_some.mpr ⟨entry, hget, rfl⟩), hget⟩

/-- The txids are those of the rows that have expired. -/
def Store.Expires (store : Store) (policy : MempoolPolicy) (now : Int) (txids : List PyStr) :
    Prop :=
  ∀ txid, txid ∈ txids ↔
    ∃ entry, store.mempool[txid]? = some entry ∧ isExpired policy entry.addedAt now

/-- Pruning deletes the expired rows. -/
theorem eval_pruneExpired (hkeyed : db.Keyed) (policy : MempoolPolicy) (now : Int) :
    ∃ txids, (pruneExpired policy now).eval db = .ok ((), db.dropPending txids) ∧
      db.Expires policy now txids := by
  have hentries : ∀ entry ∈ db.listMempool, ∃ txid, entry.transaction.txid = .ok txid := by
    intro entry hmem
    obtain ⟨txid, htxid, -⟩ := hkeyed.txid_of_mem hmem
    exact ⟨txid, htxid⟩
  obtain ⟨txids, heval, hmem⟩ := eval_forM_pruneEntry policy now hentries db
  refine ⟨txids, heval.trans (eval_removeMany txids db), fun txid => ?_⟩
  rw [hmem]
  constructor
  · rintro ⟨entry, hentry, htxid, hexpired⟩
    obtain ⟨txid', htxid', hget⟩ := hkeyed.txid_of_mem hentry
    obtain rfl := ok_unique htxid htxid'
    exact ⟨entry, hget, hexpired⟩
  · rintro ⟨entry, hget, hexpired⟩
    exact ⟨entry, mem_listMempool.mpr ⟨txid, hget⟩,
      hkeyed txid _ (Store.pending_eq_some.mpr ⟨entry, hget, rfl⟩), hexpired⟩

/-- Writing an entry puts it under its txid. -/
theorem eval_addMempool (htxid : tx.txid = .ok txid) (fee addedAt : Int) (db : Store) :
    (addMempool { transaction := tx, fee := fee, addedAt := addedAt }).eval db =
      .ok ((), db.putPending txid
        { transaction := tx, fee := fee, addedAt := addedAt }) := by
  rw [addMempool, htxid]
  rfl

/-! ### What a valid transaction has passed -/

/-- **A valid transaction finds its inputs in the view.** -/
theorem validateTransaction_present (h : validateTransaction tx ctx = .ok fee)
    (hspends : spendsOutpoint tx outpoint) : ctx.utxoView.get outpoint ≠ none := by
  obtain ⟨⟨⟩, hstateless, hstateful⟩ := bind_eq_ok.mp h
  obtain ⟨txInput, hinput, rfl⟩ := List.mem_map.mp hspends
  have hinputs : tx.inputs ≠ [] := ne_nil_of_mem hinput
  -- Only payments other than a coinbase have inputs.
  have hplain : isCoinbaseTransaction tx = false := by
    cases hcase : tx.inputs with
    | nil => exact absurd hcase hinputs
    | cons first rest => rw [isCoinbaseTransaction, hcase]; rfl
  have hkind : carriesNoCoins tx = false := by
    by_contra hcarries
    exact hinputs (validateTransactionStateless_noCoins hstateless (by simpa using hcarries)).1
  simp only [carriesNoCoins, Bool.or_eq_false_iff] at hkind
  obtain ⟨-, hstandard⟩ := validateTransactionStateful_ok hplain hstateful
  rw [if_neg (by simp [hkind.1.1]), if_neg (by simp [hkind.1.2]), if_neg (by simp [hkind.2])]
    at hstandard
  obtain ⟨index, hindex⟩ := getElem?_of_mem hinput
  obtain ⟨entry, hchecks⟩ := (validateStandardStateful_ok hstandard).spends index txInput hindex
  rw [hchecks.present]
  exact Option.some_ne_none entry

/-- **A transaction sees its inputs only**: two views that show the same at them give the same
verdict. -/
theorem validateTransaction_congr (hview : ∀ outpoint, spendsOutpoint tx outpoint →
      view.get outpoint = ctx.utxoView.get outpoint) :
    validateTransaction tx { ctx with utxoView := view } =
      validateTransaction tx ctx := by
  have hspends : validateStandardStateful tx { ctx with utxoView := view } =
      validateStandardStateful tx ctx := by
    unfold validateStandardStateful
    congr 1
    refine foldlM_congr ?_ _
    rintro total ⟨txInput, index⟩ hmem
    have hinput : txInput ∈ tx.inputs := fst_mem_of_mem_zipIdx hmem
    unfold validateSpend
    dsimp only
    rw [hview txInput.previousOutput (mem_map_of_mem hinput)]
    rfl
  -- No other check looks at the view.
  show (validateTransactionStateless tx >>= fun _ =>
    validateTransactionOutputsForActivation tx ctx >>= fun _ => _) = _
  rw [hspends]
  rfl

theorem validationContextForView_view {node : NodeConfig} {registry : NodeRegistryView}
    {count : Option ℕ} (h : validationContextForView node db view registry count = .ok ctx) :
    ctx.utxoView = view := by
  obtain ⟨seeds, -, h⟩ := bind_eq_ok.mp h
  cases h
  rfl

theorem applyTransaction_shows (h : view.applyTransaction tx height isCoinbase = .ok view')
    (hshown : view'.get outpoint ≠ none) :
    view.get outpoint ≠ none ∨
      ∃ txid, tx.txid = .ok txid ∧ createsOutpoint txid tx outpoint := by
  obtain ⟨txid, htxid, hget⟩ := UtxoView.lawful.get_applyTransaction h
  rw [hget, observeTransaction] at hshown
  cases hcreated : createdAt txid tx height isCoinbase outpoint with
  | some entry =>
    have hsome : createdAt txid tx height isCoinbase outpoint ≠ none := by
      rw [hcreated]
      exact Option.some_ne_none entry
    exact .inr ⟨txid, htxid, createsOutpoint_of_createdAt hsome⟩
  | none =>
    rw [hcreated] at hshown
    split_ifs at hshown
    · exact absurd rfl hshown
    · exact .inl hshown

/-- **The view of `accept`.** -/
theorem snapshot_shows (h : snapshotWithMempoolApplied node db = .ok view)
    (hshown : view.get outpoint ≠ none) :
    db.utxos[outpoint]? ≠ none ∨ ∃ entry ∈ db.listMempool, ∃ txid,
      entry.transaction.txid = .ok txid ∧ createsOutpoint txid entry.transaction outpoint := by
  obtain ⟨ctx, -, h⟩ := bind_eq_ok.mp h
  refine foldlM_invariant (fun shown : UtxoView => shown.get outpoint ≠ none →
    db.utxos[outpoint]? ≠ none ∨ ∃ entry ∈ db.listMempool, ∃ txid,
      entry.transaction.txid = .ok txid ∧ createsOutpoint txid entry.transaction outpoint)
    ?_ h ?_ hshown
  · intro shown entry shown' hmem hstep ih hthere
    rcases applyTransaction_shows hstep hthere with hbefore | ⟨txid, htxid, hcreates⟩
    · exact ih hbefore
    · exact .inr ⟨entry, hmem, txid, htxid, hcreates⟩
  · intro hbase
    rw [overlay_get] at hbase
    exact .inl hbase

/-- **A view with pending transactions applied**, at an outpoint that none of them spends. -/
theorem get_applied (h : entries.foldlM
      (fun view entry => view.applyTransaction entry.transaction height false) view = .ok view')
    (hunspent : ∀ entry ∈ entries, ¬ spendsOutpoint entry.transaction outpoint) :
    (∃ entry ∈ entries, ∃ txid, entry.transaction.txid = .ok txid ∧
      createsOutpoint txid entry.transaction outpoint ∧
      view'.get outpoint = createdAt txid entry.transaction height false outpoint) ∨
    ((∀ entry ∈ entries, ∀ txid, entry.transaction.txid = .ok txid →
      ¬ createsOutpoint txid entry.transaction outpoint) ∧
      view'.get outpoint = view.get outpoint) := by
  -- The last transaction that creates the outpoint decides.
  induction entries using List.reverseRecOn generalizing view' with
  | nil =>
    cases h
    exact .inr ⟨fun entry hentry => absurd hentry not_mem_nil, rfl⟩
  | append_singleton entries last ih =>
    obtain ⟨middle, hmiddle, hlast⟩ := foldlM_append_eq_ok.mp h
    obtain ⟨final, hlast, hdone⟩ := foldlM_cons_eq_ok.mp hlast
    cases hdone
    obtain ⟨txid, htxid, hget⟩ := UtxoView.lawful.get_applyTransaction hlast
    have hmem : last ∈ entries ++ [last] := mem_append_right _ mem_cons_self
    by_cases hcreates : createsOutpoint txid last.transaction outpoint
    · refine .inl ⟨last, hmem, txid, htxid, hcreates, ?_⟩
      obtain ⟨entry, hentry⟩ := Option.ne_none_iff_exists'.mp
        (createdAt_ne_none hcreates height false)
      rw [hget, observeTransaction, hentry]
    · have hnone : createdAt txid last.transaction height false outpoint = none := by
        by_contra hsome
        exact hcreates (createsOutpoint_of_createdAt hsome)
      have hkeeps : view'.get outpoint = middle.get outpoint := by
        rw [hget, observeTransaction, hnone]
        exact if_neg (hunspent last hmem)
      rw [hkeeps]
      rcases ih hmiddle fun entry hentry => hunspent entry (mem_append_left _ hentry) with
        ⟨entry, hentry, hfacts⟩ | ⟨hnever, hbefore⟩
      · exact .inl ⟨entry, mem_append_left _ hentry, hfacts⟩
      · refine .inr ⟨?_, hbefore⟩
        intro entry hentry other hother
        rcases List.mem_append.mp hentry with hentry | hentry
        · exact hnever entry hentry other hother
        · rw [List.mem_singleton.mp hentry] at hother ⊢
          rw [← ok_unique htxid hother]
          exact hcreates

/-! ### Rows that come -/

/-- **Readmission** drops the transaction, or has checked it and writes its row. -/
theorem readmitFast_ok {pending' : PendingState} {addedAt now : Int}
    (h : (readmitFast node nextHeight pending tx addedAt now).eval db =
      .ok (pending', db')) :
    (pending' = pending ∧ db' = db) ∨
      ∃ txid feeChipbits view, tx.txid = .ok txid ∧
        readmissionChecks node db pending nextHeight tx = .ok (feeChipbits, view) ∧
        pending' = { view := view, entries := pending.entries ++
          [{ transaction := tx, fee := feeChipbits, addedAt := addedAt }] } ∧
        db' = db.putPending txid
          { transaction := tx, fee := feeChipbits, addedAt := addedAt } := by
  rw [readmitFast] at h
  -- Expired.
  split at h
  · cases h
    exact .inl ⟨rfl, rfl⟩
  -- Not standard; other errors are not caught.
  split at h
  · split at h
    · cases h
      exact .inl ⟨rfl, rfl⟩
    · cases h
  obtain ⟨txid, htxid, h⟩ := Program.eval_ofExcept_andThen_eq_ok.mp h
  rw [Program.eval_get_andThen] at h
  split at h
  · cases h
    exact .inl ⟨rfl, rfl⟩
  split at h
  · split at h
    · cases h
      exact .inl ⟨rfl, rfl⟩
    · cases h
  · -- Checked and added.
    next feeChipbits view hchecks =>
    obtain ⟨⟨⟨⟩, written⟩, hadd, hdone⟩ := Program.eval_andThen_eq_ok.mp h
    rw [eval_addMempool htxid] at hadd
    have hwritten := (Prod.mk.inj (Except.ok.inj hadd)).2
    cases hdone
    exact .inr ⟨txid, feeChipbits, view, htxid, hchecks, rfl, hwritten.symm⟩

/-- What a readmitted transaction has passed. -/
theorem readmissionChecks_ok {feeChipbits : Int}
    (h : readmissionChecks node db pending nextHeight tx = .ok (feeChipbits, view)) :
    ensureNoMempoolDoubleSpend tx pending.entries = .ok () ∧
      (∃ ctx : ValidationContext, ctx.utxoView = pending.view ∧
        validateTransaction tx ctx = .ok feeChipbits) ∧
      pending.view.applyTransaction tx nextHeight false = .ok view := by
  simp only [readmissionChecks, bind_eq_ok, pure_eq_ok] at h
  obtain ⟨_, -, _, -, _, hspend, ctx, hcontext, fee, hvalid, _, -, applied, happly, h⟩ := h
  cases h
  exact ⟨hspend, ⟨ctx, validationContextForView_view hcontext, hvalid⟩, happly⟩

/-! ### Bundles -/

/-- The identities that a pending transaction would record on chain. -/
def recordedIdentities (transaction : Transaction) : Finset AttestationIdentity :=
  match parseRewardAttestationBundleMetadata transaction with
  | .ok bundle => (bundle.attestations.map attestationIdentity).toFinset
  | .error _ => ∅

theorem recordedIdentities_eq (h : parseRewardAttestationBundleMetadata tx = .ok bundle) :
    recordedIdentities tx = (bundle.attestations.map attestationIdentity).toFinset := by
  rw [recordedIdentities, h]

/-- The key under which one bundle may be pending. -/
def bundleKey (bundle : RewardAttestationBundle) : Int × Int × PyStr :=
  (bundle.epochIndex, bundle.bundleWindowIndex, bundle.bundleSubmitterNodeId)

theorem pendingBundle_eq_some :
    pendingBundle entry = .ok (some bundle) ↔
      parseRewardAttestationBundleMetadata entry.transaction = .ok bundle := by
  rw [pendingBundle]
  split
  · next found hfound =>
    rw [hfound, Except.ok.injEq, Except.ok.injEq, Option.some.injEq]
  · next error herror =>
    rw [herror]
    split
    · simp
    · simp

/-- Some of the pending bundles, with their txids: each has identities, and all of them are among
the given ones. -/
structure Absorbed (identities : Finset AttestationIdentity) (entries chosen : List MempoolEntry)
    (chosenTxids : List PyStr) : Prop where
  sublist : chosen.Sublist entries
  txids : chosen.map (fun entry => entry.transaction.txid) = chosenTxids.map .ok
  bundles : ∀ entry ∈ chosen, isRewardAttestationBundleTransaction entry.transaction ∧
    (recordedIdentities entry.transaction).Nonempty ∧
    recordedIdentities entry.transaction ⊆ identities

theorem Absorbed.nil (identities : Finset AttestationIdentity) (entries : List MempoolEntry) :
    Absorbed identities entries [] [] where
  sublist := nil_sublist entries
  txids := rfl
  bundles _ hentry := absurd hentry not_mem_nil

theorem Absorbed.mem_txids (h : Absorbed identities entries chosen chosenTxids) :
    txid ∈ chosenTxids ↔ ∃ entry ∈ chosen, entry.transaction.txid = .ok txid := by
  rw [← mem_map, h.txids, mem_map]
  constructor
  · exact fun hmem => ⟨txid, hmem, rfl⟩
  · rintro ⟨other, hmem, hother⟩
    rw [← Except.ok.inj hother]
    exact hmem

private theorem Absorbed.length_txids (h : Absorbed identities entries chosen chosenTxids) :
    chosenTxids.length = chosen.length := by
  have hlength := congrArg List.length h.txids
  rw [length_map, length_map] at hlength
  exact hlength.symm

/-- **The loop over the pending bundles** chooses some of them, and gathers their identities. -/
theorem replacementLoop_ok {incoming : RewardAttestationBundle}
    {incomingIdentities : Finset AttestationIdentity} {txids' : List PyStr}
    {identities' : Finset AttestationIdentity}
    (h : replacementLoop incoming incomingIdentities entries txids identities =
      .ok (some (txids', identities'))) :
    ∃ chosen chosenTxids, Absorbed incomingIdentities entries chosen chosenTxids ∧
      txids' = txids ++ chosenTxids ∧
      identities' = identities ∪
        (chosen.map (·.transaction)).toFinset.biUnion recordedIdentities := by
  induction entries generalizing txids identities with
  | nil =>
    cases h
    exact ⟨[], [], .nil _ _, (append_nil _).symm, (Finset.union_empty _).symm⟩
  | cons entry rest ih =>
    -- A round that passes over its entry leaves the choice to the others.
    have hskip : replacementLoop incoming incomingIdentities rest txids identities =
        .ok (some (txids', identities')) →
        ∃ chosen chosenTxids, Absorbed incomingIdentities (entry :: rest) chosen chosenTxids ∧
          txids' = txids ++ chosenTxids ∧
          identities' = identities ∪
            (chosen.map (·.transaction)).toFinset.biUnion recordedIdentities := by
      intro hloop
      obtain ⟨chosen, chosenTxids, habsorbed, hfacts⟩ := ih hloop
      exact ⟨chosen, chosenTxids,
        ⟨habsorbed.sublist.cons entry, habsorbed.txids, habsorbed.bundles⟩, hfacts⟩
    rw [replacementLoop] at h
    split at h
    · next hkind =>
      obtain ⟨found, hfound, h⟩ := bind_eq_ok.mp h
      cases found with
      | none => exact hskip h
      | some existing =>
        have hown := recordedIdentities_eq (pendingBundle_eq_some.mp hfound)
        dsimp only at h
        rw [← hown] at h
        split at h
        · exact hskip h
        split at h
        · exact hskip h
        next hnonempty =>
        split at h
        · next hcontained =>
          obtain ⟨txid, htxid, h⟩ := bind_eq_ok.mp h
          obtain ⟨chosen, chosenTxids, habsorbed, rfl, rfl⟩ := ih h
          refine ⟨entry :: chosen, txid :: chosenTxids, ⟨habsorbed.sublist.cons_cons entry,
            ?_, ?_⟩, ?_, ?_⟩
          · rw [map_cons, map_cons, htxid, habsorbed.txids]
          · intro other hother
            rcases List.mem_cons.mp hother with rfl | hother
            · exact ⟨hkind, Finset.nonempty_iff_ne_empty.mpr hnonempty, hcontained⟩
            · exact habsorbed.bundles other hother
          · rw [append_assoc, singleton_append]
          · rw [map_cons, toFinset_cons, Finset.biUnion_insert, Finset.union_assoc]
        split at h
        · cases h
        · exact hskip h
    · exact hskip h

/-- **What a bundle replaces.** -/
theorem replacementTxids_ok (h : rewardAttestationBundleReplacementTxids tx entries = .ok txids) :
    ∃ chosen, Absorbed (recordedIdentities tx) entries chosen txids ∧
      (chosen ≠ [] → isRewardAttestationBundleTransaction tx ∧
        (1 < chosen.length ∨
          ((chosen.map (·.transaction)).toFinset.biUnion recordedIdentities).card <
            (recordedIdentities tx).card)) := by
  rw [rewardAttestationBundleReplacementTxids] at h
  split at h
  · next hkind =>
    split at h
    · split at h
      · cases h
        exact ⟨[], .nil _ _, fun hne => absurd rfl hne⟩
      · cases h
    · next incoming hparse =>
      have hown := recordedIdentities_eq hparse
      dsimp only at h
      rw [← hown] at h
      split at h
      · cases h
        exact ⟨[], .nil _ _, fun hne => absurd rfl hne⟩
      · obtain ⟨found, hloop, h⟩ := bind_eq_ok.mp h
        rcases found with _ | ⟨replaced, identities⟩
        · cases h
          exact ⟨[], .nil _ _, fun hne => absurd rfl hne⟩
        · dsimp only at h
          split at h
          · -- Only a bundle that covers more, or several at once, replaces anything.
            next hbetter =>
            cases h
            obtain ⟨chosen, chosenTxids, habsorbed, rfl, rfl⟩ := replacementLoop_ok hloop
            rw [habsorbed.length_txids, Finset.empty_union] at hbetter
            exact ⟨chosen, habsorbed, fun _ => ⟨hkind, hbetter⟩⟩
          · cases h
            exact ⟨[], .nil _ _, fun hne => absurd rfl hne⟩
  · cases h
    exact ⟨[], .nil _ _, fun hne => absurd rfl hne⟩

/-- A round of the bundle policy's loop. -/
def bundleRound (bundle : RewardAttestationBundle)
    (existingAttestations : Finset AttestationIdentity) (entry : MempoolEntry) :
    Except PyError (Finset AttestationIdentity) := do
  match ← pendingBundle entry with
  | none => return existingAttestations
  | some existing =>
    raiseIf (existing.epochIndex = bundle.epochIndex ∧
        existing.bundleWindowIndex = bundle.bundleWindowIndex ∧
        existing.bundleSubmitterNodeId = bundle.bundleSubmitterNodeId)
      (.validation ("Mempool already contains a reward_attestation_bundle transaction " ++
        "for this epoch, window, and submitter."))
    return existingAttestations ∪ (existing.attestations.map attestationIdentity).toFinset

/-- The loop of the bundle policy collects the identities of the pending bundles, none of which has
the key of the new one. -/
theorem bundlePolicy_fold_ok {seen seen' : Finset AttestationIdentity}
    (h : entries.foldlM (bundleRound bundle) seen = .ok seen') :
    seen ⊆ seen' ∧ ∀ entry ∈ entries, ∀ existing,
      parseRewardAttestationBundleMetadata entry.transaction = .ok existing →
        bundleKey existing ≠ bundleKey bundle ∧
          recordedIdentities entry.transaction ⊆ seen' := by
  induction entries generalizing seen with
  | nil =>
    cases h
    exact ⟨Finset.Subset.refl _, fun entry hentry => absurd hentry not_mem_nil⟩
  | cons entry rest ih =>
    obtain ⟨next, hround, hrest⟩ := foldlM_cons_eq_ok.mp h
    obtain ⟨hgrows, hlater⟩ := ih hrest
    obtain ⟨found, hfound, hround⟩ := bind_eq_ok.mp hround
    -- One round: entries that are no bundles are skipped, the others must differ in the key.
    have hhead : seen ⊆ next ∧ ∀ existing,
        parseRewardAttestationBundleMetadata entry.transaction = .ok existing →
          bundleKey existing ≠ bundleKey bundle ∧ recordedIdentities entry.transaction ⊆ next := by
      cases found with
      | none =>
        cases hround
        refine ⟨Finset.Subset.refl _, fun existing hparse => ?_⟩
        rw [pendingBundle_eq_some.mpr hparse] at hfound
        cases hfound
      | some existing =>
        obtain ⟨⟨⟩, hkey, hround⟩ := bind_eq_ok.mp hround
        cases hround
        refine ⟨Finset.subset_union_left, fun other hparse => ?_⟩
        rw [pendingBundle_eq_some.mpr hparse] at hfound
        cases hfound
        refine ⟨fun hsame => raiseIf_eq_ok.mp hkey ?_, ?_⟩
        · simpa [bundleKey] using hsame
        · rw [recordedIdentities_eq hparse]
          exact Finset.subset_union_right
    refine ⟨hhead.1.trans hgrows, fun other hother existing hparse => ?_⟩
    rcases List.mem_cons.mp hother with rfl | hother
    · obtain ⟨hkey, hmem⟩ := hhead.2 existing hparse
      exact ⟨hkey, hmem.trans hgrows⟩
    · exact hlater other hother existing hparse

/-- **What a new bundle has passed.** -/
theorem bundlePolicy_ok (h : enforceRewardAttestationBundleMempoolPolicy policy tx entries = .ok ())
    (hkind : isRewardAttestationBundleTransaction tx) :
    ∃ bundle, parseRewardAttestationBundleMetadata tx = .ok bundle ∧
      entries.countP (fun entry => isRewardAttestationBundleTransaction entry.transaction) <
        policy.maxRewardAttestationBundleTransactions ∧
      ∀ entry ∈ entries, isRewardAttestationBundleTransaction entry.transaction →
        ∀ existing, parseRewardAttestationBundleMetadata entry.transaction = .ok existing →
          bundleKey existing ≠ bundleKey bundle ∧
            Disjoint (recordedIdentities tx) (recordedIdentities entry.transaction) := by
  rw [enforceRewardAttestationBundleMempoolPolicy, if_pos hkind] at h
  obtain ⟨bundle, hparse, h⟩ := bind_eq_ok.mp h
  have hparse := rethrow_eq_ok.mp hparse
  obtain ⟨⟨⟩, hcount, h⟩ := bind_eq_ok.mp h
  obtain ⟨seen, hfold, h⟩ := bind_eq_ok.mp h
  obtain ⟨-, hpending⟩ := bundlePolicy_fold_ok hfold
  refine ⟨bundle, hparse, ?_, fun entry hentry hbundle existing hexisting => ?_⟩
  · rw [countP_eq_length_filter]
    exact not_le.mp (raiseIf_eq_ok.mp hcount)
  · obtain ⟨hkey, hseen⟩ := hpending entry (List.mem_filter.mpr ⟨hentry, hbundle⟩) existing
      hexisting
    -- An identity in common would have been found in the collected ones.
    refine ⟨hkey, Finset.disjoint_left.mpr fun identity hnew hold => ?_⟩
    rw [recordedIdentities_eq hparse, mem_toFinset, mem_map] at hnew
    obtain ⟨attestation, hmem, rfl⟩ := hnew
    exact raiseIf_eq_ok.mp h (List.any_eq_true.mpr
      ⟨attestation, hmem, decide_eq_true (hseen hold)⟩)

/-- What an admitted transaction has passed. -/
structure AdmissionFacts (node : Node) (store : Store) (transaction : Transaction)
    (admission : Admission) (txid : PyStr) : Prop where
  checks : admissionChecks node store transaction = .ok admission
  standard : enforcePreValidationPolicy node.policy transaction = .ok ()
  txid_eq : transaction.txid = .ok txid
  absent : store.mempool[txid]? = none
  unconfirmed : isKnownOnChain store txid = false
  replaced : rewardAttestationBundleReplacementTxids transaction store.listMempool =
    .ok admission.replacementTxids
  specialPolicy : enforceSpecialNodeMempoolPolicy node.policy transaction
    (effectiveEntries store.listMempool admission.replacementTxids) = .ok ()
  bundlePolicy : enforceRewardAttestationBundleMempoolPolicy node.policy transaction
    (effectiveEntries store.listMempool admission.replacementTxids) = .ok ()
  doubleSpend : ensureNoMempoolDoubleSpend transaction
    (effectiveEntries store.listMempool admission.replacementTxids) = .ok ()
  valid : ∃ (snapshot : UtxoView) (context : ValidationContext),
    snapshotWithMempoolApplied node store = .ok snapshot ∧
      validationContextForView node.toNodeConfig store snapshot store.registrySnapshot none =
        .ok context ∧
      validateTransaction transaction context = .ok admission.feeChipbits
  policy : enforcePolicy node.policy transaction admission.feeChipbits = .ok ()

theorem admissionChecks_ok (h : admissionChecks node db tx = .ok admission) :
    ∃ txid, AdmissionFacts node db tx admission txid := by
  have hchecks := h
  simp only [admissionChecks, bind_eq_ok, raiseIf_eq_ok, pure_eq_ok] at h
  obtain ⟨_, -, _, hstandard, txid, htxid, _, habsent, _, hunknown, replaced, hreplaced, _,
    hspecial, _, hbundle, _, hspend, snapshot, hsnapshot, ctx, hcontext, fee, hvalid, _,
    hpolicy, rfl⟩ := h
  refine ⟨txid, hchecks, hstandard, htxid, ?_, ?_, hreplaced, hspecial, hbundle, hspend,
    ⟨snapshot, ctx, hsnapshot, hcontext, hvalid⟩, hpolicy⟩
  · simpa using habsent
  · simpa using hunknown

/-- The new row of an admission. -/
def admittedEntry (clock : ℕ → Int) (transaction : Transaction) (addedAt : Option Int)
    (admission : Admission) : MempoolEntry where
  transaction := transaction
  fee := admission.feeChipbits
  addedAt := addedAt.getD (clock 0)

/-- The pool of an admission before expiry and eviction. -/
def admittedStore (store : Store) (txid : PyStr) (clock : ℕ → Int) (transaction : Transaction)
    (addedAt : Option Int) (admission : Admission) : Store :=
  (store.dropPending admission.replacementTxids).putPending txid
    (admittedEntry clock transaction addedAt admission)

theorem AdmissionFacts.keyed (facts : AdmissionFacts node db tx admission txid)
    (hkeyed : db.Keyed) (clock : ℕ → Int) (addedAt : Option Int) :
    (admittedStore db txid clock tx addedAt admission).Keyed :=
  (hkeyed.drop _).put facts.txid_eq

/-- **Admission in stages**: the replaced rows go, the new row comes, then the expired rows and
those above the capacity go. -/
theorem eval_accept (facts : AdmissionFacts node db tx admission txid)
    (hkeyed : db.Keyed) (clock : ℕ → Int) (addedAt : Option Int) :
    ∃ expired,
      (admittedStore db txid clock tx addedAt admission).Expires node.policy
        (pruneTime clock addedAt) expired ∧
      (accept node clock tx addedAt).eval db = .ok (admission.feeChipbits,
        ((admittedStore db txid clock tx addedAt admission).dropPending
          expired).evicted node.policy) := by
  obtain ⟨expired, hprune, hexpired⟩ := eval_pruneExpired (facts.keyed hkeyed clock addedAt)
    node.policy (pruneTime clock addedAt)
  refine ⟨expired, hexpired, ?_⟩
  have hremove := eval_removeMany admission.replacementTxids db
  have hadd := eval_addMempool facts.txid_eq admission.feeChipbits (addedAt.getD (clock 0))
    (db.dropPending admission.replacementTxids)
  rw [accept, Program.eval_get_andThen]
  exact Program.eval_ofExcept_andThen_eq_ok.mpr ⟨admission, facts.checks,
    Program.eval_andThen_eq_ok.mpr ⟨_, hremove, Program.eval_andThen_eq_ok.mpr ⟨_, hadd,
      Program.eval_andThen_eq_ok.mpr ⟨_, hprune, Program.eval_andThen_eq_ok.mpr
        ⟨_, eval_evictIfNeeded node.policy _, rfl⟩⟩⟩⟩⟩

/-- The tables that an admission leaves. -/
theorem accept_ok (hkeyed : db.Keyed)
    (h : (accept node clock tx addedAt).eval db = .ok (fee, db')) :
    ∃ admission txid expired, AdmissionFacts node db tx admission txid ∧
      (admittedStore db txid clock tx addedAt admission).Expires node.policy
        (pruneTime clock addedAt) expired ∧
      db' = ((admittedStore db txid clock tx addedAt admission).dropPending
        expired).evicted node.policy ∧ fee = admission.feeChipbits := by
  rw [accept, Program.eval_get_andThen] at h
  obtain ⟨admission, hchecks, -⟩ := Program.eval_ofExcept_andThen_eq_ok.mp h
  obtain ⟨txid, facts⟩ := admissionChecks_ok hchecks
  obtain ⟨expired, hexpired, heval⟩ := eval_accept facts hkeyed clock addedAt
  rw [accept, Program.eval_get_andThen, h] at heval
  cases heval
  exact ⟨admission, txid, expired, facts, hexpired, rfl, rfl⟩

end

end Chipcoin
