import Chipcoin.Node.Pool

/-!
# Consistency of the mempool

No two pending transactions spend the same outpoint (`NoDoubleSpend`), after any sequence of
admissions, removals and reconciliations. That every input of a pending transaction is in the chain
or in the pool (`EveryInputBacked`) is another matter: a transaction is checked against a view with
all pending outputs, but expiry, eviction and removal take single rows away and do not look at the
transactions that spend their outputs. A reconciliation rebuilds a pool with both properties; only
the eviction at its end can spoil it.

* `PoolEvent`, `PoolStep`: the operations, with the chain moving freely before a reconciliation.
* `PoolEvent.Gentle`: nothing that goes feeds a transaction that stays.
* `Sound.accept`, `backed_accept`: one admission.
* `Rebuilt`, `Backs`: the invariants of the two loops of a reconciliation.
* `mempool_consistent`: the two properties over all runs and over the gentle ones.
-/

namespace Chipcoin

open Checked Database List

variable {entry : MempoolEntry} {other : PyStr} {outpoint : OutPoint} {rival : Transaction}
  {extraTransactions : List Transaction} {event : PoolEvent} {fee : Int}

section

variable [Platform]

/-! ### The two properties -/

/-- No two entries spend the same outpoint. -/
def NoDoubleSpend (db : Store) : Prop :=
  Pending.Exclusive spendsOutpoint db.pending

/-- Every input of every entry refers to an outpoint of the chain or to an output of another
entry. -/
def EveryInputBacked (db : Store) : Prop :=
  Pending.Supported spendsOutpoint createsOutpoint (fun outpoint => db.utxos[outpoint]? ≠ none)
    db.pending

/-! ### Operations on the pool -/

/-- An operation on the pool. A reconciliation finds the tables as they are in `chain`, with the
mempool of before: the chain may have moved in between. -/
inductive PoolEvent
  | accept (node : Node) (clock : ℕ → Int) (tx : Transaction) (addedAt : Option Int)
  | reconcile (node : Node) (clock : ℕ → Int) (chain : Store) (extraTransactions : List Transaction)
  | removeMany (txids : List PyStr)

/-- The tables after an operation that returns. -/
inductive PoolStep (db : Store) : PoolEvent → Store → Prop
  | accept {node : Node} {clock : ℕ → Int} {tx : Transaction} {addedAt : Option Int}
      {fee : Int} {db' : Store}
      (h : (Chipcoin.accept node clock tx addedAt).eval db = .ok (fee, db')) :
      PoolStep db (.accept node clock tx addedAt) db'
  | reconcile {node : Node} {clock : ℕ → Int} {chain : Store}
      {extraTransactions : List Transaction} {db' : Store}
      (h : (Chipcoin.reconcile node clock extraTransactions).eval
        { chain with mempool := db.mempool } = .ok ((), db')) :
      PoolStep db (.reconcile node clock chain extraTransactions) db'
  | removeMany {txids : List PyStr} {db' : Store}
      (h : (Chipcoin.removeMany txids).eval db = .ok ((), db')) :
      PoolStep db (.removeMany txids) db'

/-- The tables that operations reach from an empty mempool over any chain, when every operation
meets a condition on the tables before it. -/
inductive PoolReached (Meets : Store → PoolEvent → Prop) : Store → Prop
  | start {db : Store} (h : db.mempool = ∅) : PoolReached Meets db
  | step {db db' : Store} {event : PoolEvent} (before : PoolReached Meets db)
      (meets : Meets db event) (h : PoolStep db event db') : PoolReached Meets db'

/-- The second transaction spends an output of the first. -/
def Feeds (parent child : Transaction) : Prop :=
  ∃ txid outpoint, parent.txid = .ok txid ∧ createsOutpoint txid parent outpoint ∧
    spendsOutpoint child outpoint

/-- No transaction of the list spends an output of another one. -/
def Unlinked (txs : List Transaction) : Prop :=
  ∀ parent ∈ txs, ∀ child ∈ txs, parent ≠ child → ¬ Feeds parent child

/-- The txid determines what a transaction of the list spends and creates. -/
def TxidsAgree (txs : List Transaction) : Prop :=
  ∀ a ∈ txs, ∀ b ∈ txs, ∀ txid, a.txid = .ok txid → b.txid = .ok txid →
    a.inputs = b.inputs ∧ a.outputs = b.outputs

/-- **The condition on one operation.** What it removes feeds nothing that stays: an admission finds
no expired parent of an entry that has not expired, everything fits the capacity or no transaction
depends on another, and a removal takes children along. -/
def PoolEvent.Gentle (db : Store) : PoolEvent → Prop
  | accept node clock tx addedAt =>
    let expired := fun time => isExpired node.policy time (pruneTime clock addedAt)
    (∀ parent ∈ db.listMempool, expired parent.addedAt →
      (¬ expired (addedAt.getD (clock 0)) → ¬ Feeds parent.transaction tx) ∧
      ∀ child ∈ db.listMempool, ¬ expired child.addedAt →
        ¬ Feeds parent.transaction child.transaction) ∧
    (db.mempool.size + 1 ≤ node.policy.maxMempoolTransactions ∨
      Unlinked (tx :: db.pendingTransactions))
  | reconcile node _ _ extraTransactions =>
    TxidsAgree (db.pendingTransactions ++ extraTransactions) ∧
    (db.mempool.size + extraTransactions.length ≤ node.policy.maxMempoolTransactions ∨
      Unlinked (db.pendingTransactions ++ extraTransactions))
  | removeMany txids =>
    ∀ txid ∈ txids, ∀ other, other ∉ txids → ∀ parent child, db.pending txid = some parent →
      db.pending other = some child → ¬ Feeds parent child

/-! ### The invariant of all runs -/

/-- What holds of every pool: rows under their txid, transactions that have passed the stateless
checks, no outpoint spent twice. -/
structure Sound (db : Store) : Prop where
  keyed : db.Keyed
  stateless : ∀ txid tx, db.pending txid = some tx →
    validateTransactionStateless tx = .ok ()
  exclusive : NoDoubleSpend db

theorem Sound.of_empty {db : Store} (h : db.mempool = ∅) : Sound db := by
  have hnone : db.pending = fun _ => none := by
    funext txid
    rw [Store.pending, h, Std.ExtTreeMap.getElem?_empty]
    rfl
  refine ⟨?_, ?_, ?_⟩
  · intro txid tx hpending
    rw [hnone] at hpending
    cases hpending
  · intro txid tx hpending
    rw [hnone] at hpending
    cases hpending
  · rw [NoDoubleSpend, hnone]
    exact Pending.Exclusive.empty

private theorem Sound.drop {db : Store} (h : Sound db) (txids : List PyStr) :
    Sound (db.dropPending txids) where
  keyed := h.keyed.drop txids
  stateless txid tx hpending :=
    h.stateless txid tx (sub_dropPending db txids txid tx hpending)
  exclusive := h.exclusive.sub (sub_dropPending db txids)

private theorem Sound.put {db : Store} (h : Sound db) {txid : PyStr}
    (htxid : entry.transaction.txid = .ok txid)
    (hstateless : validateTransactionStateless entry.transaction = .ok ())
    (hnew : ∀ other rival outpoint, db.pending other = some rival →
      spendsOutpoint entry.transaction outpoint → ¬ spendsOutpoint rival outpoint) :
    Sound (db.putPending txid entry) := by
  refine ⟨h.keyed.put htxid, ?_, ?_⟩
  · intro other tx hpending
    rw [Store.pending_putPending, Function.update_apply] at hpending
    split_ifs at hpending with hother
    · cases hpending
      exact hstateless
    · exact h.stateless other tx hpending
  · rw [NoDoubleSpend, Store.pending_putPending]
    exact h.exclusive.insert hnew

/-! ### Rows that go and keep the inputs backed -/

omit [Platform] in
/-- Rows may go when what they give to those that stay is in the chain as well. -/
theorem EveryInputBacked.drop {db : Store} (h : EveryInputBacked db) (txids : List PyStr)
    (hgone : ∀ txid ∈ txids, ∀ other, other ∉ txids → ∀ parent child,
      db.pending txid = some parent → db.pending other = some child → ∀ outpoint,
        spendsOutpoint child outpoint → createsOutpoint txid parent outpoint →
          db.utxos[outpoint]? ≠ none) :
    EveryInputBacked (db.dropPending txids) := by
  refine Pending.Supported.sub h (sub_dropPending db txids) ?_
  intro txid parent hparent hnone other child _ hchild outpoint hspends hcreates
  rw [Store.pending_dropPending] at hnone hchild
  split_ifs at hnone with hdropped
  · split_ifs at hchild with hstays
    exact hgone txid hdropped other hstays parent child hparent hchild outpoint hspends hcreates
  · -- A row that is not dropped is still there.
    rw [hparent] at hnone
    cases hnone

section

variable {db : Store} {known : List Transaction} (h : EveryInputBacked db)
  (hkeyed : db.Keyed)
  (hknown : ∀ txid tx, db.pending txid = some tx → tx ∈ known)
include h hkeyed hknown

/-- Without links between the transactions any rows may go. -/
theorem EveryInputBacked.drop_of_unlinked (hunlinked : Unlinked known) (txids : List PyStr) :
    EveryInputBacked (db.dropPending txids) := by
  refine h.drop txids ?_
  intro txid hmem other hstays parent child hparent hchild outpoint hspends hcreates
  have hparentTxid := hkeyed txid parent hparent
  have hne : parent ≠ child := by
    rintro rfl
    have hsame := ok_unique hparentTxid (hkeyed other parent hchild)
    exact hstays (hsame ▸ hmem)
  exact absurd ⟨txid, outpoint, hparentTxid, hcreates, hspends⟩
    (hunlinked parent (hknown txid parent hparent) child (hknown other child hchild) hne)

/-- An eviction keeps the inputs backed when it has nothing to do or the transactions are
unlinked. -/
theorem EveryInputBacked.evict {policy : MempoolPolicy}
    (hroom : known.length ≤ policy.maxMempoolTransactions ∨ Unlinked known) :
    EveryInputBacked (db.evicted policy) := by
  rcases hroom with hroom | hunlinked
  · rw [Store.evicted_of_le ((hkeyed.size_le hknown).trans hroom)]
    exact h
  · exact h.drop_of_unlinked hkeyed hknown hunlinked _

end

/-! ### Admission -/

section

variable {node : Node} {clock : ℕ → Int} {tx : Transaction} {addedAt : Option Int}
  {db db' : Store} {admission : Admission} {txid : PyStr}

section

variable (facts : AdmissionFacts node db tx admission txid)
include facts

private theorem AdmissionFacts.stateless : validateTransactionStateless tx = .ok () := by
  obtain ⟨snapshot, ctx, -, -, hvalid⟩ := facts.valid
  obtain ⟨⟨⟩, hstateless, -⟩ := bind_eq_ok.mp hvalid
  exact hstateless

/-- The new transaction has no rival among the rows that are not replaced. -/
theorem AdmissionFacts.noRival (hkeyed : db.Keyed)
    (hrival : (db.dropPending admission.replacementTxids).pending other = some rival)
    (hspends : spendsOutpoint tx outpoint) : ¬ spendsOutpoint rival outpoint := by
  rw [Store.pending_dropPending] at hrival
  split_ifs at hrival with hreplaced
  obtain ⟨entry, hget, rfl⟩ := Store.pending_eq_some.mp hrival
  refine ensureNoMempoolDoubleSpend_ok facts.doubleSpend ?_ hspends
  refine List.mem_filter.mpr ⟨mem_listMempool.mpr ⟨other, hget⟩, ?_⟩
  rw [hkeyed other entry.transaction hrival]
  exact decide_eq_true hreplaced

/-- Replaced rows hold bundles, which spend and create nothing. -/
theorem AdmissionFacts.replaced_noCoins (sound : Sound db) {replaced : Transaction}
    (hmem : other ∈ admission.replacementTxids) (hpending : db.pending other = some replaced) :
    replaced.inputs = [] ∧ replaced.outputs = [] := by
  obtain ⟨chosen, habsorbed, -⟩ := replacementTxids_ok facts.replaced
  obtain ⟨entry, hentry, htxid⟩ := habsorbed.mem_txids.mp hmem
  have hkind := (habsorbed.bundles entry hentry).1
  obtain ⟨own, hown, hget⟩ := sound.keyed.txid_of_mem (habsorbed.sublist.mem hentry)
  obtain rfl := ok_unique htxid hown
  obtain ⟨row, hrow, rfl⟩ := Store.pending_eq_some.mp hpending
  obtain rfl := Option.mem_unique hrow hget
  refine validateTransactionStateless_noCoins (sound.stateless other _ hpending) ?_
  rw [carriesNoCoins, hkind, Bool.or_true, Bool.true_or]

/-- The pool once the new row is in. -/
theorem AdmissionFacts.sound_put (sound : Sound db) (clock : ℕ → Int) (addedAt : Option Int) :
    Sound (admittedStore db txid clock tx addedAt admission) :=
  (sound.drop admission.replacementTxids).put facts.txid_eq facts.stateless
    fun _ _ _ hrival hspends => facts.noRival sound.keyed hrival hspends

end

theorem Sound.accept (sound : Sound db)
    (h : (Chipcoin.accept node clock tx addedAt).eval db = .ok (fee, db')) :
    Sound db' := by
  obtain ⟨admission, txid, expired, facts, -, rfl, -⟩ := accept_ok sound.keyed h
  exact ((facts.sound_put sound clock addedAt).drop expired).drop _

/-- **The new row is backed**: its inputs are in the view of the pool, and what is replaced has put
nothing there. -/
theorem AdmissionFacts.backed_put (facts : AdmissionFacts node db tx admission txid)
    (sound : Sound db) (backed : EveryInputBacked db) (fee time : Int) :
    EveryInputBacked ((db.dropPending admission.replacementTxids).putPending txid
      { transaction := tx, fee := fee, addedAt := time }) := by
  have hdropped : EveryInputBacked (db.dropPending admission.replacementTxids) := by
    refine backed.drop _ ?_
    intro other hmem _ _ parent _ hparent _ outpoint _ hcreates
    have hnone := (facts.replaced_noCoins sound hmem hparent).2
    rw [createsOutpoint, hnone] at hcreates
    exact absurd hcreates.2.2 (Nat.not_lt_zero _)
  have habsent : db.pending txid = none := by
    rw [Store.pending, facts.absent]
    rfl
  rw [EveryInputBacked, Store.pending_putPending]
  refine Pending.Supported.insert hdropped ?_ ?_
  · intro old outpoint hold _
    have hthere := sub_dropPending db _ txid old hold
    rw [habsent] at hthere
    cases hthere
  · intro outpoint hspends
    obtain ⟨snapshot, ctx, hsnapshot, hcontext, hvalid⟩ := facts.valid
    have hshown := validateTransaction_present hvalid hspends
    rw [validationContextForView_view hcontext] at hshown
    rcases snapshot_shows hsnapshot hshown with hchain | ⟨entry, hentry, other, htxid, hcreates⟩
    · exact .inl hchain
    · obtain ⟨own, hown, hget⟩ := sound.keyed.txid_of_mem hentry
      obtain rfl := ok_unique htxid hown
      have hpending : db.pending other = some entry.transaction :=
        Store.pending_eq_some.mpr ⟨entry, hget, rfl⟩
      refine .inr ⟨other, entry.transaction, ?_, ?_, hcreates⟩
      · rintro rfl
        rw [habsent] at hpending
        cases hpending
      · -- A replaced row would have an output here.
        rw [Store.pending_dropPending, if_neg, hpending]
        intro hreplaced
        have hnone := (facts.replaced_noCoins sound hreplaced hpending).2
        rw [createsOutpoint, hnone] at hcreates
        exact absurd hcreates.2.2 (Nat.not_lt_zero _)

omit [Platform] in
/-- A row of the pool with the new one is an old row or the new one. -/
theorem mempool_admitted {replaced : List PyStr} {row : MempoolEntry}
    (h : ((db.dropPending replaced).putPending txid entry).mempool[other]? = some row) :
    (other = txid ∧ row = entry) ∨ db.mempool[other]? = some row := by
  rw [Store.putPending, Table.getElem?_insert] at h
  split_ifs at h with hother
  · exact .inl ⟨hother, (Option.some.inj h).symm⟩
  · rw [Store.mempool_dropPending] at h
    split_ifs at h
    exact .inr h

/-- **Pruning in a gentle admission.** An expired parent is an old row, which has no child that
stays, or the new one, which had no child before. -/
theorem backed_prune (facts : AdmissionFacts node db tx admission txid)
    (sound : Sound db) (backed : EveryInputBacked db) (hexpiry : ∀ parent ∈ db.listMempool,
      isExpired node.policy parent.addedAt (pruneTime clock addedAt) →
      (¬ isExpired node.policy (addedAt.getD (clock 0)) (pruneTime clock addedAt) →
        ¬ Feeds parent.transaction tx) ∧
      ∀ child ∈ db.listMempool,
        ¬ isExpired node.policy child.addedAt (pruneTime clock addedAt) →
          ¬ Feeds parent.transaction child.transaction)
    {expired : List PyStr} (hexpired : (admittedStore db txid clock tx addedAt admission).Expires
      node.policy (pruneTime clock addedAt) expired) :
    EveryInputBacked
      ((admittedStore db txid clock tx addedAt admission).dropPending expired) := by
  have hsound := facts.sound_put sound clock addedAt
  refine EveryInputBacked.drop (facts.backed_put sound backed _ _) expired ?_
  intro parentTxid hgone childTxid hstays parent child hparent hchild outpoint hspends hcreates
  obtain ⟨parentRow, hparentRow, hparentExpired⟩ := (hexpired parentTxid).mp hgone
  obtain ⟨row, hrow, rfl⟩ := Store.pending_eq_some.mp hparent
  obtain rfl := Option.mem_unique hrow hparentRow
  obtain ⟨childRow, hchildRow, rfl⟩ := Store.pending_eq_some.mp hchild
  have hchildAlive : ¬ isExpired node.policy childRow.addedAt (pruneTime clock addedAt) :=
    fun hdead => hstays ((hexpired childTxid).mpr ⟨childRow, hchildRow, hdead⟩)
  have hfeeds : Feeds row.transaction childRow.transaction :=
    ⟨parentTxid, outpoint, hsound.keyed parentTxid _ hparent, hcreates, hspends⟩
  rcases mempool_admitted hparentRow with ⟨hnew, -⟩ | hold
  · rcases mempool_admitted hchildRow with ⟨hchildNew, -⟩ | hchildOld
    · exact absurd (hchildNew.trans hnew.symm ▸ hgone) hstays
    · -- The child was backed before, and by no row under the new txid.
      have hpending := Store.pending_eq_some.mpr ⟨childRow, hchildOld, rfl⟩
      rcases backed childTxid _ hpending outpoint hspends with hchain | ⟨giver, given, -, hgiver,
        hgives⟩
      · exact hchain
      · have hsame : giver = txid := by rw [← hgives.1, hcreates.1, hnew]
        rw [hsame, Store.pending, facts.absent] at hgiver
        cases hgiver
  · obtain ⟨hnewChild, hchildren⟩ :=
      hexpiry row (mem_listMempool.mpr ⟨parentTxid, hold⟩) hparentExpired
    rcases mempool_admitted hchildRow with ⟨-, rfl⟩ | hchildOld
    · exact absurd hfeeds (hnewChild hchildAlive)
    · exact absurd hfeeds
        (hchildren childRow (mem_listMempool.mpr ⟨childTxid, hchildOld⟩) hchildAlive)

/-- **A gentle admission keeps the inputs backed.** -/
theorem backed_accept (sound : Sound db) (backed : EveryInputBacked db)
    (hgentle : (PoolEvent.accept node clock tx addedAt).Gentle db)
    (h : (accept node clock tx addedAt).eval db = .ok (fee, db')) :
    EveryInputBacked db' := by
  obtain ⟨admission, txid, expired, facts, hexpired, rfl, -⟩ := accept_ok sound.keyed h
  obtain ⟨hexpiry, hroom⟩ := hgentle
  have hknown : ∀ other found,
      ((admittedStore db txid clock tx addedAt admission).dropPending expired).pending
        other = some found → found ∈ tx :: db.pendingTransactions := by
    intro other found hfound
    obtain ⟨row, hget, rfl⟩ := Store.pending_eq_some.mp (sub_dropPending _ expired other found
      hfound)
    rcases mempool_admitted hget with ⟨-, rfl⟩ | hold
    · exact mem_cons_self
    · exact mem_cons_of_mem _ (mem_pendingTransactions.mpr
        ⟨other, Store.pending_eq_some.mpr ⟨row, hold, rfl⟩⟩)
  refine (backed_prune facts sound backed hexpiry hexpired).evict
    ((facts.keyed sound.keyed clock addedAt).drop expired) hknown ?_
  rw [length_cons, length_pendingTransactions]
  exact hroom

end

/-! ### Reconciliation -/

/-- The loops of a reconciliation, on any transactions of a list: the rows written so far hold the
entries remembered so far, and the view shows nothing but the chain and their outputs. -/
structure Rebuilt (known : List Transaction) (chain : UtxoSet) (pending : PendingState)
    (db : Store) : Prop where
  utxos : db.utxos = chain
  sound : Sound db
  known : ∀ txid tx, db.pending txid = some tx → tx ∈ known
  remembered : ∀ txid tx, db.pending txid = some tx →
    ∃ entry ∈ pending.entries, entry.transaction = tx
  shows : ∀ outpoint, pending.view.get outpoint ≠ none → chain[outpoint]? ≠ none ∨
    ∃ entry ∈ pending.entries, ∃ txid, entry.transaction.txid = .ok txid ∧
      createsOutpoint txid entry.transaction outpoint

/-- The same loops when the txids of the list agree: every remembered entry has a row that creates
what it creates, and the inputs are backed. -/
structure Backs (pending : PendingState) (db : Store) : Prop where
  rows : ∀ entry ∈ pending.entries, ∀ txid, entry.transaction.txid = .ok txid →
    ∃ row, db.pending txid = some row ∧ row.outputs = entry.transaction.outputs
  backed : EveryInputBacked db

section

variable {known : List Transaction} {chain : UtxoSet} {pending : PendingState} {db : Store}
  {node : Node} {nextHeight : ℕ} {tx : Transaction} {feeChipbits addedAt : Int}
  {view : UtxoView} {txid : PyStr} {entry : MempoolEntry}

/-- A readmitted transaction has no rival in the pool. -/
theorem Rebuilt.noRival (rebuilt : Rebuilt known chain pending db)
    (hspend : ensureNoMempoolDoubleSpend tx pending.entries = .ok ())
    (hrival : db.pending other = some rival) (hspends : spendsOutpoint tx outpoint) :
    ¬ spendsOutpoint rival outpoint := by
  obtain ⟨entry, hentry, rfl⟩ := rebuilt.remembered other rival hrival
  exact ensureNoMempoolDoubleSpend_ok hspend hentry hspends

/-- One readmission. -/
theorem Rebuilt.put (rebuilt : Rebuilt known chain pending db)
    (hmem : entry.transaction ∈ known) (htxid : entry.transaction.txid = .ok txid)
    (hchecks : readmissionChecks node db pending nextHeight entry.transaction =
      .ok (feeChipbits, view)) :
    Rebuilt known chain { view := view, entries := pending.entries ++ [entry] }
      (db.putPending txid entry) := by
  obtain ⟨hspend, ⟨ctx, -, hvalid⟩, happly⟩ := readmissionChecks_ok hchecks
  obtain ⟨⟨⟩, hstateless, -⟩ := bind_eq_ok.mp hvalid
  refine ⟨rebuilt.utxos, ?_, ?_, ?_, ?_⟩
  · exact rebuilt.sound.put htxid hstateless
      fun _ _ _ hrival hspends => rebuilt.noRival hspend hrival hspends
  · intro other found hfound
    rw [Store.pending_putPending, Function.update_apply] at hfound
    split_ifs at hfound
    · cases hfound
      exact hmem
    · exact rebuilt.known other found hfound
  · intro other found hfound
    rw [Store.pending_putPending, Function.update_apply] at hfound
    split_ifs at hfound
    · cases hfound
      exact ⟨_, mem_append_right _ mem_cons_self, rfl⟩
    · obtain ⟨entry, hentry, hsame⟩ := rebuilt.remembered other found hfound
      exact ⟨entry, mem_append_left _ hentry, hsame⟩
  · intro outpoint hshown
    -- The overlay shows what it showed before and the outputs of the new entry.
    rcases applyTransaction_shows happly hshown with hbefore | ⟨own, hown, hcreates⟩
    · rcases rebuilt.shows outpoint hbefore with hchain | ⟨entry, hentry, hfacts⟩
      · exact .inl hchain
      · exact .inr ⟨entry, mem_append_left _ hentry, hfacts⟩
    · exact .inr ⟨_, mem_append_right _ mem_cons_self, own, hown, hcreates⟩

private theorem Backs.put (backs : Backs pending db) (rebuilt : Rebuilt known chain pending db)
    (hagree : TxidsAgree known) (hmem : entry.transaction ∈ known)
    (htxid : entry.transaction.txid = .ok txid)
    (hchecks : readmissionChecks node db pending nextHeight entry.transaction =
      .ok (feeChipbits, view)) :
    Backs { view := view, entries := pending.entries ++ [entry] }
      (db.putPending txid entry) := by
  obtain ⟨hspend, ⟨ctx, hview, hvalid⟩, -⟩ := readmissionChecks_ok hchecks
  -- A row that is overwritten spends and creates the same.
  have hsame : ∀ old, db.pending txid = some old →
      old.inputs = entry.transaction.inputs ∧ old.outputs = entry.transaction.outputs := by
    intro old hold
    exact hagree old (rebuilt.known txid old hold) entry.transaction hmem txid
      (rebuilt.sound.keyed txid old hold) htxid
  refine ⟨?_, ?_⟩
  · intro entry hentry own hown
    rw [Store.pending_putPending, Function.update_apply]
    rcases List.mem_append.mp hentry with hold | hnew
    · obtain ⟨row, hrow, houtputs⟩ := backs.rows entry hold own hown
      split_ifs with howned
      · rw [howned] at hrow
        exact ⟨_, rfl, by rw [← houtputs, (hsame row hrow).2]⟩
      · exact ⟨row, hrow, houtputs⟩
    · rw [List.mem_singleton.mp hnew] at hown ⊢
      rw [if_pos (ok_unique hown htxid)]
      exact ⟨_, rfl, rfl⟩
  · rw [EveryInputBacked, Store.pending_putPending]
    refine Pending.Supported.insert backs.backed ?_ ?_
    · intro old outpoint hold hcreates
      rw [createsOutpoint, (hsame old hold).2] at hcreates
      exact hcreates
    · intro outpoint hspends
      have hshown := validateTransaction_present hvalid hspends
      rw [hview] at hshown
      rcases rebuilt.shows outpoint hshown with hchain | ⟨entry, hentry, own, hown, hcreates⟩
      · left
        show db.utxos[outpoint]? ≠ none
        rw [rebuilt.utxos]
        exact hchain
      · obtain ⟨row, hrow, houtputs⟩ := backs.rows entry hentry own hown
        refine .inr ⟨own, row, ?_, hrow, ?_⟩
        · -- A row under the own txid would spend the same outpoint.
          rintro rfl
          have hspent : spendsOutpoint row outpoint := by
            rw [spendsOutpoint, spentOutpoints, (hsame row hrow).1]
            exact hspends
          exact rebuilt.noRival hspend hrow hspends hspent
        · rw [createsOutpoint, houtputs]
          exact hcreates

/-- What both loops keep. -/
def Rebuilds (known : List Transaction) (chain : UtxoSet) (pending : PendingState)
    (db : Store) : Prop :=
  Rebuilt known chain pending db ∧ (TxidsAgree known → Backs pending db)

/-- One round of the loops. -/
theorem Rebuilds.readmit {pending' : PendingState} {db' : Store} {now : Int}
    (rebuilt : Rebuilds known chain pending db) (hmem : tx ∈ known)
    (h : (readmitFast node nextHeight pending tx addedAt now).eval db =
      .ok (pending', db')) : Rebuilds known chain pending' db' := by
  rcases readmitFast_ok h with ⟨rfl, rfl⟩ | ⟨txid, feeChipbits, view, htxid, hchecks, rfl, rfl⟩
  · exact rebuilt
  · exact ⟨rebuilt.1.put hmem htxid hchecks,
      fun hagree => (rebuilt.2 hagree).put rebuilt.1 hagree hmem htxid hchecks⟩

end

section

variable {node : Node} {clock : ℕ → Int} {db db' : Store}

/-- **The two loops of a reconciliation** rebuild the pool. -/
theorem reconcile_rebuilds (h : (reconcile node clock extraTransactions).eval db = .ok ((), db')) :
    ∃ pending rebuilt,
      Rebuilds (db.pendingTransactions ++ extraTransactions) db.utxos pending rebuilt ∧
      (evictIfNeeded node.policy).eval rebuilt = .ok ((), db') := by
  rw [reconcile, Program.eval_get_andThen] at h
  obtain ⟨⟨⟨⟩, cleared⟩, hclear, h⟩ := Program.eval_andThen_eq_ok.mp h
  have hcleared : cleared = { db with mempool := ∅ } :=
    (Prod.mk.inj (Except.ok.inj hclear)).2.symm
  rw [Program.eval_get_andThen] at h
  obtain ⟨ctx, -, h⟩ := Program.eval_ofExcept_andThen_eq_ok.mp h
  obtain ⟨⟨preserved, middle⟩, hpreserved, h⟩ := Program.eval_andThen_eq_ok.mp h
  obtain ⟨⟨pending, rebuilt⟩, hextra, hevict⟩ := Program.eval_andThen_eq_ok.mp h
  -- Before the first round the pool is empty and the view is that of the chain.
  have hstart : Rebuilds (db.pendingTransactions ++ extraTransactions) db.utxos
      { view := cleared.overlay, entries := [] } cleared := by
    have hnone : cleared.pending = fun _ => none := by
      funext txid
      rw [hcleared, Store.pending, Std.ExtTreeMap.getElem?_empty]
      rfl
    have hutxos : cleared.utxos = db.utxos := by rw [hcleared]
    refine ⟨⟨hutxos, Sound.of_empty (by rw [hcleared]), ?_, ?_, ?_⟩, fun _ => ⟨?_, ?_⟩⟩
    · intro txid tx hpending
      rw [hnone] at hpending
      cases hpending
    · intro txid tx hpending
      rw [hnone] at hpending
      cases hpending
    · intro outpoint hshown
      rw [overlay_get, hutxos] at hshown
      exact .inl hshown
    · exact fun entry hentry => absurd hentry not_mem_nil
    · rw [EveryInputBacked, hnone]
      exact Pending.Supported.empty
  have hmiddle := Program.eval_foldlM_invariant (Rebuilds _ db.utxos)
    (fun pending current item pending' current' hmem hround ih =>
      Rebuilds.readmit ih (mem_append_left _ (List.mem_map.mpr
        ⟨item.1, fst_mem_of_mem_zipIdx hmem, rfl⟩)) hround)
    hpreserved hstart
  have hfinal := Program.eval_foldlM_invariant (Rebuilds _ db.utxos)
    (fun pending current item pending' current' hmem hround ih =>
      Rebuilds.readmit ih (mem_append_right _ (fst_mem_of_mem_zipIdx hmem)) hround)
    hextra hmiddle
  exact ⟨pending, rebuilt, hfinal, hevict⟩

private theorem Sound.reconcile
    (h : (Chipcoin.reconcile node clock extraTransactions).eval db = .ok ((), db')) :
    Sound db' := by
  obtain ⟨pending, rebuilt, ⟨hrebuilt, -⟩, hevict⟩ := reconcile_rebuilds h
  rw [eval_evictIfNeeded] at hevict
  cases hevict
  exact hrebuilt.sound.drop _

/-- **A gentle reconciliation leaves a pool whose inputs are backed**, whatever it found. -/
theorem backed_reconcile (hagree : TxidsAgree (db.pendingTransactions ++ extraTransactions))
    (hroom : db.mempool.size + extraTransactions.length ≤ node.policy.maxMempoolTransactions ∨
      Unlinked (db.pendingTransactions ++ extraTransactions))
    (h : (reconcile node clock extraTransactions).eval db = .ok ((), db')) :
    EveryInputBacked db' := by
  obtain ⟨pending, rebuilt, ⟨hrebuilt, hbacks⟩, hevict⟩ := reconcile_rebuilds h
  rw [eval_evictIfNeeded] at hevict
  cases hevict
  refine (hbacks hagree).backed.evict hrebuilt.sound.keyed hrebuilt.known ?_
  rw [length_append, length_pendingTransactions]
  exact hroom

/-! ### One operation -/

/-- Every operation keeps the pool sound. -/
theorem PoolStep.sound (h : PoolStep db event db') (sound : Sound db) :
    Sound db' := by
  cases h with
  | accept h => exact sound.accept h
  | reconcile h => exact Sound.reconcile h
  | removeMany h =>
    rw [eval_removeMany] at h
    cases h
    exact sound.drop _

/-- Every gentle operation keeps the inputs backed. -/
theorem PoolStep.backed (h : PoolStep db event db') (gentle : event.Gentle db)
    (sound : Sound db) (backed : EveryInputBacked db) :
    EveryInputBacked db' := by
  cases h with
  | accept h => exact backed_accept sound backed gentle h
  | @reconcile node clock chain extraTransactions _ h =>
    exact @backed_reconcile extraTransactions _ node clock { chain with mempool := db.mempool } _
      gentle.1 gentle.2 h
  | removeMany h =>
    rw [eval_removeMany] at h
    cases h
    refine backed.drop _ ?_
    intro txid hmem other hstays parent child hparent hchild outpoint hspends hcreates
    exact absurd ⟨txid, outpoint, sound.keyed txid parent hparent, hcreates, hspends⟩
      (gentle txid hmem other hstays parent child hparent hchild)

/-! ### Runs -/

private theorem PoolReached.sound {Meets : Store → PoolEvent → Prop}
    (h : PoolReached Meets db) : Sound db := by
  induction h with
  | start hempty => exact .of_empty hempty
  | step _ _ hstep ih => exact hstep.sound ih

theorem PoolReached.backed
    (h : PoolReached (fun db event => event.Gentle db) db) : EveryInputBacked db := by
  induction h with
  | @start db hempty =>
    have hnone : db.pending = fun _ => none := by
      funext txid
      rw [Store.pending, hempty, Std.ExtTreeMap.getElem?_empty]
      rfl
    rw [EveryInputBacked, hnone]
    exact Pending.Supported.empty
  | step before gentle hstep ih => exact hstep.backed gentle before.sound ih

end

/-- **Mempool consistency.** In every reachable pool no two entries spend the same outpoint. In
every pool reached by gentle operations each input of each entry refers to an outpoint of the chain
or to an output of another entry. -/
theorem mempool_consistent :
    (∀ db, PoolReached (fun _ _ => True) db → NoDoubleSpend db) ∧
      ∀ db, PoolReached (fun db event => event.Gentle db) db →
        NoDoubleSpend db ∧ EveryInputBacked db :=
  ⟨fun _ h => h.sound.exclusive, fun _ h => ⟨h.sound.exclusive, h.backed⟩⟩

end

namespace SampleMempool

local instance platform : Platform := samplePlatform []

/-- A node with a capacity. -/
def node (capacity : ℕ) : Node where
  params := sampleParams
  network := str "mainnet"
  policy := { maxMempoolTransactions := capacity }

/-- The public key of the only wallet. -/
def publicKey : Bytes := 2 :: List.replicate 32 7

/-- Its address. -/
def address : PyStr := (publicKeyToAddress publicKey).toOption.getD []

/-- The wallet sends an amount to itself. -/
def payment (previousOutput : OutPoint) (value : Int) : Transaction where
  version := 1
  inputs := [{ previousOutput := previousOutput, signature := [1], publicKey := publicKey }]
  outputs := [{ value := value, recipient := address }]

/-- The only output of the chain. -/
def coin : OutPoint := ⟨List.replicate 64 49, 0⟩

/-- A chain with one output of hundred chipbits, and no pending transactions. -/
def start : Store :=
  { Store.empty with
    utxos := (∅ : UtxoSet).insert coin
      { output := { value := 100, recipient := address }, height := 0, isCoinbase := false } }

/-- A payment with a fee of ten chipbits. -/
def parent : Transaction := payment coin 90

def parentTxid : PyStr := parent.txid.toOption.getD []

/-- The outpoint that the payment creates. -/
def change : OutPoint := ⟨parentTxid, 0⟩

/-- A payment from it, with a fee of twenty chipbits. -/
def child : Transaction := payment change 70

def childTxid : PyStr := child.txid.toOption.getD []

/-- The fee and the tables after an admission at a time. -/
def admitAt (capacity : ℕ) (db : Store) (tx : Transaction) (time : Int) : Int × Store :=
  ((accept (node capacity) (fun _ => time) tx none).eval db).toOption.getD (0, db)

/-- The pool with the first payment. -/
def single (capacity : ℕ) : Store := (admitAt capacity start parent 0).2

/-- The pool after the second payment. -/
def linked (capacity : ℕ) (time : Int) : Store := (admitAt capacity (single capacity) child time).2

/-- The admission returns. -/
def admits (capacity : ℕ) (db : Store) (tx : Transaction) (time : Int) : Bool :=
  ((accept (node capacity) (fun _ => time) tx none).eval db).toOption.isSome

/-- The pool has the second payment but not the first, which the chain does not have either. -/
def parentless (db : Store) : Prop :=
  db.pending childTxid = some child ∧ db.pending parentTxid = none ∧
    db.utxos[change]? = none

instance (db : Store) : Decidable (parentless db) := inferInstanceAs (Decidable (_ ∧ _ ∧ _))

/-- The admissions and the pools that they leave, evaluated. -/
theorem pools_evaluated :
    (admits 1000 start parent 0 ∧ admits 1 start parent 0) ∧
    (admits 1000 (single 1000) child (72 * 60 * 60) ∧ admits 1 (single 1) child 0 ∧
      admits 1000 (single 1000) child 0) ∧
    (parentless (linked 1000 (72 * 60 * 60)) ∧ parentless (linked 1 0) ∧
      (linked 1000 0).mempool.size = 2 ∧ spendsOutpoint child change) := by
  decide +kernel

/-- Nothing is dropped by the two admissions into the large pool. -/
theorem gentle_admissions :
    (PoolEvent.accept (node 1000) (fun _ => 0) parent none).Gentle start ∧
      (PoolEvent.accept (node 1000) (fun _ => 0) child none).Gentle (single 1000) := by
  obtain ⟨⟨hnone, hroom⟩, halive, hroom'⟩ :
      (start.listMempool = [] ∧
        start.mempool.size + 1 ≤ (node 1000).policy.maxMempoolTransactions) ∧
      (∀ entry ∈ (single 1000).listMempool,
        ¬ isExpired (node 1000).policy entry.addedAt 0) ∧
        (single 1000).mempool.size + 1 ≤ (node 1000).policy.maxMempoolTransactions := by
    decide +kernel
  refine ⟨⟨?_, .inl hroom⟩, fun entry hentry hexpired => absurd hexpired (halive entry hentry),
    .inl hroom'⟩
  intro entry hentry
  rw [hnone] at hentry
  cases hentry

/-- An admission that the evaluation shows to return. -/
theorem admit_step {capacity : ℕ} {db : Store} {tx : Transaction} {time : Int}
    (h : admits capacity db tx time) :
    PoolStep db (.accept (node capacity) (fun _ => time) tx none)
      (admitAt capacity db tx time).2 :=
  .accept (eq_ok_getD h)

/-- A pool with the second payment but without the first. -/
theorem not_backed {db : Store} (h : parentless db) : ¬ EveryInputBacked db := by
  obtain ⟨hchild, hparent, hchain⟩ := h
  obtain ⟨-, -, -, -, -, hspends⟩ := pools_evaluated
  intro hbacked
  rcases hbacked childTxid child hchild change hspends with hthere |
    ⟨other, giver, -, hgiver, hgives⟩
  · exact hthere hchain
  · -- Only a row under the txid of the outpoint could create it.
    have hkey : change.txid = parentTxid := by rw [change]
    rw [← hgives.1, hkey, hparent] at hgiver
    cases hgiver

/-- **A parent is dropped and its child stays**: once because the parent expires at the admission of
the child, and once because it has the lower fee when the pool is full. -/
theorem parent_dropped :
    (PoolReached (fun _ _ => True) (linked 1000 (72 * 60 * 60)) ∧
      ¬ EveryInputBacked (linked 1000 (72 * 60 * 60))) ∧
    (PoolReached (fun _ _ => True) (linked 1 0) ∧ ¬ EveryInputBacked (linked 1 0)) := by
  have hrun : ∀ capacity time, admits capacity start parent 0 →
      admits capacity (single capacity) child time →
      PoolReached (fun _ _ => True) (linked capacity time) := by
    intro capacity time hfirst hsecond
    exact .step (.step (.start rfl) trivial (admit_step hfirst)) trivial (admit_step hsecond)
  obtain ⟨⟨hlarge, hsmall⟩, ⟨hexpiring, hfull, -⟩, hexpired, hevicted, -, -⟩ := pools_evaluated
  exact ⟨⟨hrun _ _ hlarge hexpiring, not_backed hexpired⟩, hrun _ _ hsmall hfull,
    not_backed hevicted⟩

/-- With room for both and nothing expired the two payments are pending, and consistent. -/
theorem mempool_consistent_linked :
    (linked 1000 0).mempool.size = 2 ∧ NoDoubleSpend (linked 1000 0) ∧
      EveryInputBacked (linked 1000 0) := by
  obtain ⟨⟨hparent, -⟩, ⟨-, -, hchild⟩, -, -, hsize, -⟩ := pools_evaluated
  obtain ⟨hfirst, hsecond⟩ := gentle_admissions
  have hsingle : PoolReached (fun db event => event.Gentle db) (single 1000) :=
    .step (.start (rfl : start.mempool = ∅)) hfirst (admit_step hparent)
  refine ⟨hsize, mempool_consistent.2 (linked 1000 0) ?_⟩
  exact .step hsingle hsecond (admit_step hchild)

end SampleMempool

end Chipcoin
