import Chipcoin.Node.Policy
import Chipcoin.Replacement

/-!
# Reconciliation over an unchanged chain

A reconciliation takes all pending transactions out and admits them again, one by one, in the order
of their admission times and, among equal times, of their txids. On the chain over which they were
admitted, each passes all checks on its own again; what can fail is that it comes before a
transaction whose output it spends. So a reconciliation over an unchanged chain loses nothing
exactly when the order of the pool puts every parent before its children (`ParentsFirst`). Admission
times alone do not ensure that: within the same second the txids decide.

* `Stands`, `Settled`: what admissions leave behind, with `Settled.accept`.
* `mem_done_iff`: the order of readmission.
* `Round`: the loop when parents come first, and `Round.readmit`, its step.
* `Traced`: the loop in general, which shows each readmitted transaction after its parents.
* `reconcile_lossless_iff`: the result for every pool that admissions reach.
-/

namespace Chipcoin

open Checked Database List Sorting

variable {other : PyStr} {outpoint : OutPoint} {row : MempoolEntry}

/-! ### The order of readmission -/

/-- The order of `list_all`. -/
def rowOrder : PyStr × MempoolEntry → PyStr × MempoolEntry → Ordering :=
  compareLex (compareOn fun row => row.2.addedAt) (compareOn Prod.fst)

instance : Std.TransCmp rowOrder :=
  inferInstanceAs (Std.TransCmp (compareLex
    (compareOn fun row : PyStr × MempoolEntry => row.2.addedAt) (compareOn Prod.fst)))

private theorem rowOrder_eq_lt {parentTxid childTxid : PyStr} {parent child : MempoolEntry} :
    rowOrder (parentTxid, parent) (childTxid, child) = .lt ↔
      parent.addedAt < child.addedAt ∨
        (parent.addedAt = child.addedAt ∧ compare parentTxid childTxid = .lt) := by
  rw [rowOrder, compareLex, compareOn, compareOn, Ordering.then_eq_lt, compare_lt_iff_lt,
    compare_eq_iff_eq]

/-- The rows of a pool in the order of readmission. -/
theorem listMempool_eq (db : Store) :
    db.listMempool = (sortBy rowOrder db.mempool.toList).map Prod.snd := rfl

private theorem ensureNoMempoolDoubleSpend_of {tx : Transaction} {entries : List MempoolEntry}
    (h : ∀ entry ∈ entries, ∀ outpoint, spendsOutpoint tx outpoint →
      ¬ spendsOutpoint entry.transaction outpoint) :
    ensureNoMempoolDoubleSpend tx entries = .ok () := by
  refine raiseIf_eq_ok.mpr fun hany => ?_
  obtain ⟨txInput, hinput, hany⟩ := List.any_eq_true.mp hany
  obtain ⟨entry, hentry, hany⟩ := List.any_eq_true.mp hany
  obtain ⟨reserved, hreserved, hsame⟩ := List.any_eq_true.mp hany
  refine h entry hentry txInput.previousOutput (mem_map_of_mem hinput) ?_
  rw [← of_decide_eq_true hsame]
  exact mem_map_of_mem hreserved

/-- The entries of a list with positions, cut at one of them. -/
theorem zipIdx_cut {entries : List MempoolEntry} {done rest : List (MempoolEntry × ℕ)}
    {item : MempoolEntry × ℕ} (h : entries.zipIdx = done ++ item :: rest) :
    entries = done.map Prod.fst ++ item.1 :: rest.map Prod.fst ∧
      entries[item.2]? = some item.1 := by
  refine ⟨?_, ?_⟩
  · have hmap := congrArg (List.map Prod.fst) h
    rw [zipIdx_map_fst, map_append, map_cons] at hmap
    exact hmap
  · have hmem : item ∈ entries.zipIdx := by
      rw [h]
      exact mem_append_right _ mem_cons_self
    exact List.mk_mem_zipIdx_iff_getElem?.mp hmem

section

variable [Platform]

private theorem Store.Keyed.txid_eq {db : Store} (hkeyed : db.Keyed) {txid : PyStr}
    {entry : MempoolEntry} (htxid : db.mempool[txid]? = some entry)
    (hother : db.mempool[other]? = some row) (hsame : row.transaction = entry.transaction) :
    other = txid := by
  have hfirst := hkeyed txid _ (Store.pending_eq_some.mpr ⟨entry, htxid, rfl⟩)
  have hsecond := hkeyed other _ (Store.pending_eq_some.mpr ⟨row, hother, rfl⟩)
  rw [hsame, hfirst] at hsecond
  exact (Except.ok.inj hsecond).symm

/-- **The rows before a row** are those that come earlier in the order. -/
theorem mem_done_iff {db : Store} (hkeyed : db.Keyed) {done rest : List MempoolEntry}
    {entry : MempoolEntry} (hlist : db.listMempool = done ++ entry :: rest) {txid : PyStr}
    (htxid : db.mempool[txid]? = some entry) (hrow : db.mempool[other]? = some row) :
    row ∈ done ↔ rowOrder (other, row) (txid, entry) = .lt := by
  rw [listMempool_eq] at hlist
  have hmem : ∀ {found}, found ∈ sortBy rowOrder db.mempool.toList →
      db.mempool[found.1]? = some found.2 := fun hfound =>
    Std.ExtTreeMap.mem_toList_iff_getElem?_eq_some.mp (mem_sortBy.mp hfound)
  have hsorted : (sortBy rowOrder db.mempool.toList).Pairwise
      fun a b => (rowOrder a b).isLE = true := sortBy_pairwise _
  have hkeys : ((sortBy rowOrder db.mempool.toList).map Prod.fst).Nodup := by
    rw [((sortBy_perm _).map _).nodup_iff, Std.ExtTreeMap.map_fst_toList_eq_keys]
    exact Std.ExtTreeMap.nodup_keys
  have hin : (other, row) ∈ sortBy rowOrder db.mempool.toList :=
    mem_sortBy.mpr (Std.ExtTreeMap.mem_toList_iff_getElem?_eq_some.mpr hrow)
  -- The rows of the list, cut where its entries are cut.
  obtain ⟨before, later, hrows, rfl, hlater⟩ := List.map_eq_append_iff.mp hlist
  obtain ⟨⟨own, found⟩, after, rfl, rfl, rfl⟩ := List.map_eq_cons_iff.mp hlater
  rw [hrows] at hmem hsorted hkeys hin
  obtain rfl : own = txid := by
    have hfound := hmem (mem_append_right before mem_cons_self)
    exact hkeyed.txid_eq htxid hfound rfl
  obtain ⟨-, hsortedLater, hsortedBefore⟩ := List.pairwise_append.mp hsorted
  constructor
  · intro hdone
    obtain ⟨⟨key, earlier⟩, hearlier, rfl⟩ := List.mem_map.mp hdone
    obtain rfl : key = other := hkeyed.txid_eq hrow (hmem (mem_append_left _ hearlier)) rfl
    have hle := hsortedBefore _ hearlier _ mem_cons_self
    -- Different rows have different keys, so they do not compare as equal.
    have hne : key ≠ own := by
      rw [map_append, nodup_append] at hkeys
      exact hkeys.2.2 key (mem_map_of_mem hearlier) own mem_cons_self
    cases hcompare : rowOrder (key, earlier) (own, found) with
    | lt => rfl
    | gt =>
      rw [hcompare] at hle
      cases hle
    | eq =>
      have hsame : compare key own = .eq := (Ordering.then_eq_eq.mp hcompare).2
      exact absurd (Std.LawfulEqCmp.eq_of_compare hsame) hne
  · intro hlt
    rcases List.mem_append.mp hin with hbefore | hnot
    · exact mem_map_of_mem hbefore
    · exfalso
      have hle : (rowOrder (own, found) (other, row)).isLE = true := by
        rcases List.mem_cons.mp hnot with hself | hafter
        · have hrefl : rowOrder (own, found) (own, found) = .eq := Std.ReflCmp.compare_self
          rw [hself, hrefl]
          rfl
        · exact rel_of_pairwise_cons hsortedLater hafter
      have hswap : rowOrder (own, found) (other, row) =
          (rowOrder (other, row) (own, found)).swap := Std.OrientedCmp.eq_swap
      rw [hswap, hlt] at hle
      cases hle

/-! ### What admissions leave behind -/

/-- A transaction is valid over the chain of some tables, with a fee, at any view that shows given
entries at its inputs. -/
def ValidWith (node : Node) (chain : Store) (tx : Transaction) (fee : Int)
    (seen : OutPoint → Option UtxoEntry) : Prop :=
  ∀ view : UtxoView, (∀ outpoint, spendsOutpoint tx outpoint →
    view.get outpoint = seen outpoint) →
      ∃ ctx, validationContextForView node.toNodeConfig chain view chain.registrySnapshot none =
        .ok ctx ∧ validateTransaction tx ctx = .ok fee

/-- An input is found in the chain, or is the output of another pending transaction. -/
def FoundAt (chain db : Store) (txid : PyStr) (outpoint : OutPoint) (seen : Option UtxoEntry) :
    Prop :=
  (seen ≠ none ∧ seen = chain.utxos[outpoint]?) ∨
    ∃ parentTxid parent, parentTxid ≠ txid ∧ db.pending parentTxid = some parent ∧
      createsOutpoint parentTxid parent outpoint ∧
      seen = createdAt parentTxid parent chain.nextHeight false outpoint

/-- **A row that stands**: it would pass all checks that look at its transaction alone, with its
fee, at any view that shows what was seen at its inputs. -/
structure Stands (node : Node) (chain db : Store) (txid : PyStr)
  (entry : MempoolEntry) : Prop where
  standard : enforcePreValidationPolicy node.policy entry.transaction = .ok ()
  unconfirmed : isKnownOnChain chain txid = false
  policy : enforcePolicy node.policy entry.transaction entry.fee = .ok ()
  parses : isRewardAttestationBundleTransaction entry.transaction →
    ∃ bundle, parseRewardAttestationBundleMetadata entry.transaction = .ok bundle
  valid : ∃ seen, ValidWith node chain entry.transaction entry.fee seen ∧
    ∀ outpoint, spendsOutpoint entry.transaction outpoint →
      FoundAt chain db txid outpoint (seen outpoint)

/-- **The pools that admissions over a chain reach.** -/
structure Settled (node : Node) (chain db : Store) : Prop where
  tables : db = { chain with mempool := db.mempool }
  sound : Sound db
  rows : ∀ (txid : PyStr) entry, db.mempool[txid]? = some entry →
    Stands node chain db txid entry
  quotas : ∀ quota ∈ mempoolQuotas node.policy, quota.Holds db.pendingTransactions
  fits : db.mempool.size ≤ node.policy.maxMempoolTransactions
  context : db.mempool ≠ ∅ → ∃ ctx, validationContextForView node.toNodeConfig chain
    chain.overlay chain.registrySnapshot none = .ok ctx

theorem Settled.of_empty {node : Node} {chain : Store} (h : chain.mempool = ∅) :
    Settled node chain chain where
  tables := rfl
  sound := Sound.of_empty h
  rows txid entry hrow := by
    rw [h, Std.ExtTreeMap.getElem?_empty] at hrow
    cases hrow
  quotas quota _ := by
    have hnone : chain.pendingTransactions = [] := by
      refine List.length_eq_zero_iff.mp ?_
      rw [length_pendingTransactions, h]
      rfl
    rw [hnone]
    exact Quota.Holds.nil quota
  fits := by
    rw [h]
    exact Nat.zero_le _
  context hsome := absurd h hsome

section

variable {node : Node} {clock : ℕ → Int} {tx : Transaction} {addedAt : Option Int}
  {chain db db' : Store} {admission : Admission} {txid : PyStr}

/-- The pool of an admission holds the new transaction and the rows that are not replaced. -/
theorem AdmissionFacts.perm_pending (facts : AdmissionFacts node db tx admission txid)
    (sound : Sound db) :
    (admittedStore db txid clock tx addedAt admission).pendingTransactions.Perm
      (tx :: (effectiveEntries db.listMempool admission.replacementTxids).map
        (·.transaction)) := by
  have hsound := facts.sound_put sound clock addedAt
  have hsub : ((effectiveEntries db.listMempool admission.replacementTxids).map
      (·.transaction)).Sublist db.pendingTransactions := List.filter_sublist.map _
  have hnew : tx ∉ db.pendingTransactions := by
    intro hmem
    obtain ⟨other, hother⟩ := mem_pendingTransactions.mp hmem
    have hsame := ok_unique (sound.keyed other tx hother) facts.txid_eq
    rw [hsame, Store.pending, facts.absent] at hother
    cases hother
  -- Neither side repeats a transaction, so it is enough that they have the same members.
  refine (perm_ext_iff_of_nodup hsound.keyed.nodup_pendingTransactions
    (List.nodup_cons.mpr ⟨fun hmem => hnew (hsub.mem hmem),
      sound.keyed.nodup_pendingTransactions.sublist hsub⟩)).mpr fun pending => ?_
  rw [mem_pendingTransactions, mem_cons]
  constructor
  · rintro ⟨other, hother⟩
    rw [pending_admittedStore] at hother
    split_ifs at hother with hown hgone
    · exact .inl (Option.some.inj hother).symm
    · obtain ⟨entry, hget, rfl⟩ := Store.pending_eq_some.mp hother
      refine .inr (mem_map_of_mem (List.mem_filter.mpr
        ⟨mem_listMempool.mpr ⟨other, hget⟩, ?_⟩))
      rw [sound.keyed other _ hother]
      exact decide_eq_true hgone
  · rintro (rfl | hmem)
    · exact ⟨txid, by rw [pending_admittedStore, if_pos rfl]⟩
    · obtain ⟨entry, hentry, rfl⟩ := List.mem_map.mp hmem
      obtain ⟨hlist, hstays⟩ := List.mem_filter.mp hentry
      obtain ⟨other, hother, hget⟩ := sound.keyed.txid_of_mem hlist
      rw [hother] at hstays
      have hpending : db.pending other = some entry.transaction :=
        Store.pending_eq_some.mpr ⟨entry, hget, rfl⟩
      refine ⟨other, ?_⟩
      have hne : other ≠ txid := by
        rintro rfl
        rw [facts.absent] at hget
        cases hget
      rw [pending_admittedStore, if_neg hne, if_neg (of_decide_eq_true hstays), hpending]

/-- A pending transaction with an output outlives the admission. -/
theorem AdmissionFacts.parent_stays (facts : AdmissionFacts node db tx admission txid)
    (sound : Sound db) {parentTxid : PyStr} {parent : Transaction}
    (hparent : db.pending parentTxid = some parent)
    (hcreates : createsOutpoint parentTxid parent outpoint) :
    parentTxid ≠ txid ∧
      (admittedStore db txid clock tx addedAt admission).pending parentTxid =
        some parent := by
  have hne : parentTxid ≠ txid := by
    rintro rfl
    rw [Store.pending, facts.absent] at hparent
    cases hparent
  refine ⟨hne, ?_⟩
  rw [pending_admittedStore, if_neg hne, if_neg, hparent]
  intro hgone
  have hnone := (facts.replaced_noCoins sound hgone hparent).2
  rw [createsOutpoint, hnone] at hcreates
  exact absurd hcreates.2.2 (Nat.not_lt_zero _)

/-- A row that stands goes on standing. -/
theorem Stands.admitted {entry : MempoolEntry} (stands : Stands node chain db other entry)
    (facts : AdmissionFacts node db tx admission txid) (sound : Sound db) :
    Stands node chain (admittedStore db txid clock tx addedAt admission) other
      entry := by
  obtain ⟨seen, hvalid, hfound⟩ := stands.valid
  refine ⟨stands.standard, stands.unconfirmed, stands.policy, stands.parses, seen, hvalid, ?_⟩
  intro outpoint hspends
  rcases hfound outpoint hspends with hchain | ⟨parentTxid, parent, hne, hparent, hcreates, hseen⟩
  · exact .inl hchain
  · exact .inr ⟨parentTxid, parent, hne, (facts.parent_stays sound hparent hcreates).2, hcreates,
      hseen⟩

private theorem validationContextForView_with {config : NodeConfig} {view view' : UtxoView}
    {registry : NodeRegistryView} {count : Option ℕ} {ctx : ValidationContext}
    (h : validationContextForView config db view registry count = .ok ctx) :
    validationContextForView config db view' registry count =
      .ok { ctx with utxoView := view' } := by
  obtain ⟨seeds, hseeds, h⟩ := bind_eq_ok.mp h
  cases h
  exact bind_eq_ok.mpr ⟨seeds, hseeds, rfl⟩

/-- **The inputs of a new transaction**, as the view of the pool shows them. -/
theorem AdmissionFacts.found (facts : AdmissionFacts node db tx admission txid)
    (clock : ℕ → Int) (addedAt : Option Int) (sound : Sound db) {snapshot : UtxoView}
    (hsnapshot : snapshotWithMempoolApplied node db = .ok snapshot)
    (hspends : spendsOutpoint tx outpoint) (hshown : snapshot.get outpoint ≠ none) :
    FoundAt db (admittedStore db txid clock tx addedAt admission) txid outpoint
      (snapshot.get outpoint) := by
  obtain ⟨ctx, hcontext, happlied⟩ := bind_eq_ok.mp hsnapshot
  have hheight : ctx.height = db.nextHeight := by
    obtain ⟨seeds, -, hcontext⟩ := bind_eq_ok.mp hcontext
    cases hcontext
    rfl
  rw [hheight] at happlied
  -- Neither the rows that stay nor those that go spend what the new transaction spends.
  have hunspent : ∀ entry ∈ db.listMempool, ¬ spendsOutpoint entry.transaction outpoint := by
    intro entry hentry hrival
    obtain ⟨other, hother, hget⟩ := sound.keyed.txid_of_mem hentry
    by_cases hgone : other ∈ admission.replacementTxids
    · have hnone := (facts.replaced_noCoins sound hgone
        (Store.pending_eq_some.mpr ⟨entry, hget, rfl⟩)).1
      rw [spendsOutpoint, spentOutpoints, hnone] at hrival
      cases hrival
    · refine ensureNoMempoolDoubleSpend_ok facts.doubleSpend (List.mem_filter.mpr ⟨hentry, ?_⟩)
        hspends hrival
      rw [hother]
      exact decide_eq_true hgone
  rcases get_applied happlied hunspent with ⟨entry, hentry, other, hother, hcreates, hget⟩ |
    ⟨-, hget⟩
  · obtain ⟨own, hown, hrow⟩ := sound.keyed.txid_of_mem hentry
    obtain rfl := ok_unique hother hown
    obtain ⟨hne, hstays⟩ := facts.parent_stays sound
      (Store.pending_eq_some.mpr ⟨entry, hrow, rfl⟩) hcreates
    exact .inr ⟨other, entry.transaction, hne, hstays, hcreates, hget⟩
  · rw [overlay_get] at hget
    exact .inl ⟨hshown, hget⟩

/-- **The new row stands.** -/
theorem AdmissionFacts.stands (facts : AdmissionFacts node db tx admission txid)
    (settled : Settled node chain db) :
    Stands node chain (admittedStore db txid clock tx addedAt admission) txid
      (admittedEntry clock tx addedAt admission) := by
  obtain ⟨snapshot, ctx, hsnapshot, hcontext, hvalid⟩ := facts.valid
  have hview := validationContextForView_view hcontext
  have htables := settled.tables
  refine ⟨facts.standard, ?_, facts.policy, ?_, snapshot.get, ?_, ?_⟩
  · have hunknown := facts.unconfirmed
    rw [htables] at hunknown
    exact hunknown
  · intro hkind
    obtain ⟨bundle, hparse, -⟩ := bundlePolicy_ok facts.bundlePolicy hkind
    exact ⟨bundle, hparse⟩
  · -- Any view that shows the spent outputs alike gives the same verdict and fee.
    intro view hagrees
    have hother : validationContextForView node.toNodeConfig db view db.registrySnapshot
      none =
        .ok { ctx with utxoView := view } := validationContextForView_with hcontext
    rw [htables] at hother
    refine ⟨{ ctx with utxoView := view }, hother, ?_⟩
    refine (validateTransaction_congr fun outpoint hspends => ?_).trans hvalid
    rw [hview]
    exact hagrees outpoint hspends
  · intro outpoint hspends
    have hshown := validateTransaction_present hvalid hspends
    rw [hview] at hshown
    have hfound := facts.found clock addedAt settled.sound hsnapshot hspends hshown
    rw [FoundAt, htables] at hfound
    exact hfound

/-- **One admission.** -/
theorem Settled.accept {fee : Int} (settled : Settled node chain db)
    (undisturbed : Undisturbed node clock tx addedAt db)
    (h : (Chipcoin.accept node clock tx addedAt).eval db = .ok (fee, db')) :
    Settled node chain db' := by
  obtain ⟨admission, txid, facts, rfl⟩ := accept_undisturbed settled.sound undisturbed h
  have hparses : ∀ entry ∈ effectiveEntries db.listMempool admission.replacementTxids,
      isRewardAttestationBundleTransaction entry.transaction →
        ∃ existing, parseRewardAttestationBundleMetadata entry.transaction = .ok existing := by
    intro entry hentry
    obtain ⟨other, -, hget⟩ := settled.sound.keyed.txid_of_mem (List.mem_filter.mp hentry).1
    exact (settled.rows other entry hget).parses
  refine ⟨?_, facts.sound_put settled.sound _ _, ?_, ?_, ?_, fun _ => ?_⟩
  · rw [admittedStore, Store.putPending, Store.dropPending]
    conv_lhs => rw [settled.tables]
  · -- The new row stands by its own checks, an old one because nothing it needs was replaced.
    intro other entry hrow
    rcases mempool_admitted hrow with ⟨rfl, rfl⟩ | hold
    · exact facts.stands settled
    · exact (settled.rows other entry hold).admitted facts settled.sound
  · -- The limits were checked for the new one against the rows that stay.
    intro quota hquota
    have hadmits := ((policies_eq_ok hparses).mp ⟨facts.specialPolicy, facts.bundlePolicy⟩).2 quota
      hquota
    have hkept : quota.Holds ((effectiveEntries db.listMempool
        admission.replacementTxids).map (·.transaction)) :=
      (settled.quotas quota hquota).sublist (List.filter_sublist.map _)
    exact (hkept.cons hadmits).perm (facts.perm_pending settled.sound).symm
  · exact (undisturbed admission txid facts.checks facts.txid_eq).2
  · obtain ⟨snapshot, ctx, -, hcontext, -⟩ := facts.valid
    rw [settled.tables] at hcontext
    exact ⟨_, validationContextForView_with hcontext⟩

private theorem AdmissionRun.settled (hempty : chain.mempool = ∅)
    (run : AdmissionRun node chain db) :
    Settled node chain db := by
  induction run with
  | refl => exact Settled.of_empty hempty
  | accept _ undisturbed h ih => exact ih.accept undisturbed h

end

/-! ### The loop when parents come first -/

/-- Every pending transaction comes after those whose outputs it spends. -/
def ParentsFirst (db : Store) : Prop :=
  ∀ (parentTxid childTxid : PyStr) parent child, parentTxid ≠ childTxid →
    db.mempool[parentTxid]? = some parent → db.mempool[childTxid]? = some child →
    Feeds parent.transaction child.transaction →
      parent.addedAt < child.addedAt ∨
        (parent.addedAt = child.addedAt ∧ compare parentTxid childTxid = .lt)

omit [Platform] in
/-- No pending transaction creates an outpoint that the chain has already: none has the txid of a
confirmed transaction with unspent outputs. -/
def Fresh (db : Store) : Prop :=
  ∀ txid tx, db.pending txid = some tx → ∀ outpoint,
    createsOutpoint txid tx outpoint → db.utxos[outpoint]? = none

/-- The loop of a reconciliation after some rows of a pool, all of which were admitted again. -/
structure Round (chain : Store) (done : List MempoolEntry) (pending : PendingState)
    (current : Store) : Prop where
  tables : current = { chain with mempool := current.mempool }
  rows : ∀ (txid : PyStr) entry, current.mempool[txid]? = some entry ↔
    entry ∈ done ∧ entry.transaction.txid = .ok txid
  entries : pending.entries = done
  view : done.foldlM
    (fun view entry => view.applyTransaction entry.transaction chain.nextHeight false)
      chain.overlay = .ok pending.view

section

variable {node : Node} {chain db current : Store} {done rest : List MempoolEntry}
  {entry : MempoolEntry} {txid : PyStr} {pending : PendingState}

section

variable (settled : Settled node chain db) (hlist : db.listMempool = done ++ entry :: rest)
  (htxid : db.mempool[txid]? = some entry)
include settled hlist htxid

/-- The rows before a row are rows of the pool, under other txids. -/
theorem Settled.done_row (hrow : row ∈ done) :
    ∃ other, row.transaction.txid = .ok other ∧ db.mempool[other]? = some row ∧ other ≠
      txid := by
  have hmem : row ∈ db.listMempool := by
    rw [hlist]
    exact mem_append_left _ hrow
  obtain ⟨other, hother, hget⟩ := settled.sound.keyed.txid_of_mem hmem
  refine ⟨other, hother, hget, ?_⟩
  rintro rfl
  obtain rfl := Option.mem_unique hget htxid
  have hself := (mem_done_iff settled.sound.keyed hlist htxid htxid).mp hrow
  have hrefl : rowOrder (other, row) (other, row) = .eq := Std.ReflCmp.compare_self
  rw [hrefl] at hself
  cases hself

/-- No row before it spends an input of a row. -/
theorem Settled.done_unspent (hspends : spendsOutpoint entry.transaction outpoint) :
    ∀ row ∈ done, ¬ spendsOutpoint row.transaction outpoint := by
  intro row hrow hrival
  obtain ⟨other, -, hget, hne⟩ := settled.done_row hlist htxid hrow
  exact hne (settled.sound.exclusive other txid row.transaction entry.transaction outpoint
    (Store.pending_eq_some.mpr ⟨row, hget, rfl⟩) (Store.pending_eq_some.mpr ⟨entry, htxid, rfl⟩)
    hrival hspends)

end

variable (round : Round chain done pending current) (settled : Settled node chain db)
  (fresh : Fresh db) (parents : ParentsFirst db)
  (hlist : db.listMempool = done ++ entry :: rest)
include round settled fresh parents hlist

/-- **The view shows what was seen at the admission.** -/
theorem Round.get_view (htxid : db.mempool[txid]? = some entry)
    (hspends : spendsOutpoint entry.transaction outpoint) {seen : Option UtxoEntry}
    (hfound : FoundAt chain db txid outpoint seen) : pending.view.get outpoint = seen := by
  have hutxos : db.utxos = chain.utxos := by rw [settled.tables]
  have hunspent := settled.done_unspent hlist htxid hspends
  rcases hfound with ⟨hsome, hseen⟩ | ⟨parentTxid, parent, hne, hparent, hcreates, hseen⟩
  · rcases get_applied round.view hunspent with ⟨row, hrow, other, hother, hcreates, -⟩ | ⟨-, hget⟩
    · -- A pending transaction would create what the chain has.
      obtain ⟨own, hown, hget, -⟩ := settled.done_row hlist htxid hrow
      obtain rfl := ok_unique hother hown
      have hnone := fresh other _ (Store.pending_eq_some.mpr ⟨row, hget, rfl⟩) outpoint hcreates
      rw [hutxos, ← hseen] at hnone
      exact absurd hnone hsome
    · rw [hget, overlay_get, hseen]
  · obtain ⟨parentEntry, hparentRow, rfl⟩ := Store.pending_eq_some.mp hparent
    have hparentTxid := settled.sound.keyed parentTxid _ hparent
    have hearlier := parents parentTxid txid parentEntry entry hne hparentRow htxid
      ⟨parentTxid, outpoint, hparentTxid, hcreates, hspends⟩
    have hdone : parentEntry ∈ done :=
      (mem_done_iff settled.sound.keyed hlist htxid hparentRow).mpr (rowOrder_eq_lt.mpr hearlier)
    rcases get_applied round.view hunspent with ⟨row, hrow, other, hother, hgives, hget⟩ |
      ⟨hnever, -⟩
    · -- Only one row has the txid of the outpoint.
      obtain ⟨own, hown, hrowGet, -⟩ := settled.done_row hlist htxid hrow
      obtain rfl := ok_unique hother hown
      obtain rfl : other = parentTxid := hgives.1.symm.trans hcreates.1
      obtain rfl := Option.mem_unique hrowGet hparentRow
      rw [hget, hseen]
    · exact absurd hcreates (hnever parentEntry hdone parentTxid hparentTxid)

/-- **The checks pass again**, with the same fee. -/
theorem Round.checks (htxid : db.mempool[txid]? = some entry) :
    ∃ view, readmissionChecks node current pending chain.nextHeight entry.transaction =
        .ok (entry.fee, view) ∧
      pending.view.applyTransaction entry.transaction chain.nextHeight false = .ok view := by
  have stands := settled.rows txid entry htxid
  have hown : entry.transaction.txid = .ok txid :=
    settled.sound.keyed txid _ (Store.pending_eq_some.mpr ⟨entry, htxid, rfl⟩)
  have hparses : ∀ row ∈ done, isRewardAttestationBundleTransaction row.transaction →
      ∃ existing, parseRewardAttestationBundleMetadata row.transaction = .ok existing := by
    intro row hrow
    obtain ⟨other, -, hget, -⟩ := settled.done_row hlist htxid hrow
    exact (settled.rows other row hget).parses
  have hquotas : ∀ quota ∈ mempoolQuotas node.policy,
      quota.Admits entry.transaction (done.map (·.transaction)) := by
    intro quota hquota
    have hholds := settled.quotas quota hquota
    rw [Store.pendingTransactions, hlist, map_append, map_cons] at hholds
    exact hholds.admits
  obtain ⟨hspecial, hbundle⟩ := (policies_eq_ok hparses).mpr ⟨stands.parses, hquotas⟩
  have hdouble : ensureNoMempoolDoubleSpend entry.transaction done = .ok () :=
    ensureNoMempoolDoubleSpend_of fun row hrow outpoint hspends =>
      settled.done_unspent hlist htxid hspends row hrow
  -- The rows before the entry include its parents, so the overlay shows what it spends.
  obtain ⟨seen, hvalid, hfound⟩ := stands.valid
  obtain ⟨ctx, hcontext, hfee⟩ := hvalid pending.view fun outpoint hspends =>
    round.get_view settled fresh parents hlist htxid hspends (hfound outpoint hspends)
  have hcurrent : validationContextForView node.toNodeConfig current pending.view
      current.registrySnapshot none = .ok ctx := by
    rw [round.tables]
    exact hcontext
  obtain ⟨view, hview⟩ : ∃ view,
      pending.view.applyTransaction entry.transaction chain.nextHeight false = .ok view :=
    ⟨_, bind_eq_ok.mpr ⟨txid, hown, rfl⟩⟩
  refine ⟨view, ?_, hview⟩
  rw [readmissionChecks, round.entries, hspecial, ok_bind, hbundle, ok_bind, hdouble, ok_bind,
    hcurrent, ok_bind, hfee, ok_bind, stands.policy, ok_bind, hview]
  rfl

/-- **One round.** -/
theorem Round.readmit {now : Int} (halive : ¬ isExpired node.policy entry.addedAt now) :
    ∃ pending' current',
      (readmitFast node chain.nextHeight pending entry.transaction entry.addedAt now).eval current =
        .ok (pending', current') ∧ Round chain (done ++ [entry]) pending' current' := by
  have hmem : entry ∈ db.listMempool := by
    rw [hlist]
    exact mem_append_right _ mem_cons_self
  obtain ⟨txid, hown, htxid⟩ := settled.sound.keyed.txid_of_mem hmem
  have stands := settled.rows txid entry htxid
  obtain ⟨view, hchecks, hview⟩ := round.checks settled fresh parents hlist htxid
  have hunknown : isKnownOnChain current txid = false := by
    rw [round.tables]
    exact stands.unconfirmed
  refine ⟨{ view := view, entries := pending.entries ++ [entry] }, current.putPending txid entry,
    ?_, ?_, ?_, ?_, ?_⟩
  · -- Every check passes again, and the row is written as it was.
    rw [readmitFast, if_neg halive, stands.standard]
    refine Program.eval_ofExcept_andThen_eq_ok.mpr ⟨txid, hown, ?_⟩
    rw [Program.eval_get_andThen, hunknown, hchecks]
    refine Program.eval_andThen_eq_ok.mpr ⟨((), current.putPending txid entry), ?_, rfl⟩
    exact eval_addMempool hown entry.fee entry.addedAt current
  · rw [Store.putPending]
    conv_lhs => rw [round.tables]
  · -- The rows are the ones done and this one; no two have one identifier.
    intro other row
    rw [Store.putPending, Table.getElem?_insert, mem_append, mem_singleton]
    split_ifs with hother
    · constructor
      · intro h
        cases h
        exact ⟨.inr rfl, hother ▸ hown⟩
      · rintro ⟨hold | rfl, hrow⟩
        · obtain ⟨key, hkey, -, hne⟩ := settled.done_row hlist htxid hold
          rw [hkey, hother] at hrow
          exact absurd (Except.ok.inj hrow) hne
        · rfl
    · rw [round.rows]
      constructor
      · exact fun h => ⟨.inl h.1, h.2⟩
      · rintro ⟨hold | rfl, hrow⟩
        · exact ⟨hold, hrow⟩
        · exact absurd (ok_unique hrow hown) hother
  · rw [round.entries]
  · exact foldlM_append_eq_ok.mpr ⟨pending.view, round.view,
      foldlM_cons_eq_ok.mpr ⟨view, hview, rfl⟩⟩

end

/-- The reconciliation leaves the same entries, with their fees and admission times. An empty pool
has nothing to lose. -/
def Lossless (node : Node) (clock : ℕ → Int) (db : Store) : Prop :=
  db.mempool = ∅ ∨ ∃ db', (reconcile node clock []).eval db = .ok ((), db') ∧
    db'.mempool = db.mempool

/-- No entry has expired when its turn comes. -/
def Alive (node : Node) (clock : ℕ → Int) (db : Store) : Prop :=
  ∀ (index : ℕ) entry, db.listMempool[index]? = some entry →
    ¬ isExpired node.policy entry.addedAt (clock index)

section

variable {node : Node} {chain db : Store} {clock : ℕ → Int}

/-- **Nothing gets lost when parents come first.** -/
theorem Settled.lossless (settled : Settled node chain db) (fresh : Fresh db)
    (parents : ParentsFirst db) (alive : Alive node clock db) :
    Lossless node clock db := by
  by_cases hsome : db.mempool = ∅
  · exact .inl hsome
  obtain ⟨ctx, hcontext⟩ := settled.context hsome
  have hcleared : { db with mempool := ∅ } = { chain with mempool := ∅ } := by
    rw [settled.tables]
  have hheight : ctx.height = chain.nextHeight := by
    obtain ⟨seeds, -, hcontext⟩ := bind_eq_ok.mp hcontext
    cases hcontext
    rfl
  -- Before the first round the pool is empty.
  have hstart : Round chain [] { view := chain.overlay, entries := [] }
      { chain with mempool := ∅ } := by
    refine ⟨rfl, fun txid entry => ?_, rfl, rfl⟩
    rw [Std.ExtTreeMap.getElem?_empty]
    exact ⟨fun h => (nomatch h), fun h => absurd h.1 not_mem_nil⟩
  have hrounds : ∀ (done : List (MempoolEntry × ℕ)) (item : MempoolEntry × ℕ) rest pending current,
      db.listMempool.zipIdx = done ++ item :: rest →
      Round chain (done.map Prod.fst) pending current →
      ∃ pending' current', (readmitFast node chain.nextHeight pending item.1.transaction
          item.1.addedAt (clock item.2)).eval current = .ok (pending', current') ∧
        Round chain ((done ++ [item]).map Prod.fst) pending' current' := by
    intro done item rest pending current hitems round
    obtain ⟨hlist, hindex⟩ := zipIdx_cut hitems
    rw [map_append]
    exact round.readmit settled fresh parents hlist (alive item.2 item.1 hindex)
  obtain ⟨pending, rebuilt, hloop, hround⟩ := Program.eval_foldlM_returns
    (fun done pending current => Round chain (done.map Prod.fst) pending current) hrounds hstart
  rw [zipIdx_map_fst] at hround
  have hpool : rebuilt.mempool = db.mempool := by
    refine Std.ExtTreeMap.ext_getElem? fun txid => Option.ext fun entry => ?_
    rw [hround.rows]
    constructor
    · rintro ⟨hmem, hown⟩
      obtain ⟨other, hother, hget⟩ := settled.sound.keyed.txid_of_mem hmem
      rw [← ok_unique hother hown]
      exact hget
    · intro hget
      exact ⟨mem_listMempool.mpr ⟨txid, hget⟩,
        settled.sound.keyed txid _ (Store.pending_eq_some.mpr ⟨entry, hget, rfl⟩)⟩
  have hevict := eval_evictIfNeeded node.policy rebuilt
  rw [Store.evicted_of_le (by rw [hpool]; exact settled.fits)] at hevict
  refine .inr ⟨rebuilt, ?_, hpool⟩
  rw [reconcile, Program.eval_get_andThen]
  refine Program.eval_andThen_eq_ok.mpr ⟨((), { chain with mempool := ∅ }), ?_, ?_⟩
  · rw [← hcleared]
    rfl
  · rw [Program.eval_get_andThen]
    refine Program.eval_ofExcept_andThen_eq_ok.mpr ⟨ctx, hcontext, ?_⟩
    rw [hheight]
    exact Program.eval_andThen_eq_ok.mpr ⟨(pending, rebuilt), hloop,
      Program.eval_andThen_eq_ok.mpr ⟨(pending, rebuilt), rfl, hevict⟩⟩

end

/-! ### The loop in general -/

/-- The loop of a reconciliation after some rows of a pool: each transaction that was admitted again
spends outputs of the chain and of rows that come earlier. -/
structure Traced (db : Store) (done : List MempoolEntry) (pending : PendingState)
    (current : Store) : Prop where
  entries : ∀ entry ∈ pending.entries, ∃ row ∈ done, row.transaction = entry.transaction
  shows : ∀ outpoint, pending.view.get outpoint ≠ none → db.utxos[outpoint]? ≠ none ∨
    ∃ entry ∈ pending.entries, ∃ txid, entry.transaction.txid = .ok txid ∧
      createsOutpoint txid entry.transaction outpoint
  rows : ∀ txid tx, current.pending txid = some tx → ∀ outpoint,
    spendsOutpoint tx outpoint → db.utxos[outpoint]? ≠ none ∨
      ∃ parentTxid parent child, db.mempool[parentTxid]? = some parent ∧
        db.mempool[txid]? = some child ∧
        createsOutpoint parentTxid parent.transaction outpoint ∧
        rowOrder (parentTxid, parent) (txid, child) = .lt

section

variable {node : Node} {db current current' : Store} {done rest : List MempoolEntry}
  {entry : MempoolEntry} {pending pending' : PendingState} {nextHeight : ℕ} {now : Int}

/-- **One round.** -/
theorem Traced.readmit (traced : Traced db done pending current) (hkeyed : db.Keyed)
    (hlist : db.listMempool = done ++ entry :: rest)
    (h : (readmitFast node nextHeight pending entry.transaction entry.addedAt now).eval current =
      .ok (pending', current')) : Traced db (done ++ [entry]) pending' current' := by
  have hentries : ∀ found ∈ pending.entries, ∃ row ∈ done ++ [entry],
      row.transaction = found.transaction := by
    intro found hfound
    obtain ⟨row, hrow, hsame⟩ := traced.entries found hfound
    exact ⟨row, mem_append_left _ hrow, hsame⟩
  rcases readmitFast_ok h with ⟨rfl, rfl⟩ | ⟨own, fee, view, hown, hchecks, rfl, rfl⟩
  · exact ⟨hentries, traced.shows, traced.rows⟩
  obtain ⟨-, ⟨ctx, hview, hvalid⟩, happly⟩ := readmissionChecks_ok hchecks
  have hmem : entry ∈ db.listMempool := by
    rw [hlist]
    exact mem_append_right _ mem_cons_self
  obtain ⟨key, hkey, hget⟩ := hkeyed.txid_of_mem hmem
  obtain rfl := ok_unique hkey hown
  refine ⟨?_, ?_, ?_⟩
  · intro found hfound
    rcases List.mem_append.mp hfound with hold | hnew
    · exact hentries found hold
    · rw [List.mem_singleton.mp hnew]
      exact ⟨entry, mem_append_right _ mem_cons_self, rfl⟩
  · intro outpoint hshown
    rcases applyTransaction_shows happly hshown with hbefore | ⟨other, hother, hcreates⟩
    · rcases traced.shows outpoint hbefore with hchain | ⟨found, hfound, hfacts⟩
      · exact .inl hchain
      · exact .inr ⟨found, mem_append_left _ hfound, hfacts⟩
    · exact .inr ⟨_, mem_append_right _ mem_cons_self, other, hother, hcreates⟩
  · intro txid tx hpending outpoint hspends
    rw [Store.pending_putPending, Function.update_apply] at hpending
    split_ifs at hpending with hnew
    · subst hnew
      cases hpending
      -- The input was in the view, so the chain has it or a row before this one creates it.
      have hshown := validateTransaction_present hvalid hspends
      rw [hview] at hshown
      rcases traced.shows outpoint hshown with hchain | ⟨found, hfound, parentTxid, hparent,
        hcreates⟩
      · exact .inl hchain
      · obtain ⟨row, hrow, hsame⟩ := traced.entries found hfound
        rw [← hsame] at hparent hcreates
        have hrowMem : row ∈ db.listMempool := by
          rw [hlist]
          exact mem_append_left _ hrow
        obtain ⟨other, hother, hrowGet⟩ := hkeyed.txid_of_mem hrowMem
        obtain rfl := ok_unique hother hparent
        exact .inr ⟨other, row, entry, hrowGet, hget, hcreates,
          (mem_done_iff hkeyed hlist hget hrowGet).mp hrow⟩
    · exact traced.rows txid tx hpending outpoint hspends

/-- **What a reconciliation keeps comes after its parents.** -/
theorem reconcile_traced {clock : ℕ → Int} {db' : Store} (hkeyed : db.Keyed)
    (h : (reconcile node clock []).eval db = .ok ((), db')) :
    ∃ pending, Traced db db.listMempool pending db' := by
  rw [reconcile, Program.eval_get_andThen] at h
  obtain ⟨⟨⟨⟩, cleared⟩, hclear, h⟩ := Program.eval_andThen_eq_ok.mp h
  have hcleared : cleared = { db with mempool := ∅ } :=
    (Prod.mk.inj (Except.ok.inj hclear)).2.symm
  rw [Program.eval_get_andThen] at h
  obtain ⟨ctx, -, h⟩ := Program.eval_ofExcept_andThen_eq_ok.mp h
  obtain ⟨⟨pending, rebuilt⟩, hloop, h⟩ := Program.eval_andThen_eq_ok.mp h
  obtain ⟨⟨final, rebuilt'⟩, hextra, hevict⟩ := Program.eval_andThen_eq_ok.mp h
  -- After the clearing nothing pends, and the overlay shows the stored outputs.
  have hstart : Traced db [] { view := cleared.overlay, entries := [] } cleared := by
    refine ⟨fun entry hentry => absurd hentry not_mem_nil, fun outpoint hshown => ?_, ?_⟩
    · rw [overlay_get, hcleared] at hshown
      exact .inl hshown
    · intro txid tx hpending
      rw [hcleared, Store.pending, Std.ExtTreeMap.getElem?_empty] at hpending
      cases hpending
  have htraced := Program.eval_foldlM_done
    (fun done pending current => Traced db (done.map Prod.fst) pending current)
    (fun done item rest pending current pending' current' hitems hround traced => by
      rw [map_append]
      exact traced.readmit hkeyed (zipIdx_cut hitems).1 hround) hloop hstart
  rw [zipIdx_map_fst] at htraced
  cases hextra
  -- The eviction only takes rows away.
  rw [eval_evictIfNeeded] at hevict
  cases hevict
  refine ⟨pending, htraced.entries, htraced.shows, fun txid tx hpending => ?_⟩
  exact htraced.rows txid tx (sub_dropPending rebuilt _ txid tx hpending)

end

/-! ### The result -/

/-- **Reconciliation over an unchanged chain.** A pool that admissions have built over a chain, with
no entry expired and nothing evicted, comes out of a reconciliation with the same entries, fees and
admission times exactly when its order puts every parent before its children. -/
theorem reconcile_lossless_iff {node : Node} {chain db : Store} {clock : ℕ → Int}
    (hempty : chain.mempool = ∅) (run : AdmissionRun node chain db) (fresh : Fresh db)
    (alive : Alive node clock db) : Lossless node clock db ↔ ParentsFirst db := by
  have settled := run.settled hempty
  refine ⟨fun lossless => ?_, fun parents => settled.lossless fresh parents alive⟩
  intro parentTxid childTxid parent child hne hparent hchild
    ⟨own, outpoint, hown, hcreates, hspends⟩
  rcases lossless with hnone | ⟨db', heval, hsame⟩
  · rw [hnone, Std.ExtTreeMap.getElem?_empty] at hchild
    cases hchild
  obtain ⟨pending, htraced⟩ := reconcile_traced settled.sound.keyed heval
  have hpending : db.pending parentTxid = some parent.transaction :=
    Store.pending_eq_some.mpr ⟨parent, hparent, rfl⟩
  obtain rfl := ok_unique (settled.sound.keyed parentTxid _ hpending) hown
  have hkept : db'.pending childTxid = some child.transaction := by
    rw [Store.pending, hsame, hchild]
    rfl
  rcases htraced.rows childTxid _ hkept outpoint hspends with hchain | ⟨giver, row, found, hrow,
    hfound, hgives, horder⟩
  · exact absurd (fresh parentTxid _ hpending outpoint hcreates) hchain
  · obtain rfl : giver = parentTxid := hgives.1.symm.trans hcreates.1
    obtain rfl := Option.mem_unique hrow hparent
    obtain rfl := Option.mem_unique hfound hchild
    exact rowOrder_eq_lt.mp horder

end

namespace SampleReconciliation

local instance platform : Platform := samplePlatform []

open SampleMempool in
/-- A payment from the output of the first one, with a fee of eighteen chipbits and a smaller
txid. -/
def child : Transaction := payment change 72

def childTxid : PyStr := child.txid.toOption.getD []

def node : Node := SampleMempool.node 1000

/-- The first payment is pending since time zero. -/
def single : Store := admitAt node 0 SampleMempool.start SampleMempool.parent

/-- The second one is admitted at a time. -/
def pool (time : Int) : Store := admitAt node time single child

/-- The outputs of the pending transactions are not in the chain. -/
def OutputsNew (db : Store) : Prop :=
  ∀ row ∈ db.mempool.toList, ∀ index < row.2.transaction.outputs.length,
    db.utxos[(⟨row.1, (index : ℕ)⟩ : OutPoint)]? = none

instance (db : Store) : Decidable (OutputsNew db) :=
  inferInstanceAs (Decidable (∀ row ∈ db.mempool.toList, _))

private theorem OutputsNew.fresh {db : Store} (h : OutputsNew db) : Fresh db := by
  intro txid tx hpending outpoint hcreates
  obtain ⟨entry, hget, rfl⟩ := Store.pending_eq_some.mp hpending
  obtain ⟨htxid, hindex, hlength⟩ := hcreates
  have hnone := h (txid, entry) (Std.ExtTreeMap.mem_toList_iff_getElem?_eq_some.mpr hget) _ hlength
  have hsame : outpoint = ⟨txid, (outpoint.index.toNat : Int)⟩ := by
    rw [Int.toNat_of_nonneg hindex, ← htxid]
  rw [hsame]
  exact hnone

private theorem alive_of_all {db : Store} {time : Int}
    (h : ∀ entry ∈ db.listMempool, ¬ isExpired node.policy entry.addedAt time) :
    Alive node (fun _ => time) db := fun _ entry hentry =>
  h entry (mem_of_getElem? hentry)

/-- What the evaluation shows of the pool with both payments. -/
def Built (time : Int) : Prop :=
  ReceivesAt node 0 SampleMempool.start SampleMempool.parent ∧
    ReceivesAt node time single child ∧ OutputsNew (pool time) ∧
    (∀ entry ∈ (pool time).listMempool, ¬ isExpired node.policy entry.addedAt time) ∧
    (pool time).pending SampleMempool.parentTxid = some SampleMempool.parent ∧
    (pool time).pending childTxid = some child

instance (time : Int) : Decidable (Built time) := inferInstanceAs (Decidable (_ ∧ _))

private theorem Built.run {time : Int} (h : Built time) :
    AdmissionRun node SampleMempool.start (pool time) :=
  (h.2.1.run (by decide) rfl (h.1.run (by decide) rfl .refl).2.2).2.2

/-- **A child gets lost.** Both payments are admitted in the same second, and the second one has the
smaller txid: the reconciliation takes it first, finds its input missing and drops it. -/
theorem child_dropped :
    AdmissionRun node SampleMempool.start (pool 0) ∧ Fresh (pool 0) ∧
      Alive node (fun _ => 0) (pool 0) ∧ ¬ Lossless node (fun _ => 0) (pool 0) := by
  have hshown : Built 0 ∧ (((reconcile node (fun _ => 0) []).eval (pool 0)).toOption.map
      fun result => (result.2.pending childTxid).isSome) = some false := by decide +kernel
  obtain ⟨hbuilt, hdropped⟩ := hshown
  obtain ⟨-, -, hnew, halive, -, hchild⟩ := id hbuilt
  refine ⟨hbuilt.run, hnew.fresh, alive_of_all halive, ?_⟩
  rintro (hnone | ⟨db', heval, hsame⟩)
  · rw [Store.pending, hnone, Std.ExtTreeMap.getElem?_empty] at hchild
    cases hchild
  · rw [heval] at hdropped
    have hgone : (db'.pending childTxid).isSome = false := Option.some.inj hdropped
    rw [Store.pending, hsame, ← Store.pending, hchild] at hgone
    cases hgone

/-- A second later the admission times put the parent first, and nothing gets lost. -/
theorem reconcile_lossless_later :
    (pool 1).pending childTxid = some child ∧ Lossless node (fun _ => 1) (pool 1) := by
  have hshown : Built 1 ∧ ∀ parent ∈ (pool 1).mempool.toList, ∀ child ∈ (pool 1).mempool.toList,
      (∃ txInput ∈ child.2.transaction.inputs, txInput.previousOutput.txid = parent.1) →
        parent.2.addedAt < child.2.addedAt := by decide +kernel
  obtain ⟨hbuilt, horder⟩ := hshown
  obtain ⟨-, -, hnew, halive, -, hchild⟩ := id hbuilt
  refine ⟨hchild, (reconcile_lossless_iff rfl hbuilt.run hnew.fresh (alive_of_all halive)).mpr ?_⟩
  intro parentTxid childTxid parent child _ hparent hchild ⟨own, outpoint, hown, hcreates, hspends⟩
  have hkeyed := (hbuilt.run.sound (Sound.of_empty rfl)).keyed
  have htxid := hkeyed parentTxid _ (Store.pending_eq_some.mpr ⟨parent, hparent, rfl⟩)
  obtain rfl := ok_unique htxid hown
  obtain ⟨txInput, hinput, rfl⟩ := List.mem_map.mp hspends
  exact .inl (horder (parentTxid, parent)
    (Std.ExtTreeMap.mem_toList_iff_getElem?_eq_some.mpr hparent) (childTxid, child)
    (Std.ExtTreeMap.mem_toList_iff_getElem?_eq_some.mpr hchild) ⟨txInput, hinput, hcreates.1⟩)

end SampleReconciliation

end Chipcoin
