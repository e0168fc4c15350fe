import Chipcoin.Lib.Packing
import Chipcoin.MempoolConsistency

/-!
# Replacement of pending attestation bundles

A bundle of attestations that arrives while bundles with some of the same attestations are pending
takes their place, when it has all that they have and is better: it stands for two or more of them,
or has attestations that none of them has. Over all admissions during which nothing expires and
nothing is evicted, the pending bundles stay apart, no pending attestation gets lost, and every
replacement goes up in an order (`Packing.rank`), so that no pool of bundles comes back.

* `Undisturbed`, `AdmissionRun`: admissions in which nothing goes for its age or for lack of room.
* `Absorption`: what one admission does to the set of pending bundles.
* `Apart`: the invariant, and `Absorption.keeps_apart`, which keeps it.
* `AdmissionRun.rank_le`: a run goes up.
* `bundle_replacement`: the result for every reachable pool.
-/

namespace Chipcoin

open Checked Database List

section

variable {gone : Finset Transaction} {start : Store}

/-! ### Admissions -/

theorem pending_admittedStore (other : PyStr) :
    (admittedStore db txid clock tx addedAt admission).pending other =
      if other = txid then some tx
      else if other ∈ admission.replacementTxids then none else db.pending other := by
  rw [admittedStore, Store.pending_putPending, Function.update_apply, Store.pending_dropPending]
  rfl

variable [Platform]

/-- The admission of a transaction finds no expired row and enough room, counted with the new row
and without the replaced ones. -/
def Undisturbed (node : Node) (clock : ℕ → Int) (tx : Transaction) (addedAt : Option Int)
    (db : Store) : Prop :=
  ∀ admission txid, admissionChecks node db tx = .ok admission →
    tx.txid = .ok txid →
      (∀ entry ∈ (admittedStore db txid clock tx addedAt admission).listMempool,
        ¬ isExpired node.policy entry.addedAt (pruneTime clock addedAt)) ∧
      (admittedStore db txid clock tx addedAt admission).mempool.size ≤
        node.policy.maxMempoolTransactions

/-- The tables that undisturbed admissions lead to. -/
inductive AdmissionRun (node : Node) (start : Store) : Store → Prop
  | refl : AdmissionRun node start start
  | accept {db db' : Store} {clock : ℕ → Int} {tx : Transaction}
      {addedAt : Option Int} {fee : Int} (before : AdmissionRun node start db)
      (undisturbed : Undisturbed node clock tx addedAt db)
      (h : (Chipcoin.accept node clock tx addedAt).eval db = .ok (fee, db')) :
      AdmissionRun node start db'

variable {node : Node} {clock : ℕ → Int} {tx : Transaction} {addedAt : Option Int}
  {db db' : Store} {fee : Int}

/-- **An undisturbed admission** replaces rows and adds one. -/
theorem accept_undisturbed (sound : Sound db) (undisturbed : Undisturbed node clock tx addedAt db)
    (h : (accept node clock tx addedAt).eval db = .ok (fee, db')) :
    ∃ admission txid, AdmissionFacts node db tx admission txid ∧
      db' = admittedStore db txid clock tx addedAt admission := by
  obtain ⟨admission, txid, expired, facts, hexpired, rfl, -⟩ := accept_ok sound.keyed h
  obtain ⟨hfresh, hfits⟩ := undisturbed admission txid facts.checks facts.txid_eq
  -- Nothing has expired, so the pruning deletes nothing.
  have hnone : expired = [] := by
    refine List.eq_nil_iff_forall_not_mem.mpr fun other hother => ?_
    obtain ⟨entry, hget, hold⟩ := (hexpired other).mp hother
    exact hfresh entry (mem_listMempool.mpr ⟨other, hget⟩) hold
  rw [hnone]
  exact ⟨admission, txid, facts, Store.evicted_of_le hfits⟩

/-- A condition on the pool before the admission: nothing in it has expired, nor has the new
transaction, and there is room for one more. -/
theorem undisturbed_of_room (sound : Sound db) (hold : ∀ entry ∈ db.listMempool,
      ¬ isExpired node.policy entry.addedAt (pruneTime clock addedAt))
    (hnew : ¬ isExpired node.policy (addedAt.getD (clock 0)) (pruneTime clock addedAt))
    (hroom : db.mempool.size + 1 ≤ node.policy.maxMempoolTransactions) :
    Undisturbed node clock tx addedAt db := by
  intro admission txid hchecks htxid
  obtain ⟨own, facts⟩ := admissionChecks_ok hchecks
  obtain rfl := ok_unique htxid facts.txid_eq
  refine ⟨?_, ?_⟩
  · intro entry hentry
    obtain ⟨other, hget⟩ := mem_listMempool.mp hentry
    rcases mempool_admitted hget with ⟨-, rfl⟩ | hbefore
    · exact hnew
    · exact hold entry (mem_listMempool.mpr ⟨other, hbefore⟩)
  · -- At most one row more than before, whatever was replaced.
    have hsound := facts.sound_put sound clock addedAt
    have hsize : (admittedStore db txid clock tx addedAt admission).mempool.size ≤
        (tx :: db.pendingTransactions).length := by
      refine hsound.keyed.size_le fun other found hfound => ?_
      obtain ⟨row, hget, rfl⟩ := Store.pending_eq_some.mp hfound
      rcases mempool_admitted hget with ⟨-, rfl⟩ | hbefore
      · exact mem_cons_self
      · exact mem_cons_of_mem _ (mem_pendingTransactions.mpr
          ⟨other, Store.pending_eq_some.mpr ⟨row, hbefore, rfl⟩⟩)
    rw [length_cons, length_pendingTransactions] at hsize
    exact hsize.trans hroom

theorem AdmissionRun.sound {node : Node} {db : Store} (sound : Sound start)
    (run : AdmissionRun node start db) : Sound db := by
  induction run with
  | refl => exact sound
  | accept _ _ h ih => exact ih.accept h

/-- An admission at a time returns, and finds room and nothing expired. -/
def ReceivesAt (node : Node) (time : Int) (db : Store) (tx : Transaction) : Prop :=
  ((accept node (fun _ => time) tx none).eval db).toOption.isSome ∧
    db.mempool.size + 1 ≤ node.policy.maxMempoolTransactions ∧
    ∀ entry ∈ db.listMempool, ¬ isExpired node.policy entry.addedAt time

instance (node : Node) (time : Int) (db : Store) (tx : Transaction) :
    Decidable (ReceivesAt node time db tx) :=
  inferInstanceAs (Decidable (_ ∧ _))

/-- The tables after an admission at a time, which stay as they are when it raises. -/
def admitAt (node : Node) (time : Int) (db : Store) (tx : Transaction) : Store :=
  (((accept node (fun _ => time) tx none).eval db).toOption.getD (0, db)).2

/-- Its place in a run of admissions. -/
theorem ReceivesAt.run {node : Node} {time : Int} {db : Store} {tx : Transaction}
    (h : ReceivesAt node time db tx) (hlifetime : 0 < node.policy.transactionTtlSeconds)
    (hempty : start.mempool = ∅) (run : AdmissionRun node start db) :
    Undisturbed node (fun _ => time) tx none db ∧
      (∃ fee, (accept node (fun _ => time) tx none).eval db =
        .ok (fee, admitAt node time db tx)) ∧
      AdmissionRun node start (admitAt node time db tx) := by
  obtain ⟨hsome, hroom, hfresh⟩ := h
  have hnew : ¬ isExpired node.policy time time := by
    rw [isExpired, sub_self, decide_eq_true_eq, ge_iff_le, not_le]
    exact hlifetime
  have hundisturbed : Undisturbed node (fun _ => time) tx none db :=
    undisturbed_of_room (run.sound (Sound.of_empty hempty)) hfresh hnew hroom
  obtain ⟨fee, hreturns⟩ : ∃ fee, (accept node (fun _ => time) tx none).eval db =
      .ok (fee, admitAt node time db tx) := ⟨_, eq_ok_getD hsome⟩
  exact ⟨hundisturbed, ⟨fee, hreturns⟩, run.accept hundisturbed hreturns⟩

/-! ### The pending bundles -/

/-- The pending bundles. -/
def Store.pendingBundles (db : Store) : Finset Transaction :=
  (db.pendingTransactions.filter isRewardAttestationBundleTransaction).toFinset

/-- The attestation identities that are pending. -/
def Store.pendingIdentities (db : Store) : Finset AttestationIdentity :=
  db.pendingBundles.biUnion recordedIdentities

omit [Platform] in
private theorem mem_pendingBundles {db : Store} {tx : Transaction} :
    tx ∈ db.pendingBundles ↔ (∃ txid, db.pending txid = some tx) ∧
      isRewardAttestationBundleTransaction tx := by
  rw [Store.pendingBundles, mem_toFinset, mem_filter, mem_pendingTransactions]

/-- The number of entries that hold a bundle. -/
def Store.bundleCount (db : Store) : ℕ :=
  db.listMempool.countP fun entry => isRewardAttestationBundleTransaction entry.transaction

private theorem Store.Keyed.card_pendingBundles {db : Store} (hkeyed : db.Keyed) :
    db.pendingBundles.card = db.bundleCount := by
  rw [Store.pendingBundles, toFinset_card_of_nodup (hkeyed.nodup_pendingTransactions.filter _),
    ← countP_eq_length_filter, Store.pendingTransactions, countP_map]
  rfl

/-- **The pending bundles are apart**: each parses, no two have a common identity, no two have the
same epoch, window and submitter. -/
structure Apart (db : Store) : Prop where
  parses : ∀ tx ∈ db.pendingBundles,
    ∃ bundle, parseRewardAttestationBundleMetadata tx = .ok bundle
  disjoint : (db.pendingBundles : Set Transaction).PairwiseDisjoint recordedIdentities
  keys : ∀ first ∈ db.pendingBundles, ∀ second ∈ db.pendingBundles, first ≠ second →
    ∀ bundle other, parseRewardAttestationBundleMetadata first = .ok bundle →
      parseRewardAttestationBundleMetadata second = .ok other → bundleKey bundle ≠ bundleKey other

/-! ### One admission -/

/-- What one admission does to the pending bundles: the new transaction takes the place of some of
them, all of which it contains, and it is apart from those that stay. A transaction of another kind
takes the place of none. -/
structure Absorption (db : Store) (tx : Transaction) (db' : Store)
    (gone : Finset Transaction) : Prop where
  sub : gone ⊆ db.pendingBundles
  bundles : ∀ pending, pending ∈ db'.pendingBundles ↔
    (pending = tx ∨ pending ∈ db.pendingBundles \ gone) ∧
      isRewardAttestationBundleTransaction pending
  contained : ∀ old ∈ gone, recordedIdentities old ⊆ recordedIdentities tx
  filled : ∀ old ∈ gone, (recordedIdentities old).Nonempty
  better : gone.Nonempty → isRewardAttestationBundleTransaction tx ∧
    (1 < gone.card ∨
      (gone.biUnion recordedIdentities).card < (recordedIdentities tx).card)
  rows : gone = ∅ → ∀ txid : PyStr, db.mempool[txid]? ≠ none → db'.mempool[txid]? ≠ none
  apart : isRewardAttestationBundleTransaction tx →
    ∃ bundle, parseRewardAttestationBundleMetadata tx = .ok bundle ∧
      ∀ old ∈ db.pendingBundles \ gone, ∀ existing,
        parseRewardAttestationBundleMetadata old = .ok existing →
          bundleKey existing ≠ bundleKey bundle ∧
            Disjoint (recordedIdentities tx) (recordedIdentities old)

section

variable {node : Node} {clock : ℕ → Int} {tx : Transaction} {addedAt : Option Int}
  {db db' : Store} {admission : Admission} {txid : PyStr}

/-- **One admission absorbs the bundles that it replaces.** -/
theorem AdmissionFacts.absorption (facts : AdmissionFacts node db tx admission txid)
    (sound : Sound db) :
    ∃ gone, Absorption db tx
      (admittedStore db txid clock tx addedAt admission) gone := by
  obtain ⟨chosen, habsorbed, hbetter⟩ := replacementTxids_ok facts.replaced
  have hpending : ∀ entry ∈ chosen, ∃ own, entry.transaction.txid = .ok own ∧
      db.pending own = some entry.transaction := by
    intro entry hentry
    obtain ⟨own, hown, hget⟩ := sound.keyed.txid_of_mem (habsorbed.sublist.mem hentry)
    exact ⟨own, hown, Store.pending_eq_some.mpr ⟨entry, hget, rfl⟩⟩
  -- A row is replaced exactly when its transaction is among the chosen ones.
  have hreplaced : ∀ other old, db.pending other = some old →
      (other ∈ admission.replacementTxids ↔ old ∈ (chosen.map (·.transaction)).toFinset) := by
    intro other old hold
    rw [habsorbed.mem_txids, mem_toFinset, mem_map]
    constructor
    · rintro ⟨entry, hentry, htxid⟩
      obtain ⟨own, hown, hrow⟩ := hpending entry hentry
      obtain rfl := ok_unique htxid hown
      exact ⟨entry, hentry, Option.mem_unique hrow hold⟩
    · rintro ⟨entry, hentry, rfl⟩
      exact ⟨entry, hentry, sound.keyed other _ hold⟩
  have hnodup : (chosen.map (·.transaction)).Nodup :=
    sound.keyed.nodup_pendingTransactions.sublist (habsorbed.sublist.map _)
  refine ⟨(chosen.map (·.transaction)).toFinset, ⟨?_, ?_, ?_, ?_, ?_, ?_, ?_⟩⟩
  · intro old hold
    obtain ⟨entry, hentry, rfl⟩ := List.mem_map.mp (List.mem_toFinset.mp hold)
    obtain ⟨own, -, hrow⟩ := hpending entry hentry
    exact mem_pendingBundles.mpr ⟨⟨own, hrow⟩, (habsorbed.bundles entry hentry).1⟩
  · intro pending
    rw [mem_pendingBundles, Finset.mem_sdiff, mem_pendingBundles]
    refine and_congr_left fun hkind => ?_
    constructor
    · rintro ⟨other, hother⟩
      rw [pending_admittedStore] at hother
      split_ifs at hother with hnew hgone
      · exact .inl (Option.some.inj hother).symm
      · exact .inr ⟨⟨⟨other, hother⟩, hkind⟩,
          fun hmem => hgone ((hreplaced other pending hother).mpr hmem)⟩
    · rintro (rfl | ⟨⟨⟨other, hother⟩, -⟩, hstays⟩)
      · exact ⟨txid, by rw [pending_admittedStore, if_pos rfl]⟩
      · refine ⟨other, ?_⟩
        have hne : other ≠ txid := by
          rintro rfl
          rw [Store.pending, facts.absent] at hother
          cases hother
        rw [pending_admittedStore, if_neg hne,
          if_neg fun hgone => hstays ((hreplaced other pending hother).mp hgone), hother]
  · intro old hold
    obtain ⟨entry, hentry, rfl⟩ := List.mem_map.mp (List.mem_toFinset.mp hold)
    exact (habsorbed.bundles entry hentry).2.2
  · intro old hold
    obtain ⟨entry, hentry, rfl⟩ := List.mem_map.mp (List.mem_toFinset.mp hold)
    exact (habsorbed.bundles entry hentry).2.1
  · rintro ⟨old, hold⟩
    obtain ⟨entry, hentry, -⟩ := List.mem_map.mp (List.mem_toFinset.mp hold)
    rw [toFinset_card_of_nodup hnodup, length_map]
    exact hbetter (ne_nil_of_mem hentry)
  · intro hempty other hrow
    have hnone : chosen = [] := by
      rw [toFinset_eq_empty_iff, map_eq_nil_iff] at hempty
      exact hempty
    have htxids : admission.replacementTxids = [] := by
      refine List.eq_nil_iff_forall_not_mem.mpr fun gone hgone => ?_
      obtain ⟨entry, hentry, -⟩ := habsorbed.mem_txids.mp hgone
      rw [hnone] at hentry
      cases hentry
    rw [admittedStore, htxids, Store.putPending, Table.getElem?_insert]
    split_ifs
    · exact Option.some_ne_none _
    · exact hrow
  · intro hkind
    obtain ⟨bundle, hparse, -, hothers⟩ := bundlePolicy_ok facts.bundlePolicy hkind
    refine ⟨bundle, hparse, fun old hold => ?_⟩
    obtain ⟨hmem, hstays⟩ := Finset.mem_sdiff.mp hold
    obtain ⟨⟨other, hother⟩, holdKind⟩ := mem_pendingBundles.mp hmem
    obtain ⟨entry, hget, rfl⟩ := Store.pending_eq_some.mp hother
    refine hothers entry (List.mem_filter.mpr ⟨mem_listMempool.mpr ⟨other, hget⟩, ?_⟩) holdKind
    rw [sound.keyed other _ hother]
    exact decide_eq_true fun hgone => hstays ((hreplaced other _ hother).mp hgone)

section

variable (absorption : Absorption db tx db' gone)
include absorption

private theorem Absorption.eq_absorb (kind : isRewardAttestationBundleTransaction tx) :
    db'.pendingBundles = Packing.absorb db.pendingBundles gone tx := by
  ext pending
  rw [absorption.bundles, Packing.absorb, Finset.mem_insert]
  refine and_iff_left_of_imp ?_
  rintro (rfl | hstays)
  · exact kind
  · exact (mem_pendingBundles.mp (Finset.mem_sdiff.mp hstays).1).2

private theorem Absorption.eq_of_other (kind : ¬ isRewardAttestationBundleTransaction tx) :
    gone = ∅ ∧ db'.pendingBundles = db.pendingBundles := by
  have hnone : gone = ∅ := Finset.not_nonempty_iff_eq_empty.mp fun hsome =>
    kind (absorption.better hsome).1
  refine ⟨hnone, ?_⟩
  ext pending
  rw [absorption.bundles, hnone, Finset.sdiff_empty]
  constructor
  · rintro ⟨rfl | hmem, hkind⟩
    · exact absurd hkind kind
    · exact hmem
  · exact fun hmem => ⟨.inr hmem, (mem_pendingBundles.mp hmem).2⟩

/-- The new bundle shares nothing with those that stay. -/
theorem Absorption.disjoint (apart : Apart db) (kind : isRewardAttestationBundleTransaction tx) :
    ∀ old ∈ db.pendingBundles \ gone,
      Disjoint (recordedIdentities tx) (recordedIdentities old) := by
  intro old hold
  obtain ⟨bundle, -, hothers⟩ := absorption.apart kind
  obtain ⟨existing, hexisting⟩ := apart.parses old (Finset.mem_sdiff.mp hold).1
  exact (hothers old hold existing hexisting).2

/-- **One admission keeps the bundles apart.** -/
theorem Absorption.keeps_apart (apart : Apart db) : Apart db' := by
  by_cases kind : isRewardAttestationBundleTransaction tx
  · obtain ⟨bundle, hparse, hothers⟩ := absorption.apart kind
    have hmem : ∀ pending ∈ db'.pendingBundles,
        pending = tx ∨ pending ∈ db.pendingBundles \ gone := fun pending hpending =>
      ((absorption.bundles pending).mp hpending).1
    refine ⟨?_, ?_, ?_⟩
    · intro pending hpending
      rcases hmem pending hpending with rfl | hstays
      · exact ⟨bundle, hparse⟩
      · exact apart.parses pending (Finset.mem_sdiff.mp hstays).1
    · rw [absorption.eq_absorb kind]
      exact Packing.pairwiseDisjoint_absorb apart.disjoint (absorption.disjoint apart kind)
    · -- Old and old by the hypothesis; new and old by the check of the pairs.
      intro first hfirst second hsecond hne one two hone htwo
      rcases hmem first hfirst with rfl | hfirst
      · obtain rfl := ok_unique hparse hone
        rcases hmem second hsecond with rfl | hsecond
        · exact absurd rfl hne
        · exact (hothers second hsecond two htwo).1.symm
      · rcases hmem second hsecond with rfl | hsecond
        · obtain rfl := ok_unique hparse htwo
          exact (hothers first hfirst one hone).1
        · exact apart.keys first (Finset.mem_sdiff.mp hfirst).1 second
            (Finset.mem_sdiff.mp hsecond).1 hne one two hone htwo
  · have hsame := (absorption.eq_of_other kind).2
    exact ⟨by rw [hsame]; exact apart.parses, by rw [hsame]; exact apart.disjoint,
      by rw [hsame]; exact apart.keys⟩

/-- No pending identity gets lost. -/
theorem Absorption.identities_subset : db.pendingIdentities ⊆ db'.pendingIdentities := by
  by_cases kind : isRewardAttestationBundleTransaction tx
  · rw [Store.pendingIdentities, Store.pendingIdentities, absorption.eq_absorb kind]
    exact Packing.biUnion_subset_absorb absorption.contained
  · rw [Store.pendingIdentities, Store.pendingIdentities, (absorption.eq_of_other kind).2]

/-- A replacement brings new identities or leaves fewer bundles. -/
theorem Absorption.progress (apart : Apart db) (replaces : gone.Nonempty) :
    db.pendingIdentities ⊂ db'.pendingIdentities ∨
      db'.pendingBundles.card < db.pendingBundles.card := by
  obtain ⟨kind, hbetter⟩ := absorption.better replaces
  rw [Store.pendingIdentities, Store.pendingIdentities, absorption.eq_absorb kind]
  exact Packing.grows_or_shrinks absorption.sub absorption.contained
    (absorption.disjoint apart kind) hbetter

end

/-- The place of a pool of bundles in the order of `Packing.rank`. -/
def Store.bundleRank (db : Store) : Finset AttestationIdentity ×ₗ ℕᵒᵈ :=
  Packing.rank recordedIdentities db.pendingBundles

theorem Absorption.rank_le (absorption : Absorption db tx db' gone)
    (apart : Apart db) : db.bundleRank ≤ db'.bundleRank := by
  by_cases kind : isRewardAttestationBundleTransaction tx
  · rw [Store.bundleRank, Store.bundleRank, absorption.eq_absorb kind]
    rcases gone.eq_empty_or_nonempty with rfl | replaces
    · rw [Packing.absorb, Finset.sdiff_empty]
      refine Packing.rank_le_insert fun old hold => ?_
      exact absorption.disjoint apart kind old (by rw [Finset.sdiff_empty]; exact hold)
    · exact (Packing.rank_lt_absorb absorption.sub absorption.contained absorption.filled
        (absorption.disjoint apart kind) (absorption.better replaces).2).le
  · rw [Store.bundleRank, Store.bundleRank, (absorption.eq_of_other kind).2]

private theorem Absorption.rank_lt (absorption : Absorption db tx db' gone)
    (apart : Apart db) (replaces : gone.Nonempty) : db.bundleRank < db'.bundleRank := by
  obtain ⟨kind, hbetter⟩ := absorption.better replaces
  rw [Store.bundleRank, Store.bundleRank, absorption.eq_absorb kind]
  exact Packing.rank_lt_absorb absorption.sub absorption.contained absorption.filled
    (absorption.disjoint apart kind) hbetter

end

/-! ### Runs -/

/-- One step of a run. -/
theorem accept_absorption (sound : Sound db) (undisturbed : Undisturbed node clock tx addedAt db)
    (h : (accept node clock tx addedAt).eval db = .ok (fee, db')) :
    ∃ gone, Absorption db tx db' gone := by
  obtain ⟨admission, txid, facts, rfl⟩ := accept_undisturbed sound undisturbed h
  exact facts.absorption sound

theorem Apart.of_empty {db : Store} (h : db.mempool = ∅) : Apart db := by
  have hnone : db.pendingBundles = ∅ := by
    refine Finset.eq_empty_of_forall_notMem fun pending hpending => ?_
    obtain ⟨⟨txid, hrow⟩, -⟩ := mem_pendingBundles.mp hpending
    rw [Store.pending, h, Std.ExtTreeMap.getElem?_empty] at hrow
    cases hrow
  refine ⟨?_, ?_, ?_⟩
  · rw [hnone]
    exact fun pending hpending => absurd hpending (Finset.notMem_empty pending)
  · rw [hnone, Finset.coe_empty]
    exact Set.pairwise_empty _
  · rw [hnone]
    exact fun pending hpending => absurd hpending (Finset.notMem_empty pending)

private theorem AdmissionRun.apart (sound : Sound start) (apart : Apart start)
    (run : AdmissionRun node start db) : Apart db := by
  induction run with
  | refl => exact apart
  | accept before undisturbed h ih =>
    obtain ⟨gone, absorption⟩ := accept_absorption (before.sound sound) undisturbed h
    exact absorption.keeps_apart ih

/-- **A run goes up.** -/
theorem AdmissionRun.rank_le (sound : Sound start) (apart : Apart start)
    (run : AdmissionRun node start db) :
    start.bundleRank ≤ db.bundleRank := by
  induction run with
  | refl => exact le_refl _
  | accept before undisturbed h ih =>
    obtain ⟨gone, absorption⟩ := accept_absorption (before.sound sound) undisturbed h
    exact ih.trans (absorption.rank_le (before.apart sound apart))

/-- A row of the first pool is not in the second one. -/
def Replaces (db db' : Store) : Prop :=
  ∃ txid : PyStr, db.mempool[txid]? ≠ none ∧ db'.mempool[txid]? = none

/-- **Replacement loses nothing.** In every pool that admissions reach from the empty one, with no
expiry and no eviction, the pending bundles are apart. The next admission keeps every pending
identity. If it replaces a row, the pending identities strictly grow or the pending bundles get
strictly fewer, and no later pool has the same bundles again. -/
theorem bundle_replacement {node : Node} {start db : Store} (hempty : start.mempool = ∅)
    (run : AdmissionRun node start db) :
    Apart db ∧ ∀ clock tx addedAt fee db',
      Undisturbed node clock tx addedAt db →
      (accept node clock tx addedAt).eval db = .ok (fee, db') →
        db.pendingIdentities ⊆ db'.pendingIdentities ∧
        (Replaces db db' →
          (db.pendingIdentities ⊂ db'.pendingIdentities ∨
            db'.bundleCount < db.bundleCount) ∧
          ∀ later, AdmissionRun node db' later →
            later.pendingBundles ≠ db.pendingBundles) := by
  have sound := run.sound (Sound.of_empty hempty)
  have apart := run.apart (Sound.of_empty hempty) (Apart.of_empty hempty)
  refine ⟨apart, ?_⟩
  intro clock tx addedAt fee db' undisturbed h
  obtain ⟨gone, absorption⟩ := accept_absorption sound undisturbed h
  refine ⟨absorption.identities_subset, ?_⟩
  rintro ⟨txid, hbefore, hafter⟩
  have replaces : gone.Nonempty := Finset.nonempty_iff_ne_empty.mpr fun hnone =>
    absorption.rows hnone txid hbefore hafter
  refine ⟨?_, fun later hlater hsame => ?_⟩
  · rw [← sound.keyed.card_pendingBundles, ← (sound.accept h).keyed.card_pendingBundles]
    exact absorption.progress apart replaces
  -- The rank went up at the replacement and does not go down again.
  have hup := (absorption.rank_lt apart replaces).trans_le
    (hlater.rank_le (sound.accept h) (absorption.keeps_apart apart))
  rw [Store.bundleRank, Store.bundleRank, hsame] at hup
  exact lt_irrefl _ hup

end

namespace SampleReplacement

/-- An attestation that one node has checked another one. -/
def attestation (candidate verifier : String) : Json :=
  .obj [(str "epoch_index", .int 0), (str "check_window_index", .int 0),
    (str "candidate_node_id", .str (str candidate)), (str "verifier_node_id", .str (str verifier)),
    (str "result_code", .str (str "pass")), (str "observed_sync_gap", .int 0),
    (str "endpoint_commitment", .str []), (str "concentration_key", .str []),
    (str "signature_hex", .str [])]

local instance platform : Platform := samplePlatform [
  (str "first", .arr [attestation "a" "b"]),
  (str "second", .arr [attestation "b" "a"]),
  (str "both", .arr [attestation "a" "b", attestation "b" "a"])]

def node : Node where
  params := sampleParams
  network := str "mainnet"

/-- A reward node. -/
def record (nodeId : PyStr) : NodeRecord where
  nodeId := nodeId
  payoutAddress := []
  ownerPubkey := []
  registeredHeight := 0
  lastRenewedHeight := 0
  nodePubkey := some []
  rewardRegistration := true

/-- The row of the only block. -/
def tipRow : HeaderRow where
  header := {
    version := 1
    previousBlockHash := zeroHash
    merkleRoot := zeroHash
    timestamp := 0
    bits := sampleParams.genesisBits
    nonce := 0 }
  height := some 0
  cumulativeWork := some 2
  isMainChain := true

/-- A chain of one block, with two reward nodes and no pending transactions. -/
def start : Store :=
  { Store.empty with
    headers := (∅ : Std.ExtTreeMap PyStr HeaderRow).insert (str "tip") tipRow
    chainTipHash := some (str "tip")
    nodeRegistry := [str "a", str "b"].foldl
      (fun rows nodeId => rows.insert nodeId (record nodeId)) ∅ }

/-- A bundle of one submitter. -/
def bundle (submitter text : String) (count : String) : Transaction where
  version := 1
  inputs := []
  outputs := []
  metadata := .ofPairs [("kind", str "reward_attestation_bundle"), ("epoch_index", str "0"),
    ("bundle_window_index", str "0"), ("bundle_submitter_node_id", str submitter),
    ("attestation_count", str count), ("attestations_json", str text)]

/-- Two bundles with one attestation each. -/
def apart : Store :=
  admitAt node 0 (admitAt node 0 start (bundle "a" "first" "1")) (bundle "b" "second" "1")

/-- The pool after a bundle with both attestations. -/
def merged : Store := admitAt node 0 apart (bundle "a" "both" "2")

/-- What the evaluation shows of the three admissions. -/
theorem admissions_evaluated :
    ReceivesAt node 0 start (bundle "a" "first" "1") ∧
      ReceivesAt node 0 (admitAt node 0 start (bundle "a" "first" "1")) (bundle "b" "second" "1") ∧
      ReceivesAt node 0 apart (bundle "a" "both" "2") ∧
      apart.bundleCount = 2 ∧ merged.bundleCount = 1 ∧
      apart.mempool[(bundle "a" "first" "1").txid.toOption.getD []]?.isSome ∧
      merged.mempool[(bundle "a" "first" "1").txid.toOption.getD []]?.isNone := by
  decide +kernel

/-- **Two bundles make way for their aggregate.** -/
theorem bundle_replacement_aggregate :
    apart.bundleCount = 2 ∧ merged.bundleCount = 1 ∧ Apart apart ∧
      apart.pendingIdentities ⊆ merged.pendingIdentities ∧
      (apart.pendingIdentities ⊂ merged.pendingIdentities ∨
        merged.bundleCount < apart.bundleCount) := by
  obtain ⟨hfirst, hsecond, hthird, hbefore, hafter, hthere, hgone⟩ := admissions_evaluated
  have hrun : AdmissionRun node start apart :=
    (hsecond.run (by decide) rfl (hfirst.run (by decide) rfl .refl).2.2).2.2
  obtain ⟨hundisturbed, ⟨fee, hmerged⟩, -⟩ := hthird.run (by decide) rfl hrun
  obtain ⟨hapart, hnext⟩ := bundle_replacement rfl hrun
  obtain ⟨hkept, hreplaces⟩ := hnext _ _ _ fee merged hundisturbed hmerged
  have hreplaced : Replaces apart merged :=
    ⟨_, Option.isSome_iff_ne_none.mp hthere, Option.isNone_iff_eq_none.mp hgone⟩
  exact ⟨hbefore, hafter, hapart, hkept, (hreplaces hreplaced).1⟩

end SampleReplacement

end Chipcoin
