import Chipcoin.Consensus.Encoding
import Chipcoin.Node.Chain
import Chipcoin.Supply

/-!
# Exact conservation of value

An output is lost when its outpoint is written again while it is unspent. Outpoints are named by
transaction identifiers, so this takes a transaction that is applied twice. A payment cannot be:
its inputs are gone after the first time, and they do not come back unless the transaction that
created them is applied twice before. What remains are coinbases, which spend nothing. No rule ties
a coinbase to its height, so a miner can repeat one, and the outputs of the first are lost.

* `History`: where the unspent outpoints come from and that spent ones stay away.
* `History.fresh_payment`, `History.fresh_coinbase`: an applied transaction is new.
* `InBlock`: the real set and the staged view inside a block, with the exact total.
* `ShowsUnspent`: a view that shows nothing of what was spent before.
* `value_conserved`: chains with distinct coinbases overwrite nothing and conserve value.
* `spent_once`: they spend every output at most once.
-/

namespace Chipcoin

open Checked Encoding Ledger List

variable {height : ℕ} {isCoinbase : Bool} {txs : List Transaction}
open Finsupp (degree)

variable {tx : Transaction} {txid : PyStr}

private theorem createdAt_txid {outpoint : OutPoint} {entry : UtxoEntry}
    (h : createdAt txid tx height isCoinbase outpoint = some entry) :
    outpoint.txid = txid ∧ tx.outputs ≠ [] := by
  rw [createdAt] at h
  split_ifs at h with hown
  obtain ⟨output, houtput, -⟩ := Option.map_eq_some_iff.mp h
  exact ⟨hown.1, ne_nil_of_mem (mem_of_getElem? houtput)⟩

/-- What is issued at an outpoint is what the output there is worth. -/
theorem issue_mapIdx_apply (txid : PyStr) (outputs : List TxOutput) (outpoint : OutPoint) :
    issue (outputs.mapIdx fun index output => ((⟨txid, index⟩ : OutPoint), output.value)) outpoint =
      if outpoint.txid = txid ∧ 0 ≤ outpoint.index then
        (outputs[outpoint.index.toNat]?.map TxOutput.value).getD 0
      else 0 := by
  induction outputs using List.reverseRecOn with
  | nil => simp [issue]
  | append_singleton outputs last ih =>
    rw [mapIdx_concat, issue_append, Finsupp.add_apply, ih, issue_singleton, Finsupp.single_apply]
    obtain ⟨id, index⟩ := outpoint
    simp only [OutPoint.mk.injEq]
    by_cases hown : id = txid ∧ 0 ≤ index
    swap
    · rw [if_neg hown, if_neg hown, if_neg fun h => hown ⟨h.1.symm, by omega⟩, add_zero]
    obtain ⟨rfl, hindex⟩ := hown
    obtain ⟨n, rfl⟩ := Int.eq_ofNat_of_zero_le hindex
    simp only [true_and, Nat.cast_inj, Int.toNat_natCast, Nat.cast_nonneg, if_true]
    -- The last output is the only one beyond the earlier ones.
    rcases lt_trichotomy n outputs.length with hlt | rfl | hgt
    · rw [if_neg hlt.ne', getElem?_append_left hlt, add_zero]
    · simp
    · rw [if_neg hgt.ne, getElem?_eq_none (by omega), getElem?_eq_none (by simp; omega)]
      rfl

private theorem observeTransaction_noCoins (h : tx.inputs = [] ∧ tx.outputs = [])
    (get : OutPoint → Option UtxoEntry) (txid : PyStr) (height : ℕ) (isCoinbase : Bool) :
    observeTransaction get txid tx height isCoinbase = get := by
  funext outpoint
  simp [observeTransaction, createdAt, spentOutpoints, h.1, h.2]

/-- Only one epoch closes at a height. -/
theorem epochCloseHeight_injective {params : ConsensusParams} {index index' : Int} {height : Int}
    (h : epochCloseHeight index params = .ok height)
    (h' : epochCloseHeight index' params = .ok height) : index = index' := by
  simp only [epochCloseHeight, bind_eq_ok, raiseIf_eq_ok, Unique.exists_iff, pure_eq_ok] at h h'
  have hlength : (params.epochLengthBlocks : Int) ≠ 0 := by
    exact_mod_cast params.epochLengthBlocks_pos.ne'
  have hmul : (index + 1) * params.epochLengthBlocks = (index' + 1) * params.epochLengthBlocks := by
    linarith [h.2, h'.2]
  linarith [mul_right_cancel₀ hlength hmul]

section

variable [Platform]

/-! ### Identifiers -/

/-- No two of the transactions have octets that collide. -/
def CollisionFree (txs : List Transaction) : Prop :=
  ∀ a ∈ txs, ∀ b ∈ txs, ∀ u v : Bytes,
    serializeTransaction a = .ok u → serializeTransaction b = .ok v →
    doubleSha256 u = doubleSha256 v → u = v

/-- The same, as a check of the hashes of a list. -/
theorem collisionFree_of_nodup (h : (txs.map Transaction.digest).Nodup) :
    CollisionFree txs := by
  intro a ha b hb u v hu hv hsame
  obtain rfl := inj_on_of_nodup_map h ha hb
    (by rw [Transaction.digest, Transaction.digest, Transaction.octets_eq hu,
      Transaction.octets_eq hv, hsame])
  exact ok_unique hu hv

/-- Without collisions an identifier determines the transaction. -/
theorem CollisionFree.eq_of_txid (free : CollisionFree txs) {a b : Transaction}
    (ha : a ∈ txs) (hb : b ∈ txs) (hca : a.Canonical) (hcb : b.Canonical)
    (hatxid : a.txid = .ok txid) (hbtxid : b.txid = .ok txid) : a = b := by
  obtain ⟨u, hu, rfl⟩ := Transaction.txid_ok hatxid
  obtain ⟨v, hv, hsame⟩ := Transaction.txid_ok hbtxid
  obtain rfl := free a ha b hb u v hu hv (hex_injective hsame)
  exact delimits_serializeTransaction.injOn hca hcb hu hv

/-! ### Where outputs come from -/

/-- A transaction that pays and has the identifier. -/
def Pays (txs : List Transaction) (txid : PyStr) : Prop :=
  ∃ tx ∈ txs, tx.outputs ≠ [] ∧ tx.txid = .ok txid

/-- **The history of an output set.** Every unspent outpoint, and every outpoint that was spent, was
created by one of the transactions applied so far; and what was spent is not there. -/
structure History (done : List Transaction) (get : OutPoint → Option UtxoEntry) : Prop where
  origin : ∀ outpoint, get outpoint ≠ none → Pays done outpoint.txid
  source : ∀ tx ∈ done, ∀ outpoint ∈ spentOutpoints tx, Pays done outpoint.txid
  spent : ∀ tx ∈ done, ∀ outpoint ∈ spentOutpoints tx, get outpoint = none

private theorem Pays.canonical (h : Pays txs txid) : Canonical txid := by
  obtain ⟨tx, -, -, htxid⟩ := h
  obtain ⟨octets, -, rfl⟩ := Transaction.txid_ok htxid
  exact ⟨doubleSha256 octets, rfl⟩

private theorem Pays.append (h : Pays txs txid) (later : List Transaction) :
    Pays (txs ++ later) txid := by
  obtain ⟨tx, hmem, hpays⟩ := h
  exact ⟨tx, mem_append_left _ hmem, hpays⟩

private theorem History.empty : History [] fun _ => none where
  origin := fun _ h => absurd rfl h
  source := by simp
  spent := by simp

section

variable {done : List Transaction} {get : OutPoint → Option UtxoEntry}
  {tx : Transaction} {txid : PyStr}

private theorem History.canonical (history : History done get) (hmem : tx ∈ done) :
    tx.Canonical := by
  intro txInput hinput
  have hspent : txInput.previousOutput ∈ spentOutpoints tx := mem_map_of_mem hinput
  exact (history.source tx hmem _ hspent).canonical

section

variable {known : List Transaction} (history : History done get) (free : CollisionFree known)
  (hdone : ∀ earlier ∈ done, earlier ∈ known) (hknown : tx ∈ known)
include history free hdone hknown

/-- **A transaction that has not been applied is new.** -/
theorem History.fresh (hcanonical : tx.Canonical) (hnew : tx ∉ done)
    (htxid : tx.txid = .ok txid) : ¬ Pays done txid := by
  rintro ⟨earlier, hmem, -, hearlier⟩
  obtain rfl := free.eq_of_txid hknown (hdone earlier hmem) hcanonical (history.canonical hmem)
    htxid hearlier
  exact hnew hmem

/-- **A payment is new.** Its inputs are unspent, while those of an earlier copy are spent. -/
theorem History.fresh_payment (hinputs : tx.inputs ≠ [])
    (hpresent : ∀ outpoint ∈ spentOutpoints tx, get outpoint ≠ none)
    (htxid : tx.txid = .ok txid) : ¬ Pays done txid := by
  refine history.fresh free hdone hknown (fun txInput hinput => ?_) (fun hmem => ?_) htxid
  · have hspent : txInput.previousOutput ∈ spentOutpoints tx := mem_map_of_mem hinput
    exact (history.origin _ (hpresent _ hspent)).canonical
  · obtain ⟨first, rest, hcons⟩ := exists_cons_of_ne_nil hinputs
    have hfirst : first.previousOutput ∈ spentOutpoints tx := by
      simp [spentOutpoints, hcons]
    exact hpresent _ hfirst (history.spent tx hmem _ hfirst)

end

/-- **One transaction.** -/
theorem History.apply (history : History done get)
    (hpresent : ∀ outpoint ∈ spentOutpoints tx, get outpoint ≠ none)
    (hfresh : tx.outputs ≠ [] → ¬ Pays done txid) (htxid : tx.txid = .ok txid) :
    History (done ++ [tx])
      (observeTransaction get txid tx height isCoinbase) := by
  -- What the transaction creates carries a new identifier, so it is nothing that was ever spent.
  have hapart : ∀ outpoint, Pays done outpoint.txid →
      createdAt txid tx height isCoinbase outpoint = none := by
    intro outpoint hpays
    by_contra hcreated
    obtain ⟨entry, hentry⟩ := Option.ne_none_iff_exists'.mp hcreated
    obtain ⟨hid, houtputs⟩ := createdAt_txid hentry
    exact hfresh houtputs (hid ▸ hpays)
  refine ⟨?_, ?_, ?_⟩
  · intro outpoint hget
    rw [observeTransaction] at hget
    split at hget
    · next entry hentry =>
      obtain ⟨hid, houtputs⟩ := createdAt_txid hentry
      exact ⟨tx, by simp, houtputs, hid ▸ htxid⟩
    · split_ifs at hget with hspent
      · exact absurd rfl hget
      · exact (history.origin outpoint hget).append _
  · intro earlier hmem outpoint hspent
    rcases List.mem_append.mp hmem with hmem | hmem
    · exact (history.source earlier hmem outpoint hspent).append _
    · rw [mem_singleton] at hmem
      subst hmem
      exact (history.origin outpoint (hpresent outpoint hspent)).append _
  · intro earlier hmem outpoint hspent
    rw [observeTransaction]
    rcases List.mem_append.mp hmem with hmem | hmem
    · rw [hapart outpoint (history.source earlier hmem outpoint hspent)]
      simp only [history.spent earlier hmem outpoint hspent, ite_self]
    · rw [mem_singleton] at hmem
      subst hmem
      rw [hapart outpoint (history.origin outpoint (hpresent outpoint hspent))]
      simp only [hspent, if_true]

end

/-- What the transaction creates, it creates at outpoints where nothing is unspent. -/
def WritesToFree (txid : PyStr) (tx : Transaction) (height : ℕ) (isCoinbase : Bool)
    (entries : UtxoSet) : Prop :=
  ∀ outpoint entry, createdAt txid tx height isCoinbase outpoint = some entry →
    entries[outpoint]? = none

/-! ### Exact ledgers -/

private theorem issue_createdAmounts_apply (htxid : tx.txid = .ok txid) (height : ℕ)
    (isCoinbase : Bool) (outpoint : OutPoint) :
    issue (createdAmounts tx) outpoint =
      valueOf (createdAt txid tx height isCoinbase outpoint) := by
  rw [createdAmounts_eq htxid, issue_mapIdx_apply, createdAt]
  split_ifs
  · cases tx.outputs[outpoint.index.toNat]? <;> rfl
  · rfl

/-- **The exact ledger of a transaction** that writes to free outpoints only. -/
theorem UtxoSet.ledger_applyTransaction {before after : UtxoSet}
    (htxid : tx.txid = .ok txid) (hget : ∀ outpoint : OutPoint, after[outpoint]? =
      observeTransaction (fun outpoint => before[outpoint]?) txid tx height isCoinbase
        outpoint) (hfree : WritesToFree txid tx height isCoinbase before) :
    after.ledger = payLedger before.ledger tx := by
  ext outpoint
  rw [UtxoSet.ledger_apply, hget, payLedger_apply, UtxoSet.ledger_apply,
    issue_createdAmounts_apply htxid height isCoinbase, observeTransaction]
  cases hcreated : createdAt txid tx height isCoinbase outpoint with
  | some entry =>
    have habsent := hfree outpoint entry hcreated
    simp [habsent, valueOf]
  | none =>
    by_cases hspent : outpoint ∈ spentOutpoints tx <;> simp [hspent, valueOf]

/-- What a payment takes is what its outputs and its fee are worth. -/
theorem degree_payLedger_payment {ledger : OutPoint →₀ ℤ} {ctx : ValidationContext} {fee : Int}
    (htxid : tx.txid = .ok txid) (hnodup : (spentOutpoints tx).Nodup)
    (hvalues : ∀ outpoint ∈ spentOutpoints tx,
      ledger outpoint = ctx.utxoView.valueAt outpoint)
    (checks : StandardChecks tx ctx fee) :
    degree (payLedger ledger tx) + fee = degree ledger := by
  have hspent : (tx.inputs.map fun txInput =>
      ctx.utxoView.valueAt txInput.previousOutput).sum =
        ∑ outpoint ∈ (spentOutpoints tx).toFinset, ledger outpoint := by
    rw [sum_toFinset _ hnodup, spentOutpoints, map_map]
    congr 1
    refine map_congr_left fun txInput hinput => ?_
    exact (hvalues _ (mem_map_of_mem hinput)).symm
  have htotal := degree_spend_add ledger (spentOutpoints tx).toFinset
  rw [payLedger, map_add, degree_issue_createdAmounts htxid, checks.fee_eq]
  linarith

/-! ### Inside a block -/

/-- No transaction writes to an outpoint that is unspent when it is applied. -/
def NoOverwrite (height : ℕ) : List (Transaction × ℕ) → UtxoSet → Prop
  | [], _ => True
  | (tx, index) :: rest, entries =>
    (∀ (txid : PyStr) (outpoint : OutPoint) (entry : UtxoEntry), tx.txid = .ok txid →
      createdAt txid tx height (index == 0) outpoint = some entry →
      entries[outpoint]? = none) ∧
    ∀ entries', entries.applyTransaction tx height (index == 0) = .ok entries' →
      NoOverwrite height rest entries'

/-- **The set and the staged view inside a block.** The view lacks the outputs of the coinbase, and
the fees collected so far are what the set has lost. -/
structure InBlock (coinbaseTxid : PyStr) (start : Int) (done : List Transaction)
    (entries : UtxoSet) (stage : Stage) : Prop where
  history : History done fun outpoint => entries[outpoint]?
  /-- The coinbase is among the transactions applied. -/
  coinbase : Pays done coinbaseTxid
  view : ∀ outpoint : OutPoint, outpoint.txid ≠ coinbaseTxid →
    entries[outpoint]? = stage.stagedView.get outpoint
  apart : ∀ outpoint : OutPoint, stage.stagedView.get outpoint ≠ none →
    outpoint.txid ≠ coinbaseTxid
  total : entries.totalValue + stage.totalFeesChipbits = start

section

variable {coinbaseTxid txid : PyStr} {start : Int} {done known : List Transaction}
  {entries entries' : UtxoSet} {stage stage' : Stage} {tx : Transaction}
  {ctx : ValidationContext}

section

variable (inBlock : InBlock coinbaseTxid start done entries stage)
include inBlock

/-- The relation looks at the staged view and the fees only. -/
theorem InBlock.congr (hview : stage'.stagedView = stage.stagedView)
    (hfees : stage'.totalFeesChipbits = stage.totalFeesChipbits) :
    InBlock coinbaseTxid start done entries stage' where
  history := inBlock.history
  coinbase := inBlock.coinbase
  view := hview ▸ inBlock.view
  apart := hview ▸ inBlock.apart
  total := hfees ▸ inBlock.total

/-- A transaction without coins is applied without effect. -/
theorem InBlock.noCoins (hnone : tx.inputs = [] ∧ tx.outputs = [])
    (htxid : tx.txid = .ok txid) (hget : ∀ outpoint : OutPoint, entries'[outpoint]? =
      observeTransaction (fun outpoint => entries[outpoint]?) txid tx height isCoinbase
        outpoint) : InBlock coinbaseTxid start (done ++ [tx]) entries' stage := by
  have hhistory := @History.apply height isCoinbase _ _ _ tx txid inBlock.history
    (by simp [spentOutpoints, hnone.1]) (fun houtputs => absurd hnone.2 houtputs) htxid
  rw [observeTransaction_noCoins hnone] at hget hhistory
  obtain rfl : entries' = entries := Std.ExtTreeMap.ext_getElem? hget
  exact ⟨hhistory, inBlock.coinbase.append _, inBlock.view, inBlock.apart, inBlock.total⟩

/-- **A payment inside a block.** It finds its inputs in the real set as in the staged view, and
what it creates is new. -/
theorem InBlock.payment (free : CollisionFree known) (hdone : ∀ earlier ∈ done, earlier ∈ known)
    (hknown : tx ∈ known) (hinputs : tx.inputs ≠ [])
    (hnodup : (spentOutpoints tx).Nodup) {fee : Int} (hstaged : ctx.utxoView = stage.stagedView)
    (checks : StandardChecks tx ctx fee) (htxid : tx.txid = .ok txid)
    (hget : ∀ outpoint : OutPoint, entries'[outpoint]? =
      observeTransaction (fun outpoint => entries[outpoint]?) txid tx height false
        outpoint) (hview : ∀ outpoint : OutPoint, stage'.stagedView.get outpoint =
      observeTransaction stage.stagedView.get txid tx height false outpoint)
    (hfees : stage'.totalFeesChipbits = stage.totalFeesChipbits + fee) :
    InBlock coinbaseTxid start (done ++ [tx]) entries' stage' ∧
      WritesToFree txid tx height false entries := by
  have hseen : ∀ outpoint ∈ spentOutpoints tx, stage.stagedView.get outpoint ≠ none := by
    intro outpoint hspent
    obtain ⟨txInput, hinput, rfl⟩ := List.mem_map.mp hspent
    obtain ⟨index, hindex⟩ := mem_iff_getElem?.mp hinput
    obtain ⟨entry, spend⟩ := checks.spends index txInput hindex
    rw [← hstaged, spend.present]
    exact Option.some_ne_none entry
  -- The staged view shows nothing of the coinbase, so the two agree on what is spent.
  have hagree : ∀ outpoint ∈ spentOutpoints tx,
      entries[outpoint]? = stage.stagedView.get outpoint := fun outpoint hspent =>
    inBlock.view outpoint (inBlock.apart outpoint (hseen outpoint hspent))
  have hpresent : ∀ outpoint ∈ spentOutpoints tx, entries[outpoint]? ≠ none := by
    intro outpoint hspent
    rw [hagree outpoint hspent]
    exact hseen outpoint hspent
  have hfresh : ¬ Pays done txid :=
    inBlock.history.fresh_payment free hdone hknown hinputs hpresent htxid
  have hother : txid ≠ coinbaseTxid := fun hsame => hfresh (hsame ▸ inBlock.coinbase)
  have hfreed : WritesToFree txid tx height false entries := by
    intro outpoint entry hcreated
    by_contra hthere
    exact hfresh ((createdAt_txid hcreated).1 ▸ inBlock.history.origin outpoint hthere)
  refine ⟨⟨?_, inBlock.coinbase.append _, ?_, ?_, ?_⟩, hfreed⟩
  · rw [funext hget]
    exact inBlock.history.apply hpresent (fun _ => hfresh) htxid
  · intro outpoint hid
    rw [hget, hview, observeTransaction, observeTransaction, inBlock.view outpoint hid]
  · intro outpoint hthere
    rw [hview, observeTransaction] at hthere
    split at hthere
    · next entry hcreated =>
      rw [(createdAt_txid hcreated).1]
      exact hother
    · split_ifs at hthere with hspent
      · exact absurd rfl hthere
      · exact inBlock.apart outpoint hthere
  · have hledger := UtxoSet.ledger_applyTransaction htxid hget hfreed
    have hvalues : ∀ outpoint ∈ spentOutpoints tx,
        entries.ledger outpoint = ctx.utxoView.valueAt outpoint := by
      intro outpoint hspent
      rw [UtxoSet.ledger_apply, hagree outpoint hspent, UtxoView.valueAt_eq, hstaged]
    have hpaid := degree_payLedger_payment htxid hnodup hvalues checks
    rw [← hledger, UtxoSet.degree_ledger, UtxoSet.degree_ledger] at hpaid
    have htotal := inBlock.total
    rw [hfees]
    linarith

end

/-- **One round of the block loop.** -/
theorem StageStep.inBlock (hstep : StageStep ctx stage tx stage')
    (hplain : isCoinbaseTransaction tx = false)
    (hstateless : validateTransactionStateless tx = .ok ())
    (free : CollisionFree known) (hdone : ∀ earlier ∈ done, earlier ∈ known)
    (hknown : tx ∈ known) (inBlock : InBlock coinbaseTxid start done entries stage)
    (htxid : tx.txid = .ok txid) (hget : ∀ outpoint : OutPoint, entries'[outpoint]? =
      observeTransaction (fun outpoint => entries[outpoint]?) txid tx ctx.height false
        outpoint) :
    InBlock coinbaseTxid start (done ++ [tx]) entries' stage' ∧
      WritesToFree txid tx ctx.height false entries := by
  -- Without coins nothing is created.
  have hnoCoins : carriesNoCoins tx →
      InBlock coinbaseTxid start (done ++ [tx]) entries' stage ∧
        WritesToFree txid tx ctx.height false entries := by
    intro hkind
    have hnone := validateTransactionStateless_noCoins hstateless hkind
    exact ⟨inBlock.noCoins hnone htxid hget,
      fun outpoint entry hcreated => absurd hnone.2 (createdAt_txid hcreated).2⟩
  cases hstep with
  | special kind =>
    obtain ⟨hkept, hfreed⟩ := hnoCoins (by simp [carriesNoCoins, kind])
    exact ⟨hkept.congr rfl rfl, hfreed⟩
  | bundle kind _ limits =>
    obtain ⟨hkept, hfreed⟩ := hnoCoins (by simp [carriesNoCoins, kind])
    obtain ⟨seen, windows, rfl⟩ := foldlM_stageAttestation_frame limits
    exact ⟨hkept.congr rfl rfl, hfreed⟩
  | settlement kind =>
    obtain ⟨hkept, hfreed⟩ := hnoCoins (by simp [carriesNoCoins, kind])
    exact ⟨hkept.congr rfl rfl, hfreed⟩
  | standard notSpecial notBundle notSettle spends checks apply =>
    have hinputs := validateTransactionStateless_inputs hstateless hplain
      (by simp [carriesNoCoins, notSpecial, notBundle, notSettle])
    obtain ⟨hnodup, -, -⟩ := foldlM_stageSpend_ok spends
    obtain ⟨txid', htxid', hview⟩ := UtxoView.lawful.get_applyTransaction apply
    obtain rfl := ok_unique htxid htxid'
    exact inBlock.payment free hdone hknown hinputs hnodup rfl
      (validateStandardStateful_ok checks) htxid hget hview rfl

/-- **The whole loop**, next to the application of the same transactions to the set. -/
theorem StageSteps.inBlock (steps : StageSteps ctx stage txs stage')
    {first : ℕ} (hfirst : first ≠ 0) (free : CollisionFree known)
    (hdone : ∀ earlier ∈ done, earlier ∈ known) (hknown : ∀ tx ∈ txs, tx ∈ known)
    (happly : (txs.zipIdx first).foldlM (fun entries (tx, index) =>
      UtxoSet.applyTransaction entries tx ctx.height (index == 0)) entries =
        .ok entries')
    (inBlock : InBlock coinbaseTxid start done entries stage) :
    InBlock coinbaseTxid start (done ++ txs) entries' stage' ∧
      NoOverwrite ctx.height (txs.zipIdx first) entries := by
  induction steps generalizing done entries first with
  | done =>
    obtain rfl : entries = entries' := by simpa [pure_eq_ok] using happly
    simpa [NoOverwrite] using inBlock
  | @round _ _ _ tx rest plain stateless step _ ih =>
    rw [zipIdx_cons] at happly ⊢
    obtain ⟨applied, hone, hothers⟩ := foldlM_cons_eq_ok.mp happly
    -- The coinbase has index zero, so none of these is applied as one.
    have hflag : (first == 0) = false := by simpa using hfirst
    obtain ⟨txid, htxid, hget⟩ := UtxoSet.lawful.get_applyTransaction hone
    rw [hflag] at hget
    have hhere := hknown tx mem_cons_self
    obtain ⟨hnext, hfreed⟩ := step.inBlock plain stateless free hdone hhere inBlock htxid hget
    have hdone' : ∀ earlier ∈ done ++ [tx], earlier ∈ known :=
      List.forall_mem_append.mpr ⟨hdone, List.forall_mem_singleton.mpr hhere⟩
    obtain ⟨hlast, hkept⟩ := ih (Nat.succ_ne_zero first) hdone'
      (forall_mem_of_forall_mem_cons hknown) hothers hnext
    rw [append_assoc, singleton_append] at hlast
    refine ⟨hlast, ?_, ?_⟩
    · intro txid' outpoint entry htxid' hcreated
      obtain rfl := ok_unique htxid htxid'
      exact hfreed outpoint entry (by rwa [hflag] at hcreated)
    · intro other hother
      obtain rfl := ok_unique hone hother
      exact hkept

end

/-! ### The rewards of a block -/

/-- What a settlement transaction distributes. -/
def distributedReward (tx : Transaction) : Int :=
  if isRewardSettleEpochTransaction tx then
    match parseRewardSettlement tx with
    | .ok settlement => settlement.distributedNodeRewardChipbits
    | .error _ => 0
  else 0

/-- **The settlements inside a block.** There is at most one, and it is the one remembered. -/
structure SettledOnce (ctx : ValidationContext) (done : List Transaction) (stage : Stage) :
    Prop where
  total : (done.map distributedReward).sum = settledRewards stage.stagedEpochSettlement
  closes : ∀ settlement, stage.stagedEpochSettlement = some settlement →
    settlement.epochIndex ∈ stage.stagedSettledEpochIndexes ∧
      epochCloseHeight settlement.epochIndex ctx.params = .ok (ctx.height : Int)

section

variable {ctx : ValidationContext} {done : List Transaction} {stage stage' : Stage}
  {tx : Transaction}

/-- A round that is no settlement. -/
theorem SettledOnce.congr (settled : SettledOnce ctx done stage)
    (hkind : isRewardSettleEpochTransaction tx = false)
    (hremembered : stage'.stagedEpochSettlement = stage.stagedEpochSettlement)
    (hindexes : stage'.stagedSettledEpochIndexes = stage.stagedSettledEpochIndexes) :
    SettledOnce ctx (done ++ [tx]) stage' where
  total := by
    rw [map_append, sum_append, settled.total, hremembered]
    simp [distributedReward, hkind]
  closes := by
    rw [hremembered, hindexes]
    exact settled.closes

/-- **One round of the block loop.** -/
theorem StageStep.settledOnce (hstep : StageStep ctx stage tx stage')
    (settled : SettledOnce ctx done stage) :
    SettledOnce ctx (done ++ [tx]) stage' := by
  cases hstep with
  | special kind => exact settled.congr (not_settle_of_special kind) rfl rfl
  | bundle kind _ limits =>
    obtain ⟨seen, windows, rfl⟩ := foldlM_stageAttestation_frame limits
    refine settled.congr ?_ rfl rfl
    by_contra hsettle
    rw [Bool.not_eq_false] at hsettle
    simp [not_bundle_of_settle hsettle] at kind
  | standard _ _ notSettle => exact settled.congr notSettle rfl rfl
  | settlement kind parse _ checks =>
    obtain ⟨parsed, seed, hparse, hchecks⟩ :=
      validateRewardSettleEpochTransactionWithParams_ok checks
    obtain rfl := ok_unique hparse parse
    have hend : parsed.epochEndHeight = (ctx.height : Int) := hchecks.endHeight.symm
    have hclose : epochCloseHeight parsed.epochIndex ctx.params = .ok (ctx.height : Int) :=
      hend ▸ hchecks.closeHeight
    -- A settlement before it would have settled the same epoch.
    have hfirst : stage.stagedEpochSettlement = none := by
      by_contra hother
      obtain ⟨other, hother⟩ := Option.ne_none_iff_exists'.mp hother
      obtain ⟨hmem, hcloses⟩ := settled.closes other hother
      exact hchecks.unsettled (epochCloseHeight_injective hcloses hclose ▸ hmem)
    refine ⟨?_, ?_⟩
    · have hnone := settled.total
      rw [hfirst, settledRewards] at hnone
      simp only [hend, if_true, settledRewards, map_append, sum_append, hnone, zero_add,
        map_singleton, sum_singleton, distributedReward, kind, parse, hchecks.total]
    · simp only [hend, if_true, Option.some.injEq]
      rintro settlement rfl
      exact ⟨Finset.mem_insert_self _ _, hclose⟩

private theorem StageSteps.settledOnce (steps : StageSteps ctx stage txs stage')
    (settled : SettledOnce ctx done stage) :
    SettledOnce ctx (done ++ txs) stage' := by
  induction steps generalizing done with
  | done => simpa using settled
  | round _ _ step _ ih =>
    have hall := ih (step.settledOnce settled)
    rwa [append_assoc, singleton_append] at hall

end

/-! ### One block -/

/-- What a block issues: the miner subsidy and the rewards that its settlements distribute. -/
def issuedBy (params : ConsensusParams) (height : ℕ) (block : Block) : Int :=
  (subsidySplitChipbits height params).1 + (block.transactions.map distributedReward).sum

section

variable {block : Block} {ctx : ValidationContext} {coinbase : Transaction}
  {rest : List Transaction} {stage : Stage}

section

variable (checks : BlockChecks block ctx coinbase rest stage)
include checks

/-- The coinbase creates outputs, so it carries no settlement. -/
theorem BlockChecks.distributedReward_coinbase : distributedReward coinbase = 0 := by
  obtain ⟨houtputs, -, -⟩ := validateCoinbaseDistribution_ok checks.distribution
  rw [distributedReward, if_neg]
  intro hsettle
  have hstateless := checks.stateless coinbase (by simp [checks.transactions_eq])
  exact houtputs (validateTransactionStateless_noCoins hstateless
    (by simp [carriesNoCoins, hsettle])).2

/-- The coinbase is worth what the block issues and the fees. -/
theorem BlockChecks.coinbase_total :
    transactionOutputTotal coinbase =
      issuedBy ctx.params ctx.height block + stage.totalFeesChipbits := by
  obtain ⟨-, htotal, -⟩ := validateCoinbaseDistribution_ok checks.distribution
  have hstart : SettledOnce ctx [] (initialStage ctx) :=
    ⟨rfl, fun settlement h => by simp [initialStage] at h⟩
  have hsettled := checks.steps.settledOnce hstart
  rw [htotal, issuedBy, checks.transactions_eq, map_cons, sum_cons,
    checks.distributedReward_coinbase, zero_add, ← hsettled.total, nil_append]
  ring

/-- **One block.** With a new coinbase it overwrites nothing and issues its exact amount. -/
theorem BlockChecks.conserves {before after : UtxoSet} {done known : List Transaction}
    (hview : ∀ outpoint, ctx.utxoView.get outpoint = before[outpoint]?)
    (history : History done fun outpoint => before[outpoint]?) (free : CollisionFree known)
    (hdone : ∀ earlier ∈ done, earlier ∈ known)
    (hknown : ∀ tx ∈ block.transactions, tx ∈ known) (hnew : coinbase ∉ done)
    (happly : before.applyBlock block ctx.height = .ok after) :
    History (done ++ block.transactions) (fun outpoint => after[outpoint]?) ∧
      NoOverwrite ctx.height block.transactions.zipIdx before ∧
      after.totalValue = before.totalValue + issuedBy ctx.params ctx.height block := by
  have hmem : coinbase ∈ block.transactions := by simp [checks.transactions_eq]
  obtain ⟨houtputs, -, -⟩ := validateCoinbaseDistribution_ok checks.distribution
  have hinputs : coinbase.inputs = [] := by
    have hcoinbase := checks.coinbase_first
    simp only [isCoinbaseTransaction, Bool.and_eq_true, List.isEmpty_iff] at hcoinbase
    exact hcoinbase.1
  rw [UtxoSet.applyBlock, applyBlockWith, checks.transactions_eq, zipIdx_cons] at happly
  obtain ⟨middle, hone, hothers⟩ := foldlM_cons_eq_ok.mp happly
  obtain ⟨txid, htxid, hget⟩ := UtxoSet.lawful.get_applyTransaction hone
  rw [beq_self_eq_true] at hget
  have hfresh : ¬ Pays done txid :=
    history.fresh free hdone (hknown coinbase hmem) (by simp [Transaction.Canonical, hinputs]) hnew
      htxid
  have habsent : ∀ outpoint : OutPoint, outpoint.txid = txid → before[outpoint]? = none := by
    intro outpoint hid
    by_contra hthere
    exact hfresh (hid ▸ history.origin outpoint hthere)
  have hfreed : WritesToFree txid coinbase ctx.height true before :=
    fun outpoint entry hcreated => habsent outpoint (createdAt_txid hcreated).1
  -- After the coinbase the set has the coinbase outputs and otherwise what the staged view shows.
  have hstart : InBlock txid (before.totalValue + transactionOutputTotal coinbase)
      (done ++ [coinbase]) middle (initialStage ctx) := by
    refine ⟨?_, ⟨coinbase, by simp, houtputs, htxid⟩, ?_, ?_, ?_⟩
    · rw [funext hget]
      exact history.apply (by simp [spentOutpoints, hinputs]) (fun _ => hfresh) htxid
    · intro outpoint hid
      have hcreated : createdAt txid coinbase ctx.height true outpoint = none := by
        simp [createdAt, hid]
      rw [hget, observeTransaction]
      simp only [hcreated, spentOutpoints, hinputs, map_nil, not_mem_nil, if_false]
      exact (hview outpoint).symm
    · intro outpoint hthere hid
      exact hthere ((hview outpoint).trans (habsent outpoint hid))
    · have hledger := UtxoSet.ledger_applyTransaction htxid hget hfreed
      have hdegree := congrArg degree hledger
      rw [payLedger_coinbase checks.coinbase_first, map_add, degree_issue_createdAmounts htxid,
        UtxoSet.degree_ledger, UtxoSet.degree_ledger] at hdegree
      rw [hdegree]
      exact add_zero _
  have hdone' : ∀ earlier ∈ done ++ [coinbase], earlier ∈ known :=
    List.forall_mem_append.mpr ⟨hdone, List.forall_mem_singleton.mpr (hknown coinbase hmem)⟩
  have hrest : ∀ tx ∈ rest, tx ∈ block.transactions := by
    intro tx h
    simp [checks.transactions_eq, h]
  obtain ⟨hlast, hkept⟩ := checks.steps.inBlock (Nat.succ_ne_zero 0) free hdone'
    (fun t ht => hknown t (hrest t ht)) hothers hstart
  refine ⟨?_, ?_, ?_⟩
  · have hhistory := hlast.history
    rwa [append_assoc, singleton_append, ← checks.transactions_eq] at hhistory
  · rw [checks.transactions_eq, zipIdx_cons]
    refine ⟨?_, ?_⟩
    · intro txid' outpoint entry htxid' hcreated
      obtain rfl := ok_unique htxid htxid'
      exact hfreed outpoint entry hcreated
    · intro other hother
      obtain rfl := ok_unique hone hother
      exact hkept
  · have htotal := hlast.total
    rw [checks.coinbase_total] at htotal
    linarith

end

end

/-! ### Outputs spent before a block -/

/-- What a view shows carries the identifier of a transaction, and none of the transactions has
spent it. -/
def ShowsUnspent (done : List Transaction) (get : OutPoint → Option UtxoEntry) : Prop :=
  ∀ outpoint, get outpoint ≠ none →
    Canonical outpoint.txid ∧ outpoint ∉ done.flatMap spentOutpoints

section

variable {done known : List Transaction} {get : OutPoint → Option UtxoEntry} {stage stage' : Stage}
  {ctx : ValidationContext} (history : History done get)
include history

private theorem History.showsUnspent : ShowsUnspent done get := by
  refine fun outpoint hget => ⟨(history.origin outpoint hget).canonical, fun hold => hget ?_⟩
  obtain ⟨spender, hspender, hspent⟩ := List.mem_flatMap.mp hold
  exact history.spent spender hspender outpoint hspent

variable (free : CollisionFree known) (hdone : ∀ earlier ∈ done, earlier ∈ known)
include free hdone

/-- **One round of the block loop** spends nothing that was spent before the block, and the view
shows nothing of it again. -/
theorem StageStep.showsUnspent (hstep : StageStep ctx stage tx stage')
    (hplain : isCoinbaseTransaction tx = false)
    (hstateless : validateTransactionStateless tx = .ok ()) (hknown : tx ∈ known)
    (h : ShowsUnspent done stage.stagedView.get) :
    (∀ outpoint ∈ spentOutpoints tx, outpoint ∉ done.flatMap spentOutpoints) ∧
      ShowsUnspent done stage'.stagedView.get := by
  have hseen : ∀ outpoint ∈ spentOutpoints tx,
      Canonical outpoint.txid ∧ outpoint ∉ done.flatMap spentOutpoints := by
    intro outpoint hspent
    obtain ⟨txInput, hinput, rfl⟩ := List.mem_map.mp hspent
    obtain ⟨index, hindex⟩ := mem_iff_getElem?.mp hinput
    obtain ⟨-, entry, hentry, -⟩ := hstep.authorised hstateless hindex
    exact h _ (by simp [hentry])
  refine ⟨fun outpoint hspent => (hseen outpoint hspent).2, fun outpoint hget => ?_⟩
  by_cases hspent : outpoint ∈ spentOutpoints tx
  · exact hseen outpoint hspent
  rcases (hstep.stageRun hstateless).view outpoint (by simpa using hspent) with
    hsame | ⟨entry, -, creator, hcreator, htxid, hcreated⟩
  · exact h outpoint (hsame ▸ hget)
  obtain rfl := List.mem_singleton.mp hcreator
  obtain ⟨octets, -, hid⟩ := Transaction.txid_ok htxid
  refine ⟨⟨_, hid⟩, fun hold => ?_⟩
  -- An output spent before the block was created before it. Its creator pays, so it has inputs,
  -- and these were spent when it was applied: it is not the transaction at hand.
  obtain ⟨spender, hspender, hold⟩ := List.mem_flatMap.mp hold
  refine history.fresh free hdone hknown (fun txInput hinput => ?_) (fun hmem => ?_) htxid
    (history.source spender hspender outpoint hold)
  · exact (hseen _ (mem_map_of_mem hinput)).1
  · have hcoins : carriesNoCoins creator = false := by
      by_contra hnone
      exact (createdAt_txid hcreated).2
        (validateTransactionStateless_noCoins hstateless (by simpa using hnone)).2
    obtain ⟨first, hfirst⟩ := exists_mem_of_ne_nil _
      (validateTransactionStateless_inputs hstateless hplain hcoins)
    have hspent := mem_map_of_mem (f := TxInput.previousOutput) hfirst
    exact (hseen _ hspent).2 (List.mem_flatMap.mpr ⟨creator, hmem, hspent⟩)

/-- **The whole loop.** -/
theorem StageSteps.spends_unspent (steps : StageSteps ctx stage txs stage')
    (hknown : ∀ tx ∈ txs, tx ∈ known) (h : ShowsUnspent done stage.stagedView.get) :
    ∀ outpoint ∈ txs.flatMap spentOutpoints, outpoint ∉ done.flatMap spentOutpoints := by
  induction steps with
  | done => simp
  | round plain stateless step _ ih =>
    obtain ⟨hfirst, hnext⟩ := step.showsUnspent history free hdone plain stateless
      (hknown _ mem_cons_self) h
    rw [flatMap_cons, forall_mem_append]
    exact ⟨hfirst, ih (forall_mem_of_forall_mem_cons hknown) hnext⟩

end

/-! ### The chain -/

/-- What the blocks of a chain issue. -/
def issuedValue (params : ConsensusParams) (blocks : List Block) : Int :=
  (blocks.mapIdx fun height block => issuedBy params height block).sum

/-- Connecting the block overwrites no unspent output. -/
def OverwritesNothing : BlockCondition := fun state ctx block =>
  NoOverwrite ctx.height block.transactions.zipIdx state.utxos

/-- The first transactions of the blocks. -/
def coinbases (blocks : List Block) : List (Option Transaction) :=
  blocks.map fun block => block.transactions.head?

section

variable {params : ConsensusParams} {blocks : List Block} {state : ReplayState}

/-- A coinbase of the chain stands first in its block. -/
theorem AcceptedBlocks.mem_coinbases {Meets : BlockCondition}
    (chain : AcceptedBlocks params Meets blocks state) :
    ∀ tx ∈ blocks.flatMap Block.transactions, isCoinbaseTransaction tx →
      some tx ∈ coinbases blocks := by
  induction chain with
  | empty => simp
  | @extend blocks _ _ _ block _ _ _ accepted _ _ ih =>
    intro tx hmem hcoinbase
    obtain ⟨coinbase, rest, stage, checks, -⟩ := validateBlock_ok accepted
    rw [coinbases, map_append, mem_append]
    rw [flatMap_append, mem_append] at hmem
    rcases hmem with hmem | hmem
    · exact .inl (ih tx hmem hcoinbase)
    · right
      rw [flatMap_singleton, checks.transactions_eq, mem_cons] at hmem
      rcases hmem with rfl | hmem
      · simp [checks.transactions_eq]
      · rw [checks.coinbase_only tx hmem] at hcoinbase
        exact absurd hcoinbase Bool.false_ne_true

/-- **Conservation along a chain**, while no coinbase is repeated. -/
theorem AcceptedBlocks.conserves {known : List Transaction} (free : CollisionFree known)
    (chain : AcceptedBlocks params AnyBlock blocks state) (distinct : (coinbases blocks).Nodup)
    (hknown : ∀ tx ∈ blocks.flatMap Block.transactions, tx ∈ known) :
    (History (blocks.flatMap Block.transactions) (fun outpoint => state.utxos[outpoint]?) ∧
        ((blocks.flatMap Block.transactions).flatMap spentOutpoints).Nodup) ∧
      AcceptedBlocks params OverwritesNothing blocks state ∧
      state.utxos.totalValue = issuedValue params blocks := by
  induction chain with
  | empty =>
    refine ⟨⟨?_, .nil⟩, .empty, ?_⟩
    · have hnone : (fun outpoint : OutPoint => ReplayState.empty.utxos[outpoint]?) =
          fun _ => none := by
        funext outpoint
        simp [ReplayState.empty]
      rw [hnone]
      exact .empty
    · rw [UtxoSet.totalValue, ReplayState.empty, Std.ExtTreeMap.toList_eq_nil_iff.mpr rfl]
      rfl
  | @extend blocks state state' ctx block fees before observes accepted _ connected ih =>
    obtain ⟨coinbase, rest, stage, checks, -⟩ := validateBlock_ok accepted
    rw [coinbases, map_append, nodup_append] at distinct
    obtain ⟨hdistinct, -, hapart⟩ := distinct
    have hdone : ∀ tx ∈ blocks.flatMap Block.transactions, tx ∈ known :=
      fun tx hmem => hknown tx (by simp [flatMap_append, hmem])
    obtain ⟨⟨hhistory, hnodup⟩, hkept, htotal⟩ := ih hdistinct hdone
    have hnew : coinbase ∉ blocks.flatMap Block.transactions := by
      intro hmem
      refine hapart _ (before.mem_coinbases coinbase hmem checks.coinbase_first) _ ?_ rfl
      simp [checks.transactions_eq]
    have happly := ReplayState.connectBlock_utxos connected
    rw [← observes.height_eq] at happly
    have hadded : ∀ tx ∈ block.transactions, tx ∈ known :=
      fun tx hmem => hknown tx (by simp [flatMap_append, hmem])
    obtain ⟨hnext, hblock, hissued⟩ := checks.conserves observes.view hhistory free hdone hadded
      hnew happly
    rw [observes.height_eq, observes.params_eq] at hissued
    refine ⟨⟨?_, ?_⟩, .extend hkept observes accepted hblock connected, ?_⟩
    · rwa [flatMap_append, flatMap_singleton]
    · rw [flatMap_append, flatMap_singleton, flatMap_append, checks.spends_eq]
      refine nodup_append'.mpr ⟨hnodup, checks.steps.stageRun.nodup_spends, ?_⟩
      -- The loop starts from the outputs of the chain, of which none is spent.
      have hstart : ShowsUnspent _ ctx.utxoView.get :=
        (funext observes.view) ▸ hhistory.showsUnspent
      refine fun outpoint hold hspent => checks.steps.spends_unspent hhistory free hdone
        (fun tx hmem => hadded tx ?_) hstart outpoint hspent hold
      simp [checks.transactions_eq, hmem]
    · rw [issuedValue, mapIdx_concat, sum_append, sum_singleton, hissued, htotal]
      rfl

/-- **Exact value conservation.** In every chain of accepted blocks that repeats no coinbase, and
whose transactions do not collide, no block overwrites an unspent output, and the unspent outputs
are worth exactly the miner subsidies and the distributed node rewards of the chain. -/
theorem value_conserved (chain : AcceptedBlocks params AnyBlock blocks state)
    (distinct : (coinbases blocks).Nodup)
    (free : CollisionFree (blocks.flatMap Block.transactions)) :
    AcceptedBlocks params OverwritesNothing blocks state ∧
      state.utxos.totalValue = issuedValue params blocks :=
  (chain.conserves free distinct fun _ hmem => hmem).2

/-- **No double spend.** In every chain of accepted blocks that repeats no coinbase, and whose
transactions do not collide, no outpoint is spent twice, in one block or in several, and what was
spent is not unspent again. -/
theorem spent_once (chain : AcceptedBlocks params AnyBlock blocks state)
    (distinct : (coinbases blocks).Nodup)
    (free : CollisionFree (blocks.flatMap Block.transactions)) :
    ((blocks.flatMap Block.transactions).flatMap spentOutpoints).Nodup ∧
      ∀ outpoint ∈ (blocks.flatMap Block.transactions).flatMap spentOutpoints,
        state.utxos[outpoint]? = none := by
  obtain ⟨⟨history, hnodup⟩, -⟩ := chain.conserves free distinct fun _ hmem => hmem
  refine ⟨hnodup, fun outpoint hspent => ?_⟩
  obtain ⟨spender, hspender, hspent⟩ := List.mem_flatMap.mp hspent
  exact history.spent spender hspender outpoint hspent

end

end

namespace SampleConservation

open SampleSupply

local instance platform : Platform := samplePlatform []

def genesis : Block := sampleChainBlock zeroHash 0 []

def afterGenesis : ReplayState := .after .empty 0 [genesis]

/-- A second block with the coinbase of the first, and the context in which it is validated. -/
def repeated : Block := sampleBlock genesis.sampleHash 1000 0x207FFFFF genesis.transactions

def ctx : ValidationContext :=
  afterGenesis.context sampleParams (str "mainnet") 1 genesis.sampleHash ∅

def afterRepeated : ReplayState := .after .empty 0 [genesis, repeated]

/-- The outpoint of the repeated coinbase. -/
def reward : OutPoint :=
  ⟨((genesis.transactions.head?.map Transaction.txid).bind Except.toOption).getD [], 0⟩

/-- The chain and what is left of the first coinbase, evaluated. -/
theorem repeated_evaluated :
    replays AnyBlock sampleParams (str "mainnet") ∅ [genesis, repeated] ∧
      afterGenesis.utxos[reward]?.isSome ∧
      (createdAt reward.txid (sampleCoinbase 0 [{ value := 50, recipient := sampleAddress }]) 1 true
        reward).isSome ∧
      (sampleCoinbase 0 [{ value := 50, recipient := sampleAddress }]).txid = .ok reward.txid ∧
      afterRepeated.utxos.totalValue = 50 ∧ issuedValue sampleParams [genesis, repeated] = 100 := by
  decide +kernel

private theorem repeated_overwrites : ¬ OverwritesNothing afterGenesis ctx repeated := by
  obtain ⟨-, hthere, hcreated, htxid, -, -⟩ := repeated_evaluated
  rintro ⟨hfree, -⟩
  obtain ⟨entry, hcreated⟩ := Option.isSome_iff_exists.mp hcreated
  have hnone := hfree reward.txid reward entry htxid hcreated
  rw [hnone] at hthere
  exact absurd hthere (by decide)

/-- **A repeated coinbase destroys value.** The second block of the chain has the same coinbase as
the first, so it is stored over it: a hundred chipbits are issued and fifty are left. -/
theorem repeated_coinbase_lost :
    AcceptedBlocks sampleParams AnyBlock [genesis, repeated] afterRepeated ∧
      CollisionFree ([genesis, repeated].flatMap Block.transactions) ∧
      ¬ OverwritesNothing afterGenesis ctx repeated ∧
      afterRepeated.utxos.totalValue = 50 ∧ issuedValue sampleParams [genesis, repeated] = 100 := by
  obtain ⟨hreplayed, -, -, -, hleft, hissued⟩ := repeated_evaluated
  refine ⟨.of_replays hreplayed, ?_, repeated_overwrites, hleft, hissued⟩
  -- Both blocks hold one and the same transaction.
  intro a ha b hb u v hu hv _
  obtain rfl : a = b := by
    have hone : ∀ tx ∈ [genesis, repeated].flatMap Block.transactions,
        tx = sampleCoinbase 0 [{ value := 50, recipient := sampleAddress }] := by
      intro tx hmem
      simpa [genesis, repeated, sampleChainBlock, sampleBlock] using hmem
    rw [hone a ha, hone b hb]
  exact ok_unique hu hv

/-- The chain with a payment, evaluated. -/
theorem paying_evaluated :
    (coinbases [paid, paying]).Nodup ∧
      (([paid, paying].flatMap Block.transactions).map Transaction.digest).Nodup ∧
      (([paid, paying].flatMap Block.transactions).flatMap spentOutpoints).length = 1 ∧
      issuedValue sampleParams [paid, paying] = 100 := by
  decide +kernel

/-- The payment and its fee are worth what the wallet had. -/
theorem value_conserved_paying :
    AcceptedBlocks sampleParams OverwritesNothing [paid, paying] afterPaying ∧
      afterPaying.utxos.totalValue = issuedValue sampleParams [paid, paying] ∧
      issuedValue sampleParams [paid, paying] = 100 := by
  obtain ⟨hdistinct, hfree, -, hissued⟩ := paying_evaluated
  obtain ⟨hkept, htotal⟩ :=
    value_conserved (.of_replays paying_replayed) hdistinct (collisionFree_of_nodup hfree)
  exact ⟨hkept, htotal, hissued⟩

/-- The first coinbase is spent, once. -/
theorem spent_once_paying :
    (([paid, paying].flatMap Block.transactions).flatMap spentOutpoints).length = 1 ∧
      (([paid, paying].flatMap Block.transactions).flatMap spentOutpoints).Nodup := by
  obtain ⟨hdistinct, hfree, hlength, -⟩ := paying_evaluated
  exact ⟨hlength, (spent_once (.of_replays paying_replayed) hdistinct
    (collisionFree_of_nodup hfree)).1⟩

end SampleConservation

end Chipcoin
