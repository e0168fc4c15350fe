import Chipcoin.Consensus.Models

/-!
# UTXO state

A UTXO set is a finite map from outpoints to entries: the in-memory dictionary and the SQLite
table alike. Validation works on a view of it, which is either the set itself or an overlay that
records spent and created outputs over a base view.

All views apply transactions the same way, by spending each input and then adding each output
(`applyTransactionWith`). The observation `get` of a view after such a step is the same function
of the observation before it for every kind of view (`UtxoView.get_applyTransaction`), so that
what is proved about lookups does not depend on which view a caller uses.
-/

namespace Chipcoin

open Checked List

/-- A stored output with what contextual validation needs to know about its origin. -/
structure UtxoEntry where
  output : TxOutput
  height : ℕ
  isCoinbase : Bool
deriving DecidableEq

/-- A UTXO set. -/
abbrev UtxoSet := Std.ExtTreeMap OutPoint UtxoEntry

/-- The outpoints that a transaction creates, with their entries. -/
def createdEntries (txid : PyStr) (transaction : Transaction) (height : ℕ) (isCoinbase : Bool) :
    List (OutPoint × UtxoEntry) :=
  transaction.outputs.mapIdx fun index output =>
    (⟨txid, index⟩, { output := output, height := height, isCoinbase := isCoinbase })

section

variable [Platform]

/-- `apply_transaction` of any view: spend the inputs, then create the outputs. -/
def applyTransactionWith {σ : Type} (spend : σ → OutPoint → σ)
    (add : σ → OutPoint → UtxoEntry → σ) (view : σ) (transaction : Transaction) (height : ℕ)
    (isCoinbase : Bool) : Except PyError σ := do
  let view := transaction.inputs.foldl (fun view txInput => spend view txInput.previousOutput) view
  let txid ← transaction.txid
  return (createdEntries txid transaction height isCoinbase).foldl
    (fun view created => add view created.1 created.2) view

/-- `apply_block` of any view: its transactions in order, the first one as coinbase. -/
def applyBlockWith {σ : Type} (spend : σ → OutPoint → σ) (add : σ → OutPoint → UtxoEntry → σ)
    (view : σ) (block : Block) (height : ℕ) : Except PyError σ :=
  block.transactions.zipIdx.foldlM
    (fun view (transaction, index) =>
      applyTransactionWith spend add view transaction height (index == 0)) view

namespace UtxoSet

/-- `InMemoryUtxoView.apply_transaction`. -/
def applyTransaction : UtxoSet → Transaction → ℕ → Bool → Except PyError UtxoSet :=
  applyTransactionWith (fun entries outpoint => entries.erase outpoint)
    (fun entries outpoint entry => entries.insert outpoint entry)

/-- `InMemoryUtxoView.apply_block`. -/
def applyBlock : UtxoSet → Block → ℕ → Except PyError UtxoSet :=
  applyBlockWith (fun entries outpoint => entries.erase outpoint)
    (fun entries outpoint entry => entries.insert outpoint entry)

end UtxoSet

/-- A UTXO view: a set, or an `OverlayUtxoView` over a base view. -/
inductive UtxoView
  | inMemory (entries : UtxoSet)
  | overlay (base : UtxoView) (added : UtxoSet) (spent : Finset OutPoint)

namespace UtxoView

/-- `get`. -/
def get : UtxoView → OutPoint → Option UtxoEntry
  | inMemory entries, outpoint => entries[outpoint]?
  | overlay base added spent, outpoint =>
    if outpoint ∈ spent then none
    else match added[outpoint]? with
      | some entry => some entry
      | none => base.get outpoint

/-- The removal of one outpoint. -/
def spend : UtxoView → OutPoint → UtxoView
  | inMemory entries, outpoint => inMemory (entries.erase outpoint)
  | overlay base added spent, outpoint =>
    overlay base (added.erase outpoint) (insert outpoint spent)

/-- The creation of one output. -/
def add : UtxoView → OutPoint → UtxoEntry → UtxoView
  | inMemory entries, outpoint, entry => inMemory (entries.insert outpoint entry)
  | overlay base added spent, outpoint, entry =>
    overlay base (added.insert outpoint entry) (spent.erase outpoint)

/-- `apply_transaction`. -/
def applyTransaction : UtxoView → Transaction → ℕ → Bool → Except PyError UtxoView :=
  applyTransactionWith spend add

omit [Platform] in
private theorem get_spend (view : UtxoView) (spent outpoint : OutPoint) :
    (view.spend spent).get outpoint = if outpoint = spent then none else view.get outpoint := by
  cases view with
  | inMemory entries =>
    by_cases h : outpoint = spent
    · simp [spend, get, h]
    · simp [spend, get, h, Std.ExtTreeMap.getElem?_erase, Ne.symm h]
  | overlay base added gone =>
    by_cases h : outpoint = spent
    · simp [spend, get, h]
    · simp [spend, get, h, Std.ExtTreeMap.getElem?_erase, Ne.symm h]

omit [Platform] in
private theorem get_add (view : UtxoView) (created outpoint : OutPoint) (entry : UtxoEntry) :
    (view.add created entry).get outpoint =
      if outpoint = created then some entry else view.get outpoint := by
  cases view with
  | inMemory entries =>
    by_cases h : outpoint = created
    · simp [add, get, h]
    · simp [add, get, h, Std.ExtTreeMap.getElem?_insert, Ne.symm h]
  | overlay base added gone =>
    by_cases h : outpoint = created
    · simp [add, get, h]
    · simp [add, get, h, Std.ExtTreeMap.getElem?_insert, Ne.symm h]

end UtxoView

/-! ### Observing a transaction

What a view shows after a transaction is a function of what it showed before. -/

omit [Platform] in
/-- The laws by which a lookup observes the two primitive steps of a view. -/
structure LawfulView {σ : Type} (get : σ → OutPoint → Option UtxoEntry)
    (spend : σ → OutPoint → σ) (add : σ → OutPoint → UtxoEntry → σ) : Prop where
  get_spend : ∀ view spent outpoint,
    get (spend view spent) outpoint = if outpoint = spent then none else get view outpoint
  get_add : ∀ view created entry outpoint,
    get (add view created entry) outpoint =
      if outpoint = created then some entry else get view outpoint

omit [Platform] in
theorem UtxoView.lawful : LawfulView UtxoView.get UtxoView.spend UtxoView.add :=
  ⟨UtxoView.get_spend, fun view created entry outpoint => UtxoView.get_add view created outpoint
    entry⟩

omit [Platform] in
theorem UtxoSet.lawful :
    LawfulView (fun (entries : UtxoSet) outpoint => entries[outpoint]?)
      (fun entries outpoint => entries.erase outpoint)
      (fun entries outpoint entry => entries.insert outpoint entry) := by
  refine ⟨fun entries spent outpoint => ?_, fun entries created entry outpoint => ?_⟩
  · rw [Std.ExtTreeMap.getElem?_erase]
    by_cases h : outpoint = spent
    · simp [h]
    · simp [h, Ne.symm h]
  · rw [Std.ExtTreeMap.getElem?_insert]
    by_cases h : outpoint = created
    · simp [h]
    · simp [h, Ne.symm h]

/-- The entry that a transaction creates at an outpoint, if any. -/
def createdAt (txid : PyStr) (transaction : Transaction) (height : ℕ) (isCoinbase : Bool)
    (outpoint : OutPoint) : Option UtxoEntry :=
  if outpoint.txid = txid ∧ 0 ≤ outpoint.index then
    transaction.outputs[outpoint.index.toNat]?.map fun output =>
      { output := output, height := height, isCoinbase := isCoinbase }
  else none

/-- The outpoints that a transaction spends. -/
def spentOutpoints (transaction : Transaction) : List OutPoint :=
  transaction.inputs.map (·.previousOutput)

/-- What is seen at an outpoint after a transaction. -/
def observeTransaction (before : OutPoint → Option UtxoEntry) (txid : PyStr)
    (transaction : Transaction) (height : ℕ) (isCoinbase : Bool) (outpoint : OutPoint) :
    Option UtxoEntry :=
  match createdAt txid transaction height isCoinbase outpoint with
  | some entry => some entry
  | none => if outpoint ∈ spentOutpoints transaction then none else before outpoint

namespace LawfulView

variable {σ : Type} {get : σ → OutPoint → Option UtxoEntry} {spend : σ → OutPoint → σ}
  {add : σ → OutPoint → UtxoEntry → σ}

omit [Platform] in
private theorem get_foldl_spend (laws : LawfulView get spend add) (inputs : List TxInput) (view : σ)
    (outpoint : OutPoint) :
    get (inputs.foldl (fun view txInput => spend view txInput.previousOutput) view) outpoint =
      if outpoint ∈ inputs.map (·.previousOutput) then none else get view outpoint := by
  induction inputs generalizing view with
  | nil => simp
  | cons first rest ih =>
    rw [foldl_cons, ih, laws.get_spend]
    by_cases hrest : outpoint ∈ rest.map (·.previousOutput)
    · simp [hrest]
    · by_cases hfirst : outpoint = first.previousOutput
      · simp [hfirst]
      · simp [hrest, hfirst]

section

variable (laws : LawfulView get spend add)
include laws

omit [Platform] in
private theorem get_foldl_add (txid : PyStr) (outputs : List TxOutput) (height : ℕ)
    (isCoinbase : Bool) (view : σ) (outpoint : OutPoint) :
    get ((outputs.mapIdx fun index output => ((⟨txid, index⟩ : OutPoint),
        ({ output := output, height := height, isCoinbase := isCoinbase } : UtxoEntry))).foldl
          (fun view created => add view created.1 created.2) view) outpoint =
      match (if outpoint.txid = txid ∧ 0 ≤ outpoint.index then
          outputs[outpoint.index.toNat]?.map fun output =>
            ({ output := output, height := height, isCoinbase := isCoinbase } : UtxoEntry)
        else none) with
      | some entry => some entry
      | none => get view outpoint := by
  induction outputs using List.reverseRecOn with
  | nil => simp
  | append_singleton outputs last ih =>
    rw [mapIdx_concat, foldl_append, foldl_cons, foldl_nil, laws.get_add, ih]
    obtain ⟨id, index⟩ := outpoint
    simp only [OutPoint.mk.injEq]
    by_cases hown : id = txid ∧ 0 ≤ index
    swap
    · rw [if_neg hown, if_neg hown, if_neg fun h => hown ⟨h.1, by omega⟩]
    rw [if_pos hown, if_pos hown]
    obtain ⟨n, rfl⟩ := Int.eq_ofNat_of_zero_le hown.2
    simp only [hown.1, true_and, Nat.cast_inj, Int.toNat_natCast]
    -- The last output is the only one beyond the earlier ones.
    rcases lt_trichotomy n outputs.length with hlt | rfl | hgt
    · rw [if_neg hlt.ne, getElem?_append_left hlt]
    · simp
    · rw [if_neg hgt.ne', getElem?_eq_none (by omega), getElem?_eq_none (by simp; omega)]

/-- **Observation of a transaction.** -/
theorem get_applyTransaction {view view' : σ} {tx : Transaction} {height : ℕ} {isCoinbase : Bool}
    (h : applyTransactionWith spend add view tx height isCoinbase = .ok view') :
    ∃ txid, tx.txid = .ok txid ∧ ∀ outpoint, get view' outpoint =
      observeTransaction (get view) txid tx height isCoinbase outpoint := by
  simp only [applyTransactionWith, bind_eq_ok, pure_eq_ok] at h
  obtain ⟨txid, htxid, rfl⟩ := h
  refine ⟨txid, htxid, fun outpoint => ?_⟩
  rw [createdEntries, laws.get_foldl_add, laws.get_foldl_spend]
  rfl

/-- **What disappears was spent.** -/
theorem exists_spend_of_absent {view view' : σ} {block : Block} {height : ℕ}
    (h : applyBlockWith spend add view block height = .ok view') {outpoint : OutPoint}
    (hbefore : get view outpoint ≠ none) (hafter : get view' outpoint = none) :
    outpoint ∈ block.transactions.flatMap spentOutpoints := by
  by_contra hunspent
  refine foldlM_invariant (fun view => get view outpoint ≠ none) ?_ h hbefore hafter
  rintro view ⟨tx, index⟩ view' hmem hstep hpresent
  have hmem : tx ∈ block.transactions := fst_mem_of_mem_zipIdx hmem
  have hkept : outpoint ∉ spentOutpoints tx :=
    fun hspent => hunspent (List.mem_flatMap.mpr ⟨tx, hmem, hspent⟩)
  obtain ⟨txid, -, hget⟩ := laws.get_applyTransaction hstep
  rw [hget, observeTransaction]
  cases createdAt txid tx height (index == 0) outpoint with
  | none => simpa [hkept] using hpresent
  | some entry => simp

/-- **What is there was there or was created.** -/
theorem origin_of_present {view view' : σ} {block : Block} {height : ℕ}
    (h : applyBlockWith spend add view block height = .ok view') {outpoint : OutPoint}
    {entry : UtxoEntry} (hafter : get view' outpoint = some entry) :
    get view outpoint = some entry ∨
      entry.height = height ∧ ∃ tx ∈ block.transactions,
        entry.output ∈ tx.outputs := by
  refine foldlM_invariant (fun shown => get shown outpoint = some entry →
    get view outpoint = some entry ∨ entry.height = height ∧
      ∃ tx ∈ block.transactions, entry.output ∈ tx.outputs) ?_ h .inl hafter
  rintro shown ⟨tx, index⟩ shown' hmem hstep ih hthere
  have hmem : tx ∈ block.transactions := fst_mem_of_mem_zipIdx hmem
  obtain ⟨txid, -, hget⟩ := laws.get_applyTransaction hstep
  rw [hget, observeTransaction] at hthere
  split at hthere
  · next created hcreated =>
    obtain rfl := Option.some.inj hthere
    rw [createdAt] at hcreated
    split_ifs at hcreated
    obtain ⟨output, houtput, rfl⟩ := Option.map_eq_some_iff.mp hcreated
    exact .inr ⟨rfl, tx, hmem, mem_of_getElem? houtput⟩
  · split_ifs at hthere
    exact ih hthere

end

end LawfulView

/-- A block whose transactions all have a txid can be applied. -/
theorem applyBlockWith_total {σ : Type} (spend : σ → OutPoint → σ)
    (add : σ → OutPoint → UtxoEntry → σ) (view : σ) (block : Block) (height : ℕ)
    (htxids : ∀ tx ∈ block.transactions, ∃ txid, tx.txid = .ok txid) :
    ∃ view', applyBlockWith spend add view block height = .ok view' := by
  refine foldlM_total ?_ view
  rintro view ⟨tx, index⟩ hmem
  obtain ⟨txid, htxid⟩ := htxids tx (fst_mem_of_mem_zipIdx hmem)
  simp [applyTransactionWith, htxid]

end

end Chipcoin
