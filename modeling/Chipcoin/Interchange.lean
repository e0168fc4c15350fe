import Chipcoin.Storage.Views
import Chipcoin.Consensus.Encoding

/-!
# The UTXO views are interchangeable

What a view is for is a set of coins: a function from outpoints to entries, with removal and
creation of one outpoint (`coinModel`). Each class of views implements it:

* an in-memory view by its dictionary, and an overlay by its dictionary and its set over a base that
  no method of it changes (`implements_private`);
* the SQLite chain state by the rows of its table, for outpoints and values that its statements can
  bind (`implements_chainState`).

So a client gets the same answers from all of them, and what it does to one view it does not see in
another one, be it a clone, the original or the base of an overlay (`views_interchangeable`). An
outpoint that no statement can bind tells them apart (`lone_surrogate`).
-/

namespace Chipcoin

open Checked Effect List Objects

variable {op : ViewOp} {outpoint : OutPoint} {tx : Transaction} {view : ViewObject}
  {heap heap' : ViewHeap}

/-! ### Coins -/

/-- A set of coins, as lookups see it. -/
abbrev Coins := OutPoint → Option UtxoEntry

variable {coins : Coins}

namespace Coins

/-- The removal of an outpoint. -/
def spend (outpoint : OutPoint) : EStateM PyError Coins PUnit :=
  modify fun coins => Function.update coins outpoint none

/-- The creation of an output. -/
def add (outpoint : OutPoint) (entry : UtxoEntry) : EStateM PyError Coins PUnit :=
  modify fun coins => Function.update coins outpoint (some entry)

end Coins

/-- The model of a view. -/
def coinModel [Platform] : Model PyError Coins ViewOp OutPoint (Option UtxoEntry) where
  call op := op.apply Coins.spend Coins.add
  ask coins := coins

variable {height : ℕ} {isCoinbase : Bool} {txid : PyStr} {f : UtxoSet → UtxoSet}

section

variable {σ τ : Type} {R : σ → τ → Prop}
  {spend : OutPoint → EStateM PyError σ PUnit}
  {add : OutPoint → UtxoEntry → EStateM PyError σ PUnit}
  {spend' : OutPoint → EStateM PyError τ PUnit}
  {add' : OutPoint → UtxoEntry → EStateM PyError τ PUnit}

/-- A lookup in the table. -/
private theorem get_chainState_eq_ok {found : Option UtxoEntry} :
    ViewObject.chainState.get heap outpoint = .ok found ↔
      bindOutPoint outpoint = .ok () ∧ heap.utxos[outpoint]?.map UtxoRow.entry = found := by
  rw [ViewObject.get, bind_eq_ok]
  simp only [pure_eq_ok]
  exact ⟨fun ⟨_, hbind, hfound⟩ => ⟨hbind, hfound⟩, fun ⟨hbind, hfound⟩ => ⟨(), hbind, hfound⟩⟩

private theorem constructed_eq {program : ViewMethod ViewObject}
    (h : program heap = .ok view heap') :
    constructed heap program = ⟨heap', [view]⟩ := by
  rw [constructed, h]

variable [Platform]

/-- A transaction follows its model when the removal of its inputs and the creation of its outputs
do. -/
theorem follows_applyTransactionBy (hspend : ∀ txInput ∈ tx.inputs,
      Effect.Follows R (spend txInput.previousOutput) (spend' txInput.previousOutput))
    (hadd : ∀ txid, tx.txid = .ok txid →
      ∀ created ∈ createdEntries txid tx height isCoinbase,
        Effect.Follows R (add created.1 created.2) (add' created.1 created.2)) :
    Effect.Follows R (applyTransactionBy spend add tx height isCoinbase)
      (applyTransactionBy spend' add' tx height isCoinbase) :=
  .bind (.forM_list hspend) fun _ =>
    .check_bind fun txid htxid => .forM_list (hadd txid htxid)

/-- What is created by a method, each with a transaction that has an identifier. -/
def ViewOp.Creates (op : ViewOp) (outpoint : OutPoint) (entry : UtxoEntry) : Prop :=
  match op with
  | .applyTransaction tx height isCoinbase =>
    ∃ txid, tx.txid = .ok txid ∧
      (outpoint, entry) ∈ createdEntries txid tx height isCoinbase
  | .applyBlock block height =>
    ∃ tx ∈ block.transactions, ∃ isCoinbase txid, tx.txid = .ok txid ∧
      (outpoint, entry) ∈ createdEntries txid tx height isCoinbase

/-- The outpoints that a method removes. -/
def ViewOp.spent : ViewOp → List OutPoint
  | .applyTransaction tx _ _ => spentOutpoints tx
  | .applyBlock block _ => block.transactions.flatMap spentOutpoints

/-- A method follows its model when each removal and each creation in it does. -/
theorem ViewOp.follows
    (hspend : ∀ outpoint ∈ op.spent, Effect.Follows R (spend outpoint) (spend' outpoint))
    (hadd : ∀ outpoint entry, op.Creates outpoint entry →
      Effect.Follows R (add outpoint entry) (add' outpoint entry)) :
    Effect.Follows R (op.apply spend add) (op.apply spend' add') := by
  cases op with
  | applyTransaction tx height isCoinbase =>
    refine follows_applyTransactionBy (fun txInput hinput => ?_) fun txid htxid created
      hcreated => ?_
    · exact hspend _ (mem_map_of_mem hinput)
    · exact hadd _ _ ⟨txid, htxid, hcreated⟩
  | applyBlock block height =>
    refine Effect.Follows.forM_list ?_
    rintro ⟨tx, index⟩ hmem
    have hmem : tx ∈ block.transactions := fst_mem_of_mem_zipIdx hmem
    refine follows_applyTransactionBy (fun txInput hinput => ?_) fun txid htxid created
      hcreated => ?_
    · exact hspend _ (List.mem_flatMap.mpr ⟨tx, hmem, mem_map_of_mem hinput⟩)
    · exact hadd _ _ ⟨tx, hmem, index == 0, txid, htxid, hcreated⟩

private theorem ViewOp.relates {S : σ → σ → Prop} (hrefl : ∀ a, S a a)
    (htrans : ∀ a b c, S a b → S b c → S a c)
    (hspend : ∀ outpoint state, S state (after (spend outpoint) state))
    (hadd : ∀ outpoint entry state, S state (after (add outpoint entry) state)) (op : ViewOp)
    (state : σ) : S state (after (op.apply spend add) state) := by
  have htransaction : ∀ tx height isCoinbase state,
      S state (after (applyTransactionBy spend add tx height isCoinbase) state) := by
    intro tx height isCoinbase state
    refine relates_bind htrans (relates_forM hrefl htrans (fun _ _ => hspend _) state) ?_
    intro _ state' _
    exact relates_check_bind hrefl fun txid _ =>
      relates_forM hrefl htrans (fun _ _ => hadd _ _) state'
  cases op with
  | applyTransaction tx height isCoinbase => exact htransaction ..
  | applyBlock block height =>
    exact relates_forM hrefl htrans (fun _ _ => htransaction _ _ _) state

end

/-! ### Views with a dictionary of their own -/

namespace ViewHeap

variable {heap : ViewHeap} {ref other : ℕ}

private theorem dict_writeDict (h : ref < heap.dicts.length) :
    (heap.writeDict ref f).dict ref = f (heap.dict ref) := by
  show (heap.dicts.modify ref f)[ref]?.getD ∅ = f (heap.dicts[ref]?.getD ∅)
  rw [getElem?_modify_eq, getElem?_eq_getElem h]
  rfl

private theorem dict_writeDict_of_ne (h : ref ≠ other) :
    (heap.writeDict ref f).dict other = heap.dict other := by
  show (heap.dicts.modify ref f)[other]?.getD ∅ = heap.dicts[other]?.getD ∅
  simp [h]

private theorem set_writeSet {f : Finset OutPoint → Finset OutPoint} (h : ref < heap.sets.length) :
    (heap.writeSet ref f).set ref = f (heap.set ref) := by
  show (heap.sets.modify ref f)[ref]?.getD ∅ = f (heap.sets[ref]?.getD ∅)
  rw [getElem?_modify_eq, getElem?_eq_getElem h]
  rfl

private theorem set_writeSet_of_ne {f : Finset OutPoint → Finset OutPoint} (h : ref ≠ other) :
    (heap.writeSet ref f).set other = heap.set other := by
  show (heap.sets.modify ref f)[other]?.getD ∅ = heap.sets[other]?.getD ∅
  simp [h]

/-- What was in the heap at the start is there as it was. -/
structure Extends (start heap : ViewHeap) : Prop where
  dicts_le : start.dicts.length ≤ heap.dicts.length
  dict_eq : ∀ ref < start.dicts.length, heap.dict ref = start.dict ref
  sets_le : start.sets.length ≤ heap.sets.length
  set_eq : ∀ ref < start.sets.length, heap.set ref = start.set ref
  utxos_eq : heap.utxos = start.utxos

private theorem Extends.refl (heap : ViewHeap) : Extends heap heap :=
  ⟨le_rfl, fun _ _ => rfl, le_rfl, fun _ _ => rfl, rfl⟩

private theorem Extends.trans {start middle heap : ViewHeap} (h : Extends start middle)
    (h' : Extends middle heap) : Extends start heap where
  dicts_le := h.dicts_le.trans h'.dicts_le
  dict_eq ref hlt := (h'.dict_eq ref (hlt.trans_le h.dicts_le)).trans (h.dict_eq ref hlt)
  sets_le := h.sets_le.trans h'.sets_le
  set_eq ref hlt := (h'.set_eq ref (hlt.trans_le h.sets_le)).trans (h.set_eq ref hlt)
  utxos_eq := h'.utxos_eq.trans h.utxos_eq

/-- New objects leave the old ones as they are. -/
theorem extends_alloc (heap : ViewHeap) (newDicts : List UtxoSet)
    (newSets : List (Finset OutPoint)) :
    Extends heap ⟨heap.dicts ++ newDicts, heap.sets ++ newSets, heap.utxos⟩ where
  dicts_le := by simp
  dict_eq ref hlt := by
    show (heap.dicts ++ newDicts)[ref]?.getD ∅ = heap.dicts[ref]?.getD ∅
    rw [getElem?_append_left hlt]
  sets_le := by simp
  set_eq ref hlt := by
    show (heap.sets ++ newSets)[ref]?.getD ∅ = heap.sets[ref]?.getD ∅
    rw [getElem?_append_left hlt]
  utxos_eq := rfl

end ViewHeap

namespace ViewObject

open ViewHeap

/-- The references of a view are those of objects in the heap. -/
def Within (heap : ViewHeap) : ViewObject → Prop
  | inMemory entries => entries < heap.dicts.length
  | overlay base added spent =>
    Within heap base ∧ added < heap.dicts.length ∧ spent < heap.sets.length
  | chainState => True

/-- A view answers as before in a heap that keeps what it refers to. -/
theorem get_of_extends {start : ViewHeap} (h : Extends start heap) (hview : view.Within start)
    (outpoint : OutPoint) : view.get heap outpoint = view.get start outpoint := by
  induction view with
  | inMemory entries =>
    rw [get, get, h.dict_eq entries hview]
  | overlay base added spent ih =>
    obtain ⟨hbase, hadded, hspent⟩ := hview
    rw [get, get, h.set_eq spent hspent, h.dict_eq added hadded, ih hbase]
  | chainState => rw [get, get, h.utxos_eq]

/-- The reference of the view's own dictionary. -/
def ownDict : ViewObject → Option ℕ
  | inMemory entries => some entries
  | overlay _ added _ => some added
  | chainState => none

/-- The reference of the view's own set. -/
def ownSet : ViewObject → Option ℕ
  | overlay _ _ spent => some spent
  | _ => none

/-- The view has its dictionary and its set to itself: they are newer than the start, to which the
base of an overlay belongs. -/
def Private (start heap : ViewHeap) : ViewObject → Prop
  | inMemory entries => start.dicts.length ≤ entries ∧ entries < heap.dicts.length
  | overlay base added spent => base.Within start ∧
      (start.dicts.length ≤ added ∧ added < heap.dicts.length) ∧
      start.sets.length ≤ spent ∧ spent < heap.sets.length
  | chainState => False

/-- Two views share no dictionary and no set. -/
def Apart (view other : ViewObject) : Prop :=
  (∀ ref ∈ view.ownDict, ref ∉ other.ownDict) ∧ ∀ ref ∈ view.ownSet, ref ∉ other.ownSet

/-- A change of the heap that concerns one view only. -/
structure Touches (view : ViewObject) (heap heap' : ViewHeap) : Prop where
  dicts_length : heap'.dicts.length = heap.dicts.length
  dict_eq : ∀ ref, ref ∉ view.ownDict → heap'.dict ref = heap.dict ref
  sets_length : heap'.sets.length = heap.sets.length
  set_eq : ∀ ref, ref ∉ view.ownSet → heap'.set ref = heap.set ref
  utxos_eq : view ≠ chainState → heap'.utxos = heap.utxos

namespace Touches

variable {view : ViewObject} {heap heap' heap'' : ViewHeap}

private theorem refl (view : ViewObject) (heap : ViewHeap) : Touches view heap heap :=
  ⟨rfl, fun _ _ => rfl, rfl, fun _ _ => rfl, fun _ => rfl⟩

private theorem trans (h : Touches view heap heap') (h' : Touches view heap' heap'') :
    Touches view heap heap'' where
  dicts_length := h'.dicts_length.trans h.dicts_length
  dict_eq ref href := (h'.dict_eq ref href).trans (h.dict_eq ref href)
  sets_length := h'.sets_length.trans h.sets_length
  set_eq ref href := (h'.set_eq ref href).trans (h.set_eq ref href)
  utxos_eq hview := (h'.utxos_eq hview).trans (h.utxos_eq hview)

private theorem writeDict {ref : ℕ} (h : ref ∈ view.ownDict) (f : UtxoSet → UtxoSet)
    (heap : ViewHeap) :
    Touches view heap (heap.writeDict ref f) where
  dicts_length := length_modify ..
  dict_eq _ hother := dict_writeDict_of_ne fun heq => hother (heq ▸ h)
  sets_length := rfl
  set_eq _ _ := rfl
  utxos_eq _ := rfl

private theorem writeSet {ref : ℕ} (h : ref ∈ view.ownSet) (f : Finset OutPoint → Finset OutPoint)
    (heap : ViewHeap) : Touches view heap (heap.writeSet ref f) where
  dicts_length := rfl
  dict_eq _ _ := rfl
  sets_length := length_modify ..
  set_eq _ hother := set_writeSet_of_ne fun heq => hother (heq ▸ h)
  utxos_eq _ := rfl

end Touches

private theorem touches_spend (view : ViewObject) (outpoint : OutPoint) (heap : ViewHeap) :
    Touches view heap (after (view.spend outpoint) heap) := by
  cases view with
  | inMemory entries => exact .writeDict rfl _ _
  | overlay base added spent => exact (Touches.writeDict rfl _ _).trans (.writeSet rfl _ _)
  | chainState =>
    rw [spend]
    refine relates_check_bind (Touches.refl chainState) fun _ _ => ?_
    exact ⟨rfl, fun _ _ => rfl, rfl, fun _ _ => rfl, fun h => absurd rfl h⟩

private theorem touches_add (view : ViewObject) (outpoint : OutPoint) (entry : UtxoEntry)
    (heap : ViewHeap) : Touches view heap (after (view.add outpoint entry) heap) := by
  cases view with
  | inMemory entries => exact .writeDict rfl _ _
  | overlay base added spent => exact (Touches.writeSet rfl _ _).trans (.writeDict rfl _ _)
  | chainState =>
    rw [add]
    refine relates_check_bind (Touches.refl chainState) fun _ _ => ?_
    refine relates_check_bind (Touches.refl chainState) fun _ _ => ?_
    exact ⟨rfl, fun _ _ => rfl, rfl, fun _ _ => rfl, fun h => absurd rfl h⟩

section

variable {start heap heap' : ViewHeap} {view other : ViewObject}

private theorem Private.ne_chainState (h : view.Private start heap) : view ≠ chainState := by
  rintro rfl
  exact h

/-- A change that concerns a private view leaves the start as it is. -/
theorem Touches.extends (h : Touches view heap heap') (hstart : Extends start heap)
    (hview : view.Private start heap) : Extends start heap' := by
  refine ⟨hstart.dicts_le.trans_eq h.dicts_length.symm, fun ref hlt => ?_,
    hstart.sets_le.trans_eq h.sets_length.symm, fun ref hlt => ?_,
    (h.utxos_eq hview.ne_chainState).trans hstart.utxos_eq⟩
  · rw [h.dict_eq ref ?_, hstart.dict_eq ref hlt]
    intro hown
    cases view with
    | inMemory entries =>
      obtain rfl := Option.some.inj hown
      exact absurd hview.1 (not_le.mpr hlt)
    | overlay base added spent =>
      obtain rfl := Option.some.inj hown
      exact absurd hview.2.1.1 (not_le.mpr hlt)
    | chainState => cases hown
  · rw [h.set_eq ref ?_, hstart.set_eq ref hlt]
    intro hown
    cases view with
    | inMemory entries => cases hown
    | overlay base added spent =>
      obtain rfl := Option.some.inj hown
      exact absurd hview.2.2.1 (not_le.mpr hlt)
    | chainState => cases hown

private theorem Touches.private (h : Touches view heap heap') (hother : other.Private start heap) :
    other.Private start heap' := by
  cases other with
  | inMemory entries =>
    rw [Private, h.dicts_length]
    exact hother
  | overlay base added spent =>
    rw [Private, h.dicts_length, h.sets_length]
    exact hother
  | chainState => exact hother

/-- A change that concerns another view is not seen. -/
theorem Touches.get_eq (h : Touches view heap heap') (hstart : Extends start heap)
    (hview : view.Private start heap) (hother : other.Private start heap)
    (hapart : Apart view other) (outpoint : OutPoint) :
    other.get heap' outpoint = other.get heap outpoint := by
  have hkept := h.extends hstart hview
  cases other with
  | inMemory entries =>
    rw [get, get, h.dict_eq entries fun hown => hapart.1 _ hown rfl]
  | overlay base added spent =>
    rw [get, get, h.dict_eq added fun hown => hapart.1 _ hown rfl,
      h.set_eq spent fun hown => hapart.2 _ hown rfl, get_of_extends hkept hother.1,
      get_of_extends hstart hother.1]
  | chainState => exact hother.elim

end

/-- A private view stands for the coins that it shows at the outpoints of interest. -/
structure Shows (start : ViewHeap) (asked : Set OutPoint) (heap : ViewHeap) (view : ViewObject)
    (coins : Coins) : Prop where
  start_kept : Extends start heap
  view_private : view.Private start heap
  get_eq : ∀ outpoint ∈ asked, view.get heap outpoint = .ok (coins outpoint)

section

variable {start heap : ViewHeap} {asked : Set OutPoint}

/-- A change of the heap follows a change of the coins at one outpoint when the view shows it. -/
theorem follows_modify {f : ViewHeap → ViewHeap} {shown : Option UtxoEntry}
    (htouches : ∀ heap, Touches view heap (f heap))
    (hget : ∀ heap, Extends start heap → view.Private start heap →
      view.get (f heap) outpoint = .ok shown ∧
        ∀ other ≠ outpoint, view.get (f heap) other = view.get heap other) :
    Effect.Follows (fun heap coins => Shows start asked heap view coins)
      (modify f : ViewMethod PUnit)
      (modify fun coins : Coins => Function.update coins outpoint shown) := by
  refine Effect.Follows.modify fun heap coins h => ?_
  obtain ⟨hstart, hview, hshown⟩ := h
  obtain ⟨hhere, helsewhere⟩ := hget heap hstart hview
  refine ⟨(htouches heap).extends hstart hview, (htouches heap).private hview, ?_⟩
  intro other hother
  by_cases heq : other = outpoint
  · subst heq
    rw [hhere, Function.update_self]
  · rw [helsewhere other heq, hshown other hother, Function.update_of_ne heq]

private theorem follows_spend (outpoint : OutPoint) (hview : view ≠ chainState) :
    Effect.Follows (fun heap coins => Shows start asked heap view coins) (view.spend outpoint)
      (Coins.spend outpoint) := by
  cases view with
  | inMemory entries =>
    refine follows_modify (fun heap => touches_spend (.inMemory entries) outpoint heap) ?_
    intro heap _ hprivate
    simp only [get, dict_writeDict hprivate.2, Std.ExtTreeMap.getElem?_erase, Except.ok.injEq]
    refine ⟨by simp, fun other hne => ?_⟩
    simp [Ne.symm hne]
  | overlay base added spent =>
    refine follows_modify (fun heap => touches_spend (.overlay base added spent) outpoint heap) ?_
    intro heap hstart hprivate
    have hkept := (touches_spend (.overlay base added spent) outpoint heap).extends hstart hprivate
    -- The base shows what it showed at the start, before and after the change.
    have hbase : ∀ other, base.get ((heap.writeDict added (·.erase outpoint)).writeSet spent
        (insert outpoint)) other = base.get heap other := fun other =>
      (get_of_extends hkept hprivate.1 other).trans (get_of_extends hstart hprivate.1 other).symm
    have hset : ((heap.writeDict added (·.erase outpoint)).writeSet spent (insert outpoint)).set
        spent = insert outpoint (heap.set spent) := set_writeSet hprivate.2.2.2
    have hdict : ((heap.writeDict added (·.erase outpoint)).writeSet spent (insert outpoint)).dict
        added = (heap.dict added).erase outpoint := dict_writeDict hprivate.2.1.2
    simp only [get, hset, hdict, hbase, Finset.mem_insert, true_or, if_true]
    refine ⟨trivial, fun other hne => ?_⟩
    rw [Std.ExtTreeMap.getElem?_erase]
    simp [hne, Ne.symm hne]
  | chainState => exact absurd rfl hview

private theorem follows_add (outpoint : OutPoint) (entry : UtxoEntry) (hview : view ≠ chainState) :
    Effect.Follows (fun heap coins => Shows start asked heap view coins) (view.add outpoint entry)
      (Coins.add outpoint entry) := by
  cases view with
  | inMemory entries =>
    refine follows_modify (fun heap => touches_add (.inMemory entries) outpoint entry heap) ?_
    intro heap _ hprivate
    simp only [get, dict_writeDict hprivate.2, Std.ExtTreeMap.getElem?_insert, Except.ok.injEq]
    refine ⟨by simp, fun other hne => ?_⟩
    simp [Ne.symm hne]
  | overlay base added spent =>
    refine follows_modify
      (fun heap => touches_add (.overlay base added spent) outpoint entry heap) ?_
    intro heap hstart hprivate
    have hkept :=
      (touches_add (.overlay base added spent) outpoint entry heap).extends hstart hprivate
    -- The two writes are to the own set and dictionary, which the base does not see.
    have hbase : ∀ other, base.get ((heap.writeSet spent (·.erase outpoint)).writeDict added
        (·.insert outpoint entry)) other = base.get heap other := fun other =>
      (get_of_extends hkept hprivate.1 other).trans (get_of_extends hstart hprivate.1 other).symm
    have hset : ((heap.writeSet spent (·.erase outpoint)).writeDict added
        (·.insert outpoint entry)).set spent = (heap.set spent).erase outpoint :=
      set_writeSet hprivate.2.2.2
    have hdict : ((heap.writeSet spent (·.erase outpoint)).writeDict added
        (·.insert outpoint entry)).dict added = (heap.dict added).insert outpoint entry :=
      dict_writeDict hprivate.2.1.2
    simp only [get, hset, hdict, hbase, Finset.mem_erase, ne_eq, not_true_eq_false, false_and,
      if_false, Std.ExtTreeMap.getElem?_insert]
    refine ⟨by simp, fun other hne => ?_⟩
    simp [hne, Ne.symm hne]
  | chainState => exact absurd rfl hview

private theorem Within.mono {heap : ViewHeap} (h : Extends heap heap') (hview : view.Within heap) :
    view.Within heap' := by
  induction view with
  | inMemory entries => exact lt_of_lt_of_le hview h.dicts_le
  | overlay base added spent ih =>
    exact ⟨ih hview.1, hview.2.1.trans_le h.dicts_le, hview.2.2.trans_le h.sets_le⟩
  | chainState => trivial

private theorem Private.within (h : view.Private start heap) (hstart : Extends start heap) :
    view.Within heap := by
  cases view with
  | inMemory entries => exact h.2
  | overlay base added spent => exact ⟨h.1.mono hstart, h.2.1.2, h.2.2.2⟩
  | chainState => trivial

section

variable {view : ViewObject} (h : Shows start asked heap view coins)
include h

/-- An older view keeps what it shows when objects are added. -/
theorem Shows.mono (hmore : Extends heap heap') : Shows start asked heap' view coins := by
  obtain ⟨hstart, hview, hget⟩ := h
  refine ⟨hstart.trans hmore, ?_, fun outpoint hasked => ?_⟩
  · cases view with
    | inMemory entries => exact ⟨hview.1, hview.2.trans_le hmore.dicts_le⟩
    | overlay base added spent =>
      exact ⟨hview.1, ⟨hview.2.1.1, hview.2.1.2.trans_le hmore.dicts_le⟩, hview.2.2.1,
        hview.2.2.2.trans_le hmore.sets_le⟩
    | chainState => exact hview
  · rw [get_of_extends hmore (hview.within hstart), hget outpoint hasked]

/-- The references of an older view are below the length of the heap. -/
theorem Shows.ownDict_lt {ref : ℕ} (href : ref ∈ view.ownDict) : ref < heap.dicts.length := by
  have hview := h.view_private
  cases view with
  | inMemory entries =>
    obtain rfl := Option.some.inj href
    exact hview.2
  | overlay base added spent =>
    obtain rfl := Option.some.inj href
    exact hview.2.1.2
  | chainState => cases href

private theorem Shows.ownSet_lt {ref : ℕ} (href : ref ∈ view.ownSet) : ref < heap.sets.length := by
  have hview := h.view_private
  cases view with
  | inMemory entries => cases href
  | overlay base added spent =>
    obtain rfl := Option.some.inj href
    exact hview.2.2.2
  | chainState => cases href

/-- A new view is apart from every older one. -/
theorem Shows.apart {copy : ViewObject} (hdict : ∀ ref ∈ copy.ownDict, heap.dicts.length ≤ ref)
    (hset : ∀ ref ∈ copy.ownSet, heap.sets.length ≤ ref) : Apart copy view ∧ Apart view copy := by
  have hdicts : ∀ ref ∈ copy.ownDict, ref ∉ view.ownDict := fun ref hnew hold =>
    absurd (hdict ref hnew) (not_le.mpr (h.ownDict_lt hold))
  have hsets : ∀ ref ∈ copy.ownSet, ref ∉ view.ownSet := fun ref hnew hold =>
    absurd (hset ref hnew) (not_le.mpr (h.ownSet_lt hold))
  exact ⟨⟨hdicts, hsets⟩, fun ref hold hnew => hdicts ref hnew hold,
    fun ref hold hnew => hsets ref hnew hold⟩

end

/-- A constructed in-memory view shows the entries it was given. -/
theorem shows_newInMemory (hstart : Extends start heap) (entries : UtxoSet) (coins : Coins)
    (hentries : ∀ outpoint ∈ asked, entries[outpoint]? = coins outpoint) :
    ∃ heap', newInMemory entries heap = .ok (.inMemory heap.dicts.length) heap' ∧
      Extends heap heap' ∧ Shows start asked heap' (.inMemory heap.dicts.length) coins := by
  have hmore := extends_alloc heap [entries] []
  rw [append_nil] at hmore
  refine ⟨_, rfl, hmore, hstart.trans hmore, ⟨hstart.dicts_le, by simp⟩, fun outpoint hasked => ?_⟩
  rw [← hentries outpoint hasked]
  show Except.ok ((heap.dicts ++ [entries])[heap.dicts.length]?.getD ∅)[outpoint]? = _
  rw [getElem?_concat_length]
  rfl

/-- A constructed overlay shows its changes over what its base shows. -/
theorem shows_newOverlay (hstart : Extends start heap) {base : ViewObject}
    (hbase : base.Within start) (added : UtxoSet) (spent : Finset OutPoint) (coins : Coins)
    (hcoins : ∀ outpoint ∈ asked, (if outpoint ∈ spent then .ok none
      else match added[outpoint]? with
        | some entry => .ok (some entry)
        | none => base.get start outpoint) = (.ok (coins outpoint) : Except PyError _)) :
    ∃ heap', newOverlay base added spent heap =
        .ok (.overlay base heap.dicts.length heap.sets.length) heap' ∧
      Extends heap heap' ∧
      Shows start asked heap' (.overlay base heap.dicts.length heap.sets.length) coins := by
  -- The new dictionary and the new set lie behind everything that exists.
  have hmore := extends_alloc heap [added] [spent]
  refine ⟨_, rfl, hmore, hstart.trans hmore,
    ⟨hbase, ⟨hstart.dicts_le, by simp⟩, hstart.sets_le, by simp⟩, fun outpoint hasked => ?_⟩
  have hdict : (ViewHeap.mk (heap.dicts ++ [added]) (heap.sets ++ [spent]) heap.utxos).dict
      heap.dicts.length = added := by
    show (heap.dicts ++ [added])[heap.dicts.length]?.getD ∅ = added
    rw [getElem?_concat_length]
    rfl
  have hset : (ViewHeap.mk (heap.dicts ++ [added]) (heap.sets ++ [spent]) heap.utxos).set
      heap.sets.length = spent := by
    show (heap.sets ++ [spent])[heap.sets.length]?.getD ∅ = spent
    rw [getElem?_concat_length]
    rfl
  rw [get, hdict, hset, get_of_extends (hstart.trans hmore) hbase]
  exact hcoins outpoint hasked

end

/-! ### Private views implement coins -/

/-- The commands for views that keep their changes to themselves: any transactions and blocks,
copies, and questions about the outpoints of interest. -/
def privateDomain (asked : Set OutPoint) : Domain ViewOp OutPoint where
  calls _ := True
  clones := True
  questions outpoint := outpoint ∈ asked

/-- **In-memory views and overlays implement coins.** -/
theorem implements_private [Platform] (start : ViewHeap) (asked : Set OutPoint) :
    Implements viewMethods coinModel (privateDomain asked) (Shows start asked) Apart where
  call op _ view := by
    intro heap coins h
    have hview := h.view_private.ne_chainState
    exact ViewOp.follows (fun outpoint _ => follows_spend outpoint hview)
      (fun outpoint entry _ => follows_add outpoint entry hview) heap coins h
  frame op view other heap coins owned h hapart hother := by
    -- A method touches the own dictionary and set alone.
    have htouches : Touches view heap (after (viewMethods.call view op) heap) :=
      ViewOp.relates (Touches.refl view) (fun _ _ _ => Touches.trans) (touches_spend view)
        (touches_add view) op heap
    refine ⟨htouches.extends h.start_kept h.view_private, htouches.private hother.view_private, ?_⟩
    intro outpoint hasked
    rw [htouches.get_eq h.start_kept h.view_private hother.view_private hapart,
      hother.get_eq outpoint hasked]
  clone _ heap view coins h := by
    obtain ⟨hstart, hprivate, hget⟩ := h
    cases view with
    | inMemory entries =>
      obtain ⟨heap', hnew, hmore, hshows⟩ :=
        shows_newInMemory hstart (heap.dict entries) coins fun outpoint hasked =>
          Except.ok.inj (hget outpoint hasked)
      refine ⟨_, heap', hnew, hshows, fun other owned hother => ⟨hother.mono hmore, ?_⟩⟩
      refine hother.apart (fun ref href => ?_) fun ref href => nomatch href
      exact (Option.some.inj href).le
    | overlay base added spent =>
      obtain ⟨heap', hnew, hmore, hshows⟩ :=
        shows_newOverlay hstart hprivate.1 (heap.dict added) (heap.set spent) coins
          fun outpoint hasked => by
            rw [← get_of_extends hstart hprivate.1]
            exact hget outpoint hasked
      refine ⟨_, heap', hnew, hshows, fun other owned hother => ⟨hother.mono hmore, ?_⟩⟩
      -- What is freshly allocated is apart from all that was there before.
      refine hother.apart (fun ref href => ?_) fun ref href => ?_
      · exact (Option.some.inj href).le
      · exact (Option.some.inj href).le
    | chainState => exact hprivate.elim
  ask outpoint hasked heap view coins h := h.get_eq outpoint hasked

end ViewObject

/-! ### The chain state implements coins -/

section

private theorem UtxoRow.entry_ofEntry (entry : UtxoEntry) :
    (UtxoRow.ofEntry entry).entry = entry := by
  obtain ⟨output, height, isCoinbase⟩ := entry
  cases isCoinbase <;> rfl

private theorem bindInt_eq_ok {v : Int} (hlow : 0 ≤ v) (hhigh : v < 2 ^ 63) : bindInt v = .ok () :=
  raiseIf_eq_ok.mpr (by omega)

private theorem bindText_eq_ok {text : PyStr} :
    bindText text = .ok () ↔ (utf8Encode? text).isSome := by
  rw [bindText, bind_eq_ok]
  simp only [utf8Encode, orRaise_eq_ok, pure_eq_ok, and_true]
  exact Option.isSome_iff_exists.symm

private theorem bindOutPoint_eq_ok : bindOutPoint outpoint = .ok () ↔
    bindText outpoint.txid = .ok () ∧ bindInt outpoint.index = .ok () := by
  rw [bindOutPoint, bind_eq_ok]
  exact ⟨fun ⟨_, htext, hindex⟩ => ⟨htext, hindex⟩, fun ⟨htext, hindex⟩ => ⟨(), htext, hindex⟩⟩

/-- Hexadecimal text has a UTF-8 form. -/
theorem isSome_utf8Encode?_hex (octets : Bytes) : (utf8Encode? (hex octets)).isSome := by
  have hascii : ∀ c ∈ hex octets, c < 128 := by
    intro c hc
    obtain ⟨n, hn, rfl⟩ := exists_of_mem_hex hc
    unfold hexDigit
    split_ifs <;> omega
  rw [utf8Encode?_ascii hascii]
  rfl

/-- The values of a transaction fit the columns: its outpoints can be bound, and its output values
and indices are below `2^63`. -/
structure Transaction.Storable (tx : Transaction) : Prop where
  inputs : ∀ txInput ∈ tx.inputs, bindOutPoint txInput.previousOutput = .ok ()
  outputs : ∀ output ∈ tx.outputs, output.value < 2 ^ 63
  count : tx.outputs.length ≤ 2 ^ 63

/-- The values of a method fit the columns. -/
def ViewOp.Storable : ViewOp → Prop
  | .applyTransaction tx height _ => tx.Storable ∧ height < 2 ^ 63
  | .applyBlock block height => (∀ tx ∈ block.transactions, tx.Storable) ∧ height < 2 ^ 63

private theorem ViewOp.Storable.spent (h : op.Storable) (hmem : outpoint ∈ op.spent) :
    bindOutPoint outpoint = .ok () := by
  cases op with
  | applyTransaction tx height isCoinbase =>
    obtain ⟨txInput, hinput, rfl⟩ := List.mem_map.mp hmem
    exact h.1.inputs txInput hinput
  | applyBlock block height =>
    obtain ⟨tx, htransaction, hmem⟩ := List.mem_flatMap.mp hmem
    obtain ⟨txInput, hinput, rfl⟩ := List.mem_map.mp hmem
    exact (h.1 tx htransaction).inputs txInput hinput

variable [Platform]

/-- The identifier of a transaction is hexadecimal text, and its outputs have been encoded. -/
theorem Transaction.columns_of_txid (h : tx.txid = .ok txid) :
    (utf8Encode? txid).isSome ∧ ∀ output ∈ tx.outputs,
      0 ≤ output.value ∧ (utf8Encode? output.recipient).isSome := by
  obtain ⟨encoded, hencoded, h⟩ := bind_eq_ok.mp h
  obtain rfl := pure_eq_ok.mp h
  refine ⟨isSome_utf8Encode?_hex _, fun output houtput => ?_⟩
  simp only [serializeTransaction, bind_eq_ok] at hencoded
  obtain ⟨-, -, -, -, -, -, -, -, outputs, houtputs, -⟩ := hencoded
  obtain ⟨octets, houtput⟩ := mapM_returns_iff.mp ⟨_, houtputs⟩ output houtput
  obtain ⟨value, hvalue, houtput⟩ := bind_eq_ok.mp houtput
  obtain ⟨text, htext, -⟩ := bind_eq_ok.mp houtput
  obtain ⟨raw, hraw, -⟩ := bind_eq_ok.mp htext
  exact ⟨(pack_ok hvalue).1, Option.isSome_iff_exists.mpr ⟨raw, orRaise_eq_ok.mp hraw⟩⟩

/-- What a storable transaction creates can be bound. -/
theorem Transaction.Storable.created (h : tx.Storable) (hheight : height < 2 ^ 63)
    (htxid : tx.txid = .ok txid) {entry : UtxoEntry}
    (hcreated : (outpoint, entry) ∈ createdEntries txid tx height isCoinbase) :
    bindOutPoint outpoint = .ok () ∧ bindRow (.ofEntry entry) = .ok () := by
  obtain ⟨htext, houtputs⟩ := Transaction.columns_of_txid htxid
  obtain ⟨index, hindex, hpair⟩ := List.mem_mapIdx.mp hcreated
  obtain ⟨rfl, rfl⟩ := Prod.mk.inj hpair
  have hmem : tx.outputs[index] ∈ tx.outputs := getElem_mem hindex
  obtain ⟨hvalue, hrecipient⟩ := houtputs _ hmem
  refine ⟨bindOutPoint_eq_ok.mpr ⟨bindText_eq_ok.mpr htext, ?_⟩, ?_⟩
  · have hcount := h.count
    exact bindInt_eq_ok (Int.natCast_nonneg _) (by push_cast; omega)
  · refine bind_eq_ok.mpr ⟨(), bindInt_eq_ok hvalue (h.outputs _ hmem), ?_⟩
    refine bind_eq_ok.mpr ⟨(), bindText_eq_ok.mpr hrecipient, ?_⟩
    have hheight : (height : Int) < 2 ^ 63 := by exact_mod_cast hheight
    refine bind_eq_ok.mpr ⟨(), bindInt_eq_ok (Int.natCast_nonneg _) hheight, ?_⟩
    show bindInt (if isCoinbase then 1 else 0) = .ok ()
    cases isCoinbase <;> exact bindInt_eq_ok (by decide) (by decide)

private theorem ViewOp.Storable.created (h : op.Storable) {entry : UtxoEntry}
    (hcreates : op.Creates outpoint entry) :
    bindOutPoint outpoint = .ok () ∧ bindRow (.ofEntry entry) = .ok () := by
  cases op with
  | applyTransaction tx height isCoinbase =>
    obtain ⟨txid, htxid, hcreated⟩ := hcreates
    exact h.1.created h.2 htxid hcreated
  | applyBlock block height =>
    obtain ⟨tx, htransaction, isCoinbase, txid, htxid, hcreated⟩ := hcreates
    exact (h.1 tx htransaction).created h.2 htxid hcreated

omit [Platform] in
/-- The chain state stands for the coins that it shows at the outpoints of interest. -/
structure Stores (asked : Set OutPoint) (heap : ViewHeap) (view : ViewObject) (coins : Coins) :
    Prop where
  chainState : view = .chainState
  get_eq : ∀ outpoint ∈ asked, ViewObject.chainState.get heap outpoint = .ok (coins outpoint)

/-- The commands for the chain state: values that fit the columns, no copies, and questions about
the outpoints of interest. -/
def storedDomain (asked : Set OutPoint) : Domain ViewOp OutPoint where
  calls op := op.Storable
  clones := False
  questions outpoint := outpoint ∈ asked

/-- **The chain state implements coins.** -/
theorem implements_chainState (asked : Set OutPoint) :
    Implements viewMethods coinModel (storedDomain asked) (Stores asked) fun _ _ => False where
  call op hop view := by
    refine fun heap coins h => ViewOp.follows (fun outpoint hspent => ?_)
      (fun outpoint entry hcreates => ?_) heap coins h
    · -- A deletion. The outpoint can be bound, so the statement does not raise.
      obtain rfl := h.chainState
      have hbind := hop.spent hspent
      rw [ViewObject.spend, hbind]
      refine Effect.Follows.modify fun heap coins h => ⟨rfl, fun other hasked => ?_⟩
      obtain ⟨hother, hfound⟩ := get_chainState_eq_ok.mp (h.get_eq other hasked)
      refine get_chainState_eq_ok.mpr ⟨hother, ?_⟩
      show ((heap.utxos.erase outpoint)[other]?).map UtxoRow.entry = _
      rw [Std.ExtTreeMap.getElem?_erase]
      by_cases heq : other = outpoint
      · simp [heq]
      · simp [Ne.symm heq, heq, hfound]
    · obtain rfl := h.chainState
      obtain ⟨hbind, hrow⟩ := hop.created hcreates
      rw [ViewObject.add, hbind, hrow]
      refine Effect.Follows.modify fun heap coins h => ⟨rfl, fun other hasked => ?_⟩
      obtain ⟨hother, hfound⟩ := get_chainState_eq_ok.mp (h.get_eq other hasked)
      refine get_chainState_eq_ok.mpr ⟨hother, ?_⟩
      show ((heap.utxos.insert outpoint (.ofEntry entry))[other]?).map UtxoRow.entry = _
      rw [Std.ExtTreeMap.getElem?_insert]
      by_cases heq : other = outpoint
      · simp [heq, UtxoRow.entry_ofEntry]
      · simp [Ne.symm heq, heq, hfound]
  frame _ _ _ _ _ _ _ hapart := hapart.elim
  -- There is one chain state, and it is not copied.
  clone h := h.elim
  ask outpoint hasked heap view coins h := h.chainState ▸ h.get_eq outpoint hasked

end

/-! ### The three views -/

/-- `replace_all`: the rows of given entries. -/
def UtxoTable.ofEntries (entries : UtxoSet) : UtxoTable :=
  entries.map fun _ entry => UtxoRow.ofEntry entry

private theorem get_ofEntries {entries : UtxoSet} (h : bindOutPoint outpoint = .ok ()) :
    ViewObject.chainState.get { heap with utxos := .ofEntries entries } outpoint =
      .ok entries[outpoint]? := by
  refine get_chainState_eq_ok.mpr ⟨h, ?_⟩
  show ((UtxoTable.ofEntries entries)[outpoint]?).map UtxoRow.entry = _
  rw [UtxoTable.ofEntries, Std.ExtTreeMap.getElem?_map, Option.map_map]
  cases entries[outpoint]? with
  | none => rfl
  | some entry => exact congrArg some (UtxoRow.entry_ofEntry entry)

/-- In the world of a client, a command on one view leaves what another one answers as it was. -/
def Isolated [Platform] (asked : Set OutPoint) (world : World ViewHeap ViewObject) : Prop :=
  ∀ (command : ViewCommand) (other : ℕ) (view : ViewObject),
    (ViewObject.privateDomain asked).Takes command → (∀ op, command ≠ .call other op) →
    world.handles[other]? = some view → ∀ outpoint ∈ asked,
      view.get (viewMethods.step world command).2.heap outpoint = view.get world.heap outpoint

section

open ViewObject

variable [Platform] {start : ViewHeap} {asked : Set OutPoint}

private theorem isolated_of_represents {world : World ViewHeap ViewObject} {values : List Coins}
    (h : Represents (ViewObject.Shows start asked) ViewObject.Apart world values) :
    Isolated asked world :=
  fun _ _ _ htakes hother hview _ hasked =>
    (implements_private start asked).ask_other h htakes hother hview hasked

/-- **The three views are interchangeable.** An overlay over a base, an in-memory view with the
entries of the base and, on values that fit its columns, a chain state with these entries give the
same answers to every sequence of commands. What is done to a view is not seen in another one, and
the heap from before the overlay, with its base, stays as it was. -/
theorem views_interchangeable (start : ViewHeap) {base : ViewObject} (hbase : base.Within start)
    (entries : UtxoSet) (asked : Set OutPoint)
    (hentries : ∀ outpoint ∈ asked, base.get start outpoint = .ok entries[outpoint]?)
    (commands : List ViewCommand)
    (hasked : ∀ command ∈ commands, (privateDomain asked).Takes command) :
    let overlay := viewMethods.run (constructed start (newOverlay base ∅ ∅)) commands
    let memory := viewMethods.run (constructed start (newInMemory entries)) commands
    overlay.1 = memory.1 ∧
      ((∀ outpoint ∈ asked, bindOutPoint outpoint = .ok ()) →
        (∀ command ∈ commands, (storedDomain asked).Takes command) →
        (viewMethods.run ⟨{ start with utxos := .ofEntries entries }, [.chainState]⟩
          commands).1 = memory.1) ∧
      Isolated asked overlay.2 ∧ Isolated asked memory.2 ∧
      start.Extends overlay.2.heap ∧
      ∀ outpoint, base.get overlay.2.heap outpoint = base.get start outpoint := by
  intro overlay memory
  -- All three stand for the coins that the entries show.
  let coins : Coins := fun outpoint => entries[outpoint]?
  obtain ⟨heap, hnew, -, hshows⟩ := shows_newOverlay (ViewHeap.Extends.refl start) hbase ∅ ∅ coins
    fun outpoint houtpoint => by simpa using hentries outpoint houtpoint
  obtain ⟨heap', hnew', -, hshows'⟩ := shows_newInMemory (ViewHeap.Extends.refl start) entries coins
    fun outpoint (_ : outpoint ∈ asked) => rfl
  have hoverlay := (implements_private start asked).run (.singleton hshows) hasked
  have hmemory := (implements_private start asked).run (.singleton hshows') hasked
  rw [← constructed_eq hnew] at hoverlay
  rw [← constructed_eq hnew'] at hmemory
  have hkept : start.Extends overlay.2.heap := by
    obtain ⟨view, hview⟩ : ∃ view, overlay.2.handles[0]? = some view := by
      refine ⟨_, getElem?_eq_getElem (?_ : 0 < overlay.2.handles.length)⟩
      rw [hoverlay.2.length_eq]
      exact lt_of_lt_of_le Nat.one_pos (coinModel.length_le_run [coins] commands)
    obtain ⟨value, hvalue⟩ := hoverlay.2.exists_rep hview
    exact hvalue.start_kept
  refine ⟨hoverlay.1.trans hmemory.1.symm, fun hbind hstored => ?_,
    isolated_of_represents hoverlay.2, isolated_of_represents hmemory.2, hkept,
    fun outpoint => get_of_extends hkept hbase outpoint⟩
  have hrows : Stores asked { start with utxos := .ofEntries entries } .chainState coins :=
    ⟨rfl, fun outpoint houtpoint => get_ofEntries (hbind outpoint houtpoint)⟩
  exact ((implements_chainState asked).run (.singleton hrows) hstored).1.trans hmemory.1.symm

end

namespace SampleViews

open ViewObject

local instance platform : Platform := samplePlatform []

/-- **A lone surrogate.** The chain state raises where the in-memory view answers. -/
theorem lone_surrogate :
    let outpoint : OutPoint := ⟨[0xD800], 0⟩
    (viewMethods.run ⟨{}, [.chainState]⟩ [.ask 0 outpoint]).1 =
        [.raised (.value "'utf-8' codec can't encode characters: surrogates not allowed")] ∧
      (viewMethods.run (constructed {} (newInMemory ∅)) [.ask 0 outpoint]).1 = [.value none] :=
  ⟨rfl, rfl⟩

/-- An output of the chain. -/
def coin : OutPoint := ⟨hex (List.replicate 32 7), 0⟩

/-- Its entry. -/
def entry : UtxoEntry :=
  { output := { value := 50, recipient := str "CHCalice" }, height := 1, isCoinbase := true }

/-- A payment that spends it. -/
def payment : Transaction where
  version := 1
  inputs := [{ previousOutput := coin }]
  outputs := [{ value := 49, recipient := str "CHCbob" }]

/-- The payment is applied to a copy, and again to the copy; the original is asked, then the
copy. -/
def commands : List ViewCommand :=
  [.clone 0, .call 1 (.applyTransaction payment 2 false),
    .call 1 (.applyTransaction payment 3 false), .ask 0 coin, .ask 1 coin]

/-- The entries of the base. -/
def entries : UtxoSet := (∅ : UtxoSet).insert coin entry

/-- The dictionary of the base, an in-memory view. -/
def start : ViewHeap := { dicts := [entries] }

private theorem takes_commands {command : ViewCommand} :
    (privateDomain Set.univ).Takes command := by
  cases command <;> trivial

/-- The client of the overlay sees the coin in the original and not in the copy. -/
theorem answers_overlay :
    (viewMethods.run (constructed start (newOverlay (.inMemory 0) ∅ ∅)) commands).1 =
      [.done, .done, .done, .value (some entry), .value none] := by
  decide +kernel

/-- The payment is applied to the view itself; the view is asked before and after. -/
def direct : List ViewCommand :=
  [.ask 0 coin, .call 0 (.applyTransaction payment 2 false), .ask 0 coin]

private theorem answers_memory :
    (viewMethods.run (constructed start (newInMemory entries)) direct).1 =
      [.value (some entry), .done, .value none] := by
  decide +kernel

private theorem storable_payment : payment.Storable where
  inputs txInput hinput := by
    obtain rfl := List.mem_singleton.mp hinput
    decide
  outputs output houtput := by
    obtain rfl := List.mem_singleton.mp houtput
    decide
  count := by decide

private theorem takes_direct : ∀ command ∈ direct, (storedDomain {coin}).Takes command := by
  intro command hcommand
  simp only [direct, mem_cons, not_mem_nil, or_false] at hcommand
  rcases hcommand with rfl | rfl | rfl
  · exact Set.mem_singleton coin
  · exact ⟨storable_payment, by decide⟩
  · exact Set.mem_singleton coin

/-- The in-memory view answers as the overlay did when a copy is changed, and the chain state as the
in-memory view when the view itself is. -/
theorem views_interchangeable_copy :
    (viewMethods.run (constructed start (newInMemory entries)) commands).1 =
        [.done, .done, .done, .value (some entry), .value none] ∧
      start.Extends
        (viewMethods.run (constructed start (newOverlay (.inMemory 0) ∅ ∅)) commands).2.heap ∧
      (viewMethods.run ⟨{ start with utxos := .ofEntries entries }, [.chainState]⟩ direct).1 =
        [.value (some entry), .done, .value none] := by
  have hbase : (ViewObject.inMemory 0).Within start := Nat.one_pos
  obtain ⟨hsame, -, -, -, hkept, -⟩ :=
    views_interchangeable start hbase entries Set.univ (fun _ _ => rfl) commands
      fun _ _ => takes_commands
  have hprivate : ∀ command ∈ direct, (privateDomain {coin}).Takes command := by
    intro command hcommand
    simp only [direct, mem_cons, not_mem_nil, or_false] at hcommand
    rcases hcommand with rfl | rfl | rfl
    · exact Set.mem_singleton coin
    · exact True.intro
    · exact Set.mem_singleton coin
  obtain ⟨-, hstored, -⟩ :=
    views_interchangeable start hbase entries {coin} (fun _ _ => rfl) direct hprivate
  have hbind : ∀ outpoint ∈ ({coin} : Set OutPoint), bindOutPoint outpoint = .ok () := by
    rintro _ rfl
    decide
  exact ⟨hsame.symm.trans answers_overlay, hkept,
    (hstored hbind takes_direct).trans answers_memory⟩

end SampleViews

end Chipcoin
