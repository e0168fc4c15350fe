import Chipcoin.Consensus.Utxo
import Chipcoin.Lib.Objects

/-!
# UTXO views as objects

The three classes that offer a UTXO view, with the mutable state they refer to: the dictionaries and
sets that the in-memory classes own, and the table of the SQLite chain state. A view object is its
class and the references that its constructor stored; no method assigns them again, and what the
methods change are the dictionaries, the sets and the table (`ViewHeap`).

A method that raises keeps what it has changed. The statements of the chain state bind their
parameters first, and raise on an integer beyond 64 bits and on text that has no UTF-8 form.
-/

namespace Chipcoin

open Checked

/-! ### The table of unspent outputs -/

/-- A row of `utxos`; the outpoint is its primary key. -/
structure UtxoRow where
  value : Int
  recipient : PyStr
  height : Int
  isCoinbase : Int

/-- The table `utxos`. -/
abbrev UtxoTable := Std.ExtTreeMap OutPoint UtxoRow

/-- The parameters of a row. -/
def UtxoRow.ofEntry (entry : UtxoEntry) : UtxoRow where
  value := entry.output.value
  recipient := entry.output.recipient
  height := entry.height
  isCoinbase := if entry.isCoinbase then 1 else 0

/-- The entry that `get_utxo` builds from a row. -/
def UtxoRow.entry (row : UtxoRow) : UtxoEntry where
  output := { value := row.value, recipient := row.recipient }
  height := row.height.toNat
  isCoinbase := row.isCoinbase ≠ 0

/-- An integer parameter of a statement. -/
def bindInt (v : Int) : Except PyError Unit :=
  raiseIf (v < -2 ^ 63 ∨ 2 ^ 63 ≤ v)
    (.overflow "Python int too large to convert to SQLite INTEGER")

/-- A text parameter of a statement. -/
def bindText (text : PyStr) : Except PyError Unit := do
  let _ ← utf8Encode text
  return ()

/-- The parameters of the primary key. -/
def bindOutPoint (outpoint : OutPoint) : Except PyError Unit := do
  bindText outpoint.txid
  bindInt outpoint.index

/-- The parameters of the other columns. -/
def bindRow (row : UtxoRow) : Except PyError Unit := do
  bindInt row.value
  bindText row.recipient
  bindInt row.height
  bindInt row.isCoinbase

/-! ### The heap -/

/-- The mutable objects behind the views. -/
structure ViewHeap where
  dicts : List UtxoSet := []
  sets : List (Finset OutPoint) := []
  utxos : UtxoTable := ∅

namespace ViewHeap

/-- The dictionary behind a reference. -/
def dict (heap : ViewHeap) (ref : ℕ) : UtxoSet := heap.dicts[ref]?.getD ∅

/-- The set behind a reference. -/
def set (heap : ViewHeap) (ref : ℕ) : Finset OutPoint := heap.sets[ref]?.getD ∅

/-- A change of a dictionary. -/
def writeDict (heap : ViewHeap) (ref : ℕ) (f : UtxoSet → UtxoSet) : ViewHeap :=
  { heap with dicts := heap.dicts.modify ref f }

/-- A change of a set. -/
def writeSet (heap : ViewHeap) (ref : ℕ) (f : Finset OutPoint → Finset OutPoint) : ViewHeap :=
  { heap with sets := heap.sets.modify ref f }

/-- A change of the table. -/
def writeUtxos (heap : ViewHeap) (f : UtxoTable → UtxoTable) : ViewHeap :=
  { heap with utxos := f heap.utxos }

end ViewHeap

/-- A method of a view: it may raise, and keeps its changes of the heap. -/
abbrev ViewMethod := EStateM PyError ViewHeap

/-- A view object: its class, and the references its constructor stored. -/
inductive ViewObject
  /-- `InMemoryUtxoView`. -/
  | inMemory (entries : ℕ)
  /-- `OverlayUtxoView`. -/
  | overlay (base : ViewObject) (added spent : ℕ)
  /-- `SQLiteChainStateRepository`. -/
  | chainState

namespace ViewObject

/-- `InMemoryUtxoView.__init__`: the dictionary is copied. -/
def newInMemory (entries : UtxoSet) : ViewMethod ViewObject := do
  let heap ← get
  EStateM.set { heap with dicts := heap.dicts ++ [entries] }
  return .inMemory heap.dicts.length

/-- `OverlayUtxoView.__init__`: the base is kept as it is, the dictionary and the set are copied. -/
def newOverlay (base : ViewObject) (added : UtxoSet) (spent : Finset OutPoint) :
    ViewMethod ViewObject := do
  let heap ← get
  EStateM.set { heap with dicts := heap.dicts ++ [added], sets := heap.sets ++ [spent] }
  return .overlay base heap.dicts.length heap.sets.length

/-- `get`. -/
def get (heap : ViewHeap) : ViewObject → OutPoint → Except PyError (Option UtxoEntry)
  | inMemory entries, outpoint => .ok (heap.dict entries)[outpoint]?
  | overlay base added spent, outpoint =>
    if outpoint ∈ heap.set spent then .ok none
    else match (heap.dict added)[outpoint]? with
      | some entry => .ok (some entry)
      | none => get heap base outpoint
  | chainState, outpoint => do
    bindOutPoint outpoint
    return heap.utxos[outpoint]?.map UtxoRow.entry

/-- The removal of one outpoint; `spend_utxo` of the chain state. -/
def spend : ViewObject → OutPoint → ViewMethod PUnit
  | inMemory entries, outpoint => modify (·.writeDict entries (·.erase outpoint))
  | overlay _ added spent, outpoint =>
    modify fun heap =>
      (heap.writeDict added (·.erase outpoint)).writeSet spent (insert outpoint)
  | chainState, outpoint => do
    Effect.check (bindOutPoint outpoint)
    modify (·.writeUtxos (·.erase outpoint))

/-- The creation of one output; `put_utxo` of the chain state. -/
def add : ViewObject → OutPoint → UtxoEntry → ViewMethod PUnit
  | inMemory entries, outpoint, entry => modify (·.writeDict entries (·.insert outpoint entry))
  | overlay _ added spent, outpoint, entry =>
    modify fun heap =>
      (heap.writeSet spent (·.erase outpoint)).writeDict added (·.insert outpoint entry)
  | chainState, outpoint, entry => do
    Effect.check (bindOutPoint outpoint)
    Effect.check (bindRow (.ofEntry entry))
    modify (·.writeUtxos (·.insert outpoint (.ofEntry entry)))

/-- `clone`. -/
def clone : ViewObject → ViewMethod ViewObject
  | inMemory entries => do newInMemory ((← MonadState.get).dict entries)
  | overlay base added spent => do
    let heap ← MonadState.get
    newOverlay base (heap.dict added) (heap.set spent)
  | chainState =>
    throw (.runtime "Use an in-memory view for staged validation snapshots.")

end ViewObject

/-! ### Transactions and blocks -/

section

variable [Platform] {σ : Type}

/-- `apply_transaction` of every class: the inputs are removed before the identifier is computed,
which may raise. -/
def applyTransactionBy (spend : OutPoint → EStateM PyError σ PUnit)
    (add : OutPoint → UtxoEntry → EStateM PyError σ PUnit) (transaction : Transaction)
    (height : ℕ) (isCoinbase : Bool) : EStateM PyError σ PUnit := do
  forM transaction.inputs fun txInput => spend txInput.previousOutput
  let txid ← Effect.check transaction.txid
  forM (createdEntries txid transaction height isCoinbase) fun created => add created.1 created.2

/-- `apply_block` of every class. -/
def applyBlockBy (spend : OutPoint → EStateM PyError σ PUnit)
    (add : OutPoint → UtxoEntry → EStateM PyError σ PUnit) (block : Block) (height : ℕ) :
    EStateM PyError σ PUnit :=
  forM block.transactions.zipIdx fun (transaction, index) =>
    applyTransactionBy spend add transaction height (index == 0)

/-- The methods of a view that change it. -/
inductive ViewOp
  | applyTransaction (transaction : Transaction) (height : ℕ) (isCoinbase : Bool)
  | applyBlock (block : Block) (height : ℕ)

/-- A method, given how the class removes and creates outputs. -/
def ViewOp.apply (spend : OutPoint → EStateM PyError σ PUnit)
    (add : OutPoint → UtxoEntry → EStateM PyError σ PUnit) : ViewOp → EStateM PyError σ PUnit
  | .applyTransaction transaction height isCoinbase =>
    applyTransactionBy spend add transaction height isCoinbase
  | .applyBlock block height => applyBlockBy spend add block height

/-- The methods of the three classes. -/
def viewMethods :
    Objects.Methods PyError ViewHeap ViewObject ViewOp OutPoint (Option UtxoEntry) where
  call view op := op.apply view.spend view.add
  clone := ViewObject.clone
  ask heap view outpoint := view.get heap outpoint

/-- What a client of UTXO views does. -/
abbrev ViewCommand := Objects.Command ViewOp OutPoint

/-- A client that has just constructed a view. -/
def constructed (heap : ViewHeap) (program : ViewMethod ViewObject) :
    Objects.World ViewHeap ViewObject :=
  match program heap with
  | .ok view heap' => ⟨heap', [view]⟩
  | .error _ heap' => ⟨heap', []⟩

end

end Chipcoin
