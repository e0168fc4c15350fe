import Chipcoin.Node.SyncRun

/-!
# The tip that is activated

`activate_best_chain_if_ready` activates what `best_ready_tip` finds: the last header of a candidate
path up to which all bodies are there.

* `HeaderTree.chosenTip_ready`: the path of the chosen tip is downloaded, and nothing on it is
  quarantined.
* `activeChain_ready`: along runs, the same holds of the active chain.
-/

namespace Chipcoin

open Checked Forest List

/-! ### Ready parts of a path -/

/-- A header whose path contains the snapshot anchor, if there is one, and has all bodies above
it. -/
structure Store.Ready (store : Store) (blockHash : PyStr) (path above : List PyStr) : Prop where
  path_eq : store.HeaderPath blockHash path
  above_eq : store.aboveAnchor path = some above
  bodies : ∀ inner ∈ above, store.blocks[inner]?.isSome

/-- The last element up to which a condition holds. -/
theorem exists_of_getLast?_takeWhile {α : Type} {p : α → Bool} {list : List α} {last : α}
    (h : (list.takeWhile p).getLast? = some last) :
    ∃ front back, list = front ++ last :: back ∧ ∀ x ∈ front ++ [last], p x := by
  obtain ⟨front, hfront⟩ := List.getLast?_eq_some_iff.mp h
  refine ⟨front, list.dropWhile p, ?_, fun x hx => ?_⟩
  · rw [← singleton_append, ← append_assoc, ← hfront, takeWhile_append_dropWhile]
  · exact mem_takeWhile_imp (hfront ▸ hx)

variable {db : Store}

namespace Store

theorem aboveAnchor_sublist {path above : List PyStr} (h : db.aboveAnchor path = some above) :
    above.Sublist path := by
  rw [Store.aboveAnchor] at h
  split at h
  · exact Option.some.inj h ▸ List.Sublist.refl _
  · split_ifs at h
    exact Option.some.inj h ▸ drop_sublist _ _

private theorem headerPath_insertHeader {row : HeaderRow} {blockHash tipHash : PyStr}
    {path : List PyStr} (fresh : db.headers[blockHash]? = none) (h : db.HeaderPath tipHash path) :
    (db.insertHeader blockHash row).HeaderPath tipHash path := by
  refine h.mono fun key parent hlink => ?_
  obtain ⟨old, hold, rfl⟩ := up_eq_some.mp hlink
  refine up_of_row ?_
  rw [insertHeader, Table.getElem?_insert, if_neg fun heq => ?_, hold]
  rw [heq, fresh] at hold
  cases hold

/-- **The ready part of a path** is a header of the path that is itself ready. -/
theorem ready_of_readyPrefix {blockHash readyTip : PyStr} {path above : List PyStr}
    (hpath : db.HeaderPath blockHash path) (habove : db.aboveAnchor path = some above)
    (h : db.readyPrefix above = some readyTip) :
    ∃ path' above', db.Ready readyTip path' above' ∧ above' ⊆ above := by
  rw [readyPrefix, Option.or_eq_some_iff] at h
  rcases h with hlast | ⟨hnone, hanchor⟩
  · obtain ⟨front, back, rfl, hbodies⟩ := exists_of_getLast?_takeWhile hlast
    have hsubset : front ++ [readyTip] ⊆ front ++ readyTip :: back := by simp
    cases hsnapshot : db.snapshotAnchor with
    | none =>
      obtain rfl : path = front ++ readyTip :: back := by simpa [aboveAnchor, hsnapshot] using
        habove
      exact ⟨_, _, ⟨hpath.split rfl, by simp [aboveAnchor, hsnapshot], hbodies⟩, hsubset⟩
    | some anchor =>
      simp only [aboveAnchor, hsnapshot] at habove
      split_ifs at habove with hon
      have hdrop := Option.some.inj habove
      have hsplit : path = (path.take (anchor.height + 1) ++ front) ++ readyTip :: back := by
        rw [append_assoc, ← hdrop, take_append_drop]
      obtain ⟨hlt, -⟩ := List.getElem?_eq_some_iff.mp hon
      have hlength : (path.take (anchor.height + 1)).length = anchor.height + 1 :=
        length_take_of_le hlt
      refine ⟨_, front ++ [readyTip], ⟨hpath.split hsplit, ?_, hbodies⟩, hsubset⟩
      have hstill : (path.take (anchor.height + 1) ++ front ++ [readyTip])[anchor.height]? =
          some anchor.blockHash := by
        rw [append_assoc, getElem?_append_left (by omega), getElem?_take_of_lt (by omega), hon]
      simp only [aboveAnchor, hsnapshot, if_pos hstill]
      rw [append_assoc, drop_append_of_le_length hlength.ge, drop_eq_nil_of_le hlength.le,
        nil_append]
  · -- Nothing above the anchor is there: the anchor itself is ready.
    obtain ⟨anchor, hsnapshot, rfl⟩ := Option.map_eq_some_iff.mp hanchor
    simp only [aboveAnchor, hsnapshot] at habove
    split_ifs at habove with hon
    obtain ⟨hlt, hget⟩ := List.getElem?_eq_some_iff.mp hon
    have hsplit : path = path.take anchor.height ++
        anchor.blockHash :: path.drop (anchor.height + 1) := by
      rw [← hget, getElem_cons_drop, take_append_drop]
    have hlength : (path.take anchor.height).length = anchor.height :=
      length_take_of_le hlt.le
    refine ⟨_, [], ⟨hpath.split hsplit, ?_, by simp⟩, by simp⟩
    have hstill : (path.take anchor.height ++ [anchor.blockHash])[anchor.height]? =
        some anchor.blockHash := by
      rw [getElem?_append_right hlength.le, hlength]
      simp
    simp only [aboveAnchor, hsnapshot, if_pos hstill]
    rw [drop_eq_nil_of_le (by simp [hlength])]

end Store

private theorem TipMove.ready {db' : Store} {tipHash blockHash : PyStr} {path above : List PyStr}
    (move : TipMove db tipHash db') (ready : db.Ready blockHash path above) :
    db'.Ready blockHash path above := by
  refine ⟨?_, ?_, move.blocks ▸ ready.bodies⟩
  · rw [Store.HeaderPath, move.up]
    exact ready.path_eq
  · rw [Store.aboveAnchor, move.anchor]
    exact ready.above_eq

section

variable [Platform] {known : Set BlockHeader} {Fit : List BlockHeader → BlockHeader → Prop}

/-- What the loop of `best_ready_tip` returns for some candidate. -/
theorem HeaderTree.ready_of_bestReadyTip (tree : HeaderTree known Fit db)
    {invalid : Std.ExtTreeMap PyStr PyError} {readyTip : PyStr}
    (h : db.bestReadyTip invalid = .ok (some readyTip)) :
    ∃ path above, db.Ready readyTip path above ∧ ∀ inner ∈ above, inner ∉ invalid := by
  rw [Store.bestReadyTip] at h
  have hstored : ∀ candidate ∈ db.listCandidateTips,
      db.headers[candidate.blockHash]? = some candidate.row :=
    fun _ hmem => Store.listCandidateTips_row hmem
  generalize db.listCandidateTips = candidates at h hstored
  induction candidates with
  | nil => cases h
  | cons candidate rest ih =>
    obtain ⟨found, hfound, h⟩ := bind_eq_ok.mp h
    cases found with
    | none => exact ih h (forall_mem_of_forall_mem_cons hstored)
    | some found =>
      obtain rfl := Option.some.inj (pure_eq_ok.mp h)
      -- The tests of a candidate, in the order of the source.
      rw [Store.candidateReadyTip] at hfound
      split_ifs at hfound with hneeds
      · cases hfound
      obtain ⟨path, hroot, hfound⟩ := bind_eq_ok.mp hfound
      have hsome := pure_eq_ok.mp hfound
      simp only [Option.bind_eq_bind, Option.bind_eq_some_iff] at hsome
      obtain ⟨above, habove, hsome⟩ := hsome
      split_ifs at hsome with hquarantined
      obtain ⟨ready, hready, hsome⟩ := Option.bind_eq_some_iff.mp hsome
      split_ifs at hsome with hinvalid
      obtain ⟨record, -, hsome⟩ := Option.bind_eq_some_iff.mp hsome
      split_ifs at hsome
      obtain rfl := Option.some.inj hsome
      -- The ready part is cut from the path, so what is not quarantined above is not in it.
      obtain ⟨path', hpath⟩ := tree.exists_headerPath (hstored candidate mem_cons_self)
      obtain rfl := ok_unique (tree.pathToRoot hpath) hroot
      obtain ⟨readyPath, readyAbove, hpart, hsubset⟩ :=
        Store.ready_of_readyPrefix hpath habove hready
      refine ⟨readyPath, readyAbove, hpart, fun inner hinner hmem => hquarantined ?_⟩
      exact List.any_eq_true.mpr ⟨inner, hsubset hinner, by simpa using hmem⟩

/-- **The chosen tip** is downloaded and nothing above the anchor on its path is quarantined. -/
theorem HeaderTree.chosenTip_ready {state : SyncState} (tree : HeaderTree known Fit state.store)
    {record : HeaderRecord} (h : chosenTip state = .ok (some record)) :
    ∃ path above, state.store.Ready record.blockHash path above ∧
      ∀ inner ∈ above, inner ∉ state.invalidActivationTips :=
  tree.ready_of_bestReadyTip (chosenTip_row h).2.2

/-! ### The active chain -/

/-- The active chain is ready. Unless an activation has moved the tip and then raised, nothing on it
above the anchor is quarantined. -/
def SyncState.ActiveReady (state : SyncState) : Prop :=
  ∀ tipHash, state.store.chainTipHash = some tipHash →
    ∃ path above, state.store.Ready tipHash path above ∧
      ((∀ activation ∈ state.activations, activation.raised.isSome →
        activation.after.getTip = activation.before.getTip) →
      ∀ inner ∈ above, inner ∉ state.invalidActivationTips)

theorem HeaderTree.getTip_eq (tree : HeaderTree known Fit db) {tipHash : PyStr}
    (htip : db.chainTipHash = some tipHash) :
    ∃ height, db.getTip = some ⟨tipHash, height⟩ := by
  obtain ⟨row, hrow⟩ := tree.tip htip
  obtain ⟨height, hheight, -⟩ := tree.exists_height hrow
  exact ⟨height, Store.getTip_eq_some.mpr ⟨htip, row, hrow, hheight⟩⟩

/-- **One step** keeps the active chain ready. -/
theorem SyncStep.activeReady {manager : SyncManager} {Announced : BlockHeader → Prop}
    {Received : Block → Prop} {state state' : SyncState} (clean : CleanHashes known)
    (tree : HeaderTree known Fit state.store)
    (step : SyncStep manager Announced Received state state') (h : state.ActiveReady) :
    state'.ActiveReady := by
  intro tipHash htip
  cases step with
  | header _ _ fresh | blockHeader _ _ fresh =>
    obtain ⟨path, above, ready, hclear⟩ := h tipHash htip
    exact ⟨path, above, ⟨Store.headerPath_insertHeader fresh ready.path_eq, ready.above_eq,
      ready.bodies⟩, hclear⟩
  | body =>
    obtain ⟨path, above, ready, hclear⟩ := h tipHash htip
    refine ⟨path, above, ⟨ready.path_eq, ready.above_eq, fun inner hinner => ?_⟩, hclear⟩
    rw [Store.insertBody, Table.getElem?_insert]
    split_ifs
    · rfl
    · exact ready.bodies inner hinner
  | remember | take => exact h tipHash htip
  | activate chosen run =>
    have move := tree.of_activation clean (chosenTip_row chosen).1 run
    rcases move.tip with hsame | hmoved
    · obtain ⟨path, above, ready, hclear⟩ := h tipHash (hsame ▸ htip)
      exact ⟨path, above, move.ready ready,
        fun kept => hclear fun activation hmem => kept activation (.tail _ hmem)⟩
    · -- The tip is now the chosen one, whose path was not quarantined.
      obtain ⟨path, above, ready, hclear⟩ := tree.chosenTip_ready chosen
      obtain rfl := Option.some.inj (hmoved.symm.trans htip)
      exact ⟨path, above, move.ready ready, fun _ => hclear⟩
  | quarantine last after_eq raised caught current =>
    obtain ⟨path, above, ready, hclear⟩ := h tipHash htip
    refine ⟨path, above, ready, fun kept inner hinner hmem => ?_⟩
    -- The tip has not moved, so the path that is spared is that of the active chain.
    rw [← kept _ (last ▸ mem_cons_self) (by simp [raised]), after_eq] at current
    obtain ⟨height, hget⟩ := tree.getTip_eq htip
    rw [hget] at current
    obtain rfl := ok_unique (tree.pathToRoot ready.path_eq) current
    rcases Table.mem_foldl_insert.mp hmem with hnew | hold
    · simp [(Store.aboveAnchor_sublist ready.above_eq).subset hinner] at hnew
    · exact hclear kept inner hinner hold

/-- **The active chain is downloaded and not quarantined**, on a node that was empty or had the
tables of a snapshot, after any calls. -/
theorem activeChain_ready (manager : SyncManager) {start : Store} (calls : List Call)
    (clean : CleanHashes known) (tables : HeaderTree known AnyHeader start)
    (hknown : delivered calls ⊆ known) (h : (SyncState.on start).ActiveReady) :
    (manager.runOn start calls).ActiveReady :=
  SyncRun.invariant clean (fitsTree_anyHeader hknown) tables
    (manager.foldl_call_syncRun calls rfl) (fun tree step => step.activeReady clean tree) h

end

end Chipcoin
