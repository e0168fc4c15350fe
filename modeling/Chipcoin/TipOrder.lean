import Chipcoin.Lib.Positional
import Chipcoin.Lib.Ranking
import Chipcoin.Lib.Table
import Chipcoin.Storage.Store

/-!
# The order of the tips

The table `headers` keeps works as decimal text. Here are the statements of `find_best_tip` and
`list_candidate_tips` as SQLite runs them on the columns: they sort by the length of the text, the
text, the height and the hash, and they find leaves by a join. The store's own `findBestTip` and
`listCandidateTips`, which compare numbers, are the same functions.

* `orderBy_columns`: the order of the texts is that of the works;
* `selectBestTip_eq`, `selectCandidateTips_eq`: the statements return what the store's functions do;
* `WorkTree.isLeaf_findBestTip`: where works add up along the parents, the best header is a leaf.
-/

namespace Chipcoin

open Checked List Sorting

/-- The columns of `headers` that the statements read. -/
structure HeaderColumns where
  blockHash : PyStr
  previousBlockHash : PyStr
  height : Option ℕ
  cumulativeWork : Option PyStr

/-- The columns that `put` writes. -/
def HeaderRecord.columns (record : HeaderRecord) : HeaderColumns where
  blockHash := record.blockHash
  previousBlockHash := record.previousBlockHash
  height := record.row.height
  cumulativeWork := record.row.cumulativeWork.map fun (work : ℕ) => strOfInt work

/-- `ORDER BY LENGTH(cumulative_work) DESC, cumulative_work DESC, COALESCE(height, -1) DESC,
block_hash DESC`. -/
def orderBy : HeaderColumns → HeaderColumns → Ordering :=
  fun a b => (compareLex (compareOn fun row => row.cumulativeWork.map List.length) <|
    compareLex (compareOn HeaderColumns.cumulativeWork) <|
    compareLex (compareOn fun row => (row.height.map (Int.ofNat ·)).getD (-1))
      (compareOn HeaderColumns.blockHash)) b a

/-- One row of `headers h LEFT JOIN headers child ON child.previous_block_hash = h.block_hash`. -/
def joinChildren (table : List HeaderColumns) (row : HeaderColumns) :
    List (HeaderColumns × Option HeaderColumns) :=
  match table.filter (·.previousBlockHash = row.blockHash) with
  | [] => [(row, none)]
  | children => children.map fun child => (row, some child)

/-- `WHERE h.cumulative_work IS NOT NULL AND child.block_hash IS NULL`. -/
def whereLeaf (joined : HeaderColumns × Option HeaderColumns) : Bool :=
  joined.1.cumulativeWork.isSome && joined.2.isNone

namespace Store

variable {db : Store} {record : HeaderRecord}

/-- The rows of `headers`. -/
def headerColumns (db : Store) : List HeaderColumns :=
  db.headers.toList.map fun entry => HeaderRecord.columns ⟨entry.1, entry.2⟩

/-- `find_best_tip`, on the columns. -/
def selectBestTip (db : Store) : Option HeaderRecord :=
  (sortBy orderBy (db.headerColumns.filter (·.cumulativeWork.isSome))).head?.bind
    fun row => db.getRecord row.blockHash

/-- `list_candidate_tips`, on the columns. -/
def selectCandidateTips (db : Store) : List HeaderRecord :=
  let table := db.headerColumns
  let leaves := ((table.flatMap (joinChildren table)).filter whereLeaf).map Prod.fst
  (sortBy orderBy leaves).filterMap fun row => db.getRecord row.blockHash

/-! ### The statements compare numbers -/

private theorem strOfInt_eq_decimal (work : ℕ) : strOfInt work = Positional.decimal work := by
  have htext : toString (work : Int) = toString work := rfl
  rw [strOfInt, str, htext, Nat.toString_eq_ofList_toDigits, String.toList_ofList]
  rfl

/-- **The order of the texts is the order of the works.** -/
theorem orderBy_columns {a b : HeaderRecord} (ha : a.row.cumulativeWork.isSome)
    (hb : b.row.cumulativeWork.isSome) : orderBy a.columns b.columns = compareTips a b := by
  obtain ⟨work, hwork⟩ := Option.isSome_iff_exists.mp ha
  obtain ⟨work', hwork'⟩ := Option.isSome_iff_exists.mp hb
  have htexts := Positional.shortlex_decimal work' work
  simp only [orderBy, compareTips, compareLex, compareOn, HeaderRecord.columns, hwork, hwork',
    Option.map_some, Option.getD_some, strOfInt_eq_decimal, ← htexts, Positional.shortlex,
    Ordering.then_assoc]
  rfl

private theorem sortBy_orderBy {records : List HeaderRecord}
    (h : ∀ record ∈ records, record.row.cumulativeWork.isSome) :
    sortBy orderBy (records.map HeaderRecord.columns) =
      (sortBy compareTips records).map HeaderRecord.columns :=
  (map_sortBy_of_mem fun a ha b hb => orderBy_columns (h a ha) (h b hb)).symm

private theorem isSome_of_mem_workRecords (h : record ∈ db.workRecords) :
    record.row.cumulativeWork.isSome :=
  (List.mem_filter.mp h).2

/-- Every row is read back as it was found. -/
theorem getRecord_of_mem (h : record ∈ db.workRecords) :
    db.getRecord record.columns.blockHash = some record := by
  show db.getRecord record.blockHash = some record
  rw [getRecord, workRecords_row h]
  rfl

private theorem filter_headerColumns :
    db.headerColumns.filter (·.cumulativeWork.isSome) =
      db.workRecords.map HeaderRecord.columns := by
  rw [headerColumns, workRecords, filter_map, filter_map, map_map]
  congr 1
  exact filter_congr fun entry _ => Option.isSome_map

theorem selectBestTip_eq (db : Store) : db.selectBestTip = db.findBestTip := by
  rw [selectBestTip, filter_headerColumns, sortBy_orderBy fun _ => isSome_of_mem_workRecords,
    findBestTip, head?_map]
  cases h : (sortBy compareTips db.workRecords).head? with
  | none => rfl
  | some best => exact getRecord_of_mem (mem_sortBy.mp (mem_of_mem_head? h))

/-- The join keeps the rows that no row of the table names as its parent. -/
theorem filter_joinChildren (table rows : List HeaderColumns) :
    ((rows.flatMap (joinChildren table)).filter whereLeaf).map Prod.fst =
      (rows.filter (·.cumulativeWork.isSome)).filter fun row =>
        !table.any (·.previousBlockHash = row.blockHash) := by
  induction rows with
  | nil => rfl
  | cons row rest ih =>
    rw [flatMap_cons, filter_append, map_append, ih, filter_filter, filter_filter, filter_cons]
    cases hany : table.any (·.previousBlockHash = row.blockHash) with
    | false =>
      rw [joinChildren, List.filter_eq_nil_iff.mpr (List.any_eq_false.mp hany)]
      cases hwork : row.cumulativeWork.isSome <;> simp [whereLeaf, hwork]
    | true =>
      obtain ⟨child, hchild, hparent⟩ := List.any_eq_true.mp hany
      -- Each of the joined rows has a child.
      have hnone : (joinChildren table row).filter whereLeaf = [] := by
        unfold joinChildren
        split
        · next hnil => exact absurd hparent (List.filter_eq_nil_iff.mp hnil child hchild)
        · refine List.filter_eq_nil_iff.mpr fun joined hjoined => ?_
          obtain ⟨child, -, rfl⟩ := List.mem_map.mp hjoined
          simp [whereLeaf]
      rw [hnone]
      rfl

theorem selectCandidateTips_eq (db : Store) :
    db.selectCandidateTips = db.listCandidateTips := by
  have hleaf : ((fun row => !db.headerColumns.any (·.previousBlockHash = row.blockHash)) ∘
      HeaderRecord.columns) = fun record => !db.headers.toList.any fun entry =>
        entry.2.header.previousBlockHash = record.blockHash := by
    funext record
    rw [Function.comp_apply, headerColumns, any_map]
    rfl
  rw [selectCandidateTips, filter_joinChildren, filter_headerColumns, filter_map, hleaf,
    sortBy_orderBy fun _ hmem => isSome_of_mem_workRecords (mem_of_mem_filter hmem),
    filterMap_map, ← listCandidateTips]
  refine (filterMap_congr fun record hmem => ?_).trans filterMap_some
  exact getRecord_of_mem (mem_of_mem_filter (mem_sortBy.mp hmem))

/-! ### Leaves -/

private theorem mem_workRecords : record ∈ db.workRecords ↔
    db.headers[record.blockHash]? = some record.row ∧ record.row.cumulativeWork.isSome := by
  refine ⟨fun h => ⟨workRecords_row h, isSome_of_mem_workRecords h⟩, fun h => ?_⟩
  rw [workRecords, mem_filter, mem_map]
  exact ⟨⟨_, Std.ExtTreeMap.mem_toList_iff_getElem?_eq_some.mpr h.1, rfl⟩, h.2⟩

/-- Rows of equal rank have the same hash, and there is one row for each hash. -/
theorem separates_workRecords : Separates compareTips db.workRecords := by
  rintro ⟨hash, row⟩ ha ⟨hash', row'⟩ hb h
  have hlast := (Ordering.then_eq_eq.mp (Ordering.then_eq_eq.mp h).2).2
  obtain rfl : hash' = hash := Std.LawfulEqCmp.eq_of_compare hlast
  obtain rfl : row = row' := Option.mem_unique (workRecords_row ha) (workRecords_row hb)
  rfl

private theorem nodup_workRecords : db.workRecords.Nodup := by
  refine List.Nodup.filter _ (List.Nodup.map ?_ (Table.nodup_keys db.headers).of_map)
  rintro ⟨hash, row⟩ ⟨hash', row'⟩ h
  cases h
  rfl

/-- A stored row that no stored row names as its parent. -/
def IsLeaf (db : Store) (record : HeaderRecord) : Prop :=
  db.headers[record.blockHash]? = some record.row ∧
    ∀ (key : PyStr) (row : HeaderRow), db.headers[key]? = some row →
      row.header.previousBlockHash ≠ record.blockHash

private theorem mem_listCandidateTips : record ∈ db.listCandidateTips ↔
    db.IsLeaf record ∧ record.row.cumulativeWork.isSome := by
  have hchild : (!db.headers.toList.any fun entry =>
      entry.2.header.previousBlockHash = record.blockHash) ↔
      ∀ (key : PyStr) (row : HeaderRow), db.headers[key]? = some row →
        row.header.previousBlockHash ≠ record.blockHash := by
    simp [Std.ExtTreeMap.mem_toList_iff_getElem?_eq_some]
  rw [listCandidateTips, mem_sortBy, mem_filter, mem_workRecords, hchild, IsLeaf, and_right_comm]

/-- **Works add up along the parents**, and every row has bits that say how much it adds. -/
structure WorkTree (db : Store) : Prop where
  bits : ∀ {key : PyStr} {row : HeaderRow}, db.headers[key]? = some row →
    ∃ target, bitsToTarget row.header.bits = .ok target ∧ target < 2 ^ 256
  sums : ∀ {key : PyStr} {row parent : HeaderRow} {parentWork work : ℕ},
    db.headers[key]? = some row → db.headers[row.header.previousBlockHash]? = some parent →
    parent.cumulativeWork = some parentWork → headerWork row.header = .ok work →
    row.cumulativeWork = some (parentWork + work)

/-- A target below `2 ^ 256` is worth some work. -/
theorem WorkTree.exists_work (tree : WorkTree db) {key : PyStr} {row : HeaderRow}
    (h : db.headers[key]? = some row) : ∃ work, headerWork row.header = .ok work ∧ 0 < work := by
  obtain ⟨target, htarget, hlt⟩ := tree.bits h
  refine ⟨_, by rw [headerWork, htarget]; rfl, ?_⟩
  exact Nat.div_pos hlt (Nat.succ_pos target)

/-- **The best header is a leaf**: a child would have more work. -/
theorem WorkTree.isLeaf_findBestTip (tree : WorkTree db) {best : HeaderRecord}
    (h : db.findBestTip = some best) : db.IsLeaf best := by
  have hbest := findBestTip_row h
  refine ⟨hbest, fun key row hrow hparent => ?_⟩
  obtain ⟨parentWork, hparentWork⟩ := Option.isSome_iff_exists.mp
    (isSome_of_mem_workRecords (mem_sortBy.mp (mem_of_mem_head? h)))
  obtain ⟨work, hwork, hpos⟩ := tree.exists_work hrow
  have hsum := tree.sums hrow (hparent ▸ hbest) hparentWork hwork
  obtain ⟨best', hbest', hle⟩ := @le_work_findBestTip ⟨key, row⟩ db hrow (by simp [hsum])
  obtain rfl := Option.mem_unique h hbest'
  rw [hsum, hparentWork] at hle
  exact absurd hle (Nat.not_le.mpr (Nat.lt_add_of_pos_right hpos))

/-- **Works stored as text are compared as numbers.** Where every row has a work, the statements
sort by work, height and hash, descending; the best tip has the most work; if works add up along
the parents, it is a leaf and the first candidate; and the candidates are the leaves, each once. -/
theorem workOrder_numeric (db : Store)
    (works : ∀ (key : PyStr) (row : HeaderRow), db.headers[key]? = some row →
      row.cumulativeWork.isSome) :
    (∀ records : List HeaderRecord, (∀ record ∈ records, record.row.cumulativeWork.isSome) →
      sortBy orderBy (records.map HeaderRecord.columns) =
        (sortBy compareTips records).map HeaderRecord.columns) ∧
    (∀ record : HeaderRecord, db.headers[record.blockHash]? = some record.row →
      ∃ best, db.selectBestTip = some best ∧
        db.headers[best.blockHash]? = some best.row ∧
        record.row.cumulativeWork.getD 0 ≤ best.row.cumulativeWork.getD 0) ∧
    (db.WorkTree → ∀ best, db.selectBestTip = some best →
      db.IsLeaf best ∧ db.selectCandidateTips.head? = some best) ∧
    db.selectCandidateTips.Nodup ∧
    ∀ record, record ∈ db.selectCandidateTips ↔ db.IsLeaf record := by
  rw [selectBestTip_eq, selectCandidateTips_eq]
  refine ⟨fun records h => sortBy_orderBy h, ?_, ?_, ?_, ?_⟩
  · intro record hstored
    obtain ⟨best, hbest, hle⟩ := le_work_findBestTip hstored (works _ _ hstored)
    exact ⟨best, hbest, findBestTip_row hbest, hle⟩
  · intro tree best hbest
    have hleaf := tree.isLeaf_findBestTip hbest
    refine ⟨hleaf, head?_sortBy_filter separates_workRecords hbest ?_⟩
    have hmem := mem_listCandidateTips.mpr ⟨hleaf, works _ _ hleaf.1⟩
    exact (List.mem_filter.mp (mem_sortBy.mp hmem)).2
  · exact (sortBy_perm _).nodup_iff.mpr (nodup_workRecords.filter _)
  · intro record
    rw [mem_listCandidateTips]
    exact and_iff_left_of_imp fun hleaf => works _ _ hleaf.1

end Store

/-! ### A sample -/

namespace SampleTips

/-- A row of the least work there is. -/
def lightRow (previousBlockHash : PyStr) (work : ℕ) : HeaderRow where
  header := ⟨1, previousBlockHash, [], 0, 0x2100FFFF, 0⟩
  height := none
  cumulativeWork := some work
  isMainChain := false

/-- A header of work 9 and its child, of work 10. -/
def parentAndChild : Store :=
  { Store.empty with
    headers := (Std.ExtTreeMap.empty.insert (str "a") (lightRow zeroHash 9)).insert (str "b")
      (lightRow (str "a") 10) }

private theorem stored {key : PyStr} {found : HeaderRow}
    (h : parentAndChild.headers[key]? = some found) :
    key = str "b" ∧ found = lightRow (str "a") 10 ∨
      key = str "a" ∧ found = lightRow zeroHash 9 := by
  rw [parentAndChild, Std.ExtTreeMap.getElem?_insert] at h
  split_ifs at h with hb
  · exact .inl ⟨(Std.LawfulEqCmp.eq_of_compare hb).symm, (Option.some.inj h).symm⟩
  rw [Std.ExtTreeMap.getElem?_insert] at h
  split_ifs at h with ha
  · exact .inr ⟨(Std.LawfulEqCmp.eq_of_compare ha).symm, (Option.some.inj h).symm⟩
  cases h

private theorem workTree : parentAndChild.WorkTree where
  bits h := by
    refine ⟨0xFFFF * 2 ^ 240, ?_, by decide⟩
    obtain ⟨-, rfl⟩ | ⟨-, rfl⟩ := stored h <;> decide
  sums h hparent hwork hown := by
    obtain ⟨-, rfl⟩ | ⟨-, rfl⟩ := stored h
    · obtain ⟨hkey, -⟩ | ⟨-, rfl⟩ := stored hparent
      · exact absurd hkey (by decide)
      obtain rfl := Option.some.inj hwork
      have hone : headerWork (lightRow (str "a") 10).header = .ok 1 := by decide
      obtain rfl := ok_unique hone hown
      rfl
    · obtain ⟨hkey, -⟩ | ⟨hkey, -⟩ := stored hparent <;> exact absurd hkey (by decide)

/-- The text `9` comes after the text `10`, and the child is the best tip all the same. -/
theorem workOrder_numeric_ten : ∃ best, parentAndChild.selectBestTip = some best ∧
    parentAndChild.selectCandidateTips.head? = some best ∧ 10 ≤ best.row.cumulativeWork.getD 0 := by
  obtain ⟨-, hmost, hfirst, -⟩ := Store.workOrder_numeric parentAndChild fun key found h => by
    obtain ⟨-, rfl⟩ | ⟨-, rfl⟩ := stored h <;> rfl
  obtain ⟨best, hbest, -, hle⟩ := hmost ⟨str "b", lightRow (str "a") 10⟩ (by decide)
  exact ⟨best, hbest, (hfirst workTree best hbest).2, hle⟩

end SampleTips

end Chipcoin
