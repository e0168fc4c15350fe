import Chipcoin.Lib.Forest
import Chipcoin.Lib.Table
import Chipcoin.Node.Frame
import Chipcoin.Node.Sync
import Chipcoin.Storage.Path

/-!
# The header table as a tree

Headers enter the table with the height and work of their parent's row plus their own, so the rows
form a forest of which heights are the ranks. Activating a chain rewrites rows, but only their
main-chain flag changes.

* `HeaderTree`: the invariant of the header and block tables, for headers from a set `known` on
  which hashes do not collide, each of which satisfies a given condition relative to its ancestors.
* `HeaderTree.pathToRoot`: `path_to_root` returns the path of a stored header.
* `HeaderTree.insertHeader`, `HeaderTree.insertBody`: what the sync manager adds.
* `TipMove`, `activateChain_tipMove`: what an activation changes, whether it returns or raises.
-/

namespace Chipcoin

open Checked Database Forest List

variable {db db' : Store} {headers : Std.ExtTreeMap PyStr HeaderRow} {row row' : HeaderRow}
  {blockHash key tipHash : PyStr} {path : List PyStr} {block : Block} {height : ℕ}

/-! ### Rows and paths -/

namespace Store

/-- The parent link of a stored header. -/
def up (store : Store) (blockHash : PyStr) : Option PyStr :=
  store.headers[blockHash]?.map (·.header.previousBlockHash)

/-- The ancestors of a stored header, from a first block to itself. -/
abbrev HeaderPath (store : Store) : PyStr → List PyStr → Prop := Path store.up zeroHash

/-- The ancestors of a header under a stored parent, or under none. -/
def Under (store : Store) (parentHash : PyStr) (path : List PyStr) : Prop :=
  if parentHash = zeroHash then path = [] else store.HeaderPath parentHash path

/-- The headers along a path. -/
def headersOn (store : Store) (path : List PyStr) : List BlockHeader :=
  path.filterMap store.getHeader

/-- The height of a stored header. -/
def rank (store : Store) (blockHash : PyStr) : ℕ :=
  (store.headers[blockHash]?.bind (·.height)).getD 0

theorem up_eq_some {parentHash : PyStr} :
    db.up blockHash = some parentHash ↔
      ∃ row, db.headers[blockHash]? = some row ∧ row.header.previousBlockHash = parentHash := by
  simp [up, Option.map_eq_some_iff]

theorem up_of_row (h : db.headers[blockHash]? = some row) :
    db.up blockHash = some row.header.previousBlockHash := by
  simp [up, h]

theorem getHeader_of_row (h : db.headers[blockHash]? = some row) :
    db.getHeader blockHash = some row.header := by
  simp [getHeader, h]

theorem HeaderPath.exists_row {inner : PyStr} (h : db.HeaderPath blockHash path)
    (hmem : inner ∈ path) : ∃ row, db.headers[inner]? = some row := by
  obtain ⟨parent, hparent⟩ := Option.isSome_iff_exists.mp (h.up_isSome hmem)
  obtain ⟨row, hrow, -⟩ := up_eq_some.mp hparent
  exact ⟨row, hrow⟩

end Store

/-- The height and work of a row, in terms of its parent's. -/
inductive RowLinked (headers : Std.ExtTreeMap PyStr HeaderRow) (row : HeaderRow) : Prop
  | root {work : ℕ} (first : row.header.previousBlockHash = zeroHash)
      (own : headerWork row.header = .ok work) (height : row.height = some 0)
      (total : row.cumulativeWork = some work)
  | child {parent : HeaderRow} {parentHeight parentWork work : ℕ}
      (inner : row.header.previousBlockHash ≠ zeroHash)
      (stored : headers[row.header.previousBlockHash]? = some parent)
      (parentHeight_eq : parent.height = some parentHeight)
      (parentWork_eq : parent.cumulativeWork = some parentWork)
      (own : headerWork row.header = .ok work) (height : row.height = some (parentHeight + 1))
      (total : row.cumulativeWork = some (parentWork + work))

variable {work : ℕ} {header : BlockHeader} {headers' : Std.ExtTreeMap PyStr HeaderRow}

private theorem pathLoop_eq {fuel : ℕ} {acc : List PyStr} (h : db.HeaderPath blockHash path)
    (hne : ∀ key ∈ path, key ≠ []) (hfuel : path.length ≤ fuel) :
    db.pathLoop fuel blockHash acc = .ok (path ++ acc) := by
  induction h generalizing fuel acc with
  | @root key link =>
    obtain ⟨row, hrow, hfirst⟩ := Store.up_eq_some.mp link
    obtain ⟨fuel, rfl⟩ : ∃ n, fuel = n + 1 := ⟨fuel - 1, by simp at hfuel; omega⟩
    rw [Store.pathLoop, if_neg (by simpa using hne key (by simp)), hrow]
    simp [hfirst]
  | @child key parent path link hinner tail ih =>
    obtain ⟨row, hrow, rfl⟩ := Store.up_eq_some.mp link
    rw [length_append, length_singleton] at hfuel
    obtain ⟨fuel, rfl⟩ : ∃ n, fuel = n + 1 := ⟨fuel - 1, by omega⟩
    rw [Store.pathLoop, if_neg (by simpa using hne key (by simp)), hrow]
    dsimp only
    rw [if_neg hinner, ih (fun k hk => hne k (by simp [hk])) (by omega)]
    simp

private theorem headersOn_congr (h : ∀ key ∈ path, db'.getHeader key = db.getHeader key) :
    db'.headersOn path = db.headersOn path :=
  filterMap_congr h

/-- More rows leave the path of a stored header as it is. -/
theorem HeaderTree.headerPath_extend
    (hextends : ∀ (key : PyStr) (row : HeaderRow), db.headers[key]? = some row →
      db'.headers[key]? = some row) {path' : List PyStr} (h : db.HeaderPath blockHash path)
    (h' : db'.HeaderPath blockHash path') :
    path' = path ∧ db'.headersOn path = db.headersOn path := by
  have hup : ∀ key parent, db.up key = some parent → db'.up key = some parent := by
    intro key parent hlink
    obtain ⟨row, hrow, rfl⟩ := Store.up_eq_some.mp hlink
    exact Store.up_of_row (hextends key row hrow)
  refine ⟨h'.unique (h.mono hup), headersOn_congr fun key hkey => ?_⟩
  obtain ⟨row, hrow⟩ := Store.HeaderPath.exists_row h hkey
  rw [Store.getHeader_of_row hrow, Store.getHeader_of_row (hextends key row hrow)]

private theorem rowLinked_extend (h : RowLinked headers row)
    (hextends : ∀ (key : PyStr) (row : HeaderRow), headers[key]? = some row →
      headers'[key]? = some row) : RowLinked headers' row := by
  cases h with
  | root first own height total => exact .root first own height total
  | child inner stored parentHeight_eq parentWork_eq own height total =>
    exact .child inner (hextends _ _ stored) parentHeight_eq parentWork_eq own height total

theorem Store.getTip_eq_some {tip : ChainTip} :
    db.getTip = some tip ↔ db.chainTipHash = some tip.blockHash ∧
      ∃ row, db.headers[tip.blockHash]? = some row ∧ row.height = some tip.height := by
  simp only [getTip, Option.bind_eq_bind, Option.bind_eq_some_iff]
  constructor
  · rintro ⟨blockHash, hhash, row, hrow, height, hheight, h⟩
    cases h
    exact ⟨hhash, row, hrow, hheight⟩
  · rintro ⟨hhash, row, hrow, hheight⟩
    exact ⟨tip.blockHash, hhash, row, hrow, tip.height, hheight, rfl⟩

private theorem preserves_setTip {Inv : Store → Prop}
    (htip : ∀ db, Inv db → Inv { db with chainTipHash := some blockHash })
    (hrow : ∀ db, Inv db → Inv { db with
      headers := db.headers.modify blockHash fun row =>
        { row with height := some height, isMainChain := true } }) :
    (setTip blockHash height).Preserves Inv :=
  preserves_transact ((preserves_update htip).bind fun _ => preserves_update hrow)

section

variable [Platform]

/-- A set of headers on which hashes do not collide, and none of which has the zero hash. -/
structure CleanHashes (known : Set BlockHeader) : Prop where
  injective : ∀ a ∈ known, ∀ b ∈ known, ∀ blockHash, a.blockHash = .ok blockHash →
    b.blockHash = .ok blockHash → a = b
  nonzero : ∀ a ∈ known, a.blockHash ≠ .ok zeroHash

/-- The invariant of the header and block tables. -/
structure HeaderTree (known : Set BlockHeader) (Fit : List BlockHeader → BlockHeader → Prop)
    (store : Store) : Prop where
  hashed : ∀ {blockHash : PyStr} {row : HeaderRow}, store.headers[blockHash]? = some row →
    row.header.blockHash = .ok blockHash ∧ row.header ∈ known
  linked : ∀ {blockHash : PyStr} {row : HeaderRow}, store.headers[blockHash]? = some row →
    RowLinked store.headers row
  /-- Each header satisfies the condition relative to its ancestors. -/
  fits : ∀ {blockHash : PyStr} {row : HeaderRow} {path : List PyStr}, store.headers[blockHash]? =
    some row →
    store.HeaderPath blockHash (path ++ [blockHash]) → Fit (store.headersOn path) row.header
  bodies : ∀ {blockHash : PyStr} {block : Block}, store.blocks[blockHash]? = some block →
    block.blockHash = .ok blockHash ∧ block.header ∈ known ∧
      ∃ row, store.headers[blockHash]? = some row
  tip : ∀ {blockHash : PyStr}, store.chainTipHash = some blockHash →
    ∃ row, store.headers[blockHash]? = some row

private theorem blockHash_ne_nil (h : header.blockHash = .ok blockHash) : blockHash ≠ [] := by
  obtain ⟨bytes, -, h⟩ := bind_eq_ok.mp h
  obtain rfl := pure_eq_ok.mp h
  rw [doubleSha256Hex]
  have hlength := length_doubleSha256 bytes
  cases hdigest : doubleSha256 bytes with
  | nil => simp [hdigest] at hlength
  | cons byte rest => simp [hex]

namespace HeaderTree

variable {known : Set BlockHeader} {Fit : List BlockHeader → BlockHeader → Prop} {db : Store}

section

variable (tree : HeaderTree known Fit db)
include tree

theorem exists_height (hrow : db.headers[blockHash]? = some row) :
    ∃ height, row.height = some height ∧ db.rank blockHash = height := by
  obtain ⟨height, hheight⟩ : ∃ height, row.height = some height := by
    cases tree.linked hrow with
    | root _ _ height _ => exact ⟨_, height⟩
    | child _ _ _ _ _ height _ => exact ⟨_, height⟩
  exact ⟨height, hheight, by simp [Store.rank, hrow, hheight]⟩

theorem ranked : Ranked db.up zeroHash db.rank := by
  constructor
  · intro key hup
    obtain ⟨row, hrow, hfirst⟩ := Store.up_eq_some.mp hup
    cases tree.linked hrow with
    | root _ _ height _ => simp [Store.rank, hrow, height]
    | child inner _ _ _ _ _ _ => exact absurd hfirst inner
  · intro key parentHash hup hinner
    obtain ⟨row, hrow, rfl⟩ := Store.up_eq_some.mp hup
    cases tree.linked hrow with
    | root first _ _ _ => exact absurd first hinner
    | child _ stored parentHeight_eq _ _ height _ =>
      refine ⟨by simp [Store.up, stored], ?_⟩
      simp [Store.rank, hrow, height, stored, parentHeight_eq]

theorem exists_headerPath (h : db.headers[blockHash]? = some row) :
    ∃ path, db.HeaderPath blockHash path :=
  tree.ranked.exists_path blockHash (by simp [Store.up, h])

/-- A path visits each row at most once. -/
theorem length_le_size (h : db.HeaderPath blockHash path) :
    path.length ≤ db.headers.size := by
  have hsubset : path ⊆ db.headers.keys := by
    intro key hkey
    obtain ⟨row, hrow⟩ := Store.HeaderPath.exists_row h hkey
    rw [Std.ExtTreeMap.mem_keys, Std.ExtTreeMap.mem_iff_isSome_getElem?, hrow]
    rfl
  rw [← Std.ExtTreeMap.length_keys]
  exact (subperm_of_subset (tree.ranked.nodup_path h) hsubset).length_le

end

/-- **`path_to_root` of a stored header.** -/
theorem pathToRoot (tree : HeaderTree known Fit db) (h : db.HeaderPath blockHash path) :
    db.pathToRoot blockHash = .ok path := by
  have hne : ∀ key ∈ path, key ≠ [] := by
    intro key hkey
    obtain ⟨row, hrow⟩ := Store.HeaderPath.exists_row h hkey
    exact blockHash_ne_nil (tree.hashed hrow).1
  have hlength := tree.length_le_size h
  rw [Store.pathToRoot, pathLoop_eq h hne (by omega), append_nil]

/-! ### Adding a header or a body -/

/-- **A new header.** -/
theorem insertHeader (tree : HeaderTree known Fit db) (hknown : header ∈ known)
    (hhash : header.blockHash = .ok blockHash) (hfresh : db.headers[blockHash]? = none)
    (hparent : header.previousBlockHash = zeroHash ∨
      ∃ parent, db.headers[header.previousBlockHash]? = some parent)
    (hheight : heightUnder (db.parentRecord header.previousBlockHash) = .ok height)
    (hwork : workUnder (db.parentRecord header.previousBlockHash) header = .ok work)
    (hfit : ∀ path, db.Under header.previousBlockHash path → Fit (db.headersOn path) header)
    (isMainChain : Bool) :
    HeaderTree known Fit
      (db.insertHeader blockHash ⟨header, some height, some work, isMainChain⟩) := by
  set db' := db.insertHeader blockHash ⟨header, some height, some work, isMainChain⟩
  have hget : ∀ key : PyStr, db'.headers[key]? = if key = blockHash then
      some ⟨header, some height, some work, isMainChain⟩ else db.headers[key]? := by
    intro key
    exact Table.getElem?_insert db.headers blockHash key _
  have hextends : ∀ (key : PyStr) (row : HeaderRow), db.headers[key]? = some row →
      db'.headers[key]? = some row := by
    intro key row hrow
    rw [hget, if_neg fun heq => ?_, hrow]
    rw [heq, hfresh] at hrow
    cases hrow
  -- A row of the new table is the new one or an old one.
  have hcases : ∀ {key : PyStr} {row : HeaderRow}, db'.headers[key]? = some row →
      key = blockHash ∧ row = ⟨header, some height, some work, isMainChain⟩ ∨
        db.headers[key]? = some row := by
    intro key row hrow
    rw [hget] at hrow
    split_ifs at hrow with heq
    · exact .inl ⟨heq, (Option.some.inj hrow).symm⟩
    · exact .inr hrow
  refine ⟨fun hrow => ?_, fun hrow => ?_, fun {key row path} hrow hpath => ?_, fun hbody => ?_,
    fun htip => ?_⟩
  · rcases hcases hrow with ⟨rfl, rfl⟩ | hrow
    · exact ⟨hhash, hknown⟩
    · exact tree.hashed hrow
  · rcases hcases hrow with ⟨rfl, rfl⟩ | hrow
    · obtain ⟨own, hown, hwork⟩ := bind_eq_ok.mp hwork
      obtain rfl := pure_eq_ok.mp hwork
      by_cases hfirst : header.previousBlockHash = zeroHash
      · rw [Store.parentRecord, if_pos hfirst] at hheight ⊢
        cases hheight
        exact .root hfirst hown rfl (by simp)
      · obtain ⟨parent, hstored⟩ := hparent.resolve_left hfirst
        have hrecord : db.parentRecord header.previousBlockHash =
            some ⟨header.previousBlockHash, parent⟩ := by
          simp [Store.parentRecord, hfirst, Store.getRecord, hstored]
        rw [hrecord] at hheight ⊢
        obtain ⟨parentHeight, hparentHeight, hheight⟩ := bind_eq_ok.mp hheight
        rw [orRaise_eq_ok] at hparentHeight
        obtain rfl := pure_eq_ok.mp hheight
        have hparentWork : ∃ parentWork, parent.cumulativeWork = some parentWork := by
          cases tree.linked hstored with
          | root _ _ _ total => exact ⟨_, total⟩
          | child _ _ _ _ _ _ total => exact ⟨_, total⟩
        obtain ⟨parentWork, hparentWork⟩ := hparentWork
        exact .child hfirst (hextends _ _ hstored) hparentHeight hparentWork hown rfl
          (by simp [hparentWork])
    · exact rowLinked_extend (tree.linked hrow) hextends
  · rcases hcases hrow with ⟨rfl, rfl⟩ | hrow
    · -- The ancestors of the new header are those of its parent.
      by_cases hfirst : header.previousBlockHash = zeroHash
      · have hroot : db'.HeaderPath key [key] := .root (by rw [Store.up_of_row hrow, hfirst])
        obtain rfl : path = [] := by simpa using hpath.unique hroot
        exact hfit [] (by simp [Store.Under, hfirst])
      · obtain ⟨parent, hstored⟩ := hparent.resolve_left hfirst
        obtain ⟨parentPath, hparentPath⟩ := tree.exists_headerPath hstored
        have htail : db'.HeaderPath header.previousBlockHash path := by
          generalize hfull : path ++ [key] = full at hpath
          cases hpath with
          | root link =>
            rw [Store.up_of_row hrow] at link
            exact absurd (Option.some.inj link) hfirst
          | child link _ tail =>
            rw [Store.up_of_row hrow] at link
            obtain rfl := Option.some.inj link
            rwa [(append_inj' hfull rfl).1]
        obtain ⟨rfl, hsame⟩ := headerPath_extend hextends hparentPath htail
        rw [hsame]
        exact hfit path (by rwa [Store.Under, if_neg hfirst])
    · obtain ⟨old, hold⟩ := tree.exists_headerPath hrow
      obtain ⟨rfl, hsame⟩ := headerPath_extend hextends hold hpath
      have hpart : db'.headersOn path = db.headersOn path := headersOn_congr fun k hk => by
        obtain ⟨row, hrow⟩ := Store.HeaderPath.exists_row hold (mem_append_left _ hk)
        rw [Store.getHeader_of_row hrow, Store.getHeader_of_row (hextends k row hrow)]
      rw [hpart]
      exact tree.fits hrow hold
  · obtain ⟨hhash, hmem, row, hrow⟩ := tree.bodies hbody
    exact ⟨hhash, hmem, row, hextends _ _ hrow⟩
  · obtain ⟨row, hrow⟩ := tree.tip htip
    exact ⟨row, hextends _ _ hrow⟩

/-- **A new body.** -/
theorem insertBody (tree : HeaderTree known Fit db) (hhash : block.blockHash = .ok blockHash)
    (hknown : block.header ∈ known) (hrow : db.headers[blockHash]? = some row) :
    HeaderTree known Fit (db.insertBody blockHash block) where
  hashed := tree.hashed
  linked := tree.linked
  fits := tree.fits
  bodies := by
    intro key body hbody
    rw [Store.insertBody, Table.getElem?_insert] at hbody
    split_ifs at hbody with heq
    · obtain rfl := Option.some.inj hbody
      rw [heq]
      exact ⟨hhash, hknown, row, hrow⟩
    · exact tree.bodies hbody
  tip := tree.tip

end HeaderTree

/-! ### Moving the tip -/

/-- A row without its main-chain flag. -/
def HeaderRow.core (row : HeaderRow) : BlockHeader × Option ℕ × Option ℕ :=
  (row.header, row.height, row.cumulativeWork)

omit [Platform] in
private theorem HeaderRow.header_of_core (h : row'.core = row.core) :
    row'.header = row.header := congrArg Prod.fst h

omit [Platform] in
theorem HeaderRow.height_of_core (h : row'.core = row.core) :
    row'.height = row.height := congrArg (·.2.1) h

/-- The tables `store'` differ from `store` at most in the flags of the header rows, in the tip,
which may have moved to `tipHash`, and in the state tables. -/
structure TipMove (store : Store) (tipHash : PyStr) (store' : Store) : Prop where
  rows : ∀ key : PyStr,
    store'.headers[key]?.map HeaderRow.core = store.headers[key]?.map HeaderRow.core
  blocks : store'.blocks = store.blocks
  anchor : store'.snapshotAnchor = store.snapshotAnchor
  tip : store'.chainTipHash = store.chainTipHash ∨ store'.chainTipHash = some tipHash

namespace TipMove

omit [Platform]

theorem refl (db : Store) (tipHash : PyStr) : TipMove db tipHash db :=
  ⟨fun _ => rfl, rfl, rfl, .inl rfl⟩

variable (move : TipMove db tipHash db')
include move

theorem keeps_row (h : db.headers[key]? = some row) :
    ∃ row', db'.headers[key]? = some row' ∧ row'.core = row.core := by
  have hrows := move.rows key
  rw [h, Option.map_some, Option.map_eq_some_iff] at hrows
  exact hrows

theorem row_inv (h : db'.headers[key]? = some row') :
    ∃ row, db.headers[key]? = some row ∧ row'.core = row.core := by
  have hrows := (move.rows key).symm
  rw [h, Option.map_some, Option.map_eq_some_iff] at hrows
  obtain ⟨row, hrow, hcore⟩ := hrows
  exact ⟨row, hrow, hcore.symm⟩

private theorem getHeader (key : PyStr) : db'.getHeader key = db.getHeader key := by
  have hrows := congrArg (Option.map Prod.fst) (move.rows key)
  rw [Option.map_map, Option.map_map] at hrows
  exact hrows

theorem up : db'.up = db.up := by
  funext key
  have hheader := congrArg (Option.map BlockHeader.previousBlockHash) (move.getHeader key)
  rw [Store.getHeader, Store.getHeader, Option.map_map, Option.map_map] at hheader
  exact hheader

private theorem headersOn (path : List PyStr) : db'.headersOn path = db.headersOn path :=
  headersOn_congr fun key _ => move.getHeader key

end TipMove

omit [Platform] in
/-- Links depend on the cores of rows only. -/
theorem RowLinked.of_core (h : RowLinked headers row) (hcore : row'.core = row.core)
    (hrows : ∀ (key : PyStr) (row : HeaderRow), headers[key]? = some row →
      ∃ row' : HeaderRow, headers'[key]? = some row' ∧ row'.core = row.core) :
    RowLinked headers' row' := by
  simp only [HeaderRow.core, Prod.mk.injEq] at hcore hrows
  obtain ⟨hheader, hheight, hwork⟩ := hcore
  cases h with
  | root first own height total =>
    exact .root (hheader ▸ first) (hheader ▸ own) (hheight.trans height) (hwork.trans total)
  | child inner stored parentHeight_eq parentWork_eq own height total =>
    obtain ⟨parent, hparent, -, hparentHeight, hparentWork⟩ := hrows _ _ stored
    exact .child (hheader ▸ inner) (hheader ▸ hparent) (hparentHeight.trans parentHeight_eq)
      (hparentWork.trans parentWork_eq) (hheader ▸ own) (hheight.trans height)
      (hwork.trans total)

/-- **Moving the tip** to a stored header keeps the tree. -/
theorem HeaderTree.tipMove {known : Set BlockHeader} {Fit : List BlockHeader → BlockHeader → Prop}
    (tree : HeaderTree known Fit db) (move : TipMove db tipHash db')
    (hstored : ∃ row, db.headers[tipHash]? = some row) : HeaderTree known Fit db' := by
  refine ⟨fun {key row'} hrow' => ?_, fun {key row'} hrow' => ?_,
    fun {key row' path} hrow' hpath => ?_,
    fun {key block} hbody => ?_, fun {key} htip => ?_⟩
  · obtain ⟨row, hrow, hcore⟩ := move.row_inv hrow'
    rw [HeaderRow.header_of_core hcore]
    exact tree.hashed hrow
  · obtain ⟨row, hrow, hcore⟩ := move.row_inv hrow'
    exact RowLinked.of_core (tree.linked hrow) hcore fun _ _ h => move.keeps_row h
  · obtain ⟨row, hrow, hcore⟩ := move.row_inv hrow'
    rw [Store.HeaderPath, move.up] at hpath
    rw [move.headersOn, HeaderRow.header_of_core hcore]
    exact tree.fits hrow hpath
  · rw [move.blocks] at hbody
    obtain ⟨hhash, hknown, row, hrow⟩ := tree.bodies hbody
    obtain ⟨row', hrow', -⟩ := move.keeps_row hrow
    exact ⟨hhash, hknown, row', hrow'⟩
  · -- The tip is the old one or the one it was moved to.
    have hold : ∃ row, db.headers[key]? = some row := by
      rcases move.tip with h | h
      · exact tree.tip (h ▸ htip)
      · obtain rfl := Option.mem_unique h htip
        exact hstored
    obtain ⟨row, hrow⟩ := hold
    obtain ⟨row', hrow', -⟩ := move.keeps_row hrow
    exact ⟨row', hrow'⟩

section

variable {known : Set BlockHeader} {Fit : List BlockHeader → BlockHeader → Prop} {db : Store}

/-- A stored body has the header of its row. -/
theorem HeaderTree.header_of_body (tree : HeaderTree known Fit db) (clean : CleanHashes known)
    (h : db.blocks[blockHash]? = some block) :
    ∃ row, db.headers[blockHash]? = some row ∧ row.header = block.header := by
  obtain ⟨hhash, hknown, row, hrow⟩ := tree.bodies h
  obtain ⟨hrowHash, hrowKnown⟩ := tree.hashed hrow
  exact ⟨row, hrow, clean.injective _ hrowKnown _ hknown blockHash hrowHash hhash⟩

/-- The row of a block on top of the tip is the one that `apply_block` writes, up to the flag. -/
theorem HeaderTree.core_on_tip (tree : HeaderTree known Fit db) (clean : CleanHashes known)
    (hbody : db.blocks[blockHash]? = some block) (hextends : db.extendsTip blockHash)
    (hwork : headerWork block.header = .ok work) :
    db.headers[blockHash]?.map HeaderRow.core =
      some (block.header, some db.nextHeight, some (db.tipWork + work)) := by
  obtain ⟨row, hrow, hheader⟩ := tree.header_of_body clean hbody
  cases htip : db.getTip with
  | none => simp [Store.extendsTip, htip] at hextends
  | some tip =>
    have hprevious : row.header.previousBlockHash = tip.blockHash := by
      simp only [Store.extendsTip, htip, Store.getRecord, hrow, Option.map_some] at hextends
      exact of_decide_eq_true hextends
    obtain ⟨-, tipRow, htipRow, htipHeight⟩ := Store.getTip_eq_some.mp htip
    obtain ⟨htipHash, htipKnown⟩ := tree.hashed htipRow
    cases tree.linked hrow with
    | root first _ _ _ =>
      -- The tip does not have the zero hash.
      rw [hprevious] at first
      exact absurd (first ▸ htipHash) (clean.nonzero _ htipKnown)
    | @child parent parentHeight parentWork own _ stored hparentHeight hparentWork howned height
        total =>
      rw [hprevious, htipRow] at stored
      obtain rfl := Option.some.inj stored
      obtain rfl : own = work := by
        rw [hheader, hwork] at howned
        exact (Except.ok.inj howned).symm
      obtain rfl := Option.mem_unique hparentHeight htipHeight
      have hnext : db.nextHeight = tip.height + 1 := by simp [Store.nextHeight, htip]
      have htipWork : db.tipWork = parentWork := by
        simp [Store.tipWork, htip, Store.getRecord, htipRow, hparentWork]
      rw [hrow, Option.map_some, HeaderRow.core, hheader, height, total, hnext, htipWork]

omit [Platform] in
private theorem rowInvariant_tipMove (db : Store) (tipHash : PyStr) :
    RowInvariant (TipMove db tipHash) := by
  constructor <;> exact fun _ _ h => ⟨h.rows, h.blocks, h.anchor, h.tip⟩

/-- **Applying a stored block on top of the tip** moves the tip and nothing else of the chain. -/
theorem applyBlock_tipMove (tree : HeaderTree known Fit db) (clean : CleanHashes known)
    (node : Node) (clock : ℕ → Int) (hbody : db.blocks[tipHash]? = some block)
    (hextends : db.extendsTip tipHash) :
    Within (TipMove db tipHash) (applyBlock node clock block) db := by
  have hhash : block.blockHash = .ok tipHash := (tree.bodies hbody).1
  refine .get_bind (.ofExcept_bind fun ctx _ => .ofExcept_bind fun fees _ =>
    .bind_pure (Program.closed_transact _) (.of_preserves (preserves_transact ?_) (.refl _ _)))
  rw [hhash]
  refine (preserves_blockRows (rowInvariant_tipMove db tipHash) ?_ ?_).bind fun _ =>
    (preserves_setTip ?_ ?_).bind fun _ => preserves_reconcile
      (fun _ _ h => ⟨h.rows, h.blocks, h.anchor, h.tip⟩) ..
  · intro other key work hkey hwork move
    obtain rfl : tipHash = key := by
      rw [show block.header.blockHash = .ok tipHash from hhash] at hkey
      exact Except.ok.inj hkey
    have hcore := tree.core_on_tip clean hbody hextends hwork
    refine ⟨fun k => ?_, move.blocks, move.anchor, move.tip⟩
    rw [Store.insertHeader, Table.getElem?_insert]
    split_ifs with heq
    · rw [heq, hcore]
      rfl
    · exact move.rows k
  · intro other key hkey move
    obtain rfl := ok_unique hhash hkey
    refine ⟨move.rows, ?_, move.anchor, move.tip⟩
    rw [Store.insertBody, Table.insert_eq_self (move.blocks ▸ hbody)]
    exact move.blocks
  · exact fun _ move => ⟨move.rows, move.blocks, move.anchor, .inr rfl⟩
  · intro other move
    refine ⟨fun k => ?_, move.blocks, move.anchor, move.tip⟩
    rw [Table.getElem?_modify]
    split_ifs with heq
    · -- The height that the statement sets is the one in the row.
      obtain ⟨row, hrow, hheader⟩ := tree.header_of_body clean hbody
      obtain ⟨row', hrow', hcore'⟩ := move.keeps_row hrow
      obtain ⟨work, hwork⟩ : ∃ work, headerWork block.header = .ok work := by
        cases tree.linked hrow with
        | root _ own _ _ => exact ⟨_, hheader ▸ own⟩
        | child _ _ _ _ own _ _ => exact ⟨_, hheader ▸ own⟩
      have hcore := tree.core_on_tip clean hbody hextends hwork
      rw [heq, hrow', hcore, Option.map_some, Option.map_some]
      rw [hrow, Option.map_some, ← hcore'] at hcore
      have hfields := Option.some.inj hcore
      simp only [HeaderRow.core, Prod.mk.injEq] at hfields
      simp [HeaderRow.core, hfields.1, hfields.2.2]
    · exact move.rows k

omit [Platform] in
/-- One update of `set_main_chain` at the height that the row has. -/
theorem core_markRow
    (hheight : ∀ row : HeaderRow, headers[key]? = some row → row.height = some height)
    (other : PyStr) :
    (headers.modify key fun row =>
      { row with isMainChain := true, height := some height })[other]?.map HeaderRow.core =
      headers[other]?.map HeaderRow.core := by
  rw [Table.getElem?_modify]
  split_ifs with heq
  · subst heq
    cases hrow : headers[other]? with
    | none => rfl
    | some row => simp [HeaderRow.core, hheight row hrow]
  · rfl

omit [Platform] in
/-- `set_main_chain` along a path whose positions are the heights of its rows changes flags only. -/
theorem core_markMainChain (hheights : ∀ (i : ℕ) (key : PyStr), path[i]? = some key →
      ∀ row : HeaderRow, headers[key]? = some row → row.height = some i)
    (other : PyStr) :
    (markMainChain path headers)[other]?.map HeaderRow.core =
      headers[other]?.map HeaderRow.core := by
  set start := headers.map fun _ row => { row with isMainChain := false } with hstart
  have hcleared : ∀ key : PyStr, start[key]?.map HeaderRow.core =
      headers[key]?.map HeaderRow.core := by
    intro key
    rw [hstart, Std.ExtTreeMap.getElem?_map, Option.map_map]
    rfl
  -- The cores of the rows stay what they are from one update to the next.
  have hloop : ∀ (items : List (PyStr × ℕ)) (rows : Std.ExtTreeMap PyStr HeaderRow),
      (∀ item ∈ items, path[item.2]? = some item.1) →
      (∀ key : PyStr, rows[key]?.map HeaderRow.core = headers[key]?.map HeaderRow.core) →
      ∀ key : PyStr, (items.foldl (fun rows (item : PyStr × ℕ) => rows.modify item.1 fun row =>
        { row with isMainChain := true, height := some item.2 }) rows)[key]?.map HeaderRow.core =
          headers[key]?.map HeaderRow.core := by
    intro items
    induction items with
    | nil => exact fun _ _ hrows => hrows
    | cons item items ih =>
      intro rows hitems hrows
      refine ih _ (fun item' hmem => hitems item' (mem_cons_of_mem _ hmem)) fun key => ?_
      rw [core_markRow (fun row hrow => ?_), hrows]
      have hcore := hrows item.1
      rw [hrow, Option.map_some, eq_comm, Option.map_eq_some_iff] at hcore
      obtain ⟨old, hold, hcore⟩ := hcore
      have hheight := hheights item.2 item.1 (hitems item mem_cons_self) old hold
      exact (HeaderRow.height_of_core hcore).symm.trans hheight
  refine hloop path.zipIdx start (fun item hmem => ?_) hcleared other
  rw [mem_zipIdx_iff_getElem?] at hmem
  exact hmem

/-- **Switching to a branch** moves the tip and nothing else of the chain. -/
theorem activateBranch_tipMove (tree : HeaderTree known Fit db) (node : Node) (clock : ℕ → Int)
    (hrow : db.headers[tipHash]? = some row) :
    Within (TipMove db tipHash) (activateBranch node clock tipHash) db := by
  refine .get_bind (.ofExcept_bind fun plan hplan =>
    .bind_pure (Program.closed_transact _) (.of_preserves (preserves_transact ?_) (.refl _ _)))
  obtain ⟨path, hpath⟩ := tree.exists_headerPath hrow
  have hplanned : plan.pathHashes = path :=
    Except.ok.inj ((planBranch_ok hplan).1.symm.trans (tree.pathToRoot hpath))
  have hlast : plan.pathHashes.getLast? = some tipHash := by rw [hplanned, hpath.getLast?]
  have hmain : (setMainChain plan.pathHashes).Preserves (TipMove db tipHash) := by
    rw [setMainChain, hlast]
    refine preserves_transact ((preserves_update fun other move => ?_).bind fun _ =>
      preserves_update fun other move => ⟨move.rows, move.blocks, move.anchor, .inr rfl⟩)
    refine ⟨fun key => ?_, move.blocks, move.anchor, move.tip⟩
    rw [core_markMainChain (fun i inner hinner row' hrow' => ?_), move.rows]
    -- Positions on the path are heights.
    obtain ⟨old, hold, hcore⟩ := move.row_inv hrow'
    obtain ⟨height, hheight, hrankHeight⟩ := tree.exists_height hold
    have hrank := tree.ranked.rank_of_getElem? hpath (hplanned ▸ hinner)
    rw [hrankHeight] at hrank
    exact (HeaderRow.height_of_core hcore).trans (hheight.trans (congrArg some hrank))
  exact (preserves_branchRows (rowInvariant_tipMove db tipHash) _).bind fun _ =>
    hmain.bind fun _ => preserves_reconcile
      (fun _ _ h => ⟨h.rows, h.blocks, h.anchor, h.tip⟩) ..

/-- **What an activation can change**, whether it returns or raises. -/
theorem activateChain_tipMove (tree : HeaderTree known Fit db) (clean : CleanHashes known)
    (node : Node) (clock : ℕ → Int) (hrow : db.headers[tipHash]? = some row) :
    Within (TipMove db tipHash) (activateChain node clock tipHash) db := by
  refine .get_bind ?_
  dsimp only
  split_ifs with hcurrent hextends
  · exact .pure _
  · refine .ofExcept_bind fun block hblock => ?_
    rw [orRaise_eq_ok] at hblock
    exact .bind_pure (closed_applyBlock node clock block)
      (applyBlock_tipMove tree clean node clock hblock hextends)
  · exact activateBranch_tipMove tree node clock hrow

end

end

end Chipcoin
