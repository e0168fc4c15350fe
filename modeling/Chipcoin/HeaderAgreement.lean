import Chipcoin.Atomicity
import Chipcoin.Consensus.Encoding
import Chipcoin.HeaderSoundness
import Chipcoin.Node.SnapshotHeaders

/-!
# The header validators agree

The linkage, retarget and work rules are implemented four times: in the check of a snapshot, in
`ingest_headers`, in the rule for the next block of the active chain and in the one for a branch.
They read the first header of a retarget window from different places.

* `HeaderChain`: the rows that a list of headers from the zero hash should become.
* `validateSnapshotHeaders_iff`: the check of a snapshot accepts the records of a chain.
* `storesAll_iff`: `ingest_headers` stores all headers of a chain, and of nothing else.
* `header_validators_agree`: the two accept the same headers, along which the four rules for the
  bits agree.
-/

namespace Chipcoin

open Checked Database Effect Forest List

/-! ### The four retarget rules -/

variable {height stored : ℕ} {octets : Bytes} {parentHash : PyStr} {state state' : SyncState}
  {unknown : Option PyStr} {loop : SnapshotHeaderLoop} {rest : List (PyStr × HeaderRow)}

section

variable {params : ConsensusParams} {headers : List BlockHeader}

/-- The bits that the snapshot's check requires are those of the retarget rule. -/
theorem snapshotExpectedBits_eq {previous : BlockHeader} (h : headers.getLast? = some previous) :
    snapshotExpectedBits params headers previous headers.length =
      expectedBits params (fun i => headers[i]?) headers.length := by
  have hne : headers.length ≠ 0 := by
    intro hzero
    rw [List.length_eq_zero_iff.mp hzero] at h
    cases h
  rw [getLast?_eq_getElem?] at h
  unfold snapshotExpectedBits expectedBits
  dsimp only
  rw [if_neg hne, h]
  dsimp only
  by_cases hwindow : params.difficultyAdjustmentWindow = 0
  · rw [raiseIf, if_pos hwindow]
    rfl
  rw [raiseIf, if_neg hwindow, ok_bind, ok_bind]
  by_cases hmod : headers.length % params.difficultyAdjustmentWindow = 0
  · -- The window starts at one of the headers.
    have hwithin : headers.length - params.difficultyAdjustmentWindow < headers.length := by omega
    rw [if_pos hmod, if_neg (not_not_intro hmod), getElem?_eq_getElem hwithin]
    rfl
  · rw [if_neg hmod, if_pos hmod]

private theorem expectedBitsForCandidateHeight_eq {db : Store} {validatedHeaders : List BlockHeader}
    {pathHashes : Option (List PyStr)} {headerAt : ℕ → Option BlockHeader}
    (hprevious : height ≠ 0 → db.candidatePreviousHeader height validatedHeaders pathHashes =
      .ok (headerAt (height - 1))) (hfirst : ∀ i < height,
      db.candidateFirstHeader i validatedHeaders pathHashes = .ok (headerAt i)) :
    expectedBitsForCandidateHeight params db height validatedHeaders pathHashes =
      expectedBits params headerAt height := by
  unfold expectedBitsForCandidateHeight expectedBits
  by_cases hzero : height = 0
  · rw [if_pos hzero, if_pos hzero]
  rw [if_neg hzero, if_neg hzero, hprevious hzero, ok_bind]
  cases headerAt (height - 1) with
  | none => rfl
  | some previous =>
    dsimp only
    by_cases hwindow : params.difficultyAdjustmentWindow = 0
    · rw [raiseIf, if_pos hwindow]
      rfl
    rw [hfirst (height - params.difficultyAdjustmentWindow) (by omega)]
    rfl

end

/-! ### Chains of header rows -/

section

variable {rows : List (PyStr × HeaderRow)}

/-- The hash of the last row, the zero hash without one. -/
def lastHash (rows : List (PyStr × HeaderRow)) : PyStr :=
  (rows.getLast?.map Prod.fst).getD zeroHash

/-- The work of the last row. -/
def lastWork (rows : List (PyStr × HeaderRow)) : ℕ :=
  (rows.getLast?.bind (·.2.cumulativeWork)).getD 0

/-- The headers of the rows. -/
abbrev rowHeaders (rows : List (PyStr × HeaderRow)) : List BlockHeader :=
  rows.map (·.2.header)

@[simp] private theorem lastHash_concat (rows : List (PyStr × HeaderRow))
    (entry : PyStr × HeaderRow) :
    lastHash (rows ++ [entry]) = entry.1 := by
  simp [lastHash]

@[simp] private theorem lastWork_concat (rows : List (PyStr × HeaderRow))
    (entry : PyStr × HeaderRow) :
    lastWork (rows ++ [entry]) = entry.2.cumulativeWork.getD 0 := by
  simp [lastWork]

/-- The record agrees with the row. -/
structure Describes (record : SnapshotHeaderRecord) (entry : PyStr × HeaderRow) : Prop where
  header : record.header = entry.2.header
  height : some record.height = entry.2.height.map Int.ofNat
  work : some record.cumulativeWork = entry.2.cumulativeWork.map Int.ofNat

private theorem headers_eq_of_describes {records : List SnapshotHeaderRecord}
    (h : List.Forall₂ Describes records rows) : records.map (·.header) = rowHeaders rows := by
  rw [← forall₂_eq_eq_eq, rowHeaders, forall₂_map_left_iff, forall₂_map_right_iff]
  exact h.imp fun _ _ describes => describes.header

/-- The variables of the snapshot's loop after a chain. -/
def loopAfter (rows : List (PyStr × HeaderRow)) : SnapshotHeaderLoop where
  previousHeader := (rowHeaders rows).getLast?
  previousCumulativeWork := lastWork rows
  validatedHeaders := rowHeaders rows

end

private theorem timestamp_nonneg (h : serializeBlockHeader header = .ok octets) :
    0 ≤ header.timestamp := by
  simp only [serializeBlockHeader, bind_eq_ok] at h
  obtain ⟨-, -, -, -, -, -, timestamp, htimestamp, -⟩ := h
  exact (pack_ok htimestamp).1

private theorem Store.Under.unique {db : Store} {path path' : List PyStr}
    (h : db.Under parentHash path) (h' : db.Under parentHash path') : path = path' := by
  rw [Store.Under] at h h'
  split_ifs at h h' with hzero
  · rw [h, h']
  · exact Path.unique h h'

/-- The headers along the path of a chain. -/
theorem headersOn_keys {db : Store}
    (hstored : ∀ entry ∈ rows, db.headers[entry.1]? = some entry.2) :
    db.headersOn (rows.map Prod.fst) = rowHeaders rows := by
  rw [Store.headersOn, filterMap_map, rowHeaders, ← filterMap_eq_map]
  refine filterMap_congr fun entry hmem => ?_
  exact Store.getHeader_of_row (hstored entry hmem)

/-- Headers with the same octets name the same parent. -/
theorem previousBlockHash_eq_of_octets {other : BlockHeader}
    (h : serializeBlockHeader header = .ok octets) (h' : serializeBlockHeader other = .ok octets)
    (hcanonical : Canonical header.previousBlockHash)
    (hcanonical' : Canonical other.previousBlockHash) :
    header.previousBlockHash = other.previousBlockHash := by
  simp only [serializeBlockHeader, bind_eq_ok, pure_eq_ok] at h h'
  obtain ⟨version, hversion, previous, hprevious, root, -, timestamp, -, bits, -, nonce, -,
    rfl⟩ := h
  obtain ⟨version', hversion', previous', hprevious', root', -, timestamp', -, bits', -, nonce', -,
    heq⟩ := h'
  simp only [append_assoc] at heq
  obtain ⟨-, hrest⟩ := (delimits_pack 4).cut trivial trivial hversion hversion' heq.symm
  exact (delimits_encodeHash.cut hcanonical hcanonical' hprevious hprevious' hrest).1

/-- The last hash is the zero hash of no rows, or one of the hashes. -/
theorem lastHash_cases (rows : List (PyStr × HeaderRow)) :
    rows = [] ∧ lastHash rows = zeroHash ∨ lastHash rows ∈ rows.map Prod.fst := by
  rcases eq_nil_or_concat' rows with rfl | ⟨front, last, rfl⟩
  · exact .inl ⟨rfl, rfl⟩
  · exact .inr (by simp)

section

variable [Platform]

/-- What a header needs to follow the rows, and the row it becomes. -/
structure ExtendsChain (params : ConsensusParams) (rows : List (PyStr × HeaderRow))
    (header : BlockHeader) (entry : PyStr × HeaderRow) : Prop where
  hash_eq : header.blockHash = .ok entry.1
  link : header.previousBlockHash = lastHash rows
  fits : FitsOn params (rowHeaders rows) header
  row_eq : ∃ work, headerWork header = .ok work ∧
    entry.2 = ⟨header, some rows.length, some (lastWork rows + work), false⟩

/-- The rows of a chain of headers from the zero hash. -/
inductive HeaderChain (params : ConsensusParams) : List (PyStr × HeaderRow) → Prop
  | nil : HeaderChain params []
  | snoc {rows : List (PyStr × HeaderRow)} {header : BlockHeader} {entry : PyStr × HeaderRow}
      (chain : HeaderChain params rows) (step : ExtendsChain params rows header entry) :
      HeaderChain params (rows ++ [entry])

/-- A list of headers whose hashes do not collide: equal hashes come from equal serialisations, and
none is the zero hash. -/
structure HeadersCollisionFree (headers : List BlockHeader) : Prop where
  octets : ∀ a ∈ headers, ∀ b ∈ headers, ∀ blockHash, a.blockHash = .ok blockHash →
    b.blockHash = .ok blockHash → serializeBlockHeader a = serializeBlockHeader b
  nonzero : ∀ a ∈ headers, a.blockHash ≠ .ok zeroHash

variable {params : ConsensusParams} {rows : List (PyStr × HeaderRow)} {header : BlockHeader}
  {entry : PyStr × HeaderRow}

namespace ExtendsChain

private theorem header_eq (step : ExtendsChain params rows header entry) :
    entry.2.header = header := by
  obtain ⟨work, -, hrow⟩ := step.row_eq
  rw [hrow]

private theorem height_eq (step : ExtendsChain params rows header entry) :
    entry.2.height = some rows.length := by
  obtain ⟨work, -, hrow⟩ := step.row_eq
  rw [hrow]

end ExtendsChain

namespace HeaderChain

private theorem concat_iff : HeaderChain params (rows ++ [entry]) ↔
    HeaderChain params rows ∧ ∃ header, ExtendsChain params rows header entry := by
  constructor
  · intro h
    generalize hall : rows ++ [entry] = all at h
    cases h with
    | nil => simp at hall
    | snoc chain step =>
      obtain ⟨rfl, hentry⟩ := append_inj' hall rfl
      obtain rfl := List.singleton_inj.mp hentry
      exact ⟨chain, _, step⟩
  · rintro ⟨chain, header, step⟩
    exact .snoc chain step

/-- The beginnings of a chain are chains. -/
theorem front (chain : HeaderChain params (rows ++ rest)) : HeaderChain params rows := by
  induction rest using List.reverseRecOn with
  | nil => simpa using chain
  | append_singleton rest entry ih =>
    rw [← append_assoc] at chain
    exact ih (concat_iff.mp chain).1

/-- The rows are kept under the hashes of their headers. -/
theorem hashed (chain : HeaderChain params rows) (hmem : entry ∈ rows) :
    entry.2.header.blockHash = .ok entry.1 := by
  induction chain with
  | nil => cases hmem
  | snoc chain step ih =>
    rcases List.mem_append.mp hmem with hmem | hmem
    · exact ih hmem
    · obtain rfl := List.mem_singleton.mp hmem
      rw [step.header_eq]
      exact step.hash_eq

/-- The hashes of the headers are the keys of the rows. -/
theorem mapM_blockHash (chain : HeaderChain params rows) :
    (rowHeaders rows).mapM BlockHeader.blockHash = .ok (rows.map Prod.fst) := by
  rw [mapM_eq_ok, rowHeaders, forall₂_map_left_iff, forall₂_map_right_iff, forall₂_same]
  exact fun entry hmem => chain.hashed hmem

end HeaderChain

/-! ### The snapshot's check -/

/-- The link and the bits of the next header. -/
theorem validateSnapshotLink_iff (chain : HeaderChain params rows) :
    validateSnapshotLink params (loopAfter rows) header rows.length = .ok header.bits ↔
      header.previousBlockHash = lastHash rows ∧
        (∀ parent ∈ (rowHeaders rows).getLast?, parent.timestamp ≤ header.timestamp) ∧
        expectedBits params (fun i => (rowHeaders rows)[i]?) (rowHeaders rows).length =
          .ok header.bits := by
  rcases eq_nil_or_concat' rows with rfl | ⟨front, last, rfl⟩
  · have hloop : (loopAfter []).previousHeader = none := rfl
    rw [validateSnapshotLink, hloop]
    dsimp only
    rw [bind_eq_ok]
    simp [raiseIf_eq_ok, lastHash, expectedBits]
  · have hlast : (rowHeaders (front ++ [last])).getLast? = some last.2.header := by
      simp [rowHeaders]
    have hhash : last.2.header.blockHash = .ok last.1 := chain.hashed (by simp)
    have hloop : (loopAfter (front ++ [last])).previousHeader = some last.2.header := hlast
    have hbits := @snapshotExpectedBits_eq params _ _ hlast
    rw [length_map] at hbits
    rw [validateSnapshotLink, hloop, lastHash_concat, hlast]
    dsimp only
    rw [hhash, ok_bind, bind_eq_ok]
    simp only [raiseIf_eq_ok, bind_eq_ok, exists_const, not_not, not_lt]
    rw [length_map, ← hbits]
    simp [loopAfter]

/-- **One round of the snapshot's check.** -/
theorem validateSnapshotHeader_iff (chain : HeaderChain params rows)
    {record : SnapshotHeaderRecord} :
    validateSnapshotHeader params (loopAfter rows) (record, rows.length) = .ok loop ↔
      ∃ entry, ExtendsChain params rows record.header entry ∧ Describes record entry ∧
        loop = loopAfter (rows ++ [entry]) := by
  simp only [validateSnapshotHeader, bind_eq_ok, raiseIf_eq_ok, Unique.exists_iff,
    pure_eq_ok, not_not, not_lt]
  constructor
  · -- The checks of the round make the row that the download would store.
    rintro ⟨hheight, -, valid, hvalid, hwork, bits, hbits, rfl, own, hown, htotal, rfl⟩
    obtain rfl : valid = true := by simpa using hwork
    obtain ⟨blockHash, hhash⟩ := verifyProofOfWork_blockHash hvalid
    obtain ⟨hlink, htimestamp, hexpected⟩ := (validateSnapshotLink_iff chain).mp hbits
    refine ⟨(blockHash, ⟨record.header, some rows.length, some (lastWork rows + own), false⟩),
      ⟨hhash, hlink, ⟨hvalid, hexpected, htimestamp⟩, own, hown, rfl⟩, ⟨rfl, ?_, ?_⟩, ?_⟩
    · simp [hheight]
    · simpa [loopAfter] using htotal
    · simp [loopAfter, rowHeaders]
  · -- The timestamp check is implied: a header with octets has no negative timestamp.
    rintro ⟨⟨blockHash, row⟩, step, describes, rfl⟩
    obtain ⟨own, hown, rfl⟩ := step.row_eq
    obtain ⟨octets, hoctets, -⟩ := bind_eq_ok.mp step.hash_eq
    refine ⟨by simpa using describes.height, timestamp_nonneg hoctets, true, step.fits.work,
      by simp, record.header.bits, ?_, rfl, own, hown, ?_, ?_⟩
    · exact (validateSnapshotLink_iff chain).mpr ⟨step.link, step.fits.timestamp, step.fits.bits⟩
    · simpa [loopAfter] using describes.work
    · simp [loopAfter, rowHeaders]

/-- The loop of the snapshot's check follows a chain. -/
theorem foldlM_validateSnapshotHeader_iff {records : List SnapshotHeaderRecord} :
    records.zipIdx.foldlM (validateSnapshotHeader params) {} = .ok loop ↔
      ∃ rows, HeaderChain params rows ∧ List.Forall₂ Describes records rows ∧
        loop = loopAfter rows := by
  -- On the records from the back: the last round reads the chain of all before it.
  induction records using List.reverseRecOn generalizing loop with
  | nil =>
    constructor
    · intro h
      exact ⟨[], .nil, .nil, (Except.ok.inj h).symm⟩
    · rintro ⟨rows, -, hrows, rfl⟩
      cases hrows
      rfl
  | append_singleton records record ih =>
    rw [zipIdx_append, foldlM_append_eq_ok]
    constructor
    · rintro ⟨middle, hfront, hlast⟩
      obtain ⟨rows, chain, hrows, rfl⟩ := ih.mp hfront
      rw [hrows.length_eq, zipIdx_singleton, foldlM_cons_eq_ok] at hlast
      obtain ⟨after, hlast, hend⟩ := hlast
      rw [zero_add] at hlast
      obtain ⟨entry, step, describes, rfl⟩ := (validateSnapshotHeader_iff chain).mp hlast
      obtain rfl := Except.ok.inj hend
      exact ⟨_, .snoc chain step, rel_append hrows (.cons describes .nil), rfl⟩
    · rintro ⟨all, chain, hall, rfl⟩
      rcases eq_nil_or_concat' all with rfl | ⟨rows, entry, rfl⟩
      · simpa using hall.length_eq
      obtain ⟨chain, header, step⟩ := HeaderChain.concat_iff.mp chain
      have hlength : rows.length = records.length := by simpa using hall.length_eq.symm
      have hrows : List.Forall₂ Describes records rows := by
        simpa [hlength] using forall₂_take_append _ rows [entry] hall
      have describes : Describes record entry := by
        simpa [hlength] using forall₂_drop_append _ rows [entry] hall
      have hheader : header = record.header := by rw [describes.header, step.header_eq]
      subst hheader
      refine ⟨loopAfter rows, ih.mpr ⟨rows, chain, hrows, rfl⟩, ?_⟩
      rw [← hlength, zipIdx_singleton, foldlM_cons_eq_ok, zero_add]
      exact ⟨_, (validateSnapshotHeader_iff chain).mpr ⟨entry, step, describes, rfl⟩, rfl⟩

/-- **What the snapshot's check accepts.** -/
theorem validateSnapshotHeaders_iff {records : List SnapshotHeaderRecord} :
    validateSnapshotHeaders params records = .ok () ↔
      ∃ rows, HeaderChain params rows ∧ List.Forall₂ Describes records rows := by
  rw [validateSnapshotHeaders, bind_eq_ok]
  constructor
  · rintro ⟨loop, hloop, -⟩
    obtain ⟨rows, chain, hrows, -⟩ := foldlM_validateSnapshotHeader_iff.mp hloop
    exact ⟨rows, chain, hrows⟩
  · rintro ⟨rows, chain, hrows⟩
    exact ⟨_, foldlM_validateSnapshotHeader_iff.mpr ⟨rows, chain, hrows, rfl⟩, rfl⟩

/-! ### The header table during a download -/

/-- The header table holds the rows of a chain. -/
structure ChainStored (params : ConsensusParams) (rows : List (PyStr × HeaderRow)) (db : Store) :
    Prop where
  chain : HeaderChain params rows
  stored : ∀ entry ∈ rows, db.headers[entry.1]? = some entry.2
  nonzero : ∀ entry ∈ rows, entry.1 ≠ zeroHash
  tree : HeaderTree Set.univ (FitsOn params) db

/-- It holds nothing else, and there is no snapshot. -/
structure Ingested (params : ConsensusParams) (rows : List (PyStr × HeaderRow)) (db : Store) :
    Prop extends ChainStored params rows db where
  only : ∀ (key : PyStr) (row : HeaderRow), db.headers[key]? = some row → (key, row) ∈ rows
  anchor : db.snapshotAnchor = none

/-- The path of the last row of a chain goes through all rows. -/
private theorem HeaderChain.under {db : Store} (chain : HeaderChain params rows)
    (hstored : ∀ entry ∈ rows, db.headers[entry.1]? = some entry.2)
    (hnonzero : ∀ entry ∈ rows, entry.1 ≠ zeroHash) :
    db.Under (lastHash rows) (rows.map Prod.fst) := by
  induction chain with
  | nil => simp [Store.Under, lastHash]
  | @snoc rows header entry chain step ih =>
    have hunder := ih (fun other hmem => hstored other (mem_append_left _ hmem))
      (fun other hmem => hnonzero other (mem_append_left _ hmem))
    have hentry := hstored entry (by simp)
    have hup : db.up entry.1 = some (lastHash rows) := by
      rw [Store.up_of_row hentry, step.header_eq, step.link]
    rw [lastHash_concat, Store.Under, if_neg (hnonzero entry (by simp)), map_append, map_singleton]
    rw [Store.Under] at hunder
    split_ifs at hunder with hzero
    · rw [hunder]
      exact .root (hzero ▸ hup)
    · exact .child hup hzero hunder

namespace ChainStored

variable {db : Store}

section

variable (h : ChainStored params rows db)
include h

private theorem under : db.Under (lastHash rows) (rows.map Prod.fst) :=
  h.chain.under h.stored h.nonzero

/-- The record of the parent of the next header. -/
theorem parentRecord_eq :
    db.parentRecord (lastHash rows) =
      rows.getLast?.map fun entry => ⟨entry.1, entry.2⟩ := by
  rcases eq_nil_or_concat' rows with rfl | ⟨front, last, rfl⟩
  · simp [lastHash, Store.parentRecord]
  · have hlast : last ∈ front ++ [last] := by simp
    rw [lastHash_concat, Store.parentRecord, if_neg (h.nonzero last hlast), Store.getRecord,
      h.stored last hlast]
    simp

private theorem heightUnder_eq :
    heightUnder (db.parentRecord (lastHash rows)) = .ok rows.length := by
  rw [h.parentRecord_eq]
  rcases eq_nil_or_concat' rows with rfl | ⟨front, last, rfl⟩
  · rfl
  · obtain ⟨-, header, step⟩ := HeaderChain.concat_iff.mp h.chain
    simp [heightUnder, step.height_eq, orRaise]

private theorem workUnder_eq (header : BlockHeader) :
    workUnder (db.parentRecord (lastHash rows)) header =
      (headerWork header).map (lastWork rows + ·) := by
  rw [h.parentRecord_eq, workUnder, lastWork]
  cases headerWork header with
  | error error => rfl
  | ok work =>
    rw [Option.bind_map]
    rfl

/-- The sync manager requires the bits of the retarget rule. -/
theorem expectedBitsForCandidateHeader_eq :
    expectedBitsForCandidateHeader params db (db.parentRecord (lastHash rows)) rows.length =
      expectedBits params (fun i => (rowHeaders rows)[i]?) rows.length := by
  rcases eq_nil_or_concat' rows with rfl | ⟨front, last, rfl⟩
  · rw [h.parentRecord_eq]
    rfl
  · have hlast : last ∈ front ++ [last] := by simp
    have hpath := h.under
    rw [lastHash_concat, Store.Under, if_neg (h.nonzero last hlast)] at hpath
    have hbits := @HeaderTree.expectedBitsForCandidateHeader_eq _ _ _ _ _ _ params h.tree _
      (h.stored last hlast) hpath
    rw [length_map] at hbits
    have hrecord : db.parentRecord (lastHash (front ++ [last])) = some ⟨last.1, last.2⟩ := by
      rw [h.parentRecord_eq, getLast?_concat]
      rfl
    rw [hrecord, hbits, ← headersOn_keys h.stored]
    refine expectedBits_congr fun i _ => (Store.getElem?_headersOn ?_ i).symm
    intro key hkey
    obtain ⟨entry, hmem, rfl⟩ := List.mem_map.mp hkey
    exact ⟨entry.2, h.stored entry hmem⟩

/-- **The header checks** on top of a chain. -/
theorem validateHeaderCandidate_iff (hoctets : serializeBlockHeader header = .ok octets)
    (hlink : header.previousBlockHash = lastHash rows) :
    validateHeaderCandidate params db header (db.parentRecord (lastHash rows)) rows.length =
      .ok () ↔ FitsOn params (rowHeaders rows) header := by
  constructor
  · intro hchecks
    rw [← headersOn_keys h.stored]
    rw [← hlink] at hchecks
    exact h.tree.fitsOn_of_checks (hlink ▸ h.under) (hlink ▸ h.heightUnder_eq) hchecks
  · intro hfits
    -- The store gives parent, timestamp and bits as the chain does.
    have hbits := h.expectedBitsForCandidateHeader_eq
    have htimestamp := hfits.timestamp
    have hexpected := hfits.bits
    simp only [validateHeaderCandidate, bind_eq_ok, raiseIf_eq_ok, Unique.exists_iff,
      not_not, not_lt]
    rw [length_map] at hexpected
    refine ⟨timestamp_nonneg hoctets, true, hfits.work, by simp, ?_, ?_, header.bits,
      hbits.trans hexpected, rfl⟩
    · rw [h.parentRecord_eq, hlink, lastHash]
      cases rows.getLast? <;> simp
    · rw [h.parentRecord_eq]
      rw [getLast?_map] at htimestamp
      cases hlast : rows.getLast? with
      | none => simp
      | some last => simpa [hlast] using htimestamp

end

private theorem front (h : ChainStored params (rows ++ rest) db) : ChainStored params rows db :=
  ⟨h.chain.front, fun entry hmem => h.stored entry (mem_append_left _ hmem),
    fun entry hmem => h.nonzero entry (mem_append_left _ hmem), h.tree⟩

end ChainStored

namespace Ingested

variable {db : Store}

/-- A new header at the end of the chain. -/
theorem insert (h : Ingested params rows db) (step : ExtendsChain params rows header entry)
    (hfresh : db.headers[entry.1]? = none) (hnonzero : entry.1 ≠ zeroHash) :
    Ingested params (rows ++ [entry]) (db.insertHeader entry.1 entry.2) := by
  obtain ⟨work, hwork, hrow⟩ := step.row_eq
  have hget : ∀ key : PyStr, (db.insertHeader entry.1 entry.2).headers[key]? =
      if key = entry.1 then some entry.2 else db.headers[key]? :=
    fun key => Table.getElem?_insert db.headers entry.1 key _
  refine ⟨⟨.snoc h.chain step, ?_, ?_, ?_⟩, ?_, h.anchor⟩
  · intro other hmem
    rw [hget]
    rcases List.mem_append.mp hmem with hmem | hmem
    · have hother := h.stored other hmem
      rw [if_neg fun heq => ?_, hother]
      rw [heq, hfresh] at hother
      cases hother
    · obtain rfl := List.mem_singleton.mp hmem
      rw [if_pos rfl]
  · intro other hmem
    rcases List.mem_append.mp hmem with hmem | hmem
    · exact h.nonzero other hmem
    · obtain rfl := List.mem_singleton.mp hmem
      exact hnonzero
  · rw [hrow]
    -- The parent is the last row, or there is none.
    have hparent : header.previousBlockHash = zeroHash ∨
        ∃ parent, db.headers[header.previousBlockHash]? = some parent := by
      rw [step.link]
      rcases eq_nil_or_concat' rows with rfl | ⟨front, last, rfl⟩
      · exact .inl rfl
      · exact .inr ⟨last.2, by rw [lastHash_concat]; exact h.stored last (by simp)⟩
    refine h.tree.insertHeader (Set.mem_univ _) step.hash_eq hfresh hparent ?_ ?_ ?_ false
    · rw [step.link]
      exact h.heightUnder_eq
    · rw [step.link, h.workUnder_eq, hwork]
      rfl
    · intro path hpath
      rw [step.link] at hpath
      rw [hpath.unique h.under, headersOn_keys h.stored]
      exact step.fits
  · intro key row hrow
    rw [hget] at hrow
    split_ifs at hrow with hkey
    · rw [hkey, ← Option.some.inj hrow]
      simp
    · exact mem_append_left _ (h.only key row hrow)

/-- **One stored header.** -/
theorem storeHeader_eq_ok (h : Ingested params rows state.store) {blockHash : PyStr}
    (hhash : header.blockHash = .ok blockHash) (hlink : header.previousBlockHash = lastHash rows) :
    storeHeader params header (state.store.parentRecord header.previousBlockHash) state =
      .ok () state' ↔ ∃ entry, ExtendsChain params rows header entry ∧
        state' = { state with store := state.store.insertHeader entry.1 entry.2 } := by
  obtain ⟨octets, hoctets, -⟩ := bind_eq_ok.mp hhash
  rw [hlink, storeHeader, check_bind_eq_ok]
  constructor
  · rintro ⟨height, hheight, hrest⟩
    obtain rfl := ok_unique h.heightUnder_eq hheight
    rw [get_bind_apply] at hrest
    obtain ⟨⟨⟩, hchecks, hrest⟩ := check_bind_eq_ok.mp hrest
    obtain ⟨work, hwork, hrest⟩ := check_bind_eq_ok.mp hrest
    rw [h.workUnder_eq] at hwork
    -- The work of the row is that of the chain and its own, so the own one is defined.
    obtain ⟨own, hown⟩ : ∃ own, headerWork header = .ok own := by
      cases hown : headerWork header with
      | ok own => exact ⟨own, rfl⟩
      | error error => simp [hown, Except.map] at hwork
    rw [hown] at hwork
    obtain rfl := Except.ok.inj hwork
    rw [callNode_ok (commits_putHeader hhash _ _ _ _)] at hrest
    refine ⟨(blockHash, ⟨header, some rows.length, some (lastWork rows + own), false⟩),
      ⟨hhash, hlink, (h.validateHeaderCandidate_iff hoctets hlink).mp hchecks, own, hown, rfl⟩, ?_⟩
    exact ((EStateM.Result.ok.inj hrest).2).symm
  · rintro ⟨⟨key, row⟩, step, rfl⟩
    obtain ⟨own, hown, rfl⟩ := step.row_eq
    obtain rfl := ok_unique hhash step.hash_eq
    refine ⟨_, h.heightUnder_eq, ?_⟩
    rw [get_bind_apply, check_bind_eq_ok]
    refine ⟨(), (h.validateHeaderCandidate_iff hoctets hlink).mpr step.fits, ?_⟩
    rw [check_bind_eq_ok]
    refine ⟨lastWork rows + own, by rw [h.workUnder_eq, hown]; rfl, ?_⟩
    rw [callNode_ok (commits_putHeader hhash _ _ _ _)]
    rfl

end Ingested

/-! ### Distinct hashes -/

private theorem canonical_lastHash (chain : HeaderChain params rows) :
    Canonical (lastHash rows) := by
  cases chain with
  | nil => exact ⟨List.replicate 32 0, by decide +kernel⟩
  | snoc chain step =>
    obtain ⟨octets, -, hhash⟩ := bind_eq_ok.mp step.hash_eq
    rw [lastHash_concat]
    exact ⟨_, (pure_eq_ok.mp hhash).symm⟩

private theorem HeadersCollisionFree.mono {headers headers' : List BlockHeader}
    (clean : HeadersCollisionFree headers) (hsubset : headers' ⊆ headers) :
    HeadersCollisionFree headers' :=
  ⟨fun a ha b hb => clean.octets a (hsubset ha) b (hsubset hb),
    fun a ha => clean.nonzero a (hsubset ha)⟩

private theorem HeaderChain.keys_nonzero (chain : HeaderChain params rows)
    (clean : HeadersCollisionFree (rowHeaders rows)) : ∀ entry ∈ rows, entry.1 ≠ zeroHash := by
  intro entry hmem hzero
  exact clean.nonzero _ (mem_map_of_mem hmem) (hzero ▸ chain.hashed hmem)

/-- **No hash occurs twice in a chain.** -/
theorem HeaderChain.nodup (chain : HeaderChain params rows)
    (clean : HeadersCollisionFree (rowHeaders rows)) : (rows.map Prod.fst).Nodup := by
  induction chain with
  | nil => exact nodup_nil
  | @snoc rows header entry chain step ih =>
    have hrows : rowHeaders rows ⊆ rowHeaders (rows ++ [entry]) := by simp [rowHeaders]
    have hnodup := ih (clean.mono hrows)
    have hzero := chain.keys_nonzero (clean.mono hrows)
    rw [map_append, map_singleton]
    refine List.nodup_append.mpr ⟨hnodup, nodup_singleton _, ?_⟩
    intro key hkey _ hentry hsame
    obtain ⟨other, hother, rfl⟩ := List.mem_map.mp hkey
    obtain rfl := List.mem_singleton.mp hentry
    -- An earlier row with the same hash has the same octets and so the same parent.
    obtain ⟨front, back, rfl⟩ := append_of_mem hother
    have hchain : HeaderChain params (front ++ [other]) :=
      @HeaderChain.front back _ _ _ (by simpa using chain)
    obtain ⟨chainFront, earlier, stepFront⟩ := HeaderChain.concat_iff.mp hchain
    obtain ⟨octets, hoctets, -⟩ := bind_eq_ok.mp step.hash_eq
    have hoctets' : serializeBlockHeader earlier = .ok octets := by
      rw [← hoctets]
      refine clean.octets earlier ?_ header ?_ entry.1 ?_ step.hash_eq
      · simp [rowHeaders, stepFront.header_eq]
      · simp [rowHeaders, step.header_eq]
      · rw [stepFront.hash_eq, hsame]
    have hparent : lastHash front = lastHash (front ++ other :: back) := by
      rw [← stepFront.link, ← step.link]
      exact previousBlockHash_eq_of_octets hoctets' hoctets
        (stepFront.link ▸ canonical_lastHash chainFront) (step.link ▸ canonical_lastHash chain)
    -- The parent of the later one is a row behind that of the earlier one.
    have hlater : lastHash (front ++ other :: back) ∈ (other :: back).map Prod.fst := by
      have hlast : lastHash (front ++ other :: back) = lastHash (other :: back) := by
        rw [lastHash, lastHash, getLast?_append_of_ne_nil _ (cons_ne_nil _ _)]
      rw [hlast]
      exact (lastHash_cases (other :: back)).resolve_left fun h => nomatch h.1
    rw [← hparent] at hlater
    rcases lastHash_cases front with ⟨-, hfirst⟩ | hmem
    · rw [hfirst] at hlater
      obtain ⟨child, hchild, hroot⟩ := List.mem_map.mp hlater
      exact hzero child (mem_append_right _ hchild) hroot
    · rw [map_append] at hnodup
      exact (List.nodup_append.mp hnodup).2.2 _ hmem _ hlater rfl

/-! ### The loop of `ingest_headers` -/

/-- No more headers are stored than are given. -/
theorem ingestLoop_le {headers : List BlockHeader} {previous : Option BlockHeader} {count : ℕ}
    (h : ingestLoop params headers previous stored state = .ok (count, unknown) state') :
    count ≤ stored + headers.length := by
  induction headers generalizing previous stored state with
  | nil =>
    obtain ⟨hcount, -⟩ := Prod.mk.inj (EStateM.Result.ok.inj h).1
    rw [← hcount]
    exact Nat.le_add_right _ _
  | cons header rest ih =>
    rw [length_cons]
    obtain ⟨blockHash, -, h⟩ := check_bind_eq_ok.mp h
    rw [get_bind_apply] at h
    split_ifs at h with hknown
    · have := ih h
      omega
    · obtain ⟨⟨⟩, -, h⟩ := check_bind_eq_ok.mp h
      rw [get_bind_apply] at h
      split_ifs at h with hmissing
      · obtain ⟨hcount, -⟩ := Prod.mk.inj (EStateM.Result.ok.inj h).1
        omega
      · obtain ⟨⟨⟩, middle, -, h⟩ := run_bind_eq_ok.mp h
        have := ih h
        omega

/-- The link check of `ingest_headers` after a chain. -/
theorem HeaderChain.checkConnects_iff (chain : HeaderChain params rows) :
    checkConnects (rowHeaders rows).getLast? parentHash = .ok () ↔
      rows = [] ∨ parentHash = lastHash rows := by
  rcases eq_nil_or_concat' rows with rfl | ⟨front, last, rfl⟩
  · simp [checkConnects]
  · have hlast : (rowHeaders (front ++ [last])).getLast? = some last.2.header := by
      simp [rowHeaders]
    rw [hlast, checkConnects, chain.hashed (by simp), ok_bind, raiseIf_eq_ok, lastHash_concat]
    simp

/-- The parent of a header at the end of the chain is not missing. -/
theorem Ingested.parent_found {db : Store} (h : Ingested params rows db) :
    ¬ (lastHash rows ≠ zeroHash ∧ (db.parentRecord (lastHash rows)).isNone) := by
  rw [h.parentRecord_eq]
  rcases lastHash_cases rows with ⟨-, hzero⟩ | hmem
  · exact fun hboth => hboth.1 hzero
  · cases hlast : rows.getLast? with
    | none => simp [List.getLast?_eq_none_iff.mp hlast] at hmem
    | some last => simp

/-- **A chain is stored header by header.** -/
theorem ingestLoop_of_chain {more : List (PyStr × HeaderRow)} (h : Ingested params rows state.store)
    (chain : HeaderChain params (rows ++ more)) (hnodup : ((rows ++ more).map Prod.fst).Nodup)
    (hnonzero : ∀ entry ∈ rows ++ more, entry.1 ≠ zeroHash) :
    Returns (ingestLoop params (rowHeaders more) (rowHeaders rows).getLast? stored) state
      fun result state' => result = (stored + more.length, none) ∧
        Ingested params (rows ++ more) state'.store := by
  induction more generalizing rows stored state with
  | nil => exact .pure ⟨rfl, by simpa using h⟩
  | cons entry more ih =>
    have hassoc : rows ++ entry :: more = rows ++ [entry] ++ more := by simp
    rw [hassoc] at chain hnodup hnonzero ⊢
    obtain ⟨-, header, step⟩ := HeaderChain.concat_iff.mp chain.front
    -- The hashes are distinct and the store has no other rows, so the header is new.
    have hfresh : state.store.headers[entry.1]? = none := by
      rw [Option.eq_none_iff_forall_not_mem]
      intro row hrow
      rw [append_assoc, map_append] at hnodup
      have hkey : entry.1 ∈ rows.map Prod.fst :=
        List.mem_map.mpr ⟨(entry.1, row), h.only entry.1 row hrow, rfl⟩
      exact (List.nodup_append.mp hnodup).2.2 _ hkey entry.1 (by simp) rfl
    rw [rowHeaders, map_cons, step.header_eq]
    refine .check_bind step.hash_eq (.get_bind ?_)
    rw [if_neg (by simp [Store.getRecord, hfresh])]
    refine .check_bind (h.chain.checkConnects_iff.mpr (.inr step.link)) (.get_bind ?_)
    rw [if_neg (by rw [step.link]; exact h.parent_found)]
    have hstore := (h.storeHeader_eq_ok step.hash_eq step.link).mpr ⟨entry, step, rfl⟩
    have hnext := h.insert step hfresh (hnonzero entry (by simp))
    have hlast : (rowHeaders (rows ++ [entry])).getLast? = some header := by
      simp [rowHeaders, step.header_eq]
    refine .bind (R := fun _ state' => Ingested params (rows ++ [entry]) state'.store)
      ⟨(), _, hstore, hnext⟩ ?_
    rintro ⟨⟩ state' hnext
    rw [← hlast]
    refine (ih hnext chain hnodup hnonzero).mono ?_
    rintro result state' ⟨rfl, hrest⟩
    exact ⟨by rw [length_cons, add_assoc, add_comm 1], hrest⟩

/-- **What is stored without a gap is a chain.** -/
theorem chain_of_ingestLoop {headers : List BlockHeader} (h : Ingested params rows state.store)
    (hnonzero : ∀ header ∈ headers, header.blockHash ≠ .ok zeroHash)
    (hrun : ingestLoop params headers (rowHeaders rows).getLast? stored state =
      .ok (stored + headers.length, unknown) state') :
    ∃ more, rowHeaders more = headers ∧ Ingested params (rows ++ more) state'.store := by
  induction headers generalizing rows stored state with
  | nil =>
    obtain rfl := (EStateM.Result.ok.inj hrun).2
    exact ⟨[], rfl, by simpa using h⟩
  | cons header rest ih =>
    rw [length_cons] at hrun
    obtain ⟨blockHash, hhash, hrun⟩ := check_bind_eq_ok.mp hrun
    rw [get_bind_apply] at hrun
    split_ifs at hrun with hknown
    · -- A known header is skipped and leaves the count behind.
      have := ingestLoop_le hrun
      omega
    obtain ⟨⟨⟩, hconnects, hrun⟩ := check_bind_eq_ok.mp hrun
    rw [get_bind_apply] at hrun
    split_ifs at hrun with hmissing
    · obtain ⟨hcount, -⟩ := Prod.mk.inj (EStateM.Result.ok.inj hrun).1
      omega
    have hfresh := getRecord_eq_none hknown
    have hlink : header.previousBlockHash = lastHash rows := by
      rcases h.chain.checkConnects_iff.mp hconnects with rfl | hlink
      · rcases parent_known hmissing with hzero | ⟨row, hrow⟩
        · exact hzero
        · exact absurd (h.only _ _ hrow) not_mem_nil
      · exact hlink
    obtain ⟨⟨⟩, middle, hstore, hrun⟩ := run_bind_eq_ok.mp hrun
    obtain ⟨entry, step, rfl⟩ := (h.storeHeader_eq_ok hhash hlink).mp hstore
    obtain rfl := ok_unique hhash step.hash_eq
    have hzero : entry.1 ≠ zeroHash := fun heq =>
      hnonzero header mem_cons_self (heq ▸ hhash)
    have hlast : (rowHeaders (rows ++ [entry])).getLast? = some header := by
      simp [rowHeaders, step.header_eq]
    rw [← hlast, add_comm rest.length, ← add_assoc] at hrun
    obtain ⟨more, rfl, hmore⟩ := ih (h.insert step hfresh hzero)
      (forall_mem_of_forall_mem_cons hnonzero) hrun
    refine ⟨entry :: more, by rw [rowHeaders, map_cons, step.header_eq], ?_⟩
    rwa [append_assoc, singleton_append] at hmore

/-! ### Agreement -/

private theorem Ingested.empty : Ingested params [] Store.empty :=
  ⟨⟨.nil, fun _ hmem => absurd hmem not_mem_nil, fun _ hmem => absurd hmem not_mem_nil,
    .empty⟩, fun key row hrow => by simp [Store.empty] at hrow, rfl⟩

private theorem Ingested.missingBlocksForBest {db : Store} (h : Ingested params rows db) :
    ∃ missing, db.missingBlocksForBest = .ok missing := by
  rw [Store.missingBlocksForBest]
  cases hbest : db.findBestTip with
  | none => exact ⟨[], rfl⟩
  | some best =>
    obtain ⟨path, hpath⟩ := h.tree.exists_headerPath (Store.findBestTip_row hbest)
    have habove : db.aboveAnchor path = some path := by rw [Store.aboveAnchor, h.anchor]
    dsimp only
    rw [Store.missingBlocksForTip, h.tree.pathToRoot hpath, ok_bind, habove]
    exact ⟨_, rfl⟩

/-- `ingest_headers` on an empty store stores all of the headers, with the heights and works of the
records. -/
def StoresAll (manager : SyncManager) (records : List SnapshotHeaderRecord) : Prop :=
  Returns (ingestHeaders manager (records.map (·.header))) SyncState.empty fun result state =>
    result.headersReceived = records.length ∧
      ∀ record ∈ records, ∃ blockHash row, record.header.blockHash = .ok blockHash ∧
        state.store.headers[blockHash]? = some row ∧
        row.height.map Int.ofNat = some record.height ∧
        row.cumulativeWork.map Int.ofNat = some record.cumulativeWork

/-- What `ingest_headers` leaves of a chain. -/
theorem ingestHeaders_of_chain (manager : SyncManager)
    (chain : HeaderChain manager.node.params rows)
    (clean : HeadersCollisionFree (rowHeaders rows)) :
    Returns (ingestHeaders manager (rowHeaders rows)) SyncState.empty fun result state =>
      result.headersReceived = rows.length ∧ Ingested manager.node.params rows state.store := by
  have hloop := @ingestLoop_of_chain 0 SyncState.empty _ _ _ rows .empty chain
    (chain.nodup clean) (chain.keys_nonzero clean)
  refine .bind hloop ?_
  rintro result state ⟨rfl, hstored⟩
  obtain ⟨missing, hmissing⟩ := hstored.missingBlocksForBest
  refine .get_bind (.check_bind hmissing (.pure ⟨?_, hstored⟩))
  exact Nat.zero_add _

/-- **What `ingest_headers` stores completely.** -/
theorem storesAll_iff (manager : SyncManager) {records : List SnapshotHeaderRecord}
    (clean : HeadersCollisionFree (records.map (·.header))) :
    StoresAll manager records ↔
      ∃ rows, HeaderChain manager.node.params rows ∧ List.Forall₂ Describes records rows := by
  constructor
  · rintro ⟨result, state, hrun, hcount, hrows⟩
    obtain ⟨⟨stored, unknown⟩, middle, hloop, hrun⟩ := run_bind_eq_ok.mp hrun
    dsimp only at hrun
    rw [get_bind_apply] at hrun
    obtain ⟨missing, -, hrun⟩ := check_bind_eq_ok.mp hrun
    obtain ⟨rfl, rfl⟩ := EStateM.Result.ok.inj hrun
    obtain rfl : stored = 0 + (records.map (·.header)).length := by simpa using hcount
    obtain ⟨rows, hheaders, hstored⟩ :=
      @chain_of_ingestLoop 0 SyncState.empty _ _ _ _ [] _ .empty clean.nonzero hloop
    refine ⟨rows, hstored.chain, ?_⟩
    have hpairs : List.Forall₂ (fun record entry => record.header = entry.2.header) records
        rows := by
      have hsame := hheaders.symm
      rw [← forall₂_eq_eq_eq, rowHeaders, forall₂_map_left_iff, forall₂_map_right_iff] at hsame
      exact hsame
    rw [forall₂_iff_zip] at hpairs ⊢
    refine ⟨hpairs.1, fun {record entry} hzip => ?_⟩
    have hheader := hpairs.2 hzip
    obtain ⟨hrecord, hentry⟩ := of_mem_zip hzip
    -- The row of the record's header is the one at its place in the chain.
    obtain ⟨blockHash, row, hhash, hrow, hheight, hwork⟩ := hrows record hrecord
    rw [hheader, hstored.chain.hashed hentry] at hhash
    obtain rfl := Except.ok.inj hhash
    obtain rfl := Option.mem_unique (hstored.stored entry hentry) hrow
    exact ⟨hheader, hheight.symm, hwork.symm⟩
  · rintro ⟨rows, chain, hrows⟩
    have hheaders := headers_eq_of_describes hrows
    rw [hheaders] at clean
    rw [StoresAll, hheaders]
    refine (ingestHeaders_of_chain manager chain clean).mono ?_
    rintro result state ⟨hcount, hstored⟩
    refine ⟨hcount.trans hrows.length_eq.symm, fun record hrecord => ?_⟩
    obtain ⟨i, hi, rfl⟩ := List.mem_iff_getElem.mp hrecord
    have hi' : i < rows.length := hrows.length_eq ▸ hi
    have describes : Describes records[i] rows[i] := List.Forall₂.get hrows hi hi'
    have hmem : rows[i] ∈ rows := getElem_mem hi'
    refine ⟨rows[i].1, rows[i].2, ?_, hstored.stored _ hmem, describes.height.symm,
      describes.work.symm⟩
    rw [describes.header]
    exact chain.hashed hmem

/-- The rules for the bits at a height agree, with the header table of a download and a node whose
active chain are the headers. -/
structure RequiredBitsAgree (params : ConsensusParams) (db active : Store)
    (headers : List BlockHeader) (pathHashes : List PyStr) (height : ℕ) : Prop where
  sync : expectedBitsForCandidateHeader params db
    ((pathHashes.take height).getLast?.bind db.getRecord) height =
      expectedBitsForHeight params active height
  validated : expectedBitsForCandidateHeight params db height (headers.take height) none =
    expectedBitsForHeight params active height
  path : ∀ validatedHeaders, expectedBitsForCandidateHeight params db height validatedHeaders
    (some pathHashes) = expectedBitsForHeight params active height

private theorem ChainStored.requiredBitsAgree {db active : Store} (h : ChainStored params rows db)
    (hactive : ∀ i < rows.length, active.mainHeaderAt i = (rowHeaders rows)[i]?)
    (hheight : height ≤ rows.length) :
    RequiredBitsAgree params db active (rowHeaders rows) (rows.map Prod.fst) height := by
  have hmain : expectedBitsForHeight params active height =
      expectedBits params (fun i => (rowHeaders rows)[i]?) height :=
    expectedBits_congr fun i hi => hactive i (by omega)
  refine ⟨?_, ?_, fun validatedHeaders => ?_⟩ <;> rw [hmain]
  · -- By the download: from the header before the height.
    have hfront : ChainStored params (rows.take height) db :=
      @ChainStored.front (rows.drop height) _ _ _ _ (by rwa [take_append_drop])
    have hbits := hfront.expectedBitsForCandidateHeader_eq
    rw [length_take_of_le hheight, hfront.parentRecord_eq] at hbits
    have hrecord : ((rows.map Prod.fst).take height).getLast?.bind db.getRecord =
        (rows.take height).getLast?.map fun entry => ⟨entry.1, entry.2⟩ := by
      rw [← map_take, getLast?_map, Option.bind_map]
      cases hlast : (rows.take height).getLast? with
      | none => rfl
      | some last =>
        have hmem := mem_of_getLast? hlast
        simp [Store.getRecord, hfront.stored last hmem]
    rw [hrecord, hbits]
    refine expectedBits_congr fun i hi => ?_
    rw [rowHeaders, map_take, getElem?_take_of_lt hi]
  · -- By an activation that has validated the headers before the height.
    refine expectedBitsForCandidateHeight_eq (fun hne => ?_) fun i hi => ?_
    · rw [Store.candidatePreviousHeader, getLast?_eq_getElem?, length_take,
        length_map, min_eq_left hheight, getElem?_take_of_lt (by omega)]
    · have hwithin : i < (rowHeaders rows).length := by
        rw [length_map]
        omega
      rw [Store.candidateFirstHeader, getElem?_take_of_lt hi, getElem?_eq_getElem hwithin]
      rfl
  · -- By an activation that reads the headers of the path.
    have hpath : ∀ i < height, db.getHeaderOnPath (rows.map Prod.fst) i =
        .ok (rowHeaders rows)[i]? := by
      intro i hi
      have hwithin : i < rows.length := by omega
      have hstored := h.stored _ (getElem_mem hwithin)
      rw [Store.getHeaderOnPath, getElem?_map, rowHeaders, getElem?_map,
        getElem?_eq_getElem hwithin]
      show Except.ok (db.getHeader rows[i].1) = _
      rw [Store.getHeader_of_row hstored]
      rfl
    exact expectedBitsForCandidateHeight_eq (fun hne => hpath _ (by omega)) hpath

/-- **The header validators agree.** Of headers without hash collisions, the check of a snapshot
accepts those that `ingest_headers` stores on an empty store without leaving one out, with the
heights and works of their rows. At every height along such headers the four rules for the bits
agree, with the header table that the download leaves and any node whose active chain are the
headers. -/
theorem header_validators_agree (manager : SyncManager) (records : List SnapshotHeaderRecord)
    (clean : HeadersCollisionFree (records.map (·.header))) :
    (validateSnapshotHeaders manager.node.params records = .ok () ↔ StoresAll manager records) ∧
      (validateSnapshotHeaders manager.node.params records = .ok () →
        ∀ (pathHashes : List PyStr),
          (records.map (·.header)).mapM BlockHeader.blockHash = .ok pathHashes →
        ∀ active : Store,
          (∀ i < records.length, active.mainHeaderAt i = (records.map (·.header))[i]?) →
        ∀ height ≤ records.length, RequiredBitsAgree manager.node.params
          (Effect.after (ingestHeaders manager (records.map (·.header))) SyncState.empty).store
          active (records.map (·.header)) pathHashes height) := by
  refine ⟨validateSnapshotHeaders_iff.trans (storesAll_iff manager clean).symm, ?_⟩
  intro haccepted pathHashes hpath active hactive height hheight
  obtain ⟨rows, chain, hrows⟩ := validateSnapshotHeaders_iff.mp haccepted
  have hheaders := headers_eq_of_describes hrows
  rw [hheaders] at clean hpath hactive ⊢
  rw [hrows.length_eq] at hactive hheight
  obtain ⟨result, state, hrun, -, hstored⟩ := ingestHeaders_of_chain manager chain clean
  obtain rfl := ok_unique chain.mapM_blockHash hpath
  rw [Effect.after, hrun]
  exact hstored.requiredBitsAgree hactive hheight

end

namespace SampleAgreement

local instance platform : Platform := samplePlatform []

def manager : SyncManager := sampleManager

def header (parent : Except PyError PyStr) (timestamp bits : Int) : BlockHeader where
  version := 1
  previousBlockHash := parent.toOption.getD []
  merkleRoot := zeroHash
  timestamp := timestamp
  bits := bits
  nonce := 0

def genesis : BlockHeader := header (.ok zeroHash) 0 0x207FFFFF

def second : BlockHeader := header genesis.blockHash 1 0x207FFFFF

/-- The first header of a new window. The last one took a second, so its target is a fourth. -/
def third : BlockHeader := header second.blockHash 1 0x201FFFFF

def records : List SnapshotHeaderRecord := [⟨genesis, 0, 2⟩, ⟨second, 1, 4⟩, ⟨third, 2, 12⟩]

def pathHashes : List PyStr :=
  ([genesis, second, third].mapM BlockHeader.blockHash).toOption.getD []

/-- The header table after the download, and the same with the headers as the active chain. -/
def downloaded : Store :=
  (Effect.after (ingestHeaders manager (records.map (·.header))) SyncState.empty).store

def active : Store := { downloaded with headers := markMainChain pathHashes downloaded.headers }

private theorem headers_evaluated :
    (records.map (·.header.blockHash)).Nodup ∧
      (∀ record ∈ records, record.header.blockHash ≠ .ok zeroHash) ∧
      validateSnapshotHeaders sampleParams records = .ok () ∧
      (records.map (·.header)).mapM BlockHeader.blockHash = .ok pathHashes ∧
      (∀ i < 3, active.mainHeaderAt i = (records.map (·.header))[i]?) ∧
      expectedBitsForHeight sampleParams active 2 = .ok 0x201FFFFF := by
  decide +kernel

theorem header_validators_agree_retarget :
    StoresAll manager records ∧
      RequiredBitsAgree sampleParams downloaded active (records.map (·.header)) pathHashes 2 ∧
      expectedBitsForHeight sampleParams active 2 = .ok 0x201FFFFF := by
  obtain ⟨hnodup, hnonzero, haccepted, hpath, hactive, hbits⟩ := headers_evaluated
  have clean : HeadersCollisionFree (records.map (·.header)) := by
    refine ⟨fun a ha b hb blockHash hhash hhash' => ?_, fun a ha => ?_⟩
    · obtain ⟨first, hfirst, rfl⟩ := List.mem_map.mp ha
      obtain ⟨other, hother, rfl⟩ := List.mem_map.mp hb
      rw [inj_on_of_nodup_map hnodup hfirst hother (hhash.trans hhash'.symm)]
    · obtain ⟨record, hrecord, rfl⟩ := List.mem_map.mp ha
      exact hnonzero record hrecord
  obtain ⟨hiff, hagree⟩ := header_validators_agree manager records clean
  exact ⟨hiff.mp haccepted, hagree haccepted pathHashes hpath active hactive 2 (by decide), hbits⟩

end SampleAgreement

end Chipcoin
