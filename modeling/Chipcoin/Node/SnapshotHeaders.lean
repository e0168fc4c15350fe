import Chipcoin.Node.Sync

/-!
# Snapshot headers

A fast-sync snapshot embeds its main chain as a list of headers with heights and works. They are
checked before anything of the snapshot is imported, from the list alone.
-/

namespace Chipcoin

open Checked

/-- `SnapshotHeaderRecord`: one main-chain header of a snapshot. -/
structure SnapshotHeaderRecord where
  header : BlockHeader
  height : Int
  cumulativeWork : Int
  deriving DecidableEq

/-- The variables of the loop of `_validate_snapshot_headers`. -/
structure SnapshotHeaderLoop where
  previousHeader : Option BlockHeader := none
  previousCumulativeWork : ℕ := 0
  validatedHeaders : List BlockHeader := []

/-- The bits that the rules require of a snapshot header on top of the headers before it. -/
def snapshotExpectedBits (params : ConsensusParams) (validatedHeaders : List BlockHeader)
    (previousHeader : BlockHeader) (index : ℕ) : Except PyError Int := do
  raiseIf (params.difficultyAdjustmentWindow = 0) .zeroDivision
  if index % params.difficultyAdjustmentWindow = 0 then do
    let firstHeader ← orRaise validatedHeaders[index - params.difficultyAdjustmentWindow]?
      (.index "list index out of range")
    calculateNextWorkRequired previousHeader.bits
      (max 1 (previousHeader.timestamp - firstHeader.timestamp)) params index
  else return previousHeader.bits

section

variable [Platform]

/-- The link of a snapshot header to the one before it, and the bits that are required there. -/
def validateSnapshotLink (params : ConsensusParams) (loop : SnapshotHeaderLoop)
    (header : BlockHeader) (index : ℕ) : Except PyError Int :=
  match loop.previousHeader with
  | none => do
    raiseIf (header.previousBlockHash ≠ zeroHash)
      (.value "snapshot genesis header must anchor to the zero hash")
    return params.genesisBits
  | some previousHeader => do
    raiseIf (header.previousBlockHash ≠ (← previousHeader.blockHash))
      (.value "snapshot headers do not form a connected main chain")
    raiseIf (header.timestamp < previousHeader.timestamp)
      (.value "snapshot header timestamp is below the previous header timestamp")
    snapshotExpectedBits params loop.validatedHeaders previousHeader index

/-- One round of the loop of `_validate_snapshot_headers`. -/
def validateSnapshotHeader (params : ConsensusParams) (loop : SnapshotHeaderLoop)
    (entry : SnapshotHeaderRecord × ℕ) : Except PyError SnapshotHeaderLoop := do
  let (record, index) := entry
  let header := record.header
  raiseIf (record.height ≠ index)
    (.value "snapshot headers must form a contiguous height sequence")
  raiseIf (header.timestamp < 0) (.value "snapshot header timestamp cannot be negative")
  raiseIf ((← verifyProofOfWork header) = false)
    (.value "snapshot header proof of work is invalid")
  let expectedBits ← validateSnapshotLink params loop header index
  raiseIf (header.bits ≠ expectedBits)
    (.value "snapshot header difficulty does not match expected retarget rules")
  let cumulativeWork := loop.previousCumulativeWork + (← headerWork header)
  raiseIf (record.cumulativeWork ≠ cumulativeWork)
    (.value "snapshot cumulative work is inconsistent with embedded headers")
  return {
    previousHeader := some header
    previousCumulativeWork := cumulativeWork
    validatedHeaders := loop.validatedHeaders ++ [header] }

/-- `_validate_snapshot_headers`. -/
def validateSnapshotHeaders (params : ConsensusParams) (records : List SnapshotHeaderRecord) :
    Except PyError Unit := do
  let _ ← records.zipIdx.foldlM (validateSnapshotHeader params) {}

end

end Chipcoin
