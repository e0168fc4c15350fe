import Chipcoin.Consensus.Models

/-!
# Proof of work

Compact targets, the work of a header, the proof-of-work check and the retarget rule.
-/

namespace Chipcoin

open Checked

/-- `bits_to_target`. Masks and shifts are written as remainders and divisions, which agree with
Python's operators on negative numbers too. -/
def bitsToTarget (bits : Int) : Except PyError ℕ := do
  let exponent := bits / 2 ^ 24
  let mantissa := (bits % 2 ^ 23).toNat
  let isNegative := (bits / 2 ^ 23) % 2 = 1
  raiseIf (bits = 0 ∨ isNegative ∨ mantissa = 0)
    (.value "Invalid compact target representation.")
  return if exponent ≤ 3 then mantissa >>> (8 * (3 - exponent)).toNat
    else mantissa <<< (8 * (exponent - 3)).toNat

/-- `int.bit_length`. -/
def bitLength (n : ℕ) : ℕ := if n = 0 then 0 else n.log2 + 1

/-- `target_to_bits`. -/
def targetToBits (target : ℕ) : Except PyError ℕ := do
  raiseIf (target = 0) (.value "Target must be positive.")
  let size := (bitLength target + 7) / 8
  let mantissa := if size ≤ 3 then target <<< (8 * (3 - size)) else target >>> (8 * (size - 3))
  let signed := mantissa / 2 ^ 23 % 2 = 1
  let size := if signed then size + 1 else size
  let mantissa := if signed then mantissa >>> 8 else mantissa
  return size <<< 24 + mantissa % 2 ^ 23

/-- `header_work`. -/
def headerWork (header : BlockHeader) : Except PyError ℕ := do
  return 2 ^ 256 / ((← bitsToTarget header.bits) + 1)

section

variable [Platform]

/-- `verify_proof_of_work`. -/
def verifyProofOfWork (header : BlockHeader) : Except PyError Bool := do
  let target ← bitsToTarget header.bits
  let headerHash := fromBytesBig (doubleSha256 (← serializeBlockHeader header))
  return 0 < target ∧ target < 2 ^ 256 ∧ headerHash ≤ target

end

/-- The timespan that one adjustment window should take, for a candidate height or without one. -/
def targetTimespanSeconds (params : ConsensusParams) (candidateHeight : Option ℕ) : ℕ :=
  (match candidateHeight with
    | none => params.targetBlockTimeSeconds
    | some height => targetBlockTimeSecondsForHeight height params) *
  params.difficultyAdjustmentWindow

/-- `calculate_next_work_required`. -/
def calculateNextWorkRequired (previousBits : Int) (actualTimespanSeconds : Int)
    (params : ConsensusParams) (candidateHeight : Option ℕ) : Except PyError ℕ := do
  let targetTimespanSeconds := targetTimespanSeconds params candidateHeight
  let boundedTimespanSeconds : Int :=
    max (targetTimespanSeconds / 4 : ℕ) (min actualTimespanSeconds (targetTimespanSeconds * 4))
  let previousTarget ← bitsToTarget previousBits
  raiseIf (targetTimespanSeconds = 0) .zeroDivision
  let nextTarget := previousTarget * boundedTimespanSeconds.toNat / targetTimespanSeconds
  let powLimitTarget ← bitsToTarget params.genesisBits
  targetToBits (min nextTarget powLimitTarget)

end Chipcoin
