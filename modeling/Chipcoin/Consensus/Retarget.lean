import Chipcoin.Consensus.Pow
import Chipcoin.Lib.Rounding

/-!
# Compact targets and the retarget rule

A compact target is a base-256 floating number: a size in bytes and a mantissa of three bytes whose
top bit is a sign. `target_to_bits` makes room for the sign with one more byte where it would be
set, so a target of `l` bits has size `l / 8 + 1`, and what remains of it after a round trip is its
truncation to the units of that size (`compactRoundTrip`). The bounds on the round trip are then
those of truncation, and the bounds of the retarget rule follow from the clamps on the timespan.
-/

namespace Chipcoin

open Checked

variable {size target : ℕ}

/-! ### The compact format -/

/-- The size byte of a target of `l` bits. -/
def compactSize (l : ℕ) : ℕ := l / 8 + 1

/-- The bits that the compact format cuts from a target of `l` bits. -/
def compactExponent (l : ℕ) : ℕ := 8 * (compactSize l - 3)

/-- The three top bytes of a target, when it is taken to have `size` bytes. -/
def topBytes (target size : ℕ) : ℕ := target * 2 ^ (8 * (3 - size)) / 2 ^ (8 * (size - 3))

/-- The mantissa of a target: the three top bytes of its size. -/
def compactMantissa (target : ℕ) : ℕ := topBytes target (compactSize target.size)

/-- What is left of a target after a round trip through its compact form. -/
def compactRoundTrip (target : ℕ) : ℕ := Rounding.truncate compactExponent target

private theorem precise_compactExponent : Rounding.Precise compactExponent 15 := by
  intro l hpos
  unfold compactExponent compactSize at *
  omega

private theorem bitLength_eq_size (n : ℕ) : bitLength n = n.size := by
  unfold bitLength
  split
  · next h => rw [h, Nat.size_zero]
  · next h =>
    apply le_antisymm
    · exact Nat.lt_size.mpr ((Nat.le_log2 h).mp le_rfl)
    · exact Nat.size_le.mpr Nat.lt_log2_self

private theorem topBytes_eq_shift (target size : ℕ) :
    (if size ≤ 3 then target <<< (8 * (3 - size)) else target >>> (8 * (size - 3))) =
      topBytes target size := by
  unfold topBytes
  split
  · next h => rw [Nat.sub_eq_zero_of_le h, Nat.shiftLeft_eq, Nat.mul_zero, pow_zero, Nat.div_one]
  · next h =>
    rw [Nat.sub_eq_zero_of_le (show 3 ≤ size by omega), Nat.shiftRight_eq_div_pow, Nat.mul_zero,
      pow_zero, Nat.mul_one]

/-- One more byte of size is one byte less of mantissa. -/
theorem topBytes_succ (target size : ℕ) :
    topBytes target size / 2 ^ 8 = topBytes target (size + 1) := by
  unfold topBytes
  rw [Nat.div_div_eq_div_mul, ← pow_add]
  rcases Nat.lt_or_ge size 3 with hlt | hge
  · rw [show 8 * (3 - size) = 8 * (3 - (size + 1)) + 8 by omega, pow_add, ← Nat.mul_assoc,
      show 8 * (size - 3) + 8 = 8 by omega, Nat.mul_div_cancel _ (Nat.two_pow_pos 8),
      show 8 * (size + 1 - 3) = 0 by omega, pow_zero, Nat.div_one]
  · rw [show 3 - size = 3 - (size + 1) by omega,
      show 8 * (size - 3) + 8 = 8 * (size + 1 - 3) by omega]

private theorem topBytes_lt {n : ℕ} (h : target.size + 24 ≤ 8 * size + n) :
    topBytes target size < 2 ^ n := by
  unfold topBytes
  rw [Nat.div_lt_iff_lt_mul (Nat.two_pow_pos _), ← pow_add]
  calc target * 2 ^ (8 * (3 - size))
      < 2 ^ target.size * 2 ^ (8 * (3 - size)) :=
        Nat.mul_lt_mul_of_pos_right (Nat.size_le.mp le_rfl) (Nat.two_pow_pos _)
    _ = 2 ^ (target.size + 8 * (3 - size)) := (pow_add _ _ _).symm
    _ ≤ 2 ^ (n + 8 * (size - 3)) := Nat.pow_le_pow_right two_pos (by omega)

private theorem le_topBytes {n : ℕ} (hpos : 0 < target) (h : 8 * size + n < target.size + 24) :
    2 ^ n ≤ topBytes target size := by
  unfold topBytes
  rw [Nat.le_div_iff_mul_le (Nat.two_pow_pos _), ← pow_add]
  calc 2 ^ (n + 8 * (size - 3))
      ≤ 2 ^ (target.size - 1 + 8 * (3 - size)) := Nat.pow_le_pow_right two_pos (by omega)
    _ = 2 ^ (target.size - 1) * 2 ^ (8 * (3 - size)) := pow_add _ _ _
    _ ≤ target * 2 ^ (8 * (3 - size)) := Nat.mul_le_mul_right _ (Rounding.two_pow_le hpos)

private theorem compactMantissa_lt (target : ℕ) : compactMantissa target < 2 ^ 23 := by
  apply topBytes_lt
  unfold compactSize
  omega

private theorem compactMantissa_pos (h : 0 < target) : 0 < compactMantissa target := by
  have hlead : 2 ^ 15 ≤ compactMantissa target := by
    apply le_topBytes h
    unfold compactSize
    omega
  omega

/-- Shifting a mantissa back gives the target without the bits the format cuts. -/
theorem compactMantissa_shift (target : ℕ) :
    compactMantissa target * 2 ^ (8 * (compactSize target.size - 3)) /
        2 ^ (8 * (3 - compactSize target.size)) = compactRoundTrip target := by
  unfold compactMantissa topBytes compactRoundTrip Rounding.truncate Rounding.unit compactExponent
  rcases Nat.le_total (compactSize target.size) 3 with hle | hge
  · rw [show 8 * (compactSize target.size - 3) = 0 by omega, pow_zero, Nat.div_one, Nat.mul_one,
      Nat.div_one, Nat.mul_one, Nat.mul_div_cancel _ (Nat.two_pow_pos _)]
  · rw [show 8 * (3 - compactSize target.size) = 0 by omega, pow_zero, Nat.mul_one, Nat.div_one]

/-! ### The two conversions -/

/-- **`target_to_bits`** packs the size and the mantissa. The sign bit of the three top bytes is
set exactly where the bit length is a multiple of eight; one more byte then clears it. -/
theorem targetToBits_eq (h : 0 < target) :
    targetToBits target = .ok (compactSize target.size * 2 ^ 24 + compactMantissa target) := by
  have hlt : topBytes target ((target.size + 7) / 8) < 2 ^ 24 := topBytes_lt (by omega)
  have hsize : ∀ n, n <<< 24 = n * 2 ^ 24 := fun n => Nat.shiftLeft_eq n 24
  have hbyte : ∀ n, n >>> 8 = n / 2 ^ 8 := fun n => Nat.shiftRight_eq_div_pow n 8
  have hraise : (raiseIf (target = 0) (.value "Target must be positive.") : Except PyError Unit) =
      .ok () := raiseIf_eq_ok.mpr (by omega)
  have hmod : compactMantissa target % 2 ^ 23 = compactMantissa target :=
    Nat.mod_eq_of_lt (compactMantissa_lt target)
  unfold targetToBits
  simp only [hraise, ok_bind, bitLength_eq_size, topBytes_eq_shift, hsize, hbyte, topBytes_succ]
  by_cases hfull : target.size % 8 = 0
  · -- The top bit of the three bytes is set, and the size grows by one.
    have hge : 2 ^ 23 ≤ topBytes target ((target.size + 7) / 8) := le_topBytes h (by omega)
    have hnext : (target.size + 7) / 8 + 1 = compactSize target.size := by
      unfold compactSize
      omega
    have hsigned : topBytes target ((target.size + 7) / 8) / 2 ^ 23 % 2 = 1 := by omega
    rw [if_pos hsigned, if_pos hsigned, hnext, ← compactMantissa, hmod]
    rfl
  · -- The top bit is clear already.
    have hsame : (target.size + 7) / 8 = compactSize target.size := by
      unfold compactSize
      omega
    rw [hsame, ← compactMantissa]
    have hclear : ¬ compactMantissa target / 2 ^ 23 % 2 = 1 := by
      have := compactMantissa_lt target
      omega
    rw [if_neg hclear, if_neg hclear, hmod]
    rfl

/-- **`bits_to_target`** undoes the packing of a size and a positive mantissa. -/
theorem bitsToTarget_pack {mantissa : ℕ} (hpos : 0 < mantissa) (hlt : mantissa < 2 ^ 23) :
    bitsToTarget ((size * 2 ^ 24 + mantissa : ℕ) : Int) =
      .ok (mantissa * 2 ^ (8 * (size - 3)) / 2 ^ (8 * (3 - size))) := by
  have hexponent : ((size * 2 ^ 24 + mantissa : ℕ) : Int) / 2 ^ 24 = size := by omega
  have hmantissa : (((size * 2 ^ 24 + mantissa : ℕ) : Int) % 2 ^ 23).toNat = mantissa := by omega
  have hsign : ¬ ((size * 2 ^ 24 + mantissa : ℕ) : Int) / 2 ^ 23 % 2 = 1 := by omega
  have hzero : ((size * 2 ^ 24 + mantissa : ℕ) : Int) ≠ 0 := by omega
  unfold bitsToTarget
  simp only [hexponent, hmantissa, hsign, hzero, hpos.ne', or_self]
  split
  · next h =>
    rw [Nat.shiftRight_eq_div_pow, show 8 * (size - 3) = 0 by omega, pow_zero, Nat.mul_one,
      show (8 * (3 - (size : Int))).toNat = 8 * (3 - size) by omega]
    rfl
  · next h =>
    rw [Nat.shiftLeft_eq, show 8 * (3 - size) = 0 by omega, pow_zero, Nat.div_one,
      show (8 * ((size : Int) - 3)).toNat = 8 * (size - 3) by omega]
    rfl

/-- **The round trip** of a positive target truncates it. -/
theorem bitsToTarget_compact (h : 0 < target) :
    bitsToTarget ((compactSize target.size * 2 ^ 24 + compactMantissa target : ℕ) : Int) =
      .ok (compactRoundTrip target) := by
  rw [bitsToTarget_pack (compactMantissa_pos h) (compactMantissa_lt target), compactMantissa_shift]

/-- `bits_to_target(target_to_bits(target))`. -/
def roundTripTarget (target : ℕ) : Except PyError ℕ := do
  let bits ← targetToBits target
  bitsToTarget bits

private theorem roundTripTarget_eq (h : 0 < target) :
    roundTripTarget target = .ok (compactRoundTrip target) := by
  unfold roundTripTarget
  rw [targetToBits_eq h, ok_bind, bitsToTarget_compact h]

/-- A truncated target has the compact form of the whole one. -/
theorem targetToBits_compactRoundTrip (h : 0 < target) :
    targetToBits (compactRoundTrip target) = targetToBits target := by
  have hpos : 0 < compactRoundTrip target := Rounding.truncate_pos precise_compactExponent h
  have hsize : (compactRoundTrip target).size = target.size :=
    Rounding.size_truncate precise_compactExponent h
  have htop : compactMantissa (compactRoundTrip target) = compactMantissa target := by
    unfold compactMantissa topBytes
    rw [hsize]
    rcases Nat.le_total (compactSize target.size) 3 with hle | hge
    · -- Targets of up to three bytes are not cut.
      have hwhole : compactRoundTrip target = target := by
        unfold compactRoundTrip Rounding.truncate Rounding.unit compactExponent
        rw [show 8 * (compactSize target.size - 3) = 0 by omega, pow_zero, Nat.div_one, Nat.mul_one]
      rw [hwhole]
    · rw [show 8 * (3 - compactSize target.size) = 0 by omega, pow_zero, Nat.mul_one, Nat.mul_one]
      exact Rounding.truncate_div_unit target
  rw [targetToBits_eq hpos, targetToBits_eq h, hsize, htop]

private theorem sub_compactRoundTrip_lt (h : 0 < target) :
    (target : ℚ) - compactRoundTrip target < target / 2 ^ 15 := by
  have hlt := Rounding.sub_truncate_lt precise_compactExponent h
  have hle : compactRoundTrip target ≤ target := Rounding.truncate_le compactExponent target
  rw [lt_div_iff₀ (by positivity), ← Nat.cast_sub hle]
  exact_mod_cast hlt

/-! ### The retarget rule -/

/-- The timespan that the rule uses in place of the measured one. -/
def boundedTimespan (T : ℕ) (actual : Int) : ℕ :=
  (max ((T / 4 : ℕ) : Int) (min actual (T * 4))).toNat

private theorem le_boundedTimespan (T : ℕ) (actual : Int) : T / 4 ≤ boundedTimespan T actual := by
  unfold boundedTimespan
  omega

private theorem boundedTimespan_le (T : ℕ) (actual : Int) : boundedTimespan T actual ≤ 4 * T := by
  unfold boundedTimespan
  omega

private theorem boundedTimespan_mono (T : ℕ) : Monotone (boundedTimespan T) := by
  intro actual later hle
  unfold boundedTimespan
  omega

/-- The target that is packed at a retarget. -/
def nextTarget (previousTarget powLimit T : ℕ) (actual : Int) : ℕ :=
  min (previousTarget * boundedTimespan T actual / T) powLimit

section

variable {params : ConsensusParams} {candidateHeight : Option ℕ} {previousBits : Int}
  {previousTarget powLimit : ℕ}

private theorem calculateNextWorkRequired_eq
    (hprevious : bitsToTarget previousBits = .ok previousTarget)
    (hlimit : bitsToTarget params.genesisBits = .ok powLimit)
    (hspan : 0 < targetTimespanSeconds params candidateHeight) (actual : Int) :
    calculateNextWorkRequired previousBits actual params candidateHeight =
      targetToBits (nextTarget previousTarget powLimit
        (targetTimespanSeconds params candidateHeight) actual) := by
  have hraise : (raiseIf (targetTimespanSeconds params candidateHeight = 0) .zeroDivision :
      Except PyError Unit) = .ok () := raiseIf_eq_ok.mpr hspan.ne'
  unfold calculateNextWorkRequired
  simp only [hprevious, hlimit, hraise, ok_bind]
  rfl

end

private theorem nextTarget_mono (previousTarget powLimit T : ℕ) :
    Monotone (nextTarget previousTarget powLimit T) := by
  intro actual later hle
  exact min_le_min_right _
    (Nat.div_le_div_right (Nat.mul_le_mul_left _ (boundedTimespan_mono T hle)))

private theorem nextTarget_le (previousTarget powLimit : ℕ) {T : ℕ} (hT : 0 < T) (actual : Int) :
    nextTarget previousTarget powLimit T actual ≤ min powLimit (4 * previousTarget) := by
  rw [nextTarget, min_comm powLimit]
  apply min_le_min_right
  calc previousTarget * boundedTimespan T actual / T
      ≤ previousTarget * (4 * T) / T :=
        Nat.div_le_div_right (Nat.mul_le_mul_left _ (boundedTimespan_le T actual))
    _ = 4 * previousTarget := by
        rw [← Nat.mul_assoc, Nat.mul_div_cancel _ hT, Nat.mul_comm]

private theorem le_nextTarget (previousTarget powLimit T : ℕ) (actual : Int) :
    min powLimit (previousTarget * (T / 4) / T) ≤ nextTarget previousTarget powLimit T actual := by
  rw [nextTarget, min_comm]
  exact min_le_min_right _ (Nat.div_le_div_right
    (Nat.mul_le_mul_left _ (le_boundedTimespan T actual)))

/-- A quarter of a timespan of at least four is more than an eighth of it. -/
theorem nextTarget_pos {previousTarget powLimit T : ℕ} (h8 : 8 ≤ previousTarget)
    (hlimit : previousTarget ≤ powLimit) (hT : 4 ≤ T) (actual : Int) :
    0 < nextTarget previousTarget powLimit T actual := by
  apply lt_of_lt_of_le _ (le_nextTarget previousTarget powLimit T actual)
  refine lt_min (by omega) (Nat.div_pos ?_ (by omega))
  calc T ≤ 8 * (T / 4) := by omega
    _ ≤ previousTarget * (T / 4) := Nat.mul_le_mul_right _ h8

/-- **Compact targets and retargeting.** The round trip of a target through its compact form is
defined, loses less than one part in `2 ^ 15`, is monotone and has the same compact form. Hence a
retarget does not raise; its target is positive, within the limit and four times the previous one,
above the lower clamp up to that loss, and monotone in the measured timespan. -/
theorem compactTargets_retarget_bounds :
    (∀ target : ℕ, 0 < target → ∃ trip, roundTripTarget target = .ok trip ∧ trip ≤ target ∧
      (target : ℚ) - trip < target / 2 ^ 15 ∧ targetToBits trip = targetToBits target ∧
      ∀ larger, target ≤ larger → ∃ trip', roundTripTarget larger = .ok trip' ∧ trip ≤ trip') ∧
    (∀ (params : ConsensusParams) (candidateHeight : Option ℕ) (previousBits : Int)
        (previousTarget powLimit : ℕ),
      bitsToTarget previousBits = .ok previousTarget → bitsToTarget params.genesisBits =
        .ok powLimit →
      8 ≤ previousTarget → previousTarget ≤ powLimit →
      4 ≤ targetTimespanSeconds params candidateHeight →
      ∀ actual : Int, 0 ≤ actual → ∃ (bits : ℕ) (target : ℕ),
        calculateNextWorkRequired previousBits actual params candidateHeight = .ok bits ∧
        bitsToTarget bits = .ok target ∧ 0 < target ∧
        target ≤ min powLimit (4 * previousTarget) ∧
        (1 - 1 / 2 ^ 15 : ℚ) * (min powLimit (previousTarget *
          (targetTimespanSeconds params candidateHeight / 4) /
            targetTimespanSeconds params candidateHeight) : ℕ) < target ∧
        ∀ later, actual ≤ later → ∃ (bits' : ℕ) (target' : ℕ),
          calculateNextWorkRequired previousBits later params candidateHeight = .ok bits' ∧
          bitsToTarget bits' = .ok target' ∧ target ≤ target') := by
  have hmono : Monotone compactRoundTrip := Rounding.truncate_mono precise_compactExponent
  have hle := Rounding.truncate_le compactExponent
  refine ⟨?_, ?_⟩
  · intro target htarget
    refine ⟨_, roundTripTarget_eq htarget, hle target, sub_compactRoundTrip_lt htarget,
      targetToBits_compactRoundTrip htarget, ?_⟩
    intro larger hlarger
    exact ⟨_, roundTripTarget_eq (by omega), hmono hlarger⟩
  · intro params candidateHeight previousBits previousTarget powLimit hprevious hlimit h8 hbelow hT
      actual _
    set T := targetTimespanSeconds params candidateHeight
    -- A retarget is the round trip of the clamped target, for every timespan.
    have hpacked := fun span => (calculateNextWorkRequired_eq hprevious hlimit
      (show 0 < targetTimespanSeconds params candidateHeight by omega) span).trans
        (targetToBits_eq (nextTarget_pos h8 hbelow hT span))
    have hread := fun span => bitsToTarget_compact (nextTarget_pos h8 hbelow hT span)
    have hpos := nextTarget_pos h8 hbelow hT actual
    have hloss := sub_compactRoundTrip_lt hpos
    refine ⟨_, _, hpacked actual, hread actual,
      Rounding.truncate_pos precise_compactExponent hpos,
      (hle _).trans (nextTarget_le previousTarget powLimit (by omega) actual), ?_, ?_⟩
    · -- The clamp bounds the exact target; the round trip takes one part in `2 ^ 15` of it.
      have hlower : ((min powLimit (previousTarget * (T / 4) / T) : ℕ) : ℚ) ≤
          (nextTarget previousTarget powLimit T actual : ℚ) :=
        Nat.cast_le.mpr (le_nextTarget previousTarget powLimit T actual)
      linarith
    · intro later hlater
      exact ⟨_, _, hpacked later, hread later,
        hmono (nextTarget_mono previousTarget powLimit T hlater)⟩

/-- The bounds at a target of two bytes, and for a window mined at once from the limit target. -/
theorem compactTargets_retarget_sample :
    (∃ trip, roundTripTarget 1000 = .ok trip ∧ trip ≤ 1000) ∧
      ∃ bits target : ℕ,
        calculateNextWorkRequired 0x207FFFFF 0 sampleParams none = .ok bits ∧
          bitsToTarget bits = .ok target ∧ 0 < target := by
  obtain ⟨htrips, hretargets⟩ := compactTargets_retarget_bounds
  refine ⟨?_, ?_⟩
  · obtain ⟨trip, hdefined, hle, -⟩ := htrips 1000 (by decide)
    exact ⟨trip, hdefined, hle⟩
  · have hlimit : bitsToTarget 0x207FFFFF = .ok (0x7FFFFF * 2 ^ 232) := by decide
    obtain ⟨bits, target, hbits, htarget, hpos, -⟩ := hretargets sampleParams none 0x207FFFFF _ _
      hlimit hlimit (by decide) le_rfl (by decide) 0 le_rfl
    exact ⟨bits, target, hbits, htarget, hpos⟩

end Chipcoin
