import Chipcoin.Consensus.Economics

/-!
# The adaptive fee curve

The fee of a reward node falls from a maximum to a minimum as the registry fills up, along a
logarithm that the source approximates in fixed point: between two powers of two it is the line
through them, rounded down. So the argument has two parts, inside one octave and across octaves.

* `approxLog2Scaled_lt`: inside its octave the line does not reach the next power of two.
* `approxLog2Scaled_mono`: hence the approximation is monotone.
* `adaptiveFee_curve`: the fee stays between its bounds, attains them at the ends, and does not
  grow.
-/

namespace Chipcoin

open Checked

/-! ### The logarithm -/

/-- The case of one is the general formula. -/
theorem approxLog2Scaled_eq (value : ℕ) :
    approxLog2Scaled value =
      value.log2 * 1000000 + (value - 2 ^ value.log2) * 1000000 / 2 ^ value.log2 := by
  rw [approxLog2Scaled]
  split_ifs with hone
  · rw [hone]
    decide
  · dsimp only
    rw [show 2 * 2 ^ value.log2 - 2 ^ value.log2 = 2 ^ value.log2 by omega]

/-- Inside its octave the line stays below the next power of two. -/
theorem approxLog2Scaled_lt (value : ℕ) :
    approxLog2Scaled value < (value.log2 + 1) * 1000000 := by
  have hupper : value < 2 ^ (value.log2 + 1) := Nat.lt_log2_self
  have hfraction : (value - 2 ^ value.log2) * 1000000 / 2 ^ value.log2 < 1000000 := by
    rw [pow_succ] at hupper
    refine Nat.div_lt_of_lt_mul ?_
    exact Nat.mul_lt_mul_of_pos_right (by omega) (by decide)
  rw [approxLog2Scaled_eq]
  omega

/-- **The approximation is monotone.** -/
theorem approxLog2Scaled_mono {n m : ℕ} (hn : 0 < n) (hnm : n ≤ m) :
    approxLog2Scaled n ≤ approxLog2Scaled m := by
  have hm : 0 < m := lt_of_lt_of_le hn hnm
  have hoctave : n.log2 ≤ m.log2 := by
    rw [Nat.le_log2 hm.ne']
    exact (Nat.log2_self_le hn.ne').trans hnm
  rcases hoctave.eq_or_lt with hsame | hlater
  · -- Both numbers lie on one line.
    rw [approxLog2Scaled_eq n, approxLog2Scaled_eq m, hsame]
    gcongr
  · calc approxLog2Scaled n ≤ (n.log2 + 1) * 1000000 := (approxLog2Scaled_lt n).le
      _ ≤ m.log2 * 1000000 := Nat.mul_le_mul_right _ hlater
      _ ≤ approxLog2Scaled m := by
        rw [approxLog2Scaled_eq m]
        exact Nat.le_add_right _ _

/-! ### The fee -/

/-- The count as the curve reads it. -/
def clampedCount (count : Int) : ℕ := (min (max count 1) 20000).toNat

private theorem clampedCount_mono {count count' : Int} (h : count ≤ count') :
    clampedCount count ≤ clampedCount count' := by
  unfold clampedCount
  omega

private theorem clampedCount_pos (count : Int) : 0 < clampedCount count := by
  unfold clampedCount
  omega

private theorem clampedCount_le (count : Int) : clampedCount count ≤ 20000 := by
  unfold clampedCount
  omega

/-- How much of the way from the maximum to the minimum a count has gone. -/
def feeReduction (count : Int) (span : ℕ) : ℕ :=
  span * approxLog2Scaled (clampedCount count) / approxLog2Scaled 20000

private theorem feeReduction_mono {count count' : Int} (h : count ≤ count') (span : ℕ) :
    feeReduction count span ≤ feeReduction count' span := by
  have hlog := approxLog2Scaled_mono (clampedCount_pos count) (clampedCount_mono h)
  unfold feeReduction
  gcongr

private theorem approxLog2Scaled_target_pos : 0 < approxLog2Scaled 20000 := by decide +kernel

private theorem feeReduction_le (count : Int) (span : ℕ) : feeReduction count span ≤ span := by
  have hlog := approxLog2Scaled_mono (clampedCount_pos count) (clampedCount_le count)
  calc feeReduction count span
      ≤ span * approxLog2Scaled 20000 / approxLog2Scaled 20000 := by
        unfold feeReduction
        gcongr
    _ = span := Nat.mul_div_cancel _ approxLog2Scaled_target_pos

/-- **The fee in closed form.** The branch for one node and the maximum with the minimum fee are
both implied by the curve. -/
theorem adaptiveRewardNodeFeeChipbits_eq {maximum minimum : ℕ} (hmin : 0 < minimum)
    (hle : minimum ≤ maximum) (count : Int) :
    adaptiveRewardNodeFeeChipbits count maximum minimum =
      .ok (maximum - feeReduction count (maximum - minimum)) := by
  have hbound := feeReduction_le count (maximum - minimum)
  rw [adaptiveRewardNodeFeeChipbits, raiseIf_bind (by omega), raiseIf_bind (by omega),
    raiseIf_bind (by omega)]
  change (if clampedCount count = 1 then pure maximum
    else pure (max (minimum : Int) (maximum - (feeReduction count (maximum - minimum) : ℕ))).toNat :
      Except PyError ℕ) = _
  split_ifs with hone
  · have hzero : feeReduction count (maximum - minimum) = 0 := by
      rw [feeReduction, hone, show approxLog2Scaled 1 = 0 from rfl, Nat.mul_zero, Nat.zero_div]
    rw [hzero]
    rfl
  · exact congrArg Except.ok (by omega)

/-- **The adaptive fee curve.** For every range of fees and every count the fee lies in the range;
it is the maximum up to one node and the minimum from twenty thousand on, and it does not grow with
the count; the logarithm below it is monotone. -/
theorem adaptiveFee_curve {maximum minimum : ℕ} (hmin : 0 < minimum) (hle : minimum ≤ maximum) :
    (∀ count : Int, ∃ fee, adaptiveRewardNodeFeeChipbits count maximum minimum = .ok fee ∧
      minimum ≤ fee ∧ fee ≤ maximum ∧ (count ≤ 1 → fee = maximum) ∧
      (20000 ≤ count → fee = minimum)) ∧
    (∀ (count count' : Int) (fee fee' : ℕ), count ≤ count' →
      adaptiveRewardNodeFeeChipbits count maximum minimum = .ok fee →
      adaptiveRewardNodeFeeChipbits count' maximum minimum = .ok fee' → fee' ≤ fee) ∧
    ∀ n m : ℕ, 0 < n → n ≤ m → approxLog2Scaled n ≤ approxLog2Scaled m := by
  refine ⟨fun count => ?_, fun count count' fee fee' hcount hfee hfee' => ?_,
    fun n m hn hnm => approxLog2Scaled_mono hn hnm⟩
  · have hbound := feeReduction_le count (maximum - minimum)
    refine ⟨_, adaptiveRewardNodeFeeChipbits_eq hmin hle count, by omega, by omega,
      fun hfew => ?_, fun hmany => ?_⟩
    · -- The logarithm of one is zero: nothing is taken off.
      have hone : clampedCount count = 1 := by
        unfold clampedCount
        omega
      rw [feeReduction, hone, show approxLog2Scaled 1 = 0 from rfl, Nat.mul_zero, Nat.zero_div]
      rfl
    · -- At the target the two logarithms cancel, and all of the range is.
      have htarget : clampedCount count = 20000 := by
        unfold clampedCount
        omega
      rw [feeReduction, htarget, Nat.mul_div_cancel _ approxLog2Scaled_target_pos]
      omega
  · rw [adaptiveRewardNodeFeeChipbits_eq hmin hle] at hfee hfee'
    have hmono := feeReduction_mono hcount (maximum - minimum)
    have hfee := Except.ok.inj hfee
    have hfee' := Except.ok.inj hfee'
    omega

/-- The registration fee of the main network with a hundred nodes and with five thousand: both lie
strictly inside the curve. -/
theorem adaptiveFee_curve_registration :
    ∃ fee fee', adaptiveRewardNodeFeeChipbits 100 100000000 10000 = .ok fee ∧
      adaptiveRewardNodeFeeChipbits 5000 100000000 10000 = .ok fee' ∧
      10000 < fee' ∧ fee' ≤ fee ∧ fee < 100000000 := by
  have hfee : adaptiveRewardNodeFeeChipbits 100 100000000 10000 = .ok 53857108 := by
    decide +kernel
  have hfee' : adaptiveRewardNodeFeeChipbits 5000 100000000 10000 = .ok 14072596 := by
    decide +kernel
  obtain ⟨-, hantitone, -⟩ :=
    adaptiveFee_curve (show 0 < 10000 by decide) (show 10000 ≤ 100000000 by decide)
  exact ⟨_, _, hfee, hfee', by decide, hantitone 100 5000 _ _ (by decide) hfee hfee', by decide⟩

end Chipcoin
