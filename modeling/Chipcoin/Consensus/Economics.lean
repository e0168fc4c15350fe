import Chipcoin.Consensus.Nodes

/-!
# Monetary policy

The halving schedule of the miner subsidy and of the epoch node reward, the totals minted through
a height under the supply cap, and the adaptive reward-node fees.

The source computes the totals era by era and finds the height at which the cap bites by binary
search. `totalSubsidyThroughHeight_eq` reduces both to their meaning: the scheduled sum, clamped
at the cap.
-/

namespace Chipcoin

open Checked

variable {current eraEnd x : ℕ}

/-! ### The schedule -/

/-- `_regular_miner_subsidy_chipbits`. -/
def regularMinerSubsidyChipbits (height : ℕ) (params : ConsensusParams) : ℕ :=
  params.initialMinerSubsidyChipbits >>> (height / params.halvingInterval)

/-- `_regular_node_epoch_reward_chipbits`. -/
def regularNodeEpochRewardChipbits (height : ℕ) (params : ConsensusParams) : ℕ :=
  params.initialNodeEpochRewardChipbits >>> (height / params.halvingInterval)

/-- `is_epoch_reward_height`. -/
def isEpochRewardHeight (height : ℕ) (params : ConsensusParams) : Bool :=
  (height + 1) % params.epochLengthBlocks = 0

/-- `_scheduled_node_epoch_reward_chipbits`. -/
def scheduledNodeEpochRewardChipbits (height : ℕ) (params : ConsensusParams) : ℕ :=
  if isEpochRewardHeight height params then regularNodeEpochRewardChipbits height params else 0

/-- The first height from `currentHeight` on that closes an epoch. -/
def firstEpochHeight (currentHeight : ℕ) (params : ConsensusParams) : ℕ :=
  currentHeight +
    (((params.epochLengthBlocks : Int) - 1 - currentHeight) % params.epochLengthBlocks).toNat

/-- How many epoch-closing heights lie between two heights. -/
def epochRewardCount (currentHeight eraEnd : ℕ) (params : ConsensusParams) : ℕ :=
  if firstEpochHeight currentHeight params ≤ eraEnd then
    (eraEnd - firstEpochHeight currentHeight params) / params.epochLengthBlocks + 1
  else 0

/-- The loop of `_uncapped_subsidy_totals_through_height`: one round for each halving era. -/
def uncappedLoop (params : ConsensusParams) (height : ℕ) : ℕ → ℕ → ℕ × ℕ → ℕ × ℕ
  | 0, _, totals => totals
  | fuel + 1, currentHeight, totals =>
    if currentHeight ≤ height then
      let halving := currentHeight / params.halvingInterval
      let minerSubsidy := params.initialMinerSubsidyChipbits >>> halving
      let nodeReward := params.initialNodeEpochRewardChipbits >>> halving
      if minerSubsidy = 0 ∧ nodeReward = 0 then totals
      else
        let eraEnd := min height ((halving + 1) * params.halvingInterval - 1)
        uncappedLoop params height fuel (eraEnd + 1)
          (totals.1 + minerSubsidy * (eraEnd - currentHeight + 1),
            totals.2 + nodeReward * epochRewardCount currentHeight eraEnd params)
    else totals

/-- `_uncapped_subsidy_totals_through_height`. -/
def uncappedSubsidyTotalsThroughHeight (height : Int) (params : ConsensusParams) : ℕ × ℕ :=
  if height < 0 then (0, 0) else uncappedLoop params height.toNat (height.toNat + 1) 0 (0, 0)

/-- The binary search of `subsidy_totals_through_height` for the height at which the cap is
reached. -/
def capSearch (params : ConsensusParams) : ℕ → ℕ → ℕ → ℕ
  | 0, low, _ => low
  | fuel + 1, low, high =>
    if low < high then
      let midpoint := (low + high) / 2
      let totals := uncappedSubsidyTotalsThroughHeight midpoint params
      if totals.1 + totals.2 ≥ params.maxMoneyChipbits then capSearch params fuel low midpoint
      else capSearch params fuel (midpoint + 1) high
    else low

/-- `subsidy_totals_through_height`. -/
def subsidyTotalsThroughHeight (height : Int) (params : ConsensusParams) : ℕ × ℕ :=
  if height < 0 then (0, 0)
  else
    let totals := uncappedSubsidyTotalsThroughHeight height params
    if totals.1 + totals.2 ≤ params.maxMoneyChipbits then totals
    else
      let capHeight := capSearch params (height.toNat + 1) 0 height.toNat
      let before := uncappedSubsidyTotalsThroughHeight ((capHeight : Int) - 1) params
      let remainingSupply := params.maxMoneyChipbits - before.1 - before.2
      let minerAtCap := min (regularMinerSubsidyChipbits capHeight params) remainingSupply
      let nodeAtCap :=
        min (scheduledNodeEpochRewardChipbits capHeight params) (remainingSupply - minerAtCap)
      (before.1 + minerAtCap, before.2 + nodeAtCap)

/-- `total_subsidy_through_height`. -/
def totalSubsidyThroughHeight (height : Int) (params : ConsensusParams) : ℕ :=
  (subsidyTotalsThroughHeight height params).1 + (subsidyTotalsThroughHeight height params).2

/-- `subsidy_split_chipbits`. -/
def subsidySplitChipbits (height : ℕ) (params : ConsensusParams) : ℕ × ℕ :=
  let scheduledMinerSubsidy := regularMinerSubsidyChipbits height params
  let scheduledNodeReward := scheduledNodeEpochRewardChipbits height params
  if scheduledMinerSubsidy = 0 ∧ scheduledNodeReward = 0 then (0, 0)
  else
    let mintedBefore := totalSubsidyThroughHeight ((height : Int) - 1) params
    let remainingSupply := params.maxMoneyChipbits - mintedBefore
    if remainingSupply = 0 then (0, 0)
    else
      let minerSubsidy := min scheduledMinerSubsidy remainingSupply
      (minerSubsidy, min scheduledNodeReward (remainingSupply - minerSubsidy))

/-! ### Adaptive fees -/

/-- `reward_fee_node_count`. -/
def rewardFeeNodeCount (view : NodeRegistryView) (height : ℕ) (params : ConsensusParams) : ℕ :=
  if height < params.rewardNodeFeeRecentDriverActivationHeight then
    view.listRecords.countP (·.rewardRegistration)
  else
    let minimumEpoch := height / params.epochLengthBlocks - 2
    view.listRecords.countP fun record =>
      record.rewardRegistration ∧
        record.lastRenewedHeight / params.epochLengthBlocks ≥ minimumEpoch

/-- `_approx_log2_scaled`, on the positive counts it is applied to. -/
def approxLog2Scaled (value : ℕ) : ℕ :=
  if value = 1 then 0
  else
    let exponent := value.log2
    let lower := 2 ^ exponent
    exponent * 1000000 + (value - lower) * 1000000 / (2 * lower - lower)

/-- `_adaptive_reward_node_fee_chipbits`. -/
def adaptiveRewardNodeFeeChipbits (registeredRewardNodeCount : Int)
    (maximumFeeChipbits minimumFeeChipbits : ℕ) : Except PyError ℕ := do
  raiseIf (maximumFeeChipbits = 0) (.value "Maximum fee must be positive.")
  raiseIf (minimumFeeChipbits = 0) (.value "Minimum fee must be positive.")
  raiseIf (minimumFeeChipbits > maximumFeeChipbits)
    (.value "Minimum fee cannot exceed maximum fee.")
  let clampedCount := (min (max registeredRewardNodeCount 1) 20000).toNat
  if clampedCount = 1 then return maximumFeeChipbits
  else
    let span := maximumFeeChipbits - minimumFeeChipbits
    let reducedFee : Int := maximumFeeChipbits -
      (span * approxLog2Scaled clampedCount / approxLog2Scaled 20000 : ℕ)
    return (max (minimumFeeChipbits : Int) reducedFee).toNat

/-- `register_reward_node_fee_chipbits`. -/
def registerRewardNodeFeeChipbits (registeredRewardNodeCount : ℕ) (params : ConsensusParams) :
    Except PyError ℕ :=
  adaptiveRewardNodeFeeChipbits registeredRewardNodeCount params.registerNodeFeeChipbits 10000

/-- `renew_reward_node_fee_chipbits`. -/
def renewRewardNodeFeeChipbits (registeredRewardNodeCount : ℕ) (params : ConsensusParams) :
    Except PyError ℕ :=
  adaptiveRewardNodeFeeChipbits registeredRewardNodeCount params.renewNodeFeeChipbits 1000

/-! ### The schedule in closed form

The era-wise loop sums the schedule over all heights, and the cap search finds the least height
at which the sum reaches the cap. -/

section Schedule

variable (params : ConsensusParams)

/-- What the schedule mints below height `n` when there is no cap. -/
def scheduledSum (n : ℕ) : ℕ :=
  ∑ x ∈ Finset.range n,
    (regularMinerSubsidyChipbits x params + scheduledNodeEpochRewardChipbits x params)

private theorem scheduledSum_succ (n : ℕ) :
    scheduledSum params (n + 1) = scheduledSum params n +
      (regularMinerSubsidyChipbits n params + scheduledNodeEpochRewardChipbits n params) :=
  Finset.sum_range_succ _ _

private theorem scheduledSum_mono : Monotone (scheduledSum params) :=
  monotone_nat_of_le_succ fun n => by rw [scheduledSum_succ]; omega

private theorem le_firstEpochHeight (current : ℕ) : current ≤ firstEpochHeight current params :=
  Nat.le_add_right _ _

private theorem firstEpochHeight_lt (current : ℕ) :
    firstEpochHeight current params < current + params.epochLengthBlocks := by
  have hpos := params.epochLengthBlocks_pos
  have hlt := Int.emod_lt_of_pos ((params.epochLengthBlocks : Int) - 1 - current)
    (show (0 : Int) < params.epochLengthBlocks by omega)
  unfold firstEpochHeight
  omega

private theorem epochLength_dvd_firstEpochHeight (current : ℕ) :
    params.epochLengthBlocks ∣ firstEpochHeight current params + 1 := by
  have hpos := params.epochLengthBlocks_pos
  set E : Int := (params.epochLengthBlocks : Int) with hE
  have hnonneg := Int.emod_nonneg (E - 1 - current) (show E ≠ 0 by omega)
  have hdiv := Int.emod_add_mul_ediv (E - 1 - current) E
  -- Written over the integers: `first + 1 = E - E * ((E - 1 - current) / E)`.
  rw [← Int.natCast_dvd_natCast]
  refine ⟨1 - (E - 1 - current) / E, ?_⟩
  unfold firstEpochHeight
  push_cast
  rw [← hE, Int.toNat_of_nonneg hnonneg]
  linarith

/-- From `current` on, the epoch-closing heights are the first one and its translates. -/
theorem isEpochRewardHeight_iff (hx : current ≤ x) :
    isEpochRewardHeight x params ↔
      firstEpochHeight current params ≤ x ∧
        params.epochLengthBlocks ∣ x - firstEpochHeight current params := by
  have hfirst := epochLength_dvd_firstEpochHeight params current
  have hlt := firstEpochHeight_lt params current
  simp only [isEpochRewardHeight, decide_eq_true_eq, ← Nat.dvd_iff_mod_eq_zero]
  constructor
  · intro h
    have hle : firstEpochHeight current params ≤ x := by
      by_contra hcon
      -- Two multiples of the epoch length less than one epoch apart are equal.
      have hsub := Nat.dvd_sub hfirst h
      have := Nat.le_of_dvd (by omega) hsub
      omega
    refine ⟨hle, ?_⟩
    have hsub := Nat.dvd_sub h hfirst
    rwa [Nat.add_sub_add_right] at hsub
  · rintro ⟨hle, hdvd⟩
    have hsum := Nat.dvd_add hdvd hfirst
    rwa [show x - firstEpochHeight current params + (firstEpochHeight current params + 1) = x + 1
      by omega] at hsum

private theorem epochRewardCount_succ (h : current ≤ eraEnd) :
    epochRewardCount current (eraEnd + 1) params =
      epochRewardCount current eraEnd params +
        if isEpochRewardHeight (eraEnd + 1) params then 1 else 0 := by
  have hiff := isEpochRewardHeight_iff params (show current ≤ eraEnd + 1 by omega)
  unfold epochRewardCount
  by_cases hle : firstEpochHeight current params ≤ eraEnd
  · rw [if_pos (show firstEpochHeight current params ≤ eraEnd + 1 by omega), if_pos hle,
      Nat.sub_add_comm hle, Nat.succ_div, ← Nat.sub_add_comm hle]
    by_cases hepoch : params.epochLengthBlocks ∣ eraEnd + 1 - firstEpochHeight current params
    · rw [if_pos hepoch, if_pos (hiff.mpr ⟨by omega, hepoch⟩)]
    · rw [if_neg hepoch, if_neg fun hcon => hepoch (hiff.mp hcon).2]
  · rw [if_neg hle]
    by_cases heq : firstEpochHeight current params = eraEnd + 1
    · rw [if_pos heq.le, if_pos (hiff.mpr ⟨heq.le, by simp [heq]⟩)]
      simp [heq]
    · rw [if_neg (show ¬ firstEpochHeight current params ≤ eraEnd + 1 by omega),
        if_neg fun hcon => heq (by have := (hiff.mp hcon).1; omega)]

private theorem epochRewardCount_self (current : ℕ) :
    epochRewardCount current current params =
      if isEpochRewardHeight current params then 1 else 0 := by
  have hiff := isEpochRewardHeight_iff params (le_refl current)
  have hle := le_firstEpochHeight params current
  unfold epochRewardCount
  by_cases h : firstEpochHeight current params = current
  · rw [if_pos h.le, if_pos (hiff.mpr ⟨h.le, by simp [h]⟩)]
    simp [h]
  · rw [if_neg (by omega), if_neg fun hcon => h (by have := (hiff.mp hcon).1; omega)]

/-- Within one era the node rewards add up to the era's reward times the number of epochs
closed. -/
theorem sum_scheduledNode_era {reward : ℕ} (h : current ≤ eraEnd)
    (hera : ∀ x, current ≤ x → x ≤ eraEnd → regularNodeEpochRewardChipbits x params = reward) :
    ∑ x ∈ Finset.Ico current (eraEnd + 1), scheduledNodeEpochRewardChipbits x params =
      reward * epochRewardCount current eraEnd params := by
  induction eraEnd, h using Nat.le_induction with
  | base =>
    rw [Nat.Ico_succ_singleton, Finset.sum_singleton, epochRewardCount_self,
      scheduledNodeEpochRewardChipbits, hera current le_rfl le_rfl]
    split <;> simp
  | succ eraEnd hle ih =>
    rw [Finset.sum_Ico_succ_top (by omega), ih fun x hx hx' => hera x hx (by omega),
      epochRewardCount_succ params hle, scheduledNodeEpochRewardChipbits,
      hera (eraEnd + 1) (by omega) le_rfl]
    split <;> ring

private theorem sum_regularMiner_era {subsidy : ℕ} (h : current ≤ eraEnd)
    (hera : ∀ x, current ≤ x → x ≤ eraEnd → regularMinerSubsidyChipbits x params = subsidy) :
    ∑ x ∈ Finset.Ico current (eraEnd + 1), regularMinerSubsidyChipbits x params =
      subsidy * (eraEnd - current + 1) := by
  rw [Finset.sum_congr rfl fun x hx => hera x (Finset.mem_Ico.mp hx).1
    (Nat.lt_succ_iff.mp (Finset.mem_Ico.mp hx).2), Finset.sum_const, Nat.card_Ico, smul_eq_mul,
    mul_comm, show eraEnd.succ - current = eraEnd - current + 1 by omega]

/-- Once a halving has driven a subsidy to zero, it stays there. -/
theorem shiftRight_halvings_eq_zero {initial : ℕ} (hx : current ≤ x)
    (h : initial >>> (current / params.halvingInterval) = 0) :
    initial >>> (x / params.halvingInterval) = 0 := by
  rw [Nat.shiftRight_eq_div_pow] at h ⊢
  have hexp := Nat.div_le_div_right (c := params.halvingInterval) hx
  have hpow := Nat.pow_le_pow_right (show 0 < 2 by omega) hexp
  exact Nat.le_zero.mp (h ▸ Nat.div_le_div_left hpow (by positivity))

/-- The halving does not change before the era ends. -/
theorem div_halvingInterval_eq (hx : current ≤ x)
    (hend : x ≤ (current / params.halvingInterval + 1) * params.halvingInterval - 1) :
    x / params.halvingInterval = current / params.halvingInterval := by
  have hpos := params.halvingInterval_pos
  have hle := Nat.div_le_div_right (c := params.halvingInterval) hx
  have hmul : 0 < (current / params.halvingInterval + 1) * params.halvingInterval := by
    positivity
  have hlt : x / params.halvingInterval < current / params.halvingInterval + 1 :=
    Nat.div_lt_of_lt_mul (by rw [mul_comm]; omega)
  omega

/-- **The era loop** adds the schedule of the heights that are left. -/
theorem uncappedLoop_eq (height fuel current : ℕ) (totals : ℕ × ℕ)
    (hfuel : height + 1 ≤ current + fuel) :
    uncappedLoop params height fuel current totals =
      (totals.1 + ∑ x ∈ Finset.Ico current (height + 1), regularMinerSubsidyChipbits x params,
        totals.2 +
          ∑ x ∈ Finset.Ico current (height + 1), scheduledNodeEpochRewardChipbits x params) := by
  induction fuel generalizing current totals with
  | zero => simp [uncappedLoop, Finset.Ico_eq_empty_of_le (show height + 1 ≤ current by omega)]
  | succ fuel ih =>
    unfold uncappedLoop
    by_cases hcurrent : current ≤ height
    swap
    · rw [if_neg hcurrent, Finset.Ico_eq_empty_of_le (by omega)]
      simp
    rw [if_pos hcurrent]
    simp only
    split
    · next hzero =>
      -- Both subsidies are exhausted: nothing more is scheduled.
      have hminer : ∀ x ∈ Finset.Ico current (height + 1),
          regularMinerSubsidyChipbits x params = 0 := fun x hx =>
        shiftRight_halvings_eq_zero params (Finset.mem_Ico.mp hx).1 hzero.1
      have hnode : ∀ x ∈ Finset.Ico current (height + 1),
          scheduledNodeEpochRewardChipbits x params = 0 := fun x hx => by
        simp [scheduledNodeEpochRewardChipbits, regularNodeEpochRewardChipbits,
          shiftRight_halvings_eq_zero params (Finset.mem_Ico.mp hx).1 hzero.2]
      rw [Finset.sum_eq_zero hminer, Finset.sum_eq_zero hnode]
      simp
    · set eraEnd := min height
        ((current / params.halvingInterval + 1) * params.halvingInterval - 1) with hera
      have hend : current ≤ eraEnd := by
        have hlt := Nat.lt_mul_div_succ current params.halvingInterval_pos
        rw [mul_comm] at hlt
        omega
      have hconst : ∀ x, current ≤ x → x ≤ eraEnd →
          x / params.halvingInterval = current / params.halvingInterval := fun x hx hx' =>
        div_halvingInterval_eq params hx (by omega)
      rw [ih (eraEnd + 1) _ (by omega),
        ← Finset.sum_Ico_consecutive _ (show current ≤ eraEnd + 1 by omega)
          (show eraEnd + 1 ≤ height + 1 by omega),
        ← Finset.sum_Ico_consecutive (fun x => scheduledNodeEpochRewardChipbits x params)
          (show current ≤ eraEnd + 1 by omega) (show eraEnd + 1 ≤ height + 1 by omega),
        sum_regularMiner_era params hend fun x hx hx' => by
          rw [regularMinerSubsidyChipbits, hconst x hx hx'],
        sum_scheduledNode_era params hend fun x hx hx' => by
          rw [regularNodeEpochRewardChipbits, hconst x hx hx']]
      simp only [add_assoc]

private theorem uncappedTotals_add (height : ℕ) :
    (uncappedSubsidyTotalsThroughHeight height params).1 +
      (uncappedSubsidyTotalsThroughHeight height params).2 = scheduledSum params (height + 1) := by
  have hloop := uncappedLoop_eq params height (height + 1) 0 (0, 0) (by omega)
  simp only [uncappedSubsidyTotalsThroughHeight, Int.toNat_natCast,
    if_neg (show ¬ (height : Int) < 0 by omega), hloop, zero_add]
  rw [scheduledSum, Finset.sum_add_distrib, Finset.range_eq_Ico]

/-- The totals through the height below `n`, for `n = 0` included. -/
theorem uncappedTotals_pred_add (n : ℕ) :
    (uncappedSubsidyTotalsThroughHeight ((n : Int) - 1) params).1 +
      (uncappedSubsidyTotalsThroughHeight ((n : Int) - 1) params).2 = scheduledSum params n := by
  cases n with
  | zero => simp [uncappedSubsidyTotalsThroughHeight, scheduledSum]
  | succ n =>
    rw [show ((n + 1 : ℕ) : Int) - 1 = n by omega]
    exact uncappedTotals_add params n

/-- **The cap search.** Given that the cap is reached at `high` and not below `low`, the search
returns the least height at which it is reached. -/
theorem capSearch_spec (fuel low high : ℕ) (hfuel : high < low + fuel) (hle : low ≤ high)
    (hhigh : params.maxMoneyChipbits ≤ scheduledSum params (high + 1))
    (hlow : scheduledSum params low < params.maxMoneyChipbits ∨ low = 0) :
    params.maxMoneyChipbits ≤ scheduledSum params (capSearch params fuel low high + 1) ∧
      (scheduledSum params (capSearch params fuel low high) < params.maxMoneyChipbits ∨
        capSearch params fuel low high = 0) := by
  induction fuel generalizing low high with
  | zero => omega
  | succ fuel ih =>
    unfold capSearch
    by_cases hlt : low < high
    swap
    · rw [if_neg hlt, show low = high by omega]
      exact ⟨hhigh, by rwa [show low = high by omega] at hlow⟩
    rw [if_pos hlt]
    simp only [uncappedTotals_add]
    split
    · next hmid => exact ih low _ (by omega) (by omega) hmid hlow
    · next hmid => exact ih _ high (by omega) (by omega) hhigh (.inl (by omega))

/-- The height that the search for the cap finds. -/
theorem capSearch_reached {height : ℕ}
    (hcap : ¬ scheduledSum params (height + 1) ≤ params.maxMoneyChipbits) :
    params.maxMoneyChipbits ≤ scheduledSum params (capSearch params (height + 1) 0 height + 1) ∧
      scheduledSum params (capSearch params (height + 1) 0 height) ≤ params.maxMoneyChipbits := by
  obtain ⟨hreach, hbelow⟩ := capSearch_spec params (height + 1) 0 height (by omega)
    (by omega) (by omega) (.inr rfl)
  refine ⟨hreach, ?_⟩
  rcases hbelow with h | h
  · exact h.le
  · simp [h, scheduledSum]

/-- **Closed form of the minted total.** It is the scheduled sum, clamped at the cap. -/
theorem totalSubsidyThroughHeight_eq (n : ℕ) :
    totalSubsidyThroughHeight ((n : Int) - 1) params =
      min (scheduledSum params n) params.maxMoneyChipbits := by
  cases n with
  | zero => simp [totalSubsidyThroughHeight, subsidyTotalsThroughHeight, scheduledSum]
  | succ height =>
    rw [show ((height + 1 : ℕ) : Int) - 1 = height by omega]
    simp only [totalSubsidyThroughHeight, subsidyTotalsThroughHeight, uncappedTotals_add,
      if_neg (show ¬ (height : Int) < 0 by omega), Int.toNat_natCast]
    by_cases hcap : scheduledSum params (height + 1) ≤ params.maxMoneyChipbits
    · rw [if_pos hcap, uncappedTotals_add, min_eq_left hcap]
    · rw [if_neg hcap,
        min_eq_right (show params.maxMoneyChipbits ≤ scheduledSum params (height + 1) by omega)]
      obtain ⟨hreach, hstart⟩ := capSearch_reached params hcap
      set cap := capSearch params (height + 1) 0 height
      have hbefore := uncappedTotals_pred_add params cap
      rw [scheduledSum_succ] at hreach
      simp only
      omega

/-- The total never exceeds the cap. -/
theorem totalSubsidyThroughHeight_le (n : ℕ) :
    totalSubsidyThroughHeight ((n : Int) - 1) params ≤ params.maxMoneyChipbits := by
  rw [totalSubsidyThroughHeight_eq]
  exact min_le_right _ _

/-- **One block's share.** The split of a height is exactly what the total gains there. -/
theorem totalSubsidyThroughHeight_succ (height : ℕ) :
    totalSubsidyThroughHeight height params =
      totalSubsidyThroughHeight ((height : Int) - 1) params +
        ((subsidySplitChipbits height params).1 + (subsidySplitChipbits height params).2) := by
  have hthis := totalSubsidyThroughHeight_eq params (height + 1)
  rw [show ((height + 1 : ℕ) : Int) - 1 = height by omega, scheduledSum_succ] at hthis
  have hbefore := totalSubsidyThroughHeight_eq params height
  simp only [subsidySplitChipbits]
  rw [hthis, hbefore]
  split
  · omega
  · split <;> simp only <;> omega

private theorem uncappedTotals_pred_fst (n : ℕ) :
    (uncappedSubsidyTotalsThroughHeight ((n : Int) - 1) params).1 =
      ∑ x ∈ Finset.range n, regularMinerSubsidyChipbits x params := by
  cases n with
  | zero => simp [uncappedSubsidyTotalsThroughHeight]
  | succ height =>
    have hloop := uncappedLoop_eq params height (height + 1) 0 (0, 0) (by omega)
    rw [show ((height + 1 : ℕ) : Int) - 1 = height by omega]
    simp only [uncappedSubsidyTotalsThroughHeight, Int.toNat_natCast,
      if_neg (show ¬ (height : Int) < 0 by omega), hloop, zero_add, Finset.range_eq_Ico]

private theorem subsidySplit_fst (height : ℕ) :
    (subsidySplitChipbits height params).1 =
      min (regularMinerSubsidyChipbits height params)
        (params.maxMoneyChipbits - scheduledSum params height) := by
  have hbefore := totalSubsidyThroughHeight_eq params height
  simp only [subsidySplitChipbits]
  rw [hbefore]
  split
  · simp only
    omega
  · split <;> simp only <;> omega

/-- Below the cap the whole schedule is paid. -/
theorem sum_subsidySplit_fst_of_le {n : ℕ} (h : scheduledSum params n ≤ params.maxMoneyChipbits) :
    ∑ x ∈ Finset.range n, (subsidySplitChipbits x params).1 =
      ∑ x ∈ Finset.range n, regularMinerSubsidyChipbits x params := by
  refine Finset.sum_congr rfl fun x hx => ?_
  have hnext : scheduledSum params (x + 1) ≤ scheduledSum params n :=
    scheduledSum_mono params (Finset.mem_range.mp hx)
  rw [scheduledSum_succ] at hnext
  rw [subsidySplit_fst]
  omega

/-- Above the cap nothing is paid. -/
theorem subsidySplit_fst_eq_zero {height : ℕ}
    (h : params.maxMoneyChipbits ≤ scheduledSum params height) :
    (subsidySplitChipbits height params).1 = 0 := by
  rw [subsidySplit_fst, Nat.sub_eq_zero_of_le h, Nat.min_zero]

/-- **The scheduled miner total** is the sum of the miner's shares. -/
theorem subsidyTotals_pred_fst (n : ℕ) :
    (subsidyTotalsThroughHeight ((n : Int) - 1) params).1 =
      ∑ x ∈ Finset.range n, (subsidySplitChipbits x params).1 := by
  cases n with
  | zero => simp [subsidyTotalsThroughHeight]
  | succ height =>
    have huncapped := uncappedTotals_pred_fst params (height + 1)
    rw [show ((height + 1 : ℕ) : Int) - 1 = height by omega] at huncapped ⊢
    simp only [subsidyTotalsThroughHeight, uncappedTotals_add,
      if_neg (show ¬ (height : Int) < 0 by omega), Int.toNat_natCast]
    by_cases hcap : scheduledSum params (height + 1) ≤ params.maxMoneyChipbits
    · rw [if_pos hcap, huncapped, sum_subsidySplit_fst_of_le params hcap]
    · rw [if_neg hcap]
      obtain ⟨hreach, hstart⟩ := capSearch_reached params hcap
      set cap := capSearch params (height + 1) 0 height
      have hcapLe : cap ≤ height := by
        by_contra hlt
        have hmono := scheduledSum_mono params (show height + 1 ≤ cap by omega)
        omega
      have hbefore := uncappedTotals_pred_add params cap
      -- The heights split into those below the cap, the one that reaches it, and those above it.
      rw [← Finset.sum_range_add_sum_Ico _ (show cap + 1 ≤ height + 1 by omega),
        Finset.sum_range_succ, sum_subsidySplit_fst_of_le params hstart,
        ← uncappedTotals_pred_fst params cap, subsidySplit_fst]
      have habove : ∑ x ∈ Finset.Ico (cap + 1) (height + 1), (subsidySplitChipbits x params).1 =
        0 := by
        refine Finset.sum_eq_zero fun x hx => subsidySplit_fst_eq_zero params ?_
        exact hreach.trans (scheduledSum_mono params (Finset.mem_Ico.mp hx).1)
      rw [habove]
      simp only
      omega

/-- The totals are what the splits of the heights below `n` add up to. -/
theorem subsidyTotals_pred (n : ℕ) :
    subsidyTotalsThroughHeight ((n : Int) - 1) params =
      (∑ k ∈ Finset.range n, (subsidySplitChipbits k params).1,
        ∑ k ∈ Finset.range n, (subsidySplitChipbits k params).2) := by
  have hsum : totalSubsidyThroughHeight ((n : Int) - 1) params =
      ∑ k ∈ Finset.range n,
        ((subsidySplitChipbits k params).1 + (subsidySplitChipbits k params).2) := by
    induction n with
    | zero => simp [totalSubsidyThroughHeight, subsidyTotalsThroughHeight]
    | succ n ih =>
      rw [show ((n + 1 : ℕ) : Int) - 1 = n by omega, totalSubsidyThroughHeight_succ, ih,
        Finset.sum_range_succ]
  have hminer := subsidyTotals_pred_fst params n
  rw [Finset.sum_add_distrib] at hsum
  unfold totalSubsidyThroughHeight at hsum
  ext
  · exact hminer
  · show (subsidyTotalsThroughHeight ((n : Int) - 1) params).2 = _
    omega

/-- What a height's split takes out of the supply that the heights below it have left: the miner
first, then the node pool. -/
theorem subsidySplit_eq (height : ℕ) :
    subsidySplitChipbits height params =
      let remaining := params.maxMoneyChipbits -
        totalSubsidyThroughHeight ((height : Int) - 1) params
      (min (regularMinerSubsidyChipbits height params) remaining,
        min (scheduledNodeEpochRewardChipbits height params)
          (remaining - regularMinerSubsidyChipbits height params)) := by
  simp only [subsidySplitChipbits]
  split
  · ext <;> simp only <;> omega
  · split <;> ext <;> simp only <;> omega

/-- **The subsidy schedule.** The totals through a height are the sums of the splits up to it; the
total grows with the height, stays within the cap and is the cap exactly from the first height on
at which the schedule without a cap reaches it; and each height pays the miner, then the node pool,
out of what is left of the supply. -/
theorem subsidySchedule_correct (height : ℕ) :
    subsidyTotalsThroughHeight height params =
        (∑ k ∈ Finset.range (height + 1), (subsidySplitChipbits k params).1,
          ∑ k ∈ Finset.range (height + 1), (subsidySplitChipbits k params).2) ∧
      (∀ later : ℕ, height ≤ later →
        totalSubsidyThroughHeight height params ≤ totalSubsidyThroughHeight later params) ∧
      totalSubsidyThroughHeight height params ≤ params.maxMoneyChipbits ∧
      (totalSubsidyThroughHeight height params = params.maxMoneyChipbits ↔
        params.maxMoneyChipbits ≤ ∑ k ∈ Finset.range (height + 1),
          (regularMinerSubsidyChipbits k params + scheduledNodeEpochRewardChipbits k params)) ∧
      subsidySplitChipbits height params =
        let remaining := params.maxMoneyChipbits -
          totalSubsidyThroughHeight ((height : Int) - 1) params
        (min (regularMinerSubsidyChipbits height params) remaining,
          min (scheduledNodeEpochRewardChipbits height params)
            (remaining - regularMinerSubsidyChipbits height params)) := by
  have hpred : ∀ n : ℕ, ((n + 1 : ℕ) : Int) - 1 = n := fun n => by omega
  have htotals := subsidyTotals_pred params (height + 1)
  have htotal := fun n : ℕ => totalSubsidyThroughHeight_eq params (n + 1)
  -- The lemmas count heights below a bound; through `height` means below `height + 1`.
  simp only [hpred] at htotals htotal
  refine ⟨htotals, ?_, ?_, ?_, subsidySplit_eq params height⟩
  · intro later hle
    rw [htotal, htotal]
    exact min_le_min_right _ (scheduledSum_mono params (Nat.add_le_add_right hle 1))
  · rw [htotal]
    exact min_le_right _ _
  · rw [htotal]
    exact min_eq_right_iff

end Schedule

end Chipcoin
