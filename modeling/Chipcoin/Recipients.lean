import Chipcoin.Lib.Ranking
import Chipcoin.Lib.Table
import Chipcoin.Octets
import Chipcoin.Settlement

/-!
# The recipients of an epoch

`analyze_reward_settlement` reaches the rewarded nodes through nested loops, two grouping maps and
two sorts. This file says who they are without any of these, and proves the derivation right.

* A window of a node is *passed* when enough distinct members of its committee attest a pass
  (`WindowPassed`); a node is *qualified* when it has passed enough of its windows, the last one
  among them (`Qualified`).
* Nodes are ordered by the number of passed windows, the median gap, the hash rank and the
  identifier (`Precedes`). A *winner* is a qualified node that no qualified node of its
  concentration key precedes (`Winner`).

The entries of a settlement are the winners in that order, as many as may be rewarded, and they
split the pool into shares that differ by at most one (`derivedEntries_correct`).
-/

namespace Chipcoin

open Checked List Sorting

variable {ordered : List QualifiedNode}

/-! ### The specification -/

/-- The attestation is within the rules of a pass. -/
def RewardAttestation.Valid (params : ConsensusParams) (attestation : RewardAttestation) : Prop :=
  attestation.resultCode = str "pass" ∧
    attestation.observedSyncGap ≤ (params.rewardSyncLagToleranceBlocks : Int)

instance (params : ConsensusParams) (attestation : RewardAttestation) :
    Decidable (attestation.Valid params) :=
  inferInstanceAs (Decidable (_ ∧ _))

/-- The attestation is a pass of a node's window by a verifier. -/
def RewardAttestation.Passes (params : ConsensusParams) (nodeId : PyStr) (window : ℕ)
    (verifier : PyStr) (attestation : RewardAttestation) : Prop :=
  (attestation.candidateNodeId = nodeId ∧ attestation.checkWindowIndex = (window : Int)) ∧
    attestation.verifierNodeId = verifier ∧ attestation.Valid params

instance (params : ConsensusParams) (nodeId : PyStr) (window : ℕ) (verifier : PyStr)
    (attestation : RewardAttestation) :
    Decidable (attestation.Passes params nodeId window verifier) :=
  inferInstanceAs (Decidable (_ ∧ _))

/-- The middle of a collection of numbers, or the mean of the two middle ones. -/
def median (gaps : Multiset ℤ) : ℚ :=
  let sorted := gaps.sort
  if sorted.length % 2 = 1 then sorted.getD (sorted.length / 2) 0
  else ((sorted.getD (sorted.length / 2 - 1) 0 : ℚ) + sorted.getD (sorted.length / 2) 0) / 2

section Specification

variable (params : ConsensusParams) (attestations : List RewardAttestation)

/-- The members of a committee that attest a pass of a window. -/
def passers (nodeId : PyStr) (window : ℕ) (committee : List PyStr) : Finset PyStr :=
  committee.toFinset.filter fun verifier =>
    ∃ attestation ∈ attestations, attestation.Passes params nodeId window verifier

/-- The gap that a verifier has observed in a window. Identities being distinct, an epoch has one
pass of a window by a verifier; in general the first one counts. -/
def gapBy (nodeId : PyStr) (window : ℕ) (verifier : PyStr) : ℤ :=
  ((attestations.find? fun attestation =>
    attestation.Passes params nodeId window verifier).map (·.observedSyncGap)).getD 0

/-- **A passed window**: a quorum of the committee attests a pass. -/
def WindowPassed (nodeId : PyStr) (window : ℕ) (committee : List PyStr) : Prop :=
  0 < min params.rewardVerifierQuorum committee.toFinset.card ∧
    min params.rewardVerifierQuorum committee.toFinset.card ≤
      (passers params attestations nodeId window committee).card

instance (nodeId : PyStr) (window : ℕ) (committee : List PyStr) :
    Decidable (WindowPassed params attestations nodeId window committee) :=
  inferInstanceAs (Decidable (_ ∧ _))

variable [Platform] (active : Std.ExtTreeMap PyStr NodeRecord) (seed : Bytes)

/-- The windows assigned to a node. -/
def assignedWindows (nodeId : PyStr) : List ℕ :=
  (candidateCheckWindows nodeId seed params).toOption.getD []

/-- The committee of a node's window. -/
def committeeOf (nodeId : PyStr) (window : ℕ) : List PyStr :=
  (verifierCommittee nodeId (active.toList.map Prod.fst) window seed params).toOption.getD []

/-- The passed windows of a node. -/
def passedWindowsOf (nodeId : PyStr) : Finset ℕ :=
  (assignedWindows params seed nodeId).toFinset.filter fun window =>
    WindowPassed params attestations nodeId window (committeeOf params active seed nodeId window)

/-- **A qualified node** has passed enough of its windows, the last one among them. -/
def Qualified (nodeId : PyStr) : Prop :=
  nodeId ∈ active ∧
    params.rewardMinPassedChecksPerEpoch ≤
      (passedWindowsOf params attestations active seed nodeId).card ∧
    ∃ last, (assignedWindows params seed nodeId).getLast? = some last ∧
      last ∈ passedWindowsOf params attestations active seed nodeId

/-- The gaps observed in the passed windows of a node. -/
def observedGaps (nodeId : PyStr) : Multiset ℤ :=
  (passedWindowsOf params attestations active seed nodeId).val.bind fun window =>
    (passers params attestations nodeId window
      (committeeOf params active seed nodeId window)).val.map
        (gapBy params attestations nodeId window)

/-- The payout address of a node. -/
def payoutOf (nodeId : PyStr) : PyStr := (active[nodeId]?.map (·.payoutAddress)).getD []

/-- The hash rank of a node. -/
def hashRankOf (nodeId : PyStr) : Bytes :=
  (scoreBytes seed (str "concentration-rank|" ++ nodeId ++ str "|" ++
    payoutOf active nodeId)).toOption.getD []

/-- **The order of nodes**: more passed windows, then the lower median gap, then the lower hash
rank, then the identifier. -/
def Precedes (a b : PyStr) : Prop :=
  (passedWindowsOf params attestations active seed b).card <
      (passedWindowsOf params attestations active seed a).card ∨
    (passedWindowsOf params attestations active seed a).card =
        (passedWindowsOf params attestations active seed b).card ∧
      (median (observedGaps params attestations active seed a) <
          median (observedGaps params attestations active seed b) ∨
        median (observedGaps params attestations active seed a) =
            median (observedGaps params attestations active seed b) ∧
          (compare (hashRankOf active seed a) (hashRankOf active seed b) = .lt ∨
            hashRankOf active seed a = hashRankOf active seed b ∧ compare a b = .lt))

/-- **A winner** is a qualified node that no qualified node of its concentration key precedes. -/
def Winner (nodeId : PyStr) : Prop :=
  Qualified params attestations active seed nodeId ∧
    ∀ other, Qualified params attestations active seed other →
      concentrationKeyOf attestations other = concentrationKeyOf attestations nodeId →
      ¬ Precedes params attestations active seed other nodeId

end Specification

/-! ### Passes of a window -/

section Window

variable {params : ConsensusParams}

/-- One step of the loop that fills `passed_by_verifier`. -/
theorem passedByVerifier_concat (xs : List RewardAttestation) (x : RewardAttestation) :
    passedByVerifier params (xs ++ [x]) =
      if x.Valid params ∧ x.verifierNodeId ∉ (passedByVerifier params xs).map (·.verifierNodeId)
      then passedByVerifier params xs ++ [x] else passedByVerifier params xs := by
  unfold passedByVerifier
  rw [foldl_append, foldl_cons, foldl_nil]
  generalize xs.foldl _ [] = passed
  have hany : (passed.any fun a => decide (a.verifierNodeId = x.verifierNodeId)) = true ↔
      x.verifierNodeId ∈ passed.map (·.verifierNodeId) := by
    simp
  by_cases hcode : x.resultCode = str "pass"
  swap
  · rw [if_pos hcode, if_neg fun h => hcode h.1.1]
  rw [if_neg (not_not.mpr hcode)]
  by_cases hgap : x.observedSyncGap ≤ (params.rewardSyncLagToleranceBlocks : Int)
  swap
  · rw [if_pos (not_le.mp hgap), if_neg fun h => hgap h.1.2]
  rw [if_neg (not_lt.mpr hgap)]
  by_cases hseen : x.verifierNodeId ∈ passed.map (·.verifierNodeId)
  · rw [if_pos (hany.mpr hseen), if_neg fun h => h.2 hseen]
  · rw [if_neg (mt hany.mp hseen), if_pos ⟨⟨hcode, hgap⟩, hseen⟩]

theorem nodup_passedByVerifier (xs : List RewardAttestation) :
    ((passedByVerifier params xs).map (·.verifierNodeId)).Nodup := by
  induction xs using List.reverseRecOn with
  | nil => exact nodup_nil
  | append_singleton xs x ih =>
    rw [passedByVerifier_concat]
    split
    · next h =>
      rw [map_append, nodup_append]
      refine ⟨ih, nodup_singleton _, ?_⟩
      rintro v hv w hw rfl
      rw [map_singleton, mem_singleton] at hw
      exact h.2 (hw ▸ hv)
    · exact ih

/-- **What the loop keeps** for a verifier: its first valid attestation. -/
theorem find?_passedByVerifier (xs : List RewardAttestation) (verifier : PyStr) :
    (passedByVerifier params xs).find? (fun a => a.verifierNodeId = verifier) =
      xs.find? (fun a => a.verifierNodeId = verifier ∧ a.Valid params) := by
  induction xs using List.reverseRecOn with
  | nil => rfl
  | append_singleton xs x ih =>
    rw [passedByVerifier_concat, find?_append, find?_singleton, ← ih]
    split
    · next h =>
      rw [find?_append, find?_singleton]
      simp [h.1]
    · next h =>
      -- The new attestation is not valid, or its verifier has one already.
      by_cases hx : x.verifierNodeId = verifier ∧ x.Valid params
      · have hseen : x.verifierNodeId ∈ (passedByVerifier params xs).map (·.verifierNodeId) :=
          not_not.mp fun hnew => h ⟨hx.2, hnew⟩
        obtain ⟨a, ha, hverifier⟩ := List.mem_map.mp hseen
        have hfound : ((passedByVerifier params xs).find?
            fun a => decide (a.verifierNodeId = verifier)).isSome := by
          rw [find?_isSome]
          exact ⟨a, ha, decide_eq_true (hverifier.trans hx.1)⟩
        rw [Option.or_of_isSome hfound]
      · rw [if_neg (by simpa using hx), Option.or_none]

private theorem mem_passedByVerifier {xs : List RewardAttestation} {a : RewardAttestation} :
    a ∈ passedByVerifier params xs ↔
      xs.find? (fun b => b.verifierNodeId = a.verifierNodeId ∧ b.Valid params) = some a := by
  rw [← find?_passedByVerifier, Table.find?_key_eq_some (nodup_passedByVerifier xs)]
  exact (and_iff_left rfl).symm

variable {attestations : List RewardAttestation} {nodeId : PyStr} {window : ℕ}
  {committee : List PyStr}

/-- The attestations that the committee of a window has given. -/
def windowAttestations (attestations : List RewardAttestation) (nodeId : PyStr) (window : ℕ)
    (committee : List PyStr) : List RewardAttestation :=
  attestations.filter fun attestation =>
    attestation.candidateNodeId = nodeId ∧ attestation.checkWindowIndex = (window : Int) ∧
      attestation.verifierNodeId ∈ committee

theorem mem_passed_iff {a : RewardAttestation} :
    a ∈ passedByVerifier params (windowAttestations attestations nodeId window committee) ↔
      a.verifierNodeId ∈ committee ∧
        attestations.find? (fun b => b.Passes params nodeId window a.verifierNodeId) = some a := by
  rw [mem_passedByVerifier, windowAttestations, find?_filter]
  by_cases hin : a.verifierNodeId ∈ committee
  · simp only [hin, true_and]
    -- Both filters in one: for a member of the committee they ask for a pass.
    have hsame : (fun b : RewardAttestation => decide (decide (b.candidateNodeId = nodeId ∧
        b.checkWindowIndex = (window : Int) ∧ b.verifierNodeId ∈ committee) = true ∧
        decide (b.verifierNodeId = a.verifierNodeId ∧ b.Valid params) = true)) =
        fun b => decide (b.Passes params nodeId window a.verifierNodeId) := by
      funext b
      apply Bool.eq_iff_iff.mpr
      simp only [decide_eq_true_eq]
      constructor
      · rintro ⟨⟨hnode, hwindow, -⟩, hverifier, hvalid⟩
        exact ⟨⟨hnode, hwindow⟩, hverifier, hvalid⟩
      · rintro ⟨⟨hnode, hwindow⟩, hverifier, hvalid⟩
        exact ⟨⟨hnode, hwindow, hverifier ▸ hin⟩, hverifier, hvalid⟩
    rw [hsame]
  · simp only [hin, false_and, iff_false]
    intro hfind
    have hpass := find?_some hfind
    simp only [decide_eq_true_eq] at hpass
    exact hin hpass.1.2.2

/-- The verifiers of the kept attestations are those who attest a pass. -/
theorem passers_val :
    (passers params attestations nodeId window committee).val =
      ((passedByVerifier params (windowAttestations attestations nodeId window committee)).map
        (·.verifierNodeId) : List PyStr) := by
  have hset : passers params attestations nodeId window committee =
      ((passedByVerifier params (windowAttestations attestations nodeId window committee)).map
        (·.verifierNodeId)).toFinset := by
    ext verifier
    simp only [passers, Finset.mem_filter, mem_toFinset, mem_map]
    constructor
    · -- Of several passes of a verifier the first one is kept.
      rintro ⟨hin, a, ha, hpass⟩
      have hfound : (attestations.find? fun b =>
          decide (b.Passes params nodeId window verifier)).isSome := by
        rw [find?_isSome]
        exact ⟨a, ha, decide_eq_true hpass⟩
      obtain ⟨first, hfirst⟩ := Option.isSome_iff_exists.mp hfound
      have hverifier : first.verifierNodeId = verifier := by
        have := find?_some hfirst
        simp only [decide_eq_true_eq] at this
        exact this.2.1
      exact ⟨first, mem_passed_iff.mpr ⟨hverifier ▸ hin, hverifier ▸ hfirst⟩, hverifier⟩
    · rintro ⟨a, ha, rfl⟩
      obtain ⟨hin, hfind⟩ := mem_passed_iff.mp ha
      refine ⟨hin, a, mem_of_find?_eq_some hfind, ?_⟩
      simpa using find?_some hfind
  rw [hset, toFinset_val, (nodup_passedByVerifier _).dedup]

theorem card_passers :
    (passers params attestations nodeId window committee).card =
      (passedByVerifier params
        (windowAttestations attestations nodeId window committee)).length := by
  rw [Finset.card_def, passers_val, Multiset.coe_card, length_map]

/-- **The outcome of a window.** -/
theorem windowGaps_eq :
    windowGaps params attestations nodeId window committee =
      if WindowPassed params attestations nodeId window committee then
        some ((passedByVerifier params
          (windowAttestations attestations nodeId window committee)).map (·.observedSyncGap))
      else none := by
  have hiff : WindowPassed params attestations nodeId window committee ↔
      min params.rewardVerifierQuorum committee.dedup.length > 0 ∧
        (passedByVerifier params
          (windowAttestations attestations nodeId window committee)).length ≥
          min params.rewardVerifierQuorum committee.dedup.length := by
    unfold WindowPassed
    rw [card_passers, card_toFinset]
  by_cases h : WindowPassed params attestations nodeId window committee
  · rw [if_pos h]
    exact if_pos (hiff.mp h)
  · rw [if_neg h]
    exact if_neg (mt hiff.mpr h)

private theorem gaps_eq :
    (((passedByVerifier params (windowAttestations attestations nodeId window committee)).map
        (·.observedSyncGap) : List Int) : Multiset ℤ) =
      (passers params attestations nodeId window committee).val.map
        (gapBy params attestations nodeId window) := by
  rw [passers_val, Multiset.map_coe, map_map]
  refine congrArg _ (map_congr_left fun a ha => ?_)
  rw [Function.comp_apply, gapBy, (mem_passed_iff.mp ha).2]
  rfl

end Window

/-! ### Evaluation of a node -/

variable {α : Type} {windows : List ℕ} {ids : List PyStr} {record : NodeRecord}
  {node : QualifiedNode}

theorem getD_of_eq_ok {x : Except PyError α} {a default : α} (h : x = .ok a) :
    x.toOption.getD default = a := by
  rw [h]
  rfl

section Node

variable [Platform] {params : ConsensusParams} {attestations : List RewardAttestation}
  {active : Std.ExtTreeMap PyStr NodeRecord} {seed : Bytes} {nodeId : PyStr}

/-- **The windows assigned to a node** are as many as it is checked in, ascending windows of the
epoch. -/
theorem candidateCheckWindows_ok (h : candidateCheckWindows nodeId seed params = .ok windows) :
    windows.length = params.rewardTargetChecksPerEpoch ∧ windows.Pairwise (· < ·) ∧
      ∀ window ∈ windows, window < params.rewardCheckWindowsPerEpoch := by
  simp only [candidateCheckWindows, bind_eq_ok, raiseIf_eq_ok, pure_eq_ok, not_lt] at h
  obtain ⟨-, htarget, scored, hscored, rfl⟩ := h
  have hindexes := map_eq_of_mapM (k := Prod.snd) (g := id) hscored (by
    intro index scoredWindow hx
    simp only [bind_eq_ok, pure_eq_ok] at hx
    obtain ⟨score, -, rfl⟩ := hx
    rfl)
  rw [map_id] at hindexes
  -- The scored windows are those of the epoch, each once, in the order of their scores.
  have hranked : ((sortBy (compareLex (compareOn Prod.fst) (compareOn Prod.snd)) scored).map
      Prod.snd).Perm (List.range params.rewardCheckWindowsPerEpoch) :=
    ((sortBy_perm scored).map Prod.snd).trans (List.Perm.of_eq hindexes)
  have hsub := (take_sublist params.rewardTargetChecksPerEpoch
    (sortBy (compareLex (compareOn Prod.fst) (compareOn Prod.snd)) scored)).map Prod.snd
  refine ⟨?_, ?_, ?_⟩
  · have hlength := congrArg List.length hindexes
    rw [length_map, length_range] at hlength
    rw [length_sortBy, length_map, length_take, length_sortBy, hlength, Nat.min_eq_left htarget]
  · have hnodup := (hranked.nodup_iff.mpr nodup_range).sublist hsub
    have hstrict : (sortBy compare _).Pairwise fun a b : ℕ => compare a b = .lt :=
      sortBy_strict (fun _ _ _ _ => compare_eq_iff_eq.mp) hnodup
    exact hstrict.imp compare_lt_iff_lt.mp
  · intro window hwindow
    exact List.mem_range.mp (hranked.mem_iff.mp (hsub.subset (mem_sortBy.mp hwindow)))

theorem ascending_assignedWindows : (assignedWindows params seed nodeId).Pairwise (· < ·) ∧
    ∀ window ∈ assignedWindows params seed nodeId, window < params.rewardCheckWindowsPerEpoch := by
  unfold assignedWindows
  cases h : candidateCheckWindows nodeId seed params with
  | error => exact ⟨.nil, fun _ hmem => nomatch hmem⟩
  | ok windows => exact (candidateCheckWindows_ok h).2

/-- The passed windows, in the order of the loop over the assigned ones. -/
theorem passedWindowsOf_val :
    (passedWindowsOf params attestations active seed nodeId).val =
      ((assignedWindows params seed nodeId).filter fun window =>
        WindowPassed params attestations nodeId window
          (committeeOf params active seed nodeId window) : List ℕ) := by
  unfold passedWindowsOf
  rw [Finset.filter_val, toFinset_val, List.Nodup.dedup
    (ascending_assignedWindows.1.imp ne_of_lt), Multiset.filter_coe]

/-- What the tie-break reads about a qualified node, as specified. -/
structure Evaluates (params : ConsensusParams) (attestations : List RewardAttestation)
    (active : Std.ExtTreeMap PyStr NodeRecord) (seed : Bytes) (nodeId : PyStr)
    (node : QualifiedNode) : Prop where
  record : active[nodeId]? = some node.record
  keyed : node.record.nodeId = nodeId
  passed : node.passedWindows = (passedWindowsOf params attestations active seed nodeId).card
  gaps : (node.observedSyncGaps : Multiset ℤ) =
    observedGaps params attestations active seed nodeId
  observed : node.observedSyncGaps ≠ []
  key : node.concentrationKey = concentrationKeyOf attestations nodeId
  rank : node.hashRank = hashRankOf active seed nodeId

/-- The gaps of the passed windows, in the order of the loop. -/
def passedGaps (params : ConsensusParams) (attestations : List RewardAttestation)
    (active : Std.ExtTreeMap PyStr NodeRecord) (seed : Bytes) (nodeId : PyStr) :
    List (List Int) :=
  ((assignedWindows params seed nodeId).filter fun window =>
    WindowPassed params attestations nodeId window
      (committeeOf params active seed nodeId window)).map fun window =>
    (passedByVerifier params (windowAttestations attestations nodeId window
      (committeeOf params active seed nodeId window))).map (·.observedSyncGap)

theorem length_passedGaps :
    (passedGaps params attestations active seed nodeId).length =
      (passedWindowsOf params attestations active seed nodeId).card := by
  rw [passedGaps, length_map, Finset.card_def, passedWindowsOf_val, Multiset.coe_card]

private theorem flatten_passedGaps :
    ((passedGaps params attestations active seed nodeId).flatten : Multiset ℤ) =
      observedGaps params attestations active seed nodeId := by
  unfold observedGaps passedGaps
  rw [passedWindowsOf_val, ← flatMap_def, ← Multiset.coe_bind]
  refine congrArg _ (funext fun window => ?_)
  exact gaps_eq

/-- A passed window has been passed by somebody. -/
theorem flatten_passedGaps_ne_nil {window : ℕ}
    (h : window ∈ passedWindowsOf params attestations active seed nodeId) :
    (passedGaps params attestations active seed nodeId).flatten ≠ [] := by
  have hmem : window ∈ (assignedWindows params seed nodeId).filter fun window =>
      WindowPassed params attestations nodeId window
        (committeeOf params active seed nodeId window) := by
    rw [← Multiset.mem_coe, ← passedWindowsOf_val]
    exact h
  have hpassed := (List.mem_filter.mp hmem).2
  rw [decide_eq_true_iff] at hpassed
  have hpos := hpassed.1.trans_le hpassed.2
  rw [card_passers] at hpos
  intro hnil
  have hgaps := List.flatten_eq_nil_iff.mp hnil _ (mem_map_of_mem hmem)
  rw [map_eq_nil_iff] at hgaps
  rw [hgaps] at hpos
  exact absurd hpos (lt_irrefl 0)

theorem outcomes_eq {outcomes : List (ℕ × Option (List Int))} (h : (windows.mapM fun window => do
      let committee ← verifierCommittee nodeId (active.toList.map Prod.fst) window seed params
      return (window, windowGaps params attestations nodeId window committee)) = .ok outcomes) :
    outcomes = windows.map fun window => (window, windowGaps params attestations nodeId window
      (committeeOf params active seed nodeId window)) := by
  refine (map_id outcomes).symm.trans (map_eq_of_mapM (k := id) h ?_)
  intro window outcome houtcome
  obtain ⟨committee, hcommittee, houtcome⟩ := bind_eq_ok.mp houtcome
  rw [pure_eq_ok] at houtcome
  rw [← houtcome, committeeOf, getD_of_eq_ok hcommittee]
  rfl

/-- The gaps that the loop collects are those of the passed windows. -/
theorem filterMap_outcomes {outcomes : List (ℕ × Option (List Int))}
    (h : outcomes = (assignedWindows params seed nodeId).map fun window =>
      (window, windowGaps params attestations nodeId window
        (committeeOf params active seed nodeId window))) :
    outcomes.filterMap Prod.snd = passedGaps params attestations active seed nodeId := by
  rw [h, filterMap_map, passedGaps]
  generalize assignedWindows params seed nodeId = assigned
  induction assigned with
  | nil => rfl
  | cons window rest ih =>
    rw [filterMap_cons, filter_cons, Function.comp_apply, windowGaps_eq, ih]
    split <;> split <;> simp_all

/-- Whether the last window has passed. -/
theorem any_passedLast_iff {outcomes : List (ℕ × Option (List Int))}
    (h : outcomes = (assignedWindows params seed nodeId).map fun window =>
      (window, windowGaps params attestations nodeId window
        (committeeOf params active seed nodeId window))) :
    (outcomes.any fun (windowIndex, outcome) => decide (outcome.isSome ∧
        some windowIndex = (assignedWindows params seed nodeId).getLast?)) = true ↔
      ∃ last, (assignedWindows params seed nodeId).getLast? = some last ∧
        last ∈ passedWindowsOf params attestations active seed nodeId := by
  rw [h, any_map, any_eq_true]
  simp only [Function.comp_apply, decide_eq_true_eq, windowGaps_eq, Option.isSome_ite]
  constructor
  · rintro ⟨window, hmem, hpass, hlast⟩
    exact ⟨window, hlast.symm, Finset.mem_filter.mpr ⟨List.mem_toFinset.mpr hmem, hpass⟩⟩
  · rintro ⟨last, hlast, hmem⟩
    obtain ⟨hin, hpass⟩ := Finset.mem_filter.mp hmem
    exact ⟨last, List.mem_toFinset.mp hin, hpass, hlast.symm⟩

/-- **The evaluation of a node** qualifies it as specified. -/
theorem qualifyNode_ok {outcome : Option QualifiedNode} (hrecord : active[nodeId]? = some record)
    (hkeyed : record.nodeId = nodeId)
    (h : qualifyNode (active.toList.map Prod.fst) seed attestations params nodeId record =
      .ok outcome) :
    (Qualified params attestations active seed nodeId ↔ outcome.isSome) ∧
      ∀ node, outcome = some node → Evaluates params attestations active seed nodeId node := by
  obtain ⟨windows, hwindows, h⟩ := bind_eq_ok.mp h
  obtain ⟨outcomes, houtcomes, h⟩ := bind_eq_ok.mp h
  have hassigned : assignedWindows params seed nodeId = windows := getD_of_eq_ok hwindows
  have houtcome := hassigned ▸ outcomes_eq houtcomes
  -- The loop computes what the specification reads off the attestations.
  have hpassed := filterMap_outcomes houtcome
  have hfinal := any_passedLast_iff houtcome
  have hmem : nodeId ∈ active := Std.ExtTreeMap.mem_iff_isSome_getElem?.mpr (by rw [hrecord]; rfl)
  rw [hpassed, ← hassigned] at h
  dsimp only at h
  rw [length_passedGaps] at h
  split at h
  swap
  · next hqualified =>
    rw [pure_eq_ok] at h
    subst h
    -- Too few windows passed, or not the last one.
    refine ⟨⟨fun hq => absurd ⟨hq.2.1, hfinal.mpr hq.2.2⟩ hqualified, fun hsome => ?_⟩, ?_⟩
    · cases hsome
    · intro node hnode
      cases hnode
  · next hqualified =>
    obtain ⟨rank, hrank, h⟩ := bind_eq_ok.mp h
    rw [pure_eq_ok] at h
    subst h
    have hlast := hfinal.mp hqualified.2
    refine ⟨⟨fun _ => rfl, fun _ => ⟨hmem, hqualified.1, hlast⟩⟩, ?_⟩
    rintro node ⟨⟩
    obtain ⟨last, -, hin⟩ := hlast
    have hpayout : payoutOf active nodeId = record.payoutAddress := by
      rw [payoutOf, hrecord]
      rfl
    rw [hkeyed] at hrank
    exact {
      record := hrecord
      keyed := hkeyed
      passed := rfl
      gaps := flatten_passedGaps
      observed := flatten_passedGaps_ne_nil hin
      key := rfl
      rank := by rw [hashRankOf, hpayout, getD_of_eq_ok hrank] }

end Node

/-! ### The order -/

theorem sort_eq_sortBy (gaps : List Int) : (gaps : Multiset ℤ).sort = sortBy compare gaps := by
  have hle : ∀ a b : Int, (compare a b).isLE = true ↔ a ≤ b := fun a b => by
    rw [Ordering.isLE_iff_ne_gt, compare_gt_iff_gt, not_lt]
  have hsorted : (sortBy compare gaps).Pairwise (· ≤ ·) :=
    (sortBy_pairwise gaps).imp fun {a b} h => (hle a b).mp h
  have hperm : (gaps : Multiset ℤ).sort.Perm (sortBy compare gaps) := by
    rw [← Multiset.coe_eq_coe, Multiset.sort_eq, Multiset.coe_eq_coe]
    exact (sortBy_perm gaps).symm
  exact hperm.eq_of_pairwise (fun a b _ _ hab hba => le_antisymm hab hba)
    (Multiset.pairwise_sort _ _) hsorted

/-- The integer that the tie-break compares is twice the median. -/
theorem medianTwice_eq (gaps : List Int) : (medianTwice gaps : ℚ) = 2 * median gaps := by
  unfold medianTwice median
  rw [sort_eq_sortBy]
  simp only [length_sortBy]
  split
  · push_cast
    rfl
  · push_cast
    ring

instance : Std.TransCmp compareTiebreak := by
  unfold compareTiebreak
  infer_instance

section Order

variable [Platform] {params : ConsensusParams} {attestations : List RewardAttestation}
  {active : Std.ExtTreeMap PyStr NodeRecord} {seed : Bytes} {a b : PyStr}
  {nodeA nodeB : QualifiedNode}

section

variable (ha : Evaluates params attestations active seed a nodeA)
  (hb : Evaluates params attestations active seed b nodeB)
include ha hb

private theorem compare_medianTwice :
    (compare (medianTwice nodeA.observedSyncGaps) (medianTwice nodeB.observedSyncGaps) = .lt ↔
      median (observedGaps params attestations active seed a) <
        median (observedGaps params attestations active seed b)) ∧
    (compare (medianTwice nodeA.observedSyncGaps) (medianTwice nodeB.observedSyncGaps) = .eq ↔
      median (observedGaps params attestations active seed a) =
        median (observedGaps params attestations active seed b)) := by
  rw [compare_lt_iff_lt, compare_eq_iff_eq, ← Int.cast_lt (R := ℚ), ← Int.cast_inj (α := ℚ),
    medianTwice_eq, medianTwice_eq, ha.gaps, hb.gaps]
  exact ⟨mul_lt_mul_iff_of_pos_left two_pos, mul_right_inj' two_ne_zero⟩

/-- **The tie-break** orders the evaluated nodes as specified. -/
theorem compareTiebreak_lt_iff :
    compareTiebreak nodeA nodeB = .lt ↔ Precedes params attestations active seed a b := by
  obtain ⟨hlt, heq⟩ := compare_medianTwice ha hb
  have hempty : compare (if nodeA.observedSyncGaps.isEmpty then (1 : ℕ) else 0)
      (if nodeB.observedSyncGaps.isEmpty then (1 : ℕ) else 0) = .eq := by
    simp [ha.observed, hb.observed]
  have hcountLt : compare (-(nodeA.passedWindows : Int)) (-(nodeB.passedWindows : Int)) = .lt ↔
      nodeB.passedWindows < nodeA.passedWindows := by
    rw [compare_lt_iff_lt]
    omega
  have hcountEq : compare (-(nodeA.passedWindows : Int)) (-(nodeB.passedWindows : Int)) = .eq ↔
      nodeA.passedWindows = nodeB.passedWindows := by
    rw [compare_eq_iff_eq]
    omega
  -- The payout address is read last, and only of nodes with one identifier.
  have hlast : ¬ (a = b ∧
      compare nodeA.record.payoutAddress nodeB.record.payoutAddress = .lt) := by
    rintro ⟨rfl, hpayout⟩
    have hsame : nodeA.record = nodeB.record := Option.mem_unique ha.record hb.record
    have hself : compare nodeB.record.payoutAddress nodeB.record.payoutAddress = .eq :=
      Std.ReflCmp.compare_self
    rw [hsame, hself] at hpayout
    cases hpayout
  unfold compareTiebreak Precedes
  simp only [compareLex, compareOn, Ordering.then_eq_lt, hempty, hcountLt, hcountEq, hlt, heq,
    Std.LawfulEqCmp.compare_eq_iff_eq, true_and, reduceCtorEq, false_or]
  simp only [ha.passed, hb.passed, ha.rank, hb.rank, ha.keyed, hb.keyed, hlast, or_false]

/-- Nodes that the tie-break does not tell apart are one. -/
theorem eq_of_compareTiebreak (h : compareTiebreak nodeA nodeB = .eq) : a = b := by
  unfold compareTiebreak at h
  simp only [compareLex, compareOn, Ordering.then_eq_eq] at h
  have hid := Std.LawfulEqCmp.compare_eq_iff_eq.mp h.2.2.2.2.1
  rw [ha.keyed, hb.keyed] at hid
  exact hid

end

end Order

/-! ### The ranking -/

section Ranking

variable [Platform] {params : ConsensusParams} {attestations : List RewardAttestation}
  {active : Std.ExtTreeMap PyStr NodeRecord} {seed : Bytes}

/-- The map of active records is keyed by their node ids. -/
def Keyed (active : Std.ExtTreeMap PyStr NodeRecord) : Prop :=
  ∀ (nodeId : PyStr) (record : NodeRecord), active[nodeId]? = some record → record.nodeId = nodeId

omit [Platform] in
private theorem Keyed.insert (keyed : Keyed active) (record : NodeRecord) :
    Keyed (active.insert record.nodeId record) := by
  intro nodeId found hfound
  rw [Std.ExtTreeMap.getElem?_insert] at hfound
  split at hfound
  · next h =>
    obtain rfl := Option.some.inj hfound
    exact Std.LawfulEqCmp.compare_eq_iff_eq.mp h
  · exact keyed nodeId found hfound

omit [Platform] in
/-- The map that validation builds is keyed by node ids. -/
theorem keyed_activeRewardRecordsById (view : NodeRegistryView) (height : ℕ) :
    Keyed (activeRewardRecordsById view height params) := by
  have hfold : ∀ (records : List NodeRecord) (byId : Std.ExtTreeMap PyStr NodeRecord), Keyed byId →
      Keyed (records.foldl (fun byId record => byId.insert record.nodeId record) byId) := by
    intro records
    induction records with
    | nil => exact fun _ keyed => keyed
    | cons record rest ih => exact fun byId keyed => ih _ (keyed.insert record)
  refine hfold _ _ fun nodeId record h => ?_
  rw [Std.ExtTreeMap.getElem?_empty] at h
  cases h

/-- The evaluated nodes of an epoch: one for each qualified node. -/
structure EvaluatedNodes (params : ConsensusParams) (attestations : List RewardAttestation)
    (active : Std.ExtTreeMap PyStr NodeRecord) (seed : Bytes) (nodes : List QualifiedNode) :
    Prop where
  distinct : (nodes.map (·.record.nodeId)).Nodup
  sound : ∀ node ∈ nodes, Qualified params attestations active seed node.record.nodeId ∧
    Evaluates params attestations active seed node.record.nodeId node
  complete : ∀ nodeId, Qualified params attestations active seed nodeId →
    ∃ node ∈ nodes, node.record.nodeId = nodeId

/-- Along the loop over the active records: the identifiers kept are a part of the keys, in their
order; what is kept is qualified, and what is qualified is kept. -/
theorem evaluated_loop (keyed : Keyed active) {items : List (PyStr × NodeRecord)}
    {outcomes : List (Option QualifiedNode)}
    (hall : List.Forall₂ (fun (item : PyStr × NodeRecord) outcome =>
      qualifyNode (active.toList.map Prod.fst) seed attestations params item.1 item.2 =
        .ok outcome) items outcomes)
    (hitems : ∀ item ∈ items, active[item.1]? = some item.2) :
    ((outcomes.filterMap id).map (·.record.nodeId)).Sublist (items.map Prod.fst) ∧
      (∀ node ∈ outcomes.filterMap id,
        Qualified params attestations active seed node.record.nodeId ∧
          Evaluates params attestations active seed node.record.nodeId node) ∧
      ∀ item ∈ items, Qualified params attestations active seed item.1 →
        ∃ node ∈ outcomes.filterMap id, node.record.nodeId = item.1 := by
  induction hall with
  | nil => simp
  | @cons item outcome items outcomes hx _ ih =>
    obtain ⟨hsub, hsound, hcomplete⟩ :=
      ih (forall_mem_of_forall_mem_cons hitems)
    have hrecord := hitems item mem_cons_self
    -- The record of an item names its key, so the node that is kept has the identifier.
    obtain ⟨hiff, hevaluates⟩ := qualifyNode_ok hrecord (keyed _ _ hrecord) hx
    cases outcome with
    | none =>
      refine ⟨hsub.cons _, hsound, ?_⟩
      intro other hother hqualified
      rcases List.mem_cons.mp hother with rfl | hother
      · cases hiff.mp hqualified
      · exact hcomplete other hother hqualified
    | some node =>
      have hnode := hevaluates node rfl
      have hid := hnode.keyed
      rw [show (some node :: outcomes).filterMap id = node :: outcomes.filterMap id from rfl]
      refine ⟨?_, ?_, ?_⟩
      · rw [map_cons, map_cons, hid]
        exact hsub.cons_cons _
      · intro other hother
        rcases List.mem_cons.mp hother with rfl | hother
        · rw [hid]
          exact ⟨hiff.mpr rfl, hnode⟩
        · exact hsound other hother
      · intro other hother hqualified
        rcases List.mem_cons.mp hother with rfl | hother
        · exact ⟨node, mem_cons_self, hid⟩
        · obtain ⟨found, hfound, hsame⟩ := hcomplete other hother hqualified
          exact ⟨found, mem_cons_of_mem _ hfound, hsame⟩

private theorem evaluatedNodes_of_mapM (keyed : Keyed active)
    {evaluated : List (Option QualifiedNode)} (h : (active.toList.mapM fun (nodeId, record) =>
      qualifyNode (active.toList.map Prod.fst) seed attestations params nodeId record) =
        .ok evaluated) :
    EvaluatedNodes params attestations active seed (evaluated.filterMap id) := by
  obtain ⟨hsub, hsound, hcomplete⟩ := evaluated_loop keyed (mapM_eq_ok.mp h)
    fun item hitem => Std.ExtTreeMap.mem_toList_iff_getElem?_eq_some.mp hitem
  refine ⟨(Table.nodup_keys active).sublist hsub, hsound, ?_⟩
  intro nodeId hqualified
  obtain ⟨record, hrecord⟩ := Option.isSome_iff_exists.mp
    (Std.ExtTreeMap.mem_iff_isSome_getElem?.mp hqualified.1)
  exact hcomplete (nodeId, record) (Std.ExtTreeMap.mem_toList_iff_getElem?_eq_some.mpr hrecord)
    hqualified

/-- All winners, in order. -/
def rankedWinners (nodes : List QualifiedNode) : List QualifiedNode :=
  sortBy compareTiebreak (bestOfGroups compareTiebreak (·.concentrationKey) nodes)

private theorem rankedRecipients_ok (keyed : Keyed active)
    (h : rankedRecipients active seed attestations params = .ok ordered) :
    ∃ nodes, EvaluatedNodes params attestations active seed nodes ∧
      ordered = (rankedWinners nodes).take params.maxRewardedNodesPerEpoch := by
  obtain ⟨evaluated, hevaluated, h⟩ := bind_eq_ok.mp h
  rw [pure_eq_ok] at h
  exact ⟨_, evaluatedNodes_of_mapM keyed hevaluated, h.symm⟩

section

variable {nodes : List QualifiedNode} (evaluated : EvaluatedNodes params attestations active seed
  nodes)

include evaluated

private theorem EvaluatedNodes.eq_of_id {other : QualifiedNode} (hnode : node ∈ nodes)
    (hother : other ∈ nodes) (hid : node.record.nodeId = other.record.nodeId) : node = other :=
  inj_on_of_nodup_map evaluated.distinct hnode hother hid

private theorem EvaluatedNodes.separates :
    Separates compareTiebreak nodes := fun _ hnode _ hother heq =>
  evaluated.eq_of_id hnode hother
    (eq_of_compareTiebreak (evaluated.sound _ hnode).2 (evaluated.sound _ hother).2 heq)

private theorem EvaluatedNodes.mem_rankedWinners :
    node ∈ rankedWinners nodes ↔ node ∈ nodes ∧
      Winner params attestations active seed node.record.nodeId := by
  rw [rankedWinners, mem_sortBy, mem_bestOfGroups evaluated.separates]
  refine and_congr_right fun hnode => ?_
  obtain ⟨hqualified, hevaluates⟩ := evaluated.sound node hnode
  constructor
  · intro hbest
    refine ⟨hqualified, fun other hother hkey hprecedes => ?_⟩
    obtain ⟨rival, hrival, rfl⟩ := evaluated.complete other hother
    obtain ⟨-, hrivalEvaluates⟩ := evaluated.sound rival hrival
    refine hbest rival hrival ?_ ((compareTiebreak_lt_iff hrivalEvaluates hevaluates).mpr hprecedes)
    rw [hrivalEvaluates.key, hevaluates.key, hkey]
  · rintro ⟨-, hbest⟩ rival hrival hkey hlt
    obtain ⟨hrivalQualified, hrivalEvaluates⟩ := evaluated.sound rival hrival
    refine hbest _ hrivalQualified ?_ ((compareTiebreak_lt_iff hrivalEvaluates hevaluates).mp hlt)
    rw [← hrivalEvaluates.key, ← hevaluates.key, hkey]

/-- **The ranking**: the winners, each before the next. -/
theorem EvaluatedNodes.ranking :
    ((rankedWinners nodes).map (·.record.nodeId)).Pairwise
        (Precedes params attestations active seed) ∧
      (∀ nodeId, nodeId ∈ (rankedWinners nodes).map (·.record.nodeId) ↔
        Winner params attestations active seed nodeId) ∧
      ((rankedWinners nodes).map (·.concentrationKey)).Nodup := by
  have hbest : bestOfGroups compareTiebreak (·.concentrationKey) nodes ⊆ nodes := fun node hnode =>
    ((mem_bestOfGroups evaluated.separates).mp hnode).1
  -- One winner for each key, so the winners are distinct and sorting is strict.
  have hkeys : ((bestOfGroups compareTiebreak (·.concentrationKey) nodes).map
      (·.concentrationKey)).Nodup := nodup_keys_bestOfGroups nodes
  refine ⟨?_, ?_, ?_⟩
  · rw [pairwise_map]
    refine (sortBy_strict (evaluated.separates.of_subset hbest) hkeys.of_map).imp_of_mem ?_
    intro node other hnode hother hlt
    exact (compareTiebreak_lt_iff (evaluated.sound node (hbest (mem_sortBy.mp hnode))).2
      (evaluated.sound other (hbest (mem_sortBy.mp hother))).2).mp hlt
  · intro nodeId
    rw [mem_map]
    constructor
    · rintro ⟨node, hnode, rfl⟩
      exact (evaluated.mem_rankedWinners.mp hnode).2
    · intro hwinner
      obtain ⟨node, hnode, rfl⟩ := evaluated.complete nodeId hwinner.1
      exact ⟨node, evaluated.mem_rankedWinners.mpr ⟨hnode, hwinner⟩, rfl⟩
  · exact ((sortBy_perm _).map _).nodup_iff.mpr hkeys

end

end Ranking

/-! ### The derivation returns -/

section Total

variable [Platform] {params : ConsensusParams} {attestations : List RewardAttestation}
  {active : Std.ExtTreeMap PyStr NodeRecord} (seed : Bytes) {nodeId : PyStr}

private theorem scoreBytes_total {payload : PyStr} (h : HasUtf8 payload) :
    ∃ score, scoreBytes seed payload = .ok score := by
  obtain ⟨raw, hraw⟩ := utf8Encode_total h
  exact ⟨_, bind_eq_ok.mpr ⟨raw, hraw, rfl⟩⟩

/-- The records' identifiers and payout addresses can be encoded, as all text decoded from a
transaction can. -/
def EncodableRecords (active : Std.ExtTreeMap PyStr NodeRecord) : Prop :=
  ∀ (nodeId : PyStr) (record : NodeRecord), active[nodeId]? = some record →
    HasUtf8 nodeId ∧ HasUtf8 record.payoutAddress

/-- Items whose texts can be encoded can be scored. -/
theorem scored_total (items : List α) (text : α → PyStr) (h : ∀ item ∈ items, HasUtf8 (text item)) :
    ∃ scored, (items.mapM fun item => do
      let score ← scoreBytes seed (text item)
      return (score, item) : Except PyError (List (Bytes × α))) = .ok scored := by
  refine mapM_returns_iff.mpr fun item hitem => ?_
  obtain ⟨score, hscore⟩ := scoreBytes_total seed (h item hitem)
  exact ⟨_, bind_eq_ok.mpr ⟨score, hscore, rfl⟩⟩

theorem candidateCheckWindows_total
    (htarget : params.rewardTargetChecksPerEpoch ≤ params.rewardCheckWindowsPerEpoch)
    (hid : HasUtf8 nodeId) : ∃ windows, candidateCheckWindows nodeId seed params = .ok windows := by
  obtain ⟨scored, hscored⟩ := scored_total seed (List.range params.rewardCheckWindowsPerEpoch)
    (fun window => str "candidate-window|" ++ strOfInt (window : ℕ) ++ str "|" ++ nodeId)
    fun window _ => by simp only [hasUtf8_append, hasUtf8_str, hasUtf8_strOfInt, hid, and_self]
  exact ⟨_, bind_eq_ok.mpr ⟨(), raiseIf_eq_ok.mpr (by omega),
    bind_eq_ok.mpr ⟨scored, hscored, rfl⟩⟩⟩

theorem verifierCommittee_total {window : ℕ} (hwindow : window < params.rewardCheckWindowsPerEpoch)
    (hid : HasUtf8 nodeId) (hids : ∀ id ∈ ids, HasUtf8 id) :
    ∃ committee, verifierCommittee nodeId ids window seed params = .ok committee := by
  obtain ⟨scored, hscored⟩ := scored_total seed (ids.filter (· ≠ nodeId))
    (fun verifier =>
      str "verifier|" ++ strOfInt (window : ℕ) ++ str "|" ++ nodeId ++ str "|" ++ verifier)
    fun verifier hverifier => by
      simp only [hasUtf8_append, hasUtf8_str, hasUtf8_strOfInt, hid,
        hids verifier (mem_of_mem_filter hverifier), and_self]
  exact ⟨_, bind_eq_ok.mpr ⟨(), raiseIf_eq_ok.mpr (by omega),
    bind_eq_ok.mpr ⟨scored, hscored, rfl⟩⟩⟩

private theorem qualifyNode_total
    (htarget : params.rewardTargetChecksPerEpoch ≤ params.rewardCheckWindowsPerEpoch)
    (hid : HasUtf8 nodeId) (hrecord : HasUtf8 record.nodeId)
    (hpayout : HasUtf8 record.payoutAddress) (hids : ∀ id ∈ ids, HasUtf8 id) :
    ∃ outcome, qualifyNode ids seed attestations params nodeId record = .ok outcome := by
  obtain ⟨windows, hwindows⟩ := candidateCheckWindows_total seed htarget hid
  have houtcome : ∀ window ∈ windows, ∃ outcome, (do
      let committee ← verifierCommittee nodeId ids (window : ℕ) seed params
      return (window, windowGaps params attestations nodeId window committee) :
        Except PyError (ℕ × Option (List Int))) = .ok outcome := by
    intro window hwindow
    obtain ⟨committee, hcommittee⟩ := verifierCommittee_total seed
      ((candidateCheckWindows_ok hwindows).2.2 window hwindow) hid hids
    exact ⟨_, bind_eq_ok.mpr ⟨committee, hcommittee, rfl⟩⟩
  obtain ⟨outcomes, houtcomes⟩ := mapM_returns_iff.mpr houtcome
  -- The rank hashes a text of the record; it has octets if its parts do.
  have htext : HasUtf8 (str "concentration-rank|" ++ record.nodeId ++ str "|" ++
      record.payoutAddress) := by
    simp only [hasUtf8_append, hasUtf8_str, hrecord, hpayout, and_self]
  obtain ⟨rank, hrank⟩ := scoreBytes_total seed htext
  unfold qualifyNode
  rw [hwindows, ok_bind, houtcomes, ok_bind]
  dsimp only
  split
  · rw [hrank]
    exact ⟨_, rfl⟩
  · exact ⟨_, rfl⟩

/-- **The derivation returns** on records that can be encoded. -/
theorem deriveRewardSettlementEntries_total (keyed : Keyed active)
    (encodable : EncodableRecords active)
    (htarget : params.rewardTargetChecksPerEpoch ≤ params.rewardCheckWindowsPerEpoch) (pool : Int) :
    ∃ entries, deriveRewardSettlementEntries active seed attestations pool params =
      .ok entries := by
  have hitem : ∀ item ∈ active.toList, active[item.1]? = some item.2 := fun item hitem =>
    Std.ExtTreeMap.mem_toList_iff_getElem?_eq_some.mp hitem
  have hids : ∀ id ∈ active.toList.map Prod.fst, HasUtf8 id := by
    intro id hid
    obtain ⟨item, hmem, rfl⟩ := List.mem_map.mp hid
    exact (encodable _ _ (hitem item hmem)).1
  have houtcome : ∀ item ∈ active.toList, ∃ outcome, (fun (nodeId, record) =>
      qualifyNode (active.toList.map Prod.fst) seed attestations params nodeId record) item =
        .ok outcome := by
    intro item hmem
    have hrecord := hitem item hmem
    obtain ⟨hid, hpayout⟩ := encodable _ _ hrecord
    exact qualifyNode_total seed htarget hid (by rwa [keyed _ _ hrecord]) hpayout hids
  obtain ⟨evaluated, hevaluated⟩ := mapM_returns_iff.mpr houtcome
  exact ⟨_, bind_eq_ok.mpr ⟨_, bind_eq_ok.mpr ⟨evaluated, hevaluated, rfl⟩, rfl⟩⟩

end Total

/-! ### The entries -/

section Entries

variable [Platform] {params : ConsensusParams} {attestations : List RewardAttestation}
  {active : Std.ExtTreeMap PyStr NodeRecord} {seed : Bytes} {pool : Int}

/-- The entry of the node at a rank. -/
def poolShare (pool : Int) (count rank : ℕ) (node : QualifiedNode) : RewardSettlementEntry where
  nodeId := node.record.nodeId
  payoutAddress := node.record.payoutAddress
  rewardChipbits := pool / count + if (rank : Int) < pool % count then 1 else 0
  selectionRank := rank
  concentrationKey := node.concentrationKey
  finalConfirmationPassed := true

omit [Platform] in
private theorem splitPool_eq_mapIdx (hpool : 0 < pool) :
    splitPool ordered pool = ordered.mapIdx (poolShare pool ordered.length) := by
  unfold splitPool
  split
  · next h =>
    rcases h with h | h
    · rw [List.isEmpty_iff.mp h]
      rfl
    · omega
  · rfl

omit [Platform] in
/-- What an entry takes from its node does not depend on the rank. -/
theorem map_mapIdx_poolShare {count : ℕ} {f : RewardSettlementEntry → α} {g : QualifiedNode → α}
    (hfg : ∀ rank node, f (poolShare pool count rank node) = g node) :
    (ordered.mapIdx (poolShare pool count)).map f = ordered.map g := by
  apply ext_getElem?
  intro index
  rw [getElem?_map, getElem?_map, getElem?_mapIdx, Option.map_map]
  exact congrArg (Option.map · _) (funext fun node => hfg index node)

/-- The nodes of derived entries are winners. -/
theorem winner_of_derived (keyed : Keyed active) {entries : List RewardSettlementEntry}
    (h : deriveRewardSettlementEntries active seed attestations pool params = .ok entries)
    {entry : RewardSettlementEntry} (hentry : entry ∈ entries) :
    Winner params attestations active seed entry.nodeId := by
  obtain ⟨ordered, hordered, rfl⟩ := deriveRewardSettlementEntries_eq_ok.mp h
  obtain ⟨nodes, evaluated, hranked⟩ := rankedRecipients_ok keyed hordered
  have hpool : 0 < pool := by
    by_contra hpool
    rw [splitPool_eq_nil_iff.mpr (.inr (not_lt.mp hpool))] at hentry
    cases hentry
  rw [splitPool_eq_mapIdx hpool] at hentry
  obtain ⟨rank, hrank, rfl⟩ := List.mem_mapIdx.mp hentry
  have hnode : ordered[rank] ∈ (rankedWinners nodes).take params.maxRewardedNodesPerEpoch :=
    hranked ▸ getElem_mem hrank
  exact (evaluated.mem_rankedWinners.mp (mem_of_mem_take hnode)).2

/-- **The derived entries are right.** When the derivation returns, and it does on records that can
be encoded, its entries are the winners in order, as many as may be rewarded, with their ranks; no
two share a concentration key; and they split the pool into shares that differ by at most one. -/
theorem derivedEntries_correct (keyed : Keyed active) (hpool : 0 < pool)
    (htarget : params.rewardTargetChecksPerEpoch ≤ params.rewardCheckWindowsPerEpoch) :
    (EncodableRecords active → ∃ entries,
      deriveRewardSettlementEntries active seed attestations pool params = .ok entries) ∧
    ∀ entries, deriveRewardSettlementEntries active seed attestations pool params = .ok entries →
      (∃ ranking : List PyStr, ranking.Pairwise (Precedes params attestations active seed) ∧
        (∀ nodeId, nodeId ∈ ranking ↔ Winner params attestations active seed nodeId) ∧
        entries.map (·.nodeId) = ranking.take params.maxRewardedNodesPerEpoch) ∧
      (∀ (index : ℕ) (entry : RewardSettlementEntry), entries[index]? = some entry →
        entry.selectionRank = index ∧
        entry.payoutAddress = payoutOf active entry.nodeId ∧
        entry.concentrationKey = concentrationKeyOf attestations entry.nodeId ∧
        entry.finalConfirmationPassed = true) ∧
      (entries.map (·.concentrationKey)).Nodup ∧
      (entries ≠ [] → (entries.map (·.rewardChipbits)).sum = pool) ∧
      entries.Pairwise fun earlier later => later.rewardChipbits ≤ earlier.rewardChipbits ∧
        earlier.rewardChipbits ≤ later.rewardChipbits + 1 := by
  refine ⟨fun encodable => deriveRewardSettlementEntries_total seed keyed encodable htarget
    pool, ?_⟩
  intro entries hentries
  obtain ⟨ordered, hordered, rfl⟩ := deriveRewardSettlementEntries_eq_ok.mp hentries
  obtain ⟨nodes, evaluated, hranked⟩ := rankedRecipients_ok keyed hordered
  obtain ⟨hascending, hwinners, hkeys⟩ := evaluated.ranking
  rw [splitPool_eq_mapIdx hpool]
  refine ⟨⟨_, hascending, hwinners, ?_⟩, ?_, ?_, ?_, ?_⟩
  · rw [map_mapIdx_poolShare fun _ _ => rfl, hranked, map_take]
  · intro index entry hentry
    rw [getElem?_mapIdx, Option.map_eq_some_iff] at hentry
    obtain ⟨node, hnode, rfl⟩ := hentry
    have hmem : node ∈ nodes := by
      have hin := mem_of_getElem? hnode
      rw [hranked] at hin
      exact (evaluated.mem_rankedWinners.mp (mem_of_mem_take hin)).1
    obtain ⟨-, hevaluates⟩ := evaluated.sound node hmem
    refine ⟨rfl, ?_, hevaluates.key, rfl⟩
    show node.record.payoutAddress = payoutOf active node.record.nodeId
    rw [payoutOf, hevaluates.record]
    rfl
  · rw [map_mapIdx_poolShare fun _ _ => rfl, hranked, map_take]
    exact hkeys.sublist (take_sublist _ _)
  · intro hne
    rw [← splitPool_eq_mapIdx hpool]
    exact sum_splitPool (fun hnil => hne (by rw [hnil]; rfl)) hpool
  · -- The remainder goes to the ranks below it.
    rw [pairwise_iff_getElem]
    intro i j hi hj hij
    rw [getElem_mapIdx, getElem_mapIdx]
    show pool / _ + _ ≤ pool / _ + _ ∧ pool / _ + _ ≤ pool / _ + _ + 1
    split <;> split <;> omega

end Entries

/-! ### Two winners

Three reward nodes, each checked by the other two, where one pass is a quorum. The second node
passes both windows of the first, and the first those of the third. -/

namespace SampleRecipients

/-- The sample parameters, with committees of two. -/
def params : ConsensusParams := { sampleParams with rewardVerifierCommitteeSize := 2 }

/-- The three active nodes. -/
def active : Std.ExtTreeMap PyStr NodeRecord :=
  activeRewardRecordsById (.fromRecords (["a", "b", "c"].map SampleEpoch.node)) 2 params

/-- A check of a candidate by a verifier. -/
def attestation (window : ℕ) (candidate verifier result key : String) : RewardAttestation :=
  { SampleEpoch.attestation window key with
    candidateNodeId := str candidate
    verifierNodeId := str verifier
    resultCode := str result }

/-- The passes of the first and of the third node. -/
def passes : List RewardAttestation :=
  [attestation 0 "a" "b" "pass" "first", attestation 1 "a" "b" "pass" "first",
    attestation 0 "c" "a" "pass" "third", attestation 1 "c" "a" "pass" "third"]

def seed : Bytes := List.replicate 32 0

/-- The entry of a node. -/
def entry (nodeId : String) (reward rank : Int) (key : String) : RewardSettlementEntry :=
  { SampleEpoch.wholePoolEntry with
    nodeId := str nodeId
    rewardChipbits := reward
    selectionRank := rank
    concentrationKey := str key }

local instance platform : Platform := samplePlatform []

/-- The passes pay the first and the third node, each under its key. -/
theorem derived_passes : deriveRewardSettlementEntries active seed passes 30 params =
    .ok [entry "a" 15 0 "first", entry "c" 15 1 "third"] := by
  decide +kernel

/-- The two entries are those of the winners. -/
theorem derivedEntries_correct_passes :
    ∃ ranking : List PyStr,
      (∀ nodeId, nodeId ∈ ranking ↔ Winner params passes active seed nodeId) ∧
        [str "a", str "c"] = ranking.take params.maxRewardedNodesPerEpoch := by
  have hcorrect := (derivedEntries_correct (keyed_activeRewardRecordsById _ _)
    (show (0 : Int) < 30 by decide) (by decide)).2 _ derived_passes
  obtain ⟨⟨ranking, -, hwinners, hids⟩, -⟩ := hcorrect
  exact ⟨ranking, hwinners, hids⟩

end SampleRecipients

end Chipcoin
