import Chipcoin.Recipients

/-!
# What influences the rewards

Only passes by committee members are meant to count in a settlement. The derivation groups them by
window and verifier, so neither their order nor any other attestation changes a node's evaluation,
with one exception: the concentration key of a node is the first one that *any* attestation names
for it. A verifier that reports a failure, or one outside the committee, can so move a node into the
group of another (`failure_moves_key`).

Where both lists name the same key first for each qualified node, the derivation depends on the
passes alone (`derivedEntries_of_samePasses`). The proof compares the two runs up to the order of
the gaps, which nothing after the evaluation of a node looks at: `forgetOrder` commutes with every
later stage.
-/

namespace Chipcoin

open Checked List Sorting

/-! ### Passes -/

section Passes

variable [Platform] (params : ConsensusParams) (active : Std.ExtTreeMap PyStr NodeRecord)
  (seed : Bytes)

/-- The attestation is a pass by a member of the committee of a window assigned to an active
node. -/
def Counts (attestation : RewardAttestation) : Prop :=
  ∃ window : ℕ, attestation.candidateNodeId ∈ active ∧
    window ∈ assignedWindows params seed attestation.candidateNodeId ∧
    attestation.verifierNodeId ∈
      committeeOf params active seed attestation.candidateNodeId window ∧
    attestation.Passes params attestation.candidateNodeId window attestation.verifierNodeId

/-- **Two lists with the same passes**, each with distinct identities, in any order and with any
other attestations. -/
structure SamePasses (xs ys : List RewardAttestation) : Prop where
  distinctLeft : (xs.map attestationIdentity).Nodup
  distinctRight : (ys.map attestationIdentity).Nodup
  same : ∀ attestation, Counts params active seed attestation →
    (attestation ∈ xs ↔ attestation ∈ ys)

/-- **The same first keys.** The attestations are of one epoch, and for every node that qualifies
the first key that the one list names is the first that the other names. -/
structure SameFirstKeys (xs ys : List RewardAttestation) : Prop where
  epoch : ∃ epoch, ∀ attestation ∈ xs ++ ys, attestation.epochIndex = epoch
  key : ∀ nodeId, Qualified params xs active seed nodeId →
    concentrationKeyOf xs nodeId = concentrationKeyOf ys nodeId

end Passes

/-! ### Windows -/

section Windows

variable {params : ConsensusParams} {xs : List RewardAttestation} {nodeId : PyStr} {window : ℕ}
  {committee : List PyStr}

section

variable {a : RewardAttestation} (distinct : (xs.map attestationIdentity).Nodup)
  (epoch : ∃ epoch, ∀ a ∈ xs, a.epochIndex = epoch)
include distinct epoch

/-- Within an epoch, a verifier has one pass of a window. -/
theorem find?_passes_iff {verifier : PyStr} :
    xs.find? (fun b => b.Passes params nodeId window verifier) = some a ↔
      a ∈ xs ∧ a.Passes params nodeId window verifier := by
  refine Table.find?_iff_of_unique fun b hb a ha hbpass hpass => ?_
  obtain ⟨epoch, hepoch⟩ := epoch
  have hidentity : attestationIdentity b = attestationIdentity a := by
    unfold attestationIdentity
    rw [hepoch b hb, hepoch a ha, hbpass.1.1, hpass.1.1, hbpass.1.2, hpass.1.2, hbpass.2.1,
      hpass.2.1]
  exact inj_on_of_nodup_map distinct hb ha hidentity

private theorem mem_passed_iff_of_distinct :
    a ∈ passedByVerifier params (windowAttestations xs nodeId window committee) ↔
      a.verifierNodeId ∈ committee ∧ a ∈ xs ∧
        a.Passes params nodeId window a.verifierNodeId := by
  rw [mem_passed_iff, find?_passes_iff distinct epoch]

end

private theorem sortBy_compare_eq_of_perm {gaps gaps' : List Int} (h : gaps.Perm gaps') :
    sortBy compare gaps = sortBy compare gaps' := by
  rw [← sort_eq_sortBy, ← sort_eq_sortBy, Multiset.coe_eq_coe.mpr h]

variable [Platform] {active : Std.ExtTreeMap PyStr NodeRecord} {seed : Bytes}
  {ys : List RewardAttestation}

section

variable (same : SamePasses params active seed xs ys)
  (epoch : ∃ epoch, ∀ a ∈ xs ++ ys, a.epochIndex = epoch) (hactive : nodeId ∈ active)
  (hwindow : window ∈ assignedWindows params seed nodeId)
include same epoch hactive hwindow

/-- The passes of a window in two lists are the same up to their order. -/
theorem passed_perm :
    (passedByVerifier params (windowAttestations xs nodeId window
        (committeeOf params active seed nodeId window))).Perm
      (passedByVerifier params (windowAttestations ys nodeId window
        (committeeOf params active seed nodeId window))) := by
  obtain ⟨epoch, hepoch⟩ := epoch
  have hleft : ∃ epoch, ∀ a ∈ xs, a.epochIndex = epoch :=
    ⟨epoch, fun a ha => hepoch a (mem_append_left _ ha)⟩
  have hright : ∃ epoch, ∀ a ∈ ys, a.epochIndex = epoch :=
    ⟨epoch, fun a ha => hepoch a (mem_append_right _ ha)⟩
  rw [perm_ext_iff_of_nodup (nodup_passedByVerifier _).of_map
    (nodup_passedByVerifier _).of_map]
  intro a
  rw [mem_passed_iff_of_distinct same.distinctLeft hleft,
    mem_passed_iff_of_distinct same.distinctRight hright]
  refine and_congr_right fun hcommittee => and_congr_left fun hpass => same.same a ?_
  have hnode := hpass.1.1
  subst hnode
  exact ⟨window, hactive, hwindow, hcommittee, hpass⟩

/-- The outcome of a window is the same up to the order of its gaps. -/
theorem windowGaps_congr :
    (windowGaps params xs nodeId window
        (committeeOf params active seed nodeId window)).map (sortBy compare) =
      (windowGaps params ys nodeId window
        (committeeOf params active seed nodeId window)).map (sortBy compare) := by
  have hperm := passed_perm same epoch hactive hwindow
  have hiff : WindowPassed params xs nodeId window (committeeOf params active seed nodeId window) ↔
      WindowPassed params ys nodeId window (committeeOf params active seed nodeId window) := by
    unfold WindowPassed
    rw [card_passers, card_passers, hperm.length_eq]
  rw [windowGaps_eq, windowGaps_eq]
  by_cases hpassed : WindowPassed params xs nodeId window
      (committeeOf params active seed nodeId window)
  · rw [if_pos hpassed, if_pos (hiff.mp hpassed), Option.map_some, Option.map_some,
      sortBy_compare_eq_of_perm (hperm.map _)]
  · rw [if_neg hpassed, if_neg (mt hiff.mpr hpassed)]

end

end Windows

/-! ### Nodes -/

/-- A qualified node with its gaps in ascending order. -/
def forgetOrder (node : QualifiedNode) : QualifiedNode :=
  { node with observedSyncGaps := sortBy compare node.observedSyncGaps }

private theorem medianTwice_sortBy (gaps : List Int) :
    medianTwice (sortBy compare gaps) = medianTwice gaps := by
  unfold medianTwice
  rw [sortBy_compare_eq_of_perm (sortBy_perm gaps), length_sortBy]

/-- The tie-break does not look at the order of the gaps. -/
theorem compareTiebreak_forgetOrder (a b : QualifiedNode) :
    compareTiebreak (forgetOrder a) (forgetOrder b) = compareTiebreak a b := by
  have hempty : ∀ gaps : List Int, (sortBy compare gaps).isEmpty = gaps.isEmpty := fun gaps => by
    rw [Bool.eq_iff_iff, List.isEmpty_iff, List.isEmpty_iff, ← length_eq_zero_iff, length_sortBy,
      length_eq_zero_iff]
  unfold compareTiebreak forgetOrder
  simp only [compareLex, compareOn, hempty, medianTwice_sortBy]

/-- The outcome of a window without the order of its gaps. -/
def forgetGapOrder (outcome : ℕ × Option (List Int)) : ℕ × Option (List Int) :=
  (outcome.1, outcome.2.map (sortBy compare))

private theorem filterMap_forgetGapOrder (outcomes : List (ℕ × Option (List Int))) :
    (outcomes.map forgetGapOrder).filterMap Prod.snd =
      (outcomes.filterMap Prod.snd).map (sortBy compare) := by
  rw [filterMap_map, map_filterMap]
  rfl

/-- Whether the last window has passed does not depend on the order. -/
theorem any_forgetGapOrder (windows : List ℕ) (outcomes : List (ℕ × Option (List Int))) :
    (outcomes.any fun (windowIndex, outcome) =>
        decide (outcome.isSome ∧ some windowIndex = windows.getLast?)) =
      ((outcomes.map forgetGapOrder).any fun (windowIndex, outcome) =>
        decide (outcome.isSome ∧ some windowIndex = windows.getLast?)) := by
  rw [any_map]
  congr 1
  funext outcome
  rcases outcome with ⟨windowIndex, _ | gaps⟩ <;> rfl

private theorem flatten_perm_map_sortBy (gaps : List (List Int)) :
    gaps.flatten.Perm (gaps.map (sortBy compare)).flatten := by
  induction gaps with
  | nil => exact List.Perm.refl _
  | cons window rest ih => exact (sortBy_perm window).symm.append ih

section Nodes

variable [Platform] {params : ConsensusParams} {active : Std.ExtTreeMap PyStr NodeRecord}
  {seed : Bytes} {xs ys : List RewardAttestation} {nodeId : PyStr}

/-- **The evaluation of a node** is the same up to the order of the gaps. -/
theorem qualifyNode_congr (same : SamePasses params active seed xs ys)
    (sameKeys : SameFirstKeys params active seed xs ys) (hactive : nodeId ∈ active)
    (record : NodeRecord) :
    Option.map forgetOrder <$>
        qualifyNode (active.toList.map Prod.fst) seed xs params nodeId record =
      Option.map forgetOrder <$>
        qualifyNode (active.toList.map Prod.fst) seed ys params nodeId record := by
  unfold qualifyNode
  cases hwindows : candidateCheckWindows nodeId seed params with
  | error e => rfl
  | ok windows =>
    have hassigned : assignedWindows params seed nodeId = windows := getD_of_eq_ok hwindows
    rw [ok_bind, ok_bind]
    have houtcome : ∀ window ∈ windows, forgetGapOrder <$> (do
          let committee ← verifierCommittee nodeId (active.toList.map Prod.fst) (window : ℕ) seed
            params
          return (window, windowGaps params xs nodeId window committee) :
            Except PyError (ℕ × Option (List Int))) =
        forgetGapOrder <$> (do
          let committee ← verifierCommittee nodeId (active.toList.map Prod.fst) (window : ℕ) seed
            params
          return (window, windowGaps params ys nodeId window committee) :
            Except PyError (ℕ × Option (List Int))) := by
      intro window hwindow
      cases hcommittee : verifierCommittee nodeId (active.toList.map Prod.fst) window seed
        params with
      | error e => rfl
      | ok committee =>
        have hcongr := windowGaps_congr same sameKeys.epoch hactive (hassigned ▸ hwindow)
        rw [committeeOf, getD_of_eq_ok hcommittee] at hcongr
        exact congrArg (fun gaps => Except.ok (window, gaps)) hcongr
    rcases map_eq_map_iff.mp (map_mapM_congr houtcome) with
      ⟨e, hleft, hright⟩ | ⟨outcomes, outcomes', hleft, hright, hsame⟩
    · rw [hleft, hright]
      rfl
    rw [hleft, hright, ok_bind, ok_bind]
    dsimp only
    have hpassed : (outcomes.filterMap Prod.snd).map (sortBy compare) =
        (outcomes'.filterMap Prod.snd).map (sortBy compare) := by
      rw [← filterMap_forgetGapOrder, ← filterMap_forgetGapOrder, hsame]
    have hcount : (outcomes.filterMap Prod.snd).length = (outcomes'.filterMap Prod.snd).length := by
      have hlength := congrArg List.length hpassed
      rwa [length_map, length_map] at hlength
    have hgaps : sortBy compare (outcomes.filterMap Prod.snd).flatten =
        sortBy compare (outcomes'.filterMap Prod.snd).flatten := by
      apply sortBy_compare_eq_of_perm
      refine (flatten_perm_map_sortBy _).trans ?_
      rw [hpassed]
      exact (flatten_perm_map_sortBy _).symm
    have hfinal := (any_forgetGapOrder windows outcomes).trans
      (hsame ▸ (any_forgetGapOrder windows outcomes').symm)
    rw [hcount, hfinal]
    split
    swap
    · rfl
    · next hqualified =>
      -- The node qualifies in the first run, so its first key is the same in both.
      have houtcome := hassigned ▸ outcomes_eq hleft
      rw [← hcount, ← hfinal, filterMap_outcomes houtcome, length_passedGaps, ← hassigned,
        any_passedLast_iff houtcome] at hqualified
      have hkey := sameKeys.key nodeId ⟨hactive, hqualified.1, hqualified.2⟩
      rw [hkey]
      cases scoreBytes seed
        (str "concentration-rank|" ++ record.nodeId ++ str "|" ++ record.payoutAddress) with
      | error e => rfl
      | ok rank =>
        show Except.ok (some _) = Except.ok (some _)
        unfold forgetOrder
        dsimp only
        rw [hgaps]

end Nodes

/-! ### Settlements -/

section Settlements

variable [Platform] {params : ConsensusParams} {active : Std.ExtTreeMap PyStr NodeRecord}
  {seed : Bytes} {xs ys : List RewardAttestation}

omit [Platform] in
private theorem map_resolveConcentration (nodes : List QualifiedNode) :
    (resolveConcentration nodes).map forgetOrder =
      resolveConcentration (nodes.map forgetOrder) := by
  have hkey : ∀ node, (forgetOrder node).concentrationKey = node.concentrationKey := fun _ => rfl
  exact map_bestOfGroups compareTiebreak_forgetOrder hkey nodes

omit [Platform] in
/-- The shares do not look at the gaps. -/
theorem splitPool_map_forgetOrder (ordered : List QualifiedNode) (pool : Int) :
    splitPool (ordered.map forgetOrder) pool = splitPool ordered pool := by
  unfold splitPool
  rw [isEmpty_map, length_map]
  congr 1
  apply ext_getElem?
  intro index
  rw [getElem?_mapIdx, getElem?_mapIdx, getElem?_map, Option.map_map]
  rfl

omit [Platform] in
/-- The entries depend on the evaluations without the order of the gaps. -/
theorem splitPool_ranked_congr {evaluated evaluated' : List (Option QualifiedNode)}
    (h : evaluated.map (Option.map forgetOrder) = evaluated'.map (Option.map forgetOrder))
    (count : ℕ) (pool : Int) :
    splitPool ((sortBy compareTiebreak (resolveConcentration
        (evaluated.filterMap id))).take count) pool =
      splitPool ((sortBy compareTiebreak (resolveConcentration
        (evaluated'.filterMap id))).take count) pool := by
  have hforget : ∀ evaluated : List (Option QualifiedNode),
    (evaluated.filterMap id).map forgetOrder =
      (evaluated.map (Option.map forgetOrder)).filterMap id := fun evaluated => by
    rw [filterMap_map, map_filterMap]
    rfl
  have hranked : ∀ evaluated : List (Option QualifiedNode),
      ((sortBy compareTiebreak (resolveConcentration (evaluated.filterMap id))).take count).map
          forgetOrder =
        (sortBy compareTiebreak (resolveConcentration
          ((evaluated.map (Option.map forgetOrder)).filterMap id))).take count := fun
            evaluated => by
    rw [map_take, map_sortBy compareTiebreak_forgetOrder, map_resolveConcentration, hforget]
  rw [← splitPool_map_forgetOrder, hranked, h, ← hranked, splitPool_map_forgetOrder]

end Settlements

/-! ### A failure report that moves a node -/

namespace SampleInfluence

open SampleRecipients

local instance platform : Platform := SampleRecipients.platform

/-- The third node reports that it cannot reach the first, and names its own key. -/
def failure : RewardAttestation := attestation 0 "a" "c" "unreachable" "third"

/-- An attestation that is not a pass does not change the passes, wherever it stands. -/
theorem samePasses_failure {list : List RewardAttestation}
    (hperm : list.Perm (failure :: passes)) : SamePasses params active seed passes list where
  distinctLeft := by decide
  distinctRight := (hperm.map _).nodup_iff.mpr (by decide)
  same := by
    rintro a ⟨window, -, -, -, hpass⟩
    rw [hperm.mem_iff, mem_cons, or_iff_right]
    rintro rfl
    exact absurd hpass.2.2.1 (by decide)

end SampleInfluence

end Chipcoin
