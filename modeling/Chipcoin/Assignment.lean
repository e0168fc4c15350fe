import Chipcoin.Recipients

/-!
# Check windows and committees

`candidate_check_windows` and `verifier_committee` rank windows and verifiers by a score and keep
the first few. The ranking of verifiers does not depend on which nodes are active
(`verifierOrder`), so a committee is the first few of the other nodes in an order fixed beforehand
(`verifierCommittee_ok`), and what is general about the first few of a list applies: they do not
depend on the order in which the list is given, and one more element displaces at most one of them.

Scores are hashes of UTF-8 text. Identifiers without it, those with a lone surrogate, have no score,
and both functions raise.
-/

namespace Chipcoin

open Checked List Sorting

section

variable [Platform] (seed : Bytes) (nodeId : PyStr) (window : ℕ)

/-- The score of a verifier and its identifier. -/
def scoredVerifier (verifier : PyStr) : Bytes × PyStr :=
  ((scoreBytes seed (str "verifier|" ++ strOfInt window ++ str "|" ++ nodeId ++ str "|" ++
    verifier)).toOption.getD [], verifier)

/-- Verifiers by score, then by identifier. -/
def verifierOrder : PyStr → PyStr → Ordering :=
  compareLex (compareOn fun verifier => (scoredVerifier seed nodeId window verifier).1)
    (compareOn fun verifier => (scoredVerifier seed nodeId window verifier).2)

instance : Std.TransCmp (verifierOrder seed nodeId window) := by
  unfold verifierOrder
  infer_instance

variable {seed nodeId window} {params : ConsensusParams}
  {ids ids' committee committee' : List PyStr}

private theorem separates_verifierOrder : Separates (verifierOrder seed nodeId window) ids := by
  intro a _ b _ h
  have hids : compare a b = .eq := (Ordering.then_eq_eq.mp h).2
  exact Std.LawfulEqCmp.eq_of_compare hids

/-- **The committee** is the first few of the other nodes. -/
theorem verifierCommittee_ok (h : verifierCommittee nodeId ids window seed params = .ok committee) :
    committee = (sortBy (verifierOrder seed nodeId window) (ids.filter (· ≠ nodeId))).take
      params.rewardVerifierCommitteeSize := by
  simp only [verifierCommittee, bind_eq_ok, raiseIf_eq_ok, pure_eq_ok] at h
  obtain ⟨-, -, scored, hscored, rfl⟩ := h
  have hpairs := map_eq_of_mapM (k := id) (g := scoredVerifier seed nodeId window) hscored (by
    intro verifier pair hx
    simp only [bind_eq_ok, pure_eq_ok] at hx
    obtain ⟨score, hscore, rfl⟩ := hx
    rw [scoredVerifier, hscore]
    rfl)
  have hcmp : ∀ a b, compareLex (compareOn Prod.fst) (compareOn Prod.snd)
      (scoredVerifier seed nodeId window a) (scoredVerifier seed nodeId window b) =
      verifierOrder seed nodeId window a b := fun _ _ => rfl
  rw [map_id] at hpairs
  rw [hpairs, ← map_sortBy hcmp, ← map_take, map_map]
  exact map_id _

private theorem verifierCommittee_eq_of_perm (hnodup : ids.Nodup) (hperm : ids'.Perm ids)
    (h' : verifierCommittee nodeId ids' window seed params = .ok committee') :
    committee' = (sortBy (verifierOrder seed nodeId window) (ids.filter (· ≠ nodeId))).take
      params.rewardVerifierCommitteeSize := by
  rw [verifierCommittee_ok h', sortBy_eq_of_perm separates_verifierOrder (hnodup.filter _)
    (hperm.filter _)]

/-- **The order of the identifiers does not matter.** -/
theorem verifierCommittee_perm (hnodup : ids.Nodup) (hperm : ids'.Perm ids)
    (h : verifierCommittee nodeId ids window seed params = .ok committee) :
    verifierCommittee nodeId ids' window seed params = .ok committee := by
  -- The same verifiers are scored, so the other call returns as well.
  have hreturns :
      ∃ committee', verifierCommittee nodeId ids' window seed params = .ok committee' := by
    simp only [verifierCommittee, bind_eq_ok, raiseIf_eq_ok, pure_eq_ok] at h ⊢
    obtain ⟨-, hrange, scored, hscored, -⟩ := h
    obtain ⟨scored', hscored'⟩ := mapM_returns_iff.mpr fun verifier hverifier =>
      mapM_returns_iff.mp ⟨scored, hscored⟩ verifier ((hperm.filter _).mem_iff.mp hverifier)
    exact ⟨_, (), hrange, scored', hscored', rfl⟩
  obtain ⟨committee', h'⟩ := hreturns
  rw [h', verifierCommittee_eq_of_perm hnodup hperm h', ← verifierCommittee_ok h]

/-- **One more active node** joins at most itself, in the place of at most one member. -/
theorem verifierCommittee_grow {newId : PyStr} (hnodup : ids.Nodup) (hnew : newId ∉ ids)
    (hperm : ids'.Perm (newId :: ids))
    (h : verifierCommittee nodeId ids window seed params = .ok committee)
    (h' : verifierCommittee nodeId ids' window seed params = .ok committee') :
    (∀ id ∈ committee', id ∈ committee ∨ id = newId) ∧
      ∀ a ∈ committee, ∀ b ∈ committee, a ∉ committee' → b ∉ committee' → a = b := by
  have hcons : (newId :: ids).Nodup := List.nodup_cons.mpr ⟨hnew, hnodup⟩
  obtain rfl := verifierCommittee_ok h
  obtain rfl := verifierCommittee_eq_of_perm hcons hperm h'
  by_cases hself : newId = nodeId
  · -- The candidate is not among its verifiers.
    rw [filter_cons_of_neg (by simpa using hself)]
    exact ⟨fun id hid => .inl hid, fun a ha _ _ hdropped => absurd ha hdropped⟩
  · have hothers := hcons.filter fun id => decide (id ≠ nodeId)
    rw [filter_cons_of_pos (by simpa using hself)] at hothers ⊢
    exact ⟨fun id => mem_take_sortBy_cons separates_verifierOrder hothers,
      fun a ha b hb ha' hb' => displaced_unique separates_verifierOrder hothers ha ha' hb hb'⟩

/-! ### The assignment -/

/-- **Windows and committees.** A node is assigned as many windows as it is checked in, ascending
and of the epoch. A committee has as many members as it may and can have, distinct active nodes
other than the candidate, and does not depend on the order of the list; with one more active node it
gains at most that node and loses at most one member. Both functions return where identifiers have
UTF-8 text. -/
theorem assignment_correct (seed : Bytes) (nodeId : PyStr)
    (htarget : params.rewardTargetChecksPerEpoch ≤ params.rewardCheckWindowsPerEpoch) :
    ((HasUtf8 nodeId → ∃ windows, candidateCheckWindows nodeId seed params = .ok windows) ∧
      ∀ windows, candidateCheckWindows nodeId seed params = .ok windows →
        windows.length = params.rewardTargetChecksPerEpoch ∧ windows.Pairwise (· < ·) ∧
        ∀ window ∈ windows, window < params.rewardCheckWindowsPerEpoch) ∧
    ∀ (window : ℕ) (ids : List PyStr), window < params.rewardCheckWindowsPerEpoch → ids.Nodup →
      (HasUtf8 nodeId → (∀ id ∈ ids, HasUtf8 id) →
        ∃ committee, verifierCommittee nodeId ids window seed params = .ok committee) ∧
      ∀ committee, verifierCommittee nodeId ids window seed params = .ok committee →
        committee.length =
          min params.rewardVerifierCommitteeSize (ids.filter (· ≠ nodeId)).length ∧
        committee.Nodup ∧ (∀ id ∈ committee, id ∈ ids ∧ id ≠ nodeId) ∧
        (∀ ids', ids'.Perm ids →
          verifierCommittee nodeId ids' window seed params = .ok committee) ∧
        ∀ newId ids' committee', newId ∉ ids → ids'.Perm (newId :: ids) →
          verifierCommittee nodeId ids' window seed params = .ok committee' →
          (∀ id ∈ committee', id ∈ committee ∨ id = newId) ∧
          ∀ a ∈ committee, ∀ b ∈ committee, a ∉ committee' → b ∉ committee' → a = b := by
  refine ⟨⟨candidateCheckWindows_total seed htarget, fun windows => candidateCheckWindows_ok⟩, ?_⟩
  intro window ids hwindow hnodup
  refine ⟨verifierCommittee_total seed hwindow, fun committee h => ?_⟩
  refine ⟨?_, ?_, ?_, fun ids' hperm => verifierCommittee_perm hnodup hperm h,
    fun newId ids' committee' hnew hperm => verifierCommittee_grow hnodup hnew hperm h⟩
  -- The committee is the head of the sorted list of the others.
  all_goals rw [verifierCommittee_ok h]
  · rw [length_take, length_sortBy]
  · exact ((sortBy_perm _).nodup_iff.mpr (hnodup.filter _)).sublist (take_sublist _ _)
  · intro id hid
    simpa using mem_sortBy.mp (mem_of_mem_take hid)

end

/-! ### Identifiers with and without UTF-8 text -/

namespace SampleEpoch

local instance : Platform := platform

/-- A node of the sample epoch has its windows and, of two other nodes, a committee of one; when a
fourth node comes, nobody else enters the committee. -/
theorem assignment_correct_sample :
    (∃ windows, candidateCheckWindows (str "a") [] ctx.params = .ok windows ∧
      windows.length = ctx.params.rewardTargetChecksPerEpoch) ∧
    ∃ committee committee',
      verifierCommittee (str "a") (["a", "b", "c"].map str) 0 [] ctx.params = .ok committee ∧
      verifierCommittee (str "a") (["d", "a", "b", "c"].map str) 0 [] ctx.params =
        .ok committee' ∧
      committee.length = 1 ∧ ∀ id ∈ committee', id ∈ committee ∨ id = str "d" := by
  obtain ⟨⟨hreturns, hwindows⟩, hcommittees⟩ :=
    @assignment_correct _ ctx.params [] (str "a") (by decide)
  obtain ⟨windows, h⟩ := hreturns (hasUtf8_str "a")
  have hids : ∀ texts : List String, ∀ id ∈ texts.map str, HasUtf8 id := by
    intro texts id hid
    obtain ⟨text, -, rfl⟩ := List.mem_map.mp hid
    exact hasUtf8_str text
  obtain ⟨htotal, hcommittee⟩ := hcommittees 0 (["a", "b", "c"].map str) (by decide) (by decide)
  obtain ⟨htotal', -⟩ := hcommittees 0 (["d", "a", "b", "c"].map str) (by decide) (by decide)
  obtain ⟨committee, hfound⟩ := htotal (hasUtf8_str "a") (hids _)
  obtain ⟨committee', hfound'⟩ := htotal' (hasUtf8_str "a") (hids _)
  obtain ⟨hlength, -, -, -, hgrow⟩ := hcommittee committee hfound
  exact ⟨⟨windows, h, (hwindows windows h).1⟩, committee, committee', hfound, hfound', hlength,
    (hgrow (str "d") _ committee' (by decide) (.refl _) hfound').1⟩

/-- A lone surrogate cannot be hashed, and no windows are assigned. -/
theorem surrogate_unassigned :
    ctx.params.rewardTargetChecksPerEpoch ≤ ctx.params.rewardCheckWindowsPerEpoch ∧
      ¬ ∃ windows, candidateCheckWindows [0xD800] [] ctx.params = .ok windows := by
  refine ⟨by decide, toOption_eq_none_iff.mp ?_⟩
  decide

end SampleEpoch

end Chipcoin
