import Chipcoin.Lib.Quota
import Chipcoin.Node.Pool

/-!
# The mempool policy as quotas

What the mempool checks of a new transaction against the pending ones, other than double spends, is
a family of quotas: on special node transactions together, on the registrations and the renewals of
reward nodes among them, and on attestation bundles.

* `enforceSpecialNodeMempoolPolicy_eq_ok`, `bundlePolicy_eq_ok`: a policy check passes exactly when
  its quotas have room for the transaction.
* `mempoolQuotas`, `policies_eq_ok`: all quotas together.
-/

namespace Chipcoin

open Checked Database List

variable {entries : List MempoolEntry} {policy : MempoolPolicy} {tx : Transaction}

/-! ### Special node transactions -/

/-- The quota of all special node transactions. -/
def specialQuota (policy : MempoolPolicy) : Quota Transaction where
  member := isSpecialNodeTransaction
  limit := policy.maxSpecialNodeTransactions
  Clash _ _ := False
  symm _ _ h := h

/-- The quota of registrations: no two for the same node or with the same key. -/
def registerQuota (policy : MempoolPolicy) : Quota Transaction where
  member := isRegisterRewardNodeTransaction
  limit := policy.maxRegisterRewardNodeTransactions
  Clash a b := b.get? "node_id" = a.get? "node_id" ∨
    b.get? "owner_pubkey_hex" = a.get? "owner_pubkey_hex" ∨
    b.get? "node_pubkey_hex" = a.get? "node_pubkey_hex"
  symm _ _ h := h.imp Eq.symm (Or.imp Eq.symm Eq.symm)

/-- The quota of renewals: no two for the same node and epoch. -/
def renewQuota (policy : MempoolPolicy) : Quota Transaction where
  member := isRenewRewardNodeTransaction
  limit := policy.maxRenewRewardNodeTransactions
  Clash a b := b.get? "node_id" = a.get? "node_id" ∧ b.get? "renewal_epoch" = a.get? "renewal_epoch"
  symm _ _ h := h.imp Eq.symm Eq.symm

/-- A quota over pending entries, which are filtered by kind before they are counted. -/
theorem admits_entries {quota : Quota Transaction} :
    quota.Admits tx (entries.map (·.transaction)) ↔
      (quota.member tx →
        (entries.filter fun entry => quota.member entry.transaction).length < quota.limit ∧
        ∀ entry ∈ entries.filter fun entry => quota.member entry.transaction,
          ¬ quota.Clash tx entry.transaction) := by
  rw [Quota.Admits, countP_map, countP_eq_length_filter]
  refine imp_congr_right fun _ => and_congr Iff.rfl ?_
  simp only [forall_mem_map, mem_filter, and_imp]

/-- A kind of special node transactions among the special ones. -/
theorem filter_special {kind : Transaction → Bool}
    (hspecial : ∀ tx, kind tx → isSpecialNodeTransaction tx) :
    ((entries.filter fun entry => isSpecialNodeTransaction entry.transaction).filter
      fun entry => kind entry.transaction) = entries.filter fun entry => kind
        entry.transaction := by
  rw [filter_filter]
  refine filter_congr fun entry _ => ?_
  by_cases hkind : kind entry.transaction
  · rw [hkind, hspecial _ hkind]
    rfl
  · rw [Bool.not_eq_true] at hkind
    rw [hkind, Bool.false_and]

private theorem special_of_register (h : isRegisterRewardNodeTransaction tx) :
    isSpecialNodeTransaction tx := by
  rw [isSpecialNodeTransaction, h, Bool.or_true, Bool.true_or]

private theorem special_of_renew (h : isRenewRewardNodeTransaction tx) :
    isSpecialNodeTransaction tx := by
  rw [isSpecialNodeTransaction, h, Bool.or_true]

private theorem not_renew_of_register (h : isRegisterRewardNodeTransaction tx) :
    ¬ isRenewRewardNodeTransaction tx := by
  intro hrenew
  have hregister := of_decide_eq_true h
  have hrenew := of_decide_eq_true hrenew
  rw [hregister] at hrenew
  exact absurd (Option.some.inj hrenew) (by decide)

private theorem ensureNoDuplicateRegister_eq_ok (policy : MempoolPolicy) :
    ensureNoDuplicateRegisterRewardNodeAction tx entries = .ok () ↔
      ∀ entry ∈ entries, ¬ (registerQuota policy).Clash tx entry.transaction := by
  rw [ensureNoDuplicateRegisterRewardNodeAction, forM_eq_ok]
  refine forall₂_congr fun entry _ => ?_
  simp only [bind_eq_ok, raiseIf_eq_ok, Unique.exists_iff, registerQuota, not_or]

private theorem ensureNoDuplicateRenew_eq_ok (policy : MempoolPolicy) :
    ensureNoDuplicateRenewRewardNodeAction tx entries = .ok () ↔
      ∀ entry ∈ entries, ¬ (renewQuota policy).Clash tx entry.transaction := by
  rw [ensureNoDuplicateRenewRewardNodeAction, raiseIf_eq_ok, Bool.not_eq_true, any_eq_false]
  refine forall₂_congr fun entry _ => ?_
  rw [decide_eq_true_eq]
  rfl

/-- **The policy on special node transactions** is three quotas. -/
theorem enforceSpecialNodeMempoolPolicy_eq_ok :
    enforceSpecialNodeMempoolPolicy policy tx entries = .ok () ↔
      (specialQuota policy).Admits tx (entries.map (·.transaction)) ∧
      (registerQuota policy).Admits tx (entries.map (·.transaction)) ∧
      (renewQuota policy).Admits tx (entries.map (·.transaction)) := by
  rw [admits_entries, admits_entries, admits_entries, enforceSpecialNodeMempoolPolicy]
  -- The kinds exclude each other, so a quota of another kind admits everything.
  by_cases hspecial : isSpecialNodeTransaction tx
  · rw [if_pos hspecial]
    dsimp only
    rw [filter_special fun _ => special_of_register, filter_special fun _ => special_of_renew]
    by_cases hregister : isRegisterRewardNodeTransaction tx
    · have hrenew := not_renew_of_register hregister
      rw [if_pos hregister]
      simp only [bind_eq_ok, raiseIf_eq_ok, not_le, ge_iff_le, Unique.exists_iff,
        ensureNoDuplicateRegister_eq_ok policy]
      exact ⟨fun ⟨hall, hkind, hapart⟩ => ⟨fun _ => ⟨hall, fun _ _ h => h⟩,
        fun _ => ⟨hkind, hapart⟩, fun h => absurd h hrenew⟩,
        fun ⟨hall, hkind, _⟩ => ⟨(hall hspecial).1, hkind hregister⟩⟩
    · rw [if_neg hregister]
      by_cases hrenew : isRenewRewardNodeTransaction tx
      · rw [if_pos hrenew]
        simp only [bind_eq_ok, raiseIf_eq_ok, not_le, ge_iff_le, Unique.exists_iff,
          ensureNoDuplicateRenew_eq_ok policy]
        exact ⟨fun ⟨hall, hkind, hapart⟩ => ⟨fun _ => ⟨hall, fun _ _ h => h⟩,
          fun h => absurd h hregister, fun _ => ⟨hkind, hapart⟩⟩,
          fun ⟨hall, _, hkind⟩ => ⟨(hall hspecial).1, hkind hrenew⟩⟩
      · rw [if_neg hrenew]
        simp only [bind_eq_ok, raiseIf_eq_ok, not_le, ge_iff_le, Unique.exists_iff]
        exact ⟨fun ⟨hall, _⟩ => ⟨fun _ => ⟨hall, fun _ _ h => h⟩, fun h => absurd h hregister,
          fun h => absurd h hrenew⟩, fun ⟨hall, _⟩ => ⟨(hall hspecial).1, rfl⟩⟩
  · have hregister : ¬ isRegisterRewardNodeTransaction tx :=
      fun h => hspecial (special_of_register h)
    have hrenew : ¬ isRenewRewardNodeTransaction tx :=
      fun h => hspecial (special_of_renew h)
    rw [if_neg hspecial]
    exact ⟨fun _ => ⟨fun h => absurd h hspecial, fun h => absurd h hregister,
      fun h => absurd h hrenew⟩, fun _ => rfl⟩

/-! ### Attestation bundles -/

section

variable [Platform]

/-- The quota of bundles: no two with the same epoch, window and submitter, and no two with a common
attestation. -/
def bundleQuota (policy : MempoolPolicy) : Quota Transaction where
  member := isRewardAttestationBundleTransaction
  limit := policy.maxRewardAttestationBundleTransactions
  Clash a b := ∃ bundle other, parseRewardAttestationBundleMetadata a = .ok bundle ∧
    parseRewardAttestationBundleMetadata b = .ok other ∧
    (bundleKey bundle = bundleKey other ∨ ¬ Disjoint (recordedIdentities a) (recordedIdentities b))
  symm _ _ := fun ⟨bundle, other, hbundle, hother, hclash⟩ =>
    ⟨other, bundle, hother, hbundle, hclash.imp Eq.symm fun h h' => h h'.symm⟩

/-- The loop of the bundle policy over bundles that parse and have other keys. -/
theorem bundlePolicy_fold_returns {bundle : RewardAttestationBundle}
    (hentries : ∀ entry ∈ entries, ∃ existing,
      parseRewardAttestationBundleMetadata entry.transaction = .ok existing ∧
        bundleKey existing ≠ bundleKey bundle)
    (seen : Finset AttestationIdentity) :
    entries.foldlM (bundleRound bundle) seen =
      .ok (seen ∪ (entries.map (·.transaction)).toFinset.biUnion recordedIdentities) := by
  induction entries generalizing seen with
  | nil => rw [map_nil, toFinset_nil, Finset.biUnion_empty, Finset.union_empty]; rfl
  | cons entry rest ih =>
    obtain ⟨existing, hparse, hkey⟩ := hentries entry mem_cons_self
    refine foldlM_cons_eq_ok.mpr ⟨seen ∪ recordedIdentities entry.transaction, ?_, ?_⟩
    · refine bind_eq_ok.mpr ⟨some existing, pendingBundle_eq_some.mpr hparse, ?_⟩
      refine bind_eq_ok.mpr ⟨(), raiseIf_eq_ok.mpr fun hsame => hkey ?_, ?_⟩
      · rw [bundleKey, bundleKey, hsame.1, hsame.2.1, hsame.2.2]
      · rw [recordedIdentities_eq hparse]
        rfl
    · rw [ih (forall_mem_of_forall_mem_cons hentries), map_cons,
        toFinset_cons, Finset.biUnion_insert, Finset.union_assoc]

variable (hparses : ∀ entry ∈ entries, isRewardAttestationBundleTransaction entry.transaction →
    ∃ existing, parseRewardAttestationBundleMetadata entry.transaction = .ok existing)
include hparses

/-- **The policy on bundles** is a quota, over pending bundles that parse. -/
theorem bundlePolicy_eq_ok :
    enforceRewardAttestationBundleMempoolPolicy policy tx entries = .ok () ↔
      (isRewardAttestationBundleTransaction tx →
        ∃ bundle, parseRewardAttestationBundleMetadata tx = .ok bundle) ∧
      (bundleQuota policy).Admits tx (entries.map (·.transaction)) := by
  constructor
  · intro h
    refine ⟨fun hkind => ?_, admits_entries.mpr fun hkind => ?_⟩
    · obtain ⟨bundle, hparse, -⟩ := bundlePolicy_ok h hkind
      exact ⟨bundle, hparse⟩
    · obtain ⟨bundle, hparse, hcount, hothers⟩ := bundlePolicy_ok h hkind
      rw [countP_eq_length_filter] at hcount
      refine ⟨hcount, ?_⟩
      rintro entry hentry ⟨first, second, hfirst, hsecond, hclash⟩
      obtain ⟨hmem, hbundle⟩ := List.mem_filter.mp hentry
      obtain ⟨hkey, hdisjoint⟩ := hothers entry hmem hbundle second hsecond
      obtain rfl := ok_unique hparse hfirst
      rcases hclash with hsame | hshared
      · exact hkey hsame.symm
      · exact hshared hdisjoint
  · rintro ⟨hparse, hadmits⟩
    rw [enforceRewardAttestationBundleMempoolPolicy]
    by_cases hkind : isRewardAttestationBundleTransaction tx
    · obtain ⟨bundle, hparse⟩ := hparse hkind
      obtain ⟨hcount, hapart⟩ := admits_entries.mp hadmits hkind
      have hentries : ∀ entry ∈ entries.filter fun entry =>
          isRewardAttestationBundleTransaction entry.transaction, ∃ existing,
          parseRewardAttestationBundleMetadata entry.transaction = .ok existing ∧
            bundleKey existing ≠ bundleKey bundle := by
        intro entry hentry
        obtain ⟨hmem, hbundle⟩ := List.mem_filter.mp hentry
        obtain ⟨existing, hexisting⟩ := hparses entry hmem hbundle
        exact ⟨existing, hexisting, fun hsame =>
          hapart entry hentry ⟨bundle, existing, hparse, hexisting, .inl hsame.symm⟩⟩
      rw [if_pos hkind]
      refine bind_eq_ok.mpr ⟨bundle, rethrow_eq_ok.mpr hparse, ?_⟩
      refine bind_eq_ok.mpr ⟨(), raiseIf_eq_ok.mpr (not_le.mpr hcount), ?_⟩
      refine bind_eq_ok.mpr ⟨_, bundlePolicy_fold_returns hentries ∅, raiseIf_eq_ok.mpr ?_⟩
      -- An identity of the new bundle that has been seen is one of a pending bundle.
      intro hany
      obtain ⟨attestation, hmem, hseen⟩ := List.any_eq_true.mp hany
      have hseen := of_decide_eq_true hseen
      rw [Finset.empty_union, Finset.mem_biUnion] at hseen
      obtain ⟨pending, hpending, hshared⟩ := hseen
      obtain ⟨entry, hentry, rfl⟩ := List.mem_map.mp (List.mem_toFinset.mp hpending)
      obtain ⟨existing, hexisting, -⟩ := hentries entry hentry
      refine hapart entry hentry ⟨bundle, existing, hparse, hexisting, .inr fun hdisjoint => ?_⟩
      refine Finset.disjoint_left.mp hdisjoint ?_ hshared
      rw [recordedIdentities_eq hparse, mem_toFinset]
      exact mem_map_of_mem hmem
    · rw [if_neg hkind]
      rfl

/-! ### All quotas -/

/-- The quotas of the mempool. -/
def mempoolQuotas (policy : MempoolPolicy) : List (Quota Transaction) :=
  [specialQuota policy, registerQuota policy, renewQuota policy, bundleQuota policy]

/-- **The policy against the pending transactions**, other than double spends. -/
theorem policies_eq_ok :
    (enforceSpecialNodeMempoolPolicy policy tx entries = .ok () ∧
      enforceRewardAttestationBundleMempoolPolicy policy tx entries = .ok ()) ↔
      (isRewardAttestationBundleTransaction tx →
        ∃ bundle, parseRewardAttestationBundleMetadata tx = .ok bundle) ∧
      ∀ quota ∈ mempoolQuotas policy, quota.Admits tx (entries.map (·.transaction)) := by
  rw [enforceSpecialNodeMempoolPolicy_eq_ok, bundlePolicy_eq_ok hparses, mempoolQuotas]
  simp only [forall_mem_cons, not_mem_nil, false_imp_iff, implies_true, and_true]
  tauto

end

end Chipcoin
