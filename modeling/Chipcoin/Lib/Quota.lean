import Mathlib

/-!
# Quotas

A quota bounds how many items of a kind a pool may hold, and says which of them clash. An item is
admitted to a list of others when it leaves the quota intact. The rule looks at one item and those
that are there already, so the order in which items come in might matter; it does not: a list in
which a quota holds admits each of its items to any part of the rest (`Holds.admits`).

* `Admits`, `Holds`: the check on one item and what it keeps.
* `Holds.cons`: admitted items keep the quota.
* `Holds.perm`, `Holds.sublist`, `Holds.admits`: the quota does not depend on the order.
-/

/-- A bound on the items of a kind, and the pairs of them that clash. -/
structure Quota (ι : Type) where
  member : ι → Bool
  limit : ℕ
  Clash : ι → ι → Prop
  symm : ∀ a b, Clash a b → Clash b a

namespace Quota

variable {ι : Type} {quota : Quota ι} {item : ι} {pool pool' before after : List ι}

/-- The item may join the others. -/
def Admits (quota : Quota ι) (item : ι) (others : List ι) : Prop :=
  quota.member item → others.countP quota.member < quota.limit ∧
    ∀ other ∈ others, quota.member other → ¬ quota.Clash item other

/-- The pool respects the quota. -/
structure Holds (quota : Quota ι) (pool : List ι) : Prop where
  count : pool.countP quota.member ≤ quota.limit
  apart : pool.Pairwise fun a b => quota.member a → quota.member b → ¬ quota.Clash a b

theorem Holds.nil (quota : Quota ι) : quota.Holds [] where
  count := Nat.zero_le _
  apart := .nil

theorem Holds.cons (h : quota.Holds pool) (hadmits : quota.Admits item pool) :
    quota.Holds (item :: pool) := by
  refine ⟨?_, List.pairwise_cons.mpr ⟨?_, h.apart⟩⟩
  · by_cases hmember : quota.member item
    · rw [List.countP_cons_of_pos hmember]
      exact (hadmits hmember).1
    · rw [List.countP_cons_of_neg hmember]
      exact h.count
  · intro other hother hmember
    exact (hadmits hmember).2 other hother

theorem Holds.perm (h : quota.Holds pool) (hperm : pool.Perm pool') : quota.Holds pool' where
  count := hperm.countP_eq quota.member ▸ h.count
  apart := by
    refine h.apart.perm hperm ?_
    intro a b hab hb ha hclash
    exact hab ha hb (quota.symm b a hclash)

theorem Holds.sublist (h : quota.Holds pool) (hsub : pool'.Sublist pool) : quota.Holds pool' where
  count := hsub.countP_le.trans h.count
  apart := h.apart.sublist hsub

/-- **Each item is admitted to those before it.** -/
theorem Holds.admits (h : quota.Holds (before ++ item :: after)) : quota.Admits item before := by
  intro hmember
  have hcount := h.count
  rw [List.countP_append, List.countP_cons_of_pos hmember] at hcount
  refine ⟨by omega, fun other hother hkind hclash => ?_⟩
  have hapart := (List.pairwise_append.mp h.apart).2.2 other hother item List.mem_cons_self
  exact hapart hkind hmember (quota.symm item other hclash)

end Quota
