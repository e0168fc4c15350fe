import Chipcoin.Lib.Sorting

/-!
# The best of each group

A list is split into groups by a key, and the first element of each group by a comparison is kept.
Where the comparison tells the elements of the list apart, what is kept can be said without the
grouping: the elements that none of their group precedes (`mem_bestOfGroups`), one for each key
(`nodup_keys_bestOfGroups`). Sorting them gives a strictly ascending list (`sortBy_strict`).

Sorting and selecting commute with a map that respects the comparison (`map_sortBy`,
`map_bestOfGroups`), so data that the comparison does not look at may be replaced first.
-/

namespace Sorting

open List

variable {α β κ : Type*} {cmp : α → α → Ordering}

/-- The first element of each group, in the order of the keys. -/
def bestOfGroups [Ord κ] [DecidableEq κ] (cmp : α → α → Ordering) (key : α → κ) (xs : List α) :
    List α :=
  (sortBy compare (xs.map key).dedup).filterMap fun k =>
    (sortBy cmp (xs.filter fun a => key a = k)).head?

/-- The comparison tells the elements of a list apart. -/
def Separates (cmp : α → α → Ordering) (xs : List α) : Prop :=
  ∀ a ∈ xs, ∀ b ∈ xs, cmp a b = .eq → a = b

variable {a new : α} {k : ℕ} {xs ys : List α}

theorem Separates.of_subset (h : Separates cmp xs) (hsub : ys ⊆ xs) : Separates cmp ys :=
  fun a ha b hb => h a (hsub ha) b (hsub hb)

section

variable [Std.TransCmp cmp]

/-- Without repetitions, a separated list is sorted strictly. -/
theorem sortBy_strict (hsep : Separates cmp xs) (hnodup : xs.Nodup) :
    (sortBy cmp xs).Pairwise fun a b => cmp a b = .lt := by
  have hsorted : (sortBy cmp xs).Pairwise fun a b => (cmp a b).isLE = true := sortBy_pairwise xs
  have hdistinct : (sortBy cmp xs).Pairwise (· ≠ ·) := (sortBy_perm xs).nodup_iff.mpr hnodup
  refine (hsorted.and hdistinct).imp_of_mem ?_
  rintro a b ha hb ⟨hle, hne⟩
  cases hcmp : cmp a b with
  | lt => rfl
  | eq => exact absurd (hsep a (mem_sortBy.mp ha) b (mem_sortBy.mp hb) hcmp) hne
  | gt =>
    rw [hcmp] at hle
    cases hle

variable [Ord κ] [DecidableEq κ] {key : α → κ}

/-- **Who is kept.** The elements that nothing of their group precedes. -/
theorem mem_bestOfGroups (hsep : Separates cmp xs) :
    a ∈ bestOfGroups cmp key xs ↔
      a ∈ xs ∧ ∀ b ∈ xs, key b = key a → cmp b a ≠ .lt := by
  have hgroup : ∀ {k b}, b ∈ xs.filter (fun c => decide (key c = k)) ↔ b ∈ xs ∧ key b = k := by
    intro k b
    rw [mem_filter, decide_eq_true_iff]
  unfold bestOfGroups
  rw [mem_filterMap]
  constructor
  · rintro ⟨k, -, hhead⟩
    obtain ⟨hmem, hkey⟩ := hgroup.mp (mem_sortBy.mp (mem_of_mem_head? hhead))
    refine ⟨hmem, fun b hb hbkey hlt => ?_⟩
    have hle := isLE_of_head?_sortBy hhead (hgroup.mpr ⟨hb, hbkey.trans hkey⟩)
    rw [show cmp a b = (cmp b a).swap from Std.OrientedCmp.eq_swap, hlt] at hle
    cases hle
  · rintro ⟨hmem, hbest⟩
    refine ⟨key a, ?_, ?_⟩
    · rw [mem_sortBy, mem_dedup]
      exact mem_map_of_mem hmem
    have hin : a ∈ xs.filter fun c => decide (key c = key a) := hgroup.mpr ⟨hmem, rfl⟩
    cases hhead : (sortBy cmp (xs.filter fun c => decide (key c = key a))).head? with
    | none =>
      rw [head?_eq_none_iff] at hhead
      have hsorted : a ∈ sortBy cmp _ := mem_sortBy.mpr hin
      rw [hhead] at hsorted
      cases hsorted
    | some first =>
      -- The head is not after `a`, and `a` is not after the head.
      obtain ⟨hfirst, hkey⟩ := hgroup.mp (mem_sortBy.mp (mem_of_mem_head? hhead))
      have hle := isLE_of_head?_sortBy hhead hin
      cases hcmp : cmp first a with
      | lt => exact absurd hcmp (hbest first hfirst hkey)
      | eq => rw [hsep first hfirst a hmem hcmp]
      | gt =>
        rw [hcmp] at hle
        cases hle

end

section

variable [DecidableEq κ] {key : α → κ}

private theorem key_of_mem_head {k : κ}
    (h : (sortBy cmp (xs.filter fun c => decide (key c = k))).head? = some a) : key a = k := by
  have hmem := mem_sortBy.mp (mem_of_mem_head? h)
  rw [mem_filter, decide_eq_true_iff] at hmem
  exact hmem.2

/-- One element is kept for each key. -/
theorem nodup_keys_bestOfGroups [Ord κ] (xs : List α) :
    ((bestOfGroups cmp key xs).map key).Nodup := by
  have hkeys : (sortBy compare (xs.map key).dedup).Nodup :=
    (sortBy_perm _).nodup_iff.mpr (nodup_dedup _)
  unfold bestOfGroups
  rw [map_filterMap]
  refine List.Nodup.filterMap ?_ hkeys
  intro k k' b hb hb'
  rw [Option.mem_def, Option.map_eq_some_iff] at hb hb'
  obtain ⟨a, ha, rfl⟩ := hb
  obtain ⟨a', ha', hsame⟩ := hb'
  rw [← key_of_mem_head ha, ← key_of_mem_head ha', hsame]

end

/-- There is only one ascending list of given elements. -/
theorem eq_of_ascending [Std.OrientedCmp cmp] (hxs : xs.Pairwise fun a b => cmp a b = .lt)
    (hys : ys.Pairwise fun a b => cmp a b = .lt) (hmem : ∀ a, a ∈ xs ↔ a ∈ ys) : xs = ys := by
  have hasymm : ∀ {a b}, cmp a b = .lt → cmp b a ≠ .lt := by
    intro a b hab hba
    rw [show cmp a b = (cmp b a).swap from Std.OrientedCmp.eq_swap, hba] at hab
    cases hab
  have hne : ∀ {a b}, cmp a b = .lt → a ≠ b := by
    rintro a b hab rfl
    exact hasymm hab hab
  have hperm : xs.Perm ys := (perm_ext_iff_of_nodup (hxs.imp hne) (hys.imp hne)).mpr hmem
  exact hperm.eq_of_pairwise (fun a b _ _ hab hba => absurd hba (hasymm hab)) hxs hys

theorem filter_precedes [Std.OrientedCmp cmp] {before after : List α}
    (hsorted : (before ++ a :: after).Pairwise fun a b => cmp a b = .lt) :
    (before ++ a :: after).filter (cmp · a == .lt) = before := by
  rw [pairwise_append, pairwise_cons] at hsorted
  obtain ⟨-, ⟨hafter, -⟩, hbefore⟩ := hsorted
  have hself : cmp a a = .eq := Std.ReflCmp.compare_self
  have hnone : after.filter (cmp · a == .lt) = [] := by
    refine List.filter_eq_nil_iff.mpr fun b hb => ?_
    rw [show cmp b a = (cmp a b).swap from Std.OrientedCmp.eq_swap, hafter b hb]
    decide
  rw [filter_append, filter_cons_of_neg (by simp [hself]), hnone, append_nil]
  exact List.filter_eq_self.mpr fun b hb => by simp [hbefore b hb a mem_cons_self]

/-- **The first of a sorted list** are the elements that fewer than so many others precede. -/
theorem mem_take_sortBy [Std.TransCmp cmp] (hsep : Separates cmp xs) (hnodup : xs.Nodup) :
    a ∈ (sortBy cmp xs).take k ↔ a ∈ xs ∧ xs.countP (cmp · a == .lt) < k := by
  have hsorted := sortBy_strict hsep hnodup
  by_cases hmem : a ∈ sortBy cmp xs
  · have hdistinct : (sortBy cmp xs).Nodup := (sortBy_perm xs).nodup_iff.mpr hnodup
    have hcount : (sortBy cmp xs).countP (cmp · a == .lt) = xs.countP (cmp · a == .lt) :=
      (sortBy_perm xs).countP_eq _
    obtain ⟨before, after, hsplit⟩ := append_of_mem hmem
    rw [hsplit] at hsorted hdistinct hcount
    rw [← hcount, countP_eq_length_filter, filter_precedes hsorted, hsplit]
    refine Iff.trans ?_ (and_iff_right (mem_sortBy.mp hmem)).symm
    rw [take_append, mem_append]
    constructor
    · rintro (hbefore | hafter)
      · exact absurd rfl ((List.pairwise_append.mp hdistinct).2.2 a (mem_of_mem_take hbefore) a
          mem_cons_self)
      · by_contra hle
        rw [Nat.sub_eq_zero_of_le (not_lt.mp hle)] at hafter
        cases hafter
    · intro hlt
      obtain ⟨m, hm⟩ := Nat.exists_eq_succ_of_ne_zero (Nat.sub_ne_zero_of_lt hlt)
      rw [hm]
      exact .inr mem_cons_self
  · exact iff_of_false (fun h => hmem (mem_of_mem_take h)) fun h => hmem (mem_sortBy.mpr h.1)

/-- With one more element, nothing else gets among the first. -/
theorem mem_take_sortBy_cons [Std.TransCmp cmp] (hsep : Separates cmp (new :: xs))
    (hnodup : (new :: xs).Nodup) (h : a ∈ (sortBy cmp (new :: xs)).take k) :
    a ∈ (sortBy cmp xs).take k ∨ a = new := by
  obtain ⟨hmem, hfew⟩ := (mem_take_sortBy hsep hnodup).mp h
  rcases List.mem_cons.mp hmem with rfl | hold
  · exact .inr rfl
  rw [mem_take_sortBy (hsep.of_subset (subset_cons_self _ _)) (List.nodup_cons.mp hnodup).2]
  exact .inl ⟨hold, ((sublist_cons_self new xs).countP_le).trans_lt hfew⟩

/-- **With one more element, at most one of the first is displaced**: there are no fewer of them
than before, and one of them at most is new. -/
theorem displaced_unique [Std.TransCmp cmp] (hsep : Separates cmp (new :: xs))
    (hnodup : (new :: xs).Nodup) {b : α} (ha : a ∈ (sortBy cmp xs).take k)
    (ha' : a ∉ (sortBy cmp (new :: xs)).take k) (hb : b ∈ (sortBy cmp xs).take k)
    (hb' : b ∉ (sortBy cmp (new :: xs)).take k) : a = b := by
  classical
  have hcard : ∀ ys : List α, ys.Nodup →
      ((sortBy cmp ys).take k).toFinset.card = min k ys.length := by
    intro ys hys
    rw [toFinset_card_of_nodup, length_take, length_sortBy]
    exact ((sortBy_perm ys).nodup_iff.mpr hys).sublist (take_sublist _ _)
  have hold := hcard xs (List.nodup_cons.mp hnodup).2
  have hnew := hcard (new :: xs) hnodup
  rw [length_cons] at hnew
  -- All of the new first ones but the new element were among the old first ones.
  have hkept : ((sortBy cmp (new :: xs)).take k).toFinset.erase new ⊆
      ((sortBy cmp xs).take k).toFinset ∩ ((sortBy cmp (new :: xs)).take k).toFinset := by
    intro c hc
    obtain ⟨hne, hc⟩ := Finset.mem_erase.mp hc
    refine Finset.mem_inter.mpr ⟨?_, hc⟩
    have hin := mem_take_sortBy_cons hsep hnodup (List.mem_toFinset.mp hc)
    exact List.mem_toFinset.mpr (hin.resolve_right hne)
  have hle := (Finset.pred_card_le_card_erase).trans (Finset.card_le_card hkept)
  have hsplit := Finset.card_sdiff_add_card_inter ((sortBy cmp xs).take k).toFinset
    ((sortBy cmp (new :: xs)).take k).toFinset
  have hone : (((sortBy cmp xs).take k).toFinset \
      ((sortBy cmp (new :: xs)).take k).toFinset).card ≤ 1 := by omega
  exact Finset.card_le_one.mp hone a (by simp [ha, ha']) b (by simp [hb, hb'])

/-- The first of a separated list is the first of any part of the list that it belongs to. -/
theorem head?_sortBy_filter [Std.TransCmp cmp] (hsep : Separates cmp xs) {first : α}
    (h : (sortBy cmp xs).head? = some first) {p : α → Bool} (hp : p first) :
    (sortBy cmp (xs.filter p)).head? = some first := by
  have hmem := mem_sortBy.mp (mem_of_mem_head? h)
  have hin : first ∈ xs.filter p := List.mem_filter.mpr ⟨hmem, hp⟩
  cases hhead : (sortBy cmp (xs.filter p)).head? with
  | none =>
    rw [head?_eq_none_iff] at hhead
    rw [← @mem_sortBy _ cmp, hhead] at hin
    cases hin
  | some other =>
    have hother := mem_of_mem_filter (mem_sortBy.mp (mem_of_mem_head? hhead))
    rw [hsep other hother first hmem (Std.OrientedCmp.isLE_antisymm
      (isLE_of_head?_sortBy hhead hin) (isLE_of_head?_sortBy h hother))]

/-- A separated list without repetitions is sorted the same in whatever order it is given. -/
theorem sortBy_eq_of_perm [Std.TransCmp cmp] (hsep : Separates cmp xs) (hnodup : xs.Nodup)
    (hperm : ys.Perm xs) : sortBy cmp ys = sortBy cmp xs := by
  have hsep' : Separates cmp ys := hsep.of_subset hperm.subset
  refine eq_of_ascending (sortBy_strict hsep' (hperm.nodup_iff.mpr hnodup))
    (sortBy_strict hsep hnodup) fun a => ?_
  rw [mem_sortBy, mem_sortBy, hperm.mem_iff]

/-- Two orders sort a list alike exactly when the second one keeps the order of the first. -/
theorem sortBy_eq_sortBy_iff {cmp' : α → α → Ordering} [Std.TransCmp cmp] [Std.TransCmp cmp']
    (hnodup : xs.Nodup) (hsep : Separates cmp xs) (hsep' : Separates cmp' xs) :
    sortBy cmp' xs = sortBy cmp xs ↔ ∀ a ∈ xs, ∀ b ∈ xs, cmp a b = .lt → cmp' a b = .lt := by
  have hsorted := sortBy_strict hsep hnodup
  have hsorted' := sortBy_strict hsep' hnodup
  constructor
  · intro hsame a ha b hb hlt
    rw [hsame] at hsorted'
    -- Of two elements of the common list, one stands first, and both orders say so.
    have hpair : (sortBy cmp xs).Pairwise fun a b =>
        cmp a b = .lt ∧ cmp' a b = .lt ∨ cmp b a = .lt ∧ cmp' b a = .lt :=
      (hsorted.and hsorted').imp .inl
    have hself : cmp a a = .eq := Std.ReflCmp.compare_self
    have hne : a ≠ b := by
      rintro rfl
      rw [hself] at hlt
      cases hlt
    have hsymm : Std.Symm fun a b =>
        cmp a b = .lt ∧ cmp' a b = .lt ∨ cmp b a = .lt ∧ cmp' b a = .lt := ⟨fun _ _ h => h.symm⟩
    rcases hpair.forall (mem_sortBy.mpr ha) (mem_sortBy.mpr hb) hne with h | h
    · exact h.2
    · rw [show cmp a b = (cmp b a).swap from Std.OrientedCmp.eq_swap, h.1] at hlt
      cases hlt
  · intro hkeeps
    refine eq_of_ascending hsorted' ?_ fun a => mem_sortBy.trans mem_sortBy.symm
    exact hsorted.imp_of_mem fun {a b} ha hb hlt =>
      hkeeps a (mem_sortBy.mp ha) b (mem_sortBy.mp hb) hlt

section

variable {cmp' : β → β → Ordering} {f : α → β}

theorem map_sortBy_of_mem (hcmp : ∀ a ∈ xs, ∀ b ∈ xs, cmp' (f a) (f b) = cmp a b) :
    (sortBy cmp xs).map f = sortBy cmp' (xs.map f) :=
  map_insertionSort _ _ _ _ fun a ha b hb => by rw [hcmp a ha b hb]

theorem map_sortBy (hcmp : ∀ a b, cmp' (f a) (f b) = cmp a b) (xs : List α) :
    (sortBy cmp xs).map f = sortBy cmp' (xs.map f) :=
  map_sortBy_of_mem fun a _ b _ => hcmp a b

theorem map_bestOfGroups [Ord κ] [DecidableEq κ] {key : α → κ} {key' : β → κ}
    (hcmp : ∀ a b, cmp' (f a) (f b) = cmp a b) (hkey : ∀ a, key' (f a) = key a) (xs : List α) :
    (bestOfGroups cmp key xs).map f = bestOfGroups cmp' key' (xs.map f) := by
  have hkeys : (xs.map f).map key' = xs.map key := by
    rw [map_map]
    exact map_congr_left fun a _ => hkey a
  unfold bestOfGroups
  rw [map_filterMap, hkeys]
  congr 1
  funext k
  rw [← head?_map, map_sortBy hcmp, filter_map]
  congr 3
  exact filter_congr fun a _ => by rw [Function.comp_apply, hkey]

end

end Sorting
