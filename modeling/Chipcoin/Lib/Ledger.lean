import Mathlib

/-!
# Ledgers

A ledger gives an amount to each of finitely many keys: a finitely supported function with integer
values, whose total is its `Finsupp.degree`. The three ways in which a ledger changes are bounded
here.

* Spending a set of keys removes exactly the amounts they hold (`degree_spend_add`).
* Issuing amounts to keys adds exactly those amounts (`degree_issue`).
* A ledger that is nowhere above another has no larger total (`degree_le_degree`).

`ofMap` is the ledger of a finite map, and `degree_ofMap` its total as a sum over the bindings.
-/

namespace Ledger

open Finsupp List

variable {K : Type*}

/-- A ledger nowhere above another has no larger total. -/
theorem degree_le_degree {ledger ledger' : K →₀ ℤ} (h : ledger ≤ ledger') :
    degree ledger ≤ degree ledger' := by
  have hdiff : 0 ≤ degree (ledger' - ledger) := by
    rw [degree_apply]
    refine Finset.sum_nonneg fun key _ => ?_
    rw [Finsupp.sub_apply]
    exact sub_nonneg.mpr (h key)
  have hsplit : degree ledger' = degree (ledger' - ledger) + degree ledger := by
    rw [← map_add, sub_add_cancel]
  rw [hsplit]
  exact le_add_of_nonneg_left hdiff

/-! ### Spending -/

section Spend

variable [DecidableEq K]

/-- The ledger without the amounts at some keys. -/
noncomputable def spend (ledger : K →₀ ℤ) (keys : Finset K) : K →₀ ℤ :=
  ledger.filter (· ∉ keys)

theorem spend_apply (ledger : K →₀ ℤ) (keys : Finset K) (key : K) :
    spend ledger keys key = if key ∈ keys then 0 else ledger key := by
  rw [spend, filter_apply]
  by_cases h : key ∈ keys
  · rw [if_neg (not_not.mpr h), if_pos h]
  · rw [if_pos h, if_neg h]

/-- **Spending.** What is spent and what is left add up to what there was. -/
theorem degree_spend_add (ledger : K →₀ ℤ) (keys : Finset K) :
    degree (spend ledger keys) + ∑ key ∈ keys, ledger key = degree ledger := by
  have hspent : degree (ledger.filter (· ∈ keys)) = ∑ key ∈ keys, ledger key := by
    rw [degree_apply, support_filter]
    -- Keys without an amount add nothing.
    calc ∑ key ∈ ledger.support with key ∈ keys, ledger.filter (· ∈ keys) key
        = ∑ key ∈ ledger.support with key ∈ keys, ledger key := by
          refine Finset.sum_congr rfl fun key hkey => ?_
          rw [filter_apply, if_pos (Finset.mem_filter.mp hkey).2]
      _ = ∑ key ∈ keys, ledger key := by
          refine Finset.sum_subset (fun key hkey => (Finset.mem_filter.mp hkey).2) ?_
          intro key hkey hnot
          by_contra hne
          exact hnot (Finset.mem_filter.mpr ⟨mem_support_iff.mpr hne, hkey⟩)
  have hsplit : ledger.filter (· ∈ keys) + spend ledger keys = ledger := by
    ext key
    rw [Finsupp.add_apply, filter_apply, spend_apply]
    by_cases h : key ∈ keys
    · rw [if_pos h, if_pos h, add_zero]
    · rw [if_neg h, if_neg h, zero_add]
  rw [← hspent, add_comm, ← map_add, hsplit]

end Spend

/-! ### Issuing -/

/-- The ledger that holds the listed amounts. -/
noncomputable def issue (amounts : List (K × ℤ)) : K →₀ ℤ :=
  (amounts.map fun amount => single amount.1 amount.2).sum

theorem issue_append (amounts later : List (K × ℤ)) :
    issue (amounts ++ later) = issue amounts + issue later := by
  rw [issue, map_append, sum_append, issue, issue]

theorem issue_singleton (key : K) (value : ℤ) : issue [(key, value)] = single key value := by
  rw [issue, map_singleton, sum_singleton]

/-- **Issuing.** -/
theorem degree_issue (amounts : List (K × ℤ)) :
    degree (issue amounts) = (amounts.map Prod.snd).sum := by
  rw [issue, map_list_sum, map_map]
  congr 1
  refine map_congr_left fun amount _ => ?_
  rw [Function.comp_apply, degree_single]

theorem issue_nonneg {amounts : List (K × ℤ)} (h : ∀ amount ∈ amounts, 0 ≤ amount.2) :
    0 ≤ issue amounts := by
  refine sum_nonneg fun ledger hmem => ?_
  obtain ⟨amount, hamount, rfl⟩ := List.mem_map.mp hmem
  exact single_nonneg.mpr (h amount hamount)

/-- Each listed amount is covered at its key. -/
theorem le_issue {amounts : List (K × ℤ)} (h : ∀ amount ∈ amounts, 0 ≤ amount.2) {key : K}
    {value : ℤ} (hmem : (key, value) ∈ amounts) : value ≤ issue amounts key := by
  induction amounts with
  | nil => simp at hmem
  | cons first rest ih =>
    have hrest := issue_nonneg fun amount hamount => h amount (mem_cons_of_mem first hamount)
    have hcons : issue (first :: rest) key = single first.1 first.2 key + issue rest key := by
      rw [issue, List.map_cons, List.sum_cons, Finsupp.add_apply, issue]
    rw [hcons]
    rcases List.mem_cons.mp hmem with rfl | hmem
    · rw [single_eq_same]
      exact le_add_of_nonneg_right (hrest key)
    · have hfirst : 0 ≤ single first.1 first.2 key :=
        (single_nonneg.mpr (h first mem_cons_self)) key
      exact (ih (fun amount hamount => h amount (mem_cons_of_mem first hamount)) hmem).trans
        (le_add_of_nonneg_left hfirst)

/-! ### Finite maps -/

section Map

variable {V : Type*} [Ord K] [Std.TransOrd K] [Std.LawfulEqOrd K] [DecidableEq K]

/-- The ledger of a finite map, given the amount that each value stands for. -/
noncomputable def ofMap (amount : V → ℤ) (entries : Std.ExtTreeMap K V) : K →₀ ℤ :=
  onFinset entries.keys.toFinset (fun key => entries[key]?.elim 0 amount) fun key hne => by
    rw [List.mem_toFinset, Std.ExtTreeMap.mem_keys]
    by_contra hnot
    rw [Std.ExtTreeMap.getElem?_eq_none hnot] at hne
    exact hne rfl

private theorem ofMap_apply (amount : V → ℤ) (entries : Std.ExtTreeMap K V) (key : K) :
    ofMap amount entries key = entries[key]?.elim 0 amount := rfl

/-- **Total of a map.** The total is the sum of the amounts of the bindings. -/
theorem degree_ofMap (amount : V → ℤ) (entries : Std.ExtTreeMap K V) :
    degree (ofMap amount entries) = (entries.toList.map fun entry => amount entry.2).sum := by
  have hkeys : degree (ofMap amount entries) =
      ∑ key ∈ entries.keys.toFinset, ofMap amount entries key := by
    rw [degree_apply]
    refine Finset.sum_subset (support_onFinset_subset) fun key _ hnot => ?_
    exact notMem_support_iff.mp hnot
  have hbinding : ∀ entry ∈ entries.toList,
      ofMap amount entries entry.1 = amount entry.2 := by
    intro entry hmem
    rw [ofMap_apply, Std.ExtTreeMap.mem_toList_iff_getElem?_eq_some.mp hmem, Option.elim_some]
  rw [hkeys, sum_toFinset _ Std.ExtTreeMap.nodup_keys,
    ← Std.ExtTreeMap.map_fst_toList_eq_keys, map_map]
  congr 1
  exact map_congr_left hbinding

end Map

end Ledger
