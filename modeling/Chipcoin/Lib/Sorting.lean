import Mathlib

/-!
# Sorting by a comparison

`sortBy cmp` is a stable sort by an `Ordering`-valued comparison, structurally recursive so that
closed instances evaluate. Comparisons by a tuple of keys are built with `compareLex` and
`compareOn`. The facts used about it: it permutes its input, and its output is ordered.
-/

namespace Sorting

variable {α : Type*} {cmp : α → α → Ordering}

/-- Stable insertion sort by a comparison. -/
def sortBy (cmp : α → α → Ordering) (xs : List α) : List α :=
  xs.insertionSort fun a b => (cmp a b).isLE = true

theorem sortBy_perm (xs : List α) : (sortBy cmp xs).Perm xs :=
  List.perm_insertionSort _ xs

@[simp] theorem mem_sortBy {xs : List α} {a : α} : a ∈ sortBy cmp xs ↔ a ∈ xs :=
  (sortBy_perm xs).mem_iff

@[simp] theorem length_sortBy (xs : List α) : (sortBy cmp xs).length = xs.length :=
  (sortBy_perm xs).length_eq

section

variable [Std.TransCmp cmp]

theorem sortBy_pairwise (xs : List α) :
    (sortBy cmp xs).Pairwise fun a b => (cmp a b).isLE = true := by
  have total : Std.Total fun a b => (cmp a b).isLE = true := by
    refine ⟨fun a b => ?_⟩
    rw [show cmp b a = (cmp a b).swap from Std.OrientedCmp.eq_swap]
    cases cmp a b <;> simp
  have trans : IsTrans α fun a b => (cmp a b).isLE = true :=
    ⟨fun a b c => Std.TransCmp.isLE_trans⟩
  exact List.pairwise_insertionSort _ xs

/-- The first element comes before all others. -/
theorem isLE_of_head?_sortBy {xs : List α} {first other : α}
    (h : (sortBy cmp xs).head? = some first) (hmem : other ∈ xs) :
    (cmp first other).isLE = true := by
  have hsorted : (sortBy cmp xs).Pairwise fun a b => (cmp a b).isLE = true := sortBy_pairwise xs
  have hin : other ∈ sortBy cmp xs := mem_sortBy.mpr hmem
  obtain ⟨rest, hlist⟩ := List.head?_eq_some_iff.mp h
  rw [hlist] at hsorted hin
  rcases List.mem_cons.mp hin with rfl | hrest
  · have hself : cmp other other = .eq := Std.ReflCmp.compare_self
    rw [hself]
    rfl
  · exact List.rel_of_pairwise_cons hsorted hrest

end

end Sorting
