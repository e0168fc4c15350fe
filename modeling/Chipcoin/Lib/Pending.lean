import Mathlib

/-!
# Pools of items that need and give resources

A pool holds items under keys. An item needs resources, and gives some to the others. A pool is
sound over a base of resources when no two items need the same one (`Exclusive`) and when whatever
an item needs is in the base or is given by another item (`Supported`).

* `Exclusive.sub`, `Exclusive.insert`: removal is harmless, and so is an item without rivals.
* `Supported.sub`: a removal is harmless when the base has what it gave to those that stay.
* `Supported.insert`: an item that finds its needs in the pool can join it.
-/

namespace Pending

variable {κ ι ρ : Type} {needs : ι → ρ → Prop} {gives : κ → ι → ρ → Prop} {base : ρ → Prop}
  {pool pool' : κ → Option ι}

/-- Every item of the first pool is in the second one, under the same key. -/
def Sub (pool' pool : κ → Option ι) : Prop := ∀ key item, pool' key = some item →
  pool key = some item

/-- No two items need the same resource. -/
def Exclusive (needs : ι → ρ → Prop) (pool : κ → Option ι) : Prop :=
  ∀ key other item rival resource, pool key = some item → pool other = some rival →
    needs item resource → needs rival resource → key = other

/-- Whatever an item needs is in the base or is given by another item. -/
def Supported (needs : ι → ρ → Prop) (gives : κ → ι → ρ → Prop) (base : ρ → Prop)
    (pool : κ → Option ι) : Prop :=
  ∀ key item, pool key = some item → ∀ resource, needs item resource →
    base resource ∨ ∃ other giver, other ≠ key ∧ pool other = some giver ∧
      gives other giver resource

theorem Exclusive.empty : Exclusive needs fun _ : κ => none := by
  intro key other item rival resource hitem
  cases hitem

theorem Supported.empty : Supported needs gives base fun _ => none := by
  intro key item hitem
  cases hitem

theorem Exclusive.sub (h : Exclusive needs pool) (hsub : Sub pool' pool) :
    Exclusive needs pool' := by
  intro key other item rival resource hitem hrival
  exact h key other item rival resource (hsub key item hitem) (hsub other rival hrival)

theorem Supported.sub (h : Supported needs gives base pool) (hsub : Sub pool' pool)
    (hgone : ∀ key giver, pool key = some giver → pool' key = none →
      ∀ other item, other ≠ key → pool' other = some item →
        ∀ resource, needs item resource → gives key giver resource → base resource) :
    Supported needs gives base pool' := by
  intro key item hitem resource hneeds
  rcases h key item (hsub key item hitem) resource hneeds with hbase | ⟨other, giver, hne, hgiver,
    hgives⟩
  · exact .inl hbase
  · cases hstays : pool' other with
    | none =>
      -- What has gone gives to an item that stays only what the base has too.
      exact .inl (hgone other giver hgiver hstays key item hne.symm hitem resource hneeds hgives)
    | some giver' =>
      have hsame : giver' = giver :=
        Option.mem_unique (hsub other giver' hstays) hgiver
      exact .inr ⟨other, giver, hne, by rw [hstays, hsame], hgives⟩

section

variable [DecidableEq κ] {key : κ} {item : ι}

theorem Exclusive.insert (h : Exclusive needs pool)
    (hnew : ∀ other rival resource, pool other = some rival → needs item resource →
      ¬ needs rival resource) :
    Exclusive needs (Function.update pool key (some item)) := by
  intro first second x y resource hx hy hneedsX hneedsY
  rw [Function.update_apply] at hx hy
  split_ifs at hx hy with hfirst hsecond hsecond
  · rw [hfirst, hsecond]
  · cases hx
    exact absurd hneedsY (hnew second y resource hy hneedsX)
  · cases hy
    exact absurd hneedsX (hnew first x resource hx hneedsY)
  · exact h first second x y resource hx hy hneedsX hneedsY

/-- The item may replace one under the same key that gives no more than it does. -/
theorem Supported.insert (h : Supported needs gives base pool)
    (hold : ∀ old resource, pool key = some old → gives key old resource →
      gives key item resource)
    (hnew : ∀ resource, needs item resource → base resource ∨ ∃ other giver, other ≠ key ∧
      pool other = some giver ∧ gives other giver resource) :
    Supported needs gives base (Function.update pool key (some item)) := by
  intro place x hx resource hneeds
  rw [Function.update_apply] at hx
  split_ifs at hx with hplace
  · cases hx
    rw [hplace]
    rcases hnew resource hneeds with hbase | ⟨other, giver, hne, hgiver, hgives⟩
    · exact .inl hbase
    · exact .inr ⟨other, giver, hne, by rwa [Function.update_of_ne hne], hgives⟩
  · rcases h place x hx resource hneeds with hbase | ⟨other, giver, hne, hgiver, hgives⟩
    · exact .inl hbase
    · by_cases hother : other = key
      · subst hother
        exact .inr ⟨other, item, hne, Function.update_self .., hold giver resource hgiver hgives⟩
      · exact .inr ⟨other, giver, hne, by rwa [Function.update_of_ne hother], hgives⟩

end

end Pending
