import Chipcoin.Lib.Table

/-!
# Counters

A dictionary counts how many items of a list have each key; an item may have none. It is kept up to
date item by item (`Counts.concat`), and a limit on it is a limit on the items that share a key: a
list stays within the limit as long as no item is added whose key is full (`Within.concat`), and
adding one whose key is full goes beyond it (`Full.not_within`).
-/

namespace Counter

variable {ι κ : Type} [Ord κ] [Std.TransOrd κ] [Std.LawfulEqOrd κ] [DecidableEq κ]

/-! ### Dictionaries -/

/-- `counts[key] += 1` for the key of an item, if it has one. -/
def bump (counts : Std.ExtTreeMap κ ℕ) : Option κ → Std.ExtTreeMap κ ℕ
  | none => counts
  | some key => counts.insert key (counts.getD key 0 + 1)

/-- The dictionary has the number of items for each key. -/
def Counts (key : ι → Option κ) (counts : Std.ExtTreeMap κ ℕ) (items : List ι) : Prop :=
  ∀ k, counts.getD k 0 = items.countP fun item => key item = some k

variable {key : ι → Option κ} {counts : Std.ExtTreeMap κ ℕ} {items : List ι}

omit [Std.LawfulEqOrd κ] in
theorem Counts.nil (key : ι → Option κ) : Counts key ∅ [] := by
  intro k
  simp

/-- The key of an added item is counted. -/
theorem Counts.concat (h : Counts key counts items) (item : ι) :
    Counts key (bump counts (key item)) (items ++ [item]) := by
  intro k
  rw [List.countP_append, List.countP_singleton, ← h k]
  cases hkey : key item with
  | none => simp [bump]
  | some own =>
    rw [bump, Std.ExtTreeMap.getD_eq_getD_getElem?, Table.getElem?_insert]
    by_cases hown : k = own
    · simp [hown]
    · simp [hown, Ne.symm hown, Std.ExtTreeMap.getD_eq_getD_getElem?]

/-! ### Limits -/

omit [Ord κ] [Std.TransOrd κ] [Std.LawfulEqOrd κ]

/-- At most so many items share a key. -/
def Within (key : ι → Option κ) (limit : ℤ) (items : List ι) : Prop :=
  ∀ k, ((items.countP fun item => key item = some k : ℕ) : ℤ) ≤ limit

/-- The items have used up what the key of another one allows. -/
def Full (key : ι → Option κ) (limit : ℤ) (items : List ι) (item : ι) : Prop :=
  ∃ k, key item = some k ∧ limit ≤ (items.countP fun other => key other = some k : ℕ)

variable {limit : ℤ} {item : ι}

theorem Within.nil (key : ι → Option κ) (hlimit : 0 ≤ limit) : Within key limit [] :=
  fun _ => hlimit

/-- An item whose key is not full. -/
theorem Within.concat (h : Within key limit items) (hfull : ¬ Full key limit items item) :
    Within key limit (items ++ [item]) := by
  intro k
  rw [List.countP_append, List.countP_singleton]
  by_cases hkey : key item = some k
  · have hroom : ((items.countP fun other => key other = some k : ℕ) : ℤ) < limit := by
      by_contra hge
      exact hfull ⟨k, hkey, not_lt.mp hge⟩
    simp only [hkey, decide_true, if_true]
    omega
  · simpa [hkey] using h k

/-- An item whose key is full. -/
theorem Full.not_within (h : Full key limit items item) : ¬ Within key limit (items ++ [item]) := by
  obtain ⟨k, hkey, hle⟩ := h
  intro hwithin
  have hcount := hwithin k
  rw [List.countP_append, List.countP_singleton] at hcount
  simp only [hkey, decide_true, if_true] at hcount
  omega

/-- Keys that are counted under names of their own. -/
theorem Counts.getD_map {κ' : Type} [Ord κ'] [Std.TransOrd κ'] [DecidableEq κ'] {g : κ → κ'}
    (hg : Function.Injective g) {names : Std.ExtTreeMap κ' ℕ}
    (h : Counts (fun item => (key item).map g) names items) (k : κ) :
    names.getD (g k) 0 = items.countP fun item => key item = some k := by
  rw [h (g k)]
  refine List.countP_congr fun item _ => ?_
  simp only [decide_eq_true_eq, Option.map_eq_some_iff, hg.eq_iff, exists_eq_right]

end Counter
