import Mathlib

/-!
# Tables keyed by an ordered type

Lookup after each change of a table, with keys compared by `=`.

* `Holds`: the rows of a table are the items of a list, each under its key.
-/

namespace Table

open List

variable {κ ν : Type} [Ord κ] [Std.TransOrd κ] [Std.LawfulEqOrd κ] [DecidableEq κ]

section

variable (table : Std.ExtTreeMap κ ν) (key other : κ)
include table key other

theorem getElem?_insert (value : ν) :
    (table.insert key value)[other]? = if other = key then some value else table[other]? := by
  rw [Std.ExtTreeMap.getElem?_insert]
  by_cases h : other = key
  · simp [h]
  · simp [h, Ne.symm h]

theorem getElem?_erase :
    (table.erase key)[other]? = if other = key then none else table[other]? := by
  rw [Std.ExtTreeMap.getElem?_erase]
  by_cases h : other = key
  · simp [h]
  · simp [h, Ne.symm h]

theorem getElem?_modify (f : ν → ν) :
    (table.modify key f)[other]? = if other = key then table[other]?.map f else table[other]? := by
  rw [Std.ExtTreeMap.getElem?_modify]
  by_cases h : other = key
  · simp [h]
  · simp [h, Ne.symm h]

end

omit [DecidableEq κ] in
/-- The rows of a table stand under different keys. -/
theorem nodup_keys (table : Std.ExtTreeMap κ ν) : (table.toList.map Prod.fst).Nodup := by
  rw [List.Nodup, pairwise_map]
  refine table.distinct_keys_toList.imp fun hne heq => hne ?_
  rw [heq]
  exact Std.ReflCmp.compare_self

/-- Rows deleted one after another. -/
theorem getElem?_foldl_erase (keys : List κ) (table : Std.ExtTreeMap κ ν) (other : κ) :
    (keys.foldl (fun table key => table.erase key) table)[other]? =
      if other ∈ keys then none else table[other]? := by
  induction keys generalizing table with
  | nil => simp
  | cons key rest ih =>
    rw [foldl_cons, ih, getElem?_erase]
    by_cases hrest : other ∈ rest
    · simp [hrest]
    · simp [hrest]

omit [DecidableEq κ] in
/-- One value written under several keys. -/
theorem mem_foldl_insert {keys : List κ} {table : Std.ExtTreeMap κ ν} {value : ν} {other : κ} :
    other ∈ keys.foldl (fun table key => table.insert key value) table ↔
      other ∈ keys ∨ other ∈ table := by
  induction keys generalizing table with
  | nil => simp
  | cons key rest ih =>
    rw [foldl_cons, ih, Std.ExtTreeMap.mem_insert, Std.compare_eq_iff_eq, mem_cons,
      eq_comm, or_left_comm, or_assoc]

/-- Writing a row that is there changes nothing. -/
theorem insert_eq_self {table : Std.ExtTreeMap κ ν} {key : κ} {value : ν}
    (h : table[key]? = some value) : table.insert key value = table := by
  refine Std.ExtTreeMap.ext_getElem? fun other => ?_
  rw [getElem?_insert]
  split_ifs with heq
  · rw [heq, h]
  · rfl

/-- The only row of a list with a property is what a search for it finds. -/
theorem find?_iff_of_unique {rows : List ν} {P : ν → Prop} [DecidablePred P]
    (unique : ∀ a ∈ rows, ∀ b ∈ rows, P a → P b → a = b) {row : ν} :
    rows.find? (P ·) = some row ↔ row ∈ rows ∧ P row := by
  constructor
  · intro h
    exact ⟨mem_of_find?_eq_some h, by simpa using find?_some h⟩
  · rintro ⟨hmem, hrow⟩
    obtain ⟨found, hfound⟩ : ∃ found, rows.find? (P ·) = some found := by
      refine Option.isSome_iff_exists.mp ?_
      rw [find?_isSome]
      exact ⟨row, hmem, decide_eq_true hrow⟩
    have hmatch : P found := by simpa using find?_some hfound
    rw [hfound, unique found (mem_of_find?_eq_some hfound) row hmem hmatch hrow]

omit [Ord κ] [Std.TransOrd κ] [Std.LawfulEqOrd κ] in
/-- The row of a list with distinct keys that a search by key finds. -/
theorem find?_key_eq_some {rows : List ν} {key : ν → κ} (hnodup : (rows.map key).Nodup) {other : κ}
    {row : ν} : rows.find? (key · = other) = some row ↔ row ∈ rows ∧ key row = other :=
  find?_iff_of_unique fun _ ha _ hb h h' =>
    inj_on_of_nodup_map hnodup ha hb (h.trans h'.symm)

omit [Ord κ] [Std.TransOrd κ] [Std.LawfulEqOrd κ] in
theorem find?_key_eq_none {rows : List ν} {key : ν → κ} {other : κ} (h : other ∉ rows.map key) :
    rows.find? (key · = other) = none :=
  List.find?_eq_none.mpr fun _ hrow heq =>
    h (List.mem_map.mpr ⟨_, hrow, of_decide_eq_true heq⟩)

/-- Rows written one after another under distinct keys. -/
theorem getElem?_foldl_insert {rows : List ν} {key : ν → κ} (hnodup : (rows.map key).Nodup)
    (table : Std.ExtTreeMap κ ν) (other : κ) :
    (rows.foldl (fun table row => table.insert (key row) row) table)[other]? =
      (rows.find? (key · = other)).or table[other]? := by
  induction rows generalizing table with
  | nil => rfl
  | cons row rest ih =>
    rw [map_cons, nodup_cons] at hnodup
    rw [foldl_cons, ih hnodup.2, getElem?_insert]
    by_cases h : key row = other
    · -- No later row has this key.
      simp [find?_key_eq_none (h ▸ hnodup.1), h]
    · simp [h, Ne.symm h]

/-! ### Tables of a list -/

/-- The rows of a table are the items of a list, each under its key. -/
def Holds (key : ν → κ) (table : Std.ExtTreeMap κ ν) (items : List ν) : Prop :=
  ∀ (other : κ) (row : ν), table[other]? = some row ↔ row ∈ items ∧ key row = other

variable {key : ν → κ} {table : Std.ExtTreeMap κ ν} {items : List ν}

omit [Std.LawfulEqOrd κ] [DecidableEq κ] in
theorem holds_empty : Holds key (∅ : Std.ExtTreeMap κ ν) [] := by
  intro other row
  simp

/-- An item under a new key. -/
theorem Holds.insert (h : Holds key table items) {value : ν}
    (fresh : ∀ item ∈ items, key item ≠ key value) :
    Holds key (table.insert (key value) value) (items ++ [value]) := by
  intro other row
  rw [getElem?_insert, mem_append, mem_singleton]
  split_ifs with hkey
  · subst hkey
    constructor
    · intro hrow
      obtain rfl := Option.some.inj hrow
      exact ⟨.inr rfl, rfl⟩
    · rintro ⟨hitem | rfl, hsame⟩
      · exact absurd hsame (fresh row hitem)
      · rfl
  · rw [h]
    refine ⟨fun ⟨hitem, hsame⟩ => ⟨.inl hitem, hsame⟩, ?_⟩
    rintro ⟨hitem | rfl, hsame⟩
    · exact ⟨hitem, hsame⟩
    · exact absurd hsame.symm hkey

omit [DecidableEq κ] in
/-- A filter that keeps every item changes nothing. -/
theorem Holds.filter_eq (h : Holds key table items) {p : κ → ν → Bool}
    (hall : ∀ item ∈ items, p (key item) item) : table.filter p = table := by
  refine Std.ExtTreeMap.ext_getElem? fun other => ?_
  rw [Std.ExtTreeMap.getElem?_filter']
  cases hrow : table[other]? with
  | none => rfl
  | some row =>
    obtain ⟨hitem, rfl⟩ := (h other row).mp hrow
    rw [Option.filter_some, if_pos (hall row hitem)]

omit [DecidableEq κ] in
/-- The rows of a table that holds distinct items are these items. -/
theorem Holds.perm (h : Holds key table items) (hnodup : items.Nodup) :
    (table.toList.map Prod.snd).Perm items := by
  have hdistinct : table.toList.Pairwise fun a b => ¬ compare a.1 b.1 = .eq :=
    Std.ExtTreeMap.distinct_keys_toList
  refine (perm_ext_iff_of_nodup ?_ hnodup).mpr fun row => ?_
  · -- Rows under different keys are different, as a row determines its key.
    refine List.pairwise_map.mpr (hdistinct.imp_of_mem fun {a b} ha hb hne heq => hne ?_)
    obtain ⟨-, ha⟩ := (h a.1 a.2).mp (Std.ExtTreeMap.mem_toList_iff_getElem?_eq_some.mp ha)
    obtain ⟨-, hb⟩ := (h b.1 b.2).mp (Std.ExtTreeMap.mem_toList_iff_getElem?_eq_some.mp hb)
    rw [← ha, ← hb, heq]
    exact Std.compare_self
  · rw [mem_map]
    constructor
    · rintro ⟨entry, hentry, rfl⟩
      exact ((h _ _).mp (Std.ExtTreeMap.mem_toList_iff_getElem?_eq_some.mp hentry)).1
    · intro hitem
      exact ⟨(key row, row),
        Std.ExtTreeMap.mem_toList_iff_getElem?_eq_some.mpr ((h _ _).mpr ⟨hitem, rfl⟩), rfl⟩

end Table
