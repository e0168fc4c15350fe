import Mathlib

/-!
# Binary hash trees with duplicated last nodes

A level of nodes is combined in pairs, the last node of an odd level with itself, and levels are
combined until one node is left. A last node that stands twice and one that is paired with itself
look the same, so a root does not determine its leaves. It determines the leaves of the tree that is
filled up with the repeated ones (`filled_eq_of_climb_eq`), if nothing collides and no leaf is taken
for a combined pair; the leaves themselves are a first part of those (`prefix_filled`).

* `pairs`, `climb`: one level, and all levels.
* `combined`: the pairs that are combined on the way to the root.
* `filled`: the leaves, and behind them those that are counted twice.
* `variants`: the other lists of leaves that fill up to the same.
-/

namespace Merkle

open List

variable {α : Type}

/-- The pairs of a level; the last node of an odd level is paired with itself. -/
def pairs : List α → List (α × α)
  | [] => []
  | [a] => [(a, a)]
  | a :: b :: rest => (a, b) :: pairs rest

/-- Levels are combined, at most a given number of times, while they have several nodes. -/
def climb (combine : α × α → α) : ℕ → List α → List α
  | 0, level => level
  | fuel + 1, level =>
    if level.length > 1 then climb combine fuel ((pairs level).map combine) else level

/-- The pairs that are combined on the way up. -/
def combined (combine : α × α → α) : ℕ → List α → List (α × α)
  | 0, _ => []
  | fuel + 1, level =>
    if level.length > 1 then pairs level ++ combined combine fuel ((pairs level).map combine)
    else []

/-- The leaves as the tree counts them: a pair of a node with itself counts everything below the
node twice. The recursion is on the levels, so the pairs of a level are leaves of the next call. -/
def filled : {α : Type} → ℕ → List α → List α
  | _, 0, level => level
  | _, fuel + 1, level =>
    if level.length > 1 then (filled fuel (pairs level)).flatMap fun pair => [pair.1, pair.2]
    else level

/-- The other leaves that fill up to the same, each a first part of the filled leaves. -/
def variants [DecidableEq α] (leaves : List α) : List (List α) :=
  ((filled leaves.length leaves).inits).filter fun other =>
    other ≠ leaves ∧ filled other.length other = filled leaves.length leaves

/-- Lists with equal images are equal when no two of their elements collide. -/
theorem eq_of_map_eq {β : Type} {f : α → β} {xs ys : List α} (h : xs.map f = ys.map f)
    (hfree : ∀ x ∈ xs, ∀ y ∈ ys, f x = f y → x = y) : xs = ys := by
  induction xs generalizing ys with
  | nil => exact (List.map_eq_nil_iff.mp h.symm).symm
  | cons x xs ih =>
    cases ys with
    | nil => cases h
    | cons y ys =>
      rw [map_cons, map_cons, List.cons.injEq] at h
      obtain rfl := hfree x mem_cons_self y mem_cons_self h.1
      rw [ih h.2 fun a ha b hb => hfree a (mem_cons_of_mem _ ha) b (mem_cons_of_mem _ hb)]

private theorem length_pairs (level : List α) : (pairs level).length = (level.length + 1) / 2 := by
  induction level using pairs.induct with
  | case1 => simp [pairs]
  | case2 a => simp [pairs]
  | case3 a b rest ih =>
    rw [pairs, length_cons, ih, length_cons, length_cons]
    omega

variable {β : Type} {fuel : ℕ} {level level' : List α} {combine : α × α → α}

private theorem pairs_map (f : α → β) (level : List α) :
    pairs (level.map f) = (pairs level).map (Prod.map f f) := by
  induction level using pairs.induct with
  | case1 => rfl
  | case2 a => rfl
  | case3 a b rest ih =>
    rw [map_cons, map_cons, pairs, ih, pairs]
    rfl

private theorem mem_of_mem_pairs {pair : α × α} (h : pair ∈ pairs level) :
    pair.1 ∈ level ∧ pair.2 ∈ level := by
  induction level using pairs.induct with
  | case1 => simp [pairs] at h
  | case2 a =>
    rw [pairs, mem_singleton] at h
    simp [h]
  | case3 a b rest ih =>
    rw [pairs, mem_cons] at h
    rcases h with rfl | h
    · simp
    · obtain ⟨hfst, hsnd⟩ := ih h
      simp [hfst, hsnd]

/-! ### Climbing -/

/-- What holds of the leaves and of every parent holds of all nodes that are combined. -/
theorem forall_combined {P : α → Prop} (hlevel : ∀ node ∈ level, P node)
    (hcombine : ∀ pair ∈ combined combine fuel level, P (combine pair)) :
    ∀ pair ∈ combined combine fuel level, P pair.1 ∧ P pair.2 := by
  induction fuel generalizing level with
  | zero => simp [combined]
  | succ fuel ih =>
    intro pair hpair
    rw [combined] at hpair hcombine
    split_ifs at hpair hcombine
    · rcases List.mem_append.mp hpair with hpair | hpair
      · obtain ⟨hfst, hsnd⟩ := mem_of_mem_pairs hpair
        exact ⟨hlevel _ hfst, hlevel _ hsnd⟩
      · -- The level above consists of parents.
        refine ih (fun node hnode => ?_) (fun pair hpair => ?_) pair hpair
        · obtain ⟨child, hchild, rfl⟩ := List.mem_map.mp hnode
          exact hcombine child (mem_append_left _ hchild)
        · exact hcombine pair (mem_append_right _ hpair)
    · simp at hpair

/-- Enough rounds leave one node. -/
theorem length_climb (hne : level ≠ []) (hfuel : level.length ≤ fuel + 1) :
    (climb combine fuel level).length = 1 := by
  have hpos : 0 < level.length := List.length_pos_iff.mpr hne
  induction fuel generalizing level with
  | zero =>
    rw [climb]
    omega
  | succ fuel ih =>
    rw [climb]
    split_ifs with hmany
    · have hnext : ((pairs level).map combine).length = (level.length + 1) / 2 := by
        rw [length_map, length_pairs]
      exact ih (by rw [← length_pos_iff]; omega) (by omega) (by omega)
    · omega

/-- A level of one node is its own root, filled or not. -/
private theorem climb_of_length_le (h : level.length ≤ 1) :
    climb combine fuel level = level ∧ filled fuel level = level := by
  cases fuel with
  | zero => exact ⟨rfl, rfl⟩
  | succ fuel => rw [climb, filled, if_neg (by omega), if_neg (by omega), and_self]

/-- The root over several nodes is a parent: by induction on the rounds, it is the parent of the
last two nodes or the root over the level above. -/
private theorem exists_combined_of_climb {root : α} (hfuel : level.length ≤ fuel + 1)
    (hmany : 1 < level.length) (h : climb combine fuel level = [root]) :
    ∃ pair ∈ combined combine fuel level, root = combine pair := by
  induction fuel generalizing level with
  | zero => omega
  | succ fuel ih =>
    rw [climb, if_pos hmany] at h
    rw [combined, if_pos hmany]
    have hnext : ((pairs level).map combine).length = (level.length + 1) / 2 := by
      rw [length_map, length_pairs]
    by_cases hagain : 1 < ((pairs level).map combine).length
    · obtain ⟨pair, hpair, hroot⟩ := ih (by omega) hagain h
      exact ⟨pair, mem_append_right _ hpair, hroot⟩
    · rw [(climb_of_length_le (not_lt.mp hagain)).1] at h
      obtain ⟨pair, hpair, hroot⟩ :=
        List.mem_map.mp (h ▸ mem_singleton_self root : root ∈ (pairs level).map combine)
      exact ⟨pair, mem_append_left _ hpair, hroot.symm⟩

/-! ### Filled leaves -/

theorem filled_map (f : α → β) (level : List α) :
    filled fuel (level.map f) = (filled fuel level).map f := by
  induction fuel generalizing α β with
  | zero => rfl
  | succ fuel ih =>
    rw [filled, filled, length_map]
    split_ifs
    · rw [pairs_map, ih, flatMap_map, map_flatMap]
      rfl
    · rfl

theorem mem_of_mem_filled {node : α} (h : node ∈ filled fuel level) : node ∈ level := by
  induction fuel generalizing α with
  | zero => exact h
  | succ fuel ih =>
    rw [filled] at h
    split_ifs at h
    · obtain ⟨pair, hpair, hnode⟩ := List.mem_flatMap.mp h
      obtain ⟨hfst, hsnd⟩ := mem_of_mem_pairs (ih hpair)
      simp only [mem_cons, not_mem_nil, or_false] at hnode
      rcases hnode with rfl | rfl
      · exact hfst
      · exact hsnd
    · exact h

private theorem prefix_pairs (level : List α) :
    level <+: (pairs level).flatMap fun pair => [pair.1, pair.2] := by
  induction level using pairs.induct with
  | case1 => exact prefix_rfl
  | case2 a => exact ⟨[a], rfl⟩
  | case3 a b rest ih => exact prefix_append_right_inj [a, b] |>.mpr ih

/-- **The leaves come first** among the filled ones. -/
theorem prefix_filled (fuel : ℕ) (level : List α) : level <+: filled fuel level := by
  induction fuel generalizing α with
  | zero => exact prefix_rfl
  | succ fuel ih =>
    rw [filled]
    split_ifs
    · obtain ⟨more, hmore⟩ := ih (pairs level)
      rw [← hmore, flatMap_append]
      exact (prefix_pairs level).trans (prefix_append _ _)
    · exact prefix_rfl

theorem mem_variants [DecidableEq α] {leaves other : List α} (hne : other ≠ leaves)
    (h : filled other.length other = filled leaves.length leaves) : other ∈ variants leaves := by
  refine List.mem_filter.mpr ⟨?_, decide_eq_true ⟨hne, h⟩⟩
  rw [mem_inits, ← h]
  exact prefix_filled other.length other

/-- A single node is the root of no larger tree, of which it would be a parent. -/
private theorem filled_eq_of_length_le {fuel' : ℕ} (hone : level.length ≤ 1) (hne' : level' ≠ [])
    (hfuel' : level'.length ≤ fuel' + 1)
    (hleaf : ∀ leaf ∈ level, ∀ q ∈ combined combine fuel' level', leaf ≠ combine q)
    (h : climb combine fuel level = climb combine fuel' level') :
    filled fuel level = filled fuel' level' := by
  obtain ⟨root, hroot⟩ := List.length_eq_one_iff.mp (@length_climb _ _ _ combine hne' hfuel')
  obtain ⟨hclimb, hfilled⟩ := @climb_of_length_le _ fuel _ combine hone
  rw [hfilled, ← hclimb, h]
  by_cases hone' : level'.length ≤ 1
  · obtain ⟨hclimb', hfilled'⟩ := @climb_of_length_le _ fuel' _ combine hone'
    rw [hclimb', hfilled']
  · obtain ⟨q, hq, hparent⟩ := exists_combined_of_climb hfuel' (not_le.mp hone') hroot
    refine absurd hparent (hleaf root ?_ q hq)
    rw [← hclimb, h, hroot]
    exact mem_singleton_self root

/-- Parents of leaves are not parents of parents: without collisions, the leaves would be parents
themselves. -/
private theorem parent_ne_combined
    (hfree : ∀ p ∈ pairs level, ∀ q ∈ combined combine fuel ((pairs level').map combine),
      combine p = combine q → p = q)
    (hleaf : ∀ leaf ∈ level, ∀ q ∈ pairs level' ++ combined combine fuel
      ((pairs level').map combine), leaf ≠ combine q) :
    ∀ node ∈ (pairs level).map combine,
      ∀ q ∈ combined combine fuel ((pairs level').map combine), node ≠ combine q := by
  intro node hnode q hq heq
  obtain ⟨p, hp, rfl⟩ := List.mem_map.mp hnode
  obtain rfl := hfree p hp q hq heq
  obtain ⟨⟨r, hr, hparent⟩, -⟩ := forall_combined
    (P := fun node => ∃ r ∈ pairs level' ++ combined combine fuel ((pairs level').map combine),
      node = combine r)
    (fun node hnode => by
      obtain ⟨r, hr, rfl⟩ := List.mem_map.mp hnode
      exact ⟨r, mem_append_left _ hr, rfl⟩)
    (fun r hr => ⟨r, mem_append_right _ hr, rfl⟩) p hq
  exact hleaf p.1 (mem_of_mem_pairs hp).1 r hr hparent

/-- **Equal roots fill up to the same leaves**, if nothing that is combined collides and no leaf of
one tree is a parent in the other. By induction on the rounds: the levels above fill up to the same
parents, so the pairs below them do. -/
theorem filled_eq_of_climb_eq {fuel' : ℕ} (hne : level ≠ []) (hne' : level' ≠ [])
    (hfuel : level.length ≤ fuel + 1) (hfuel' : level'.length ≤ fuel' + 1)
    (hfree : ∀ p ∈ combined combine fuel level, ∀ q ∈ combined combine fuel' level',
      combine p = combine q → p = q)
    (hleaf : ∀ leaf ∈ level, ∀ q ∈ combined combine fuel' level', leaf ≠ combine q)
    (hleaf' : ∀ leaf ∈ level', ∀ p ∈ combined combine fuel level, leaf ≠ combine p)
    (h : climb combine fuel level = climb combine fuel' level') :
    filled fuel level = filled fuel' level' := by
  induction fuel generalizing fuel' level level' with
  | zero => exact filled_eq_of_length_le hfuel hne' hfuel' hleaf h
  | succ fuel ih =>
    -- A single leaf is no parent, so the other tree has no levels above its leaves either.
    by_cases hone : level.length ≤ 1
    · exact filled_eq_of_length_le hone hne' hfuel' hleaf h
    by_cases hone' : level'.length ≤ 1
    · exact (filled_eq_of_length_le hone' hne hfuel hleaf' h.symm).symm
    rw [not_le] at hone hone'
    obtain ⟨fuel', rfl⟩ := Nat.exists_eq_succ_of_ne_zero (show fuel' ≠ 0 by omega)
    rw [climb, climb, if_pos hone, if_pos hone'] at h
    rw [combined, if_pos hone] at hfree hleaf'
    rw [combined, if_pos hone'] at hfree hleaf
    have hlen := length_pairs level
    have hlen' := length_pairs level'
    have hparents : filled fuel ((pairs level).map combine) =
        filled fuel' ((pairs level').map combine) := by
      refine ih ?_ ?_ ?_ ?_ ?_ ?_ ?_ h
      · rw [← length_pos_iff, length_map]
        omega
      · rw [← length_pos_iff, length_map]
        omega
      · rw [length_map]
        omega
      · rw [length_map]
        omega
      · intro p hp q hq
        exact hfree p (mem_append_right _ hp) q (mem_append_right _ hq)
      · exact parent_ne_combined (fun p hp q hq => hfree p (mem_append_left _ hp) q
          (mem_append_right _ hq)) hleaf
      · exact parent_ne_combined (fun q hq p hp heq => (hfree p (mem_append_right _ hp) q
          (mem_append_left _ hq) heq.symm).symm) hleaf'
    rw [filled_map, filled_map] at hparents
    -- Parents that are equal have equal children, as nothing collides.
    have hpairs : filled fuel (pairs level) = filled fuel' (pairs level') := by
      refine eq_of_map_eq hparents fun p hp q hq => ?_
      exact hfree p (mem_append_left _ (mem_of_mem_filled hp)) q
        (mem_append_left _ (mem_of_mem_filled hq))
    rw [filled, filled, if_pos hone, if_pos hone', hpairs]

end Merkle
