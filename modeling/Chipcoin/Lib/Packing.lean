import Mathlib

/-!
# Disjoint sets that absorb each other

A pool of keys, each with a finite set of contents, the contents of different keys disjoint. A new
key may take the place of keys whose contents it has. Nothing is lost, and a pool in which this
goes on is never the same twice: either its contents grow, or they stay and fewer keys share them.

* `absorb`: the pool after the new key has taken the place of some keys.
* `pairwiseDisjoint_absorb`, `biUnion_subset_absorb`: what an absorption keeps.
* `grows_or_shrinks`: what an absorption that replaces something changes.
* `rank`: the order in which pools go up, with `rank_le_insert` and `rank_lt_absorb`.
-/

namespace Packing

variable {κ ι : Type} [DecidableEq κ] [DecidableEq ι] {content : κ → Finset ι}
  {pool gone : Finset κ} {new : κ}

/-- The pool with a new key in place of those that are gone. -/
def absorb (pool gone : Finset κ) (new : κ) : Finset κ := insert new (pool \ gone)

omit [DecidableEq ι] in
theorem pairwiseDisjoint_absorb (hpool : (pool : Set κ).PairwiseDisjoint content)
    (hnew : ∀ key ∈ pool \ gone, Disjoint (content new) (content key)) :
    (absorb pool gone new : Set κ).PairwiseDisjoint content := by
  rw [absorb, Finset.coe_insert]
  refine Set.PairwiseDisjoint.insert ?_ fun key hkey _ => hnew key hkey
  exact hpool.subset (Finset.coe_subset.mpr Finset.sdiff_subset)

/-- Nothing is lost. -/
theorem biUnion_subset_absorb (hgone : ∀ key ∈ gone, content key ⊆ content new) :
    pool.biUnion content ⊆ (absorb pool gone new).biUnion content := by
  intro item hitem
  obtain ⟨key, hkey, hmem⟩ := Finset.mem_biUnion.mp hitem
  by_cases hdropped : key ∈ gone
  · exact Finset.mem_biUnion.mpr ⟨new, Finset.mem_insert_self _ _, hgone key hdropped hmem⟩
  · have hstays : key ∈ pool \ gone := Finset.mem_sdiff.mpr ⟨hkey, hdropped⟩
    exact Finset.mem_biUnion.mpr ⟨key, Finset.mem_insert_of_mem hstays, hmem⟩

/-- A new key with more contents than those it replaces adds something. -/
theorem biUnion_ssubset_absorb (hgone : ∀ key ∈ gone, content key ⊆ content new)
    (hnew : ∀ key ∈ pool \ gone, Disjoint (content new) (content key))
    (hmore : (gone.biUnion content).card < (content new).card) :
    pool.biUnion content ⊂ (absorb pool gone new).biUnion content := by
  refine Finset.ssubset_iff_subset_ne.mpr ⟨biUnion_subset_absorb hgone, fun heq => ?_⟩
  obtain ⟨item, hitem, hnot⟩ := Finset.exists_mem_notMem_of_card_lt_card hmore
  have hafter : item ∈ (absorb pool gone new).biUnion content :=
    Finset.mem_biUnion.mpr ⟨new, Finset.mem_insert_self _ _, hitem⟩
  rw [← heq] at hafter
  obtain ⟨key, hkey, hmem⟩ := Finset.mem_biUnion.mp hafter
  -- The item is not from a key that went, so a key that stays shares it with the new one.
  by_cases hdropped : key ∈ gone
  · exact hnot (Finset.mem_biUnion.mpr ⟨key, hdropped, hmem⟩)
  · exact Finset.disjoint_left.mp (hnew key (Finset.mem_sdiff.mpr ⟨hkey, hdropped⟩)) hitem hmem

/-- One key in place of two or more leaves fewer of them. -/
theorem card_absorb_lt (hsub : gone ⊆ pool) (htwo : 1 < gone.card) :
    (absorb pool gone new).card < pool.card := by
  have hbound : (absorb pool gone new).card ≤ (pool \ gone).card + 1 := Finset.card_insert_le _ _
  have hsplit : (pool \ gone).card + gone.card = pool.card :=
    Finset.card_sdiff_add_card_eq_card hsub
  omega

/-- **Progress of a replacement.** -/
theorem grows_or_shrinks (hsub : gone ⊆ pool) (hgone : ∀ key ∈ gone, content key ⊆ content new)
    (hnew : ∀ key ∈ pool \ gone, Disjoint (content new) (content key))
    (hbetter : 1 < gone.card ∨ (gone.biUnion content).card < (content new).card) :
    pool.biUnion content ⊂ (absorb pool gone new).biUnion content ∨
      (absorb pool gone new).card < pool.card := by
  rcases hbetter with htwo | hmore
  · exact .inr (card_absorb_lt hsub htwo)
  · exact .inl (biUnion_ssubset_absorb hgone hnew hmore)

/-! ### The order in which pools go up -/

/-- The keys that have contents. -/
def filled (content : κ → Finset ι) (pool : Finset κ) : Finset κ :=
  pool.filter fun key => (content key).Nonempty

/-- Pools go up by their contents; with the same contents, by sharing them among fewer keys. -/
def rank (content : κ → Finset ι) (pool : Finset κ) : Finset ι ×ₗ ℕᵒᵈ :=
  toLex (pool.biUnion content, OrderDual.toDual (filled content pool).card)

omit [DecidableEq κ] in
private theorem rank_le_of_subset {pool' : Finset κ}
    (hsub : pool.biUnion content ⊆ pool'.biUnion content)
    (hcard : pool.biUnion content = pool'.biUnion content →
      (filled content pool').card ≤ (filled content pool).card) :
    rank content pool ≤ rank content pool' := by
  rw [rank, rank, Prod.Lex.toLex_le_toLex]
  rcases hsub.eq_or_ssubset with heq | hless
  · exact .inr ⟨heq, hcard heq⟩
  · exact .inl hless

/-- A new key that shares nothing with the others does not go down. -/
theorem rank_le_insert (hnew : ∀ key ∈ pool, Disjoint (content new) (content key)) :
    rank content pool ≤ rank content (insert new pool) := by
  refine rank_le_of_subset (Finset.biUnion_subset_biUnion_of_subset_left _
    (Finset.subset_insert _ _)) fun heq => ?_
  -- The new key brings nothing, so it is not among those that have contents.
  have hempty : ¬ (content new).Nonempty := by
    rintro ⟨item, hitem⟩
    have hafter : item ∈ (insert new pool).biUnion content :=
      Finset.mem_biUnion.mpr ⟨new, Finset.mem_insert_self _ _, hitem⟩
    rw [← heq] at hafter
    obtain ⟨key, hkey, hmem⟩ := Finset.mem_biUnion.mp hafter
    exact Finset.disjoint_left.mp (hnew key hkey) hitem hmem
  rw [filled, Finset.filter_insert, if_neg hempty]
  rfl

/-- **A replacement goes up.** -/
theorem rank_lt_absorb (hsub : gone ⊆ pool) (hgone : ∀ key ∈ gone, content key ⊆ content new)
    (hfull : ∀ key ∈ gone, (content key).Nonempty)
    (hnew : ∀ key ∈ pool \ gone, Disjoint (content new) (content key))
    (hbetter : 1 < gone.card ∨ (gone.biUnion content).card < (content new).card) :
    rank content pool < rank content (absorb pool gone new) := by
  rw [rank, rank, Prod.Lex.toLex_lt_toLex]
  have hkept : pool.biUnion content ⊆ (absorb pool gone new).biUnion content :=
    biUnion_subset_absorb hgone
  rcases hkept.eq_or_ssubset with heq | hless
  · refine .inr ⟨heq, ?_⟩
    -- The contents are the same, so one key has come for two or more.
    have htwo : 1 < gone.card :=
      hbetter.resolve_right fun hmore => (biUnion_ssubset_absorb hgone hnew hmore).ne heq
    have hfilled : filled content (absorb pool gone new) ⊆
        absorb (filled content pool) gone new := by
      intro key hkey
      obtain ⟨hmem, hnonempty⟩ := Finset.mem_filter.mp hkey
      rcases Finset.mem_insert.mp hmem with rfl | hstays
      · exact Finset.mem_insert_self _ _
      · obtain ⟨hpool, hstays⟩ := Finset.mem_sdiff.mp hstays
        exact Finset.mem_insert_of_mem
          (Finset.mem_sdiff.mpr ⟨Finset.mem_filter.mpr ⟨hpool, hnonempty⟩, hstays⟩)
    have hsub' : gone ⊆ filled content pool := fun key hkey =>
      Finset.mem_filter.mpr ⟨hsub hkey, hfull key hkey⟩
    exact (Finset.card_le_card hfilled).trans_lt (card_absorb_lt hsub' htwo)
  · exact .inl hless

end Packing
