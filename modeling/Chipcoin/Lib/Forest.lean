import Mathlib

/-!
# Forests given by parent links

A table of nodes with parent links is a partial function `up` from keys to parent keys; the parent
of a root is a key `top` that stands for no node. The path of a key lists its ancestors from a root
to the key itself.

* `Path.unique`, `Path.mono`: a key has one path, which more nodes do not change.
* `Path.split`: the beginnings of a path are the paths of its keys.
* `Ranked`: when every node has a rank one above its parent's, paths exist, positions are ranks, and
  no key occurs twice.
-/

namespace Forest

open List

variable {κ : Type} {up : κ → Option κ} {top : κ}

/-- The ancestors of a key from a root to the key itself. -/
inductive Path (up : κ → Option κ) (top : κ) : κ → List κ → Prop
  | root {key : κ} (link : up key = some top) : Path up top key [key]
  | child {key parent : κ} {path : List κ} (link : up key = some parent) (inner : parent ≠ top)
      (tail : Path up top parent path) : Path up top key (path ++ [key])

namespace Path

variable {key : κ} {path : List κ}

theorem ne_nil (h : Path up top key path) : path ≠ [] := by
  cases h <;> simp

theorem getLast? (h : Path up top key path) : path.getLast? = some key := by
  cases h <;> simp

theorem unique {other : List κ} (h : Path up top key path) (h' : Path up top key other) :
    path = other := by
  induction h generalizing other with
  | root link =>
    cases h' with
    | root _ => rfl
    | child link' inner _ => exact absurd (Option.mem_unique link' link) inner
  | child link inner _ ih =>
    cases h' with
    | root link' => exact absurd (Option.mem_unique link link') inner
    | child link' _ tail =>
      obtain rfl := Option.mem_unique link link'
      rw [ih tail]

theorem mono {up' : κ → Option κ} (hup : ∀ key parent, up key = some parent → up' key = some parent)
    (h : Path up top key path) : Path up' top key path := by
  induction h with
  | root link => exact .root (hup _ _ link)
  | child link inner _ ih => exact .child (hup _ _ link) inner ih

/-- Every key of a path is a node, and the part up to it is its path. -/
theorem split {front back : List κ} {inner : κ} (h : Path up top key path)
    (hsplit : path = front ++ inner :: back) : Path up top inner (front ++ [inner]) := by
  induction h generalizing back with
  | @root key link =>
    obtain ⟨rfl, rfl, rfl⟩ : front = [] ∧ inner = key ∧ back = [] := by
      cases front with
      | nil => simpa [eq_comm] using hsplit
      | cons a as => simp at hsplit
    exact .root link
  | @child key parent path link hinner tail ih =>
    rcases eq_nil_or_concat back with rfl | ⟨back, last, rfl⟩
    · obtain ⟨rfl, hlast⟩ := append_inj' hsplit rfl
      obtain rfl : key = inner := by simpa using hlast
      exact .child link hinner tail
    · rw [show front ++ inner :: back.concat last = (front ++ inner :: back) ++ [last] by simp]
        at hsplit
      exact ih (append_inj' hsplit rfl).1

theorem up_isSome (h : Path up top key path) {inner : κ} (hmem : inner ∈ path) :
    (up inner).isSome := by
  obtain ⟨front, back, hsplit⟩ := append_of_mem hmem
  generalize hpath : front ++ [inner] = part
  have hinner := hpath ▸ h.split hsplit
  cases hinner with
  | root link => simp [link]
  | child link _ _ => simp [link]

end Path

/-- Every node has a rank one above its parent's. -/
structure Ranked (up : κ → Option κ) (top : κ) (rank : κ → ℕ) : Prop where
  base : ∀ key, up key = some top → rank key = 0
  step : ∀ key parent, up key = some parent → parent ≠ top →
    (up parent).isSome ∧ rank key = rank parent + 1

namespace Ranked

variable {rank : κ → ℕ}

/-- Every node has a path. -/
theorem exists_path (ranked : Ranked up top rank) (key : κ) (h : (up key).isSome) :
    ∃ path, Path up top key path := by
  induction hn : rank key using Nat.strong_induction_on generalizing key with
  | _ n ih =>
    obtain ⟨parent, hparent⟩ := Option.isSome_iff_exists.mp h
    by_cases htop : parent = top
    · exact ⟨[key], .root (htop ▸ hparent)⟩
    · obtain ⟨hsome, hrank⟩ := ranked.step key parent hparent htop
      obtain ⟨path, hpath⟩ := ih (rank parent) (by omega) parent hsome rfl
      exact ⟨path ++ [key], .child hparent htop hpath⟩

section

variable {key : κ} {path : List κ} (ranked : Ranked up top rank) (h : Path up top key path)
include ranked h

theorem length_path : path.length = rank key + 1 := by
  induction h with
  | @root key link => rw [ranked.base key link]; rfl
  | @child key parent path link inner tail ih =>
    rw [length_append, ih, (ranked.step key parent link inner).2]
    rfl

/-- The position of a key in a path is its rank. -/
theorem rank_of_getElem? {i : ℕ} {inner : κ} (hget : path[i]? = some inner) : rank inner = i := by
  obtain ⟨hlt, hinner⟩ := List.getElem?_eq_some_iff.mp hget
  have hsplit : path = path.take i ++ inner :: path.drop (i + 1) := by
    rw [← hinner, getElem_cons_drop, take_append_drop]
  have hlength := ranked.length_path (h.split hsplit)
  rw [length_append, length_take_of_le hlt.le] at hlength
  simpa using hlength.symm

/-- Ranks grow along a path. -/
theorem pairwise_path : path.Pairwise fun a b => rank a < rank b := by
  refine List.pairwise_iff_getElem.mpr fun i j hi hj hij => ?_
  rw [ranked.rank_of_getElem? h (getElem?_eq_getElem hi),
    ranked.rank_of_getElem? h (getElem?_eq_getElem hj)]
  exact hij

theorem nodup_path : path.Nodup :=
  (ranked.pairwise_path h).imp fun hlt heq => (heq ▸ hlt).false

end

end Ranked

end Forest
