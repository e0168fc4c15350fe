import Mathlib

/-!
# Checked computations

A validator is a long run of checks, each of which either raises or lets the computation go on.
Here such a run is a value of `Except ε α`, and this file holds the rules by which a successful
run is taken apart again:

* `bind_eq_ok`, `raiseIf_eq_ok` and their kin: a run returns exactly when each of its steps does;
* `forM_eq_ok`, `mapM_eq_ok`: a checked loop returns exactly when each iteration does;
* `foldlM_invariant`: what every successful step of a checked loop keeps, the loop keeps;
* `foldlM_seen`: a loop that raises on a key which it has seen meets every key once.

Nothing here speaks about a particular program.
-/

namespace Checked

open List

universe u v

variable {ε : Type u} {α β σ : Type v} {a : α} {b : β} {e e' : ε} {s s' : σ} {c : Prop} {g : α → β}
  {items xs : List α} {ys : List β} {x : Except ε α} {f : α → Except ε β}

/-- Raise `e` when the condition holds: the shape of a Python guard `if c: raise e`. -/
def raiseIf (c : Prop) [Decidable c] (e : ε) : Except ε Unit :=
  if c then .error e else .ok ()

@[simp] theorem raiseIf_eq_ok [Decidable c] {u : Unit} : raiseIf c e = .ok u ↔ ¬ c := by
  unfold raiseIf
  split <;> simp [*]

theorem raiseIf_eq_error [Decidable c] : raiseIf c e = .error e' ↔ c ∧ e = e' := by
  unfold raiseIf
  split <;> simp [*]

theorem raiseIf_bind {γ : Type} [Decidable c] {k : Unit → Except ε γ} (h : ¬ c) :
    (raiseIf c e >>= k) = k () := by
  rw [raiseIf, if_neg h]
  rfl

/-- An absent value raises `e`; a present one is returned. -/
def orRaise (x : Option α) (e : ε) : Except ε α :=
  match x with
  | some a => .ok a
  | none => .error e

@[simp] theorem orRaise_eq_ok {x : Option α} : orRaise x e = .ok a ↔ x = some a := by
  cases x <;> simp [orRaise]

theorem orRaise_eq_error {x : Option α} : orRaise x e = .error e' ↔ x = none ∧ e = e' := by
  cases x <;> simp [orRaise]

/-- Rewrite the errors that a handler catches, and let the others through. -/
def rethrow (handler : ε → Option ε) (x : Except ε α) : Except ε α :=
  match x with
  | .ok a => .ok a
  | .error e => .error ((handler e).getD e)

@[simp] theorem rethrow_eq_ok {handler : ε → Option ε} : rethrow handler x = .ok a ↔ x = .ok a := by
  cases x <;> simp [rethrow]

theorem bind_eq_ok : (x >>= f) = .ok b ↔ ∃ a, x = .ok a ∧ f a = .ok b := by
  cases x with
  | error e => simp [bind, Except.bind]
  | ok a => simp [bind, Except.bind]

theorem bind_eq_error : (x >>= f) = .error e ↔ x = .error e ∨ ∃ a, x = .ok a ∧ f a = .error e := by
  cases x with
  | error e' => simp [bind, Except.bind]
  | ok a => simp [bind, Except.bind]

theorem pure_eq_ok {b : α} : (pure a : Except ε α) = .ok b ↔ a = b := by
  simp [pure, Except.pure]

@[simp] theorem ok_bind (a : α) (f : α → Except ε β) : (Except.ok a >>= f) = f a := rfl

@[simp] theorem error_bind (e : ε) (f : α → Except ε β) :
    ((Except.error e : Except ε α) >>= f) = .error e := rfl

/-- A change of the result passes to the last step. -/
theorem map_bind {g : β → γ} : (x >>= f).map g = x >>= fun a => (f a).map g := by
  cases x <;> rfl

theorem bind_map {f : β → Except ε γ} : (x.map g >>= f) = x >>= fun a => f (g a) := by
  cases x <;> rfl

theorem eq_ok_of_toOption (h : x.toOption = some a) : x = .ok a := by
  cases x with
  | ok b => rw [Option.some.inj h]
  | error e => cases h

theorem toOption_eq_some_iff : x.toOption = some a ↔ x = .ok a :=
  ⟨eq_ok_of_toOption, fun h => by rw [h]; rfl⟩

theorem toOption_eq_none_iff : x.toOption = none ↔ ¬ ∃ a, x = .ok a := by
  cases x <;> simp [Except.toOption]

theorem toOption_bind_pure : (x >>= fun a => pure (g a)).toOption = x.toOption.map g := by
  cases x <;> rfl

/-- A computation returns at most one value. -/
theorem ok_unique {b : α} (ha : x = .ok a) (hb : x = .ok b) : a = b :=
  Except.ok.inj (ha.symm.trans hb)

/-- A computation that is seen to return. -/
theorem eq_ok_getD {default : α} (h : x.toOption.isSome) : x = .ok (x.toOption.getD default) := by
  cases x with
  | ok a => rfl
  | error e => cases h

/-! ### Loops -/

theorem forM_eq_ok {f : α → Except ε PUnit} {u : PUnit} :
    forM xs f = .ok u ↔ ∀ x ∈ xs, f x = .ok ⟨⟩ := by
  induction xs with
  | nil => simp [pure_eq_ok]
  | cons x xs ih =>
    rw [forM_cons, bind_eq_ok]
    constructor
    · rintro ⟨⟨⟩, hx, hxs⟩ y hy
      rcases List.mem_cons.mp hy with rfl | hy
      · exact hx
      · exact ih.mp hxs y hy
    · intro h
      exact ⟨⟨⟩, h x (by simp), ih.mpr fun y hy => h y (by simp [hy])⟩

theorem mapM_cons_eq_ok {x : α} :
    (x :: xs).mapM f = .ok ys ↔
      ∃ y ys', f x = .ok y ∧ xs.mapM f = .ok ys' ∧ ys = y :: ys' := by
  simp only [mapM_cons, bind_eq_ok, pure_eq_ok, exists_and_left, @eq_comm _ ys]

/-- A checked map returns exactly when it returns at each element. -/
theorem mapM_eq_ok : xs.mapM f = .ok ys ↔ List.Forall₂ (fun x y => f x = .ok y) xs ys := by
  induction xs generalizing ys with
  | nil => cases ys <;> simp [pure, Except.pure]
  | cons x xs ih =>
    rw [mapM_cons_eq_ok, forall₂_cons_left_iff]
    simp only [ih]

theorem exists_of_mapM_getElem? {index : ℕ} {y : β} (h : xs.mapM f = .ok ys)
    (hget : ys[index]? = some y) : ∃ x, xs[index]? = some x ∧ f x = .ok y := by
  obtain ⟨hlength, hall⟩ := List.forall₂_iff_get.mp (mapM_eq_ok.mp h)
  obtain ⟨hlt, rfl⟩ := List.getElem?_eq_some_iff.mp hget
  have hlt' : index < xs.length := hlength ▸ hlt
  exact ⟨xs[index], getElem?_eq_getElem hlt', hall index hlt' hlt⟩

theorem map_eq_of_mapM {γ : Type*} {g : α → γ} {k : β → γ} (h : xs.mapM f = .ok ys)
    (hval : ∀ x y, f x = .ok y → k y = g x) : ys.map k = xs.map g := by
  have hall := mapM_eq_ok.mp h
  clear h
  induction hall with
  | nil => rfl
  | cons hx _ ih => rw [map_cons, map_cons, hval _ _ hx, ih]

theorem map_eq_map_iff {γ : Type v} {x y : Except ε β} {k : β → γ} :
    k <$> x = k <$> y ↔
      (∃ e, x = .error e ∧ y = .error e) ∨ ∃ a b, x = .ok a ∧ y = .ok b ∧ k a = k b := by
  cases x <;> cases y <;> simp [Functor.map, Except.map, eq_comm]

/-- Checked maps whose iterations agree up to a projection agree up to it. -/
theorem map_mapM_congr {γ : Type v} {g : α → Except ε β} {k : β → γ}
    (h : ∀ x ∈ xs, k <$> f x = k <$> g x) :
    List.map k <$> xs.mapM f = List.map k <$> xs.mapM g := by
  induction xs with
  | nil => rfl
  | cons x xs ih =>
    rw [mapM_cons, mapM_cons]
    rcases map_eq_map_iff.mp (h x mem_cons_self) with ⟨e, hf, hg⟩ | ⟨y, y', hf, hg, hy⟩
    · rw [hf, hg]
      rfl
    rw [hf, hg, ok_bind, ok_bind]
    rcases map_eq_map_iff.mp (ih (forall_mem_of_forall_mem_cons h)) with
      ⟨e, hfs, hgs⟩ | ⟨ys, ys', hfs, hgs, hys⟩
    · rw [hfs, hgs]
      rfl
    rw [hfs, hgs]
    show Except.ok (k y :: ys.map k) = Except.ok (k y' :: ys'.map k)
    rw [hy, hys]

theorem mapM_returns_iff : (∃ ys, xs.mapM f = .ok ys) ↔ ∀ x ∈ xs, ∃ y, f x = .ok y := by
  induction xs with
  | nil => exact ⟨fun _ _ hx => (nomatch hx), fun _ => ⟨[], rfl⟩⟩
  | cons x xs ih =>
    rw [forall_mem_cons, ← ih]
    simp only [mapM_cons_eq_ok]
    constructor
    · rintro ⟨_, y, ys, hy, hys, -⟩
      exact ⟨⟨y, hy⟩, ys, hys⟩
    · rintro ⟨⟨y, hy⟩, ys, hys⟩
      exact ⟨y :: ys, y, ys, hy, hys, rfl⟩

theorem foldlM_cons_eq_ok {f : σ → α → Except ε σ} {x : α} :
    (x :: xs).foldlM f s = .ok s' ↔ ∃ t, f s x = .ok t ∧ xs.foldlM f t = .ok s' := by
  rw [foldlM_cons, bind_eq_ok]

theorem foldlM_append_eq_ok {f : σ → α → Except ε σ} {ys : List α} :
    (xs ++ ys).foldlM f s = .ok s' ↔ ∃ t, xs.foldlM f s = .ok t ∧ ys.foldlM f t = .ok s' := by
  rw [foldlM_append, bind_eq_ok]

/-- Loops whose rounds agree on the listed items agree. -/
theorem foldlM_congr {f g : σ → α → Except ε σ} (h : ∀ s, ∀ a ∈ items, f s a = g s a) (s : σ) :
    items.foldlM f s = items.foldlM g s := by
  induction items generalizing s with
  | nil => rfl
  | cons a rest ih =>
    rw [foldlM_cons, foldlM_cons, h s a mem_cons_self]
    congr 1
    funext next
    exact ih (fun s later hlater => h s later (mem_cons_of_mem _ hlater)) next

/-- A loop whose rounds commute with a change of the state. -/
theorem foldlM_map {f : β → α → Except ε β} {g : β → β}
    (h : ∀ b, ∀ a ∈ items, f (g b) a = (f b a).map g) :
    items.foldlM f (g b) = (items.foldlM f b).map g := by
  induction items generalizing b with
  | nil => rfl
  | cons a rest ih =>
    rw [foldlM_cons, foldlM_cons, h b a mem_cons_self]
    cases f b a with
    | error e => rfl
    | ok next => exact ih fun b later hlater => h b later (mem_cons_of_mem _ hlater)

/-- **Loop invariant.** -/
theorem foldlM_invariant {f : σ → α → Except ε σ} (Inv : σ → Prop)
    (step : ∀ s x s', x ∈ xs → f s x = .ok s' → Inv s → Inv s') (h : xs.foldlM f s = .ok s')
    (hs : Inv s) : Inv s' := by
  induction xs generalizing s with
  | nil =>
    obtain rfl : s = s' := by simpa [pure_eq_ok] using h
    exact hs
  | cons x xs ih =>
    obtain ⟨t, ht, hrest⟩ := foldlM_cons_eq_ok.mp h
    exact ih (fun s y s' hy => step s y s' (by simp [hy])) hrest (step s x t (by simp) ht hs)

/-- **Loops that remember.** A loop that raises on a key which it has seen, and remembers every
other, meets each key once and none of those seen before. -/
theorem foldlM_seen {κ : Type} [DecidableEq κ] {f : σ → α → Except ε σ} (seen : σ → Finset κ)
    (key : α → κ)
    (step : ∀ s x s', f s x = .ok s' → key x ∉ seen s ∧ seen s' = insert (key x) (seen s))
    (h : xs.foldlM f s = .ok s') :
    (xs.map key).Nodup ∧ (∀ k ∈ xs.map key, k ∉ seen s) ∧
      seen s' = seen s ∪ (xs.map key).toFinset := by
  induction xs generalizing s with
  | nil =>
    obtain rfl : s = s' := by simpa [pure_eq_ok] using h
    simp
  | cons x xs ih =>
    obtain ⟨t, hfirst, hrest⟩ := foldlM_cons_eq_ok.mp h
    obtain ⟨hnew, ht⟩ := step s x t hfirst
    obtain ⟨hnodup, hfresh, hs'⟩ := ih hrest
    rw [ht] at hfresh hs'
    refine ⟨?_, ?_, ?_⟩
    · rw [map_cons, nodup_cons]
      exact ⟨fun hmem => hfresh _ hmem (Finset.mem_insert_self _ _), hnodup⟩
    · rw [map_cons, forall_mem_cons]
      exact ⟨hnew, fun k hk hseen => hfresh k hk (Finset.mem_insert_of_mem hseen)⟩
    · rw [hs', map_cons, toFinset_cons, Finset.insert_union, Finset.union_insert]

/-- A checked loop none of whose steps can raise returns. -/
theorem foldlM_total {f : σ → α → Except ε σ} (step : ∀ s x, x ∈ xs → ∃ s', f s x = .ok s')
    (s : σ) : ∃ s', xs.foldlM f s = .ok s' := by
  induction xs generalizing s with
  | nil => exact ⟨s, rfl⟩
  | cons x xs ih =>
    obtain ⟨t, ht⟩ := step s x (by simp)
    obtain ⟨s', hs'⟩ := ih (fun s y hy => step s y (by simp [hy])) t
    exact ⟨s', foldlM_cons_eq_ok.mpr ⟨t, ht, hs'⟩⟩

end Checked
