import Chipcoin.Lib.Checked

/-!
# Self-delimiting encodings

An encoder turns a value into a list of symbols, or fails. It delimits its values when the list says
where it ends: a list that starts with the encoding of a value starts with the encoding of no other
value. Such encoders can be concatenated, and a concatenation is read back from the left.

* `Delimits`: the property, for the values that satisfy a condition.
* `Delimits.of_length`: injective encoders of a fixed length have it.
* `Delimits.flatten_mapM`: equally many encoded values, one after another, are read back.
* `Delimits.counted`: a list encoded behind its length.

Texts joined by a separator do not delimit themselves: a part may contain the separator. What
determines them is how often each part does (`intercalate_injective`).
-/

namespace Encoding

open Checked List

variable {ε α σ : Type}

/-- The encoding of a value determines the value and the place where it ends. -/
structure Delimits (P : α → Prop) (encode : α → Except ε (List σ)) : Prop where
  cut : ∀ {a b : α} {x y s t : List σ}, P a → P b → encode a = .ok x → encode b = .ok y →
    x ++ s = y ++ t → a = b ∧ s = t

variable {as bs : List α} {s t x : List σ} {xs ys : List (List σ)}

namespace Delimits

variable {P : α → Prop} {encode : α → Except ε (List σ)}

/-- What is encoded is determined by its encoding. -/
theorem injOn (h : Delimits P encode) {a b : α} (ha : P a) (hb : P b) (hax : encode a = .ok x)
    (hbx : encode b = .ok x) : a = b :=
  (h.cut ha hb hax hbx (rfl : x ++ [] = x ++ [])).1

/-- Encodings of one length end at the same place. -/
theorem of_length (width : ℕ) (hlen : ∀ {a x}, P a → encode a = .ok x → x.length = width)
    (hinj : ∀ {a b x}, P a → P b → encode a = .ok x → encode b = .ok x → a = b) :
    Delimits P encode := by
  refine ⟨fun {a b x y s t} ha hb hax hby heq => ?_⟩
  have hwidth : x.length = y.length := (hlen ha hax).trans (hlen hb hby).symm
  obtain ⟨rfl, hrest⟩ := append_inj heq hwidth
  exact ⟨hinj ha hb hax hby, hrest⟩

/-- Values encoded one after another, when it is known how many they are. -/
theorem flatten_mapM (h : Delimits P encode) (has : ∀ a ∈ as, P a) (hbs : ∀ b ∈ bs, P b)
    (hlen : as.length = bs.length) (hxs : as.mapM encode = .ok xs) (hys : bs.mapM encode = .ok ys)
    (heq : xs.flatten ++ s = ys.flatten ++ t) : as = bs ∧ s = t := by
  induction as generalizing bs xs ys with
  | nil =>
    obtain rfl : bs = [] := List.length_eq_zero_iff.mp hlen.symm
    obtain rfl : [] = xs := pure_eq_ok.mp hxs
    obtain rfl : [] = ys := pure_eq_ok.mp hys
    exact ⟨rfl, heq⟩
  | cons a as ih =>
    cases bs with
    | nil => cases hlen
    | cons b bs =>
      obtain ⟨x, xs', hax, hxs', rfl⟩ := mapM_cons_eq_ok.mp hxs
      obtain ⟨y, ys', hby, hys', rfl⟩ := mapM_cons_eq_ok.mp hys
      rw [flatten_cons, flatten_cons, append_assoc, append_assoc] at heq
      obtain ⟨rfl, hrest⟩ := h.cut (has a mem_cons_self) (hbs b mem_cons_self) hax hby heq
      obtain ⟨rfl, hend⟩ := ih (forall_mem_of_forall_mem_cons has)
        (forall_mem_of_forall_mem_cons hbs) (Nat.succ.inj hlen) hxs' hys' hrest
      exact ⟨rfl, hend⟩

/-- A list behind its length. -/
theorem counted (h : Delimits P encode) {count : ℕ → Except ε (List σ)}
    (hcount : Delimits (fun _ => True) count) {c d : List σ} (has : ∀ a ∈ as, P a)
    (hbs : ∀ b ∈ bs, P b) (hc : count as.length = .ok c) (hd : count bs.length = .ok d)
    (hxs : as.mapM encode = .ok xs) (hys : bs.mapM encode = .ok ys)
    (heq : c ++ (xs.flatten ++ s) = d ++ (ys.flatten ++ t)) : as = bs ∧ s = t := by
  obtain ⟨hlen, hrest⟩ := hcount.cut trivial trivial hc hd heq
  exact h.flatten_mapM has hbs hlen hxs hys hrest

end Delimits

/-! ### Parts joined by a separator -/

section

variable [DecidableEq σ] {sep : σ}

/-- A part that is known to contain so many separators is cut off. -/
theorem cut_of_count {a b : List σ} (hcount : a.count sep = b.count sep)
    (h : a ++ sep :: s = b ++ sep :: t) : a = b ∧ s = t := by
  induction a generalizing b with
  | nil =>
    cases b with
    | nil => exact ⟨rfl, (List.cons.inj h).2⟩
    | cons y b =>
      -- The other part would start with the separator.
      rw [← (List.cons.inj h).1, count_nil, count_cons_self] at hcount
      omega
  | cons x a ih =>
    cases b with
    | nil =>
      rw [(List.cons.inj h).1, count_nil, count_cons_self] at hcount
      omega
    | cons y b =>
      obtain ⟨rfl, htail⟩ := List.cons.inj h
      rw [count_cons, count_cons, Nat.add_right_cancel_iff] at hcount
      obtain ⟨rfl, hrest⟩ := ih hcount htail
      exact ⟨rfl, hrest⟩

/-- **Joined parts are determined** by how many separators each of them contains. -/
theorem intercalate_injective (hcount : xs.map (List.count sep) = ys.map (List.count sep))
    (h : [sep].intercalate xs = [sep].intercalate ys) : xs = ys := by
  induction xs generalizing ys with
  | nil =>
    rw [map_nil] at hcount
    exact (List.map_eq_nil_iff.mp hcount.symm).symm
  | cons x xs ih =>
    cases ys with
    | nil => cases hcount
    | cons y ys =>
      rw [map_cons, map_cons, List.cons.injEq] at hcount
      cases xs with
      | nil =>
        obtain rfl : ys = [] := List.map_eq_nil_iff.mp hcount.2.symm
        rw [intercalate_singleton, intercalate_singleton] at h
        rw [h]
      | cons x' xs =>
        cases ys with
        | nil => cases hcount.2
        | cons y' ys =>
          rw [intercalate_cons_cons, intercalate_cons_cons, append_assoc,
            append_assoc, singleton_append, singleton_append] at h
          obtain ⟨rfl, hrest⟩ := cut_of_count hcount.1 h
          rw [ih hcount.2 hrest]

/-- How often the separator occurs in joined parts. -/
theorem count_intercalate :
    ([sep].intercalate (x :: xs)).count sep = ((x :: xs).map (List.count sep)).sum + xs.length := by
  induction xs generalizing x with
  | nil => simp
  | cons y ys ih =>
    rw [intercalate_cons_cons, count_append, count_append, ih, count_singleton_self]
    simp only [map_cons, sum_cons, length_cons]
    omega

end

end Encoding
