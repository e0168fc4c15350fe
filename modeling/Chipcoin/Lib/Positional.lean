import Mathlib.Data.Nat.Digits.Lemmas

/-!
# Positional numerals

Numbers written by their digits in some base, the most significant digit first, as text is. Mathlib
lists digits the other way round, so its results are used on the reversed list.

* `value_cons`, `value_lt`: the first digit, and the bound by the number of digits;
* `pow_le_value`: a numeral without a leading zero is as large as its length says;
* `exists_leading`: the digits of a number are such a numeral;
* `shortlex_decimal`: decimal texts, the shorter first, are in the order of their numbers.

Nothing here speaks about a particular program.
-/

namespace Positional

open List

variable {base : ℕ}

/-- The number that digits write, the most significant first. -/
def value (base : ℕ) (digits : List ℕ) : ℕ := digits.foldl (fun n digit => n * base + digit) 0

private theorem value_eq_ofDigits (digits : List ℕ) :
    value base digits = Nat.ofDigits base digits.reverse := by
  rw [value, Nat.ofDigits_eq_foldr, foldr_reverse]
  simp only [Nat.cast_id, mul_comm base, add_comm]

theorem value_digits (n : ℕ) : value base (Nat.digits base n).reverse = n := by
  rw [value_eq_ofDigits, reverse_reverse, Nat.ofDigits_digits]

theorem value_cons (digit : ℕ) (digits : List ℕ) :
    value base (digit :: digits) = digit * base ^ digits.length + value base digits := by
  rw [value_eq_ofDigits, value_eq_ofDigits, reverse_cons, Nat.ofDigits_append,
    Nat.ofDigits_singleton, length_reverse]
  ring

theorem value_lt (hbase : 1 < base) {digits : List ℕ} (h : ∀ digit ∈ digits, digit < base) :
    value base digits < base ^ digits.length := by
  rw [value_eq_ofDigits, ← length_reverse]
  exact Nat.ofDigits_lt_base_pow_length hbase fun digit hdigit => h digit
    (List.mem_reverse.mp hdigit)

theorem pow_le_value {digit : ℕ} (hdigit : digit ≠ 0) (digits : List ℕ) :
    base ^ digits.length ≤ value base (digit :: digits) := by
  rw [value_cons]
  exact le_add_right (Nat.le_mul_of_pos_left _ (Nat.pos_of_ne_zero hdigit))

/-- The numeral of a positive number has no leading zero. -/
theorem exists_leading {n : ℕ} (hn : n ≠ 0) :
    ∃ first rest, (Nat.digits base n).reverse = first :: rest ∧ first ≠ 0 := by
  have hne : Nat.digits base n ≠ [] := Nat.digits_ne_nil_iff_ne_zero.mpr hn
  refine ⟨(Nat.digits base n).getLast hne, (Nat.digits base n).dropLast.reverse, ?_,
    Nat.getLast_digit_ne_zero base hn⟩
  rw [← reverse_concat, dropLast_append_getLast hne]

/-! ### Decimal text -/

/-- Shorter lists first, lists of one length by their first difference. -/
def shortlex : List ℕ → List ℕ → Ordering := compareLex (compareOn List.length) compare

private theorem compare_concat {xs ys : List ℕ} (h : xs.length = ys.length) (a b : ℕ) :
    compare (xs ++ [a]) (ys ++ [b]) = (compare xs ys).then (compare a b) := by
  induction xs generalizing ys with
  | nil =>
    obtain rfl := List.length_eq_zero_iff.mp h.symm
    simp
  | cons x xs ih =>
    obtain ⟨y, ys, rfl⟩ := exists_cons_of_length_eq_add_one h.symm
    have hrest := ih (Nat.succ.inj h)
    simp only [List.compare_eq_compareLex] at hrest ⊢
    rw [List.cons_append, List.cons_append, List.compareLex_cons_cons, hrest,
      List.compareLex_cons_cons, Ordering.then_assoc]

/-- A last element decides between equal lists only. -/
theorem shortlex_concat (xs ys : List ℕ) (a b : ℕ) :
    shortlex (xs ++ [a]) (ys ++ [b]) = (shortlex xs ys).then (compare a b) := by
  simp only [shortlex, compareLex, compareOn, length_append, length_singleton]
  rcases lt_trichotomy xs.length ys.length with h | h | h
  · rw [compare_lt_iff_lt.mpr h, compare_lt_iff_lt.mpr (Nat.add_lt_add_right h 1)]
    rfl
  · rw [compare_concat h, compare_eq_iff_eq.mpr h, compare_eq_iff_eq.mpr (congrArg (· + 1) h)]
    rfl
  · rw [compare_gt_iff_gt.mpr h, compare_gt_iff_gt.mpr (Nat.add_lt_add_right h 1)]
    rfl

/-- The decimal text of a number, as code points. -/
def decimal (n : ℕ) : List ℕ := (Nat.toDigits 10 n).map Char.toNat

/-- All but the last digit: nothing, or the text of a smaller number. -/
theorem exists_decimal_eq (n : ℕ) :
    ∃ front, decimal n = front ++ [48 + n % 10] ∧
      (front = [] ∧ n / 10 = 0 ∨ front = decimal (n / 10) ∧ 0 < n / 10 ∧ n / 10 < n) := by
  have hlast : n % 10 < 10 := Nat.mod_lt n (by decide)
  rcases Nat.eq_zero_or_pos (n / 10) with hzero | hpos
  · refine ⟨[], ?_, .inl ⟨rfl, hzero⟩⟩
    have hn : n < 10 := by omega
    rw [decimal, Nat.toDigits_of_lt_base hn, map_singleton, Nat.toNat_digitChar_of_lt_ten hn,
      Nat.mod_eq_of_lt hn, nil_append]
  · refine ⟨_, ?_, .inr ⟨rfl, hpos, by omega⟩⟩
    have hsplit := Nat.toDigits_append_toDigits (show 1 < 10 by decide) hpos hlast
    rw [Nat.div_add_mod, Nat.toDigits_of_lt_base hlast] at hsplit
    rw [decimal, ← hsplit, map_append, map_singleton, Nat.toNat_digitChar_of_lt_ten hlast, decimal]

private theorem compare_div_mod (n m : ℕ) :
    (compare (n / 10) (m / 10)).then (compare (48 + n % 10) (48 + m % 10)) = compare n m := by
  simp only [Nat.compare_eq_ite_lt]
  split_ifs <;> first | rfl | omega

private theorem length_decimal_pos (n : ℕ) : 0 < (decimal n).length := by
  rw [decimal, length_map]
  exact Nat.length_toDigits_pos

/-- **The text order of numerals is the order of numbers**, if shorter texts come first. -/
theorem shortlex_decimal (n m : ℕ) : shortlex (decimal n) (decimal m) = compare n m := by
  induction n using Nat.strong_induction_on generalizing m with
  | _ n ih =>
    obtain ⟨front, hn, hfront⟩ := exists_decimal_eq n
    obtain ⟨front', hm, hfront'⟩ := exists_decimal_eq m
    rw [hn, hm, shortlex_concat, ← compare_div_mod n m]
    congr 1
    -- A number of one digit has nothing in front of it.
    rcases hfront with ⟨rfl, hzero⟩ | ⟨rfl, hpos, hless⟩ <;>
      rcases hfront' with ⟨rfl, hzero'⟩ | ⟨rfl, hpos', -⟩
    · rw [hzero, hzero']
      rfl
    · rw [hzero, compare_lt_iff_lt.mpr hpos', shortlex, compareLex, compareOn, length_nil,
        compare_lt_iff_lt.mpr (length_decimal_pos _)]
      rfl
    · rw [hzero', compare_gt_iff_gt.mpr hpos, shortlex, compareLex, compareOn, length_nil,
        compare_gt_iff_gt.mpr (length_decimal_pos _)]
      rfl
    · exact ih _ hless _

end Positional
