import Mathlib

/-!
# Truncation to a floating format

A format is given by the exponent it uses for each bit length: a number of `l` bits is cut down to
a multiple of `2 ^ exponent l`. The format is *precise* to `p` bits when it leaves more than `p`
bits of every number that it cuts at all. From this condition alone:

* truncation loses less than one part in `2 ^ p` (`sub_truncate_lt`);
* it keeps the bit length, and with it the unit and the leading digits (`size_truncate`);
* it is monotone, also across the lengths at which the exponent changes (`truncate_mono`).
-/

namespace Rounding

variable (exponent : ℕ → ℕ)

/-- The unit in the last place of a number. -/
def unit (t : ℕ) : ℕ := 2 ^ exponent t.size

/-- The largest multiple of its unit below a number. -/
def truncate (t : ℕ) : ℕ := t / unit exponent t * unit exponent t

/-- The format keeps more than `p` bits of the numbers it cuts. -/
def Precise (p : ℕ) : Prop :=
  ∀ l, 0 < exponent l → exponent l + p < l

private theorem unit_pos (t : ℕ) : 0 < unit exponent t := Nat.two_pow_pos _

theorem truncate_le (t : ℕ) : truncate exponent t ≤ t := Nat.div_mul_le_self _ _

private theorem truncate_add_mod (t : ℕ) : truncate exponent t + t % unit exponent t = t :=
  Nat.div_add_mod' _ _

/-- A number is at least the power of two of its leading bit. -/
theorem two_pow_le {t : ℕ} (ht : 0 < t) : 2 ^ (t.size - 1) ≤ t := by
  apply Nat.lt_size.mp
  have hsize := Nat.size_pos.mpr ht
  omega

section

variable {exponent} {p : ℕ}

/-- **Relative error.** Truncation loses less than one part in `2 ^ p`. -/
theorem sub_truncate_lt (precise : Precise exponent p) {t : ℕ} (ht : 0 < t) :
    (t - truncate exponent t) * 2 ^ p < t := by
  have hsplit := truncate_add_mod exponent t
  have hmod : t % unit exponent t < unit exponent t := Nat.mod_lt _ (unit_pos exponent t)
  rcases Nat.eq_zero_or_pos (exponent t.size) with hzero | hpos
  · -- Nothing is cut from a number whose unit is one.
    have hunit : unit exponent t = 1 := by rw [unit, hzero, pow_zero]
    have hexact : t - truncate exponent t = 0 := by omega
    rw [hexact, Nat.zero_mul]
    exact ht
  · have hkeeps := precise t.size hpos
    calc (t - truncate exponent t) * 2 ^ p
        < unit exponent t * 2 ^ p := by
          apply Nat.mul_lt_mul_of_pos_right _ (Nat.two_pow_pos p)
          omega
      _ = 2 ^ (exponent t.size + p) := (pow_add _ _ _).symm
      _ ≤ 2 ^ (t.size - 1) := Nat.pow_le_pow_right two_pos (by omega)
      _ ≤ t := two_pow_le ht

private theorem two_pow_le_truncate {t n : ℕ} (hle : 2 ^ n ≤ t) (hunit : exponent t.size ≤ n) :
    2 ^ n ≤ truncate exponent t := by
  have hdvd : unit exponent t ∣ 2 ^ n := Nat.pow_dvd_pow 2 hunit
  calc 2 ^ n = 2 ^ n / unit exponent t * unit exponent t := (Nat.div_mul_cancel hdvd).symm
    _ ≤ t / unit exponent t * unit exponent t :=
      Nat.mul_le_mul_right _ (Nat.div_le_div_right hle)

private theorem Precise.exponent_le (precise : Precise exponent p) (t : ℕ) :
    exponent t.size ≤ t.size - 1 := by
  rcases Nat.eq_zero_or_pos (exponent t.size) with hzero | hpos
  · omega
  · have hkeeps := precise t.size hpos
    omega

/-- Truncation keeps the leading bit. -/
theorem size_truncate (precise : Precise exponent p) {t : ℕ} (ht : 0 < t) :
    (truncate exponent t).size = t.size := by
  apply le_antisymm
  · exact Nat.size_le_size (truncate_le exponent t)
  · have hlead := two_pow_le_truncate (two_pow_le ht) (precise.exponent_le t)
    have hsize := Nat.lt_size.mpr hlead
    omega

theorem truncate_pos (precise : Precise exponent p) {t : ℕ} (ht : 0 < t) :
    0 < truncate exponent t := by
  rw [← Nat.size_pos, size_truncate precise ht]
  exact Nat.size_pos.mpr ht

theorem truncate_div_unit (t : ℕ) :
    truncate exponent t / unit exponent t = t / unit exponent t :=
  Nat.mul_div_cancel _ (unit_pos exponent t)

/-- **Monotonicity.** Numbers of one length share their unit; between two lengths lies a power of
two that truncation does not cross. -/
theorem truncate_mono (precise : Precise exponent p) : Monotone (truncate exponent) := by
  intro t u hle
  rcases (Nat.size_le_size hle).eq_or_lt with hsame | hlonger
  · unfold truncate unit
    rw [hsame]
    exact Nat.mul_le_mul_right _ (Nat.div_le_div_right hle)
  · have hu : 0 < u := Nat.size_pos.mp (by omega)
    calc truncate exponent t
        ≤ t := truncate_le exponent t
      _ ≤ 2 ^ t.size := (Nat.size_le.mp le_rfl).le
      _ ≤ 2 ^ (u.size - 1) := Nat.pow_le_pow_right two_pos (by omega)
      _ ≤ truncate exponent u := two_pow_le_truncate (two_pow_le hu) (precise.exponent_le u)

end

end Rounding
