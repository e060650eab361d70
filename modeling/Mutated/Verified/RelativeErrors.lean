import Mathlib.Algebra.Order.Field.Basic
import Mathlib.Algebra.Order.Ring.Pow
import Mathlib.Tactic.Linarith
import Mathlib.Tactic.Ring

/-!
# Relative errors

`Near u k x y` says that `x` is `y` up to `k` roundings, each of which is off by
at most the share `u` of what is rounded.  Sums and quotients keep it, another
rounding counts one more, and `Near.abs_sub_le` makes a bound of it.
-/

namespace Mutated.Verified.RelativeErrors

variable {α : Type*} [Field α] [LinearOrder α] [IsStrictOrderedRing α]
  {u x x' y y' z c : α} {k l : ℕ}

/-- `x` is `y` up to `k` roundings. -/
def Near (u : α) (k : ℕ) (x y : α) : Prop :=
  (1 - u) ^ k * y ≤ x ∧ x ≤ (1 + u) ^ k * y

omit [IsStrictOrderedRing α] in
theorem Near.zero (u : α) (k : ℕ) : Near u k 0 0 := by
  simp [Near]

/-- An error of one rounding. -/
theorem Near.of_abs_sub_le (h : |x - y| ≤ u * y) : Near u 1 x y := by
  obtain ⟨hlow, hhigh⟩ := abs_le.mp h
  constructor <;> rw [pow_one] <;> linarith

/-- More roundings are allowed. -/
theorem Near.mono (h : Near u k x y) (hu : 0 ≤ u) (hone : u ≤ 1) (hy : 0 ≤ y)
    (hkl : k ≤ l) : Near u l x y := by
  have hlow : (1 - u) ^ l ≤ (1 - u) ^ k :=
    pow_le_pow_of_le_one (sub_nonneg.mpr hone) (sub_le_self 1 hu) hkl
  have hhigh : (1 + u) ^ k ≤ (1 + u) ^ l :=
    pow_le_pow_right₀ (le_add_of_nonneg_right hu) hkl
  exact ⟨(mul_le_mul_of_nonneg_right hlow hy).trans h.1,
    h.2.trans (mul_le_mul_of_nonneg_right hhigh hy)⟩

theorem Near.add (h : Near u k x y) (h' : Near u k x' y') :
    Near u k (x + x') (y + y') := by
  rw [Near, mul_add, mul_add]
  exact ⟨add_le_add h.1 h'.1, add_le_add h.2 h'.2⟩

theorem Near.div (h : Near u k x y) (hc : 0 ≤ c) :
    Near u k (x / c) (y / c) := by
  rw [Near, ← mul_div_assoc, ← mul_div_assoc]
  exact ⟨div_le_div_of_nonneg_right h.1 hc,
    div_le_div_of_nonneg_right h.2 hc⟩

/-- **Roundings add up.** -/
theorem Near.trans (h : Near u k x y) (h' : Near u l z x) (hu : 0 ≤ u)
    (hone : u ≤ 1) : Near u (k + l) z y := by
  constructor
  · calc (1 - u) ^ (k + l) * y = (1 - u) ^ l * ((1 - u) ^ k * y) := by ring
      _ ≤ (1 - u) ^ l * x :=
          mul_le_mul_of_nonneg_left h.1 (pow_nonneg (sub_nonneg.mpr hone) l)
      _ ≤ z := h'.1
  · calc z ≤ (1 + u) ^ l * x := h'.2
      _ ≤ (1 + u) ^ l * ((1 + u) ^ k * y) :=
          mul_le_mul_of_nonneg_left h.2 (pow_nonneg (by linarith) l)
      _ = (1 + u) ^ (k + l) * y := by ring

/-! ## Few roundings -/

theorem one_sub_mul_le_pow (hone : u ≤ 1) (k : ℕ) :
    1 - k * u ≤ (1 - u) ^ k := by
  have hbernoulli := one_add_mul_le_pow (a := -u) (by linarith) k
  rwa [mul_neg, ← sub_eq_add_neg, ← sub_eq_add_neg] at hbernoulli

theorem one_add_pow_le (hu : 0 ≤ u) (hone : u ≤ 1) (hk : k * u ≤ 1 / 2) :
    (1 + u) ^ k ≤ 1 + 2 * (k * u) := by
  have hnonneg : 0 ≤ (k : α) * u := mul_nonneg k.cast_nonneg hu
  have hpow : 0 ≤ (1 + u) ^ k := pow_nonneg (by linarith) k
  have hsquare : (1 + u) * (1 - u) ≤ 1 := by nlinarith [mul_self_nonneg u]
  have hbelow : (1 + u) ^ k * (1 - k * u) ≤ 1 :=
    calc (1 + u) ^ k * (1 - k * u)
        ≤ (1 + u) ^ k * (1 - u) ^ k :=
          mul_le_mul_of_nonneg_left (one_sub_mul_le_pow hone k) hpow
      _ = ((1 + u) * (1 - u)) ^ k := (mul_pow ..).symm
      _ ≤ 1 := pow_le_one₀
          (mul_nonneg (by linarith) (sub_nonneg.mpr hone)) hsquare
  have habove : 1 ≤ (1 + 2 * (k * u)) * (1 - k * u) := by
    nlinarith only [hnonneg, hk]
  have hpos : 0 < 1 - (k : α) * u := by linarith
  exact le_of_mul_le_mul_right (hbelow.trans habove) hpos

/-- **The bound** for few roundings. -/
theorem Near.abs_sub_le (h : Near u k x y) (hu : 0 ≤ u) (hone : u ≤ 1)
    (hk : k * u ≤ 1 / 2) (hy : 0 ≤ y) : |x - y| ≤ 2 * (k * u) * y := by
  have hlow : (1 - k * u) * y ≤ x :=
    (mul_le_mul_of_nonneg_right (one_sub_mul_le_pow hone k) hy).trans h.1
  have hhigh : x ≤ (1 + 2 * (k * u)) * y :=
    h.2.trans (mul_le_mul_of_nonneg_right (one_add_pow_le hu hone hk) hy)
  have hproduct : 0 ≤ (k : α) * u * y :=
    mul_nonneg (mul_nonneg k.cast_nonneg hu) hy
  rw [sub_mul, one_mul] at hlow
  rw [add_mul, one_mul] at hhigh
  rw [abs_le]
  constructor <;> linarith

end Mutated.Verified.RelativeErrors
