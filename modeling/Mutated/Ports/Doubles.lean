import Mutated.Ports.CommandLine
import Mutated.Verified.RelativeErrors

/-!
# Arithmetic of `double`

The operations on `double` that both programs use, next to the conversions and
the product of `CommandLine.lean`.  Every one rounds its exact result.

Numbers of moderate size are the simple case: they do not overflow, and those
that are not zero keep a relative error of `2 ^ -53`.
-/

namespace Mutated.Ports.Double

open Mutated.Verified.RelativeErrors
open Mutated.Verified.Rounding

def add : Double → Double → Double
  | .num a, .num b => ofRat (a + b)
  | .inf a, .inf b => if a = b then .inf a else .nan
  | .inf negative, .num _ => .inf negative
  | .num _, .inf negative => .inf negative
  | _, _ => .nan

def div : Double → Double → Double
  | .num a, .num b =>
      if b = 0 then (if a = 0 then .nan else .inf (a < 0)) else ofRat (a / b)
  | .num _, .inf _ => .num 0
  | .inf negative, .num b => .inf (negative ^^ (b < 0))
  | _, _ => .nan

/-! ## Natural numbers -/

theorem ofRat_eq_num_of_lt {q : ℚ} (h : |roundTo 53 (-1074) q| < 2 ^ 1024) :
    ofRat q = .num (roundTo 53 (-1074) q) := by
  unfold ofRat
  exact if_neg (not_le.mpr h)

theorem ofRat_of_le {q : ℚ} {n : Nat} (hn : n < 2 ^ 53) (hq : 0 ≤ q)
    (h : q ≤ n) : ofRat q = .num (roundTo 53 (-1074) q) ∧
      0 ≤ roundTo 53 (-1074) q ∧ roundTo 53 (-1074) q ≤ n := by
  have hnonneg : 0 ≤ roundTo 53 (-1074) q := by
    exact_mod_cast natCast_le_roundTo (n := 0) (by decide) (by decide)
      (by decide) (by exact_mod_cast hq)
  have hle : roundTo 53 (-1074) q ≤ n :=
    roundTo_le_natCast (by decide) (by decide) hn hq h
  refine ⟨ofRat_eq_num_of_lt ?_, hnonneg, hle⟩
  rw [abs_of_nonneg hnonneg]
  refine hle.trans_lt ?_
  have hpow : (n : ℚ) < 2 ^ 53 := by exact_mod_cast hn
  exact hpow.trans (pow_lt_pow_right₀ one_lt_two (by decide))

theorem ofRat_natCast {n : Nat} (hn : n < 2 ^ 53) :
    ofRat n = .num n := by
  rw [(ofRat_of_le hn n.cast_nonneg le_rfl).1,
    roundTo_natCast (by decide) (by decide) hn]

/-! ## Numbers of moderate size -/

/-- The share that one rounding is off by. -/
def unit : ℚ := 1 / 2 ^ 53

theorem unit_nonneg : 0 ≤ unit := by decide +kernel

theorem unit_le_one : unit ≤ 1 := by decide +kernel

theorem mul_unit_le {k : Nat} (hk : k ≤ 2 ^ 52) : k * unit ≤ 1 / 2 := by
  have hle : (k : ℚ) ≤ 2 ^ 52 := by exact_mod_cast hk
  calc (k : ℚ) * unit ≤ 2 ^ 52 * unit :=
        mul_le_mul_of_nonneg_right hle unit_nonneg
    _ = 1 / 2 := by decide +kernel

/-- A number is zero, or at least a certain power of two. -/
def Moderate (e : ℤ) (q : ℚ) : Prop := q = 0 ∨ 2 ^ e ≤ q

theorem Moderate.nonneg {e : ℤ} {q : ℚ} (h : Moderate e q) : 0 ≤ q := by
  rcases h with rfl | h
  · exact le_rfl
  · exact (zpow_pos two_pos _).le.trans h

theorem Moderate.add {e : ℤ} {q r : ℚ} (hq : Moderate e q)
    (hr : Moderate e r) : Moderate e (q + r) := by
  rcases hq with rfl | hq
  · rwa [zero_add]
  · exact .inr (hq.trans (le_add_of_nonneg_right hr.nonneg))

theorem moderate_natCast (n : Nat) : Moderate 0 n := by
  rcases Nat.eq_zero_or_pos n with rfl | hpos
  · exact .inl Nat.cast_zero
  · exact .inr (by exact_mod_cast hpos)

/-- **One rounding** of a number that is neither too small nor too large. -/
theorem ofRat_moderate {e : ℤ} (he : -1000 ≤ e) {q : ℚ} (h : Moderate e q)
    (hle : q ≤ 2 ^ 1000) :
    ∃ x, ofRat q = .num x ∧ Near unit 1 x q ∧ Moderate e x := by
  have hnormal : q = 0 ∨ (2 : ℚ) ^ (-1074 + (53 : ℕ) : ℤ) ≤ q :=
    h.imp_right ((zpow_le_zpow_right₀ one_le_two (by omega)).trans ·)
  have hnear : Near unit 1 (roundTo 53 (-1074) q) q :=
    .of_abs_sub_le (abs_roundTo_sub_le h.nonneg hnormal)
  have hmoderate : Moderate e (roundTo 53 (-1074) q) := by
    rcases h with rfl | h
    · exact .inl (roundTo_zero _ _)
    · exact .inr (two_pow_le_roundTo (by decide) (by omega) h)
  refine ⟨_, ofRat_eq_num_of_lt ?_, hnear, hmoderate⟩
  rw [abs_of_nonneg hmoderate.nonneg]
  calc roundTo 53 (-1074) q ≤ (1 + unit) ^ 1 * q := hnear.2
    _ ≤ 2 * 2 ^ 1000 := by
        have hunit : (1 + unit) ^ 1 ≤ 2 := by decide +kernel
        exact mul_le_mul hunit hle h.nonneg zero_le_two
    _ < 2 ^ 1024 := by
        rw [← pow_succ']
        exact pow_lt_pow_right₀ one_lt_two (by decide)

end Mutated.Ports.Double
