import Mathlib.Algebra.Order.Floor.Ring
import Mathlib.Data.Int.Log
import Mathlib.Data.Rat.Floor

/-!
# Rounding to a binary format

`roundTo prec emin q` is the number of a binary format that is nearest to `q`,
and of two that are equally near the one that is even: numbers of at most
`prec` digits whose last digit is not below `2 ^ emin`.  The range of the
format is left to the caller.

A number is rounded without crossing a natural number of at most `prec`
digits, because the format has it.  This is what `natCast_le_roundTo` and
`roundTo_le_natCast` say.
-/

namespace Mutated.Verified.Rounding

/-- The nearest integer, halves to the even one. -/
def halfEven (q : ℚ) : ℤ :=
  let n := ⌊q⌋
  if q - n < 1 / 2 then n
  else if 1 / 2 < q - n then n + 1
  else if n % 2 = 0 then n else n + 1

theorem halfEven_cases (q : ℚ) : halfEven q = ⌊q⌋ ∨
    halfEven q = ⌊q⌋ + 1 ∧ (⌊q⌋ : ℚ) < q := by
  unfold halfEven
  by_cases hlow : q - ⌊q⌋ < 1 / 2
  · exact .inl (if_pos hlow)
  · have hlt : (⌊q⌋ : ℚ) < q := by linarith
    rw [if_neg hlow]
    split
    · exact .inr ⟨rfl, hlt⟩
    · split
      · exact .inl rfl
      · exact .inr ⟨rfl, hlt⟩

theorem le_halfEven {q : ℚ} {z : ℤ} (h : (z : ℚ) ≤ q) : z ≤ halfEven q := by
  have hfloor := Int.le_floor.mpr h
  rcases halfEven_cases q with heq | ⟨heq, -⟩ <;> omega

theorem halfEven_le {q : ℚ} {z : ℤ} (h : q ≤ z) : halfEven q ≤ z := by
  rcases halfEven_cases q with heq | ⟨heq, hlt⟩
  · rw [heq]
    exact_mod_cast (Int.floor_le q).trans h
  · rw [heq]
    exact_mod_cast hlt.trans_le h

variable (prec : ℕ) (emin : ℤ)

/-- The exponent of the last digit of `q` in the format. -/
def lastExp (q : ℚ) : ℤ := max (Int.log 2 |q| + 1 - prec) emin

def roundTo (q : ℚ) : ℚ :=
  halfEven (q / 2 ^ lastExp prec emin q) * 2 ^ lastExp prec emin q

variable {prec emin} {q : ℚ}

/-- What is a multiple of the last digit is not crossed. -/
theorem mul_le_roundTo {z : ℤ} (h : z * 2 ^ lastExp prec emin q ≤ q) :
    z * 2 ^ lastExp prec emin q ≤ roundTo prec emin q := by
  have hpos : (0 : ℚ) < 2 ^ lastExp prec emin q := zpow_pos two_pos _
  refine mul_le_mul_of_nonneg_right ?_ hpos.le
  exact_mod_cast le_halfEven ((le_div_iff₀ hpos).mpr h)

theorem roundTo_le_mul {z : ℤ} (h : q ≤ z * 2 ^ lastExp prec emin q) :
    roundTo prec emin q ≤ z * 2 ^ lastExp prec emin q := by
  have hpos : (0 : ℚ) < 2 ^ lastExp prec emin q := zpow_pos two_pos _
  refine mul_le_mul_of_nonneg_right ?_ hpos.le
  exact_mod_cast halfEven_le ((div_le_iff₀ hpos).mpr h)

/-- A natural number is a multiple of a last digit that is not above one. -/
theorem natCast_eq_mul {e : ℤ} (he : e ≤ 0) (n : ℕ) :
    (n : ℚ) = ((n * 2 ^ (-e).toNat : ℕ) : ℤ) * 2 ^ e := by
  have hcancel : (2 : ℚ) ^ (-e).toNat * 2 ^ e = 1 := by
    rw [← zpow_natCast, ← zpow_add₀ two_ne_zero,
      show ((-e).toNat : ℤ) + e = 0 by omega, zpow_zero]
  push_cast
  rw [mul_assoc, hcancel, mul_one]

/-- The last digit is above one only for large numbers. -/
theorem two_pow_le_of_lastExp (hprec : 0 < prec) (hmin : emin ≤ 0)
    (hq : 0 ≤ q) (he : 0 < lastExp prec emin q) :
    (2 : ℚ) ^ prec ≤ (2 ^ (prec - 1) : ℤ) * 2 ^ lastExp prec emin q ∧
      (2 ^ (prec - 1) : ℤ) * 2 ^ lastExp prec emin q ≤ q := by
  have hexp : lastExp prec emin q = Int.log 2 q + 1 - prec := by
    rw [lastExp, abs_of_nonneg hq] at he ⊢
    omega
  have hlog : (prec : ℤ) ≤ Int.log 2 q := by omega
  have hpos : 0 < q := by
    refine hq.lt_of_ne ?_
    rintro rfl
    rw [Int.log_zero_right] at hlog
    omega
  have htop : ((2 ^ (prec - 1) : ℤ) : ℚ) * 2 ^ lastExp prec emin q =
      2 ^ Int.log 2 q := by
    rw [Int.cast_pow, Int.cast_ofNat, ← zpow_natCast,
      ← zpow_add₀ two_ne_zero, hexp]
    congr 1
    omega
  rw [htop]
  refine ⟨?_, ?_⟩
  · rw [← zpow_natCast]
    exact zpow_le_zpow_right₀ one_le_two hlog
  · exact_mod_cast Int.zpow_log_le_self one_lt_two hpos

/-- **A natural number is not crossed** on the way down. -/
theorem natCast_le_roundTo (hprec : 0 < prec) (hmin : emin ≤ 0) {n : ℕ}
    (hn : n ≤ 2 ^ prec) (h : (n : ℚ) ≤ q) : (n : ℚ) ≤ roundTo prec emin q := by
  rcases le_or_gt (lastExp prec emin q) 0 with he | he
  · rw [natCast_eq_mul he n] at h ⊢
    exact mul_le_roundTo h
  · obtain ⟨hlarge, hle⟩ := two_pow_le_of_lastExp hprec hmin
      (n.cast_nonneg.trans h) he
    have hn : (n : ℚ) ≤ 2 ^ prec := by exact_mod_cast hn
    exact hn.trans (hlarge.trans (mul_le_roundTo hle))

/-- Nor on the way up. -/
theorem roundTo_le_natCast (hprec : 0 < prec) (hmin : emin ≤ 0) {n : ℕ}
    (hn : n < 2 ^ prec) (hq : 0 ≤ q) (h : q ≤ n) :
    roundTo prec emin q ≤ n := by
  have he : lastExp prec emin q ≤ 0 := by
    by_contra he
    obtain ⟨hlarge, hle⟩ := two_pow_le_of_lastExp hprec hmin hq
      (not_le.mp he)
    have hn : (n : ℚ) < 2 ^ prec := by exact_mod_cast hn
    exact absurd (hlarge.trans (hle.trans h)) (not_le.mpr hn)
  rw [natCast_eq_mul he n] at h ⊢
  exact roundTo_le_mul h

/-- **Nor is a power of two**, of any size. -/
theorem two_pow_le_roundTo (hprec : 0 < prec) {k : ℤ} (hk : emin ≤ k)
    (h : (2 : ℚ) ^ k ≤ q) : (2 : ℚ) ^ k ≤ roundTo prec emin q := by
  have hpos : 0 < q := (zpow_pos two_pos k).trans_le h
  have hlog : k ≤ Int.log 2 q := (Int.zpow_le_iff_le_log one_lt_two hpos).mp
    (by exact_mod_cast h)
  -- a power of two that is a multiple of the last digit
  have hmul : ∀ {j : ℤ}, lastExp prec emin q ≤ j → (2 : ℚ) ^ j ≤ q →
      (2 : ℚ) ^ j ≤ roundTo prec emin q := by
    intro j hj hle
    have hsplit : ((2 ^ (j - lastExp prec emin q).toNat : ℤ) : ℚ) *
        2 ^ lastExp prec emin q = 2 ^ j := by
      rw [Int.cast_pow, Int.cast_ofNat, ← zpow_natCast,
        ← zpow_add₀ two_ne_zero]
      congr 1
      omega
    rw [← hsplit] at hle ⊢
    exact mul_le_roundTo hle
  rcases le_or_gt (lastExp prec emin q) k with hlast | hlast
  · exact hmul hlast h
  · have hexp : lastExp prec emin q = Int.log 2 q + 1 - prec := by
      rw [lastExp, abs_of_pos hpos] at hlast ⊢
      omega
    have htop : (2 : ℚ) ^ Int.log 2 q ≤ q := by
      exact_mod_cast Int.zpow_log_le_self one_lt_two hpos
    exact (zpow_le_zpow_right₀ one_le_two hlog).trans
      (hmul (by omega) htop)

theorem halfEven_mono {q q' : ℚ} (h : q ≤ q') : halfEven q ≤ halfEven q' := by
  rcases (Int.floor_mono h).lt_or_eq with hlt | heq
  · have hle : halfEven q ≤ ⌊q⌋ + 1 := by
      rcases halfEven_cases q with heq | ⟨heq, -⟩ <;> omega
    exact hle.trans (hlt.trans_le (le_halfEven (Int.floor_le q')))
  · unfold halfEven
    rw [← heq]
    dsimp only
    split_ifs <;> first | omega | linarith

theorem roundTo_zero (prec : ℕ) (emin : ℤ) : roundTo prec emin 0 = 0 := by
  simp [roundTo, halfEven]

/-- **Rounding keeps the order.** -/
theorem roundTo_mono {q q' : ℚ} (hprec : 0 < prec) (hq : 0 ≤ q)
    (h : q ≤ q') : roundTo prec emin q ≤ roundTo prec emin q' := by
  have hpow (e : ℤ) : (0 : ℚ) < 2 ^ e := zpow_pos two_pos e
  rcases hq.eq_or_lt with rfl | hpos
  · rw [roundTo_zero]
    have hnone : ((0 : ℤ) : ℚ) * 2 ^ lastExp prec emin q' ≤ q' := by
      simpa using h
    simpa using mul_le_roundTo hnone
  have hpos' := hpos.trans_le h
  have hlog : Int.log 2 q ≤ Int.log 2 q' := Int.log_mono_right hpos h
  have hlast : lastExp prec emin q = max (Int.log 2 q + 1 - prec) emin := by
    rw [lastExp, abs_of_pos hpos]
  have hlast' : lastExp prec emin q' = max (Int.log 2 q' + 1 - prec) emin := by
    rw [lastExp, abs_of_pos hpos']
  have hexp : lastExp prec emin q ≤ lastExp prec emin q' := by omega
  rcases hexp.eq_or_lt with heq | hlt
  · rw [roundTo, roundTo, heq]
    refine mul_le_mul_of_nonneg_right ?_ (hpow _).le
    exact_mod_cast halfEven_mono (div_le_div_of_nonneg_right h (hpow _).le)
  · -- a power of two lies between the two numbers
    have hbelow : q ≤ 2 ^ Int.log 2 q' := by
      have hnext : q < ((2 : ℕ) : ℚ) ^ (Int.log 2 q + 1) :=
        Int.lt_zpow_succ_log_self one_lt_two q
      rw [Nat.cast_ofNat] at hnext
      exact hnext.le.trans (zpow_le_zpow_right₀ one_le_two (by omega))
    have hsplit : ((2 ^ (Int.log 2 q' - lastExp prec emin q).toNat : ℤ) : ℚ) *
        2 ^ lastExp prec emin q = 2 ^ Int.log 2 q' := by
      rw [Int.cast_pow, Int.cast_ofNat, ← zpow_natCast,
        ← zpow_add₀ two_ne_zero]
      congr 1
      omega
    have hround : roundTo prec emin q ≤ 2 ^ Int.log 2 q' := by
      rw [← hsplit] at hbelow ⊢
      exact roundTo_le_mul hbelow
    refine hround.trans (two_pow_le_roundTo hprec (by omega) ?_)
    exact_mod_cast Int.zpow_log_le_self one_lt_two hpos'

/-- **The format has it.** -/
theorem roundTo_natCast (hprec : 0 < prec) (hmin : emin ≤ 0) {n : ℕ}
    (hn : n < 2 ^ prec) : roundTo prec emin n = n :=
  le_antisymm (roundTo_le_natCast hprec hmin hn n.cast_nonneg le_rfl)
    (natCast_le_roundTo hprec hmin hn.le le_rfl)

theorem abs_halfEven_sub_le (q : ℚ) : |(halfEven q : ℚ) - q| ≤ 1 / 2 := by
  have hfloor := Int.floor_le q
  have hnext := Int.lt_floor_add_one q
  unfold halfEven
  dsimp only
  rw [abs_le]
  split_ifs <;> push_cast <;> constructor <;> linarith

/-- **The relative error** of a number that is not too small. -/
theorem abs_roundTo_sub_le (hq : 0 ≤ q)
    (hnormal : q = 0 ∨ (2 : ℚ) ^ (emin + prec) ≤ q) :
    |roundTo prec emin q - q| ≤ 1 / 2 ^ prec * q := by
  rcases hnormal with rfl | hnormal
  · simp [roundTo_zero]
  have hpos : 0 < q := (zpow_pos two_pos _).trans_le hnormal
  have hlog : emin + prec ≤ Int.log 2 q :=
    (Int.zpow_le_iff_le_log one_lt_two hpos).mp (by exact_mod_cast hnormal)
  have hexp : lastExp prec emin q = Int.log 2 q - prec + 1 := by
    rw [lastExp, abs_of_pos hpos]
    omega
  have hdigit : (0 : ℚ) < 2 ^ lastExp prec emin q := zpow_pos two_pos _
  have htop : (2 : ℚ) ^ Int.log 2 q ≤ q := by
    exact_mod_cast Int.zpow_log_le_self one_lt_two hpos
  calc |roundTo prec emin q - q|
      = |(halfEven (q / 2 ^ lastExp prec emin q) : ℚ) -
          q / 2 ^ lastExp prec emin q| * 2 ^ lastExp prec emin q := by
        rw [← abs_of_pos hdigit, ← abs_mul, abs_of_pos hdigit, sub_mul,
          div_mul_cancel₀ q hdigit.ne', roundTo]
    _ ≤ 1 / 2 * 2 ^ lastExp prec emin q :=
        mul_le_mul_of_nonneg_right (abs_halfEven_sub_le _) hdigit.le
    _ = 1 / 2 ^ prec * 2 ^ Int.log 2 q := by
        rw [hexp, zpow_add_one₀ two_ne_zero, zpow_sub₀ two_ne_zero,
          zpow_natCast]
        ring
    _ ≤ 1 / 2 ^ prec * q :=
        mul_le_mul_of_nonneg_left htop (by positivity)

/-- The nearest double to a tenth. -/
example : roundTo 53 (-1074) (1 / 10) = 3602879701896397 / 2 ^ 55 := by
  decide +kernel

end Mutated.Verified.Rounding
