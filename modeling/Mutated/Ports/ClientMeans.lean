import Mutated.Ports.Client
import Mutated.Ports.Doubles

/-!
# The means that are printed

`Accum::mean` adds up the samples in `double`, each divided by their number
before.  It rounds twice for every sample and once for every sum, so the more
samples there are the more is lost.

## Main results

`mean_close`: the relative error is about `2 ^ -52` for each sample.
-/

namespace Mutated.Ports.Load

open Mutated.Verified.RelativeErrors
open Mutated.Ports.Double

/-- A step of the loop of `mean`. -/
def meanStep (sz avg : Double) (i : UInt64) : Double :=
  avg.add ((ofRat i.toNat).div sz)

/-- `mean`. -/
def Accum.mean (a : Accum) : Double :=
  a.samples.foldl (meanStep (ofRat a.size)) (.num 0)

/-- The sum of samples. -/
def sumOf (us : List UInt64) : Nat := (us.map fun v => v.toNat).sum

/-! ## One sample -/

variable {n : Nat}

/-- **A sample** is rounded twice. -/
theorem div_near (hn : 0 < n) (hfew : n < 2 ^ 53) (v : UInt64) :
    ∃ t, (ofRat v.toNat).div (ofRat n) = .num t ∧
      Near unit 2 t (v.toNat / n) ∧ Moderate (-53) t := by
  have hlt : (v.toNat : ℚ) ≤ 2 ^ 64 := by exact_mod_cast v.toNat_lt.le
  have hone : (1 : ℚ) ≤ n := Nat.one_le_cast.mpr hn
  have hpos : (0 : ℚ) < n := one_pos.trans_le hone
  obtain ⟨x, hx, hnear, hmoderate⟩ := ofRat_moderate (by decide)
    (moderate_natCast v.toNat)
    (hlt.trans (pow_le_pow_right₀ one_le_two (by decide)))
  have hbound : x ≤ 2 * 2 ^ 64 :=
    hnear.2.trans (mul_le_mul (by decide +kernel) hlt (Nat.cast_nonneg _)
      zero_le_two)
  have hquotient : Moderate (-53) (x / n) := by
    rcases hmoderate with rfl | hmoderate
    · exact .inl (zero_div _)
    · refine .inr ((le_div_iff₀ hpos).mpr (le_trans ?_ hmoderate))
      have hle : (n : ℚ) ≤ 2 ^ 53 := by exact_mod_cast hfew.le
      calc (2 : ℚ) ^ (-53 : ℤ) * n ≤ 2 ^ (-53 : ℤ) * 2 ^ 53 :=
            mul_le_mul_of_nonneg_left hle (zpow_pos two_pos _).le
        _ = 2 ^ (0 : ℤ) := by norm_num
  obtain ⟨t, ht, hround, hmoderate'⟩ := ofRat_moderate (by decide) hquotient
    ((div_le_self hmoderate.nonneg hone).trans (hbound.trans (by
      rw [← pow_succ']
      exact pow_le_pow_right₀ one_le_two (by decide))))
  refine ⟨t, ?_, (hnear.div hpos.le).trans hround unit_nonneg unit_le_one,
    hmoderate'⟩
  rw [hx, ofRat_natCast hfew, div, if_neg hpos.ne', ht]

/-- **A step**: when `k` samples that sum up to `s` were added, the next one
adds a rounding. -/
theorem meanStep_near (hn : 0 < n) (hfew : n + 2 ≤ 2 ^ 52) {k s : Nat} {a : ℚ}
    (hk : k < n) (hs : s ≤ k * 2 ^ 64) (h : Near unit (k + 2) a (s / n))
    (hmoderate : Moderate (-53) a) (v : UInt64) :
    ∃ b, meanStep (ofRat n) (.num a) v = .num b ∧
      Near unit (k + 1 + 2) b ((s + v.toNat : Nat) / n) ∧
      Moderate (-53) b := by
  have hpos : (0 : ℚ) < n := Nat.cast_pos.mpr hn
  obtain ⟨t, ht, hnear, hmoderate'⟩ := div_near hn (by omega) v
  have hexact : ((s + v.toNat : Nat) : ℚ) / n ≤ 2 ^ 64 := by
    have hv := v.toNat_lt
    rw [div_le_iff₀ hpos]
    exact_mod_cast (show s + v.toNat ≤ 2 ^ 64 * n by
      have hle : (k + 1) * 2 ^ 64 ≤ n * 2 ^ 64 := Nat.mul_le_mul_right _ hk
      omega)
  have hsum : Near unit (k + 2) (a + t) ((s + v.toNat : Nat) / n) := by
    rw [Nat.cast_add, add_div]
    exact h.add (hnear.mono unit_nonneg unit_le_one (by positivity) (by omega))
  have hpow : (1 + unit) ^ (k + 2) ≤ 2 := by
    refine (one_add_pow_le unit_nonneg unit_le_one
      (mul_unit_le (by omega))).trans ?_
    have hroundings := mul_unit_le (k := k + 2) (by omega)
    linarith
  obtain ⟨b, hb, hround, hmoderate''⟩ := ofRat_moderate (by decide)
    (hmoderate.add hmoderate') (hsum.2.trans
      ((mul_le_mul hpow hexact (by positivity) zero_le_two).trans (by
        rw [← pow_succ']
        exact pow_le_pow_right₀ one_le_two (by decide))))
  refine ⟨b, ?_, ?_, hmoderate''⟩
  · rw [meanStep, ht]
    exact hb
  · have htrans := hsum.trans hround unit_nonneg unit_le_one
    rwa [Nat.add_right_comm] at htrans

/-! ## The loop -/

/-- **All samples**, by induction on those that are left. -/
theorem foldl_meanStep_near (hn : 0 < n) (hfew : n + 2 ≤ 2 ^ 52)
    (us : List UInt64) : ∀ {k s : Nat} {a : ℚ}, k + us.length ≤ n →
    s ≤ k * 2 ^ 64 → Near unit (k + 2) a (s / n) → Moderate (-53) a →
    ∃ m, us.foldl (meanStep (ofRat n)) (.num a) = .num m ∧
      Near unit (k + us.length + 2) m ((s + sumOf us : Nat) / n) := by
  induction us with
  | nil =>
      intro k s a hk hs h hmoderate
      exact ⟨a, rfl, h⟩
  | cons v us ih =>
      intro k s a hk hs h hmoderate
      have hv := v.toNat_lt
      rw [List.length_cons] at hk
      obtain ⟨b, hb, hnear, hmoderate'⟩ := meanStep_near hn hfew (by omega) hs h
        hmoderate v
      obtain ⟨m, hm, hclose⟩ := ih (k := k + 1) (s := s + v.toNat)
        (by omega) (by omega) hnear hmoderate'
      refine ⟨m, ?_, ?_⟩
      · rw [List.foldl_cons, hb, hm]
      · rw [List.length_cons, sumOf, List.map_cons, List.sum_cons]
        rw [sumOf] at hclose
        rwa [show k + (us.length + 1) = k + 1 + us.length by omega,
          ← Nat.add_assoc s]

/-! ## Main results -/

/-- **The mean** is as exact as so many roundings allow, in whatever order the
samples are. -/
theorem mean_close {a : Accum} (hsome : 0 < a.size)
    (hfew : a.size + 2 ≤ 2 ^ 52) :
    ∃ m, a.mean = .num m ∧
      |m - sumOf a.samples / a.size| ≤
        (a.size + 2) / 2 ^ 52 * (sumOf a.samples / a.size) := by
  obtain ⟨m, hm, hnear⟩ := foldl_meanStep_near hsome hfew a.samples
    (k := 0) (s := 0) (a := 0) (by rw [Nat.zero_add]; rfl) (Nat.zero_le _)
    (by rw [Nat.cast_zero, zero_div]; exact .zero _ _) (.inl rfl)
  rw [Nat.zero_add, Nat.zero_add] at hnear
  refine ⟨m, hm, ?_⟩
  refine (hnear.abs_sub_le unit_nonneg unit_le_one (mul_unit_le hfew)
    (by positivity)).trans_eq ?_
  rw [unit, Accum.size]
  push_cast
  ring

/-- Three samples, whose mean is no `double`. -/
theorem mean_close_three : ∃ m,
    Accum.mean ⟨[5, 6, 9], true⟩ = .num m ∧
      |m - sumOf [5, 6, 9] / Accum.size ⟨[5, 6, 9], true⟩| ≤
        (Accum.size ⟨[5, 6, 9], true⟩ + 2) / 2 ^ 52 *
          (sumOf [5, 6, 9] / Accum.size ⟨[5, 6, 9], true⟩) :=
  mean_close (a := ⟨[5, 6, 9], true⟩) (by decide) (by decide)

end Mutated.Ports.Load
