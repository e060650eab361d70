import Mathlib.Algebra.Group.Nat.Defs
import Mathlib.Data.Nat.Basic

/-!
# Numbers of a fixed number of digits

`padded k n` are the first `k` characters of the decimal digits of `n`, which
are padded with zeros to at least `k`.  A number of more than `k` digits is
cut; what is left is its `lead`.
-/

namespace Mutated.Verified.Decimal

/-- The first `k` digits of `n`, which has at least `k` with the zeros in front
of it. -/
def padded (k n : Nat) : List Char :=
  (List.replicate (k - (Nat.toDigits 10 n).length) '0' ++
    Nat.toDigits 10 n).take k

/-- The number that the first `k` digits of `n` stand for. -/
def lead (k n : Nat) : Nat := n / 10 ^ ((Nat.toDigits 10 n).length - k)

@[simp] theorem length_padded (k n : Nat) : (padded k n).length = k := by
  simp only [padded, List.length_take, List.length_append,
    List.length_replicate]
  omega

theorem toNat_lt_of_mem_padded {k n : Nat} {c : Char}
    (h : c ∈ padded k n) : c.toNat < 256 := by
  rcases List.mem_append.mp (List.mem_of_mem_take h) with hzero | hdigit
  · rw [List.eq_of_mem_replicate hzero]
    decide
  · have hdigit := Nat.isDigit_of_mem_toDigits (by decide) (by decide) hdigit
    simp only [Char.isDigit, Bool.and_eq_true, decide_eq_true_eq] at hdigit
    have hle : c.toNat ≤ 57 := hdigit.2
    omega

/-- A number below `10 ^ k` has at most `k` digits, except for zero. -/
theorem length_toDigits_le {k n : Nat} (hk : 0 < k) :
    (Nat.toDigits 10 n).length ≤ k ↔ n < 10 ^ k :=
  Nat.length_toDigits_le_iff (by decide) hk

/-- **The number is read back** from its digits when it has at most `k`. -/
theorem padded_inj {k m n : Nat} (hm : m < 10 ^ k) (hn : n < 10 ^ k) :
    padded k m = padded k n ↔ m = n := by
  rcases Nat.eq_zero_or_pos k with rfl | hk
  · have hzero : m = n := by omega
    exact iff_of_true (by rw [hzero]) hzero
  have hvalue : ∀ n, n < 10 ^ k →
      Nat.ofDigitChars 10 (padded k n) 0 = n := by
    intro n hn
    have hlen := (length_toDigits_le hk).mpr hn
    rw [padded, List.take_of_length_le (by
      rw [List.length_append, List.length_replicate]; omega),
      Nat.ofDigitChars_append, Nat.ofDigitChars_replicate_zero, Nat.mul_zero,
      Nat.ofDigitChars_ten_toDigits]
  constructor
  · intro heq
    rw [← hvalue m hm, heq, hvalue n hn]
  · exact fun heq => by rw [heq]

/-- A number of more than `k` digits, without the last one. -/
theorem length_toDigits_div {k n : Nat} (hn : 10 ^ k ≤ n) (hk : 0 < k) :
    (Nat.toDigits 10 n).length = (Nat.toDigits 10 (n / 10)).length + 1 ∧
      k ≤ (Nat.toDigits 10 (n / 10)).length := by
  have hpow : 10 ^ 1 ≤ 10 ^ k := Nat.pow_le_pow_right (by decide) hk
  have hsplit := Nat.toDigits_of_base_le (b := 10) (n := n) (by decide)
    (by omega)
  have hmore : ¬ (Nat.toDigits 10 n).length ≤ k := by
    rw [length_toDigits_le hk]
    omega
  rw [hsplit, List.length_append, List.length_singleton] at hmore ⊢
  exact ⟨rfl, by omega⟩

/-- The last digit of a number with more than `k` digits is cut. -/
theorem padded_div {k n : Nat} (hn : 10 ^ k ≤ n) :
    padded k (n / 10) = padded k n := by
  rcases Nat.eq_zero_or_pos k with rfl | hk
  · simp [padded]
  have hpow : 10 ^ 1 ≤ 10 ^ k := Nat.pow_le_pow_right (by decide) hk
  obtain ⟨hlen, hlong⟩ := length_toDigits_div hn hk
  rw [padded, padded, hlen, Nat.sub_eq_zero_of_le hlong,
    Nat.sub_eq_zero_of_le (by omega), List.replicate_zero, List.nil_append,
    List.nil_append, Nat.toDigits_of_base_le (n := n) (by decide) (by omega),
    List.take_append_of_le_length hlong]

theorem lead_div {k n : Nat} (hn : 10 ^ k ≤ n) (hk : 0 < k) :
    lead k (n / 10) = lead k n := by
  obtain ⟨hlen, hlong⟩ := length_toDigits_div hn hk
  rw [lead, lead, hlen, Nat.succ_sub hlong, Nat.div_div_eq_div_mul,
    Nat.pow_succ']

theorem lead_of_lt {k n : Nat} (hn : n < 10 ^ k) (hk : 0 < k) :
    lead k n = n := by
  rw [lead, Nat.sub_eq_zero_of_le ((length_toDigits_le hk).mpr hn),
    Nat.pow_zero, Nat.div_one]

/-- **What is left of a number** has `k` digits and is the number that they
stand for. -/
theorem lead_spec {k : Nat} (hk : 0 < k) (n : Nat) :
    lead k n < 10 ^ k ∧ padded k n = padded k (lead k n) := by
  induction n using Nat.strong_induction_on with
  | h n ih =>
      rcases Nat.lt_or_ge n (10 ^ k) with hlt | hge
      · rw [lead_of_lt hlt hk]
        exact ⟨hlt, rfl⟩
      · have hpos : 0 < 10 ^ k := Nat.pow_pos (by decide)
        obtain ⟨hlead, heq⟩ := ih (n / 10) (by omega)
        rw [lead_div hge hk] at hlead heq
        exact ⟨hlead, (padded_div hge).symm.trans heq⟩

/-- **Two numbers are printed alike** when their leading digits are the
same. -/
theorem padded_eq_iff {k m n : Nat} (hk : 0 < k) :
    padded k m = padded k n ↔ lead k m = lead k n := by
  obtain ⟨hm, hm'⟩ := lead_spec hk m
  obtain ⟨hn, hn'⟩ := lead_spec hk n
  rw [hm', hn', padded_inj hm hn]

theorem ten_pow_eq {k : Nat} (hk : 0 < k) : 10 ^ k = 10 * 10 ^ (k - 1) := by
  cases k with
  | zero => exact absurd hk (Nat.lt_irrefl 0)
  | succ k => exact Nat.pow_succ'

/-- The leading digits of a power of ten. -/
theorem lead_pow {k : Nat} (hk : 0 < k) : lead k (10 ^ k) = 10 ^ (k - 1) := by
  have hdiv : 10 ^ k / 10 = 10 ^ (k - 1) := by
    rw [ten_pow_eq hk]
    exact Nat.mul_div_cancel_left _ (by decide)
  rw [← lead_div (Nat.le_refl _) hk, hdiv]
  exact lead_of_lt (Nat.pow_lt_pow_right (by decide) (by omega)) hk

/-- Two long numbers that only differ in the last digit. -/
theorem lead_eq_of_div_eq {k m n : Nat} (hk : 0 < k) (hm : 10 ^ k ≤ m)
    (hn : 10 ^ k ≤ n) (hdiv : m / 10 = n / 10) : lead k m = lead k n := by
  rw [← lead_div hm hk, ← lead_div hn hk, hdiv]

/-- **Two long numbers in a row** lead with other digits when the second one
ends in as many zeros as are cut. -/
theorem lead_succ_ne_iff {k : Nat} (hk : 0 < k) (n : Nat)
    (hn : 10 ^ k ≤ n) : lead k n ≠ lead k (n + 1) ↔
      10 ^ ((Nat.toDigits 10 n).length - k) ∣ n + 1 := by
  induction n using Nat.strong_induction_on with
  | h n ih =>
      have hpos : 0 < 10 ^ k := Nat.pow_pos (by decide)
      obtain ⟨hlen, hlong⟩ := length_toDigits_div hn hk
      rw [hlen, Nat.succ_sub hlong, Nat.pow_succ']
      by_cases hlast : (n + 1) % 10 = 0
      · have hnext : n + 1 = 10 * (n / 10 + 1) := by omega
        have hdiv : (n + 1) / 10 = n / 10 + 1 := by omega
        rw [← lead_div hn hk, ← lead_div (show 10 ^ k ≤ n + 1 by omega) hk,
          hdiv, hnext, Nat.mul_dvd_mul_iff_left (by decide)]
        rcases Nat.lt_or_ge (n / 10) (10 ^ k) with hlt | hge
        · rw [Nat.sub_eq_zero_of_le ((length_toDigits_le hk).mpr hlt),
            Nat.pow_zero, lead_of_lt hlt hk]
          refine iff_of_true ?_ (Nat.one_dvd _)
          rcases Nat.lt_or_ge (n / 10 + 1) (10 ^ k) with hlt' | hge'
          · rw [lead_of_lt hlt' hk]
            omega
          · rw [show n / 10 + 1 = 10 ^ k by omega, lead_pow hk]
            have hten := ten_pow_eq hk
            omega
        · exact ih _ (by omega) hge
      · refine iff_of_false (not_not_intro ?_) fun hdvd => hlast ?_
        · exact lead_eq_of_div_eq hk hn (by omega) (by omega)
        · exact Nat.mod_eq_zero_of_dvd
            (Nat.dvd_trans (Nat.dvd_mul_right 10 _) hdvd)

end Mutated.Verified.Decimal
