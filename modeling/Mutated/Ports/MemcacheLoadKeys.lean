import Mathlib.Data.Nat.Log
import Mutated.Ports.MemcacheLoad
import Mutated.Verified.Decimal

/-!
# The keys of the loader

The loader prints its sequence numbers with as many digits as a key has bytes.
A number with more digits is cut, and then two numbers may have the same key.

`Config::Config` only looks at the number of keys: it wants at least
`uint64_t(log10(keys))` digits.  That is one digit less than the number itself
has, and the first sequence number is not looked at.

* `atoi` gives numbers of keys whose logarithm a `double` keeps apart from the
  next integer.  The logarithm of zero, which is not an integer, is taken to
  be zero; then there are no keys.
* `snprintf` prints nothing when a width is more than `INT_MAX`.

## Main results

`stored_iff` says for which configurations all keys are different.
-/

namespace Mutated.Ports

open Mutated.Verified.Decimal

/-! ## Printed keys -/

/-- A key is the first digits of its number. -/
theorem formatKey_eq (keysize id : Nat) :
    formatKey keysize id =
      (padded keysize id).map fun c => c.toNat.toUInt8 := by
  simp only [formatKey, padded, List.map_take, List.map_append,
    List.map_replicate, List.length_map]
  rfl

/-- The digits can be read off the bytes. -/
theorem formatKey_eq_iff {k m n : Nat} :
    formatKey k m = formatKey k n ↔ padded k m = padded k n := by
  have hread : ∀ n, (formatKey k n).map (fun b => Char.ofNat b.toNat) =
      padded k n := by
    intro n
    rw [formatKey_eq, List.map_map]
    refine (List.map_congr_left fun c hc => ?_).trans (List.map_id _)
    have hlt := toNat_lt_of_mem_padded hc
    show Char.ofNat (c.toNat.toUInt8).toNat = c
    rw [Nat.toUInt8, UInt8.toNat_ofNat', Nat.mod_eq_of_lt hlt, Char.ofNat_toNat]
  constructor
  · intro heq
    rw [← hread m, heq, hread]
  · intro heq
    rw [formatKey_eq, formatKey_eq, heq]

/-! ## Numbers in a row -/

/-- The `i`-th number from `a` on, with 64 bits. -/
def numberAt (a i : Nat) : Nat := (a + i) % 2 ^ 64

/-- Two or more numbers, `n` from `a` on, with different leading digits.  They
have at most `k` digits, except for three kinds of rows:

* the last number alone is one digit too long, and `1`, `10`, ..., which it is
  cut to, comes before the first one;
* there are two numbers, and the second one ends in zeros where it is cut;
* the first one is the last one that has 64 bits, and the others, which start
  at zero again, stay below what it is cut to. -/
def Apart (k a n : Nat) : Prop :=
  20 ≤ k ∨ a + n ≤ 10 ^ k ∨
    (a + n = 10 ^ k + 1 ∧ 10 ^ (k - 1) < a) ∨
    (n = 2 ∧ 10 ^ k ≤ a ∧ a + 1 < 2 ^ 64 ∧
      10 ^ ((Nat.toDigits 10 a).length - k) ∣ a + 1) ∨
    (a = 2 ^ 64 - 1 ∧ n - 1 ≤ (2 ^ 64 - 1) / 10 ^ (20 - k))

section Rows

variable {k a n : Nat}

theorem numberAt_of_lt {i : Nat} (h : a + i < 2 ^ 64) : numberAt a i = a + i :=
  Nat.mod_eq_of_lt h

theorem numberAt_last (i : Nat) (hi : i < 2 ^ 64 - 1) :
    numberAt (2 ^ 64 - 1) (i + 1) = i := by
  rw [numberAt, show 2 ^ 64 - 1 + (i + 1) = i + 2 ^ 64 by omega,
    Nat.add_mod_right]
  exact Nat.mod_eq_of_lt (by omega)

theorem ten_pow_lt (hk : k < 20) : 10 ^ k < 2 ^ 64 - 1 :=
  Nat.lt_of_le_of_lt (Nat.pow_le_pow_right (by decide) (show k ≤ 19 by omega))
    (by decide)

/-- The last number of 64 bits. -/
theorem lead_last (k : Nat) :
    lead k (2 ^ 64 - 1) = (2 ^ 64 - 1) / 10 ^ (20 - k) := by
  have hlen : (Nat.toDigits 10 (2 ^ 64 - 1)).length = 20 := by decide
  rw [lead, hlen]

/-- Numbers that have at most `k` digits. -/
private theorem distinct_of_short (hk : 0 < k)
    (hshort : ∀ i, i < n → numberAt a i < 10 ^ k) (hn : n < 2 ^ 64) (i j : Nat)
    (hij : i < j) (hj : j < n) :
    lead k (numberAt a i) ≠ lead k (numberAt a j) := by
  rw [lead_of_lt (hshort i (by omega)) hk, lead_of_lt (hshort j hj) hk]
  unfold numberAt
  omega

/-- **Rows with different leading digits.** -/
theorem Apart.distinct (h : Apart k a n) (hk : 0 < k) (hn : n < 2 ^ 64)
    (i j : Nat) (hij : i < j) (hj : j < n) :
    lead k (numberAt a i) ≠ lead k (numberAt a j) := by
  rcases Nat.lt_or_ge k 20 with hlt | hge
  swap
  · refine distinct_of_short hk (fun i _ => ?_) hn i j hij hj
    have hpow : 10 ^ 20 ≤ 10 ^ k := Nat.pow_le_pow_right (by decide) hge
    have hbits : numberAt a i < 2 ^ 64 := Nat.mod_lt _ (by decide)
    omega
  have hpow := ten_pow_lt hlt
  rcases h with hlong | hfit | ⟨hsum, hfirst⟩ | ⟨rfl, hge, hbits, hdvd⟩ |
    ⟨rfl, hle⟩
  · omega
  · refine distinct_of_short hk (fun i hi => ?_) hn i j hij hj
    rw [numberAt_of_lt (by omega)]
    omega
  · by_cases hlast : j + 1 = n
    · rw [numberAt_of_lt (by omega), numberAt_of_lt (by omega),
        show a + j = 10 ^ k by omega, lead_pow hk,
        lead_of_lt (by omega) hk]
      omega
    · refine distinct_of_short (n := n - 1) hk (fun i hi => ?_) (by omega) i j
        hij (by omega)
      rw [numberAt_of_lt (by omega)]
      omega
  · obtain rfl : i = 0 := by omega
    obtain rfl : j = 1 := by omega
    rw [numberAt_of_lt hbits, numberAt_of_lt (by omega), Nat.add_zero]
    exact (lead_succ_ne_iff hk a hge).mpr hdvd
  · have hcut := (lead_spec hk (2 ^ 64 - 1)).1
    have hlast := lead_last k
    rw [hlast] at hcut
    generalize (2 ^ 64 - 1) / 10 ^ (20 - k) = top at *
    obtain ⟨j, rfl⟩ : ∃ j', j = j' + 1 := ⟨j - 1, by omega⟩
    have hsecond : lead k j = j := lead_of_lt (by omega) hk
    rw [numberAt_last j (by omega), hsecond]
    cases i with
    | zero =>
        rw [numberAt_of_lt (by decide), Nat.add_zero, hlast]
        omega
    | succ i =>
        rw [numberAt_last i (by omega), lead_of_lt (by omega) hk]
        omega

/-- Three long numbers in a row are too many. -/
private theorem collide_of_three (hk : 0 < k) {m : Nat} (hm : 10 ^ k ≤ m) :
    lead k m = lead k (m + 1) ∨ lead k (m + 1) = lead k (m + 2) := by
  by_cases hlast : (m + 1) % 10 = 0
  · exact .inr (lead_eq_of_div_eq hk (by omega) (by omega) (by omega))
  · exact .inl (lead_eq_of_div_eq hk hm (by omega) (by omega))

/-- **A row with different leading digits** is one of those. -/
theorem Apart.of_distinct (hk : 0 < k) (ha : a < 2 ^ 64) (hn : n < 2 ^ 64)
    (hone : 1 < n) (h : ∀ i j, i < j → j < n →
      lead k (numberAt a i) ≠ lead k (numberAt a j)) : Apart k a n := by
  by_contra hnot
  simp only [Apart, not_or, not_and] at hnot
  obtain ⟨hlt, hfit, hsum, htwo, hwrap⟩ := hnot
  have hpow := ten_pow_lt (show k < 20 by omega)
  rcases Nat.lt_or_ge (2 ^ 64) (a + n) with hover | hbits
  · by_cases hlast : a = 2 ^ 64 - 1
    · -- the number that the last one is cut to comes again
      have hcut := (lead_spec hk (2 ^ 64 - 1)).1
      have hmore := hwrap hlast
      have hlead := lead_last k
      rw [hlead] at hcut
      generalize (2 ^ 64 - 1) / 10 ^ (20 - k) = top at *
      refine h 0 (top + 1) (by omega) (by omega) ?_
      rw [hlast, numberAt_last _ (by omega), lead_of_lt hcut hk,
        numberAt_of_lt (by decide)]
      exact hlead
    · refine h (2 ^ 64 - 2 - a) (2 ^ 64 - 1 - a) (by omega) (by omega) ?_
      rw [numberAt_of_lt (by omega), numberAt_of_lt (by omega)]
      exact lead_eq_of_div_eq hk (by omega) (by omega) (by omega)
  have hpair : ∀ m, a ≤ m → m + 1 < a + n → lead k m ≠ lead k (m + 1) := by
    intro m hle hlt'
    have hdiff := h (m - a) (m + 1 - a) (by omega) (by omega)
    rwa [numberAt_of_lt (by omega), numberAt_of_lt (by omega),
      Nat.add_sub_cancel' hle, Nat.add_sub_cancel' (by omega)] at hdiff
  by_cases hthree : a + 2 < a + n ∧ 10 ^ k + 2 < a + n
  · rcases collide_of_three hk (show 10 ^ k ≤ a + n - 3 by omega) with heq | heq
    · exact hpair _ (by omega) (by omega) heq
    · exact hpair _ (by omega) (by omega) heq
  have hten := ten_pow_eq hk
  rcases Nat.lt_trichotomy (a + n) (10 ^ k + 2) with hless | hsame | hmore
  · -- the last number is cut to one that was there
    have hstart := hsum (by omega)
    refine h (10 ^ (k - 1) - a) (n - 1) (by omega) (by omega) ?_
    rw [numberAt_of_lt (by omega), numberAt_of_lt (by omega),
      show a + (10 ^ (k - 1) - a) = 10 ^ (k - 1) by omega,
      show a + (n - 1) = 10 ^ k by omega, lead_pow hk]
    exact lead_of_lt (by omega) hk
  · refine hpair (10 ^ k) (by omega) (by omega) ?_
    exact lead_eq_of_div_eq hk (Nat.le_refl _) (by omega) (by omega)
  · refine htwo (by omega) (by omega) (by omega) ?_
    exact (lead_succ_ne_iff hk a (by omega)).mp
      (hpair a (Nat.le_refl _) (by omega))

end Rows

namespace MemcacheLoad

/-- `INT_MAX`. -/
def intMax : Nat := 2147483647

/-- What `next_key` prints. -/
def printKey (cfg : Config) (seqid : UInt64) : Option (List UInt8) :=
  if cfg.keysize ≤ intMax then some (nextKey cfg seqid) else none

/-- The check of `Config::Config`.  Without keys the source converts `log10(0)`,
which is minus infinity, to an integer.  That is undefined: on x86-64 the check
fails, while here it passes. -/
def Config.Admitted (cfg : Config) : Prop :=
  ¬ cfg.keysize < Nat.log 10 cfg.toload.toNat

/-- The sequence number of the `i`-th set. -/
def Config.id (cfg : Config) (i : Nat) : UInt64 :=
  cfg.startid + UInt64.ofNat i

/-- **All keys are stored**: each has the size of a key, and no two are the
same. -/
structure Stored (cfg : Config) : Prop where
  sized : ∀ i, i < cfg.toload.toNat → ∃ key,
    printKey cfg (cfg.id i) = some key ∧ key.length = cfg.keysize
  distinct : ∀ i j, i < j → j < cfg.toload.toNat →
    printKey cfg (cfg.id i) ≠ printKey cfg (cfg.id j)

variable {cfg : Config}

theorem id_toNat {i : Nat} (hi : i < 2 ^ 64) :
    (cfg.id i).toNat = numberAt cfg.startid.toNat i := by
  rw [Config.id, UInt64.toNat_add, UInt64.toNat_ofNat', Nat.mod_eq_of_lt hi]
  rfl

/-- Two keys are the same when the leading digits of their numbers are. -/
theorem printKey_eq_iff (hsize : cfg.keysize ≤ intMax)
    (hpos : 0 < cfg.keysize) {i j : Nat} (hi : i < 2 ^ 64) (hj : j < 2 ^ 64) :
    printKey cfg (cfg.id i) = printKey cfg (cfg.id j) ↔
      lead cfg.keysize (numberAt cfg.startid.toNat i) =
        lead cfg.keysize (numberAt cfg.startid.toNat j) := by
  rw [printKey, printKey, if_pos hsize, if_pos hsize, Option.some.injEq,
    nextKey, nextKey, formatKey_eq_iff, padded_eq_iff hpos, id_toNat hi,
    id_toNat hj]

/-- **All keys are stored** for exactly these configurations. -/
theorem stored_iff (cfg : Config) :
    Stored cfg ↔ cfg.toload.toNat = 0 ∨ (cfg.keysize ≤ intMax ∧
      (cfg.toload.toNat ≤ 1 ∨ (0 < cfg.keysize ∧
        Apart cfg.keysize cfg.startid.toNat cfg.toload.toNat))) := by
  have hbits := cfg.toload.toNat_lt
  constructor
  · intro h
    rcases Nat.eq_zero_or_pos cfg.toload.toNat with hnone | hsome
    · exact .inl hnone
    have hsize : cfg.keysize ≤ intMax := by
      obtain ⟨key, hkey, -⟩ := h.sized 0 hsome
      by_contra hlarge
      rw [printKey, if_neg hlarge] at hkey
      cases hkey
    refine .inr ⟨hsize, ?_⟩
    rcases Nat.lt_or_ge 1 cfg.toload.toNat with htwo | hone
    swap
    · exact .inl hone
    rcases Nat.eq_zero_or_pos cfg.keysize with hzero | hpos
    · refine absurd ?_ (h.distinct 0 1 Nat.one_pos htwo)
      simp [printKey, nextKey, formatKey, hzero]
    · refine .inr ⟨hpos, .of_distinct hpos cfg.startid.toNat_lt hbits htwo
        fun i j hij hj heq => h.distinct i j hij hj ?_⟩
      exact (printKey_eq_iff hsize hpos (by omega) (by omega)).mpr heq
  · rintro (hnone | ⟨hsize, happart⟩)
    · exact ⟨fun i hi => by omega, fun i j hij hj => by omega⟩
    refine ⟨fun i _ => ⟨_, if_pos hsize, length_formatKey _ _⟩,
      fun i j hij hj heq => ?_⟩
    rcases happart with hone | ⟨hpos, happart⟩
    · omega
    · exact happart.distinct hpos hbits i j hij hj
        ((printKey_eq_iff hsize hpos (by omega) (by omega)).mp heq)

/-- Ten keys of one byte, from number 1 on, are admitted; the tenth is the
first one again. -/
theorem not_stored_ten : ∃ cfg : Config, cfg.toload = 10 ∧ cfg.keysize = 1 ∧
    cfg.startid = 1 ∧ cfg.Admitted ∧
    printKey cfg (cfg.id 9) = printKey cfg (cfg.id 0) ∧ ¬ Stored cfg := by
  have hsame : printKey ⟨10, 1, 1, 1, 100, 25⟩ 1 =
      printKey ⟨10, 1, 1, 1, 100, 25⟩ 10 := by decide
  refine ⟨⟨10, 1, 1, 1, 100, 25⟩, rfl, rfl, rfl, ?_, hsame.symm, ?_⟩
  · show ¬ 1 < Nat.log 10 10
    decide
  · exact fun h => h.distinct 0 9 (by decide) (by decide) hsame

end MemcacheLoad

end Mutated.Ports
