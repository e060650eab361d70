import Mathlib.Data.List.TakeWhile
import Mutated.Ports.Coordinator

/-!
# What the coordinator gets

The coordinator counts in samples and the client in seconds.  `measureOne`
gives the number of samples as `-s`, and the client multiplies it by the rate.

## Main results

`agrees_iff` says when the two sides mean the same number.
-/

namespace Mutated.Ports

open Mutated.Verified.Exec
open Mutated.Verified.Rounding

/-! ## Numbers that are printed and read -/

theorem isDigit_of_mem {n : Nat} {ch : Char} (h : ch ∈ Nat.toDigits 10 n) :
    ch.isDigit = true :=
  Nat.isDigit_of_mem_toDigits (by decide) (by decide) h

theorem takeWhile_toDigits (n : Nat) :
    (Nat.toDigits 10 n).takeWhile Char.isDigit = Nat.toDigits 10 n :=
  List.takeWhile_eq_self_iff.mpr fun _ h => isDigit_of_mem h

theorem dropWhile_toDigits (n : Nat) :
    (Nat.toDigits 10 n).dropWhile Char.isDigit = [] :=
  List.dropWhile_eq_nil_iff.mpr fun _ h => isDigit_of_mem h

/-- A printed number begins with a digit. -/
theorem toDigits_eq_cons (n : Nat) : ∃ ch rest,
    Nat.toDigits 10 n = ch :: rest ∧ ch.isDigit = true := by
  cases hn : Nat.toDigits 10 n with
  | nil => exact absurd hn Nat.toDigits_ne_nil
  | cons ch rest =>
      exact ⟨ch, rest, rfl, isDigit_of_mem (hn ▸ List.mem_cons_self)⟩

theorem toNat_of_isDigit {ch : Char} (h : ch.isDigit = true) :
    48 ≤ ch.toNat ∧ ch.toNat ≤ 57 := by
  simpa [Char.isDigit, UInt32.le_iff_toNat_le] using h

theorem isSpace_of_isDigit {ch : Char} (h : ch.isDigit = true) :
    isSpace ch = false := by
  obtain ⟨hlow, -⟩ := toNat_of_isDigit h
  have hblank : ch ≠ ' ' := by
    rintro rfl
    cases h
  simp only [isSpace, hblank, decide_false, Bool.false_or,
    Bool.and_eq_false_iff, decide_eq_false_iff_not]
  omega

theorem toLower_of_isDigit {ch : Char} (h : ch.isDigit = true) :
    ch.toLower = ch := by
  obtain ⟨-, hhigh⟩ := toNat_of_isDigit h
  refine dif_neg fun hupper => ?_
  have hlow : 65 ≤ ch.toNat := UInt32.le_iff_toNat_le.mp hupper.1
  omega

theorem skipSpace_toDigits (n : Nat) :
    skipSpace (Nat.toDigits 10 n) = Nat.toDigits 10 n := by
  obtain ⟨ch, rest, hn, hdigit⟩ := toDigits_eq_cons n
  rw [hn, skipSpace, List.dropWhile_cons, isSpace_of_isDigit hdigit]
  rfl

theorem scanSign_toDigits (n : Nat) :
    scanSign (Nat.toDigits 10 n) = (false, Nat.toDigits 10 n) := by
  obtain ⟨ch, rest, hn, hdigit⟩ := toDigits_eq_cons n
  rw [hn]
  unfold scanSign
  split
  case h_1 heq => cases heq; cases hdigit
  case h_2 heq => cases heq; cases hdigit
  case h_3 => rfl

theorem atoi_toDigits (n : Nat) :
    atoi (Nat.toDigits 10 n) = (Int32.ofInt (min n (2 ^ 63 - 1))).toInt := by
  rw [atoi, strtol, skipSpace_toDigits, scanSign_toDigits]
  simp only [takeWhile_toDigits, Nat.ofDigitChars_ten_toDigits]
  rfl

theorem scanMagnitude_toDigits (n : Nat) :
    scanMagnitude (Nat.toDigits 10 n) = some (.ofRat n, false) := by
  obtain ⟨ch, rest, hn, hdigit⟩ := toDigits_eq_cons n
  have hall : ∀ c ∈ ch :: rest, c.isDigit = true := fun c hc =>
    isDigit_of_mem (n := n) (hn ▸ hc)
  rw [hn]
  unfold scanMagnitude
  split
  case h_1 heq => cases heq; cases hdigit
  case h_2 heq => cases heq; cases hdigit
  case h_3 heq =>
      cases heq
      exact absurd (hall 'x' (by simp)) (by decide)
  case h_4 =>
      rw [← hn]
      have hdigits : scanDigits Char.isDigit (Nat.toDigits 10 n) =
          (Nat.toDigits 10 n, [], []) := by
        rw [scanDigits, dropWhile_toDigits, takeWhile_toDigits]
      simp [hdigits, scanExponent, Nat.toDigits_ne_nil,
        Nat.ofDigitChars_ten_toDigits]

/-- `%20lf` of a number of up to twenty digits. -/
theorem scanLf_toDigits {n : Nat} (hn : n < 10 ^ 20) :
    scanLf (Nat.toDigits 10 n) = some (.ofRat n) := by
  have hlength : (Nat.toDigits 10 n).length ≤ 20 :=
    (Nat.length_toDigits_le_iff (by decide) (by decide)).mpr hn
  have hlower : (Nat.toDigits 10 n).map Char.toLower = Nat.toDigits 10 n :=
    (List.map_congr_left fun _ h => toLower_of_isDigit (isDigit_of_mem h)).trans
      (List.map_id _)
  rw [scanLf, skipSpace_toDigits, List.take_of_length_le hlength, scanDouble,
    scanSign_toDigits]
  simp only [hlower, scanMagnitude_toDigits]
  rfl

/-! ## What `getopt` leaves -/

theorem getopt_sublist (flags valued : List Char) (waits : Option Char)
    (args : List (List Char)) :
    (getopt flags valued waits args).2.Sublist args := by
  fun_induction getopt flags valued waits args with
  | case1 => exact .refl _
  | case2 => exact .refl _
  | case3 c arg args opts rest heq ih =>
      rw [heq] at ih
      exact ih.cons arg
  | case4 args => exact List.sublist_cons_self _ _
  | case5 c cs args hdash opts waits hcluster opts' rest heq ih =>
      rw [heq] at ih
      exact ih.cons _
  | case6 arg args hdash hopt opts rest heq ih =>
      rw [heq] at ih
      exact ih.cons_cons arg

/-- **All arguments are left** only if none of them is an option. -/
theorem getopt_all {flags valued : List Char} {args : List (List Char)}
    (h : args.length ≤ (getopt flags valued none args).2.length) :
    getopt flags valued none args = ([], args) := by
  generalize hwaits : none = waits at h ⊢
  fun_induction getopt flags valued waits args with
  | case1 => rfl
  | case2 => cases hwaits
  | case3 => cases hwaits
  | case4 args => exact absurd h (Nat.not_succ_le_self _)
  | case5 c cs args hdash opts waits hcluster opts' rest heq ih =>
      have hrest := (getopt_sublist flags valued waits args).length_le
      rw [heq] at hrest
      exact absurd (h.trans hrest) (Nat.not_succ_le_self _)
  | case6 arg args hdash hopt opts rest heq ih =>
      rw [heq] at ih
      have hall := ih rfl (Nat.le_of_succ_le_succ h)
      cases hall
      rfl

/-! ## Products of `double`s -/

/-- The nearest `double`, of any range. -/
abbrev nearest (q : ℚ) : ℚ := roundTo 53 (-1074) q

theorem nearest_natCast {n : Nat} (hn : n < 2 ^ 53) : nearest n = n :=
  roundTo_natCast (by decide) (by decide) hn

theorem natCast_le_nearest {n : Nat} {q : ℚ} (hn : n ≤ 2 ^ 53)
    (h : (n : ℚ) ≤ q) : (n : ℚ) ≤ nearest q :=
  natCast_le_roundTo (by decide) (by decide) hn h

theorem nearest_nonneg {q : ℚ} (h : 0 ≤ q) : 0 ≤ nearest q := by
  have hzero : ((0 : Nat) : ℚ) ≤ q := by exact_mod_cast h
  exact_mod_cast natCast_le_nearest (Nat.zero_le _) hzero

theorem two_pow_le_nearest {k : Nat} {q : ℚ} (h : (2 : ℚ) ^ k ≤ q) :
    (2 : ℚ) ^ k ≤ nearest q := by
  rw [← zpow_natCast] at h ⊢
  exact two_pow_le_roundTo (by decide) (by omega) h

theorem ofRat_eq_num {a x : ℚ} (h : Double.ofRat a = .num x) :
    x = nearest a := by
  unfold Double.ofRat at h
  dsimp only at h
  split at h
  · cases h
  · cases h
    rfl

/-- Only numbers have a product that is a number. -/
theorem mul_eq_num {u v : Double} {x : ℚ} (h : u.mul v = .num x) :
    ∃ a b, u = .num a ∧ v = .num b ∧ x = nearest (a * b) := by
  cases u with
  | num a =>
      cases v with
      | num b => exact ⟨a, b, rfl, rfl, ofRat_eq_num h⟩
      | inf negative =>
          rw [Double.mul] at h
          split at h <;> cases h
      | nan => cases h
  | inf negative =>
      cases v with
      | num b =>
          rw [Double.mul] at h
          split at h <;> cases h
      | inf negative' => cases h
      | nan => cases h
  | nan =>
      cases v <;> cases h

/-- A product that is in range is rounded twice. -/
theorem mul_toUInt64 {a b : ℚ} {n : UInt64}
    (h : ((Double.ofRat a).mul (.ofRat b)).toUInt64 = some n) :
    (n.toNat : Int) = Double.truncate (nearest (nearest a * nearest b)) := by
  obtain ⟨q, hmul, hn⟩ := toUInt64_eq_some_iff.mp h
  obtain ⟨x, y, hx, hy, rfl⟩ := mul_eq_num hmul
  rw [hn, ofRat_eq_num hx, ofRat_eq_num hy]

namespace Coord

open Mutated.Ports.Load

variable {c : Cfg}

/-! ## The process that is spawned -/

/-- The options of the process. -/
def spawnOpts (c : Cfg) : List Opt :=
  [('r', []), ('e', []), ('w', decimal c.timePad), ('c', decimal c.timePad),
    ('s', decimal c.samples), ('m', c.mode), ('d', c.dist),
    ('n', decimal c.conns)]

theorem scanArgs_spawnArgs (c : Cfg) :
    scanArgs .synthetic (spawnArgs c) =
      (spawnOpts c ++ (getopt "hrebz".toList "iwscWlmdn".toList none
          [c.host, decimal c.serviceTime, decimal c.reqsPerSec]).1,
        (getopt "hrebz".toList "iwscWlmdn".toList none
          [c.host, decimal c.serviceTime, decimal c.reqsPerSec]).2) := rfl

/-- The third argument is there only if none was taken for an option. -/
theorem scanArgs_of_rate {rate : List Char}
    (h : (scanArgs .synthetic (spawnArgs c)).2[2]? = some rate) :
    scanArgs .synthetic (spawnArgs c) =
      (spawnOpts c, [c.host, decimal c.serviceTime, decimal c.reqsPerSec]) := by
  have hall : getopt "hrebz".toList "iwscWlmdn".toList none
      [c.host, decimal c.serviceTime, decimal c.reqsPerSec] =
      ([], [c.host, decimal c.serviceTime, decimal c.reqsPerSec]) :=
    getopt_all (Nat.succ_le_of_lt (List.getElem?_eq_some_iff.mp h).1)
  rw [scanArgs_spawnArgs, hall, List.append_nil]

/-- The process, once it has drawn its schedule: a distribution of the times
between two requests needs a rate that is positive. -/
structure Spawned (c : Cfg) (e : Experiment) : Prop where
  parsed : parseArgv .synthetic (spawnArgs c) = .ok e.cfg
  paced : ∃ reqS, e.cfg.reqS = .num reqS ∧ 0 < reqS
  planned : ∃ d fuel,
    Schedule.setupDeadlines d e.cfg fuel = some e.plan.toSchedule

/-- **The `Config` of the process.** -/
theorem spawned_cfg {cfg : Config}
    (h : parseArgv .synthetic (spawnArgs c) = .ok cfg) :
    cfg.machineReadable = true ∧
      cfg.reqS = .ofRat c.reqsPerSec.toNat ∧
      ((Double.ofRat (sampleSeconds (spawnOpts c)).toNat).mul
        (.ofRat c.reqsPerSec.toNat)).toUInt64 = some cfg.samples := by
  have hret : ∀ success,
      parseArgv .synthetic (spawnArgs c) ≠ .error (.exit success) := by
    intro success hexit
    rw [h] at hexit
    cases hexit
  obtain ⟨cfg₀, host, rate, hparsed⟩ := parse_returns hret
  have hrate := hparsed.rateArg
  have hscan := scanArgs_of_rate hrate
  rw [hscan] at hrate
  cases hrate
  have hreqS : cfg₀.reqS = .ofRat c.reqsPerSec.toNat := by
    have hbound := c.reqsPerSec.toNat_lt
    have hread := hparsed.reqS
    rw [decimal, scanLf_toDigits (by omega)] at hread
    exact (Option.some_inj.mp hread).symm
  obtain ⟨n, hn, rfl⟩ := scaleSamples_ok.mp (hparsed.scaled.symm.trans h)
  rw [hparsed.seconds, hscan, hreqS] at hn
  refine ⟨?_, hreqS, hn⟩
  have happlied := hparsed.applied.machineReadable
  rw [hscan] at happlied
  exact happlied

/-! ## The seconds that become of the samples -/

/-- The low 32 bits are kept, and zero stands for the default. -/
def wrapped (c : Cfg) : Nat :=
  if c.samples.toNat % 2 ^ 32 = 0 then defaultSampleS.toNat
  else c.samples.toNat % 2 ^ 32

theorem toNat_sampleSeconds (c : Cfg) {z : Int}
    (hz : z = Int.bmod (min c.samples.toNat (2 ^ 63 - 1)) (2 ^ 32)) :
    (sampleSeconds (spawnOpts c)).toNat =
      if z = 0 then 10 else (z % 2 ^ 64).toNat := by
  have hatoi : atoi (decimal c.samples) = z := by
    rw [decimal, atoi_toDigits, Int32.toInt_ofInt, hz]
    rfl
  have hrange : -2 ^ 31 ≤ z ∧ z < 2 ^ 31 := by
    rw [hz, Int.bmod]
    split <;> omega
  show (if UInt64.ofInt (atoi (decimal c.samples)) = 0 then defaultSampleS
    else .ofInt (atoi (decimal c.samples))).toNat = _
  rw [hatoi]
  by_cases hzero : z = 0
  · rw [hzero]
    rfl
  · have hne : UInt64.ofInt z ≠ 0 := by
      intro heq
      have hnat := congrArg UInt64.toNat heq
      rw [toNat_ofInt] at hnat
      simp only [UInt64.toNat_zero] at hnat
      omega
    rw [if_neg hne, if_neg hzero, toNat_ofInt]

theorem sampleSeconds_wrapped (hsigned : c.samples.toNat < 2 ^ 63)
    (hlow : c.samples.toNat % 2 ^ 32 < 2 ^ 31) :
    (sampleSeconds (spawnOpts c)).toNat = wrapped c := by
  have hz : ((c.samples.toNat % 2 ^ 32 : Nat) : Int) =
      Int.bmod (min c.samples.toNat (2 ^ 63 - 1)) (2 ^ 32) := by
    rw [Int.bmod]
    omega
  rw [toNat_sampleSeconds c hz, wrapped]
  by_cases hzero : c.samples.toNat % 2 ^ 32 = 0
  · rw [hzero]
    rfl
  · rw [if_neg (by omega), if_neg hzero]
    omega

/-- A negative number of seconds is a large one. -/
theorem sampleSeconds_negative (hsigned : c.samples.toNat < 2 ^ 63)
    (hlow : 2 ^ 31 ≤ c.samples.toNat % 2 ^ 32) :
    2 ^ 63 ≤ (sampleSeconds (spawnOpts c)).toNat := by
  have hz : ((c.samples.toNat % 2 ^ 32 : Nat) : Int) - 2 ^ 32 =
      Int.bmod (min c.samples.toNat (2 ^ 63 - 1)) (2 ^ 32) := by
    rw [Int.bmod]
    omega
  rw [toNat_sampleSeconds c hz, if_neg (by omega)]
  omega

theorem sampleSeconds_saturated (hlarge : 2 ^ 63 ≤ c.samples.toNat) :
    (sampleSeconds (spawnOpts c)).toNat = 2 ^ 64 - 1 := by
  rw [toNat_sampleSeconds c rfl, Int.min_eq_right (by omega)]
  decide

/-! ## When the numbers agree -/

/-- **One request a second**, as long as `atoi` keeps the number of samples.
From there on the low 32 bits count, which the rate may happen to make up
for. -/
def Matched (c : Cfg) : Prop :=
  if c.samples.toNat < 2 ^ 31 then 0 < c.samples.toNat ∧ c.reqsPerSec.toNat = 1
  else c.samples.toNat < 2 ^ 63 ∧ c.samples.toNat % 2 ^ 32 < 2 ^ 31 ∧
    ⌊nearest (wrapped c * nearest c.reqsPerSec.toNat)⌋ = (c.samples.toNat : Int)

/-- The number of samples of a process. -/
theorem samples_eq_floor {cfg : Config}
    (h : parseArgv .synthetic (spawnArgs c) = .ok cfg) :
    (cfg.samples.toNat : Int) =
      ⌊nearest (nearest (sampleSeconds (spawnOpts c)).toNat *
        nearest c.reqsPerSec.toNat)⌋ := by
  obtain ⟨-, -, hscaled⟩ := spawned_cfg h
  have hpos : 0 ≤ nearest (nearest (sampleSeconds (spawnOpts c)).toNat *
      nearest c.reqsPerSec.toNat) :=
    nearest_nonneg (mul_nonneg (nearest_nonneg (Nat.cast_nonneg _))
      (nearest_nonneg (Nat.cast_nonneg _)))
  rw [mul_toUInt64 hscaled, Double.truncate, if_neg (not_lt.mpr hpos)]

/-- Few seconds are kept as they are. -/
theorem samples_eq_wrapped {cfg : Config}
    (h : parseArgv .synthetic (spawnArgs c) = .ok cfg)
    (hsigned : c.samples.toNat < 2 ^ 63)
    (hlow : c.samples.toNat % 2 ^ 32 < 2 ^ 31) :
    (cfg.samples.toNat : Int) =
      ⌊nearest (wrapped c * nearest c.reqsPerSec.toNat)⌋ := by
  have hsmall : wrapped c < 2 ^ 53 := by
    have hdefault : defaultSampleS.toNat = 10 := rfl
    rw [wrapped]
    split <;> omega
  rw [samples_eq_floor h, sampleSeconds_wrapped hsigned hlow,
    nearest_natCast hsmall]

/-- Many seconds make many samples. -/
theorem two_pow_le_samples {cfg : Config} {k : Nat}
    (h : parseArgv .synthetic (spawnArgs c) = .ok cfg)
    (hrate : 0 < c.reqsPerSec.toNat)
    (hmany : (2 : ℚ) ^ k ≤ nearest (sampleSeconds (spawnOpts c)).toNat) :
    2 ^ k ≤ cfg.samples.toNat := by
  have hone : (1 : ℚ) ≤ nearest c.reqsPerSec.toNat := by
    exact_mod_cast natCast_le_nearest (n := 1) (by decide)
      (Nat.cast_le.mpr hrate)
  have hpos : (0 : ℚ) ≤ 2 ^ k := pow_nonneg (by norm_num) k
  have hproduct := two_pow_le_nearest
    (hmany.trans (le_mul_of_one_le_right (hpos.trans hmany) hone))
  have hcast : ((2 ^ k : Nat) : Int) ≤ cfg.samples.toNat := by
    rw [samples_eq_floor h]
    exact Int.le_floor.mpr (by exact_mod_cast hproduct)
  exact_mod_cast hcast

/-- As long as `atoi` keeps the number, only one request a second is right. -/
theorem samples_eq_iff_of_small {cfg : Config}
    (h : parseArgv .synthetic (spawnArgs c) = .ok cfg)
    (hrate : 0 < c.reqsPerSec.toNat) (hsmall : c.samples.toNat < 2 ^ 31) :
    cfg.samples.toNat = c.samples.toNat ↔
      0 < c.samples.toNat ∧ c.reqsPerSec.toNat = 1 := by
  have hcount := samples_eq_wrapped h (by omega) (by omega)
  have hwrapped : wrapped c = if c.samples.toNat = 0 then 10
      else c.samples.toNat := by
    rw [wrapped, Nat.mod_eq_of_lt (by omega)]
    rfl
  have hbound : 0 < wrapped c ∧ c.samples.toNat ≤ wrapped c ∧
      wrapped c < 2 ^ 31 := by
    rw [hwrapped]
    split <;> omega
  by_cases hone : c.reqsPerSec.toNat = 1
  · have hexact : nearest (wrapped c * nearest (1 : Nat)) = wrapped c := by
      rw [nearest_natCast (by decide), Nat.cast_one, mul_one,
        nearest_natCast (by omega)]
    rw [hone, hexact, Int.floor_natCast] at hcount
    rw [hwrapped] at hcount
    split at hcount <;> omega
  · have htwo : ((2 : Nat) : ℚ) ≤ nearest c.reqsPerSec.toNat :=
      natCast_le_nearest (by decide) (Nat.cast_le.mpr (by omega))
    have hdouble : ((wrapped c * 2 : Nat) : ℚ) ≤
        wrapped c * nearest c.reqsPerSec.toNat := by
      rw [Nat.cast_mul]
      exact mul_le_mul_of_nonneg_left htwo (Nat.cast_nonneg _)
    have hfloor : ((wrapped c * 2 : Nat) : Int) ≤ cfg.samples.toNat := by
      rw [hcount]
      exact Int.le_floor.mpr (by
        exact_mod_cast natCast_le_nearest (by omega) hdouble)
    omega

/-- **The process measures what was asked for** exactly if the numbers
agree. -/
theorem samples_eq_iff {cfg : Config}
    (h : parseArgv .synthetic (spawnArgs c) = .ok cfg)
    (hrate : 0 < c.reqsPerSec.toNat) :
    cfg.samples.toNat = c.samples.toNat ↔ Matched c := by
  rw [Matched]
  by_cases hsmall : c.samples.toNat < 2 ^ 31
  · rw [if_pos hsmall]
    exact samples_eq_iff_of_small h hrate hsmall
  · rw [if_neg hsmall]
    by_cases hlarge : 2 ^ 63 ≤ c.samples.toNat
    · have hmany := two_pow_le_samples (k := 64) h hrate (by
        rw [sampleSeconds_saturated hlarge]
        decide +kernel)
      have hlt := cfg.samples.toNat_lt
      omega
    · by_cases hlow : 2 ^ 31 ≤ c.samples.toNat % 2 ^ 32
      · have hmany := two_pow_le_samples (k := 63) h hrate
          (two_pow_le_nearest (by
            exact_mod_cast sampleSeconds_negative (by omega) hlow))
        omega
      · rw [← samples_eq_wrapped h (by omega) (by omega)]
        omega

/-! ## Main results -/

/-- **The two sides agree**: as many requests are measured as `measureOne`
asked for, the client prints the rate and a line for each, and `measureOne`
stores them all. -/
structure Agrees (c : Cfg) (core : Core) : Prop where
  measured : (donesOf core.log).countP (·.measure) = c.samples.toNat
  printed : ∃ (reqps : ℚ) (us : List UInt64),
    core.output = .rate reqps :: us.map .sample ∧ us.length = c.samples.toNat
  stored : ∃ r, measureOne c core.output = .ok r ∧
    r.samples = stored core.results.service.samples

/-- The schedule has as many measured requests as there are samples. -/
theorem Spawned.measureSamples {e : Experiment} (h : Spawned c e) :
    e.plan.measureSamples = e.cfg.samples.toNat := by
  obtain ⟨d, fuel, hplan⟩ := h.planned
  simp only [Schedule.setupDeadlines, Option.bind_eq_bind,
    Option.bind_eq_some_iff, Option.pure_def, Option.some.injEq] at hplan
  obtain ⟨b₁, -, b₂, -, b₃, -, hschedule⟩ := hplan
  rw [← hschedule]

theorem Spawned.rate_pos {e : Experiment} (h : Spawned c e) :
    0 < c.reqsPerSec.toNat := by
  obtain ⟨reqS, hreqS, hpos⟩ := h.paced
  obtain ⟨-, hrate, -⟩ := spawned_cfg h.parsed
  rw [ofRat_eq_num (hrate.symm.trans hreqS)] at hpos
  by_contra hzero
  rw [Nat.eq_zero_of_not_pos hzero, nearest_natCast (by decide)] at hpos
  exact absurd hpos (by norm_num)

/-- **The sample counts agree** in every run that exits exactly if the numbers
match and every sample fits in what is read. -/
theorem agrees_iff {e : Experiment} (h : Spawned c e) {clock : Int}
    {calls : List Experiment.Call} {k : Client}
    (hrun : e.run calls (Experiment.new clock) = .error .exit k) :
    Agrees c k.core ↔
      Matched c ∧ ∀ us ∈ k.core.results.service.samples, us.toNat < 2 ^ 31 := by
  obtain ⟨hraw, -, -⟩ := spawned_cfg h.parsed
  obtain ⟨hmeasured, hlength, houtput⟩ := Experiment.run_output hraw hrun
  have hmatched := samples_eq_iff h.parsed h.rate_pos
  rw [h.measureSamples] at hmeasured hlength
  have hstored : (∃ r, measureOne c k.core.lines = .ok r ∧
      r.samples = stored k.core.results.service.samples) ↔ _ :=
    measureOne_samples_iff
  rw [hlength, hmatched] at hstored
  constructor
  · intro hagrees
    obtain ⟨r, hr, hall⟩ := hagrees.stored
    rw [houtput] at hr
    exact hstored.mp ⟨r, hr, hall⟩
  · rintro ⟨hmatch, hsmall⟩
    have hsame := hmatched.mpr hmatch
    refine ⟨hmeasured.trans hsame, ⟨_, _, houtput, hlength.trans hsame⟩, ?_⟩
    rw [houtput]
    exact hstored.mpr ⟨hmatch, hsmall⟩

/-! ## Small measurements -/

/-- A measurement without padding. -/
private def asking (samples reqsPerSec : UInt64) : Cfg where
  samples := samples
  reqsPerSec := reqsPerSec
  conns := 1
  timePad := 0
  mode := "round_robin".toList
  dist := "exp".toList
  host := "10.0.0.1:80".toList
  serviceTime := 1

/-- What the client makes of it: two requests at `reqS` a second, each answered
at once, after a microsecond. -/
private def askedTwice (reqS : ℚ) : Experiment where
  cfg := {
    addr := "10.0.0.1".toList
    port := 80
    serviceUs := .num 1
    reqS := .num reqS
    warmupSeconds := 0
    cooldownSeconds := 0
    samples := 2
    machineReadable := true
    useEpollSpin := true
    connCnt := 1 }
  plan := .measuring 0 [1000]
  net := fun i => ⟨[⟨i, 1000, 0, 0, 0, 1⟩], 1, 0, false⟩
  beyond := fun _ => 0

/-- The client at the end. -/
private def askedRun (reqS : ℚ) : EStateM.Result Stop Client Unit :=
  (askedTwice reqS).run [.wait 1000, .timer] (Experiment.new 0)

/-- Two samples at one request a second. -/
theorem agrees_iff_twice :
    Spawned (asking 2 1) (askedTwice 1) ∧
      Agrees (asking 2 1) (after (askedRun 1)).core := by
  have hspawned : Spawned (asking 2 1) (askedTwice 1) :=
    ⟨by decide +kernel, ⟨1, rfl, by norm_num⟩, fun n => 1000 * n, 3,
      by decide +kernel⟩
  have hrun : askedRun 1 = .error .exit (after (askedRun 1)) := rfl
  have hsamples : (after (askedRun 1)).core.results.service.samples =
    [0, 0] := rfl
  refine ⟨hspawned, (agrees_iff hspawned hrun).mpr ⟨?_, ?_⟩⟩
  · rw [Matched, if_pos (by decide)]
    decide
  · rw [hsamples]
    simp

/-- One sample at two requests a second: two are measured and printed, and one
is read. -/
theorem not_agrees_twice :
    Spawned (asking 1 2) (askedTwice 2) ∧
      askedRun 2 = .error .exit (after (askedRun 2)) ∧
      (donesOf (after (askedRun 2)).core.log).countP (·.measure) = 2 ∧
      (∃ reqps, measureOne (asking 1 2) (after (askedRun 2)).core.output =
        .ok ⟨2, reqps, [0]⟩) ∧
      ¬ Agrees (asking 1 2) (after (askedRun 2)).core :=
  ⟨⟨by decide +kernel, ⟨2, rfl, by norm_num⟩, fun n => 1000 * n, 3,
      by decide +kernel⟩, rfl, by decide, ⟨_, rfl⟩,
    fun hagrees => absurd hagrees.measured (by decide)⟩

end Coord

end Mutated.Ports
