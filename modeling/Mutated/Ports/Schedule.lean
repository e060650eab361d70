import Mathlib.Algebra.BigOperators.Intervals
import Mathlib.Algebra.Order.BigOperators.Group.Finset
import Mathlib.Algebra.Order.Floor.Ring
import Mathlib.Data.Int.ConditionallyCompleteOrder
import Mathlib.Data.Rat.Floor
import Mutated.Ports.Opts
import Mutated.Verified.Loops

/-!
# The schedule of an experiment

`setup_deadlines` draws the times between two requests and adds them up, in
three loops that share one sum: until the warm-up time is over, for every
sample, and until the cool-down time is over.  The deadlines are the sums,
rounded up to nanoseconds.

* `d n` is the `n`-th value of the exponential distribution.  It is drawn in
  exact arithmetic.
* The test of a loop may be made `fuel` times.

## Main results

`setupDeadlines_schedule` says what the three loops make of any draws that are
not negative, and `setupDeadlines_ends` when they end.
-/

namespace Mutated.Ports

open Mutated.Verified.Loops
open Finset (range sum_range_succ)

/-- Nanoseconds in a second. -/
def nsec : Int := 1000000000

/-- `std::chrono::seconds`, in nanoseconds. -/
def seconds (s : UInt64) : Int := s.toInt64.toInt * nsec

/-- The deadlines, and how many of them belong to which phase. -/
structure Schedule where
  deadlines : List Int
  preSamples : Nat
  measureSamples : Nat
  postSamples : Nat
  totalSamples : Nat
  deriving DecidableEq, Repr

namespace Schedule

/-! ## `setup_deadlines` -/

/-- The locals of `setup_deadlines`, and what it has filled. -/
structure Building where
  accum : ℚ
  pos : Nat
  deadlines : List Int

section Model

variable (d : Nat → ℚ)

/-- The body of the three loops. -/
def Building.draw (b : Building) : Building :=
  let accum := b.accum + d b.pos
  ⟨accum, b.pos + 1, b.deadlines ++ [⌈accum⌉]⟩

/-- `setup_deadlines`. -/
def setupDeadlines (cfg : Config) (fuel : Nat) : Option Schedule := do
  -- generate warm-up samples
  let b ← iterWhile (fun b => ⌈b.accum⌉ < seconds cfg.warmupSeconds)
    (Building.draw d) fuel ⟨0, 0, []⟩
  let preSamples := b.pos
  -- generate measurement samples
  let b ← iterWhile (fun b => b.pos - preSamples < cfg.samples.toNat)
    (Building.draw d) fuel b
  let measureSamples := cfg.samples.toNat
  -- generate cool-down samples
  let coolstart := ⌈b.accum⌉
  let b ← iterWhile
    (fun b => ⌈b.accum⌉ - coolstart < seconds cfg.cooldownSeconds)
    (Building.draw d) fuel b
  pure ⟨b.deadlines, preSamples, measureSamples,
    b.pos - preSamples - measureSamples, b.pos⟩

end Model

/-! ## The sums -/

variable {d : Nat → ℚ}

/-- The sum of the first `n` draws, rounded up. -/
def ceilSum (d : Nat → ℚ) (n : Nat) : Int := ⌈∑ i ∈ range n, d i⌉

/-- What `setup_deadlines` has built after `n` draws. -/
def built (d : Nat → ℚ) (n : Nat) : Building :=
  ⟨∑ i ∈ range n, d i, n, (List.range n).map fun k => ceilSum d (k + 1)⟩

theorem draw_built (n : Nat) : (built d n).draw d = built d (n + 1) := by
  simp only [Building.draw, built, ← sum_range_succ, List.range_succ,
    List.map_append, List.map_cons, List.map_nil, ceilSum]

/-- **Every loop draws on** from where the loop before it stopped. -/
theorem draws_built (n k : Nat) :
    (Building.draw d)^[k] (built d n) = built d (n + k) := by
  induction k with
  | zero => rfl
  | succ k ih =>
      rw [Function.iterate_succ_apply', ih, draw_built]
      rfl

theorem ceilSum_mono (hd : ∀ n, 0 ≤ d n) : Monotone (ceilSum d) :=
  fun _ _ hle => Int.ceil_le_ceil (Finset.sum_le_sum_of_subset_of_nonneg
    (Finset.range_subset_range.mpr hle) fun i _ _ => hd i)

/-- A loop that ends has drawn until its condition failed for the first
time. -/
theorem iterWhile_built {cond : Building → Prop} [DecidablePred cond]
    {fuel n : Nat} {b : Building}
    (h : iterWhile cond (Building.draw d) fuel (built d n) = some b) :
    ∃ k, b = built d (n + k) ∧
      IsLeast {k | ¬ cond (built d (n + k))} k := by
  obtain ⟨k, rfl, hleast⟩ := iterWhile_spec h
  simp only [draws_built] at hleast ⊢
  exact ⟨k, rfl, hleast⟩

theorem iterWhile_built_ends (cond : Building → Prop) [DecidablePred cond]
    {n k fuel : Nat} (hstop : ¬ cond (built d (n + k))) (hfuel : k < fuel) :
    ∃ b, iterWhile cond (Building.draw d) fuel (built d n) = some b := by
  rw [← draws_built] at hstop
  exact iterWhile_ends hstop hfuel

/-! ## Main results -/

/-- **The schedule that was asked for**, made of the draws `d`. -/
structure Made (cfg : Config) (d : Nat → ℚ) (s : Schedule) : Prop where
  sorted : s.deadlines.Pairwise (· ≤ ·)
  deadline : ∀ k, k < s.totalSamples →
    s.deadlines[k]? = some ⌈∑ i ∈ range (k + 1), d i⌉
  length : s.deadlines.length = s.totalSamples
  total : s.totalSamples = s.preSamples + s.measureSamples + s.postSamples
  measure : s.measureSamples = cfg.samples.toNat
  pre : IsLeast {k | seconds cfg.warmupSeconds ≤ ceilSum d k} s.preSamples
  post : IsLeast {k | ceilSum d (s.preSamples + s.measureSamples) +
    seconds cfg.cooldownSeconds ≤
      ceilSum d (s.preSamples + s.measureSamples + k)} s.postSamples

/-- The middle loop makes one draw for each sample. -/
private theorem measure_eq {pre samples k : Nat}
    (h : IsLeast {k | ¬ pre + k - pre < samples} k) : k = samples := by
  have hstop : ¬ pre + k - pre < samples := h.1
  have hleast := h.2 (show ¬ pre + samples - pre < samples by omega)
  omega

/-- **The schedule**, for all draws that are not negative. -/
theorem setupDeadlines_schedule {cfg : Config} (hd : ∀ n, 0 ≤ d n)
    {fuel : Nat} {s : Schedule}
    (h : setupDeadlines d cfg fuel = some s) : Made cfg d s := by
  simp only [setupDeadlines, Option.bind_eq_bind, Option.bind_eq_some_iff,
    Option.pure_def, Option.some.injEq] at h
  obtain ⟨b₁, hwarm, b₂, hsample, b₃, hcool, rfl⟩ := h
  obtain ⟨pre, rfl, hpre⟩ := iterWhile_built (n := 0) hwarm
  obtain ⟨measure, rfl, hmeasure⟩ := iterWhile_built hsample
  obtain ⟨post, rfl, hpost⟩ := iterWhile_built hcool
  rw [Nat.zero_add] at hmeasure hpost ⊢
  have hmeasure := measure_eq hmeasure
  subst hmeasure
  simp only [built, Nat.zero_add, not_lt] at hpre hpost
  have hlength : ∀ n, ((List.range n).map fun k => ceilSum d (k + 1)).length =
      n := fun n => by rw [List.length_map, List.length_range]
  refine ⟨?_, fun k hk => ?_, hlength _, ?_, rfl, hpre, ?_⟩
  · refine List.pairwise_map.mpr (List.pairwise_lt_range.imp fun hlt => ?_)
    exact ceilSum_mono hd (Nat.succ_le_succ (Nat.le_of_lt hlt))
  · exact (List.getElem?_map ..).trans
      (congrArg (Option.map _) (List.getElem?_range hk))
  · show pre + cfg.samples.toNat + post = pre + cfg.samples.toNat +
      (pre + cfg.samples.toNat + post - pre - cfg.samples.toNat)
    omega
  · show IsLeast _ (pre + cfg.samples.toNat + post - pre - cfg.samples.toNat)
    rw [show pre + cfg.samples.toNat + post - pre - cfg.samples.toNat = post
      by omega]
    simpa only [built, ceilSum, le_sub_iff_add_le'] using hpost

/-- **The loops end** when the draws reach the warm-up time and, after the
samples, the cool-down time. -/
theorem setupDeadlines_ends {cfg : Config} {pre post : Nat}
    (hpre : IsLeast {k | seconds cfg.warmupSeconds ≤ ceilSum d k} pre)
    (hpost : ceilSum d (pre + cfg.samples.toNat) +
      seconds cfg.cooldownSeconds ≤
        ceilSum d (pre + cfg.samples.toNat + post))
    {fuel : Nat} (hfuel : pre + cfg.samples.toNat + post < fuel) :
    ∃ s, setupDeadlines d cfg fuel = some s := by
  obtain ⟨b₁, hwarm⟩ := iterWhile_built_ends (d := d) (n := 0) (k := pre)
    (fun b => ⌈b.accum⌉ < seconds cfg.warmupSeconds)
    (by
      rw [Nat.zero_add]
      exact not_lt.mpr hpre.1) (show pre < fuel by omega)
  obtain ⟨pre', rfl, hleast⟩ := iterWhile_built hwarm
  simp only [Nat.zero_add, built, not_lt] at hleast
  obtain rfl := hleast.unique hpre
  rw [Nat.zero_add] at hwarm
  obtain ⟨b₂, hsample⟩ := iterWhile_built_ends (d := d) (n := pre')
    (k := cfg.samples.toNat) (fun b => b.pos - pre' < cfg.samples.toNat)
    (by
      show ¬ pre' + cfg.samples.toNat - pre' < cfg.samples.toNat
      omega) (show cfg.samples.toNat < fuel by omega)
  obtain ⟨measure, rfl, hmeasure⟩ := iterWhile_built hsample
  obtain rfl := measure_eq hmeasure
  obtain ⟨b₃, hcool⟩ := iterWhile_built_ends (d := d)
    (n := pre' + cfg.samples.toNat) (k := post)
    (fun b => ⌈b.accum⌉ - ceilSum d (pre' + cfg.samples.toNat) <
      seconds cfg.cooldownSeconds)
    (by
      show ¬ ceilSum d (pre' + cfg.samples.toNat + post) -
        ceilSum d (pre' + cfg.samples.toNat) < seconds cfg.cooldownSeconds
      omega) (show post < fuel by omega)
  exact ⟨_, Option.bind_eq_some_iff.mpr ⟨_, hwarm,
    Option.bind_eq_some_iff.mpr ⟨_, hsample,
      Option.bind_eq_some_iff.mpr ⟨_, hcool, rfl⟩⟩⟩⟩

/-- Draws of a second and a half, for one second of warm-up, two samples and
two seconds of cool-down. -/
theorem setupDeadlines_schedule_slow : ∃ s,
    setupDeadlines (fun _ => 1500000000)
      { warmupSeconds := 1, samples := 2, cooldownSeconds := 2 } 3 = some s ∧
    s.totalSamples = 5 ∧
    Made { warmupSeconds := 1, samples := 2, cooldownSeconds := 2 }
      (fun _ => 1500000000) s := by
  have hrun : setupDeadlines (fun _ => 1500000000)
      { warmupSeconds := 1, samples := 2, cooldownSeconds := 2 } 3 =
      some ⟨[1500000000, 3000000000, 4500000000, 6000000000, 7500000000],
        1, 2, 2, 5⟩ := by decide +kernel
  exact ⟨_, hrun, rfl, setupDeadlines_schedule (fun _ => by norm_num) hrun⟩

end Schedule

end Mutated.Ports
