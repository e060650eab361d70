import Mutated.Ports.CoordinatorParts
import Mutated.Ports.CoordinatorRuns
import Mutated.Ports.Doubles
import Mutated.Verified.Ranks

/-!
# What the coordinator displays

`display` prints one line for a measurement: the rates, the mean, and samples
of five ranks.  `percentile` sorts the samples in place and takes one of them;
its index is a product of two `float64`, which is rounded and cut off.

* The sum of `mean` is an `int64`, and wraps around.
* The measured rate is a sum of `float64` in the order of arrival.  It is the
  one number that the order matters for, and is exact here.

## Main results

`measure_displays` says what is displayed, and that nothing but the measured
rate may depend on the order in which the generators are done.
-/

namespace Mutated.Ports

open Mutated.Ports.Load
open Mutated.Verified.Exec
open Mutated.Verified.Ranks
open Mutated.Verified.Rounding

/-! ## `float64` -/

/-- The conversion to `int`, and what an amd64 gives where it is undefined. -/
def Double.toInt : Double → Int
  | .num q =>
      if -2 ^ 63 ≤ truncate q ∧ truncate q < 2 ^ 63 then truncate q
      else -2 ^ 63
  | _ => -2 ^ 63

namespace Coord

/-! ## `result` -/

/-- `sort.Ints`, unless they are sorted. -/
def Result.sort (r : Result) : Result :=
  if r.samples.Pairwise (· ≤ ·) then r
  else { r with samples := r.samples.mergeSort (· ≤ ·) }

def Result.mean (r : Result) : Double :=
  let accum : Int64 := r.samples.foldl (fun a v => a + .ofInt v) 0
  (Double.ofRat accum.toInt).div (.ofRat r.samples.length)

/-- The index of `percentile` in `n` samples. -/
def index (frac : Double) (n : Nat) : Int :=
  (frac.mul (.ofRat ((n : ℚ) - 1))).toInt

def percentile (frac : Double) : EStateM Failure Result Int := do
  modify Result.sort
  let r ← get
  let idx := index frac r.samples.length
  match if 0 ≤ idx then r.samples[idx.toNat]? else none with
  | some v => pure v
  | none => throw .indexOutOfRange

/-- A line of the table. -/
structure Row where
  offeredReqsPerSec : UInt64
  measuredReqsPerSec : ℚ
  min : Int
  mean : Double
  p99 : Int
  p999 : Int
  p9999 : Int
  max : Int
  deriving DecidableEq, Repr

def display : EStateM Failure Result Row := do
  let min ← percentile (.ofRat 0)
  let r ← get
  let p99 ← percentile (.ofRat (99 / 100))
  let p999 ← percentile (.ofRat (999 / 1000))
  let p9999 ← percentile (.ofRat (9999 / 10000))
  let max ← percentile (.ofRat 1)
  pure ⟨r.offeredReqsPerSec, r.measuredReqsPerSec, min, r.mean, p99, p999,
    p9999, max⟩

/-! ## The index -/

/-- A product that is cut off. -/
theorem index_eq {f : ℚ} {n : Nat} (hf : 0 ≤ f) (hone : f ≤ 1) (hn : 0 < n)
    (hsmall : n < 2 ^ 53) :
    index (.ofRat f) n = ⌊nearest (nearest f * (n - 1 : Nat))⌋ ∧
      0 ≤ nearest (nearest f * (n - 1 : Nat)) ∧
      nearest (nearest f * (n - 1 : Nat)) ≤ (n - 1 : Nat) := by
  have hcast : (n : ℚ) - 1 = (n - 1 : Nat) := by
    rw [Nat.cast_sub hn, Nat.cast_one]
  have hlt : n - 1 < 2 ^ 53 := by omega
  obtain ⟨hfrac, hlow, hhigh⟩ := Double.ofRat_of_le (n := 1) (by decide) hf
    (by simpa using hone)
  have hproduct : nearest f * (n - 1 : Nat) ≤ (n - 1 : Nat) :=
    mul_le_of_le_one_left (Nat.cast_nonneg _) (by simpa using hhigh)
  obtain ⟨hmul, hnonneg, hle⟩ := Double.ofRat_of_le hlt
    (mul_nonneg hlow (Nat.cast_nonneg _)) hproduct
  have hindex : index (.ofRat f) n =
      (Double.num (nearest (nearest f * (n - 1 : Nat)))).toInt := by
    rw [index, hcast, hfrac, Double.ofRat_natCast hlt, Double.mul, hmul]
  refine ⟨?_, hnonneg, hle⟩
  rw [hindex]
  have hfloor : ⌊nearest (nearest f * (n - 1 : Nat))⌋ ≤ ((n - 1 : Nat) : Int) :=
    Int.floor_le_iff.mpr (hle.trans_lt (lt_add_one _))
  have hpos : 0 ≤ ⌊nearest (nearest f * (n - 1 : Nat))⌋ :=
    Int.floor_nonneg.mpr hnonneg
  simp only [Double.toInt, Double.truncate, if_neg (not_lt.mpr hnonneg)]
  exact if_pos (by omega)

/-- The rank of a percentile of `n` samples, counted from one. -/
def rank (f : ℚ) (n : Nat) : Nat := (index (.ofRat f) n).toNat + 1

section Index

variable {f g : ℚ} {n : Nat}

theorem rank_le (hf : 0 ≤ f) (hone : f ≤ 1) (hn : 0 < n)
    (hsmall : n < 2 ^ 53) : rank f n ≤ n := by
  obtain ⟨hindex, -, hle⟩ := index_eq hf hone hn hsmall
  have hfloor : ⌊nearest (nearest f * (n - 1 : Nat))⌋ ≤ ((n - 1 : Nat) : Int) :=
    Int.floor_le_iff.mpr (hle.trans_lt (lt_add_one _))
  rw [rank, hindex]
  omega

/-- **A greater part** has no smaller rank. -/
theorem rank_mono (hf : 0 ≤ f) (hfg : f ≤ g) (hone : g ≤ 1) (hn : 0 < n)
    (hsmall : n < 2 ^ 53) : rank f n ≤ rank g n := by
  rw [rank, rank, (index_eq hf (hfg.trans hone) hn hsmall).1,
    (index_eq (hf.trans hfg) hone hn hsmall).1]
  have hfrac : nearest f ≤ nearest g := roundTo_mono (by decide) hf hfg
  have hproduct := mul_le_mul_of_nonneg_right hfrac
    (Nat.cast_nonneg (α := ℚ) (n - 1))
  have hnearest : nearest (nearest f * (n - 1 : Nat)) ≤
      nearest (nearest g * (n - 1 : Nat)) :=
    roundTo_mono (by decide)
      (mul_nonneg (nearest_nonneg hf) (Nat.cast_nonneg _)) hproduct
  have hfloor := Int.floor_mono hnearest
  omega

theorem rank_zero (hn : 0 < n) (hsmall : n < 2 ^ 53) : rank 0 n = 1 := by
  rw [rank, (index_eq le_rfl zero_le_one hn hsmall).1]
  simp [nearest, roundTo_zero]

theorem rank_one (hn : 0 < n) (hsmall : n < 2 ^ 53) : rank 1 n = n := by
  have hone : nearest 1 = 1 := by
    have hnat := nearest_natCast (n := 1) (by decide)
    rwa [Nat.cast_one] at hnat
  rw [rank, (index_eq zero_le_one le_rfl hn hsmall).1, hone, one_mul,
    nearest_natCast (by omega)]
  rw [Int.floor_natCast]
  omega

end Index

/-! ## A result that is displayed -/

namespace Result

variable (r : Result)

theorem samples_sort : r.sort.samples.Perm r.samples := by
  unfold Result.sort
  split
  · exact .refl _
  · exact List.mergeSort_perm _ _

theorem length_sort : r.sort.samples.length = r.samples.length :=
  r.samples_sort.length_eq

theorem sort_pairwise : r.sort.samples.Pairwise (· ≤ ·) := by
  unfold Result.sort
  split
  · assumption
  · have hpairwise : (r.samples.mergeSort (· ≤ ·)).Pairwise
        fun v w : Int => decide (v ≤ w) = true :=
      List.pairwise_mergeSort (by simpa using fun _ _ _ => Int.le_trans)
        (by simpa using Int.le_total) r.samples
    simpa using hpairwise

@[simp] theorem sort_sort : r.sort.sort = r.sort := by
  rw [Result.sort.eq_1 r.sort, if_pos r.sort_pairwise]

@[simp] theorem offeredReqsPerSec_sort :
    r.sort.offeredReqsPerSec = r.offeredReqsPerSec := by
  unfold Result.sort
  split <;> rfl

@[simp] theorem measuredReqsPerSec_sort :
    r.sort.measuredReqsPerSec = r.measuredReqsPerSec := by
  unfold Result.sort
  split <;> rfl

/-- The sum wraps around. -/
theorem mean_eq : r.mean =
    (Double.ofRat (Int64.ofInt r.samples.sum).toInt).div
      (.ofRat r.samples.length) := by
  have hsum (l : List Int) : ∀ a : Int64,
      l.foldl (fun a v => a + .ofInt v) a = a + .ofInt l.sum := by
    induction l with
    | nil => simp
    | cons v l ih =>
        intro a
        rw [List.foldl_cons, ih, List.sum_cons, Int64.ofInt_add,
          Int64.add_assoc]
  rw [Result.mean, hsum, Int64.zero_add]

end Result

theorem percentile_ok {r : Result} {f : ℚ} (hf : 0 ≤ f) (hone : f ≤ 1)
    (hn : 0 < r.samples.length) (hsmall : r.samples.length < 2 ^ 53) :
    ∃ v, percentile (.ofRat f) r = .ok v r.sort ∧
      IsNth (rank f r.samples.length) r.samples v := by
  have hrank := rank_le hf hone hn hsmall
  obtain ⟨hindex, hlow, -⟩ := index_eq hf hone hn hsmall
  have hpos : 0 ≤ index (.ofRat f) r.samples.length := by
    rw [hindex]
    exact Int.floor_nonneg.mpr hlow
  have hlt : (index (.ofRat f) r.samples.length).toNat <
      r.sort.samples.length := by
    rw [r.length_sort]
    exact hrank
  obtain ⟨v, hv⟩ : ∃ v, r.sort.samples[(index (.ofRat f)
      r.samples.length).toNat]? = some v :=
    ⟨_, List.getElem?_eq_getElem hlt⟩
  refine ⟨v, ?_, (isNth_of_getElem? r.sort_pairwise hv).perm r.samples_sort⟩
  refine (bind_of_ok rfl).trans ((bind_of_ok rfl).trans ?_)
  simp only [r.length_sort, if_pos hpos, hv]
  rfl

/-- What a line says about a result. -/
structure Describes (r : Result) (row : Row) : Prop where
  offered : row.offeredReqsPerSec = r.offeredReqsPerSec
  measured : row.measuredReqsPerSec = r.measuredReqsPerSec
  min : IsNth 1 r.samples row.min
  mean : row.mean = r.mean
  p99 : IsNth (rank (99 / 100) r.samples.length) r.samples row.p99
  p999 : IsNth (rank (999 / 1000) r.samples.length) r.samples row.p999
  p9999 : IsNth (rank (9999 / 10000) r.samples.length) r.samples row.p9999
  max : IsNth r.samples.length r.samples row.max

/-- **`display`** of a result that has samples. -/
theorem display_ok {r : Result} (hn : 0 < r.samples.length)
    (hsmall : r.samples.length < 2 ^ 53) :
    ∃ row, display r = .ok row r.sort ∧ Describes r row := by
  have hsorted {f : ℚ} (hf : 0 ≤ f) (hone : f ≤ 1) : ∃ v,
      percentile (.ofRat f) r.sort = .ok v r.sort ∧
        IsNth (rank f r.samples.length) r.samples v := by
    obtain ⟨v, hrun, hnth⟩ := percentile_ok (r := r.sort) hf hone
      (by rwa [r.length_sort]) (by rwa [r.length_sort])
    rw [r.sort_sort] at hrun
    rw [r.length_sort] at hnth
    exact ⟨v, hrun, hnth.perm r.samples_sort⟩
  obtain ⟨min, hmin, hmin'⟩ := percentile_ok le_rfl zero_le_one hn hsmall
  obtain ⟨p99, hp99, hp99'⟩ := hsorted (f := 99 / 100) (by norm_num)
    (by norm_num)
  obtain ⟨p999, hp999, hp999'⟩ := hsorted (f := 999 / 1000) (by norm_num)
    (by norm_num)
  obtain ⟨p9999, hp9999, hp9999'⟩ := hsorted (f := 9999 / 10000)
    (by norm_num) (by norm_num)
  obtain ⟨max, hmax, hmax'⟩ := hsorted zero_le_one le_rfl
  rw [rank_zero hn hsmall] at hmin'
  rw [rank_one hn hsmall] at hmax'
  have hmean : r.sort.mean = r.mean := by
    rw [r.mean_eq, r.sort.mean_eq, r.length_sort, r.samples_sort.sum_eq]
  refine ⟨_, (bind_of_ok hmin).trans ((bind_of_ok rfl).trans
    ((bind_of_ok hp99).trans ((bind_of_ok hp999).trans
      ((bind_of_ok hp9999).trans (bind_of_ok hmax))))), ?_⟩
  exact ⟨r.offeredReqsPerSec_sort, r.measuredReqsPerSec_sort, hmin', hmean,
    hp99', hp999', hp9999', hmax'⟩

/-- Without samples there is no line. -/
theorem display_empty {r : Result} (h : r.samples = []) :
    display r = .error .indexOutOfRange r := by
  have hsort : r.sort = r := by
    rw [Result.sort, if_pos (by rw [h]; exact .nil)]
  refine bind_of_error ((bind_of_ok rfl).trans ((bind_of_ok rfl).trans ?_))
  rw [hsort, h]
  simp

section Describes

variable {r r' : Result} {row row' : Row}

/-- **The order does not matter**, apart from the measured rate. -/
theorem Describes.unique (h : Describes r row) (h' : Describes r' row')
    (hoffered : r.offeredReqsPerSec = r'.offeredReqsPerSec)
    (hperm : r.samples.Perm r'.samples) :
    row' = { row with measuredReqsPerSec := r'.measuredReqsPerSec } := by
  have hsame {k : Nat} {x y : Int} (hx : IsNth k r.samples x)
      (hy : IsNth k r'.samples y) : y = x :=
    hy.unique (hx.perm hperm)
  have hlength := hperm.length_eq
  obtain ⟨offered, measured, min, mean, p99, p999, p9999, max⟩ := row'
  have hmean : mean = row.mean := by
    rw [show mean = r'.mean from h'.mean, h.mean, r.mean_eq, r'.mean_eq,
      hlength, hperm.sum_eq]
  simp only [Row.mk.injEq]
  refine ⟨?_, h'.measured, hsame h.min h'.min, hmean, ?_, ?_, ?_, ?_⟩
  · rw [h.offered, hoffered]
    exact h'.offered
  · exact hsame h.p99 (hlength ▸ h'.p99)
  · exact hsame h.p999 (hlength ▸ h'.p999)
  · exact hsame h.p9999 (hlength ▸ h'.p9999)
  · exact hsame h.max (hlength ▸ h'.max)

/-- **The line is in order.** -/
theorem Describes.ordered (h : Describes r row) (hn : 0 < r.samples.length)
    (hsmall : r.samples.length < 2 ^ 53) :
    row.min ≤ row.p99 ∧ row.p99 ≤ row.p999 ∧ row.p999 ≤ row.p9999 ∧
      row.p9999 ≤ row.max := by
  refine ⟨h.min.mono h.p99 (Nat.le_add_left _ _), h.p99.mono h.p999 ?_,
    h.p999.mono h.p9999 ?_, h.p9999.mono h.max ?_⟩
  · exact rank_mono (by norm_num) (by norm_num) (by norm_num) hn hsmall
  · exact rank_mono (by norm_num) (by norm_num) (by norm_num) hn hsmall
  · exact rank_le (by norm_num) (by norm_num) hn hsmall

end Describes

/-- **The mean lies between** the least and the greatest sample, as long as the
sum is exact. -/
theorem Describes.mean_mem {r : Result} {row : Row} (h : Describes r row)
    (hsmall : r.samples.length < 2 ^ 22)
    (hrange : ∀ v ∈ r.samples, 0 ≤ v ∧ v < 2 ^ 31) :
    ∃ m, row.mean = .num m ∧ (row.min : ℚ) ≤ m ∧ m ≤ row.max := by
  obtain ⟨hmem, hleast⟩ := isNth_one_iff.mp h.min
  obtain ⟨hmem', hgreatest⟩ := isNth_length_iff.mp h.max
  obtain ⟨lo, hlo⟩ := Int.eq_ofNat_of_zero_le (hrange _ hmem).1
  obtain ⟨hi, hhi⟩ := Int.eq_ofNat_of_zero_le (hrange _ hmem').1
  have hbound := (hrange _ hmem').2
  have hpos : 0 < r.samples.length := List.length_pos_of_mem hmem
  obtain ⟨sum, hsum⟩ := Int.eq_ofNat_of_zero_le
    (List.sum_nonneg fun v hv => (hrange v hv).1)
  have hlow := List.card_nsmul_le_sum r.samples row.min hleast
  have hhigh := List.sum_le_card_nsmul r.samples row.max hgreatest
  rw [hsum, hlo, nsmul_eq_mul] at hlow
  rw [hsum, hhi, nsmul_eq_mul] at hhigh
  rw [hhi] at hbound
  generalize hn : r.samples.length = n at *
  have hlow : n * lo ≤ sum := by exact_mod_cast hlow
  have hhigh : sum ≤ n * hi := by exact_mod_cast hhigh
  have hexact : sum < 2 ^ 22 * 2 ^ 31 :=
    hhigh.trans_lt (Nat.mul_lt_mul'' hsmall (by omega : hi < 2 ^ 31))
  have hwrap : (Int64.ofInt sum).toInt = sum :=
    Int64.toInt_ofInt_of_le (by omega) (by omega)
  have hcast : (0 : ℚ) < n := by exact_mod_cast hpos
  have hmean : row.mean = .ofRat (sum / n) := by
    rw [h.mean, r.mean_eq, hsum, hn, hwrap, Int.cast_natCast,
      Double.ofRat_natCast (by omega), Double.ofRat_natCast (by omega),
      Double.div, if_neg hcast.ne']
  have hleast' : (lo : ℚ) ≤ sum / n := by
    rw [le_div_iff₀ hcast]
    exact_mod_cast (Nat.mul_comm n lo) ▸ hlow
  have hgreatest' : (sum : ℚ) / n ≤ hi := by
    rw [div_le_iff₀ hcast]
    exact_mod_cast (Nat.mul_comm n hi) ▸ hhigh
  obtain ⟨hnum, -, hle⟩ := Double.ofRat_of_le (n := hi) (by omega)
    (lo.cast_nonneg.trans hleast') hgreatest'
  have hge : (lo : ℚ) ≤ nearest (sum / n) :=
    natCast_le_nearest (by
      have hmul : n * lo ≤ n * hi := hlow.trans hhigh
      have hlo := Nat.le_of_mul_le_mul_left hmul hpos
      omega) hleast'
  refine ⟨nearest (sum / n), hmean.trans hnum, ?_, ?_⟩
  · rw [hlo, Int.cast_natCast]
    exact hge
  · rw [hhi, Int.cast_natCast]
    exact hle

/-! ## What is received -/

/-- The parts that arrive, in this order, with their outputs. -/
def heard : List Cfg → List Arrival → List (Cfg × List Line)
  | _, [] => []
  | running, a :: arrivals => match running[a.place]? with
    | none => heard running arrivals
    | some v => (v, a.output) :: heard (running.eraseIdx a.place) arrivals

theorem samples_accum (parts : List Result) : ∀ r : Result,
    (parts.foldl Result.accum r).samples =
      r.samples ++ parts.flatMap (·.samples) := by
  induction parts with
  | nil => simp
  | cons part parts ih =>
      intro r
      rw [List.foldl_cons, ih, Result.accum, List.flatMap_cons,
        List.append_assoc]

/-- **The sum** is one of what was heard. -/
theorem runAll_receive {arrivals : List Arrival} : ∀ {m m' : Measuring},
    runAll receive arrivals m = .ok () m' → ∃ parts : List Result,
      (heard m.running arrivals).map (fun x => measureOne x.1 x.2) =
        parts.map .ok ∧ m'.result = parts.foldl Result.accum m.result := by
  induction arrivals with
  | nil =>
      intro m m' h
      cases h
      exact ⟨[], rfl, rfl⟩
  | cons a arrivals ih =>
      intro m m' h
      obtain ⟨⟨⟩, m₁, hone, hrest⟩ := bind_eq_ok.mp h
      obtain ⟨parts, hparts, hresult⟩ := ih hrest
      obtain ⟨m₀, m₀', hget, hone⟩ := bind_eq_ok.mp hone
      cases hget
      cases hv : m.running[a.place]? with
      | none =>
          simp only [hv] at hone
          cases hone
          refine ⟨parts, ?_, hresult⟩
          simp only [heard, hv]
          exact hparts
      | some v =>
          simp only [hv] at hone
          cases hmeasure : measureOne v a.output with
          | error failure =>
              simp only [hmeasure] at hone
              cases hone
          | ok part =>
              simp only [hmeasure] at hone
              cases hone
              refine ⟨part :: parts, ?_, hresult⟩
              simp only [heard, hv, List.map_cons, hmeasure]
              exact congrArg _ hparts

theorem measure_heard {c : Cfg} {cnt : UInt64} {arrivals : List Arrival}
    {r : Result} (h : measure c cnt arrivals = .ok (some r)) :
    ∃ parts : List Result,
      (heard (divCfg c cnt) arrivals).map (fun x => measureOne x.1 x.2) =
        parts.map .ok ∧ r.samples = parts.flatMap (·.samples) := by
  unfold measure at h
  cases hrun : runAll receive arrivals { running := divCfg c cnt } with
  | error failure m =>
      rw [hrun] at h
      cases h
  | ok _ m =>
      rw [hrun] at h
      have hreturn := Except.ok.inj h
      obtain ⟨parts, hparts, hresult⟩ := runAll_receive hrun
      refine ⟨parts, hparts, ?_⟩
      by_cases hall : m.received = cnt.toNat
      · rw [if_pos hall] at hreturn
        cases hreturn
        rw [hresult, samples_accum]
        simp [newResult]
      · rw [if_neg hall] at hreturn
        cases hreturn

/-- **The loop** stores samples that it has read. -/
theorem readSamples_ok {v : Cfg} {lines : List Line} :
    ∀ {i j : Nat} {samples out : List Int}, i ≤ samples.length →
    readSamples v i samples lines = .ok (j, out) →
      ∃ us : List UInt64, us.map .sample <+: lines ∧ j = i + us.length ∧
        (∀ u ∈ us, u.toNat < 2 ^ 31) ∧
        out.take j = samples.take i ++ stored us := by
  induction lines with
  | nil =>
      intro i j samples out _ h
      cases h
      exact ⟨[], List.prefix_refl _, rfl, by simp, by simp [stored]⟩
  | cons line lines ih =>
      intro i j samples out hi h
      rw [readSamples] at h
      obtain ⟨n, hparse, h⟩ := except_bind_eq_ok.mp h
      cases line with
      | rate reqps => cases hparse
      | sample u =>
          rw [parseInt] at hparse
          split at hparse
          case isFalse => cases hparse
          case isTrue hsmall =>
              cases hparse
              split at h
              case isFalse => cases h
              case isTrue hroom =>
                  have hset : (samples.set i u.toNat).take (i + 1) =
                      samples.take i ++ stored [u] := by
                    rw [List.take_add_one, List.take_set_of_le (Nat.le_refl i),
                      List.getElem?_set_self hroom]
                    rfl
                  split at h
                  case isTrue =>
                      cases h
                      refine ⟨[u], ⟨lines, rfl⟩, rfl, by simpa using hsmall,
                        hset⟩
                  case isFalse =>
                      obtain ⟨us, hus, hj, hall, hout⟩ := ih (by
                        rw [List.length_set]
                        exact hroom) h
                      refine ⟨u :: us, ?_, ?_, ?_, ?_⟩
                      · exact List.cons_prefix_cons.mpr ⟨rfl, hus⟩
                      · rw [hj, List.length_cons]
                        omega
                      · simpa using ⟨hsmall, hall⟩
                      · rw [hout, hset, List.append_assoc]
                        rfl

/-- **A part** holds the first samples of its output. -/
theorem measureOne_stored {v : Cfg} {output : List Line} {part : Result}
    (h : measureOne v output = .ok part) : ∃ us : List UInt64,
      us.length = v.samples.toNat ∧ us.map .sample <+: output.tail ∧
        (∀ u ∈ us, u.toNat < 2 ^ 31) ∧ part.samples = stored us := by
  rw [measureOne] at h
  obtain ⟨⟨i, samples⟩, hread, h⟩ := except_bind_eq_ok.mp h
  dsimp only at h
  split at h
  case isFalse => cases h
  case isTrue hi =>
      cases h
      obtain ⟨us, hus, hj, hall, hout⟩ := readSamples_ok (Nat.zero_le _) hread
      have hlength := (length_readSamples hread).trans List.length_replicate
      rw [hi, ← hlength, List.take_length, List.take_zero,
        List.nil_append] at hout
      exact ⟨us, by omega, hus, hall, hout⟩

/-! ## What is displayed -/

section Measure

variable {c : Cfg} {cnt : UInt64} {arrivals arrivals' : List Arrival}
  {r r' : Result}

/-- The same outputs, in whatever order, make up the same samples. -/
theorem measure_perm (h : measure c cnt arrivals = .ok (some r))
    (h' : measure c cnt arrivals' = .ok (some r'))
    (hsame : (heard (divCfg c cnt) arrivals').Perm
      (heard (divCfg c cnt) arrivals)) : r.samples.Perm r'.samples := by
  obtain ⟨parts, hparts, hsamples⟩ := measure_heard h
  obtain ⟨parts', hparts', hsamples'⟩ := measure_heard h'
  have hperm := hsame.map fun x => measureOne x.1 x.2
  rw [hparts, hparts'] at hperm
  have hinj : Function.Injective
      (Except.ok : Result → Except Failure Result) :=
    fun _ _ => Except.ok.inj
  rw [hsamples, hsamples']
  exact ((List.map_perm_map_iff hinj).mp hperm).symm.flatMap_right _

/-- Every sample has 31 bits. -/
theorem measure_range (h : measure c cnt arrivals = .ok (some r)) :
    ∀ v ∈ r.samples, 0 ≤ v ∧ v < 2 ^ 31 := by
  obtain ⟨parts, hparts, hsamples⟩ := measure_heard h
  intro v hv
  rw [hsamples] at hv
  obtain ⟨part, hpart, hv⟩ := List.mem_flatMap.mp hv
  obtain ⟨⟨w, output⟩, -, hok⟩ := List.mem_map.mp
    (hparts ▸ List.mem_map_of_mem hpart)
  obtain ⟨us, -, -, hsmall, hstored⟩ := measureOne_stored hok
  rw [hstored] at hv
  obtain ⟨u, hu, rfl⟩ := List.mem_map.mp hv
  have hlt := hsmall u hu
  omega

/-- **The line of a measurement**: it is in order, its samples are those of
their ranks, and only the measured rate may depend on the order in which the
generators are done. -/
theorem measure_displays (hpos : 1 ≤ cnt.toNat)
    (hcnt : cnt.toNat ≤ 2 ^ 32 - 1) (hsome : 0 < c.samples.toNat)
    (hfew : c.samples.toNat < 2 ^ 22)
    (h : measure c cnt arrivals = .ok (some r)) :
    ∃ row, display r = .ok row r.sort ∧ Describes r row ∧
      row.offeredReqsPerSec = c.reqsPerSec ∧
      (row.min ≤ row.p99 ∧ row.p99 ≤ row.p999 ∧ row.p999 ≤ row.p9999 ∧
        row.p9999 ≤ row.max) ∧
      (∃ m, row.mean = .num m ∧ (row.min : ℚ) ≤ m ∧ m ≤ row.max) ∧
      ∀ arrivals' r', measure c cnt arrivals' = .ok (some r') →
        (heard (divCfg c cnt) arrivals').Perm
          (heard (divCfg c cnt) arrivals) →
        display r' = .ok
          { row with measuredReqsPerSec := r'.measuredReqsPerSec } r'.sort := by
  obtain ⟨hoffered, hlength⟩ := measure_whole hpos (by omega) h
  obtain ⟨row, hrun, hrow⟩ := display_ok (r := r) (by omega) (by omega)
  refine ⟨row, hrun, hrow, hrow.offered.trans hoffered,
    hrow.ordered (by omega) (by omega),
    hrow.mean_mem (by omega) (measure_range h), fun arrivals' r' h' hsame => ?_⟩
  obtain ⟨hoffered', hlength'⟩ := measure_whole hpos (by omega) h'
  obtain ⟨row', hrun', hrow'⟩ := display_ok (r := r') (by omega) (by omega)
  rw [hrun', hrow.unique hrow' (hoffered.trans hoffered'.symm)
    (measure_perm h h' hsame)]

end Measure

/-- Three samples at seven requests a second. -/
private def shown : Cfg where
  samples := 3
  reqsPerSec := 7
  conns := 1
  timePad := 0
  mode := "round_robin".toList
  dist := "exp".toList
  host := "10.0.0.1:80".toList
  serviceTime := 1

/-- Two generators, either of which is done first. -/
theorem measure_displays_seven : ∃ row r r',
    measure shown 2 [⟨1, [.rate 3, .sample 5]⟩,
      ⟨0, [.rate 4, .sample 8, .sample 6]⟩] = .ok (some r) ∧
    measure shown 2 [⟨0, [.rate 4, .sample 8, .sample 6]⟩,
      ⟨0, [.rate 3, .sample 5]⟩] = .ok (some r') ∧
    display r = .ok row r.sort ∧ display r' = .ok
      { row with measuredReqsPerSec := r'.measuredReqsPerSec } r'.sort := by
  have hfirst : measure shown 2 [⟨1, [.rate 3, .sample 5]⟩,
      ⟨0, [.rate 4, .sample 8, .sample 6]⟩] =
        .ok (some ⟨7, 0 + 3 + 4, [5, 8, 6]⟩) := rfl
  have hother : measure shown 2 [⟨0, [.rate 4, .sample 8, .sample 6]⟩,
      ⟨0, [.rate 3, .sample 5]⟩] =
        .ok (some ⟨7, 0 + 4 + 3, [8, 6, 5]⟩) := rfl
  obtain ⟨row, hrun, -, -, -, -, hsame⟩ :=
    measure_displays (by decide) (by decide) (by decide) (by decide) hfirst
  exact ⟨row, _, _, hfirst, hother, hrun,
    hsame _ _ hother (List.Perm.swap _ _ _)⟩

end Coord

end Mutated.Ports
