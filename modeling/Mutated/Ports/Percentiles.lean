import Mutated.Ports.Client
import Mutated.Verified.Ranks

/-!
# Queries of an accumulator

`min`, `max` and `percentile` sort the samples in place when they are not
sorted yet, and read one of them.  `sorted_` is what they share with
`add_sample` and `clear`.

* A `double` is exact.
* A query gives no value where it would read behind the ends of `samples_`.

## Main results

`run_answers` says what the queries return after any calls.
-/

namespace Mutated.Ports.Load.Accum

open Mutated.Verified.Ranks

/-! ## The operations -/

def clear (_ : Accum) : Accum := ⟨[], false⟩

/-- What every query does first. -/
def sort (a : Accum) : Accum :=
  if a.sorted then a else ⟨a.samples.mergeSort (· ≤ ·), true⟩

/-- `samples_[i]`. -/
def sample (i : Int) (a : Accum) : Option UInt64 :=
  if 0 ≤ i then a.samples[i.toNat]? else none

/-- The index of `percentile`. -/
def percentileIndex (percent : ℚ) (a : Accum) : Int :=
  ⌈(a.size : ℚ) * percent⌉ - 1

def percentile (percent : ℚ) (a : Accum) : Option UInt64 × Accum :=
  let a := a.sort
  (a.sample (a.percentileIndex percent), a)

protected def min (a : Accum) : Option UInt64 × Accum :=
  let a := a.sort
  (a.sample 0, a)

protected def max (a : Accum) : Option UInt64 × Accum :=
  let a := a.sort
  (a.sample (a.samples.length - 1), a)

/-- A call of the accumulator. -/
inductive Call
  | addSample (val : UInt64)
  | clear
  | min
  | max
  | percentile (percent : ℚ)

def call (a : Accum) : Call → Accum
  | .addSample val => a.addSample val
  | .clear => a.clear
  | .min => a.min.2
  | .max => a.max.2
  | .percentile percent => (a.percentile percent).2

/-- A new accumulator after some calls. -/
def run (calls : List Call) : Accum := calls.foldl call {}

/-! ## What the accumulator is for -/

/-- What a call does to the values that were added. -/
def keep (vs : List UInt64) : Call → List UInt64
  | .addSample val => vs ++ [val]
  | .clear => []
  | _ => vs

/-- The values that were added since the accumulator was cleared. -/
def added (calls : List Call) : List UInt64 := calls.foldl keep []

/-- **The invariant**: the accumulator has the values `vs`, and knows when they
are sorted. -/
structure Holds (vs : List UInt64) (a : Accum) : Prop where
  perm : a.samples.Perm vs
  sorted : a.sorted = true → a.samples.Pairwise (· ≤ ·)

variable {vs ws : List UInt64} {a b : Accum}

theorem Holds.sort (h : Holds vs a) : Holds vs a.sort := by
  unfold Accum.sort
  split
  · exact h
  · refine ⟨(List.mergeSort_perm _ _).trans h.perm, fun _ => ?_⟩
    have hpairwise : (a.samples.mergeSort (· ≤ ·)).Pairwise
        fun v w : UInt64 => decide (v ≤ w) = true :=
      List.pairwise_mergeSort (by simpa using fun _ _ _ => UInt64.le_trans)
        (by simpa using UInt64.le_total) a.samples
    simpa using hpairwise

theorem Holds.sort_pairwise (h : Holds vs a) :
    a.sort.samples.Pairwise (· ≤ ·) := by
  refine h.sort.sorted ?_
  unfold Accum.sort
  split
  · assumption
  · rfl

/-- **Every call** keeps the invariant. -/
theorem Holds.call (h : Holds vs a) (c : Call) :
    Holds (keep vs c) (a.call c) := by
  cases c with
  | addSample val => exact ⟨h.perm.append_right [val], nofun⟩
  | clear => exact ⟨.refl [], nofun⟩
  | min => exact h.sort
  | max => exact h.sort
  | percentile percent => exact h.sort

theorem holds_run (calls : List Call) : Holds (added calls) (run calls) := by
  have hrun : ∀ {vs : List UInt64} {a : Accum}, Holds vs a →
      Holds (calls.foldl keep vs) (calls.foldl Accum.call a) := by
    induction calls with
    | nil => exact id
    | cons c calls ih => exact fun h => ih (h.call c)
  exact hrun ⟨.refl [], nofun⟩

/-! ## What the queries return -/

theorem Holds.length_sort (h : Holds vs a) :
    a.sort.samples.length = vs.length := h.sort.perm.length_eq

/-- **A sample in range** is the one of its rank. -/
theorem Holds.sample (h : Holds vs a) {i : Int} (hi : 0 ≤ i)
    (hlt : i < vs.length) :
    ∃ v, a.sort.sample i = some v ∧ IsNth (i + 1).toNat vs v := by
  have hindex : i.toNat < a.sort.samples.length := by
    rw [h.length_sort]
    omega
  refine ⟨a.sort.samples[i.toNat], ?_, ?_⟩
  · rw [Accum.sample, if_pos hi, List.getElem?_eq_getElem hindex]
  · have hnth := isNth_of_getElem? h.sort_pairwise
      (List.getElem?_eq_getElem hindex)
    rw [show (i + 1).toNat = i.toNat + 1 by omega]
    exact hnth.perm h.sort.perm

/-- What the queries return when the values are `vs`. -/
structure Answers (vs : List UInt64) (a : Accum) : Prop where
  min : ∃ v, a.min.1 = some v ∧ v ∈ vs ∧ ∀ w ∈ vs, v ≤ w
  max : ∃ v, a.max.1 = some v ∧ v ∈ vs ∧ ∀ w ∈ vs, w ≤ v
  index : ∀ p : ℚ, 0 < p → p ≤ 1 →
    0 ≤ a.percentileIndex p ∧ a.percentileIndex p < a.samples.length
  percentile : ∀ p : ℚ, 0 < p → p ≤ 1 → ∃ v,
    (a.percentile p).1 = some v ∧ IsNth (nearestRank vs.length p).toNat vs v

theorem Holds.answers (h : Holds vs a) (hne : vs ≠ []) : Answers vs a := by
  have hpos : 0 < vs.length := List.length_pos_iff.mpr hne
  have hindex : ∀ b : Accum, b.samples.length = vs.length → ∀ p : ℚ, 0 < p →
      p ≤ 1 → 0 ≤ b.percentileIndex p ∧ b.percentileIndex p < vs.length := by
    intro b hlength p hp hone
    have hrank := nearestRank_pos hpos hp
    have hle := nearestRank_le (n := vs.length) hone
    rw [percentileIndex, size, hlength]
    change 0 ≤ nearestRank _ p - 1 ∧ nearestRank _ p - 1 < _
    omega
  constructor
  · obtain ⟨v, hv, hnth⟩ := h.sample (i := 0) (Int.le_refl 0) (by omega)
    exact ⟨v, hv, isNth_one_iff.mp hnth⟩
  · obtain ⟨v, hv, hnth⟩ := h.sample (i := vs.length - 1) (by omega) (by omega)
    rw [show ((vs.length : Int) - 1 + 1).toNat = vs.length by omega] at hnth
    refine ⟨v, ?_, isNth_length_iff.mp hnth⟩
    rw [← hv, ← h.length_sort]
    rfl
  · rw [h.perm.length_eq]
    exact hindex a h.perm.length_eq
  · intro p hp hone
    obtain ⟨hlow, hhigh⟩ := hindex a.sort h.length_sort p hp hone
    obtain ⟨v, hv, hnth⟩ := h.sample hlow hhigh
    refine ⟨v, hv, ?_⟩
    rw [percentileIndex, size, h.length_sort, Int.sub_add_cancel] at hnth
    exact hnth

/-- The queries return the same, whatever they are asked for. -/
structure Alike (a b : Accum) : Prop where
  min : a.min.1 = b.min.1
  max : a.max.1 = b.max.1
  percentile : ∀ p, (a.percentile p).1 = (b.percentile p).1

/-- **The same values** have the same answers. -/
theorem Holds.alike (ha : Holds vs a) (hb : Holds ws b) (h : vs.Perm ws) :
    Alike a b := by
  have hsame : a.sort.samples = b.sort.samples :=
    List.Perm.eq_of_pairwise (fun _ _ _ _ => UInt64.le_antisymm)
      ha.sort_pairwise hb.sort_pairwise
      (ha.sort.perm.trans (h.trans hb.sort.perm.symm))
  have hsample : ∀ i, a.sort.sample i = b.sort.sample i := fun i => by
    rw [Accum.sample, Accum.sample, hsame]
  refine ⟨hsample 0, ?_, fun p => ?_⟩
  · exact (hsample _).trans (by rw [hsame]; rfl)
  · exact (hsample _).trans (by
      rw [percentileIndex, size, hsame]
      rfl)

/-! ## Main results -/

/-- **The queries depend on the values only** that were added since the last
`clear`: not on their order, nor on what was asked before. -/
theorem run_answers (calls : List Call) :
    (run calls).samples.Perm (added calls) ∧
      ((run calls).sorted = true → (run calls).samples.Pairwise (· ≤ ·)) ∧
      (added calls ≠ [] → Answers (added calls) (run calls)) ∧
      ∀ calls', (added calls').Perm (added calls) →
        Alike (run calls') (run calls) :=
  ⟨(holds_run calls).perm, (holds_run calls).sorted, (holds_run calls).answers,
    fun calls' => (holds_run calls').alike (holds_run calls)⟩

/-- A query between two samples. -/
theorem run_answers_between :
    Answers [5, 3, 4] (run [.addSample 5, .addSample 3, .min, .addSample 4]) :=
  (run_answers [.addSample 5, .addSample 3, .min, .addSample 4]).2.2.1
    (by decide)

/-- **What a percentile is**: less than that part of the values is smaller, and
at least that part is not larger. -/
theorem Answers.parts (h : Answers vs a) (hne : vs ≠ []) {p : ℚ} (hp : 0 < p)
    (hone : p ≤ 1) : ∃ v, (a.percentile p).1 = some v ∧
      (vs.countP (· < v) : ℚ) < vs.length * p ∧
        (vs.length : ℚ) * p ≤ vs.countP (· ≤ v) := by
  obtain ⟨v, hv, hnth⟩ := h.percentile p hp hone
  exact ⟨v, hv,
    (isNth_nearestRank_iff (List.length_pos_iff.mpr hne) hp).mp hnth⟩

end Mutated.Ports.Load.Accum
