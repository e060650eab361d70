import Mathlib.Algebra.Order.Group.Unbundled.Abs
import Mutated.Ports.Schedule

/-!
# The file of the inter-arrival times

With `-i` the client writes the times between its deadlines to a file before it
exits, one on a line.  The loop takes a `last` of zero for the start, so no
line is written for the deadlines that are zero, nor for the first after them.

## Main results

`recordIatimes_recorded`: the file has a line for every later deadline, the
schedule can be rebuilt from it, and over any stretch of it the lines add up to
what was drawn, up to less than a nanosecond.
-/

namespace Mutated.Ports.Schedule

open Finset (range Ico)

/-! ## `record_iatimes` -/

/-- How `<<` prints a `count()`. -/
def showCount (n : Int) : List Char :=
  if n < 0 then '-' :: Nat.toDigits 10 n.natAbs else Nat.toDigits 10 n.natAbs

/-- What the loop of `record_iatimes` writes. -/
def iatimes (last : Int) : List Int → List Char
  | [] => []
  | t :: ts =>
      if last = 0 then iatimes t ts
      else showCount (t - last) ++ '\n' :: iatimes t ts

/-- The numbers of a file, one on a line. -/
def readLines (text : List Char) : List Nat :=
  (text.splitOn '\n').dropLast.map fun line => Nat.ofDigitChars 10 line 0

/-- The times between `last` and the deadlines after it. -/
def gaps (last : Int) : List Int → List Nat
  | [] => []
  | t :: ts => (t - last).toNat :: gaps t ts

theorem newline_not_mem_toDigits (n : Nat) : '\n' ∉ Nat.toDigits 10 n := by
  intro hmem
  have hdigit := Nat.isDigit_of_mem_toDigits (by decide) (by decide) hmem
  exact absurd hdigit (by decide)

/-- A line is what was printed to it. -/
theorem readLines_cons (n : Nat) (text : List Char) :
    readLines (Nat.toDigits 10 n ++ '\n' :: text) = n :: readLines text := by
  rw [readLines, List.splitOn_append_cons_self_of_not_mem
      (newline_not_mem_toDigits n),
    List.dropLast_cons_of_ne_nil (List.splitOn_ne_nil _ _), List.map_cons,
    Nat.ofDigitChars_ten_toDigits]
  rfl

/-- Behind a deadline that is positive, every deadline has its line. -/
theorem readLines_iatimes {ts : List Int} : ∀ {last : Int}, 0 < last →
    (last :: ts).Pairwise (· ≤ ·) →
    readLines (iatimes last ts) = gaps last ts := by
  induction ts with
  | nil =>
      intro last hpos hsorted
      rfl
  | cons t ts ih =>
      intro last hpos hsorted
      obtain ⟨hle, hrest⟩ := List.pairwise_cons.mp hsorted
      have ht : last ≤ t := hle t List.mem_cons_self
      rw [iatimes, if_neg (by omega), showCount, if_neg (by omega),
        readLines_cons, ih (by omega) hrest, gaps,
        show (t - last).natAbs = (t - last).toNat by omega]

/-- The deadlines that are zero leave no trace. -/
theorem iatimes_zero (ts : List Int) :
    iatimes 0 ts = iatimes 0 (ts.dropWhile (· = 0)) := by
  induction ts with
  | nil => rfl
  | cons t ts ih =>
      by_cases ht : t = 0
      · rw [List.dropWhile_cons_of_pos (by simpa using ht), ← ih, ht]
        rfl
      · rw [List.dropWhile_cons_of_neg (by simpa using ht)]

theorem length_gaps (ts : List Int) : ∀ last : Int,
    (gaps last ts).length = ts.length := by
  induction ts with
  | nil =>
      intro last
      rfl
  | cons t ts ih =>
      intro last
      rw [gaps, List.length_cons, List.length_cons, ih]

/-- **The times add up** to the deadlines. -/
theorem sum_gaps {ts : List Int} : ∀ {last : Int} {k : Nat} {t : Int},
    (last :: ts).Pairwise (· ≤ ·) → (last :: ts)[k]? = some t →
    last + ((gaps last ts).take k).sum = t := by
  induction ts with
  | nil =>
      intro last k t hsorted ht
      cases k with
      | zero => simpa [gaps] using ht
      | succ k => simp at ht
  | cons t' ts ih =>
      intro last k t hsorted ht
      obtain ⟨hle, hrest⟩ := List.pairwise_cons.mp hsorted
      have ht' : last ≤ t' := hle t' List.mem_cons_self
      cases k with
      | zero => simpa using ht
      | succ k =>
          have hsum := ih hrest ht
          rw [gaps, List.take_succ_cons, List.sum_cons]
          omega

theorem length_takeWhile_zero (ts : List Int) :
    ts.drop (ts.takeWhile (· = 0)).length = ts.dropWhile (· = 0) := by
  conv_lhs => rw [← List.takeWhile_append_dropWhile (p := (· = 0)) (l := ts)]
  exact List.drop_left' (by rw [List.takeWhile_append_dropWhile])

/-- **What is read back** of any deadlines in order. -/
theorem readLines_iatimes_zero {ts : List Int} (hsorted : ts.Pairwise (· ≤ ·))
    (hnonneg : ∀ t ∈ ts, 0 ≤ t) {z : Nat}
    (hz : z = (ts.takeWhile (· = 0)).length) :
    (readLines (iatimes 0 ts)).length = ts.length - (z + 1) ∧
      ∀ (k : Nat) (first t : Int), ts[z]? = some first →
        ts[z + k]? = some t →
        first + ((readLines (iatimes 0 ts)).take k).sum = t := by
  have hdrop := length_takeWhile_zero ts
  rw [← hz] at hdrop
  have hget (k : Nat) : ts[z + k]? = (ts.dropWhile (· = 0))[k]? := by
    rw [← hdrop, List.getElem?_drop]
  have hlength := congrArg List.length hdrop
  rw [List.length_drop] at hlength
  rw [iatimes_zero, show ts[z]? = _ from hget 0]
  simp only [hget]
  cases hrest : ts.dropWhile (· = 0) with
  | nil =>
      rw [hrest, List.length_nil] at hlength
      refine ⟨?_, fun k first t hfirst => by cases hfirst⟩
      rw [Nat.sub_eq_zero_of_le (by omega)]
      rfl
  | cons last rest =>
      have hmem : last ∈ ts :=
        (List.dropWhile_sublist _).subset (hrest ▸ List.mem_cons_self)
      have hne : last ≠ 0 := by
        have hhead := List.head?_dropWhile_not (· = 0) ts
        rw [hrest] at hhead
        exact of_decide_eq_false hhead
      have hpos : 0 < last := by
        have hle := hnonneg last hmem
        omega
      have hchain : (last :: rest).Pairwise (· ≤ ·) :=
        hrest ▸ hsorted.sublist (List.dropWhile_sublist _)
      rw [hrest, List.length_cons] at hlength
      rw [show iatimes 0 (last :: rest) = iatimes last rest from rfl,
        readLines_iatimes hpos hchain, length_gaps]
      refine ⟨by omega, fun k first t hfirst ht => ?_⟩
      cases hfirst
      exact sum_gaps hchain ht

/-! ## Main results -/

/-- How many deadlines are zero. -/
def zeros (s : Schedule) : Nat := (s.deadlines.takeWhile (· = 0)).length

/-- **What the lines of the file are**, for a schedule made of the draws `d`. -/
structure Recorded (d : Nat → ℚ) (s : Schedule) (lines : List Nat) : Prop where
  zero : ∀ k, k < s.zeros → s.deadlines[k]? = some 0
  length : lines.length = s.totalSamples - (s.zeros + 1)
  deadline : ∀ k, s.zeros + k < s.totalSamples →
    s.deadlines[s.zeros + k]? =
      some (ceilSum d (s.zeros + 1) + (lines.take k).sum)
  drawn : ∀ i j, i ≤ j → j ≤ lines.length →
    |(((lines.drop i).take (j - i)).sum : ℚ) -
      ∑ n ∈ Ico (s.zeros + 1 + i) (s.zeros + 1 + j), d n| < 1

/-- Two sums that are rounded up differ by what lies between them, up to less
than one. -/
theorem abs_ceil_sub_lt (a b : ℚ) :
    |((⌈a⌉ - ⌈b⌉ : Int) : ℚ) - (a - b)| < 1 := by
  have ha := Int.le_ceil a
  have ha' := Int.ceil_lt_add_one a
  have hb := Int.le_ceil b
  have hb' := Int.ceil_lt_add_one b
  rw [Int.cast_sub, abs_lt]
  constructor <;> linarith

/-- **The file** that is written for a schedule. -/
theorem Made.recorded {cfg : Config} {d : Nat → ℚ} {s : Schedule}
    (h : Made cfg d s) (hd : ∀ n, 0 ≤ d n) :
    Recorded d s (readLines (iatimes 0 s.deadlines)) := by
  have hnonneg : ∀ t ∈ s.deadlines, 0 ≤ t := by
    intro t ht
    obtain ⟨k, hk⟩ := List.mem_iff_getElem?.mp ht
    have hlt := (List.getElem?_eq_some_iff.mp hk).1
    rw [h.deadline k (h.length ▸ hlt)] at hk
    cases hk
    exact Int.ceil_nonneg (Finset.sum_nonneg fun n _ => hd n)
  obtain ⟨hlength, hsum⟩ := readLines_iatimes_zero h.sorted hnonneg
    (z := s.zeros) rfl
  generalize readLines (iatimes 0 s.deadlines) = lines at hlength hsum ⊢
  rw [h.length] at hlength
  have hdeadline (k : Nat) (hk : s.zeros + k < s.totalSamples) :
      ceilSum d (s.zeros + 1) + (lines.take k).sum =
        ceilSum d (s.zeros + 1 + k) := by
    refine hsum k _ _ (h.deadline _ (by omega)) ?_
    rw [h.deadline _ hk, Nat.add_right_comm]
    rfl
  refine ⟨fun k hk => ?_, hlength, fun k hk => ?_, fun i j hij hj => ?_⟩
  · have hzero : (s.deadlines.takeWhile (· = 0))[k]? = s.deadlines[k]? := by
      conv_rhs => rw [← List.takeWhile_append_dropWhile (p := (· = 0))
        (l := s.deadlines)]
      rw [List.getElem?_append_left hk]
    obtain ⟨t, ht⟩ : ∃ t, (s.deadlines.takeWhile (· = 0))[k]? = some t :=
      ⟨_, List.getElem?_eq_getElem hk⟩
    have hall := List.all_eq_true.mp
      (List.all_takeWhile (p := (· = (0 : Int))) (l := s.deadlines)) t
      (List.mem_of_getElem? ht)
    rw [← hzero, ht, of_decide_eq_true hall]
  · rw [hdeadline k hk, h.deadline _ hk, Nat.add_right_comm]
    rfl
  · obtain ⟨m, rfl⟩ := Nat.exists_eq_add_of_le hij
    rw [Nat.add_sub_cancel_left]
    by_cases hz : s.zeros < s.totalSamples
    · have hi := hdeadline i (by omega)
      have hm := hdeadline (i + m) (by omega)
      rw [List.take_add, List.sum_append, Nat.cast_add] at hm
      rw [Finset.sum_Ico_eq_sub _ (by omega)]
      have hstretch : (((lines.drop i).take m).sum : Int) =
          ceilSum d (s.zeros + 1 + (i + m)) - ceilSum d (s.zeros + 1 + i) := by
        omega
      have hcast : (((lines.drop i).take m).sum : ℚ) =
          ((ceilSum d (s.zeros + 1 + (i + m)) -
            ceilSum d (s.zeros + 1 + i) : Int) : ℚ) := by
        rw [← hstretch, Int.cast_natCast]
      rw [hcast]
      exact abs_ceil_sub_lt _ _
    · obtain ⟨rfl, rfl⟩ : i = 0 ∧ m = 0 := by omega
      simp

end Mutated.Ports.Schedule
