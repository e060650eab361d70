import Mathlib.Algebra.BigOperators.Group.List.Basic
import Mathlib.Algebra.GroupWithZero.Nat
import Mathlib.Data.Int.CardIntervalMod

/-!
# Equal shares

`n` items go to `k` shares that differ by at most one: every share gets
`n / k` items, and the first `n % k` of them get one more.
-/

namespace Mutated.Verified.Shares

variable {n k i j : Nat}

/-- What the `i`-th of `k` shares gets of `n` items. -/
def share (n k i : Nat) : Nat := n / k + if i < n % k then 1 else 0

/-- The first `j` shares. -/
theorem sum_share_range (n k j : Nat) :
    ((List.range j).map (share n k)).sum = n / k * j + min j (n % k) := by
  induction j with
  | zero => simp
  | succ j ih =>
      rw [List.range_succ, List.map_append, List.sum_append, ih, Nat.mul_succ,
        List.map_singleton, List.sum_singleton, share]
      split <;> omega

/-- **Nothing is lost**, and nothing is added. -/
theorem sum_share (n : Nat) (hk : 0 < k) :
    ((List.range k).map (share n k)).sum = n := by
  rw [sum_share_range, Nat.min_eq_right (Nat.le_of_lt (Nat.mod_lt n hk)),
    Nat.mul_comm]
  exact Nat.div_add_mod n k

/-- Larger shares come first. -/
theorem share_antitone (n k : Nat) (h : i ≤ j) :
    share n k j ≤ share n k i := by
  unfold share
  split <;> split <;> omega

theorem share_le_succ (n k i j : Nat) : share n k i ≤ share n k j + 1 := by
  unfold share
  split <;> split <;> omega

theorem share_le (n : Nat) (hk : 0 < k) : share n k i ≤ n := by
  have hdiv : n / k ≤ n := Nat.div_le_self n k
  unfold share
  split
  case isTrue hlt =>
      have hmod := Nat.div_add_mod n k
      have hmul : n / k ≤ k * (n / k) := Nat.le_mul_of_pos_left _ hk
      omega
  case isFalse => exact hdiv

/-- Every share gets something if there are enough items. -/
theorem share_pos (i : Nat) (hk : 0 < k) (hle : k ≤ n) : 0 < share n k i :=
  Nat.lt_of_lt_of_le (Nat.div_pos hle hk) (Nat.le_add_right _ _)

/-- Items that are dealt in turn come to equal shares. -/
theorem length_filter_mod (n : Nat) (hi : i < k) :
    ((List.range n).filter fun j => j % k = i).length = share n k i := by
  have hcount := Nat.count_modEq_card n (Nat.zero_lt_of_lt hi) i
  rw [Nat.mod_eq_of_lt hi, Nat.count, List.countP_eq_length_filter] at hcount
  rw [share, ← hcount]
  congr 1
  apply List.filter_congr
  intro j _
  simp [Nat.ModEq, Nat.mod_eq_of_lt hi]

end Mutated.Verified.Shares
