import Mathlib.Data.Nat.Init
import Mathlib.Logic.Basic

/-!
# Acknowledgements in groups

Items are numbered from zero, and every `e`-th one closes a group; the last of
`n` items closes a group that may be smaller.  An acknowledgement of a group
counts as `e` items, whatever the size of the group.

`closed e n s` is the number of groups that the first `s` items close.  As
long as items are left it is `s / e`, so the acknowledged items were all sent;
at the end it is `n / e` rounded up, so they may be more than there are.
-/

namespace Mutated.Verified.Groups

variable {e n s a : Nat}

/-- Item `i` of `n` closes a group of `e`. -/
def Closes (e n i : Nat) : Prop := (i + 1) % e = 0 ∨ i + 1 = n

instance : Decidable (Closes e n s) := inferInstanceAs (Decidable (_ ∨ _))

/-- The number of groups that the first `s` of `n` items close. -/
def closed (e n : Nat) : Nat → Nat
  | 0 => 0
  | s + 1 => closed e n s + if Closes e n s then 1 else 0

/-- While items are left only whole groups were closed. -/
theorem closed_of_lt : ∀ {s : Nat}, s < n → closed e n s = s / e := by
  intro s
  induction s with
  | zero => exact fun _ => (Nat.zero_div e).symm
  | succ s ih =>
      intro hlt
      rw [closed, ih (Nat.lt_of_succ_lt hlt), Nat.succ_div]
      congr 1
      refine if_congr ?_ rfl rfl
      rw [Nat.dvd_iff_mod_eq_zero]
      exact or_iff_left (Nat.ne_of_lt hlt)

/-- In the end the last item closes a group. -/
theorem closed_self (he : 0 < e) : closed e n n = (n + e - 1) / e := by
  cases n with
  | zero =>
      rw [closed, Nat.zero_add]
      exact (Nat.div_eq_of_lt (Nat.sub_lt he Nat.one_pos)).symm
  | succ n =>
      rw [closed, closed_of_lt (Nat.lt_succ_self n), if_pos (.inr rfl),
        show n + 1 + e - 1 = n + e by omega, Nat.add_div_right n he]

/-- What is acknowledged was sent, while items are left. -/
theorem mul_le_of_lt (hs : s < n) (ha : a ≤ closed e n s) : e * a ≤ s := by
  rw [closed_of_lt hs] at ha
  exact Nat.le_trans (Nat.mul_le_mul_left e ha) (Nat.mul_div_le s e)

/-- **A whole group that is not acknowledged** was closed. -/
theorem lt_closed (he : 0 < e) (hs : s < n) (hgroup : e ≤ s - e * a) :
    a < closed e n s := by
  rw [closed_of_lt hs]
  refine (Nat.le_div_iff_mul_le he).mpr ?_
  rw [Nat.succ_mul, Nat.mul_comm]
  omega

/-- **In the end** all groups are acknowledged when all items are. -/
theorem closed_le_iff (he : 0 < e) : closed e n n ≤ a ↔ n ≤ e * a := by
  rw [closed_self he, ← Nat.lt_succ_iff, Nat.div_lt_iff_lt_mul he,
    Nat.succ_mul, Nat.mul_comm a e]
  omega

end Mutated.Verified.Groups
