import Mathlib.Data.List.Basic
import Mathlib.Data.Rat.Floor

/-!
# Order statistics

The `k`-th smallest entry of a list, counted from one, does not depend on the
order of the entries: fewer than `k` entries are smaller, and at least `k` are
not larger.  `IsNth` says so without sorting; a sorted list has it at the index
`k - 1`.

`nearestRank n p` is the rank that stands for the `p`-th part of `n` entries.
-/

namespace Mutated.Verified.Ranks

section Order

variable {α : Type} [LE α] [LT α] [DecidableLE α] [DecidableLT α]

/-- `x` is the `k`-th smallest entry of `l`. -/
structure IsNth (k : Nat) (l : List α) (x : α) : Prop where
  smaller : l.countP (· < x) < k
  upTo : k ≤ l.countP (· ≤ x)

variable {k : Nat} {l l' : List α} {x y : α}

/-- The order of the entries does not matter. -/
theorem IsNth.perm (h : IsNth k l x) (hperm : l.Perm l') : IsNth k l' x :=
  ⟨hperm.countP_eq _ ▸ h.smaller, hperm.countP_eq _ ▸ h.upTo⟩

variable [Std.IsLinearOrder α] [Std.LawfulOrderLT α]

theorem IsNth.mem (h : IsNth k l x) : x ∈ l := by
  by_contra hmem
  have hsame : l.countP (· ≤ x) = l.countP (· < x) := by
    refine List.countP_congr fun a ha => ?_
    have hne : a ≠ x := fun heq => hmem (heq ▸ ha)
    rw [decide_eq_true_eq, decide_eq_true_eq, Std.lt_iff_le_and_ne]
    exact (and_iff_left hne).symm
  have hsmaller := h.smaller
  have hupTo := h.upTo
  omega

/-- A smaller rank has no greater entry. -/
theorem IsNth.mono {j : Nat} (h : IsNth j l x) (h' : IsNth k l y)
    (hjk : j ≤ k) : x ≤ y := by
  by_contra hle
  have hless : l.countP (· ≤ y) ≤ l.countP (· < x) := by
    refine List.countP_mono_left fun a _ ha => ?_
    rw [decide_eq_true_eq] at ha ⊢
    exact Std.lt_of_le_of_lt ha (Std.not_le.mp hle)
  have hsmaller := h.smaller
  have hupTo := h'.upTo
  omega

theorem IsNth.le (h : IsNth k l x) (h' : IsNth k l y) : x ≤ y :=
  h.mono h' (Nat.le_refl k)

/-- **There is one `k`-th smallest entry.** -/
theorem IsNth.unique (h : IsNth k l x) (h' : IsNth k l y) : x = y :=
  Std.le_antisymm (h.le h') (h'.le h)

/-- **A sorted list** has its `k`-th smallest entry at its place. -/
theorem isNth_middle {before behind : List α}
    (hsorted : (before ++ x :: behind).Pairwise (· ≤ ·)) :
    IsNth (before.length + 1) (before ++ x :: behind) x := by
  obtain ⟨-, hrest, hbefore⟩ := List.pairwise_append.mp hsorted
  have hbehind := (List.pairwise_cons.mp hrest).1
  constructor
  · have hnone : (x :: behind).countP (· < x) = 0 := by
      refine List.countP_eq_zero.mpr fun a ha => ?_
      rw [decide_eq_true_eq, Std.not_lt]
      rcases List.mem_cons.mp ha with rfl | ha
      · exact Std.le_refl _
      · exact hbehind a ha
    rw [List.countP_append, hnone]
    exact Nat.lt_succ_of_le List.countP_le_length
  · have hall : before.countP (· ≤ x) = before.length :=
      List.countP_eq_length.mpr fun a ha =>
        decide_eq_true (hbefore a ha x List.mem_cons_self)
    have hself : (x :: behind).countP (· ≤ x) =
        behind.countP (· ≤ x) + 1 :=
      List.countP_cons_of_pos (decide_eq_true (Std.le_refl x))
    rw [List.countP_append, hall, hself]
    omega

theorem isNth_of_getElem? {i : Nat} (hsorted : l.Pairwise (· ≤ ·))
    (hx : l[i]? = some x) : IsNth (i + 1) l x := by
  obtain ⟨hi, rfl⟩ := List.getElem?_eq_some_iff.mp hx
  have hsplit : l.take i ++ l[i] :: l.drop (i + 1) = l := by
    rw [List.getElem_cons_drop, List.take_append_drop]
  have hmiddle := isNth_middle (hsplit.symm ▸ hsorted)
  rwa [hsplit, List.length_take_of_le (Nat.le_of_lt hi)] at hmiddle

/-- The smallest entry comes first. -/
theorem isNth_one_iff : IsNth 1 l x ↔ x ∈ l ∧ ∀ a ∈ l, x ≤ a := by
  constructor
  · intro h
    have hnone : l.countP (· < x) = 0 := Nat.lt_one_iff.mp h.smaller
    refine ⟨h.mem, fun a ha => ?_⟩
    have hnot := List.countP_eq_zero.mp hnone a ha
    rwa [decide_eq_true_eq, Std.not_lt] at hnot
  · rintro ⟨hmem, hle⟩
    constructor
    · refine Nat.lt_one_iff.mpr (List.countP_eq_zero.mpr fun a ha => ?_)
      rw [decide_eq_true_eq, Std.not_lt]
      exact hle a ha
    · exact List.countP_pos_iff.mpr ⟨x, hmem, decide_eq_true (Std.le_refl x)⟩

/-- The greatest entry comes last. -/
theorem isNth_length_iff :
    IsNth l.length l x ↔ x ∈ l ∧ ∀ a ∈ l, a ≤ x := by
  constructor
  · intro h
    have hall : l.countP (· ≤ x) = l.length :=
      Nat.le_antisymm List.countP_le_length h.upTo
    refine ⟨h.mem, fun a ha => ?_⟩
    exact of_decide_eq_true (List.countP_eq_length.mp hall a ha)
  · rintro ⟨hmem, hle⟩
    constructor
    · refine Nat.lt_of_le_of_ne List.countP_le_length fun hall => ?_
      have hself := List.countP_eq_length.mp hall x hmem
      exact Std.lt_irrefl (of_decide_eq_true hself)
    · refine Nat.le_of_eq (List.countP_eq_length.mpr fun a ha => ?_).symm
      exact decide_eq_true (hle a ha)

end Order

/-! ## The nearest rank -/

/-- The rank of the smallest entry that at least the `p`-th part of `n` entries
do not exceed. -/
def nearestRank (n : Nat) (p : ℚ) : Int := ⌈(n : ℚ) * p⌉

theorem nearestRank_pos {n : Nat} {p : ℚ} (hn : 0 < n) (hp : 0 < p) :
    0 < nearestRank n p :=
  Int.ceil_pos.mpr (mul_pos (Nat.cast_pos.mpr hn) hp)

theorem nearestRank_le {n : Nat} {p : ℚ} (hp : p ≤ 1) :
    nearestRank n p ≤ n :=
  Int.ceil_le.mpr (mul_le_of_le_one_right (Nat.cast_nonneg n) hp)

/-- **What the rank means**: less than the `p`-th part of the entries is
smaller, and at least the `p`-th part is not larger. -/
theorem isNth_nearestRank_iff {α : Type} [LE α] [LT α] [DecidableLE α]
    [DecidableLT α] {l : List α} {x : α} {p : ℚ} (hl : 0 < l.length)
    (hp : 0 < p) :
    IsNth (nearestRank l.length p).toNat l x ↔
      (l.countP (· < x) : ℚ) < l.length * p ∧
        (l.length : ℚ) * p ≤ l.countP (· ≤ x) := by
  have hpos := nearestRank_pos hl hp
  have hsmaller : l.countP (· < x) < (nearestRank l.length p).toNat ↔
      (l.countP (· < x) : ℚ) < l.length * p := by
    rw [Int.lt_toNat, nearestRank, Int.lt_ceil, Int.cast_natCast]
  have hupTo : (nearestRank l.length p).toNat ≤ l.countP (· ≤ x) ↔
      (l.length : ℚ) * p ≤ l.countP (· ≤ x) := by
    rw [Int.toNat_le, nearestRank, Int.ceil_le, Int.cast_natCast]
  exact ⟨fun h => ⟨hsmaller.mp h.smaller, hupTo.mp h.upTo⟩,
    fun h => ⟨hsmaller.mpr h.1, hupTo.mpr h.2⟩⟩

end Mutated.Verified.Ranks
