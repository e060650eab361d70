import Mathlib.Logic.Function.Iterate
import Mathlib.Order.Bounds.Basic

/-!
# While loops

`iterWhile cond step` runs `step` as long as `cond` holds, for a number of
tests that bounds it.  A loop that ends is described by the least number of
steps after which its condition fails.
-/

namespace Mutated.Verified.Loops

variable {σ : Type} (cond : σ → Prop) [DecidablePred cond] (step : σ → σ)

def iterWhile : Nat → σ → Option σ
  | 0, _ => none
  | fuel + 1, s => if cond s then iterWhile fuel (step s) else some s

variable {cond step}

/-- The number of steps of a loop that ends. -/
theorem iterWhile_spec : ∀ {fuel : Nat} {s t : σ},
    iterWhile cond step fuel s = some t →
    ∃ k, t = step^[k] s ∧ IsLeast {k | ¬ cond (step^[k] s)} k := by
  intro fuel
  induction fuel with
  | zero =>
      intro s t h
      cases h
  | succ fuel ih =>
      intro s t h
      rw [iterWhile] at h
      by_cases hcond : cond s
      · rw [if_pos hcond] at h
        obtain ⟨k, rfl, hstop, hleast⟩ := ih h
        refine ⟨k + 1, rfl, hstop, ?_⟩
        intro j hj
        cases j with
        | zero => exact absurd hcond hj
        | succ j => exact Nat.succ_le_succ (hleast hj)
      · rw [if_neg hcond] at h
        cases h
        exact ⟨0, rfl, hcond, fun j _ => Nat.zero_le j⟩

/-- A loop whose condition fails at some time ends. -/
theorem iterWhile_ends {k : Nat} : ∀ {s : σ}, ¬ cond (step^[k] s) →
    ∀ {fuel : Nat}, k < fuel → ∃ t, iterWhile cond step fuel s = some t := by
  induction k with
  | zero =>
      intro s hstop fuel hfuel
      cases fuel with
      | zero => exact absurd hfuel (Nat.lt_irrefl 0)
      | succ fuel => exact ⟨s, if_neg hstop⟩
  | succ k ih =>
      intro s hstop fuel hfuel
      cases fuel with
      | zero => exact absurd hfuel (Nat.not_lt_zero _)
      | succ fuel =>
          by_cases hcond : cond s
          · obtain ⟨t, ht⟩ := ih hstop (Nat.lt_of_succ_lt_succ hfuel)
            exact ⟨t, (if_pos hcond).trans ht⟩
          · exact ⟨s, if_neg hcond⟩

end Mutated.Verified.Loops
