import Mathlib.Data.List.Basic
import Mathlib.Data.List.Induction

/-!
# Properties of a history

A history is a list of events, oldest first.  Many properties of a system say
of each event what must have happened **before** it: a reply comes after its
request, a callback after the bytes it waits for.  `Always P` says that `P`
holds of every event of a history and the events before it.  Since histories
grow at the end, such a property is proved one event at a time, from
`always_snoc`.
-/

namespace Mutated.Verified.History

variable {α : Type}

/-- `P` holds of every event and the events before it. -/
def Always (P : List α → α → Prop) (t : List α) : Prop :=
  ∀ pre e post, t = pre ++ e :: post → P pre e

theorem always_nil (P : List α → α → Prop) : Always P [] := by
  intro pre e post h
  exact absurd h.symm (by simp)

/-- **A history is extended** by an event that its past allows. -/
theorem always_snoc {P : List α → α → Prop} {t : List α} {e : α} :
    Always P (t ++ [e]) ↔ Always P t ∧ P t e := by
  constructor
  · intro h
    refine ⟨fun pre x post hsplit => ?_, h t e [] rfl⟩
    exact h pre x (post ++ [e]) (by rw [hsplit]; simp)
  · rintro ⟨hpast, hlast⟩ pre x post hsplit
    rcases List.eq_nil_or_concat post with rfl | ⟨post', y, rfl⟩
    · obtain ⟨rfl, hx⟩ := List.append_inj' hsplit rfl
      cases hx
      exact hlast
    · have hinit : t ++ [e] = (pre ++ x :: post') ++ [y] := by
        rw [hsplit]
        simp
      exact hpast pre x post' (List.append_inj' hinit rfl).1

/-- A history that was fine is fine as far as any point of it. -/
theorem Always.of_append {P : List α → α → Prop} {t u : List α}
    (h : Always P (t ++ u)) : Always P t := by
  intro pre e post hsplit
  exact h pre e (post ++ u) (by rw [hsplit]; simp)

theorem Always.mono {P Q : List α → α → Prop} {t : List α}
    (hPQ : ∀ pre e, P pre e → Q pre e) (h : Always P t) : Always Q t :=
  fun pre e post hsplit => hPQ pre e (h pre e post hsplit)

/-- A history is checked event by event. -/
theorem always_iff_getElem {P : List α → α → Prop} {t : List α} :
    Always P t ↔ ∀ (i : Nat) (h : i < t.length), P (t.take i) t[i] := by
  constructor
  · intro h i hi
    refine h (t.take i) t[i] (t.drop (i + 1)) ?_
    rw [List.getElem_cons_drop, List.take_append_drop]
  · intro h pre e post hsplit
    have hi : pre.length < t.length := by
      rw [hsplit, List.length_append, List.length_cons]
      omega
    have hpre := h pre.length hi
    simpa [hsplit] using hpre

/-- The last event of a history, or one before it. -/
theorem getElem?_snoc {t : List α} {e x : α} {k : Nat}
    (h : (t ++ [e])[k]? = some x) :
    t[k]? = some x ∨ k = t.length ∧ x = e := by
  rcases Nat.lt_or_ge k t.length with hlt | hge
  · rw [List.getElem?_append_left hlt] at h
    exact .inl h
  · have hlen := (List.getElem?_eq_some_iff.mp h).1
    rw [List.length_append, List.length_singleton] at hlen
    obtain rfl : k = t.length := by omega
    rw [List.getElem?_append_right (Nat.le_refl _), Nat.sub_self] at h
    exact .inr ⟨rfl, (Option.some.inj h).symm⟩

instance {P : List α → α → Prop} [∀ pre e, Decidable (P pre e)]
    {t : List α} : Decidable (Always P t) :=
  decidable_of_iff _ always_iff_getElem.symm

end Mutated.Verified.History
