import Mutated.Verified.Exec

/-!
# Triples

A call that starts in a state with `P` returns in one with `Q`, or throws and
leaves one with `E` behind.  The rules follow the structure of a call: what a
sequence, a branch, a run of calls or a call on one component of the state
does follows from what its parts do.
-/

namespace Mutated.Verified.Exec

variable {ε σ τ α β : Type}

/-- The outcome of a call that returns with `Q` or throws with `E`. -/
inductive Ends (Q : α → σ → Prop) (E : ε → σ → Prop) :
    EStateM.Result ε σ α → Prop
  | ok {a : α} {t : σ} (h : Q a t) : Ends Q E (.ok a t)
  | error {e : ε} {t : σ} (h : E e t) : Ends Q E (.error e t)

theorem Throws.ends {P : ε → Prop} {x : EStateM ε σ α} (h : Throws P x)
    (s : σ) : Ends (fun _ _ => True) (fun e _ => P e) (x s) := by
  cases hrun : x s with
  | ok a t => exact .ok trivial
  | error e t => exact .error (h.of_error hrun)

def Triple (P : σ → Prop) (x : EStateM ε σ α) (Q : α → σ → Prop)
    (E : ε → σ → Prop) : Prop := ∀ s, P s → Ends Q E (x s)

namespace Triple

variable {P P' : σ → Prop} {Q Q' : α → σ → Prop} {S : β → σ → Prop}
  {E E' : ε → σ → Prop} {x : EStateM ε σ α} {f : α → EStateM ε σ β}

theorem of_ok (h : Triple P x Q E) {s t : σ} {a : α} (hs : P s)
    (hrun : x s = .ok a t) : Q a t := by
  have hends := h s hs
  rw [hrun] at hends
  cases hends with
  | ok hq => exact hq

theorem of_error (h : Triple P x Q E) {s t : σ} {e : ε} (hs : P s)
    (hrun : x s = .error e t) : E e t := by
  have hends := h s hs
  rw [hrun] at hends
  cases hends with
  | error he => exact he

theorem mono (h : Triple P x Q E) (hP : ∀ s, P' s → P s)
    (hQ : ∀ a t, Q a t → Q' a t) (hE : ∀ e t, E e t → E' e t) :
    Triple P' x Q' E' := by
  intro s hs
  cases hrun : x s with
  | ok a t => exact .ok (hQ a t (h.of_ok (hP s hs) hrun))
  | error e t => exact .error (hE e t (h.of_error (hP s hs) hrun))

/-- **A sequence.** -/
theorem bind (hx : Triple P x Q E) (hf : ∀ a, Triple (Q a) (f a) S E) :
    Triple P (x >>= f) S E := by
  intro s hs
  cases hrun : x s with
  | ok a t =>
      rw [bind_of_ok hrun]
      exact hf a t (hx.of_ok hs hrun)
  | error e t =>
      rw [bind_of_error hrun]
      exact .error (hx.of_error hs hrun)

theorem pure {a : α} (h : ∀ s, P s → Q a s) :
    Triple P (pure a : EStateM ε σ α) Q E := fun s hs => .ok (h s hs)

theorem throw {e : ε} (h : ∀ s, P s → E e s) :
    Triple P (throw e : EStateM ε σ α) Q E := fun s hs => .error (h s hs)

theorem modify {f : σ → σ} {Q : PUnit → σ → Prop}
    (h : ∀ s, P s → Q ⟨⟩ (f s)) :
    Triple P (modify f : EStateM ε σ PUnit) Q E := fun s hs => .ok (h s hs)

/-- What is known before a look at the state is known after it. -/
theorem look {f : σ → EStateM ε σ β} (h : ∀ s, Triple P (f s) S E) :
    Triple P (get >>= f) S E := fun s hs => h s s hs

/-- A look at the state, which is then known. -/
theorem get {f : σ → EStateM ε σ β}
    (h : ∀ s, P s → Triple (· = s) (f s) S E) :
    Triple P (get >>= f) S E := fun s hs => h s hs s rfl

theorem ite {p : Prop} [Decidable p] {x y : EStateM ε σ α}
    (hx : p → Triple P x Q E) (hy : ¬ p → Triple P y Q E) :
    Triple P (if p then x else y) Q E := by
  by_cases h : p
  · rw [if_pos h]
    exact hx h
  · rw [if_neg h]
    exact hy h

theorem runIf {p : Prop} [Decidable p] {x : EStateM ε σ Unit}
    {Q : Unit → σ → Prop} (hx : p → Triple P x Q E)
    (hskip : ¬ p → ∀ s, P s → Q () s) : Triple P (runIf p x) Q E :=
  ite hx fun h => pure (hskip h)

/-- What is known before a call may be used to prove its triple. -/
theorem intro {p : Prop} (hp : ∀ s, P s → p) (h : p → Triple P x Q E) :
    Triple P x Q E := fun s hs => h (hp s hs) s hs

/-- **A run** keeps what its calls keep. -/
theorem runAll {ι : Type} {call : ι → EStateM ε σ Unit} {I : σ → Prop}
    (h : ∀ c, Triple I (call c) (fun _ => I) E) (cs : List ι) :
    Triple I (runAll call cs) (fun _ => I) E := by
  induction cs with
  | nil => exact pure fun _ hs => hs
  | cons c cs ih => exact (h c).bind fun _ => ih

/-- Two triples of one call. -/
theorem and (h : Triple P x Q E) (h' : Triple P' x Q' E') :
    Triple (fun s => P s ∧ P' s) x (fun a s => Q a s ∧ Q' a s)
      (fun e s => E e s ∧ E' e s) := by
  rintro s ⟨hs, hs'⟩
  cases hrun : x s with
  | ok a t => exact .ok ⟨h.of_ok hs hrun, h'.of_ok hs' hrun⟩
  | error e t => exact .error ⟨h.of_error hs hrun, h'.of_error hs' hrun⟩

/-- What the call leaves alone stays known. -/
theorem of_keeps {g : σ → τ} (hg : Keeps g x) (v : τ) :
    Triple (fun s => g s = v) x (fun _ s => g s = v) fun _ s => g s = v := by
  rintro s rfl
  cases hrun : x s with
  | ok a t => exact .ok (hg.of_ok hrun)
  | error e t => exact .error (hg.of_error hrun)

/-- **A call on one component**, for a property of that component and one of
the rest that the component does not matter for. -/
theorem zoom {view : σ → τ} {put : τ → σ → σ} {x : EStateM ε τ α}
    {P : τ → Prop} {Q : α → τ → Prop} {E : ε → τ → Prop} {F : σ → Prop}
    (hx : Triple P x Q E) (hview : ∀ t s, view (put t s) = t)
    (hframe : ∀ t s, F s → F (put t s)) :
    Triple (fun s => P (view s) ∧ F s) (zoom view put x)
      (fun a s => Q a (view s) ∧ F s) (fun e s => E e (view s) ∧ F s) := by
  rintro s ⟨hs, hF⟩
  cases hrun : x (view s) with
  | ok a t =>
      rw [zoom_of_ok hrun]
      refine .ok ⟨?_, hframe t s hF⟩
      rw [hview]
      exact hx.of_ok hs hrun
  | error e t =>
      rw [zoom_of_error hrun]
      refine .error ⟨?_, hframe t s hF⟩
      rw [hview]
      exact hx.of_error hs hrun

end Triple

end Mutated.Verified.Exec
