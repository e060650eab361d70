import Mathlib.Data.List.Forall2
import Mutated.Verified.Triple

/-!
# Simulations

One program simulates another when its calls come to the same value or the
same exception and leave related states behind.  The concrete program may know
more about its exceptions: `φ` is what one is for the abstract program.  The
inputs of the abstract program may be what the concrete one finds out on its
way and keeps in a log: `fore` is what the abstract program foretells, and
nothing is claimed of a run whose log is not foretold.  This works because the
log only grows, so that what is foretold at the end was foretold all along.

The rules follow the structure of the two programs, which has to be the same.
-/

namespace Mutated.Verified.Exec

variable {ε ε' σ τ γ α β ι κ : Type} {φ : ε → ε'}

/-- The outcomes have the same value and states with `Q`, or the same exception
and states with `E`. -/
inductive Agree (φ : ε → ε') (Q : α → σ → τ → Prop) (E : ε → σ → τ → Prop) :
    EStateM.Result ε σ α → EStateM.Result ε' τ α → Prop
  | ok {a : α} {s : σ} {t : τ} (h : Q a s t) : Agree φ Q E (.ok a s) (.ok a t)
  | error {e : ε} {s : σ} {t : τ} (h : E e s t) :
      Agree φ Q E (.error e s) (.error (φ e) t)

theorem Agree.mono {Q Q' : α → σ → τ → Prop} {E E' : ε → σ → τ → Prop}
    {r : EStateM.Result ε σ α} {r' : EStateM.Result ε' τ α}
    (h : Agree φ Q E r r') (hQ : ∀ a s t, Q a s t → Q' a s t)
    (hE : ∀ e s t, E e s t → E' e s t) : Agree φ Q' E' r r' := by
  cases h with
  | ok h => exact .ok (hQ _ _ _ h)
  | error h => exact .error (hE _ _ _ h)

/-- Two outcomes that agree on what is read off their states. -/
theorem Agree.onState_eq {Q : α → σ → τ → Prop} {E : ε → σ → τ → Prop}
    {r : EStateM.Result ε σ α} {r' : EStateM.Result ε' τ α} {f : σ → β}
    {g : τ → β} (h : Agree φ Q E r r') (hQ : ∀ a s t, Q a s t → f s = g t)
    (hE : ∀ e s t, E e s t → f s = g t) :
    onThrow φ (onState f r) = onState g r' := by
  cases h with
  | ok h => exact congrArg (EStateM.Result.ok _) (hQ _ _ _ h)
  | error h => exact congrArg (EStateM.Result.error _) (hE _ _ _ h)

/-- The exceptions of the first outcome are named anew. -/
theorem Agree.onThrow {ε₁ : Type} {ψ : ε → ε₁} {χ : ε₁ → ε'}
    {Q : α → σ → τ → Prop} {E : ε → σ → τ → Prop}
    {r : EStateM.Result ε σ α} {r' : EStateM.Result ε' τ α}
    (h : Agree φ Q E r r') (hχ : ∀ e, χ (ψ e) = φ e) :
    Agree χ Q (fun e₁ s t => ∃ e, e₁ = ψ e ∧ E e s t) (onThrow ψ r) r' := by
  cases h with
  | ok h => exact .ok h
  | error h => exact hχ _ ▸ .error ⟨_, rfl, h⟩

/-- An outcome in terms of another state. -/
theorem Ends.onState {Q : α → σ → Prop} {E : ε → σ → Prop}
    {Q' : α → τ → Prop} {E' : ε → τ → Prop} {r : EStateM.Result ε σ α}
    {f : σ → τ} (h : Ends Q E r) (hQ : ∀ a s, Q a s → Q' a (f s))
    (hE : ∀ e s, E e s → E' e (f s)) : Ends Q' E' (onState f r) := by
  cases h with
  | ok h => exact .ok (hQ _ _ h)
  | error h => exact .error (hE _ _ h)

/-- **A sequence** of two calls.  What the first call came to is known. -/
theorem Agree.bind {Q : α → σ → τ → Prop} {E E' : ε → σ → τ → Prop}
    {S : β → σ → τ → Prop} {x : EStateM ε σ α} {y : EStateM ε' τ α}
    {f : α → EStateM ε σ β} {g : α → EStateM ε' τ β} {s : σ} {t : τ}
    (h : Agree φ Q E (x s) (y t))
    (hE : ∀ e s' t', x s = .error e s' → E e s' t' → E' e s' t')
    (hf : ∀ a s' t', x s = .ok a s' → Q a s' t' →
      Agree φ S E' (f a s') (g a t')) :
    Agree φ S E' ((x >>= f) s) ((y >>= g) t) := by
  cases hrun : x s with
  | ok a s' =>
      rw [bind_of_ok hrun]
      cases hrun' : y t with
      | ok b t' =>
          rw [hrun, hrun'] at h
          rw [bind_of_ok hrun']
          cases h with
          | ok h => exact hf _ _ _ hrun h
      | error e t' =>
          rw [hrun, hrun'] at h
          cases h
  | error e s' =>
      rw [bind_of_error hrun]
      cases hrun' : y t with
      | ok b t' =>
          rw [hrun, hrun'] at h
          cases h
      | error e' t' =>
          rw [hrun, hrun'] at h
          rw [bind_of_error hrun']
          cases h with
          | error h => exact .error (hE _ _ _ hrun h)

/-- What the first outcome is known to be. -/
theorem Agree.ends_and {Q : α → σ → τ → Prop} {E : ε → σ → τ → Prop}
    {r : EStateM.Result ε σ α} {r' : EStateM.Result ε' τ α}
    {T : α → σ → Prop} {X : ε → σ → Prop} (h : Agree φ Q E r r')
    (hends : Ends T X r) :
    Agree φ (fun a s t => T a s ∧ Q a s t) (fun e s t => X e s ∧ E e s t)
      r r' := by
  cases h with
  | ok h =>
      cases hends with
      | ok h' => exact .ok ⟨h', h⟩
  | error h =>
      cases hends with
      | error h' => exact .error ⟨h', h⟩

/-- The second call works on one component of the state. -/
theorem Agree.zoom_right {Q : α → σ → τ → Prop} {E : ε → σ → τ → Prop}
    {r : EStateM.Result ε σ α} {y : EStateM ε' τ α} (view : β → τ)
    (put : τ → β → β) {b : β} (h : Agree φ Q E r (y (view b))) :
    Agree φ (fun a s b' => ∃ t, b' = put t b ∧ Q a s t)
      (fun e s b' => ∃ t, b' = put t b ∧ E e s t) r (zoom view put y b) := by
  cases hrun : y (view b) with
  | ok a t =>
      rw [hrun] at h
      rw [zoom_of_ok hrun]
      cases h with
      | ok h => exact .ok ⟨t, rfl, h⟩
  | error e t =>
      rw [hrun] at h
      rw [zoom_of_error hrun]
      cases h with
      | error h => exact .error ⟨t, rfl, h⟩

/-- What the second outcome is known to be. -/
theorem Agree.and_ends {Q : α → σ → τ → Prop} {E : ε → σ → τ → Prop}
    {r : EStateM.Result ε σ α} {r' : EStateM.Result ε' τ α}
    {T : α → τ → Prop} {X : ε' → τ → Prop} (h : Agree φ Q E r r')
    (hends : Ends T X r') :
    Agree φ (fun a s t => Q a s t ∧ T a t) (fun e s t => E e s t ∧ X (φ e) t)
      r r' := by
  cases h with
  | ok h =>
      cases hends with
      | ok h' => exact .ok ⟨h, h'⟩
  | error h =>
      cases hends with
      | error h' => exact .error ⟨h, h'⟩

/-- What the second call of a sequence leaves alone. -/
theorem after_bind_of_keeps {f : σ → γ} {x : EStateM ε σ α}
    {g : α → EStateM ε σ β} (hg : ∀ a, Keeps f (g a)) (s : σ) :
    f (after ((x >>= g) s)) = f (after (x s)) := by
  cases hrun : x s with
  | ok a t =>
      rw [bind_of_ok hrun]
      exact hg a t
  | error e t =>
      rw [bind_of_error hrun]
      rfl

/-- The log grows, whichever way the call ends. -/
def Grows (log : σ → List γ) (x : EStateM ε σ α) : Prop :=
  ∀ s, log s <+: log (after (x s))

/-- The exception a call ended with. -/
def thrown : EStateM.Result ε σ α → Option ε
  | .ok _ _ => none
  | .error e _ => some e

theorem eq_error_of_thrown {r : EStateM.Result ε σ α} {e : ε}
    (h : thrown r = some e) : r = .error e (after r) := by
  cases r with
  | ok a s => cases h
  | error e' s =>
      cases h
      rfl

/-- What is foretold stays foretold when less happened. -/
def Closed (fore : List γ → Prop) : Prop :=
  ∀ l l', l <+: l' → fore l' → fore l

/-- **A simulation**: from states with `P`, the calls come to the same, with
states related by `Q` or, after an exception, by `E`. -/
structure Simulates (log : σ → List γ) (fore : List γ → Prop) (φ : ε → ε')
    (P : σ → τ → Prop) (x : EStateM ε σ α) (y : EStateM ε' τ α)
    (Q : α → σ → τ → Prop) (E : ε → σ → τ → Prop) : Prop where
  grows : Grows log x
  agree : ∀ s t, P s t → fore (log (after (x s))) → Agree φ Q E (x s) (y t)

namespace Grows

variable {log : σ → List γ}

theorem of_keeps {x : EStateM ε σ α} (h : Keeps log x) : Grows log x := by
  intro s
  exact (h s).symm ▸ List.prefix_refl _

theorem pure (a : α) : Grows log (pure a : EStateM ε σ α) :=
  fun _ => List.prefix_refl _

theorem throw (e : ε) : Grows log (throw e : EStateM ε σ α) :=
  fun _ => List.prefix_refl _

theorem bind {x : EStateM ε σ α} {f : α → EStateM ε σ β}
    (hx : Grows log x) (hf : ∀ a, Grows log (f a)) : Grows log (x >>= f) := by
  intro s
  have hfirst := hx s
  cases hrun : x s with
  | ok a s' =>
      rw [hrun] at hfirst
      rw [bind_of_ok hrun]
      exact hfirst.trans (hf a s')
  | error e s' =>
      rw [hrun] at hfirst
      rw [bind_of_error hrun]
      exact hfirst

theorem get {f : σ → EStateM ε σ β} (h : ∀ s, Grows log (f s)) :
    Grows log (get >>= f) := fun s => h s s

theorem ite {p : Prop} [Decidable p] {x y : EStateM ε σ α}
    (hx : Grows log x) (hy : Grows log y) :
    Grows log (if p then x else y) := by
  by_cases h : p
  · rw [if_pos h]
    exact hx
  · rw [if_neg h]
    exact hy

theorem runIf {p : Prop} [Decidable p] {x : EStateM ε σ Unit}
    (hx : Grows log x) : Grows log (runIf p x) := ite hx (pure ())

theorem runAll {call : ι → EStateM ε σ Unit} (h : ∀ c, Grows log (call c))
    (cs : List ι) : Grows log (runAll call cs) := by
  induction cs with
  | nil => exact pure ()
  | cons c cs ih => exact (h c).bind fun _ => ih

end Grows

namespace Simulates

variable {log : σ → List γ} {fore : List γ → Prop} {P P' : σ → τ → Prop}
  {Q Q' : α → σ → τ → Prop} {S : β → σ → τ → Prop} {E E' : ε → σ → τ → Prop}
  {x : EStateM ε σ α} {y : EStateM ε' τ α} {f : α → EStateM ε σ β}
  {g : α → EStateM ε' τ β}

theorem mono (h : Simulates log fore φ P x y Q E)
    (hP : ∀ s t, P' s t → P s t) (hQ : ∀ a s t, Q a s t → Q' a s t)
    (hE : ∀ e s t, E e s t → E' e s t) :
    Simulates log fore φ P' x y Q' E' :=
  ⟨h.grows, fun s t hP' hfore =>
    (h.agree s t (hP s t hP') hfore).mono hQ hE⟩

/-- **A sequence.** -/
theorem bind (hfore : Closed fore) (hx : Simulates log fore φ P x y Q E)
    (hf : ∀ a, Simulates log fore φ (Q a) (f a) (g a) S E) :
    Simulates log fore φ P (x >>= f) (y >>= g) S E := by
  refine ⟨hx.grows.bind fun a => (hf a).grows, fun s t hP hlog => ?_⟩
  have hgrows : log (after (x s)) <+: log (after ((x >>= f) s)) := by
    cases hrun : x s with
    | error e s' =>
        have hskip : (x >>= f) s = .error e s' := bind_of_error hrun
        exact hskip ▸ List.prefix_refl _
    | ok a s' =>
        rw [bind_of_ok hrun]
        exact (hf a).grows s'
  refine (hx.agree s t hP (hfore _ _ hgrows hlog)).bind
    (fun _ _ _ _ hE => hE) fun a s' t' hrun hQ => ?_
  rw [bind_of_ok hrun] at hlog
  exact (hf a).agree s' t' hQ hlog

theorem pure {a : α} (h : ∀ s t, P s t → Q a s t) :
    Simulates log fore φ P (pure a) (pure a) Q E :=
  ⟨.pure a, fun s t hP _ => .ok (h s t hP)⟩

theorem throw {e : ε} (h : ∀ s t, P s t → E e s t) :
    Simulates log fore φ P (throw e : EStateM ε σ α) (throw (φ e)) Q E :=
  ⟨.throw e, fun s t hP _ => .error (h s t hP)⟩

theorem modify {f : σ → σ} {g : τ → τ} {Q : PUnit → σ → τ → Prop}
    (hlog : ∀ s, log (f s) = log s)
    (h : ∀ s t, P s t → Q ⟨⟩ (f s) (g t)) :
    Simulates log fore φ P (modify f : EStateM ε σ PUnit) (modify g) Q E :=
  ⟨.of_keeps (keeps_modify hlog), fun s t hP _ => .ok (h s t hP)⟩

/-- A look at both states, which are then known. -/
theorem get {f : σ → EStateM ε σ β} {g : τ → EStateM ε' τ β}
    (hgrows : ∀ s, Grows log (f s))
    (h : ∀ s t, P s t → Simulates log fore φ (fun s' t' => s' = s ∧ t' = t)
      (f s) (g t) S E) :
    Simulates log fore φ P (get >>= f) (get >>= g) S E :=
  ⟨.get hgrows, fun s t hP hlog =>
    (h s t hP).agree s t ⟨rfl, rfl⟩ hlog⟩

theorem ite {p q : Prop} [Decidable p] [Decidable q] {x' : EStateM ε σ α}
    {y' : EStateM ε' τ α} (hpq : p ↔ q)
    (hx : Simulates log fore φ P x y Q E)
    (hx' : Simulates log fore φ P x' y' Q E) :
    Simulates log fore φ P (if p then x else x') (if q then y else y') Q E := by
  by_cases h : p
  · rw [if_pos h, if_pos (hpq.mp h)]
    exact hx
  · rw [if_neg h, if_neg (mt hpq.mpr h)]
    exact hx'

theorem runIf {p q : Prop} [Decidable p] [Decidable q]
    {x : EStateM ε σ Unit} {y : EStateM ε' τ Unit} {Q : Unit → σ → τ → Prop}
    (hpq : p ↔ q) (hx : Simulates log fore φ P x y Q E)
    (hskip : ∀ s t, P s t → Q () s t) :
    Simulates log fore φ P (runIf p x) (runIf q y) Q E :=
  ite hpq hx (pure hskip)

theorem exists_forall₂ {K : ι → κ → Prop} (hkind : ∀ c, ∃ c', K c c')
    (cs : List ι) : ∃ cs', List.Forall₂ K cs cs' := by
  induction cs with
  | nil => exact ⟨[], .nil⟩
  | cons c cs ih =>
      obtain ⟨c', hc⟩ := hkind c
      obtain ⟨cs', hcs⟩ := ih
      exact ⟨c' :: cs', .cons hc hcs⟩

/-- **A run** is simulated by some run, when each of its calls is simulated by
some call of the same kind. -/
theorem runAll (hfore : Closed fore) {call : ι → EStateM ε σ Unit}
    {call' : κ → EStateM ε' τ Unit} {I : σ → τ → Prop} {K : ι → κ → Prop}
    (hkind : ∀ c, ∃ c', K c c') (hgrows : ∀ c, Grows log (call c))
    (h : ∀ c s t, I s t → fore (log (after (call c s))) →
      ∃ c', K c c' ∧ Agree φ (fun _ => I) E (call c s) (call' c' t))
    (cs : List ι) :
    ∀ s t, I s t → fore (log (after (runAll call cs s))) →
      ∃ cs', List.Forall₂ K cs cs' ∧ Agree φ (fun _ => I) E
        (runAll call cs s) (runAll call' cs' t) := by
  induction cs with
  | nil => exact fun s t hI _ => ⟨[], .nil, .ok hI⟩
  | cons c cs ih =>
      intro s t hI hlog
      cases hrun : call c s with
      | error e s' =>
          rw [Exec.runAll, bind_of_error hrun] at hlog
          obtain ⟨c', hc, hagree⟩ := h c s t hI (by rw [hrun]; exact hlog)
          obtain ⟨cs', hcs⟩ := exists_forall₂ hkind cs
          refine ⟨c' :: cs', .cons hc hcs,
            hagree.bind (fun _ _ _ _ hE => hE) ?_⟩
          intro a s' t' hok
          rw [hrun] at hok
          cases hok
      | ok a s' =>
          rw [Exec.runAll, bind_of_ok hrun] at hlog
          obtain ⟨c', hc, hagree⟩ := h c s t hI (by
            rw [hrun]
            exact hfore _ _ (Grows.runAll hgrows cs s') hlog)
          cases hrun' : call' c' t with
          | error e' t' =>
              rw [hrun, hrun'] at hagree
              cases hagree
          | ok a' t' =>
              rw [hrun, hrun'] at hagree
              cases hagree with
              | ok hI' =>
                  obtain ⟨cs', hcs, htail⟩ := ih s' t' hI' hlog
                  refine ⟨c' :: cs', .cons hc hcs, ?_⟩
                  rw [Exec.runAll, bind_of_ok hrun, Exec.runAll,
                    bind_of_ok hrun']
                  exact htail

end Simulates

end Mutated.Verified.Exec
