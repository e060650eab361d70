import Mathlib.Logic.Relation

/-!
# Calls that return or throw

A stateful call that may throw is an `EStateM ε σ α`: it takes the state
before the call and hands back either a value or an exception, **together
with the state it left behind**.  Keeping the state in both outcomes is what
lets "a call that throws changes nothing" be a theorem about the code rather
than a consequence of its type.

This module collects what every later proof needs about such calls: how a
sequence of two calls comes to its outcome, how a call on one component is
run inside a larger state, what a sequence leaves alone and what it can
throw, and how a property preserved by each call or each small step is
carried along a whole run of them.
-/

namespace Mutated.Verified.Exec

variable {ε σ τ α β : Type}

/-! ## The outcome of a sequence -/

/-- The state a call leaves behind, whichever way it ended. -/
def after : EStateM.Result ε σ α → σ
  | .ok _ s => s
  | .error _ s => s

@[simp] theorem after_ok (a : α) (s : σ) :
    after (EStateM.Result.ok a s : EStateM.Result ε σ α) = s := rfl

@[simp] theorem after_error (e : ε) (s : σ) :
    after (EStateM.Result.error e s : EStateM.Result ε σ α) = s := rfl

/-- Whether a call returned. -/
def returned : EStateM.Result ε σ α → Bool
  | .ok _ _ => true
  | .error _ _ => false

/-- The outcome of a call, in terms of another state. -/
def onState (f : σ → τ) : EStateM.Result ε σ α → EStateM.Result ε τ α
  | .ok a s => .ok a (f s)
  | .error e s => .error e (f s)

@[simp] theorem after_onState (f : σ → τ) (r : EStateM.Result ε σ α) :
    after (onState f r) = f (after r) := by
  cases r <;> rfl

theorem onState_congr {f g : σ → τ} {r : EStateM.Result ε σ α}
    (h : f (after r) = g (after r)) : onState f r = onState g r := by
  cases r with
  | ok a s => exact congrArg (EStateM.Result.ok a) h
  | error e s => exact congrArg (EStateM.Result.error e) h

/-- The outcome of a call, in terms of another exception. -/
def onThrow {ε' : Type} (φ : ε → ε') :
    EStateM.Result ε σ α → EStateM.Result ε' σ α
  | .ok a s => .ok a s
  | .error e s => .error (φ e) s

@[simp] theorem after_onThrow {ε' : Type} (φ : ε → ε')
    (r : EStateM.Result ε σ α) : after (onThrow φ r) = after r := by
  cases r <;> rfl

/-- A call that returned is described by the state it left behind. -/
theorem eq_ok_of_returned {r : EStateM.Result ε σ Unit}
    (h : returned r = true) : r = .ok () (after r) := by
  cases r with
  | ok _ s => rfl
  | error e s => cases h

theorem exists_ok_of_returned {r : EStateM.Result ε σ α}
    (h : returned r = true) : ∃ a s, r = .ok a s := by
  cases r with
  | ok a s => exact ⟨a, s, rfl⟩
  | error e s => cases h

theorem bind_of_ok {x : EStateM ε σ α} {f : α → EStateM ε σ β}
    {s t : σ} {a : α} (h : x s = .ok a t) : (x >>= f) s = f a t := by
  show EStateM.bind x f s = f a t
  simp only [EStateM.bind, h]

theorem bind_of_error {x : EStateM ε σ α} {f : α → EStateM ε σ β}
    {s t : σ} {e : ε} (h : x s = .error e t) :
    (x >>= f) s = .error e t := by
  show EStateM.bind x f s = .error e t
  simp only [EStateM.bind, h]

/-- A sequence returns exactly when both of its calls return. -/
theorem bind_eq_ok {x : EStateM ε σ α} {f : α → EStateM ε σ β}
    {s u : σ} {b : β} :
    (x >>= f) s = .ok b u ↔ ∃ a t, x s = .ok a t ∧ f a t = .ok b u := by
  cases hx : x s with
  | ok a t =>
      rw [bind_of_ok hx]
      constructor
      · exact fun h => ⟨a, t, rfl, h⟩
      · rintro ⟨_, _, heq, h⟩
        cases heq
        exact h
  | error e t => rw [bind_of_error hx]; simp

/-- A sequence throws when its first call does, or when the first returns
and the second throws. -/
theorem bind_eq_error {x : EStateM ε σ α} {f : α → EStateM ε σ β}
    {s u : σ} {e : ε} :
    (x >>= f) s = .error e u ↔
      x s = .error e u ∨ ∃ a t, x s = .ok a t ∧ f a t = .error e u := by
  cases hx : x s with
  | ok a t =>
      rw [bind_of_ok hx]
      constructor
      · exact fun h => .inr ⟨a, t, rfl, h⟩
      · rintro (heq | ⟨_, _, heq, h⟩)
        · cases heq
        · cases heq
          exact h
  | error e' t => rw [bind_of_error hx]; simp

/-- The same of calls that leave no state behind. -/
theorem except_bind_eq_ok {x : Except ε α} {f : α → Except ε β} {b : β} :
    (x >>= f) = .ok b ↔ ∃ a, x = .ok a ∧ f a = .ok b := by
  cases x with
  | ok a =>
      constructor
      · exact fun h => ⟨a, rfl, h⟩
      · rintro ⟨_, heq, h⟩
        cases heq
        exact h
  | error e =>
      constructor
      · exact fun h => by cases h
      · rintro ⟨_, heq, -⟩
        cases heq

theorem except_map_eq_ok {x : Except ε α} {f : α → β} {b : β} :
    x.map f = .ok b ↔ ∃ a, x = .ok a ∧ f a = b := by
  cases x with
  | ok a =>
      constructor
      · exact fun h => ⟨a, rfl, Except.ok.inj h⟩
      · rintro ⟨_, heq, rfl⟩
        cases heq
        rfl
  | error e =>
      constructor
      · exact fun h => by cases h
      · rintro ⟨_, heq, -⟩
        cases heq

@[simp] theorem pure_apply (a : α) (s : σ) :
    (pure a : EStateM ε σ α) s = .ok a s := rfl

@[simp] theorem throw_apply (e : ε) (s : σ) :
    (throw e : EStateM ε σ α) s = .error e s := rfl

@[simp] theorem modify_apply (f : σ → σ) (s : σ) :
    (modify f : EStateM ε σ PUnit) s = .ok () (f s) := rfl

/-- An `if` without an `else`. -/
def runIf (p : Prop) [Decidable p] (x : EStateM ε σ Unit) :
    EStateM ε σ Unit := if p then x else pure ()

/-! ## Running a call on one component of the state -/

/-- Run `x` on the component read by `view` and written back by `put`. -/
def zoom (view : σ → τ) (put : τ → σ → σ) (x : EStateM ε τ α) :
    EStateM ε σ α := fun s =>
  match x (view s) with
  | .ok a t => .ok a (put t s)
  | .error e t => .error e (put t s)

theorem zoom_of_ok {view : σ → τ} {put : τ → σ → σ} {x : EStateM ε τ α}
    {s : σ} {t : τ} {a : α} (h : x (view s) = .ok a t) :
    zoom view put x s = .ok a (put t s) := by
  simp only [zoom, h]

theorem zoom_of_error {view : σ → τ} {put : τ → σ → σ} {x : EStateM ε τ α}
    {s : σ} {t : τ} {e : ε} (h : x (view s) = .error e t) :
    zoom view put x s = .error e (put t s) := by
  simp only [zoom, h]

@[simp] theorem after_zoom (view : σ → τ) (put : τ → σ → σ)
    (x : EStateM ε τ α) (s : σ) :
    after (zoom view put x s) = put (after (x (view s))) s := by
  cases hrun : x (view s) with
  | ok a t => rw [zoom_of_ok hrun]; rfl
  | error e t => rw [zoom_of_error hrun]; rfl

/-! ## What a call leaves alone, and what it throws -/

/-- The call `x` leaves `f` alone, whichever way it ends. -/
def Keeps (f : σ → β) (x : EStateM ε σ α) : Prop :=
  ∀ s, f (after (x s)) = f s

/-- The call `x` throws nothing but what `P` allows. -/
def Throws (P : ε → Prop) (x : EStateM ε σ α) : Prop :=
  ∀ s t e, x s = .error e t → P e

theorem keeps_pure {f : σ → τ} (a : α) :
    Keeps f (pure a : EStateM ε σ α) := fun _ => rfl

theorem keeps_bind {f : σ → τ} {x : EStateM ε σ α}
    {g : α → EStateM ε σ β} (hx : Keeps f x) (hg : ∀ a, Keeps f (g a)) :
    Keeps f (x >>= g) := by
  intro s
  have hs := hx s
  cases h : x s with
  | ok a t =>
      rw [h] at hs
      rw [bind_of_ok h]
      exact (hg a t).trans hs
  | error e t =>
      rw [h] at hs
      rw [bind_of_error h]
      exact hs

theorem Keeps.of_ok {f : σ → τ} {x : EStateM ε σ α} (hx : Keeps f x)
    {s t : σ} {a : α} (h : x s = .ok a t) : f t = f s := by
  have hs := hx s
  rwa [h] at hs

theorem Keeps.of_error {f : σ → τ} {x : EStateM ε σ α} (hx : Keeps f x)
    {s t : σ} {e : ε} (h : x s = .error e t) : f t = f s := by
  have hs := hx s
  rwa [h] at hs

theorem keeps_modify {f : σ → τ} {g : σ → σ} (h : ∀ s, f (g s) = f s) :
    Keeps f (modify g : EStateM ε σ PUnit) := h

theorem keeps_throw {f : σ → τ} (e : ε) :
    Keeps f (throw e : EStateM ε σ α) := fun _ => rfl

/-- A call that starts with a look at the state. -/
theorem keeps_get {f : σ → τ} {g : σ → EStateM ε σ β}
    (h : ∀ s, Keeps f (g s)) : Keeps f (get >>= g) := fun s => h s s

theorem keeps_runIf {f : σ → τ} {p : Prop} [Decidable p]
    {x : EStateM ε σ Unit} (h : Keeps f x) : Keeps f (runIf p x) := by
  by_cases hp : p
  · rw [runIf, if_pos hp]
    exact h
  · rw [runIf, if_neg hp]
    exact keeps_pure ()

theorem Keeps.comp {f : σ → τ} {x : EStateM ε σ α} (h : Keeps f x)
    (g : τ → β) : Keeps (fun s => g (f s)) x := fun s => congrArg g (h s)

theorem throws_pure {P : ε → Prop} (a : α) :
    Throws P (pure a : EStateM ε σ α) := fun _ _ _ h => by cases h

theorem throws_modify {P : ε → Prop} (f : σ → σ) :
    Throws P (modify f : EStateM ε σ PUnit) := fun _ _ _ h => by cases h

theorem throws_get {P : ε → Prop} :
    Throws P (get : EStateM ε σ σ) := fun _ _ _ h => by cases h

theorem Throws.of_error {P : ε → Prop} {x : EStateM ε σ α}
    (hx : Throws P x) {s t : σ} {e : ε} (h : x s = .error e t) : P e :=
  hx s t e h

theorem throws_bind {P : ε → Prop} {x : EStateM ε σ α}
    {g : α → EStateM ε σ β} (hx : Throws P x) (hg : ∀ a, Throws P (g a)) :
    Throws P (x >>= g) := by
  intro s u e h
  rcases bind_eq_error.mp h with hfirst | ⟨a, t, -, hrest⟩
  · exact hx.of_error hfirst
  · exact (hg a).of_error hrest

theorem throws_throw {P : ε → Prop} {e : ε} (h : P e) :
    Throws P (throw e : EStateM ε σ α) := fun _ _ _ hrun => by
  cases hrun
  exact h

theorem throws_ite {P : ε → Prop} {p : Prop} [Decidable p]
    {x y : EStateM ε σ α} (hx : Throws P x) (hy : Throws P y) :
    Throws P (if p then x else y) := by
  by_cases h : p
  · rw [if_pos h]
    exact hx
  · rw [if_neg h]
    exact hy

theorem throws_runIf {P : ε → Prop} {p : Prop} [Decidable p]
    {x : EStateM ε σ Unit} (h : Throws P x) : Throws P (runIf p x) :=
  throws_ite h (throws_pure ())

theorem keeps_zoom {f : σ → β} {view : σ → τ} {put : τ → σ → σ}
    (h : ∀ t s, f (put t s) = f s) (x : EStateM ε τ α) :
    Keeps f (zoom view put x) := by
  intro s
  rw [after_zoom]
  exact h _ s

theorem throws_zoom {P : ε → Prop} {view : σ → τ} {put : τ → σ → σ}
    {x : EStateM ε τ α} (hx : Throws P x) : Throws P (zoom view put x) := by
  intro s t e h
  unfold zoom at h
  cases hrun : x (view s) with
  | ok a u =>
      rw [hrun] at h
      cases h
  | error e' u =>
      rw [hrun] at h
      cases h
      exact hx.of_error hrun

/-! ## Runs of calls -/

/-- A run of calls, up to the first one that throws. -/
def runAll {ι : Type} (call : ι → EStateM ε σ Unit) :
    List ι → EStateM ε σ Unit
  | [] => pure ()
  | c :: cs => do
      call c
      runAll call cs

/-- A run leaves alone what its calls leave alone. -/
theorem keeps_runAll {ι : Type} {f : σ → τ} {call : ι → EStateM ε σ Unit}
    (h : ∀ c, Keeps f (call c)) (cs : List ι) : Keeps f (runAll call cs) := by
  induction cs with
  | nil => exact keeps_pure ()
  | cons c cs ih => exact keeps_bind (h c) fun _ => ih

theorem throws_runAll {ι : Type} {P : ε → Prop} {call : ι → EStateM ε σ Unit}
    (h : ∀ c, Throws P (call c)) (cs : List ι) :
    Throws P (runAll call cs) := by
  induction cs with
  | nil => exact throws_pure ()
  | cons c cs ih => exact throws_bind (h c) fun _ => ih

/-- A property that every call keeps, given the calls before it, holds after
every run. -/
theorem runAll_invariant {ι : Type} {call : ι → EStateM ε σ Unit}
    {P : List ι → σ → Prop}
    (hstep : ∀ {past c s t}, P past s → call c s = .ok () t →
      P (past ++ [c]) t) (cs : List ι) : ∀ (past : List ι) {s t : σ},
    P past s → runAll call cs s = .ok () t → P (past ++ cs) t := by
  induction cs with
  | nil =>
      intro past s t h hrun
      cases hrun
      rwa [List.append_nil]
  | cons c cs ih =>
      intro past s t h hrun
      obtain ⟨⟨⟩, u, hcall, hrest⟩ := bind_eq_ok.mp hrun
      rw [List.append_cons]
      exact ih _ (hstep h hcall) hrest

/-- A run that throws is a run that returns, then a call that throws. -/
theorem runAll_error {ι : Type} {call : ι → EStateM ε σ Unit}
    (cs : List ι) : ∀ {s t : σ} {e : ε}, runAll call cs s = .error e t →
    ∃ past c rest u, cs = past ++ c :: rest ∧
      runAll call past s = .ok () u ∧ call c u = .error e t := by
  induction cs with
  | nil =>
      intro s t e h
      cases h
  | cons c cs ih =>
      intro s t e h
      rcases bind_eq_error.mp h with hfirst | ⟨⟨⟩, u, hcall, hrest⟩
      · exact ⟨[], c, cs, s, rfl, rfl, hfirst⟩
      · obtain ⟨past, c', rest, v, rfl, hpast, hthrow⟩ := ih hrest
        exact ⟨c :: past, c', rest, v, rfl,
          (bind_of_ok hcall).trans hpast, hthrow⟩

/-- Running one list after another. -/
theorem runAll_append {ι : Type} (call : ι → EStateM ε σ Unit)
    (cs ds : List ι) {s t u : σ} (h : runAll call cs s = .ok () t)
    (h' : runAll call ds t = .ok () u) :
    runAll call (cs ++ ds) s = .ok () u := by
  induction cs generalizing s with
  | nil =>
      cases h
      exact h'
  | cons c cs ih =>
      obtain ⟨⟨⟩, v, hcall, hrest⟩ := bind_eq_ok.mp h
      exact (bind_of_ok hcall).trans (ih hrest)

/-- A property that every call of one run keeps, given the calls before it,
holds at its end. -/
theorem runAll_reaches {ι : Type} {call : ι → EStateM ε σ Unit}
    {P : List ι → σ → Prop} {cs : List ι} {s t : σ} (hs : P [] s)
    (hstep : ∀ past c rest u v, cs = past ++ c :: rest →
      runAll call past s = .ok () u → P past u → call c u = .ok () v →
      P (past ++ [c]) v)
    (hrun : runAll call cs s = .ok () t) : P cs t := by
  have hreached : runAll call ([] ++ cs) s = .ok () t ∧
      ([] ++ cs <+: cs → P ([] ++ cs) t) := by
    refine runAll_invariant (P := fun past u =>
      runAll call past s = .ok () u ∧ (past <+: cs → P past u)) ?_ cs []
      ⟨rfl, fun _ => hs⟩ hrun
    rintro past c u v ⟨hpast, hu⟩ hcall
    refine ⟨runAll_append call past [c] hpast
      ((bind_of_ok hcall).trans rfl), fun hprefix => ?_⟩
    obtain ⟨rest, hcs⟩ := hprefix
    rw [List.append_assoc, List.singleton_append] at hcs
    exact hstep past c rest u v hcs.symm hpast
      (hu ⟨c :: rest, hcs⟩) hcall
  exact hreached.2 (List.prefix_refl cs)

/-! ## Chains of small steps -/

/-- A property kept by every step is kept by every chain of steps. -/
theorem invariant_of_step {r : σ → σ → Prop} {P : σ → Prop}
    (hstep : ∀ s t, r s t → P s → P t) {s t : σ}
    (hchain : Relation.ReflTransGen r s t) (hs : P s) : P t := by
  induction hchain with
  | refl => exact hs
  | tail _ hlast ih => exact hstep _ _ hlast ih

end Mutated.Verified.Exec
