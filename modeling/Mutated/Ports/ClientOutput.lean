import Mutated.Ports.ClientRules
import Mutated.Ports.ClientTotals

/-!
# What other programs read

With `-r` the client prints the rate and then every sample of the service
time, and exits.  Nothing else makes it exit, so a run that ends so has printed
what it has measured.

## Main results

`run_output` says what a run that exits has measured and printed.
-/

namespace Mutated.Ports.Load

open Mutated.Verified.Exec

/-- The lines for other programs. -/
def Core.lines (c : Core) : List Line :=
  .rate c.results.reqps :: c.results.service.samples.map .sample

/-- The call `x` exits only in a state with `P`. -/
def ExitsWith {σ α : Type} (P : σ → Prop) (x : EStateM Stop σ α) : Prop :=
  Triple (fun _ => True) x (fun _ _ => True) fun stop s => stop = .exit → P s

namespace ExitsWith

variable {σ α β : Type} {P : σ → Prop} {x : EStateM Stop σ α}
  {f : α → EStateM Stop σ β}

theorem bind (hx : ExitsWith P x) (hf : ∀ a, ExitsWith P (f a)) :
    ExitsWith P (x >>= f) := Triple.bind hx hf

theorem get {f : σ → EStateM Stop σ β} (h : ∀ s, ExitsWith P (f s)) :
    ExitsWith P (get >>= f) :=
  Triple.get fun s _ => (h s).mono (fun _ _ => trivial) (fun _ _ h => h)
    fun _ _ h => h

theorem modify (f : σ → σ) :
    ExitsWith P (modify f : EStateM Stop σ PUnit) :=
  Triple.modify fun _ _ => trivial

theorem pure (a : α) : ExitsWith P (pure a : EStateM Stop σ α) :=
  Triple.pure fun _ _ => trivial

theorem throw {stop : Stop} (h : stop ≠ .exit) :
    ExitsWith P (throw stop : EStateM Stop σ α) :=
  Triple.throw fun _ _ heq => absurd heq h

theorem runIf {p : Prop} [Decidable p] {x : EStateM Stop σ Unit}
    (hx : ExitsWith P x) : ExitsWith P (runIf p x) :=
  Triple.runIf (fun _ => hx) fun _ _ h => h

end ExitsWith

namespace Experiment

variable {e : Experiment}

theorem exitsWith_runningTime {P : Core → Prop} :
    ExitsWith P Core.runningTime :=
  .get fun c => by
    cases c.results.runningTime with
    | none => exact .throw (by decide)
    | some t => exact .pure t

/-- **Every response**: the lines are printed before the exit. -/
theorem exitsWith_complete (hraw : e.cfg.machineReadable = true)
    (comp : Completion) :
    ExitsWith (fun c => c.output = c.lines) (e.complete comp) := by
  have hprint : Triple (fun _ => True) e.printSummary
      (fun _ c => c.output = c.lines)
      fun stop c => stop = .exit → c.output = c.lines := by
    refine .bind (Q := fun _ _ => True) (.modify fun _ _ => trivial)
      fun _ => ?_
    rw [if_pos hraw]
    exact .modify fun _ _ => rfl
  refine .bind (.modify _) fun _ => .get fun c => ?_
  cases c.pending.find? fun req => req.index = comp.index with
  | none => exact .pure ()
  | some req =>
      refine .bind (.modify _) fun _ => .bind (.runIf ?_) fun _ => ?_
      · refine .bind (.modify _) fun _ => .get fun c => .runIf ?_
        exact .bind (.modify _) fun _ => .bind exitsWith_runningTime fun _ =>
          .modify _
      · refine .bind (.modify _) fun _ => .get fun c => .runIf ?_
        exact Triple.bind hprint fun _ => .throw fun c hc _ => hc

theorem exitsWith_run (hraw : e.cfg.machineReadable = true)
    (calls : List Call) :
    ExitsWith (fun c => c.core.output = c.core.lines) (e.run calls) := by
  refine run_framed (I := fun _ => True)
    (X := fun stop c => stop = .exit → c.output = c.lines) ?_
    (exitsWith_complete hraw) calls
  exact ⟨fun _ _ _ => trivial, fun _ _ => trivial, fun _ _ _ => trivial,
    fun _ _ => trivial, fun _ _ _ => trivial, fun _ _ => trivial,
    fun _ _ hne _ heq => absurd heq hne⟩

/-! ## Main results -/

/-- **A run that exits** has measured the requests of the schedule, and printed
the rate and a line for each. -/
theorem run_output (hraw : e.cfg.machineReadable = true) {clock : Int}
    {calls : List Call} {c : Client}
    (hrun : e.run calls (new clock) = .error .exit c) :
    (donesOf c.core.log).countP (·.measure) = e.plan.measureSamples ∧
      c.core.results.service.samples.length = e.plan.measureSamples ∧
      c.core.output = c.core.lines := by
  have hfinished : Finished e c.core := by
    cases ((run_triple clock calls).of_error rfl hrun).stopped with
    | exit h => exact h
    | halfPrinted h hstop => exact h
  have hall := hfinished.all.2
  exact ⟨hfinished.measured.symm.trans hall, hfinished.service.trans hall,
    (exitsWith_run hraw calls).of_error trivial hrun rfl⟩

end Experiment

end Mutated.Ports.Load
