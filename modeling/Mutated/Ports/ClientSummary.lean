import Mutated.Ports.ClientRules
import Mutated.Ports.ClientTotals
import Mutated.Ports.Percentiles

/-!
# What the summary says

`print_summary` asks the accumulators for their least and greatest samples and
their percentiles.  Nobody has asked them before, and nothing else sorts them.

## Main results

`summary_answers` says what the summary gets to print.
-/

namespace Mutated.Ports.Load

open Mutated.Verified.Exec

/-- The accumulators that `print_summary` asks. -/
def Core.accums (c : Core) : List Accum :=
  [c.results.service, c.results.queue, c.results.wait]

/-- Nothing was asked of the accumulators. -/
def Unasked (c : Core) : Prop := ∀ a ∈ c.accums, a.sorted = false

namespace Experiment

variable {e : Experiment}

theorem unasked_framed : Framed Unasked fun _ => Unasked where
  advance _ _ h := h
  startMeasurements _ h := h
  enter _ _ h := h
  leave _ h := h
  sentBytes _ _ h := h
  sent _ h := h
  thrown _ _ _ h := h

theorem unasked_runningTime :
    Triple Unasked Core.runningTime (fun _ => Unasked) fun _ => Unasked := by
  refine .look fun c => ?_
  cases c.results.runningTime with
  | none => exact .throw fun _ h => h
  | some t => exact .pure fun _ h => h

theorem unasked_addSample (comp : Completion) :
    Triple Unasked (e.addSample comp) (fun _ => Unasked) fun _ => Unasked := by
  refine .bind (Q := fun _ => Unasked) (.modify fun c _ => ?_)
    fun _ => .look fun c => .runIf (fun _ => ?_) fun _ _ h => h
  · intro a ha
    simp only [Core.accums, Core.addSample, Results.addSample, List.mem_cons,
      List.not_mem_nil, or_false] at ha
    rcases ha with rfl | rfl | rfl <;> rfl
  · exact .bind (Q := fun _ => Unasked) (.modify fun _ h => h)
      fun _ => .bind unasked_runningTime fun _ => .modify fun _ h => h

theorem unasked_printSummary :
    Triple Unasked e.printSummary (fun _ => Unasked) fun _ => Unasked := by
  refine .bind (Q := fun _ => Unasked) (.modify fun _ h => h)
    fun _ => .ite (fun _ => .modify fun _ h => h) fun _ => ?_
  refine .look fun c => .ite (fun _ => .throw fun _ h => h) fun _ => ?_
  exact .bind unasked_runningTime fun _ => .pure fun _ h => h

/-- **Every response** adds to the accumulators and asks them nothing. -/
theorem unasked_complete (comp : Completion) :
    Triple Unasked (e.complete comp) (fun _ => Unasked) fun _ => Unasked := by
  refine .bind (Q := fun _ => Unasked) (.modify fun _ h => h)
    fun _ => .look fun c => ?_
  cases c.pending.find? fun req => req.index = comp.index with
  | none => exact .pure fun _ h => h
  | some req =>
      refine .bind (Q := fun _ => Unasked) (.modify fun _ h => h) fun _ =>
        .bind (.runIf (fun _ => unasked_addSample comp) fun _ _ h => h)
          fun _ => ?_
      refine .bind (Q := fun _ => Unasked) (.modify fun _ h => h)
        fun _ => .look fun c => .runIf (fun _ => ?_) fun _ _ h => h
      exact .bind unasked_printSummary fun _ => .throw fun _ h => h

theorem run_unasked (clock : Int) (calls : List Call) :
    Unasked (after (e.run calls (new clock))).core := by
  have hrun := run_framed unasked_framed unasked_complete (e := e) calls
  have hnew : Unasked (new clock).core := by
    intro a ha
    simp only [Core.accums, new, List.mem_cons, List.not_mem_nil,
      or_false] at ha
    rcases ha with rfl | rfl | rfl <;> rfl
  cases hends : e.run calls (new clock) with
  | ok a c => exact hrun.of_ok hnew hends
  | error stop c => exact hrun.of_error hnew hends

/-! ## Main results -/

/-- **The summary** asks accumulators that have all the samples, and gets the
least, the greatest and every percentile of them. -/
theorem summary_answers (hmeasure : 0 < e.plan.measureSamples) {clock : Int}
    {calls : List Call}
    (hprint : .printSummary ∈
      (after (e.run calls (new clock))).core.log) :
    ∀ a ∈ (after (e.run calls (new clock))).core.accums,
      a.size = e.plan.measureSamples ∧ a.Answers a.samples := by
  intro a ha
  have hfinished := run_finished hprint
  have hall := hfinished.all.2
  have hsize : a.size = e.plan.measureSamples := by
    simp only [Core.accums, List.mem_cons, List.not_mem_nil, or_false] at ha
    rcases ha with rfl | rfl | rfl
    · exact hfinished.service.trans hall
    · exact hfinished.queue.trans hall
    · exact hfinished.wait.trans hall
  have hholds : a.Holds a.samples :=
    ⟨.refl _, fun hsorted => by
      rw [run_unasked clock calls a ha] at hsorted
      cases hsorted⟩
  refine ⟨hsize, hholds.answers fun hnone => ?_⟩
  rw [Accum.size, hnone] at hsize
  exact absurd hsize (Nat.ne_of_lt hmeasure)

end Experiment

end Mutated.Ports.Load
