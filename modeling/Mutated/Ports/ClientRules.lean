import Mutated.Ports.Client

/-!
# Rules for runs of the client

Everything the client does around a response is the same for many properties of
its core: the clock advances, requests enter and leave, and the program may
end.  A property that these keep and that every response keeps holds in every
run.

## Main results

`run_framed` is the rule for a whole run.
-/

namespace Mutated.Ports.Load

open Mutated.Verified.Exec

/-- `I` is kept by what happens around a response, and says `X` of a core that
an exception leaves behind. -/
structure Framed (I : Core → Prop) (X : Stop → Core → Prop) : Prop where
  advance : ∀ ns c, I c → I (Core.advance ns c)
  startMeasurements : ∀ c, I c → I c.startMeasurements
  enter : ∀ req c, I c → I (Core.enter req c)
  leave : ∀ c, I c → I c.leave
  sentBytes : ∀ bytes c, I c → I (Core.sentBytes bytes c)
  sent : ∀ c, I c → I c.sent
  thrown : ∀ stop c, stop ≠ .exit → I c → X stop c

namespace Experiment

variable {e : Experiment} {I : Core → Prop} {X : Stop → Core → Prop}

/-- The rule for a call on the core. -/
theorem onCore_framed {α : Type} {x : EStateM Stop Core α}
    (hx : Triple I x (fun _ => I) X) :
    Triple (fun c => I c.core) (onCore x) (fun _ c => I c.core)
      fun stop c => X stop c.core :=
  (Triple.zoom (F := fun _ => True) hx (fun _ _ => rfl) fun _ _ h => h).mono
    (fun _ h => ⟨h, trivial⟩) (fun _ _ h => h.1) fun _ _ h => h.1

theorem readDeadline_framed :
    Triple (fun c => I c.core) e.readDeadline (fun _ c => I c.core)
      fun stop c => X stop c.core :=
  .look fun _ => .bind (Q := fun _ c => I c.core) (.modify fun _ hc => hc)
    fun _ => .pure fun _ hc => hc

section Rules

variable (h : Framed I X)
  (hcomplete : ∀ comp, Triple I (e.complete comp) (fun _ => I) X)

include h hcomplete

theorem serve_framed (s : Served) : Triple I (e.serve s) (fun _ => I) X :=
  .bind (.runAll hcomplete _) fun _ =>
    .bind (.modify (h.advance s.took)) fun _ =>
      .runIf (fun _ => .throw fun c => h.thrown _ c (by decide))
        fun _ _ hc => hc

theorem sendOne_framed : Triple I e.sendOne (fun _ => I) X := by
  refine .bind (.look fun c => ?_) fun _ => .modify h.sent
  refine .bind (Q := fun _ => I) (.runIf
    (fun _ => .modify h.startMeasurements) fun _ _ hc => hc) fun _ => ?_
  exact .bind (.modify (h.enter _)) fun _ =>
    .bind (serve_framed h hcomplete _) fun _ => .bind (.modify h.leave) fun _ =>
      .runIf (fun _ => .modify (h.sentBytes _)) fun _ _ hc => hc

theorem timerLoop_framed (nowRelative : Int) (fuel : Nat) : ∀ looped : Nat,
    Triple (fun c => I c.core) (e.timerLoop nowRelative fuel looped)
      (fun _ c => I c.core) fun stop c => X stop c.core := by
  induction fuel with
  | zero => exact fun _ => .pure fun _ hc => hc
  | succ fuel ih =>
      intro looped
      refine .bind (Q := fun _ c => I c.core) readDeadline_framed
        fun deadline => .ite (fun _ => .modify fun _ hc => hc) fun _ => ?_
      refine .bind (Q := fun _ c => I c.core) (.modify fun _ hc => hc)
        fun _ => .bind (onCore_framed (sendOne_framed h hcomplete))
          fun _ => .look fun c => ?_
      exact .ite (fun _ => .pure fun _ hc => hc) fun _ => ih _

theorem timerHandler_framed :
    Triple (fun c => I c.core) e.timerHandler (fun _ c => I c.core)
      fun stop c => X stop c.core :=
  .look fun _ => timerLoop_framed h hcomplete _ _ _

theorem busyLoop_framed (now : Int) (fuel : Nat) : ∀ d : Int,
    Triple (fun c => I c.core) (e.busyLoop now fuel d) (fun _ c => I c.core)
      fun stop c => X stop c.core := by
  induction fuel with
  | zero => exact fun _ => .pure fun _ hc => hc
  | succ fuel ih =>
      refine fun d => .look fun c => .ite (fun _ => ?_)
        fun _ => .pure fun _ hc => hc
      exact .bind (Q := fun _ c => I c.core) (.modify fun _ hc => hc)
        fun _ => .bind (onCore_framed (sendOne_framed h hcomplete))
          fun _ => .bind (Q := fun _ c => I c.core) readDeadline_framed
            fun _ => ih _

/-- **A call of the event loop.** -/
theorem call_framed (call : Call) :
    Triple (fun c => I c.core) (e.call call) (fun _ c => I c.core)
      fun stop c => X stop c.core := by
  cases call with
  | wait ns => exact onCore_framed (.modify (h.advance ns))
  | runIo s => exact onCore_framed (serve_framed h hcomplete s)
  | timer =>
      refine .look fun c => ?_
      cases c.armed with
      | none => exact .pure fun _ hc => hc
      | some alarm =>
          refine .runIf (fun _ => ?_) fun _ _ hc => hc
          refine .bind (Q := fun _ c => I c.core) (.modify fun _ hc => hc)
            fun _ => .bind (Q := fun _ c => I c.core) ?_
              fun _ => timerHandler_framed h hcomplete
          exact .runIf (fun _ => .throw fun c => h.thrown _ c.core nofun)
            fun _ _ hc => hc
  | busy =>
      refine .runIf (fun _ => .look fun c => ?_) fun _ _ hc => hc
      exact .bind readDeadline_framed fun _ => busyLoop_framed h hcomplete _ _ _

/-- **The rule for a run.** -/
theorem run_framed (calls : List Call) :
    Triple (fun c => I c.core) (e.run calls) (fun _ c => I c.core)
      fun stop c => X stop c.core := by
  refine .bind (.bind (Q := fun _ c => I c.core) (.modify fun _ hc => hc)
    fun _ => ?_) fun _ => .runAll (call_framed h hcomplete) calls
  exact .runIf (fun _ => timerHandler_framed h hcomplete) fun _ _ hc => hc

end Rules

end Experiment

end Mutated.Ports.Load
