import Mutated.Ports.ClientOutput
import Mutated.Ports.ProgramLoop

/-!
# Runs of the program

The program as a whole does what an experiment does: for every run of the
program, there is a network with which the experiment sends at the same times,
counts the same, and ends the same way.  Nothing that was proved about
experiments is lost when the connections come in.

## Main results

* `run_refines`: the program refines an experiment.
* `run_balances`: what is known while the program runs.
* `run_exits`: what is known when the program exits.
-/

namespace Mutated.Ports

open Mutated.Verified.Exec
open Mutated.Ports.Load
open Mutated.Ports.Lifetime (Cell)

namespace Program

variable {R C : ℕ+}
  {u : Setting} {net : Nat → Served} {p : Program R C} {a : Core}

/-! ## Runs -/

theorem run_simulates (hu : u.Valid) (clock : Int) (calls : List Call)
    (hlog : Foretold net
      (after (run u calls (start clock : Program R C))).serves) :
    ∃ calls', List.Forall₂ SameKind calls calls' ∧
      Agree Reason.stop (fun _ => Mirrors u net) (Over u net)
        (run u calls (start clock : Program R C))
        ((u.experiment net).run calls' (Experiment.new clock)) := by
  have hcalls := Simulates.runAll (I := Mirrors (R := R) (C := C) u net)
    (foretold_closed net) exists_sameKind (fun event => call_grows hu event)
    (fun event p c h hlog => call_follows hu event h hlog) calls
  cases hsetup : setupExperiment u (start clock : Program R C) with
  | error stop p =>
      rw [run, bind_of_error hsetup] at hlog
      obtain ⟨calls', hkinds⟩ := Simulates.exists_forall₂ exists_sameKind calls
      have hstart := setupExperiment_follows hu clock (by rwa [hsetup])
      refine ⟨calls', hkinds, hstart.bind (fun _ _ _ _ hover => hover) ?_⟩
      intro _ p' c' hok
      rw [hsetup] at hok
      cases hok
  | ok _ p =>
      rw [run, bind_of_ok hsetup] at hlog
      have hstart := setupExperiment_follows hu clock (by
        rw [hsetup]
        exact foretold_closed net _ _ (Grows.runAll
          (fun event => call_grows hu event) calls p) hlog)
      cases hsetup' : (u.experiment net).setupExperiment
          (Experiment.new clock) with
      | error stop c =>
          rw [hsetup, hsetup'] at hstart
          cases hstart
      | ok _ c =>
          rw [hsetup, hsetup'] at hstart
          cases hstart with
          | ok hmirrors =>
              obtain ⟨calls', hkinds, hrest⟩ := hcalls p c hmirrors hlog
              refine ⟨calls', hkinds, ?_⟩
              rw [run, bind_of_ok hsetup, Experiment.run,
                bind_of_ok hsetup']
              exact hrest

/-- The client without the ghost state of its counters. -/
def bare (c : Client) : Client := { c with core := bareCore c.core }

theorem bare_eq {c c' : Client} (hclock : clockwork c = clockwork c')
    (hlike : Like c.core c'.core) : bare c = bare c' := by
  simp only [clockwork, Prod.mk.injEq] at hclock
  obtain ⟨hstart, hmissed, harmed, hreads, hdues⟩ := hclock
  exact Client.ext hlike hstart hmissed harmed hreads hdues

/-- The network that did what the program noted. -/
def noted (serves : List Served) (i : Nat) : Served :=
  (serves[i]?).getD ⟨[], 0, 0, false⟩

theorem foretold_noted (serves : List Served) :
    Foretold (noted serves) serves := by
  intro i s hs
  rw [noted, hs]
  rfl

/-- A run that returns. -/
theorem run_mirrors (hu : u.Valid) {clock : Int} {calls : List Call}
    (hruns : returned (run u calls (start clock : Program R C)) = true) :
    ∃ net calls' c,
      (u.experiment net).run calls' (Experiment.new clock) = .ok () c ∧
        Mirrors u net (after (run u calls (start clock : Program R C))) c := by
  obtain ⟨calls', -, hagree⟩ := run_simulates hu clock calls
    (foretold_noted (after (run u calls (start clock : Program R C))).serves)
  generalize noted (after (run u calls (start clock : Program R C))).serves =
    net at hagree
  refine ⟨net, calls', ?_⟩
  have hrun := eq_ok_of_returned hruns
  generalize after (run u calls (start clock : Program R C)) = p at hrun ⊢
  rw [hrun] at hagree
  cases hrun' : (u.experiment net).run calls' (Experiment.new clock) with
  | error stop c =>
      rw [hrun'] at hagree
      cases hagree
  | ok _ c =>
      rw [hrun'] at hagree
      cases hagree with
      | ok hmirrors => exact ⟨c, rfl, hmirrors⟩

/-- A run that ends the program. -/
theorem run_over (hu : u.Valid) {clock : Int} {calls : List Call}
    {reason : Reason}
    (hstop : thrown (run u calls (start clock : Program R C)) = some reason) :
    ∃ net calls' c, (u.experiment net).run calls' (Experiment.new clock) =
        .error reason.stop c ∧
      Over u net reason
        (after (run u calls (start clock : Program R C))) c := by
  obtain ⟨calls', -, hagree⟩ := run_simulates hu clock calls
    (foretold_noted (after (run u calls (start clock : Program R C))).serves)
  generalize noted (after (run u calls (start clock : Program R C))).serves =
    net at hagree
  refine ⟨net, calls', ?_⟩
  have hrun := eq_error_of_thrown hstop
  generalize after (run u calls (start clock : Program R C)) = p at hrun ⊢
  rw [hrun] at hagree
  cases hrun' : (u.experiment net).run calls' (Experiment.new clock) with
  | ok _ c =>
      rw [hrun'] at hagree
      cases hagree
  | error stop' c =>
      rw [hrun'] at hagree
      cases hagree with
      | error hover => exact ⟨c, rfl, hover⟩

/-- **The rule for runs**: what follows from the run of an experiment that the
program mirrors. -/
theorem run_ends (hu : u.Valid) (clock : Int) (calls : List Call)
    {Q : Program R C → Prop} {E : Reason → Program R C → Prop}
    (hok : ∀ (net : Nat → Served) (calls' : List Experiment.Call)
      (p : Program R C) (c : Client),
      (u.experiment net).run calls' (Experiment.new clock) = .ok () c →
        Mirrors u net p c → Q p)
    (herror : ∀ (net : Nat → Served) (calls' : List Experiment.Call)
      (reason : Reason) (p : Program R C) (c : Client),
      (u.experiment net).run calls' (Experiment.new clock) =
        .error reason.stop c → Over u net reason p c → E reason p) :
    Ends (fun _ => Q) E (run u calls (start clock)) := by
  cases hrun : run u calls (start clock : Program R C) with
  | ok _ p =>
      obtain ⟨net, calls', c, hrun', hmirrors⟩ := run_mirrors hu
        (show returned (run u calls (start clock : Program R C)) = true by
          rw [hrun]
          rfl)
      rw [hrun] at hmirrors
      exact .ok (hok net calls' p c hrun' hmirrors)
  | error reason p =>
      obtain ⟨net, calls', c, hrun', hover⟩ := run_over hu
        (show thrown (run u calls (start clock : Program R C)) = some reason by
          rw [hrun]
          rfl)
      rw [hrun] at hover
      exact .error (herror net calls' reason p c hrun' hover)

/-- What a run ends with when the pool is not empty and no generator is used
that is not there or was deleted. -/
structure Orderly (u : Setting) (reason : Reason) : Prop where
  pool : reason ≠ noConnections
  pointers : reason ≠ wildPointer
  alive : reason ≠ .connection Cell.useAfterDelete
  throws : ∀ e, reason = .connection e → u.Throws e

theorem Over.orderly {reason : Reason} {c : Client}
    (h : Over u net reason p c)
    (hstopped : Experiment.Stopped (u.experiment net) reason.stop c.core) :
    Orderly u reason := by
  have hthrows (e : Exn) (he : reason = .connection e) : u.Throws e := by
    subst he
    exact h.ended.reason
  -- `min` is the only one of these that stands for undefined behaviour
  have hundefined (what : String)
      (hwhat : reason = .client (.undefinedBehaviour what)) :
      what = "Accum::min: no samples" := by
    subst hwhat
    cases hstopped with
    | halfPrinted hfinished hstop =>
        rcases hstop with ⟨hnone, -⟩ | ⟨hearly, -⟩
        · exact Stop.undefinedBehaviour.inj hnone
        · cases hearly
  refine ⟨fun he => ?_, fun he => ?_, fun he => (hthrows _ he).alive rfl,
    hthrows⟩
  · exact absurd (hundefined _ he) (by decide)
  · exact absurd (hundefined _ he) (by decide)

/-- **The program refines an experiment**: there is a network, and for every
run of the event loop one of the same kind, with which the experiment sends,
counts, prints and ends as the program does. -/
theorem run_refines (hu : u.Valid) (clock : Int) (calls : List Call) :
    (∃ net calls', List.Forall₂ SameKind calls calls' ∧
      onThrow Reason.stop (onState (fun p => bare p.client)
          (run u calls (start clock : Program R C))) =
        onState bare
          ((u.experiment net).run calls' (Experiment.new clock))) ∧
      ∀ reason, thrown (run u calls (start clock : Program R C)) =
        some reason → Orderly u reason := by
  constructor
  · obtain ⟨calls', hkinds, hagree⟩ := run_simulates hu clock calls
      (foretold_noted
        (after (run u calls (start clock : Program R C))).serves)
    refine ⟨_, calls', hkinds, hagree.onState_eq ?_ ?_⟩
    · exact fun _ p c h => bare_eq h.clocks h.like
    · exact fun _ p c h => bare_eq h.clocks
        (h.ended.books.elim fun _ hbooks => hbooks.like)
  · intro reason hreason
    obtain ⟨net, calls', c, hrun, hover⟩ := run_over hu hreason
    exact hover.orderly
      ((Experiment.run_triple clock calls').of_error rfl hrun).stopped

/-- Two connections, which take turns, and two requests, a microsecond
apart. -/
private def turns : Setting where
  cfg := { machineReadable := true, connCnt := 2 }
  plan := .measuring 0 [1000]
  beyond := fun _ => 0
  pool := [⟨0, fun _ => 0, fun _ => 0, 0, 0, id⟩,
    ⟨1, fun _ => 0, fun _ => 0, 0, 0, fun n => 1000 * n⟩]
  attempts := fun _ => ⟨0, ⟨0, fun _ => 0, fun _ => 0, 0, 0, id⟩,
    ⟨0, false, fun _ _ => 0, [], []⟩, 0⟩
  took := fun _ => 1000

private theorem turns_valid : turns.Valid where
  replies := fun _ => rfl
  pool := fun _ => rfl
  connected := fun _ => by decide
  picks := nofun

/-- The second request is answered. -/
private def answerSecond : List Call :=
  [.runIo 0 0 EPOLLOUT .ok [] [.accepted 144], .wait 1000, .timer,
    .runIo 1 0 EPOLLOUT .ok [] [.accepted 144],
    .runIo 1 0 EPOLLIN .ok [.data 0 (List.replicate 7 0)] []]

/-- The first request is answered after it. -/
private def answerFirst : List Call :=
  [.runIo 0 0 EPOLLIN .ok [.data 0 (List.replicate 7 0)] []]

private def turnsRun (calls : List Call) : EStateM.Result Reason
    (Program maxOutstandingReqs charbufSize) Unit := run turns calls (start 0)

theorem run_refines_turns : turns.Valid ∧
    (∃ net calls',
      List.Forall₂ SameKind (answerSecond ++ answerFirst) calls' ∧
      onThrow Reason.stop (onState (fun p => bare p.client)
          (turnsRun (answerSecond ++ answerFirst))) =
        onState bare
          ((turns.experiment net).run calls' (Experiment.new 0))) ∧
      ∀ reason, thrown (turnsRun (answerSecond ++ answerFirst)) =
        some reason → Orderly turns reason :=
  ⟨turns_valid, run_refines turns_valid 0 (answerSecond ++ answerFirst)⟩

/-! ## While it runs -/

/-- **What is known between two calls**: every request was handed to one
connection, every connection told about its first requests in their order and
each once, and counts its references; a request that was not told waits. -/
structure Balanced (u : Setting) (p : Program R C) : Prop where
  made : (p.links.flatMap Link.made).Perm
    (List.range p.client.core.sentCount)
  order : ∀ (g : Nat) (l : Link R C), p.links[g]? = some l →
    InOrder u l.made l.gen.done
  refs : ∀ (g : Nat) (l : Link R C), p.links[g]? = some l →
    ∃ c, l.gen.shared.refs = .ok c ∧ c.Right (p.pooled g + l.waits.length)
  rcvd : p.client.core.rcvdCount + p.outstanding.length =
    p.client.core.sentCount
  samples : p.client.core.results.service.samples.Perm p.lines

theorem Mirrors.balanced {c : Client} (h : Mirrors u net p c)
    (hcounted : Experiment.Running (u.experiment net) c.core) :
    Balanced u p := by
  have hbooks := h.tracks.books
  obtain ⟨asked, hnone, hpending⟩ := hbooks.pending
  rw [List.eq_nil_of_length_eq_zero hnone, List.nil_append] at hpending
  have hlinks := h.tracks.sound.links
  refine ⟨h.tracks.sound.made, fun g l hl => (hlinks g l hl).gen.order,
    fun g l hl => (hlinks g l hl).refs, ?_, ?_⟩
  · have hwaits := hpending.length_eq
    have hlength := hcounted.done.length_eq
    rw [List.length_map] at hwaits
    rw [hcounted.sends, List.length_append, List.length_map,
      List.length_range, Core.begun, h.tracks.idle, ← hcounted.rcvd] at hlength
    rw [hbooks.like.rcvdCount, hbooks.like.sentCount, ← hwaits]
    simpa [Nat.add_comm] using hlength
  · have hsamples := hbooks.samples
    rw [show measured [] = [] from rfl, List.append_nil] at hsamples
    rwa [hbooks.like.results]

/-- **Nothing is lost** while the program runs. -/
theorem run_balances (hu : u.Valid) {clock : Int} {calls : List Call}
    (hruns : returned (run u calls (start clock : Program R C)) = true) :
    Balanced u (after (run u calls (start clock : Program R C))) := by
  obtain ⟨net, calls', c, hrun, hmirrors⟩ := run_mirrors hu hruns
  exact hmirrors.balanced
    ((Experiment.run_triple clock calls').of_ok rfl hrun).idle.toRunning

theorem run_balances_turns :
    returned (turnsRun answerSecond) = true ∧
      Balanced turns (after (turnsRun answerSecond)) :=
  ⟨by decide +kernel, run_balances turns_valid (by decide +kernel)⟩

/-! ## The exit -/

/-- Everything was answered. -/
theorem pending_of_finished {e : Experiment} {c : Core}
    (h : Experiment.Finished e c) : c.pending = [] := by
  have hlength := h.done.length_eq
  have hrcvd := h.rcvd.symm.trans h.rcvd_eq
  rw [h.sends, h.all.1, List.length_append, List.length_map,
    List.length_range] at hlength
  exact List.eq_nil_of_length_eq_zero (by omega)

/-- **What is known at the exit**: every request was handed to one connection,
every connection told about its requests in their order and each once, the
samples are those that were measured, and they are what is printed. -/
structure Exited (u : Setting) (p : Program R C) : Prop where
  made : (p.links.flatMap Link.made).Perm (List.range u.plan.totalSamples)
  serials : ∀ (g : Nat) (l : Link R C), p.links[g]? = some l →
    l.gen.done.map (·.serial) = List.range l.made.length
  flags : ∀ (g : Nat) (l : Link R C), p.links[g]? = some l →
    l.gen.done.map (·.measure) = l.made.map u.offline.measure
  samples : p.client.core.results.service.samples.Perm p.lines
  measured : p.client.core.measureCount = u.plan.measureSamples
  output : u.cfg.machineReadable = true →
    p.client.core.output = p.client.core.lines

/-- An experiment that exits has no request left. -/
theorem Over.exited {reason : Reason} {c : Client} (h : Over u net reason p c)
    (hfinished : Experiment.Finished (u.experiment net) c.core)
    (houtput : u.cfg.machineReadable = true →
      c.core.output = c.core.lines) : Exited u p := by
  obtain ⟨late, hbooks⟩ := h.ended.books
  obtain ⟨hbegun, hmeasured⟩ := hfinished.all
  obtain ⟨asked, hlate, hpending⟩ := hbooks.pending
  rw [pending_of_finished hfinished] at hpending
  obtain ⟨hasked, hnone⟩ := List.append_eq_nil_iff.mp
    (List.map_eq_nil_iff.mp hpending.symm.eq_nil)
  rw [hasked, List.length_nil] at hlate
  have hall (g : Nat) (l : Link R C) (hl : p.links[g]? = some l) :
      l.gen.done.length = l.made.length := by
    have hwaits := List.flatMap_eq_nil_iff.mp hnone l (List.mem_of_getElem? hl)
    have hlength := (h.ended.order g l hl).length_le
    rw [Link.waits, List.drop_eq_nil_iff] at hwaits
    omega
  refine ⟨?_, fun g l hl => ?_, fun g l hl => ?_, ?_, ?_, fun hraw => ?_⟩
  · have hmade := h.ended.made
    rwa [hbegun] at hmade
  · rw [(h.ended.order g l hl).serials, hall g l hl]
  · refine (h.ended.order g l hl).flags.eq_of_length ?_
    rw [List.length_map, List.length_map, hall g l hl]
  · have hsamples := hbooks.samples
    rw [List.eq_nil_of_length_eq_zero hlate.symm,
      show measured [] = [] from rfl, List.append_nil] at hsamples
    rwa [hbooks.like.results]
  · rw [hbooks.like.measureCount, hmeasured]
    rfl
  · rw [Core.lines, hbooks.like.results, hbooks.like.reads Core.output
      fun _ => rfl]
    exact houtput hraw

/-- It has come to its exit in a run. -/
theorem Over.exit {reason : Reason} {c : Client} (h : Over u net reason p c)
    {clock : Int}
    {calls : List Experiment.Call} (hrun : (u.experiment net).run calls
      (Experiment.new clock) = .error .exit c) : Exited u p := by
  have hstopped := ((Experiment.run_triple clock calls).of_error rfl
    hrun).stopped
  refine h.exited ?_ fun hraw => ?_
  · cases hstopped with
    | exit hfinished => exact hfinished
    | halfPrinted hfinished hstop => exact hfinished
  · exact (Experiment.exitsWith_run (e := u.experiment net) hraw
      calls).of_error trivial hrun rfl

/-- **The exit**, in every run of the program. -/
theorem run_exits (hu : u.Valid) {clock : Int} {calls : List Call}
    (hexit : thrown (run u calls (start clock : Program R C)) =
      some (.client .exit)) :
    Exited u (after (run u calls (start clock : Program R C))) := by
  obtain ⟨net, calls', c, hrun, hover⟩ := run_over hu hexit
  exact hover.exit hrun

theorem run_exits_turns :
    thrown (turnsRun (answerSecond ++ answerFirst)) = some (.client .exit) ∧
      Exited turns (after (turnsRun (answerSecond ++ answerFirst))) :=
  ⟨by decide +kernel, run_exits turns_valid (by decide +kernel)⟩

end Program

end Mutated.Ports
