import Mutated.Ports.ClientRuns

/-!
# What a run sends, measures and prints

## Main results

* `run_accounts`: what was sent, measured and printed.
* `summary_totals_iff`: when the totals that are printed are complete.
-/

namespace Mutated.Ports.Load

open Mutated.Verified.Exec
open Mutated.Verified.History

namespace Experiment

variable {e : Experiment} {c : Client}

/-! ## What was sent, measured and printed -/

/-- `print_summary` runs when everything is answered. -/
def PrintedLast (e : Experiment) (past : List Event) (ev : Event) : Prop :=
  ev = .printSummary → (donesOf past).length = e.plan.totalSamples

/-- **The accounts of an experiment.** -/
structure Accounted (e : Experiment) (c : Core) : Prop where
  sends : sendsOf c.log = (List.range c.begun).map e.request
  begun_le : c.begun ≤ e.plan.totalSamples
  started : c.log.count .startMeasurements =
    if e.plan.preSamples < c.begun then 1 else 0
  startedBefore : Always StartedBefore c.log
  answered : (c.pending ++ donesOf c.log).Perm (sendsOf c.log)
  ended : c.log.count .endMeasurements =
    if (donesOf c.log).countP (·.measure) = e.plan.measureSamples then 1 else 0
  endedLast : Always e.EndedLast c.log
  printed : c.log.count .printSummary =
    if (donesOf c.log).length = e.plan.totalSamples ∧
      c.results.measureStart < c.results.measureEnd then 1 else 0
  printedLast : Always e.PrintedLast c.log
  samples : .printSummary ∈ c.log →
    c.results.queue.size = e.plan.measureSamples ∧
      c.results.service.size = e.plan.measureSamples ∧
      c.results.wait.size = e.plan.measureSamples

variable {core : Core}

/-- The end of the measurements, if something is measured. -/
theorem Answered.ended_iff (h : Answered e core)
    (hmeasure : 0 < e.plan.measureSamples) :
    core.log.count .endMeasurements =
      if (donesOf core.log).countP (·.measure) = e.plan.measureSamples then 1
      else 0 := by
  rw [h.ended, ← h.measured]
  refine if_congr ⟨fun hall => hall.2, fun hall => ⟨?_, hall⟩⟩ rfl rfl
  omega

/-- Accounts without a summary. -/
theorem Accounted.unprinted (hs : Sending e core) (ha : Answered e core)
    (hmeasure : 0 < e.plan.measureSamples)
    (hprint : .printSummary ∉ core.log)
    (hopen : ¬ ((donesOf core.log).length = e.plan.totalSamples ∧
      core.results.measureStart < core.results.measureEnd)) :
    Accounted e core where
  sends := hs.sends
  begun_le := hs.begun_le
  started := hs.started
  startedBefore := hs.startedBefore
  answered := ha.done
  ended := ha.ended_iff hmeasure
  endedLast := ha.endedLast
  printed := by rw [List.count_eq_zero_of_not_mem hprint, if_neg hopen]
  printedLast := by
    rintro past ev rest hlog rfl
    exact absurd (hlog ▸ List.mem_append_right _ List.mem_cons_self) hprint
  samples := fun hmem => absurd hmem hprint

theorem Running.accounted (h : Running e core)
    (hmeasure : 0 < e.plan.measureSamples) : Accounted e core := by
  refine .unprinted h.toSending h.toAnswered hmeasure h.unprinted fun hall => ?_
  have hrcvd := h.rcvd
  have hlt := h.rcvd_lt
  omega

/-- Everything was sent and answered. -/
theorem Finished.all (h : Finished e core) :
    core.begun = e.plan.totalSamples ∧
      core.measureCount = e.plan.measureSamples := by
  have hle := h.length_le h.toSending
  have hbegun := h.begun_le
  have hrcvd := h.rcvd.symm.trans h.rcvd_eq
  have hlength := h.done.length_eq
  have htotal := e.plan.total_eq
  have hsent : core.begun = e.plan.totalSamples := by omega
  rw [h.sends, hsent, List.length_append, List.length_map, List.length_range]
    at hlength
  have hnone : core.pending = [] :=
    List.eq_nil_of_length_eq_zero (by omega)
  have hcount := h.done.countP_eq (·.measure)
  rw [hnone, List.nil_append, ← h.measured, h.sends, hsent, e.countP_request]
    at hcount
  exact ⟨hsent, by omega⟩

theorem Finished.accounted (h : Finished e core)
    (hmeasure : 0 < e.plan.measureSamples) : Accounted e core := by
  obtain ⟨hsent, hall⟩ := h.all
  obtain ⟨before, hlog, hbefore⟩ := h.printed
  have hdones : donesOf core.log = donesOf before := by
    rw [hlog, donesOf_append]
    exact List.append_nil _
  have hanswered : (donesOf core.log).length = e.plan.totalSamples :=
    h.rcvd.symm.trans h.rcvd_eq
  refine ⟨h.sends, h.begun_le, h.started, h.startedBefore, h.done,
    h.toAnswered.ended_iff hmeasure, h.endedLast, ?_, ?_, fun _ => ?_⟩
  · rw [if_pos ⟨hanswered, h.timed (by omega) hall⟩, hlog, List.count_append,
      List.count_eq_zero_of_not_mem hbefore]
    rfl
  · rw [hlog]
    refine always_snoc.mpr ⟨?_, fun _ => hdones ▸ hanswered⟩
    rintro past ev rest hsplit rfl
    exact absurd (hsplit ▸ List.mem_append_right _ List.mem_cons_self) hbefore
  · exact ⟨h.queue.trans hall, h.service.trans hall, h.wait.trans hall⟩

/-- **Every run keeps its accounts**: the measured requests are those that the
schedule says, the measurements start before the first of them and end with the
last response to one, and the summary is printed with the last response of
all, if the measurements took time. -/
theorem run_accounts (hmeasure : 0 < e.plan.measureSamples) (clock : Int)
    (calls : List Call) :
    Accounted e (after (e.run calls (new clock))).core := by
  cases hrun : e.run calls (new clock) with
  | ok a c =>
      exact ((run_triple clock calls).of_ok rfl hrun).idle.accounted hmeasure
  | error stop c =>
      have hover := (run_triple clock calls).of_error rfl hrun
      cases hover.stopped with
      | exit h => exact h.accounted hmeasure
      | failed h => exact h.accounted hmeasure
      | early h hclock =>
          exact .unprinted h.toSending h.toAnswered hmeasure h.unprinted
            fun hall => absurd hall.2 (Int.not_lt.mpr hclock)
      | halfPrinted h hstop => exact h.accounted hmeasure

/-- Two requests, a microsecond apart, which are answered later. -/
private def coupleLater : Experiment where
  cfg := {}
  plan := .measuring 0 [1000]
  net := fun _ => ⟨[], 1, 0, false⟩
  beyond := fun _ => 0

/-- The second request is answered first. -/
private def secondFirst : List Call :=
  [.wait 1000, .timer, .runIo ⟨[⟨1, 1000, 0, 0, 0, 1⟩], 0, 0, false⟩,
    .runIo ⟨[⟨0, 1000, 0, 0, 0, 1⟩], 0, 0, false⟩]

theorem run_accounts_secondFirst :
    donesOf (after (coupleLater.run secondFirst (new 0))).core.log =
        [⟨1, true⟩, ⟨0, true⟩] ∧
      0 < coupleLater.plan.measureSamples ∧
      Accounted coupleLater
        (after (coupleLater.run secondFirst (new 0))).core :=
  ⟨by decide +kernel, by decide, run_accounts (by decide) 0 secondFirst⟩

/-- One request, which is answered while it is sent, after `took`
nanoseconds. -/
private def answeredAfter (took : Nat) : Experiment where
  cfg := {}
  plan := .measuring 0 []
  net := fun _ => ⟨[⟨0, took, 0, 0, 0, 1⟩], 1, 0, false⟩
  beyond := fun _ => 0

/-- There is no time between the request and its response. -/
theorem not_printed_at_once :
    donesOf (after ((answeredAfter 0).run [] (new 0))).core.log =
        [⟨0, true⟩] ∧
      (answeredAfter 0).plan.totalSamples = 1 ∧
      .printSummary ∉ (after ((answeredAfter 0).run [] (new 0))).core.log := by
  decide

/-! ## The totals that are printed -/

theorem Finished.totals_iff (h : Finished e core) :
    (core.results.txBytes = e.measuredBytes e.plan.totalSamples ∧
        core.sentCount = e.plan.totalSamples) ↔
      core.sending = false := by
  have hsent := h.all.1
  constructor
  · rintro ⟨-, hcount⟩
    by_contra hsending
    rw [Core.begun, if_pos (by simpa using hsending)] at hsent
    omega
  · intro hidle
    rw [begun_of_idle hidle] at hsent
    exact ⟨by rw [h.txBytes, hsent], hsent⟩

/-- The summary is printed once everything is answered. -/
theorem run_finished {clock : Int} {calls : List Call}
    (hprint : .printSummary ∈
      (after (e.run calls (new clock))).core.log) :
    Finished e (after (e.run calls (new clock))).core := by
  cases hrun : e.run calls (new clock) with
  | ok a c =>
      rw [hrun] at hprint
      exact absurd hprint
        ((run_triple clock calls).of_ok rfl hrun).idle.unprinted
  | error stop c =>
      rw [hrun] at hprint
      cases ((run_triple clock calls).of_error rfl hrun).stopped with
      | exit h => exact h
      | failed h => exact absurd hprint h.unprinted
      | early h hclock => exact absurd hprint h.unprinted
      | halfPrinted h hstop => exact h

/-- **The totals are complete** exactly if the last response is not handed
over while its request is sent.  The summary ends the program before the bytes
and the request are counted. -/
theorem summary_totals_iff {clock : Int} {calls : List Call}
    (hprint : .printSummary ∈
      (after (e.run calls (new clock))).core.log) :
    ((after (e.run calls (new clock))).core.results.txBytes =
        e.measuredBytes e.plan.totalSamples ∧
      (after (e.run calls (new clock))).core.sentCount =
        e.plan.totalSamples) ↔
      (after (e.run calls (new clock))).core.sending = false :=
  (run_finished hprint).totals_iff

theorem summary_totals_iff_secondFirst :
    .printSummary ∈
        (after (coupleLater.run secondFirst (new 0))).core.log ∧
      (((after (coupleLater.run secondFirst (new 0))).core.results.txBytes =
          coupleLater.measuredBytes coupleLater.plan.totalSamples ∧
        (after (coupleLater.run secondFirst (new 0))).core.sentCount =
          coupleLater.plan.totalSamples) ↔
        (after (coupleLater.run secondFirst (new 0))).core.sending = false) ∧
      (after (coupleLater.run secondFirst (new 0))).core.sending = false :=
  ⟨by decide +kernel, summary_totals_iff (by decide +kernel),
    by decide +kernel⟩

/-- The response comes while the request is sent. -/
theorem not_summary_totals_at_once :
    .printSummary ∈
        (after ((answeredAfter 1000).run [] (new 0))).core.log ∧
      (after ((answeredAfter 1000).run [] (new 0))).core.results.txBytes = 0 ∧
      (answeredAfter 1000).measuredBytes 1 = 1 ∧
      (after ((answeredAfter 1000).run [] (new 0))).core.sentCount = 0 := by
  decide

end Experiment

end Mutated.Ports.Load
