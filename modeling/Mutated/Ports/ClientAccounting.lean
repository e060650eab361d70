import Mathlib.Data.List.Perm.Basic
import Mathlib.Data.UInt
import Mutated.Ports.Client
import Mutated.Verified.History

/-!
# Which samples an experiment takes

A request is sent once, and answered once, in whatever order the responses
come: after it was sent or while it is, and during any other call.  The
counters of the client are compared for equality, so each of these comparisons
has to be met once in every order.

`Sending` and `Answered` are the invariants of the two sides: what was sent,
and what was answered of that.  `Running` is both, before anything is printed,
and `Finished` both, once the summary is.

## Main results

`serve_triple` and `sendOne_triple` say that the responses of one call and one
request keep the invariant, or end the experiment as `Stopped` allows.
-/

namespace Mutated.Ports.Load

open Mutated.Verified.Exec
open Mutated.Verified.History

/-! ## What the log says -/

def sendsOf (log : List Event) : List Request :=
  log.filterMap fun
    | .send req => some req
    | _ => none

def donesOf (log : List Event) : List Request :=
  log.filterMap fun
    | .complete req => some req
    | _ => none

@[simp] theorem sendsOf_append (t u : List Event) :
    sendsOf (t ++ u) = sendsOf t ++ sendsOf u := List.filterMap_append

@[simp] theorem donesOf_append (t u : List Event) :
    donesOf (t ++ u) = donesOf t ++ donesOf u := List.filterMap_append

/-- The number of requests that were handed to a connection. -/
def Core.begun (c : Core) : Nat := c.sentCount + if c.sending then 1 else 0

/-- What responses leave alone: the number of requests, and whether one is
being sent. -/
def Core.place (c : Core) : Nat × Bool := (c.sentCount, c.sending)

/-- A sample does not take time either. -/
def Core.stage (c : Core) : (Nat × Bool) × Int := (c.place, c.clock)

namespace Experiment

variable (e : Experiment)

/-- The `i`-th request. -/
def request (i : Nat) : Request := ⟨i, e.measure i⟩

/-- The bytes of the measured ones of the first `n` requests. -/
def measuredBytes (n : Nat) : UInt64 :=
  (((List.range n).filter e.measure).map fun i => (e.net i).bytes).sum

/-- How many of the first `n` requests are measured. -/
theorem countP_request (n : Nat) :
    ((List.range n).map e.request).countP (·.measure) =
      min (n - e.plan.preSamples) e.plan.measureSamples := by
  induction n with
  | zero => simp
  | succ n ih =>
      rw [List.range_succ, List.map_append, List.countP_append, ih]
      simp only [List.map_cons, List.map_nil, List.countP_singleton, request,
        measure, Bool.and_eq_true, decide_eq_true_eq]
      split <;> omega

theorem measuredBytes_succ (n : Nat) :
    e.measuredBytes (n + 1) = e.measuredBytes n +
      if e.measure n then (e.net n).bytes else 0 := by
  rw [measuredBytes, List.range_succ, List.filter_append, List.map_append,
    List.sum_append]
  congr 1
  by_cases h : e.measure n = true
  · simp [h]
  · simp [h]

/-! ## The invariants -/

/-- Measured requests are sent after the measurements were started. -/
def StartedBefore (past : List Event) (ev : Event) : Prop :=
  ∀ req, ev = .send req → req.measure = true → .startMeasurements ∈ past

/-- **What was sent.** -/
structure Sending (c : Core) : Prop where
  sends : sendsOf c.log = (List.range c.begun).map e.request
  started : c.log.count .startMeasurements =
    if e.plan.preSamples < c.begun then 1 else 0
  startedBefore : Always StartedBefore c.log
  begun_le : c.begun ≤ e.plan.totalSamples
  txBytes : c.results.txBytes = e.measuredBytes c.sentCount

/-- The measurements end with the response to the last measured request. -/
def EndedLast (past : List Event) (ev : Event) : Prop :=
  ev = .endMeasurements →
    (∃ before req, past = before ++ [.complete req] ∧ req.measure = true) ∧
      (donesOf past).countP (·.measure) = e.plan.measureSamples

/-- The responses and their samples. -/
structure Tallied (c : Core) : Prop where
  done : (c.pending ++ donesOf c.log).Perm (sendsOf c.log)
  measured : c.measureCount = (donesOf c.log).countP (·.measure)
  queue : c.results.queue.size = c.measureCount
  service : c.results.service.size = c.measureCount
  wait : c.results.wait.size = c.measureCount
  endedLast : Always e.EndedLast c.log

/-- **What was answered.** -/
structure Answered (c : Core) : Prop extends Tallied e c where
  ended : c.log.count .endMeasurements =
    if 0 < c.measureCount ∧ c.measureCount = e.plan.measureSamples then 1
    else 0

/-- The measurements took time. -/
def Timed (c : Core) : Prop :=
  0 < c.measureCount → c.measureCount = e.plan.measureSamples →
    c.results.measureStart < c.results.measureEnd

/-- The invariant while a response is counted. -/
structure Owing (c : Core) : Prop extends Sending e c, Answered e c where
  rcvd : c.rcvdCount + 1 = (donesOf c.log).length
  unprinted : .printSummary ∉ c.log

/-- Both sides, before anything is printed. -/
structure Counted (c : Core) : Prop extends Sending e c, Answered e c where
  timed : e.Timed c
  rcvd : c.rcvdCount = (donesOf c.log).length
  unprinted : .printSummary ∉ c.log

/-- **The invariant** while the experiment runs. -/
structure Running (c : Core) : Prop extends Counted e c where
  rcvd_lt : c.rcvdCount < e.plan.totalSamples

/-- The invariant once the summary is printed. -/
structure Finished (c : Core) : Prop extends Sending e c, Answered e c where
  timed : e.Timed c
  rcvd : c.rcvdCount = (donesOf c.log).length
  rcvd_eq : c.rcvdCount = e.plan.totalSamples
  printed : ∃ before, c.log = before ++ [.printSummary] ∧
    .printSummary ∉ before

/-- How a call of the client ends when it does not return. -/
inductive Stopped : Stop → Core → Prop
  | exit {c : Core} (h : Finished e c) : Stopped .exit c
  | failed {c : Core} (h : Running e c) : Stopped .connection c
  | early {c : Core} (h : Owing e c)
      (hclock : c.results.measureEnd ≤ c.results.measureStart) :
      Stopped tooEarly c
  | halfPrinted {stop : Stop} {c : Core} (h : Finished e c)
      (hstop : stop = noSamples ∧ c.results.service.size = 0 ∨
        stop = tooEarly ∧ c.results.measureEnd ≤ c.results.measureStart) :
      Stopped stop c

variable {e} {c c' : Core}

/-! ## What the invariants speak of -/

theorem Sending.congr (h : Sending e c) (hlog : c'.log = c.log)
    (hbegun : c'.begun = c.begun) (hsent : c'.sentCount = c.sentCount)
    (htx : c'.results.txBytes = c.results.txBytes) : Sending e c' := by
  refine ⟨?_, ?_, ?_, ?_, ?_⟩
  · rw [hlog, hbegun]; exact h.sends
  · rw [hlog, hbegun]; exact h.started
  · rw [hlog]; exact h.startedBefore
  · rw [hbegun]; exact h.begun_le
  · rw [htx, hsent]; exact h.txBytes

/-- Events of the other side. -/
theorem Sending.snoc (h : Sending e c) {ev : Event}
    (hev : ev ≠ .startMeasurements) (hsend : ∀ req, ev ≠ .send req) :
    Sending e { c with log := c.log ++ [ev] } := by
  refine ⟨?_, ?_, ?_, h.begun_le, h.txBytes⟩
  · have hnone : sendsOf [ev] = [] := by
      cases ev with
      | send req => exact absurd rfl (hsend req)
      | _ => rfl
    show sendsOf (c.log ++ [ev]) = _
    rw [sendsOf_append, hnone, List.append_nil]
    exact h.sends
  · show (c.log ++ [ev]).count _ = _
    rw [List.count_append, List.count_singleton, if_neg (by simpa using hev)]
    exact h.started
  · exact always_snoc.mpr
      ⟨h.startedBefore, fun req heq => absurd heq (hsend req)⟩

theorem Sending.completed (h : Sending e c) (req : Request) :
    Sending e (c.completed req) :=
  (h.snoc (show Event.complete req ≠ _ by simp) (by simp)).congr rfl rfl rfl
    rfl

theorem Tallied.congr (h : Tallied e c) (hlog : c'.log = c.log)
    (hpending : c'.pending = c.pending)
    (hcount : c'.measureCount = c.measureCount)
    (hqueue : c'.results.queue = c.results.queue)
    (hservice : c'.results.service = c.results.service)
    (hwait : c'.results.wait = c.results.wait) : Tallied e c' := by
  refine ⟨?_, ?_, ?_, ?_, ?_, ?_⟩
  · rw [hlog, hpending]; exact h.done
  · rw [hlog, hcount]; exact h.measured
  · rw [hqueue, hcount]; exact h.queue
  · rw [hservice, hcount]; exact h.service
  · rw [hwait, hcount]; exact h.wait
  · rw [hlog]; exact h.endedLast

theorem Answered.congr (h : Answered e c) (hlog : c'.log = c.log)
    (hpending : c'.pending = c.pending)
    (hcount : c'.measureCount = c.measureCount)
    (hqueue : c'.results.queue = c.results.queue)
    (hservice : c'.results.service = c.results.service)
    (hwait : c'.results.wait = c.results.wait) : Answered e c' :=
  ⟨h.toTallied.congr hlog hpending hcount hqueue hservice hwait,
    by rw [hlog, hcount]; exact h.ended⟩

/-- An event that is not about a request. -/
theorem Tallied.snoc (h : Tallied e c) {ev : Event}
    (hsend : ∀ req, ev ≠ .send req) (hdone : ∀ req, ev ≠ .complete req)
    (hlast : e.EndedLast c.log ev) :
    Tallied e { c with log := c.log ++ [ev] } := by
  have hsends : sendsOf [ev] = [] := by
    cases ev with
    | send req => exact absurd rfl (hsend req)
    | _ => rfl
  have hdones : donesOf [ev] = [] := by
    cases ev with
    | complete req => exact absurd rfl (hdone req)
    | _ => rfl
  have hsame : sendsOf (c.log ++ [ev]) = sendsOf c.log ∧
      donesOf (c.log ++ [ev]) = donesOf c.log := by
    rw [sendsOf_append, donesOf_append, hsends, hdones, List.append_nil,
      List.append_nil]
    exact ⟨rfl, rfl⟩
  refine ⟨?_, ?_, h.queue, h.service, h.wait,
    always_snoc.mpr ⟨h.endedLast, hlast⟩⟩
  · show (c.pending ++ donesOf (c.log ++ [ev])).Perm (sendsOf (c.log ++ [ev]))
    rw [hsame.1, hsame.2]
    exact h.done
  · show _ = (donesOf (c.log ++ [ev])).countP _
    rw [hsame.2]
    exact h.measured

theorem Answered.snoc (h : Answered e c) {ev : Event}
    (hend : ev ≠ .endMeasurements) (hsend : ∀ req, ev ≠ .send req)
    (hdone : ∀ req, ev ≠ .complete req) :
    Answered e { c with log := c.log ++ [ev] } := by
  refine ⟨h.toTallied.snoc hsend hdone fun heq => absurd heq hend, ?_⟩
  show (c.log ++ [ev]).count _ = _
  rw [List.count_append, List.count_singleton, if_neg (by simpa using hend)]
  exact h.ended

/-- No more is answered than was sent. -/
theorem Tallied.length_le (h : Tallied e c) (hs : Sending e c) :
    (donesOf c.log).length ≤ c.begun := by
  have hlen := h.done.length_eq
  rw [hs.sends, List.length_append, List.length_map, List.length_range] at hlen
  omega

/-- No more is measured than there is to measure. -/
theorem Tallied.measured_le (h : Tallied e c) (hs : Sending e c) :
    c.measureCount ≤ e.plan.measureSamples := by
  have hcount := h.done.countP_eq (·.measure)
  rw [hs.sends, e.countP_request, List.countP_append] at hcount
  rw [h.measured]
  omega

/-! ## One response -/

theorem runningTime_triple {P : Core → Prop} :
    Triple P Core.runningTime
      (fun _ c => P c ∧ c.results.measureStart < c.results.measureEnd)
      (fun stop c => stop = tooEarly ∧
        P c ∧ c.results.measureEnd ≤ c.results.measureStart) := by
  refine .get fun c hc => ?_
  rw [Results.runningTime]
  by_cases hstill : c.results.measureEnd - c.results.measureStart ≤ 0
  · rw [if_pos hstill]
    exact .throw fun s hs => ⟨rfl, hs ▸ hc, by subst hs; omega⟩
  · rw [if_neg hstill]
    exact .pure fun s hs => ⟨hs ▸ hc, by subst hs; omega⟩

/-- **`print_summary`** runs once everything is answered. -/
theorem printSummary_triple :
    Triple (fun c => Counted e c ∧ c.rcvdCount = e.plan.totalSamples)
      e.printSummary (fun _ => Finished e) (Stopped e) := by
  refine .bind (Q := fun _ => Finished e) (.modify fun c h => ?_) fun _ => ?_
  · refine ⟨h.1.toSending.snoc (by simp) (by simp),
      h.1.toAnswered.snoc (by simp) (by simp) (by simp), h.1.timed, ?_, h.2,
      ⟨c.log, rfl, h.1.unprinted⟩⟩
    show _ = (donesOf (c.log ++ [Event.printSummary])).length
    rw [donesOf_append]
    exact h.1.rcvd.trans (by simp [donesOf])
  · refine .ite (fun _ => .modify fun c h => ?_) fun _ => .get fun c hc => ?_
    · exact ⟨h.toSending.congr rfl rfl rfl rfl,
        h.toAnswered.congr rfl rfl rfl rfl rfl rfl, h.timed, h.rcvd,
        h.rcvd_eq, h.printed⟩
    · refine .ite (fun hzero => .throw ?_) fun _ => ?_
      · rintro s rfl
        exact .halfPrinted hc (.inl ⟨rfl, hzero⟩)
      · refine .bind (Q := fun _ => Finished e) ?_ fun _ => .pure fun _ h => h
        refine (runningTime_triple (P := Finished e)).mono ?_
          (fun _ _ h => h.1) ?_
        · rintro s rfl
          exact hc
        · rintro stop s ⟨rfl, h, hclock⟩
          exact .halfPrinted h (.inr ⟨rfl, hclock⟩)

theorem countReceived_triple :
    Triple (fun c => Owing e c ∧ e.Timed c) e.countReceived
      (fun _ => Running e) (Stopped e) := by
  refine .bind (Q := fun _ => Counted e) (.modify fun c h => ?_) fun _ =>
    .get fun c hc => .runIf (fun hall => ?_) fun hless => ?_
  · exact ⟨h.1.toSending.congr rfl rfl rfl rfl,
      h.1.toAnswered.congr rfl rfl rfl rfl rfl rfl, h.2, h.1.rcvd,
      h.1.unprinted⟩
  · have hle := hc.length_le hc.toSending
    have hbegun := hc.begun_le
    have hrcvd := hc.rcvd
    refine .bind (printSummary_triple.mono ?_ (fun _ _ h => h) fun _ _ h => h)
      fun _ => .throw fun s h => .exit h
    rintro s rfl
    exact ⟨hc, by omega⟩
  · rintro s rfl
    exact ⟨hc, by omega⟩

/-- **A request that waits is answered**; if it is measured, its sample is
there as well. -/
theorem Tallied.step (h : Tallied e c) {req : Request}
    (hmem : req ∈ c.pending) (hlog : c'.log = c.log ++ [.complete req])
    (hpending : c'.pending = c.pending.erase req)
    (hcount : c'.measureCount = c.measureCount + if req.measure then 1 else 0)
    (hqueue : c'.results.queue.size = c'.measureCount)
    (hservice : c'.results.service.size = c'.measureCount)
    (hwait : c'.results.wait.size = c'.measureCount) : Tallied e c' := by
  have hdones : donesOf c'.log = donesOf c.log ++ [req] := by
    rw [hlog, donesOf_append]
    rfl
  have hsends : sendsOf c'.log = sendsOf c.log := by
    rw [hlog, sendsOf_append]
    exact List.append_nil _
  refine ⟨?_, ?_, hqueue, hservice, hwait, ?_⟩
  · rw [hdones, hsends, hpending, ← List.append_assoc]
    refine (List.perm_append_comm.trans ?_).trans h.done
    exact (List.perm_cons_erase hmem).symm.append_right (donesOf c.log)
  · rw [hdones, List.countP_append, List.countP_singleton, hcount, h.measured]
  · rw [hlog]
    exact always_snoc.mpr ⟨h.endedLast, fun heq => by cases heq⟩

/-- A response to a request that is not measured. -/
theorem Running.owing (h : Running e c) {req : Request}
    (hmem : req ∈ c.pending) (hmeasure : req.measure = false) :
    Owing e (c.completed req) := by
  have htallied : Tallied e (c.completed req) :=
    h.toTallied.step hmem rfl rfl (by rw [hmeasure]; rfl) h.queue h.service
      h.wait
  refine ⟨h.toSending.completed req, ⟨htallied, ?_⟩, ?_, ?_⟩
  · show (c.log ++ [Event.complete req]).count _ = _
    rw [List.count_append]
    exact h.ended
  · show c.rcvdCount + 1 = (donesOf (c.log ++ [.complete req])).length
    rw [donesOf_append, List.length_append, h.rcvd]
    rfl
  · show _ ∉ c.log ++ [Event.complete req]
    simpa using h.unprinted

/-- The invariant once the sample of a measured request is there. -/
structure Sampled (e : Experiment) (c : Core) : Prop
    extends Sending e c, Tallied e c where
  positive : 0 < c.measureCount
  unended : .endMeasurements ∉ c.log
  last : ∃ before req, c.log = before ++ [.complete req] ∧ req.measure = true
  rcvd : c.rcvdCount + 1 = (donesOf c.log).length
  unprinted : .printSummary ∉ c.log

/-- A response to a measured request. -/
theorem Running.sampled (h : Running e c) {req : Request}
    (hmem : req ∈ c.pending) (hmeasure : req.measure = true)
    (comp : Completion) : Sampled e ((c.completed req).addSample comp) := by
  have htallied : Tallied e ((c.completed req).addSample comp) := by
    refine h.toTallied.step hmem rfl rfl (by rw [hmeasure]; rfl) ?_ ?_ ?_
    · exact (Accum.size_addSample _ _).trans (congrArg (· + 1) h.queue)
    · exact (Accum.size_addSample _ _).trans (congrArg (· + 1) h.service)
    · exact (Accum.size_addSample _ _).trans (congrArg (· + 1) h.wait)
  have hsending : Sending e ((c.completed req).addSample comp) :=
    (h.toSending.completed req).congr rfl rfl rfl rfl
  have hroom : c.measureCount + 1 ≤ e.plan.measureSamples :=
    htallied.measured_le hsending
  have hunended : .endMeasurements ∉ c.log := by
    apply List.count_eq_zero.mp
    rw [h.ended, if_neg (by omega)]
  refine ⟨hsending, htallied, Nat.succ_pos _, ?_, ⟨c.log, req, rfl, hmeasure⟩,
    ?_, ?_⟩
  · show _ ∉ c.log ++ [Event.complete req]
    simpa using hunended
  · show c.rcvdCount + 1 = (donesOf (c.log ++ [.complete req])).length
    rw [donesOf_append, List.length_append, h.rcvd]
    rfl
  · show _ ∉ c.log ++ [Event.complete req]
    simpa using h.unprinted

/-- **A sample**, and the end of the measurements with the last one. -/
theorem endMeasurements_triple :
    Triple (fun c => Sampled e c ∧ c.measureCount = e.plan.measureSamples)
      endMeasurements (fun _ c => Owing e c ∧ e.Timed c) (Stopped e) := by
  have hended : ∀ c, Sampled e c ∧ c.measureCount = e.plan.measureSamples →
      Owing e c.endMeasurements := by
    rintro c ⟨h, hlast⟩
    refine ⟨(h.toSending.snoc (show Event.endMeasurements ≠ _ by simp)
      (by simp)).congr rfl rfl rfl rfl, ⟨?_, ?_⟩, ?_, ?_⟩
    · have hall : e.EndedLast c.log .endMeasurements :=
        fun _ => ⟨h.last, h.measured.symm.trans hlast⟩
      exact (h.toTallied.snoc (by simp) (by simp) hall).congr rfl rfl rfl rfl
        rfl rfl
    · show (c.log ++ [Event.endMeasurements]).count _ = _
      rw [List.count_append, List.count_eq_zero_of_not_mem h.unended]
      exact (if_pos ⟨h.positive, hlast⟩).symm
    · show _ = (donesOf (c.log ++ [.endMeasurements])).length
      rw [donesOf_append]
      exact h.rcvd.trans (by simp [donesOf])
    · show _ ∉ c.log ++ [Event.endMeasurements]
      simpa using h.unprinted
  refine .bind (Q := fun _ => Owing e) (.modify hended) fun _ => ?_
  refine .bind (runningTime_triple.mono (fun _ h => h) (fun _ _ h => h) ?_)
    fun t => .modify fun c h => ?_
  · rintro stop c ⟨rfl, h, hclock⟩
    exact .early h hclock
  · exact ⟨⟨h.1.toSending.congr rfl rfl rfl rfl,
      h.1.toAnswered.congr rfl rfl rfl rfl rfl rfl, h.1.rcvd, h.1.unprinted⟩,
      fun _ _ => h.2⟩

theorem Running.advance (h : Running e c) (ns : Nat) :
    Running e (c.advance ns) :=
  ⟨⟨h.toSending.congr rfl rfl rfl rfl,
    h.toAnswered.congr rfl rfl rfl rfl rfl rfl, h.timed, h.rcvd, h.unprinted⟩,
    h.rcvd_lt⟩

/-- **A response** keeps the invariant, or ends the experiment. -/
theorem complete_triple (comp : Completion) :
    Triple (Running e) (e.complete comp) (fun _ => Running e) (Stopped e) := by
  refine .bind (Q := fun _ => Running e) (.modify fun c h => h.advance _)
    fun _ => .get fun c hc => ?_
  cases hfind : c.pending.find? fun req => req.index = comp.index with
  | none => exact .pure fun s hs => hs ▸ hc
  | some req =>
      have hmem := List.mem_of_find?_eq_some hfind
      refine .bind (Q := fun _ s => s = c.completed req)
        (.modify fun s hs => hs ▸ rfl) fun _ => ?_
      refine .bind (Q := fun _ c => Owing e c ∧ e.Timed c) ?_ fun _ =>
        countReceived_triple
      refine .runIf (fun hmeasure => ?_) fun hmeasure => ?_
      · refine .bind (Q := fun _ => Sampled e) (.modify ?_) fun _ =>
          .get fun d hd => .runIf (fun hlast => ?_) fun hless => ?_
        · rintro s rfl
          exact hc.sampled hmem hmeasure comp
        · refine endMeasurements_triple.mono ?_ (fun _ _ h => h) fun _ _ h => h
          rintro s rfl
          exact ⟨hd, hlast⟩
        · rintro s rfl
          refine ⟨⟨hd.toSending, ⟨hd.toTallied, ?_⟩, hd.rcvd, hd.unprinted⟩,
            fun _ hall => absurd hall hless⟩
          rw [List.count_eq_zero_of_not_mem hd.unended,
            if_neg fun h => hless h.2]
      · rintro s rfl
        exact ⟨hc.owing hmem (by simpa using hmeasure), hc.timed⟩

/-- **What a connection does** keeps the invariant. -/
theorem serve_triple (s : Served) :
    Triple (Running e) (e.serve s) (fun _ => Running e) (Stopped e) := by
  refine .bind (Q := fun _ => Running e) (.runAll complete_triple _) fun _ => ?_
  exact .bind (Q := fun _ => Running e) (.modify fun c h => h.advance _)
    fun _ => .runIf (fun _ => .throw fun c h => .failed h) fun _ c h => h

/-! ## One request -/

theorem runningTime_keeps : Keeps Core.stage Core.runningTime :=
  keeps_get fun c => by
    cases c.results.runningTime with
    | none => exact keeps_throw _
    | some t => exact keeps_pure t

theorem printSummary_keeps : Keeps Core.stage e.printSummary := by
  refine keeps_bind (keeps_modify fun _ => rfl) fun _ => ?_
  by_cases hraw : e.cfg.machineReadable = true
  · rw [if_pos hraw]
    exact keeps_modify fun _ => rfl
  · rw [if_neg hraw]
    refine keeps_get fun c => ?_
    by_cases hnone : c.results.service.size = 0
    · rw [if_pos hnone]
      exact keeps_throw _
    · rw [if_neg hnone]
      exact keeps_bind runningTime_keeps fun _ => keeps_pure ()

theorem recordSample_keeps (measure : Bool) (comp : Completion) :
    Keeps Core.stage (e.recordSample measure comp) := by
  refine keeps_bind (keeps_runIf ?_) fun _ => ?_
  · refine keeps_bind (keeps_modify fun _ => rfl) fun _ =>
      keeps_get fun c => keeps_runIf ?_
    exact keeps_bind (keeps_modify fun _ => rfl) fun _ =>
      keeps_bind runningTime_keeps fun _ => keeps_modify fun _ => rfl
  · refine keeps_bind (keeps_modify fun _ => rfl) fun _ =>
      keeps_get fun c => keeps_runIf ?_
    exact keeps_bind printSummary_keeps fun _ => keeps_throw _

theorem serve_keeps (s : Served) : Keeps Core.place (e.serve s) := by
  refine keeps_bind (keeps_runAll (fun comp => ?_) _) fun _ =>
    keeps_bind (keeps_modify fun _ => rfl) fun _ => keeps_runIf (keeps_throw _)
  refine keeps_bind (keeps_modify fun _ => rfl) fun _ => keeps_get fun c => ?_
  cases c.pending.find? fun req => req.index = comp.index with
  | none => exact keeps_pure ()
  | some req =>
      exact keeps_bind (keeps_modify fun _ => rfl) fun _ =>
        (recordSample_keeps req.measure comp).comp Prod.fst

/-- The invariant between two calls of a connection. -/
structure Idle (e : Experiment) (c : Core) : Prop extends Running e c where
  idle : c.sending = false

/-- The start of the measurements, if the next request is the first to be
measured. -/
def starting (e : Experiment) (c : Core) : Core :=
  if c.sentCount = e.plan.preSamples then c.startMeasurements else c

/-- Nothing changes but the log and the start of the measurements. -/
theorem starting_log (c : Core) : ∃ starts start,
    e.starting c = { c with
      results := { c.results with measureStart := start }
      log := c.log ++ starts } ∧
    starts =
      if c.sentCount = e.plan.preSamples then [.startMeasurements] else [] := by
  by_cases hpre : c.sentCount = e.plan.preSamples
  · exact ⟨_, c.clock, if_pos hpre, (if_pos hpre).symm⟩
  · refine ⟨[], c.results.measureStart, ?_, (if_neg hpre).symm⟩
    rw [starting, if_neg hpre, List.append_nil]

theorem begun_of_idle (h : c.sending = false) : c.begun = c.sentCount := by
  rw [Core.begun, h]
  rfl

theorem Idle.begun (h : Idle e c) : c.begun = c.sentCount :=
  begun_of_idle h.idle

/-- **The next request is sent**, behind the start of the measurements. -/
theorem Idle.sending_enter (h : Idle e c)
    (hlt : c.sentCount < e.plan.totalSamples) :
    Sending e ((e.starting c).enter (e.request c.sentCount)) := by
  obtain ⟨starts, start, hstarting, hstarts⟩ := starting_log (e := e) c
  rw [hstarting]
  have hsends := h.sends
  have hstarted := h.started
  rw [h.begun] at hsends hstarted
  have hnosend : sendsOf starts = [] := by
    rw [hstarts]
    split <;> rfl
  have hcount : starts.count .startMeasurements =
      if c.sentCount = e.plan.preSamples then 1 else 0 := by
    rw [hstarts]
    split <;> rfl
  refine ⟨?_, ?_, ?_, hlt, h.txBytes⟩
  · show sendsOf (c.log ++ starts ++ [.send (e.request c.sentCount)]) =
      (List.range (c.sentCount + 1)).map e.request
    rw [sendsOf_append, sendsOf_append, hsends, hnosend, List.append_nil,
      List.range_succ, List.map_append]
    rfl
  · show (c.log ++ starts ++ [Event.send (e.request c.sentCount)]).count _ =
      if e.plan.preSamples < c.sentCount + 1 then 1 else 0
    rw [List.count_append, List.count_append, hstarted, hcount,
      show [Event.send (e.request c.sentCount)].count .startMeasurements = 0
        by simp]
    split <;> split <;> split <;> omega
  · refine always_snoc.mpr ⟨?_, fun req heq hmeasure => ?_⟩
    · rw [hstarts]
      split
      · exact always_snoc.mpr ⟨h.startedBefore, by rintro req ⟨⟩⟩
      · rw [List.append_nil]
        exact h.startedBefore
    · cases heq
      have hpre : e.plan.preSamples ≤ c.sentCount := by
        simp only [request, measure, Bool.and_eq_true, decide_eq_true_eq]
          at hmeasure
        exact hmeasure.1
      show _ ∈ c.log ++ starts
      apply List.count_pos_iff.mp
      rw [List.count_append, hstarted, hcount]
      split <;> split <;> omega

theorem Answered.starting (h : Answered e c) : Answered e (e.starting c) := by
  by_cases hpre : c.sentCount = e.plan.preSamples
  · rw [Experiment.starting, if_pos hpre]
    exact (h.snoc (show Event.startMeasurements ≠ _ by simp) (by simp)
      (by simp)).congr rfl rfl rfl rfl rfl rfl
  · rwa [Experiment.starting, if_neg hpre]

/-- A request that is sent waits for its response. -/
theorem Answered.enter (h : Answered e c) (req : Request) :
    Answered e (c.enter req) := by
  have hdones : donesOf (c.log ++ [.send req]) = donesOf c.log := by
    rw [donesOf_append]
    exact List.append_nil _
  refine ⟨⟨?_, ?_, h.queue, h.service, h.wait, ?_⟩, ?_⟩
  · show ((c.pending ++ [req]) ++ donesOf (c.log ++ [.send req])).Perm
      (sendsOf (c.log ++ [.send req]))
    rw [hdones, sendsOf_append, List.append_assoc]
    refine (List.perm_append_comm.append_left c.pending).trans ?_
    rw [← List.append_assoc]
    exact h.done.append_right [req]
  · show _ = (donesOf (c.log ++ [.send req])).countP _
    rw [hdones]
    exact h.measured
  · exact always_snoc.mpr ⟨h.endedLast, by rintro ⟨⟩⟩
  · show (c.log ++ [Event.send req]).count _ = _
    rw [List.count_append]
    exact h.ended

/-- The measurements are started before there is a sample. -/
theorem Idle.timed_starting (h : Idle e c) : e.Timed (e.starting c) := by
  by_cases hpre : c.sentCount = e.plan.preSamples
  · rw [starting, if_pos hpre]
    intro hpos
    have hcount := h.done.countP_eq (·.measure)
    rw [h.sends, h.begun, e.countP_request, List.countP_append, ← h.measured]
      at hcount
    have hpos : 0 < c.measureCount := hpos
    omega
  · rw [starting, if_neg hpre]
    exact h.timed

/-- **A request is handed to its connection.** -/
theorem Idle.enter (h : Idle e c) (hlt : c.sentCount < e.plan.totalSamples) :
    Running e ((e.starting c).enter (e.request c.sentCount)) := by
  obtain ⟨starts, start, hstarting, hstarts⟩ := starting_log (e := e) c
  have hanswered := h.toAnswered.starting.enter (e.request c.sentCount)
  refine ⟨⟨h.sending_enter hlt, hanswered, h.timed_starting, ?_, ?_⟩, ?_⟩
  · rw [hstarting]
    show c.rcvdCount =
      (donesOf (c.log ++ starts ++ [.send (e.request c.sentCount)])).length
    rw [donesOf_append, donesOf_append, h.rcvd, hstarts]
    split <;> simp [donesOf]
  · rw [hstarting]
    show _ ∉ c.log ++ starts ++ [Event.send (e.request c.sentCount)]
    rw [hstarts]
    split <;> simp [h.unprinted]
  · rw [hstarting]
    exact h.rcvd_lt

/-- Its connection is done with the `n`-th request, and the bytes of a measured
one are counted. -/
def leaving (e : Experiment) (n : Nat) (c : Core) : Core :=
  if e.measure n then c.leave.sentBytes (e.net n).bytes else c.leave

theorem Running.leaving {n : Nat} (h : Running e c)
    (hplace : c.place = (n, true)) : Idle e (e.leaving n c).sent := by
  have hcount : c.sentCount = n := congrArg Prod.fst hplace
  have hbegun : c.begun = c.sentCount + 1 := by
    rw [Core.begun, show c.sending = true from congrArg Prod.snd hplace]
    rfl
  have hsends := h.sends
  have hstarted := h.started
  have hle := h.begun_le
  have htx := e.measuredBytes_succ c.sentCount
  rw [← h.txBytes] at htx
  rw [hbegun] at hsends hstarted hle
  unfold Experiment.leaving
  by_cases hmeasure : e.measure n = true
  · rw [hcount, if_pos hmeasure, ← hcount] at htx
    rw [if_pos hmeasure, ← hcount]
    exact ⟨⟨⟨⟨hsends, hstarted, h.startedBefore, hle, htx.symm⟩,
      h.toAnswered.congr rfl rfl rfl rfl rfl rfl, h.timed, h.rcvd,
      h.unprinted⟩, h.rcvd_lt⟩, rfl⟩
  · rw [hcount, if_neg hmeasure, ← hcount] at htx
    rw [if_neg hmeasure]
    exact ⟨⟨⟨⟨hsends, hstarted, h.startedBefore, hle,
      (htx.trans (UInt64.add_zero _)).symm⟩,
      h.toAnswered.congr rfl rfl rfl rfl rfl rfl, h.timed, h.rcvd,
      h.unprinted⟩, h.rcvd_lt⟩, rfl⟩

/-- A request is what its connection does, between `starting` and `leaving`. -/
theorem sendOne_eq (c : Core) :
    e.sendOne c = (do
      e.serve (e.net c.sentCount)
      modify fun d => (e.leaving c.sentCount d).sent)
      ((e.starting c).enter (e.request c.sentCount)) := by
  have hstart : runIf (c.sentCount = e.plan.preSamples)
      (modify Core.startMeasurements) c =
      (.ok () (e.starting c) : EStateM.Result Stop Core Unit) := by
    unfold starting runIf
    split <;> rfl
  have hrequest : e.sendRequest c = (do
      e.serve (e.net c.sentCount)
      modify (e.leaving c.sentCount))
      ((e.starting c).enter (e.request c.sentCount)) := by
    show (runIf _ _ >>= _ : EStateM Stop Core Unit) c = _
    rw [bind_of_ok hstart]
    show (e.serve (e.net c.sentCount) >>= _ : EStateM Stop Core Unit)
      ((e.starting c).enter (e.request c.sentCount)) = _
    cases hserve : e.serve (e.net c.sentCount)
        ((e.starting c).enter (e.request c.sentCount)) with
    | error stop d => rw [bind_of_error hserve, bind_of_error hserve]
    | ok a d =>
        rw [bind_of_ok hserve, bind_of_ok hserve]
        show runIf (e.measure c.sentCount) _ d.leave = .ok () (e.leaving _ d)
        unfold leaving runIf
        split <;> rfl
  cases hserve : e.serve (e.net c.sentCount)
      ((e.starting c).enter (e.request c.sentCount)) with
  | error stop d =>
      rw [bind_of_error hserve] at hrequest ⊢
      exact bind_of_error hrequest
  | ok a d =>
      rw [bind_of_ok hserve] at hrequest ⊢
      exact bind_of_ok hrequest

/-- **The rule for a request.** -/
theorem sendOne_rule {n : Nat} {P P' Q Q' : Core → Prop}
    {E : Stop → Core → Prop}
    (henter : ∀ c, P c → c.sentCount = n ∧
      P' ((e.starting c).enter (e.request n)))
    (hserve : Triple P' (e.serve (e.net n)) (fun _ => Q') E)
    (hleave : ∀ c, Q' c → Q (e.leaving n c).sent) :
    Triple P e.sendOne (fun _ => Q) E := by
  intro c hc
  obtain ⟨rfl, hc⟩ := henter c hc
  rw [sendOne_eq]
  exact hserve.bind (fun _ => .modify hleave) _ hc

/-- **A request** keeps the invariant, whatever arrives while it is sent. -/
theorem sendOne_triple {n : Nat} (hn : n < e.plan.totalSamples) :
    Triple (fun c => Idle e c ∧ c.sentCount = n) e.sendOne
      (fun _ => Idle e) (Stopped e) := by
  refine sendOne_rule (n := n) ?_ (((serve_triple (e.net n)).and
    (.of_keeps (serve_keeps (e.net n)) (n, true))).mono (fun _ h => h)
    (fun _ _ h => h) fun _ _ h => h.1) fun c hc => hc.1.leaving hc.2
  rintro c ⟨hc, rfl⟩
  obtain ⟨starts, start, hstarting, -⟩ := starting_log (e := e) c
  refine ⟨rfl, hc.enter hn, ?_⟩
  rw [hstarting]
  rfl

/-- It counts as sent when its connection is done with it. -/
theorem sendOne_place (n : Nat) :
    Triple (fun c => c.place = (n, false)) e.sendOne
      (fun _ c => c.place = (n + 1, false))
      (fun _ c => c.place = (n, true)) := by
  refine sendOne_rule (n := n) ?_ (.of_keeps (serve_keeps _) (n, true)) ?_
  · intro c hc
    obtain ⟨starts, start, hstarting, -⟩ := starting_log (e := e) c
    have hcount : c.sentCount = n := congrArg Prod.fst hc
    refine ⟨hcount, ?_⟩
    rw [hstarting]
    exact Prod.ext hcount rfl
  · intro c hc
    have hcount : c.sentCount = n := congrArg Prod.fst hc
    unfold leaving
    split <;> exact Prod.ext (congrArg (· + 1) hcount) rfl

end Experiment

end Mutated.Ports.Load
