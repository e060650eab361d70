import Mutated.Ports.ClientLateness

/-!
# Runs of the client

`Ready` is the invariant between two calls of the event loop: the accounts of
the core are right, the notes of the timers cover what was sent, and the timer
is armed as long as there is something to send.  A run that does not return
leaves the same notes behind.

## Main results

`run_triple`: every run keeps the invariant, or leaves its notes behind.
-/

namespace Mutated.Ports.Load

open Mutated.Verified.Exec
open Mutated.Verified.History

theorem range_append_range' {n m : Nat} (h : n ≤ m) :
    List.range n ++ List.range' n (m - n) = List.range m := by
  have happend := List.range'_append_1 (s := 0) (m := n) (n := m - n)
  rw [Nat.zero_add, Nat.add_sub_cancel' h] at happend
  rwa [List.range_eq_range', List.range_eq_range']

namespace Experiment

/-! ## The invariant -/

section Model

variable (e : Experiment)

/-- What the notes say, however a call ended. -/
structure Notes (c : Client) : Prop where
  dues : c.dues.map (·.index) = List.range c.core.begun
  missed : e.cfg.missedWindowUs.toNat * 1000 < 2 ^ 63 →
    c.missedSend + c.dues.countP e.overlooked = c.dues.countP e.late
  reads : (∀ i ∈ c.reads, i < e.plan.totalSamples) ↔
    (e.cfg.useBusyTimer = false ∨ c.core.sentCount < e.plan.totalSamples)

/-- The timer is armed while there is something to send. -/
def ArmedRight (c : Client) : Prop :=
  if e.cfg.useBusyTimer then c.armed = none
  else (c.armed.isSome ↔ c.core.sentCount < e.plan.totalSamples)

/-- **The invariant** between two calls. -/
structure Ready (c : Client) : Prop extends Notes e c where
  idle : Idle e c.core
  armed : e.ArmedRight c

/-- What is left behind by a call that does not return. -/
structure Over (stop : Stop) (c : Client) : Prop extends Notes e c where
  stopped : Stopped e stop c.core

end Model

variable {e : Experiment} {c : Client}

theorem Notes.congr {c' : Client} (h : Notes e c)
    (hplace : c'.core.place = c.core.place) (hdues : c'.dues = c.dues)
    (hmissed : c'.missedSend = c.missedSend) (hreads : c'.reads = c.reads) :
    Notes e c' := by
  obtain ⟨hcount, hsending⟩ := Prod.ext_iff.mp hplace
  have hcount : c'.core.sentCount = c.core.sentCount := hcount
  have hbegun : c'.core.begun = c.core.begun := by
    rw [Core.begun, hcount, show c'.core.sending = c.core.sending from hsending]
    rfl
  refine ⟨?_, ?_, ?_⟩
  · rw [hdues, hbegun]; exact h.dues
  · rw [hdues, hmissed]; exact h.missed
  · rw [hreads, hcount]; exact h.reads

/-- The notes of a call join those that are there. -/
theorem Notes.noted {t : Core} {reading : Int} {checked : Nat → Bool}
    (h : Notes e c) (hidle : c.core.sending = false)
    (hbegun : c.core.sentCount ≤ t.begun) :
    (e.noted reading checked c t).dues.map (·.index) = List.range t.begun ∧
      (e.cfg.missedWindowUs.toNat * 1000 < 2 ^ 63 →
        (e.noted reading checked c t).missedSend +
          (e.noted reading checked c t).dues.countP e.overlooked =
            (e.noted reading checked c t).dues.countP e.late) := by
  have hdues := h.dues
  rw [begun_of_idle hidle] at hdues
  refine ⟨?_, fun hwindow => ?_⟩
  · show (c.dues ++ e.newDues _ _ _ _).map (·.index) = _
    rw [List.map_append, hdues, newDues, List.map_map]
    show List.range _ ++ (List.range' _ _).map id = _
    rw [List.map_id, range_append_range' hbegun]
  · have hold := h.missed hwindow
    have hnew := countP_late hwindow
      (e.newDues reading checked c.core.sentCount t.begun)
    show c.missedSend + _ + (c.dues ++ _).countP _ = (c.dues ++ _).countP _
    rw [List.countP_append, List.countP_append]
    omega

theorem Notes.handled {t : Core} (h : Notes e c)
    (htimer : e.cfg.useBusyTimer = false) (hidle : c.core.sending = false)
    (hbegun : c.core.sentCount ≤ t.begun) (reading : Int) :
    Notes e (e.handled reading 0 c t) := by
  refine ⟨(h.noted hidle hbegun).1, (h.noted hidle hbegun).2,
    iff_of_true (fun i hi => ?_) (.inl htimer)⟩
  have hold := h.reads.mpr (.inl htimer)
  rcases List.mem_append.mp hi with hi | hi
  · exact hold i hi
  · have hrange := List.mem_range'_1.mp hi
    omega

theorem Notes.busied {t : Core} (h : Notes e c)
    (hbusy : e.cfg.useBusyTimer = true) (hidle : c.core.sending = false)
    (hbegun : c.core.sentCount ≤ t.begun)
    (hcount : c.core.sentCount ≤ t.sentCount) (reading : Int) :
    Notes e (e.busied reading c t) := by
  refine ⟨(h.noted hidle hbegun).1, (h.noted hidle hbegun).2, ?_⟩
  have hold := h.reads
  simp only [hbusy, Bool.true_eq_false, false_or] at hold ⊢
  constructor
  · intro hall
    refine hall t.sentCount (List.mem_append_right _ ?_)
    exact List.mem_range'_1.mpr ⟨hcount, by omega⟩
  · intro hlt i hi
    have hlt : t.sentCount < e.plan.totalSamples := hlt
    rcases List.mem_append.mp hi with hi | hi
    · exact hold.mpr (by omega) i hi
    · have hrange := List.mem_range'_1.mp hi
      omega

/-! ## The calls of the event loop -/

/-- A call on the core alone. -/
theorem onCore_triple {x : EStateM Stop Core Unit}
    (hx : Triple (Idle e) x (fun _ => Idle e) (Stopped e))
    (hkeeps : Keeps Core.place x) :
    Triple (Ready e) (onCore x) (fun _ => Ready e) (Over e) := by
  intro c hc
  cases hrun : x c.core with
  | ok a t =>
      have hplace := hkeeps.of_ok hrun
      have hcount : t.sentCount = c.core.sentCount := congrArg Prod.fst hplace
      rw [onCore, zoom_of_ok hrun]
      refine .ok
        ⟨hc.toNotes.congr hplace rfl rfl rfl, hx.of_ok hc.idle hrun, ?_⟩
      have harmed := hc.armed
      unfold ArmedRight at harmed ⊢
      rwa [hcount]
  | error stop t =>
      rw [onCore, zoom_of_error hrun]
      exact .error ⟨hc.toNotes.congr (hkeeps.of_error hrun) rfl rfl rfl,
        hx.of_error hc.idle hrun⟩

/-- `timer_handler` arms the timer while there is something to send. -/
theorem handled_armed {t : Core} (hexpired : c.armed = none)
    (hidle : t.sending = false) (reading : Int) :
    (e.handled reading 0 c t).armed.isSome ↔
      (e.handled reading 0 c t).core.sentCount < e.plan.totalSamples := by
  show Option.isSome (if t.sending = false ∧ _ then _ else c.armed) = true ↔
    t.sentCount < e.plan.totalSamples
  rw [hexpired]
  by_cases hunsent : t.sentCount < e.plan.totalSamples
  · rw [if_pos ⟨hidle, hunsent⟩]
    exact iff_of_true rfl hunsent
  · rw [if_neg fun h => hunsent h.2]
    exact iff_of_false Bool.false_ne_true hunsent

/-- `timer_handler`, once the timer has expired. -/
theorem timerHandler_ends (hnotes : Notes e c) (hidle : Idle e c.core)
    (htimer : e.cfg.useBusyTimer = false) (hexpired : c.armed = none)
    (hunsent : c.core.sentCount < e.plan.totalSamples) :
    Ends (fun _ => Ready e) (Over e) (e.timerHandler c) := by
  have hplace : c.core.place = (c.core.sentCount, false) :=
    Prod.ext rfl hidle.idle
  obtain ⟨-, hbegun⟩ := sendDue_after (e := e)
    (c.core.clock - c.expStartTime) hplace (Nat.le_succ _)
  rw [timerHandler_eq hplace hunsent]
  cases hsend : e.sendDue (c.core.clock - c.expStartTime)
      (e.plan.totalSamples - c.core.sentCount + 1) c.core with
  | error stop t =>
      rw [hsend] at hbegun
      exact .error ⟨hnotes.handled htimer hidle.idle hbegun _,
        (sendDue_triple _).of_error hidle hsend⟩
  | ok a t =>
      rw [hsend] at hbegun
      have hidle' := (sendDue_triple _).of_ok hidle hsend
      refine .ok ⟨hnotes.handled htimer hidle.idle hbegun _, hidle', ?_⟩
      rw [ArmedRight, htimer]
      exact handled_armed hexpired hidle'.idle _

theorem busyTimer_ends (hready : Ready e c)
    (hbusy : e.cfg.useBusyTimer = true) :
    Ends (fun _ => Ready e) (Over e) (e.busyTimer c) := by
  have hplace : c.core.place = (c.core.sentCount, false) :=
    Prod.ext rfl hready.idle.idle
  obtain ⟨hcount, hbegun⟩ := sendDue_after (e := e)
    (c.core.clock - c.expStartTime) hplace (Nat.le_succ _)
  have harmed := hready.armed
  rw [ArmedRight, if_pos hbusy] at harmed
  rw [busyTimer_eq hplace]
  cases hsend : e.sendDue (c.core.clock - c.expStartTime)
      (e.plan.totalSamples - c.core.sentCount + 1) c.core with
  | error stop t =>
      rw [hsend] at hcount hbegun
      exact .error
        ⟨hready.toNotes.busied hbusy hready.idle.idle hbegun hcount _,
          (sendDue_triple _).of_error hready.idle hsend⟩
  | ok a t =>
      rw [hsend] at hcount hbegun
      refine .ok ⟨hready.toNotes.busied hbusy hready.idle.idle hbegun hcount _,
        (sendDue_triple _).of_ok hready.idle hsend, ?_⟩
      rw [ArmedRight, if_pos hbusy]
      exact harmed

/-- The timer is armed only when it is used, and for a request. -/
theorem Ready.of_armed (h : Ready e c)
    (hfires : ∃ alarm ∈ c.armed, alarm.expires ≤ c.core.clock) :
    e.cfg.useBusyTimer = false ∧ c.core.sentCount < e.plan.totalSamples := by
  obtain ⟨alarm, harmed, -⟩ := hfires
  have hright := h.armed
  rw [ArmedRight, show c.armed = some alarm from harmed] at hright
  cases htimer : e.cfg.useBusyTimer with
  | true =>
      rw [htimer] at hright
      cases hright
  | false =>
      rw [htimer] at hright
      exact ⟨rfl, hright.mp rfl⟩

theorem call_timer (htimer : e.cfg.useBusyTimer = false)
    (hfires : ∃ alarm ∈ c.armed, alarm.expires ≤ c.core.clock) :
    e.call .timer c = e.timerHandler { c with armed := none } := by
  obtain ⟨alarm, harmed, hexpired⟩ := hfires
  refine (bind_of_ok rfl).trans ?_
  rw [show c.armed = some alarm from harmed]
  show runIf (alarm.expires ≤ c.core.clock) _ c = _
  rw [runIf, if_pos hexpired]
  show (runIf (e.cfg.useBusyTimer = true) _ >>= _ :
    EStateM Stop Client Unit) { c with armed := none } = _
  rw [runIf, if_neg (by simp [htimer])]
  rfl

theorem call_timer_skip
    (hfires : ¬ ∃ alarm ∈ c.armed, alarm.expires ≤ c.core.clock) :
    e.call .timer c = .ok () c := by
  refine (bind_of_ok rfl).trans ?_
  cases harmed : c.armed with
  | none => rfl
  | some alarm =>
      refine congrFun (if_neg fun hexpired => hfires ?_) c
      exact ⟨alarm, harmed, hexpired⟩

/-- **A call of the event loop** keeps the invariant. -/
theorem call_triple (call : Call) :
    Triple (Ready e) (e.call call) (fun _ => Ready e) (Over e) := by
  cases call with
  | wait ns =>
      refine onCore_triple
        (.modify fun c hc => ⟨hc.toRunning.advance ns, hc.idle⟩)
        (keeps_modify fun _ => rfl)
  | runIo s =>
      refine onCore_triple (((serve_triple s).and (.of_keeps
        ((serve_keeps s).comp Prod.snd) false)).mono ?_ ?_ ?_) (serve_keeps s)
      · exact fun c hc => ⟨hc.toRunning, hc.idle⟩
      · exact fun _ c hc => ⟨hc.1, hc.2⟩
      · exact fun _ _ hc => hc.1
  | timer =>
      intro c hc
      by_cases hfires : ∃ alarm ∈ c.armed, alarm.expires ≤ c.core.clock
      · obtain ⟨htimer, hunsent⟩ := hc.of_armed hfires
        rw [call_timer htimer hfires]
        exact timerHandler_ends (hc.toNotes.congr rfl rfl rfl rfl) hc.idle
          htimer rfl hunsent
      · rw [call_timer_skip hfires]
        exact .ok hc
  | busy =>
      refine .runIf (fun hbusy c hc => busyTimer_ends hc hbusy) fun _ c hc => hc

/-- Nothing has happened to a new client. -/
theorem idle_new (clock : Int) : Idle e (new clock).core where
  sends := rfl
  started := rfl
  startedBefore := always_nil _
  begun_le := Nat.zero_le _
  txBytes := rfl
  done := .nil
  measured := rfl
  queue := rfl
  service := rfl
  wait := rfl
  endedLast := always_nil _
  ended := rfl
  timed := fun hpos => absurd hpos (Nat.lt_irrefl 0)
  rcvd := rfl
  unprinted := List.not_mem_nil
  rcvd_lt := e.plan.total_pos
  idle := rfl

theorem setupExperiment_triple (clock : Int) :
    Triple (fun c => c = new clock) e.setupExperiment (fun _ => Ready e)
      (Over e) := by
  rintro c rfl
  have hnotes : Notes e { new clock with expStartTime := clock } := by
    refine ⟨rfl, fun _ => rfl, iff_of_true ?_ (.inr e.plan.total_pos)⟩
    exact fun i hi => absurd hi List.not_mem_nil
  show Ends _ _ (runIf (e.cfg.useBusyTimer = false) _
    { new clock with expStartTime := clock })
  by_cases hbusy : e.cfg.useBusyTimer = true
  · rw [runIf, if_neg (by simp [hbusy])]
    refine .ok ⟨hnotes, idle_new clock, ?_⟩
    rw [ArmedRight, if_pos hbusy]
    rfl
  · have htimer : e.cfg.useBusyTimer = false := by simpa using hbusy
    rw [runIf, if_pos htimer]
    exact timerHandler_ends hnotes (idle_new clock) htimer rfl e.plan.total_pos

/-- **Every run** keeps the invariant, or leaves its notes behind. -/
theorem run_triple (clock : Int) (calls : List Call) :
    Triple (fun c => c = new clock) (e.run calls) (fun _ => Ready e)
      (Over e) :=
  (setupExperiment_triple clock).bind fun _ => .runAll call_triple calls

theorem Stopped.sending {stop : Stop} {core : Core} (h : Stopped e stop core) :
    Sending e core := by
  cases h with
  | exit h => exact h.toSending
  | failed h => exact h.toSending
  | early h hclock => exact h.toSending
  | halfPrinted h hstop => exact h.toSending

theorem run_sending (clock : Int) (calls : List Call) :
    Sending e (after (e.run calls (new clock))).core := by
  cases hrun : e.run calls (new clock) with
  | ok a c => exact ((run_triple clock calls).of_ok rfl hrun).idle.toSending
  | error stop c =>
      exact ((run_triple clock calls).of_error rfl hrun).stopped.sending

end Experiment

end Mutated.Ports.Load
