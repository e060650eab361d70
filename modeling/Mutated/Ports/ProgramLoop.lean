import Mutated.Ports.ClientRuns
import Mutated.Ports.ProgramRequests

/-!
# The event loop of the program

The timers and the events on the connections do what they do in an experiment,
and so does the start, which opens the pool.  `Mirrors` relates the program to
the client of an experiment between two calls, `Over` when it has ended.

## Main results

* `call_follows`: a call of the event loop.
* `setupExperiment_follows`: the start.
-/

namespace Mutated.Ports

open Mutated.Verified.Exec
open Mutated.Ports.Load

namespace Program

variable {R C : ℕ+}
  {u : Setting} {net : Nat → Served} {p : Program R C} {a : Core}

/-! ## The timers -/

/-- The client without its counters. -/
def clockwork (c : Client) : Int × Nat × Option Alarm × List Nat × List Due :=
  (c.expStartTime, c.missedSend, c.armed, c.reads, c.dues)

/-- **Between two calls** the program and the experiment agree. -/
structure Mirrors (u : Setting) (net : Nat → Served) (p : Program R C)
    (a : Client) : Prop where
  clocks : clockwork p.client = clockwork a
  tracks : Tracks u net 0 p a.core

/-- They agree when the program has ended. -/
structure Over (u : Setting) (net : Nat → Served) (reason : Reason)
    (p : Program R C) (a : Client) : Prop where
  clocks : clockwork p.client = clockwork a
  ended : Ended u net reason p a.core

theorem callGen_clockwork (sending : Bool) (i took : Nat)
    (x : EStateM Exn (Gen R C) Nat) :
    Keeps (fun p : Program R C => clockwork p.client)
      (callGen u sending i took x) := by
  intro p
  rw [callGen]
  cases p.links[i]? with
  | none => rfl
  | some l =>
      cases hstop : (after (x (p.lent l))).shared.stop with
      | some stop => simp only [came, hstop]; rfl
      | none =>
          simp only [came, hstop]
          cases x (p.lent l) <;> rfl

theorem onCore_clockwork {α : Type} (x : EStateM Stop Core α) :
    Keeps (fun p : Program R C => clockwork p.client) (onCore x) := by
  intro p
  rw [onCore, onClient, after_onThrow, after_zoom, Experiment.onCore,
    after_zoom]
  rfl

theorem sendOne_clockwork :
    Keeps (fun p : Program R C => clockwork p.client) (sendOne u) := by
  refine keeps_bind (keeps_get fun _ => ?_) fun _ => onCore_clockwork _
  exact keeps_bind (onCore_clockwork _) fun _ =>
    keeps_bind (getConnection_keeps (fun _ _ _ => rfl) _) fun _ =>
    keeps_bind (keeps_modify fun _ => rfl) fun _ =>
    keeps_bind (callGen_clockwork _ _ _ _) fun _ => onCore_clockwork _

/-- A call that the experiment runs on its counters, in one state. -/
theorem lift_agree {x : EStateM Reason (Program R C) Unit}
    {y : EStateM Stop Core Unit} (hkeeps : Keeps (fun p : Program R C =>
      clockwork p.client) x) {c : Client} (h : Mirrors u net p c)
    (hsim : Agree Reason.stop (fun _ => Tracks u net 0) (Ended u net) (x p)
      (y c.core)) :
    Agree Reason.stop (fun _ => Mirrors u net) (Over u net) (x p)
      (Experiment.onCore y c) := by
  have hlift := hsim.zoom_right Client.core fun t c => { c with core := t }
  refine (hlift.ends_and (Triple.of_keeps hkeeps _ p h.clocks)).mono ?_ ?_
  · rintro _ p' _ ⟨hclock, t, rfl, htracks⟩
    exact ⟨hclock, htracks⟩
  · rintro _ p' _ ⟨hclock, t, rfl, hended⟩
    exact ⟨hclock, hended⟩

/-- A call of the timers, which does not touch the counters. -/
theorem Mirrors.withClient {c : Client} (h : Mirrors u net p c)
    {c₁ c₂ : Client} (hcore₁ : c₁.core = p.client.core)
    (hcore₂ : c₂.core = c.core) (hclock : clockwork c₁ = clockwork c₂) :
    Mirrors u net { p with client := c₁ } c₂ := by
  refine ⟨hclock, ?_⟩
  obtain ⟨core, expStartTime, missedSend, armed, reads, dues⟩ := c₁
  cases hcore₁
  rw [hcore₂]
  exact ⟨h.tracks.sound.withClient _, ⟨h.tracks.books.like,
    h.tracks.books.pending, h.tracks.books.samples⟩, h.tracks.serves,
    h.tracks.idle⟩

theorem Mirrors.like {c : Client} (h : Mirrors u net p c) :
    Like p.client.core c.core := h.tracks.books.like

section Timers

/-- The simulations of this section. -/
def Follows {α : Type} (u : Setting) (net : Nat → Served)
    (x : EStateM Reason (Program R C) α) (y : EStateM Stop Client α) : Prop :=
  Simulates (fun p : Program R C => p.serves) (Foretold net) Reason.stop
    (Mirrors u net) x y (fun _ => Mirrors u net) (Over u net)

theorem readDeadline_follows : Follows (R := R) (C := C) u net
    (onClient u.offline.readDeadline) (u.experiment net).readDeadline := by
  refine ⟨.of_keeps (onClient_keeps (fun _ _ => rfl) _), fun p a h _ => ?_⟩
  have hcount := h.like.sentCount
  have hclock := h.clocks
  simp only [clockwork, Prod.mk.injEq] at hclock
  obtain ⟨hstart, hmissed, harmed, hreads, hdues⟩ := hclock
  show Agree _ _ _ (.ok (u.offline.deadlineAt p.client.core.sentCount) _)
    (.ok (u.offline.deadlineAt a.core.sentCount) _)
  rw [hcount]
  refine .ok (h.withClient rfl rfl ?_)
  simp [clockwork, hstart, hmissed, harmed, hreads, hdues, hcount]

theorem timerArm_follows (d : Int) : Follows (R := R) (C := C) u net
    (onClient (Experiment.timerArm d)) (Experiment.timerArm d) := by
  refine ⟨.of_keeps (onClient_keeps (fun _ _ => rfl) _), fun p a h _ =>
    .ok (h.withClient rfl rfl ?_)⟩
  have hclock := h.clocks
  simp only [clockwork, Prod.mk.injEq] at hclock ⊢
  obtain ⟨hstart, hmissed, harmed, hreads, hdues⟩ := hclock
  refine ⟨hstart, hmissed, ?_, hreads, hdues⟩
  rw [h.like.clock]

theorem countMissed_follows (slack : Int) (checked : Bool) :
    Follows (R := R) (C := C) u net
      (onClient (u.offline.countMissed slack checked))
      ((u.experiment net).countMissed slack checked) := by
  refine ⟨.of_keeps (onClient_keeps (fun _ _ => rfl) _), fun p a h _ =>
    .ok (h.withClient rfl rfl ?_)⟩
  have hclock := h.clocks
  simp only [clockwork, Prod.mk.injEq] at hclock ⊢
  obtain ⟨hstart, hmissed, harmed, hreads, hdues⟩ := hclock
  refine ⟨hstart, ?_, harmed, hreads, ?_⟩
  · rw [hmissed]
    rfl
  · rw [hdues, h.like.sentCount]

/-- A call that the experiment runs on its counters. -/
theorem lift_follows {x : EStateM Reason (Program R C) Unit}
    {y : EStateM Stop Core Unit} (hkeeps : Keeps (fun p : Program R C =>
      clockwork p.client) x)
    (h : Simulates (fun p : Program R C => p.serves) (Foretold net)
      Reason.stop (Tracks u net 0) x y (fun _ => Tracks u net 0)
      (Ended u net)) :
    Follows u net x (Experiment.onCore y) :=
  ⟨h.grows, fun p c hpc hlog =>
    lift_agree hkeeps hpc (h.agree p c.core hpc.tracks hlog)⟩

theorem sendOne_follows (hu : u.Valid) : Follows (R := R) (C := C) u net
    (sendOne u) (Experiment.onCore (u.experiment net).sendOne) :=
  lift_follows sendOne_clockwork (sendOne_simulates hu)

theorem timerLoop_follows (hu : u.Valid) (nowRelative : Int) (fuel : Nat) :
    ∀ looped, Follows (R := R) (C := C) u net
      (timerLoop u nowRelative fuel looped)
      ((u.experiment net).timerLoop nowRelative fuel looped) := by
  induction fuel with
  | zero => exact fun looped => .pure fun _ _ h => h
  | succ fuel ih =>
      intro looped
      refine .bind (foretold_closed net) readDeadline_follows fun deadline => ?_
      refine .ite Iff.rfl (timerArm_follows _) ?_
      refine .bind (foretold_closed net) (countMissed_follows _ _) fun _ => ?_
      refine .bind (foretold_closed net) (sendOne_follows hu) fun _ => ?_
      refine .get (fun _ => .ite (.pure ()) (ih _).grows) fun p a h => ?_
      have hcount := h.like.sentCount
      refine .ite (by rw [hcount]; rfl) (.pure ?_) ((ih _).mono ?_ ?_ ?_)
      · rintro _ _ ⟨rfl, rfl⟩
        exact h
      · rintro _ _ ⟨rfl, rfl⟩
        exact h
      · exact fun _ _ _ h => h
      · exact fun _ _ _ h => h

theorem timerHandler_follows (hu : u.Valid) : Follows (R := R) (C := C) u net
    (timerHandler u) (u.experiment net).timerHandler := by
  have hloop (nowRelative : Int) (fuel : Nat) : Follows (R := R) (C := C) u net
      (timerLoop u nowRelative fuel 0)
      ((u.experiment net).timerLoop nowRelative fuel 0) :=
    timerLoop_follows hu _ _ _
  refine .get (fun _ => (hloop _ _).grows) fun p a h => ?_
  rw [h.like.clock, h.like.sentCount,
    show p.client.expStartTime = a.expStartTime from
      congrArg Prod.fst h.clocks]
  refine (hloop _ _).mono ?_ (fun _ _ _ h => h) fun _ _ _ h => h
  rintro _ _ ⟨rfl, rfl⟩
  exact h

theorem busyLoop_follows (hu : u.Valid) (now : Int) (fuel : Nat) : ∀ d,
    Follows (R := R) (C := C) u net (busyLoop u now fuel d)
      ((u.experiment net).busyLoop now fuel d) := by
  induction fuel with
  | zero => exact fun d => .pure fun _ _ h => h
  | succ fuel ih =>
      intro d
      have hsend (start : Int) : Follows (R := R) (C := C) u net
          (onClient (u.offline.countMissed d true) >>= fun _ =>
            sendOne u >>= fun _ =>
            onClient u.offline.readDeadline >>= fun deadline =>
            busyLoop u now fuel (deadline + start - now))
          ((u.experiment net).countMissed d true >>= fun _ =>
            Experiment.onCore (u.experiment net).sendOne >>= fun _ =>
            (u.experiment net).readDeadline >>= fun deadline =>
            (u.experiment net).busyLoop now fuel (deadline + start - now)) :=
        .bind (foretold_closed net) (countMissed_follows d true) fun _ =>
          .bind (foretold_closed net) (sendOne_follows hu) fun _ =>
          .bind (foretold_closed net) readDeadline_follows fun _ => ih _
      refine .get (fun p => .ite (hsend _).grows (.pure ())) fun p c h => ?_
      rw [h.like.sentCount, show p.client.expStartTime = c.expStartTime from
        congrArg Prod.fst h.clocks]
      refine .ite Iff.rfl ((hsend _).mono ?_ ?_ ?_) (.pure ?_)
      · rintro _ _ ⟨rfl, rfl⟩
        exact h
      · exact fun _ _ _ h => h
      · exact fun _ _ _ h => h
      · rintro _ _ ⟨rfl, rfl⟩
        exact h

theorem busyTimer_follows (hu : u.Valid) : Follows (R := R) (C := C) u net
    (busyTimer u) (u.experiment net).busyTimer := by
  have hloop (now start : Int) (fuel : Nat) : Follows (R := R) (C := C) u net
      (onClient u.offline.readDeadline >>= fun deadline =>
        busyLoop u now fuel (deadline + start - now))
      ((u.experiment net).readDeadline >>= fun deadline =>
        (u.experiment net).busyLoop now fuel (deadline + start - now)) :=
    .bind (foretold_closed net) readDeadline_follows fun _ =>
      busyLoop_follows hu _ _ _
  refine .get (fun p => (hloop _ _ _).grows) fun p c h => ?_
  rw [h.like.sentCount, h.like.clock,
    show p.client.expStartTime = c.expStartTime from
      congrArg Prod.fst h.clocks]
  refine (hloop _ _ _).mono ?_ (fun _ _ _ h => h) fun _ _ _ h => h
  rintro _ _ ⟨rfl, rfl⟩
  exact h

end Timers

/-! ## The event loop -/

/-- A generator that was not deleted may be called. -/
theorem Sound.callable {n i : Nat} {l : Link R C} (h : p.Sound u n)
    (hl : p.links[i]? = some l) (hopen : l.open = true) :
    Callable u n i l l.made p := by
  refine ⟨hl, h.links i l hl, fun j l' _ => h.links j l', h.made, h.conns,
    h.born, h.turns, ?_⟩
  obtain ⟨c, hrefs, hright⟩ := (h.links i l hl).refs
  rw [Link.open, hrefs] at hopen
  exact hright.alive.mp (List.isEmpty_iff.mp hopen)

/-- **An event** on a connection. -/
theorem runIo_simulates (h : Tracks u net 0 p a) {i : Nat} {l : Link R C}
    (hl : p.links[i]? = some l) (hopen : l.open = true) (took : Nat)
    (events : UInt32) (check : ConnCheck) (rin : List ReadRes)
    (wout : List WriteRes) :
    ∃ s, Agree Reason.stop (fun _ => Tracks u net 0) (Ended u net)
      ((callGen u false i took (Gen.runIo events check rin wout) >>=
        fun _ => pure ()) p) ((u.experiment net).serve s a) := by
  have hcount := h.books.like.sentCount
  have hsim := (h.sound.callable hl hopen).call_simulates h.books (by
    rw [Core.begun, h.idle, hcount]
    rfl) (Gen.sockRunIo_speaks l.made events check rin wout)
    (fun _ => 0) (Gen.runIo events check rin wout) rfl false took rfl rfl
  refine ⟨served u p.client.core.rcvdCount l took
    (Gen.runIo events check rin wout (p.lent l)), ?_⟩
  have hbind := hsim.bind (f := fun _ => pure ()) (g := fun _ => pure ())
    (S := fun _ => Tracks u net 0) (fun _ _ _ _ h => h.1) (by
      rintro _ p' a' - ⟨hsound, hbooks, hserves, hplace⟩
      have hsame : p.client.core.sentCount = p'.client.core.sentCount := by
        rw [hbooks.like.sentCount, hcount]
        exact (congrArg Prod.fst hplace).symm
      rw [hsame] at hsound
      refine .ok ⟨hsound, hbooks, ?_, (congrArg Prod.snd hplace).trans h.idle⟩
      rw [hserves, ← hsame]
      exact h.serves)
  rwa [bind_assoc, show (fun _ : Unit => (pure (bytesOf (Gen.runIo events check
    rin wout (p.lent l))) : EStateM Stop Core Nat) >>= fun _ => pure ()) =
      pure from rfl, bind_pure] at hbind

/-- A connection that is open has events. -/
theorem runIo_follows {c : Client} (h : Mirrors u net p c) (i took : Nat)
    (events : UInt32) (check : ConnCheck) (rin : List ReadRes)
    (wout : List WriteRes) :
    ∃ s, Agree Reason.stop (fun _ => Mirrors u net) (Over u net)
      (call u (.runIo i took events check rin wout) p)
      ((u.experiment net).call (.runIo s) c) := by
  by_cases hopen : ∃ l ∈ p.links[i]?, l.open = true
  · obtain ⟨l, hl, hlopen⟩ := hopen
    obtain ⟨s, hsim⟩ := runIo_simulates h.tracks hl hlopen took events check
      rin wout
    refine ⟨s, ?_⟩
    have hcall : call u (.runIo i took events check rin wout) p =
        (callGen u false i took (Gen.runIo events check rin wout) >>=
          fun _ => pure ()) p :=
      congrFun (if_pos ⟨l, hl, hlopen⟩) p
    rw [hcall]
    exact lift_agree (keeps_bind (callGen_clockwork _ _ _ _)
      fun _ => keeps_pure ()) h hsim
  · refine ⟨⟨[], 0, 0, false⟩, ?_⟩
    have hcall : call u (.runIo i took events check rin wout) p = .ok () p :=
      congrFun (if_neg hopen) p
    have hsame : (u.experiment net).call (.runIo ⟨[], 0, 0, false⟩) c =
        .ok () c := by
      show EStateM.Result.ok () { c with core := c.core.advance 0 } = _
      rw [Core.advance, Int.natCast_zero, Int.add_zero]
    rw [hcall, hsame]
    exact .ok h

/-- Time passes. -/
theorem wait_follows (ns : Nat) : Follows (R := R) (C := C) u net
    (call u (.wait ns)) ((u.experiment net).call (.wait ns)) := by
  show Follows u net (onCore (modify (Core.advance ns)))
    (Experiment.onCore (modify (Core.advance ns)))
  refine ⟨.of_keeps (onClient_keeps (fun _ _ => rfl) _), fun p c h _ => ?_⟩
  exact lift_agree (onCore_clockwork _) h (.ok (h.tracks.withCore
    (h.like.map (f := Core.advance ns) fun _ => rfl) rfl rfl h.tracks.idle))

/-- The program may end here. -/
theorem Mirrors.over {c : Client} (h : Mirrors u net p c) {stop : Stop}
    (hstop : stop ≠ .connection) : Over u net (.client stop) p c := by
  have hbegun : c.core.begun = p.client.core.sentCount := by
    rw [Core.begun, h.tracks.idle, h.like.sentCount]
    rfl
  refine ⟨h.clocks, hstop, ?_, ?_,
    fun g l hl => (h.tracks.sound.links g l hl).gen.order, [], h.tracks.books⟩
  · rw [hbegun]
    exact h.tracks.sound.made
  · rw [hbegun]
    exact h.tracks.sound.turns

/-- The timer expires. -/
theorem timer_follows (hu : u.Valid) : Follows (R := R) (C := C) u net
    (call u .timer) ((u.experiment net).call .timer) := by
  have hfire : Follows (R := R) (C := C) u net
      (onClient (modify fun c => { c with armed := none }) >>= fun _ =>
        runIf u.cfg.useBusyTimer (throw (.client
          (.runtimeError "timer event when using busy timer"))) >>=
        fun _ => timerHandler u)
      (modify (fun c : Client => { c with armed := none }) >>= fun _ =>
        runIf u.cfg.useBusyTimer
          (throw (.runtimeError "timer event when using busy timer")) >>=
        fun _ => (u.experiment net).timerHandler) := by
    refine .bind (Q := fun _ => Mirrors u net) (foretold_closed net)
      ⟨.of_keeps (onClient_keeps (fun _ _ => rfl) _), fun p c h _ =>
        .ok (h.withClient rfl rfl ?_)⟩ fun _ => ?_
    · have hclock := h.clocks
      simp only [clockwork, Prod.mk.injEq] at hclock ⊢
      exact ⟨hclock.1, hclock.2.1, trivial, hclock.2.2.2⟩
    · exact .bind (foretold_closed net)
        (.runIf Iff.rfl (.throw fun _ _ h => h.over nofun) fun _ _ h => h)
        fun _ => timerHandler_follows hu
  refine .get (fun p => ?_) fun p c h => ?_
  · cases p.client.armed with
    | none => exact .pure ()
    | some alarm => exact .runIf hfire.grows
  · have harmed : p.client.armed = c.armed :=
      congrArg (·.2.2.1) h.clocks
    rw [harmed, h.like.clock]
    cases c.armed with
    | none => exact .pure fun _ _ hsame => hsame.1 ▸ hsame.2 ▸ h
    | some alarm =>
        refine .runIf Iff.rfl (hfire.mono ?_ (fun _ _ _ h => h)
          fun _ _ _ h => h) ?_
        · rintro _ _ ⟨rfl, rfl⟩
          exact h
        · rintro _ _ ⟨rfl, rfl⟩
          exact h

/-- The calls of the two event loops. -/
def SameKind : Call → Experiment.Call → Prop
  | .wait ns, event => event = .wait ns
  | .runIo _ _ _ _ _ _, event => ∃ s, event = .runIo s
  | .timer, event => event = .timer
  | .busy, event => event = .busy

theorem exists_sameKind (event : Call) : ∃ event', SameKind event event' := by
  cases event with
  | wait ns => exact ⟨.wait ns, rfl⟩
  | runIo i took events check rin wout =>
      exact ⟨.runIo ⟨[], 0, 0, false⟩, _, rfl⟩
  | timer => exact ⟨.timer, rfl⟩
  | busy => exact ⟨.busy, rfl⟩

/-- **A call of the event loop.** -/
theorem call_follows (hu : u.Valid) (event : Call) {c : Client}
    (h : Mirrors u net p c)
    (hlog : Foretold net (after (call u event p)).serves) :
    ∃ event', SameKind event event' ∧
      Agree Reason.stop (fun _ => Mirrors u net) (Over u net)
        (call u event p) ((u.experiment net).call event' c) := by
  cases event with
  | wait ns => exact ⟨.wait ns, rfl, (wait_follows ns).agree p c h hlog⟩
  | runIo i took events check rin wout =>
      obtain ⟨s, hsim⟩ := runIo_follows h i took events check rin wout
      exact ⟨.runIo s, ⟨s, rfl⟩, hsim⟩
  | timer => exact ⟨.timer, rfl, (timer_follows hu).agree p c h hlog⟩
  | busy =>
      have hbusy : Follows (R := R) (C := C) u net (call u .busy)
          ((u.experiment net).call .busy) :=
        .runIf Iff.rfl (busyTimer_follows hu) fun _ _ h => h
      exact ⟨.busy, rfl, hbusy.agree p c h hlog⟩

theorem call_grows (hu : u.Valid) (event : Call) :
    Grows (fun p : Program R C => p.serves) (call u event) := by
  cases event with
  | wait ns =>
      have hwait : Follows (R := R) (C := C) u (fun _ => ⟨[], 0, 0, false⟩)
          (call u (.wait ns)) _ := wait_follows ns
      exact hwait.grows
  | runIo i took events check rin wout =>
      exact .get fun _ => .runIf
        ((callGen_grows _ _ _ _).bind fun _ => .pure ())
  | timer =>
      have htimer : Follows (R := R) (C := C) u (fun _ => ⟨[], 0, 0, false⟩)
          (call u .timer) _ := timer_follows hu
      exact htimer.grows
  | busy =>
      have hbusy : Follows (R := R) (C := C) u (fun _ => ⟨[], 0, 0, false⟩)
          (busyTimer u) _ := busyTimer_follows hu
      exact .runIf hbusy.grows

/-! ## The start -/

/-- `setup_connections`. -/
theorem pool_ok (ms : List Connections.Memory) : ∀ p : Program R C,
    runAll (fun m => newConnection u m >>= fun g =>
      modify fun p => { p with conns := p.conns ++ [g] }) ms p =
    .ok () { p with
      links := p.links ++ ms.map fun m => ⟨.new u m, []⟩
      conns := p.conns ++ List.range' p.links.length ms.length } := by
  induction ms with
  | nil =>
      intro p
      simp [runAll]
  | cons m ms ih =>
      intro p
      refine (bind_of_ok rfl).trans ((ih _).trans ?_)
      simp [List.range'_succ, List.append_assoc]

/-- The client once its connections are there. -/
def opened (u : Setting) (clock : Int) : Program R C :=
  { (start clock : Program R C) with
    links := if u.cfg.connMode = .perRequest then []
      else u.pool.map fun m => ⟨.new u m, []⟩
    conns := u.conns }

theorem setupConnections_ok (clock : Int) :
    setupConnections u (start clock : Program R C) =
      .ok () (opened u clock) := by
  rw [setupConnections, runIf, opened, Setting.conns]
  by_cases hmode : u.cfg.connMode = .perRequest
  · rw [if_neg (not_not_intro hmode), if_pos hmode, if_pos hmode]
    rfl
  · rw [if_pos hmode, if_neg hmode, if_neg hmode]
    refine (pool_ok u.pool (start clock)).trans ?_
    simp [start, List.range_eq_range']

/-- Nobody was asked anything yet. -/
theorem opened_links (clock : Int) {l : Link R C}
    (hl : l ∈ (opened u clock : Program R C).links) :
    ∃ m, l = ⟨.new u m, []⟩ := by
  rw [opened] at hl
  by_cases hmode : u.cfg.connMode = .perRequest
  · simp [hmode] at hl
  · simp only [if_neg hmode] at hl
    obtain ⟨m, -, rfl⟩ := List.mem_map.mp hl
    exact ⟨m, rfl⟩

theorem opened_flatMap {α : Type} (clock : Int) {f : Link R C → List α}
    (hf : ∀ m, f ⟨.new u m, []⟩ = []) :
    (opened u clock : Program R C).links.flatMap f = [] := by
  rw [List.flatMap_eq_nil_iff]
  intro l hl
  obtain ⟨m, rfl⟩ := opened_links clock hl
  exact hf m

/-- **The connections at the start.** -/
theorem opened_sound (hu : u.Valid) (clock : Int) :
    (opened u clock : Program R C).Sound u 0 := by
  have hborn : ∀ g, g ∈ (opened u clock : Program R C).conns ↔
      g < (opened u clock : Program R C).links.length := by
    intro g
    rw [opened, Setting.conns]
    by_cases hmode : u.cfg.connMode = .perRequest
    · simp [hmode]
    · simp [hmode]
  refine ⟨fun g l hl => ?_, ?_, rfl, fun g => (hborn g).mp, ?_⟩
  · obtain ⟨m, rfl⟩ := opened_links clock (List.mem_of_getElem? hl)
    have hlt := (List.getElem?_eq_some_iff.mp hl).1
    refine ⟨.new hu.replies m, .new, Gen.refs_new m, ?_⟩
    rw [pooled, if_pos ((hborn g).mpr hlt), Link.waits, Gen.done_new]
    exact ⟨rfl, rfl⟩
  · rw [opened_flatMap clock fun _ => rfl]
    exact .nil
  · intro hmode
    refine ⟨rfl, ?_⟩
    apply List.ext_getElem
    · simp [opened, hmode]
    · intro i hi _
      simp [opened, hmode, dealt]

/-- Nothing has happened. -/
theorem opened_tracks (hu : u.Valid) (clock : Int) :
    Tracks u net 0 (opened u clock : Program R C)
      (Experiment.new clock).core := by
  refine ⟨opened_sound hu clock, ⟨rfl, ⟨[], rfl, ?_⟩, ?_⟩, rfl, rfl⟩
  · rw [outstanding, opened_flatMap clock fun m => by simp [Link.waits]]
    exact .nil
  · rw [lines, opened_flatMap clock fun m => by simp [measured]]
    exact .nil

/-- **The start** of the program and of the experiment. -/
theorem setupExperiment_follows (hu : u.Valid) (clock : Int)
    (hlog : Foretold net
      (after (setupExperiment u (start clock : Program R C))).serves) :
    Agree Reason.stop (fun _ => Mirrors u net) (Over u net)
      (setupExperiment u (start clock : Program R C))
      ((u.experiment net).setupExperiment (Experiment.new clock)) := by
  have hfollows : Follows (R := R) (C := C) u net
      (onClient (modify fun c => { c with expStartTime := c.core.clock }) >>=
        fun _ => runIf (u.cfg.useBusyTimer = false) (timerHandler u))
      (u.experiment net).setupExperiment := by
    refine .bind (Q := fun _ => Mirrors u net) (foretold_closed net)
      ⟨.of_keeps (onClient_keeps (fun _ _ => rfl) _), fun p c h _ =>
        .ok (h.withClient rfl rfl ?_)⟩ fun _ =>
      .runIf Iff.rfl (timerHandler_follows hu) fun _ _ h => h
    have hclock := h.clocks
    simp only [clockwork, Prod.mk.injEq] at hclock ⊢
    exact ⟨h.like.clock, hclock.2⟩
  have hsetup : setupExperiment u (start clock : Program R C) =
      (onClient (modify fun c => { c with expStartTime := c.core.clock }) >>=
        fun _ => runIf (u.cfg.useBusyTimer = false) (timerHandler u))
        (opened u clock) := bind_of_ok (setupConnections_ok clock)
  rw [hsetup] at hlog ⊢
  exact hfollows.agree _ _ ⟨rfl, opened_tracks hu clock⟩ hlog

end Program

end Mutated.Ports
