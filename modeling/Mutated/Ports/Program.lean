import Mutated.Ports.Client
import Mutated.Ports.Connections

/-!
# The whole program

The client with its connections: the schedule and the timers, the counters,
the generators with their sockets, and `record_sample`, which every generator
calls back and which counts, releases the connection and ends the program.

* What the outside does is in a `Setting`: the schedule that was drawn, where
  and on which connection each request is made, how the kernel answers, and
  how much time passes.
* A generator reaches the client only through its callback, so it carries the
  client's counters, `Shared`, while one of its functions runs.  When a
  callback ends the program, the rest of that function has no effect.
* A generator that was deleted stays in the list as it was, and has no events.
* `made` and `serves` are ghost state: the requests that were handed to each
  generator, and what happened during each `send_request` of one.
-/

namespace Mutated.Ports

open Mutated.Verified.Exec
open Mutated.Ports.Load
open Mutated.Ports.Lifetime (Cell)

namespace Program

/-! ## What is outside -/

/-- How a request is made: what `conn_dist_` draws, where a new connection
lies, what the request is drawn to be, how the kernel answers meanwhile, and
how much time that takes. -/
structure Attempt where
  pick : Nat
  memory : Connections.Memory
  draw : Connections.Draw
  took : Nat

structure Setting where
  cfg : Config
  plan : Plan
  beyond : Nat → Int
  pool : List Connections.Memory
  attempts : Nat → Attempt
  took : Nat → Nat

/-- The experiment with a network that does `net`. -/
def Setting.experiment (u : Setting) (net : Nat → Served) : Experiment :=
  ⟨u.cfg, u.plan, net, u.beyond⟩

/-- The experiment, as far as it does not depend on the network. -/
def Setting.offline (u : Setting) : Experiment :=
  u.experiment fun _ => ⟨[], 0, 0, false⟩

/-- Why the program ends: the client stops it, or a connection throws `e`,
which may also stand for undefined behaviour. -/
inductive Reason
  | client (stop : Stop)
  | connection (e : Exn)
  deriving DecidableEq, Repr

/-- What that is for an experiment, whose connections just fail. -/
def Reason.stop : Reason → Stop
  | .client stop => stop
  | .connection _ => .connection

/-! ## `record_sample` -/

/-- The client as a completion callback finds it: the counters, whether the
program ended, and the references to the connection. -/
structure Shared where
  core : Core
  stop : Option Reason
  refs : Except Exn Cell

namespace Shared

/-- A part of `record_sample` that works on the counters. -/
def count (x : EStateM Stop Core Unit) (k : Shared) : Shared :=
  match k.stop with
  | some _ => k
  | none => match x k.core with
      | .ok _ core => { k with core := core }
      | .error stop core => { k with core := core, stop := some (.client stop) }

/-- `conn->put()`. -/
def put (k : Shared) : Shared :=
  match k.stop with
  | some _ => k
  | none => match k.refs >>= Cell.put .callback with
      | .ok c => { k with refs := .ok c }
      | .error e => { k with refs := .error e, stop := some (.connection e) }

end Shared

/-- `record_sample`, for a response before which some time passes. -/
def recordSample (u : Setting) : RequestCB Shared :=
  fun queueUs serviceUs waitUs bytes measure k =>
    let comp : Completion := ⟨0, 0, .ofNat queueUs, .ofNat serviceUs,
      .ofNat waitUs, .ofNat bytes⟩
    (((k.count (modify (Core.advance (u.took k.core.rcvdCount)))).count
      (runIf measure (u.offline.addSample comp))).put).count
      u.offline.countReceived

/-! ## The generators -/

/-- A generator: its options, the clock it reads, and its connection. -/
inductive Gen (R C : ℕ+)
  | synthetic (cfg : Synthetic.Config) (clk : Nat → Nat)
      (s : Conn UInt64 (Synthetic.State Shared) R C)
  | memcache (cfg : Memcache.Config) (clk : Nat → Nat)
      (s : Conn MemcCmd (Memcache.State Shared) R C)

variable {R C : ℕ+}

namespace Gen

def shared : Gen R C → Shared
  | .synthetic _ _ s => s.world.client.client
  | .memcache _ _ s => s.world.client.client

def setShared (k : Shared) : Gen R C → Gen R C
  | .synthetic cfg clk s => .synthetic cfg clk { s with world := { s.world with
      client := { s.world.client with client := k } } }
  | .memcache cfg clk s => .memcache cfg clk { s with world := { s.world with
      client := { s.world.client with client := k } } }

/-- The samples so far. -/
def done : Gen R C → List Sample
  | .synthetic _ _ s => s.world.done
  | .memcache _ _ s => s.world.done

/-- The constructor. -/
def new (u : Setting) (m : Connections.Memory) : Gen R C :=
  match u.cfg.protocol with
  | .synthetic => .synthetic ⟨u.cfg.sendOnly, m.requestsAt⟩ m.clk
      (Synthetic.start m.addr m.rmem m.wmem ⟨{ clock := 0 }, none, .ok .new⟩)
  | .memcache => .memcache ⟨u.cfg.records.toNat, u.cfg.keysize.toNat,
        u.cfg.valsize.toNat⟩ m.clk
      (Memcache.start m.addr m.rmem m.wmem m.seqid
        ⟨{ clock := 0 }, none, .ok .new⟩)

/-- `get` or `put`. -/
def onRefs (f : Cell → Except Exn Cell) : EStateM Exn (Gen R C) Unit :=
  fun g => match g.shared.refs >>= f with
    | .ok c => .ok () (g.setShared { g.shared with refs := .ok c })
    | .error e => .error e g

/-- `_send_request`. -/
def _sendRequest (u : Setting) (measure : Bool) (d : Connections.Draw) :
    EStateM Exn (Gen R C) Nat
  | .synthetic cfg clk s => onState (.synthetic cfg clk)
      (Synthetic.sendRequest cfg clk d.service measure (recordSample u)
        (d.stack 0) d.wout d.rin s)
  | .memcache cfg clk s => onState (.memcache cfg clk)
      (Memcache.sendRequest cfg clk d.low measure (recordSample u) d.stack
        d.wout d.rin s)

/-- `send_request`. -/
def sendRequest (u : Setting) (measure : Bool) (d : Connections.Draw) :
    EStateM Exn (Gen R C) Nat := do
  onRefs Cell.get
  let bytes ← _sendRequest u measure d
  onRefs (Cell.put .frame)
  pure bytes

/-- `sock_.run_io`. -/
def sockRunIo (events : UInt32) (check : ConnCheck) (rin : List ReadRes)
    (wout : List WriteRes) : EStateM Exn (Gen R C) Unit
  | .synthetic cfg clk s =>
      onState (.synthetic cfg clk) (Sock.runIo events check rin wout s)
  | .memcache cfg clk s =>
      onState (.memcache cfg clk) (Sock.runIo events check rin wout s)

/-- `run_io`. -/
def runIo (events : UInt32) (check : ConnCheck) (rin : List ReadRes)
    (wout : List WriteRes) : EStateM Exn (Gen R C) Nat := do
  onRefs Cell.get
  sockRunIo events check rin wout
  onRefs (Cell.put .frame)
  pure 0

end Gen

/-- A generator, and the requests that were handed to it. -/
structure Link (R C : ℕ+) where
  gen : Gen R C
  made : List Nat

/-- The requests that were not told yet. -/
def Link.waits (l : Link R C) : List Nat := l.made.drop l.gen.done.length

/-- It was not deleted. -/
def Link.open (l : Link R C) : Bool :=
  match l.gen.shared.refs with
  | .ok c => c.deleted.isEmpty
  | .error _ => false

end Program

/-! ## The client -/

/-- `Client`, with all generators there ever were, `conns_`, and the `idx` of
`get_connection`. -/
structure Program (R C : ℕ+) where
  client : Client
  links : List (Program.Link R C)
  conns : List Nat
  idx : BitVec 32
  serves : List Served

namespace Program

variable {R C : ℕ+}

def onClient {α : Type} (x : EStateM Stop Client α) :
    EStateM Reason (Program R C) α :=
  fun p => onThrow .client (zoom client (fun c p => { p with client := c }) x p)

def onCore {α : Type} (x : EStateM Stop Core α) :
    EStateM Reason (Program R C) α := onClient (Experiment.onCore x)

/-- The responses during a call, in terms of the requests. -/
def completions (u : Setting) : Nat → List Nat → List Sample →
    List Completion
  | n, i :: is, d :: ds => ⟨i, u.took n, .ofNat d.queueUs, .ofNat d.serviceUs,
      .ofNat d.waitUs, .ofNat d.bytes⟩ :: completions u (n + 1) is ds
  | _, _, _ => []

/-- What a call of a generator did that found it as `l` and came to `r`. -/
def served (u : Setting) (rcvd : Nat) (l : Link R C) (took : Nat)
    (r : EStateM.Result Exn (Gen R C) Nat) : Served where
  completions := completions u rcvd l.waits
    ((after r).done.drop l.gen.done.length)
  bytes := match r with
    | .ok n _ => .ofNat n
    | .error _ _ => 0
  took := took
  fails := !returned r

/-- The exception that stands for a pointer to no generator. -/
def wildPointer : Reason :=
  .client (.undefinedBehaviour "Client: wild pointer")

/-- The exception that stands for a look at an empty pool. -/
def noConnections : Reason :=
  .client (.undefinedBehaviour "Client::get_connection: no connections")

/-- Time passes. -/
def advance (ns : Nat) (p : Program R C) : Program R C :=
  { p with client := { p.client with core := p.client.core.advance ns } }

/-- The generator as a call finds it. -/
def lent (p : Program R C) (l : Link R C) : Gen R C :=
  l.gen.setShared { l.gen.shared with core := p.client.core, stop := none }

/-- The client after a call of the `i`-th generator, which came to `r`.  What
the callbacks made of the counters is there; one of them may have ended the
program. -/
def came (u : Setting) (sending : Bool) (i took : Nat) (l : Link R C)
    (r : EStateM.Result Exn (Gen R C) Nat) (p : Program R C) :
    EStateM.Result Reason (Program R C) Nat :=
  let k := (after r).shared
  let s := served u p.client.core.rcvdCount l took r
  let p := { p with
    client := { p.client with core := k.core }
    links := p.links.set i { l with gen := after r }
    serves := if sending then p.serves ++ [s] else p.serves }
  match k.stop with
  | some reason => .error reason p
  | none => match r with
    | .error e _ => .error (.connection e) (p.advance took)
    | .ok n _ => .ok n (p.advance took)

/-- A function of the `i`-th generator is called. -/
def callGen (u : Setting) (sending : Bool) (i took : Nat)
    (x : EStateM Exn (Gen R C) Nat) : EStateM Reason (Program R C) Nat :=
  fun p => match p.links[i]? with
  | none => .error wildPointer p
  | some l => p.came u sending i took l (x (p.lent l))

section Model

variable (u : Setting)

/-- `new_connection`. -/
def newConnection (m : Connections.Memory) :
    EStateM Reason (Program R C) Nat := do
  let p ← get
  modify fun p => { p with links := p.links ++ [⟨.new u m, []⟩] }
  pure p.links.length

/-- `setup_connections`. -/
def setupConnections : EStateM Reason (Program R C) Unit :=
  runIf (u.cfg.connMode ≠ .perRequest) (runAll (fun m => do
    let g ← newConnection u m
    modify fun p => { p with conns := p.conns ++ [g] }) u.pool)

/-- `gen->get()` for a connection of the pool. -/
def pick (i : Nat) : EStateM Reason (Program R C) Nat := do
  let p ← get
  match p.conns[i]? with
  | none => throw noConnections
  | some g => match p.links[g]? with
    | none => throw wildPointer
    | some l => match l.gen.onRefs Cell.get with
      | .error e _ => throw (.connection e)
      | .ok _ gen => do
          modify fun p =>
            { p with links := p.links.set g { l with gen := gen } }
          pure g

/-- `get_connection`.  The `int` `idx` wraps around, and is converted to
`size_t`. -/
def getConnection (a : Attempt) : EStateM Reason (Program R C) Nat :=
  match u.cfg.connMode with
  | .perRequest => newConnection u a.memory
  | .roundRobin => do
      let p ← get
      modify fun p => { p with idx := p.idx + 1 }
      pick ((p.idx.signExtend 64).toNat % p.conns.length)
  | .random => pick a.pick

/-- The `n`-th request is handed to a generator. -/
def hand (g n : Nat) (p : Program R C) : Program R C :=
  { p with links := p.links.modify g fun l => { l with made := l.made ++ [n] } }

/-- `send_request`. -/
def sendRequest : EStateM Reason (Program R C) Unit := do
  let p ← get
  let n := p.client.core.sentCount
  let a := u.attempts n
  onCore (runIf (n = u.plan.preSamples) (modify Core.startMeasurements))
  let measure := u.offline.measure n
  let g ← getConnection u a
  modify (hand g n)
  let bytes ← callGen u true g a.took (Gen.sendRequest u measure a.draw)
  onCore (runIf measure (modify (Core.sentBytes (.ofNat bytes))))

/-! ## The timers -/

/-- `send_request(); sent_count_++`. -/
def sendOne : EStateM Reason (Program R C) Unit := do
  sendRequest u
  onCore (modify Core.sent)

/-- The loop of `timer_handler`. -/
def timerLoop (nowRelative : Int) :
    Nat → Nat → EStateM Reason (Program R C) Unit
  | 0, _ => pure ()
  | fuel + 1, looped => do
      let deadline ← onClient u.offline.readDeadline
      let sleepDuration := deadline - nowRelative
      if 0 < sleepDuration then onClient (Experiment.timerArm sleepDuration)
      else do
        onClient (u.offline.countMissed sleepDuration (0 < looped))
        sendOne u
        let p ← get
        if u.plan.totalSamples ≤ p.client.core.sentCount then pure ()
        else timerLoop nowRelative fuel (looped + 1)

def timerHandler : EStateM Reason (Program R C) Unit := do
  let p ← get
  timerLoop u (p.client.core.clock - p.client.expStartTime)
    (u.plan.totalSamples - p.client.core.sentCount + 1) 0

/-- The loop of `busy_timer`. -/
def busyLoop (now : Int) : Nat → Int → EStateM Reason (Program R C) Unit
  | 0, _ => pure ()
  | fuel + 1, d => do
      let p ← get
      if d ≤ 0 ∧ p.client.core.sentCount < u.plan.totalSamples then do
        onClient (u.offline.countMissed d true)
        sendOne u
        let deadline ← onClient u.offline.readDeadline
        busyLoop now fuel (deadline + p.client.expStartTime - now)
      else pure ()

def busyTimer : EStateM Reason (Program R C) Unit := do
  let p ← get
  let deadline ← onClient u.offline.readDeadline
  busyLoop u p.client.core.clock
    (u.plan.totalSamples - p.client.core.sentCount + 1)
    (deadline + p.client.expStartTime - p.client.core.clock)

/-! ## `run` -/

def setupExperiment : EStateM Reason (Program R C) Unit := do
  setupConnections u
  onClient (modify fun c => { c with expStartTime := c.core.clock })
  runIf (u.cfg.useBusyTimer = false) (timerHandler u)

/-- What happens in the event loop: time passes, a connection has an event,
the timer expires, or the busy timer is called. -/
inductive Call
  | wait (ns : Nat)
  | runIo (i took : Nat) (events : UInt32) (check : ConnCheck)
      (rin : List ReadRes) (wout : List WriteRes)
  | timer
  | busy

/-- A call of the event loop.  Only a connection that is open has events, and
there is a timer event only when the timer is armed and has expired. -/
def call : Call → EStateM Reason (Program R C) Unit
  | .wait ns => onCore (modify (Core.advance ns))
  | .runIo i took events check rin wout => do
      let p ← get
      runIf (∃ l ∈ p.links[i]?, l.open = true) do
        let _ ← callGen u false i took (Gen.runIo events check rin wout)
        pure ()
  | .timer => do
      let p ← get
      match p.client.armed with
      | none => pure ()
      | some alarm => runIf (alarm.expires ≤ p.client.core.clock) do
          onClient (modify fun c => { c with armed := none })
          runIf u.cfg.useBusyTimer (throw (.client
            (.runtimeError "timer event when using busy timer")))
          timerHandler u
  | .busy => runIf u.cfg.useBusyTimer (busyTimer u)

/-- A client before `run`. -/
def start (clock : Int) : Program R C :=
  ⟨Experiment.new clock, [], [], 0, []⟩

/-- `run`, as far as these calls. -/
def run (calls : List Call) : EStateM Reason (Program R C) Unit := do
  setupExperiment u
  runAll (call u) calls

end Model

end Program

end Mutated.Ports
