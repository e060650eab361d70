import Mathlib.Algebra.Order.Ring.Rat
import Mutated.Ports.Schedule
import Mutated.Verified.Triple

/-!
# An experiment

The client makes the requests of its schedule, each once its deadline has
come, and gathers the samples of those that are measured.  The response to the
last request ends the program.

* An `Experiment` is the options, the schedule, and what the connections do:
  `net i` is what happens while the `i`-th request is made.  Responses may
  arrive then, its own as well as others', or later from the event loop.
* The clock counts nanoseconds.  Time passes while a request is made, before a
  response arrives, and while the event loop waits.
* A `double` is exact.
* `beyond` is what a read behind the end of `deadlines_` gives.
* `pending`, `sending`, `log`, `reads` and `dues` are ghost state.

The connections, their references and the texts for human readers are left
out.
-/

namespace Mutated.Ports.Load

open Mutated.Verified.Exec

/-! ## Samples -/

/-- `Accum`. -/
structure Accum where
  samples : List UInt64 := []
  sorted : Bool := false

namespace Accum

def addSample (a : Accum) (val : UInt64) : Accum :=
  ⟨a.samples ++ [val], false⟩

def size (a : Accum) : Nat := a.samples.length

@[simp] theorem size_addSample (a : Accum) (val : UInt64) :
    (a.addSample val).size = a.size + 1 := by
  simp [addSample, size]

end Accum

/-- `Results`. -/
structure Results where
  measureStart : Int := 0
  measureEnd : Int := 0
  queue : Accum := {}
  service : Accum := {}
  wait : Accum := {}
  txBytes : UInt64 := 0
  rxBytes : UInt64 := 0
  reqps : ℚ := 0

namespace Results

def startMeasurements (r : Results) (now : Int) : Results :=
  { r with measureStart := now }

def sentBytes (r : Results) (txBytes : UInt64) : Results :=
  { r with txBytes := r.txBytes + txBytes }

def addSample (r : Results) (queue service wait rxBytes : UInt64) : Results :=
  { r with
    queue := r.queue.addSample queue
    service := r.service.addSample service
    wait := r.wait.addSample wait
    rxBytes := r.rxBytes + rxBytes }

/-- `running_time`, which throws when it is not positive. -/
def runningTime (r : Results) : Option Int :=
  if r.measureEnd - r.measureStart ≤ 0 then none
  else some (r.measureEnd - r.measureStart)

end Results

/-! ## The state of the client -/

/-- A schedule with at least one request. -/
structure Plan extends Schedule where
  total_eq : totalSamples = preSamples + measureSamples + postSamples
  length_eq : deadlines.length = totalSamples
  total_pos : 0 < totalSamples

/-- A schedule without warm-up and cool-down. -/
def Plan.measuring (first : Int) (rest : List Int) : Plan where
  deadlines := first :: rest
  preSamples := 0
  measureSamples := rest.length + 1
  postSamples := 0
  totalSamples := rest.length + 1
  total_eq := (Nat.zero_add _).symm
  length_eq := rfl
  total_pos := Nat.succ_pos _

/-- A request: its place in the schedule, and whether it is measured. -/
structure Request where
  index : Nat
  measure : Bool
  deriving DecidableEq, Repr

/-- A response: the request, the time until it arrives, and its sample. -/
structure Completion where
  index : Nat
  took : Nat
  queueUs : UInt64
  serviceUs : UInt64
  waitUs : UInt64
  bytes : UInt64

/-- What the connections do during one call: the responses that arrive, the
number of bytes of the request, the time that passes at the end, and whether
the call then throws. -/
structure Served where
  completions : List Completion
  bytes : UInt64
  took : Nat
  fails : Bool

inductive Event
  | startMeasurements
  | send (req : Request)
  | complete (req : Request)
  | endMeasurements
  | printSummary
  deriving DecidableEq, Repr

/-- The output for other programs. -/
inductive Line
  | rate (reqps : ℚ)
  | sample (us : UInt64)
  deriving DecidableEq, Repr

/-- Why the program ends: it exits, an exception is not caught, or its
behaviour is not defined. -/
inductive Stop
  | exit
  | runtimeError (what : String)
  | connection
  | undefinedBehaviour (what : String)
  deriving DecidableEq, Repr

/-- The exception of `running_time`. -/
def tooEarly : Stop :=
  .runtimeError "experiment finished before it started"

/-- What stands for `samples_[0]` of an empty vector. -/
def noSamples : Stop := .undefinedBehaviour "Accum::min: no samples"

/-- What sending and receiving work on. -/
structure Core where
  clock : Int
  results : Results := {}
  sentCount : Nat := 0
  rcvdCount : Nat := 0
  measureCount : Nat := 0
  output : List Line := []
  pending : List Request := []
  sending : Bool := false
  log : List Event := []

/-- `itimerspec`, and when it was set. -/
structure Alarm where
  settime : Int
  tvSec : Int
  tvNsec : Int

/-- When the timer expires. -/
def Alarm.expires (a : Alarm) : Int := a.settime + (a.tvSec * nsec + a.tvNsec)

/-- A request that was found due: how late it was, and whether that was
compared with the threshold. -/
structure Due where
  index : Nat
  late : Int
  checked : Bool
  deriving DecidableEq, Repr

/-- `Client`. -/
@[ext] structure Client where
  core : Core
  expStartTime : Int := 0
  missedSend : Nat := 0
  armed : Option Alarm := none
  reads : List Nat := []
  dues : List Due := []

structure Experiment where
  cfg : Config
  plan : Plan
  net : Nat → Served
  beyond : Nat → Int

namespace Core

def advance (ns : Nat) (c : Core) : Core := { c with clock := c.clock + ns }

def startMeasurements (c : Core) : Core :=
  { c with
    results := c.results.startMeasurements c.clock
    log := c.log ++ [.startMeasurements] }

/-- A request goes to a connection. -/
def enter (req : Request) (c : Core) : Core :=
  { c with
    pending := c.pending ++ [req]
    sending := true
    log := c.log ++ [.send req] }

/-- The connection is done with the request. -/
def leave (c : Core) : Core := { c with sending := false }

def sentBytes (bytes : UInt64) (c : Core) : Core :=
  { c with results := c.results.sentBytes bytes }

/-- A response is handed to its callback. -/
def completed (req : Request) (c : Core) : Core :=
  { c with
    pending := c.pending.erase req
    log := c.log ++ [.complete req] }

def addSample (comp : Completion) (c : Core) : Core :=
  { c with
    measureCount := c.measureCount + 1
    results := c.results.addSample comp.queueUs comp.serviceUs comp.waitUs
      comp.bytes }

def endMeasurements (c : Core) : Core :=
  { c with
    results := { c.results with measureEnd := c.clock }
    log := c.log ++ [.endMeasurements] }

def received (c : Core) : Core := { c with rcvdCount := c.rcvdCount + 1 }

def printSummary (c : Core) : Core :=
  { c with log := c.log ++ [.printSummary] }

/-- `print_samples`, behind the rate. -/
def printSamples (c : Core) : Core :=
  { c with
    output := .rate c.results.reqps :: c.results.service.samples.map .sample }

def sent (c : Core) : Core := { c with sentCount := c.sentCount + 1 }

/-- `running_time`. -/
def runningTime : EStateM Stop Core Int := do
  let c ← get
  match c.results.runningTime with
  | none => throw tooEarly
  | some t => pure t

end Core

namespace Experiment

variable (e : Experiment)

/-! ## `record_sample` -/

/-- `end_measurements`. -/
def endMeasurements : EStateM Stop Core Unit := do
  modify Core.endMeasurements
  let t ← Core.runningTime
  modify fun c => { c with results := { c.results with
    reqps := c.results.service.size / (t / nsec : ℚ) } }

/-- `print_summary`.  Without `-r` it looks at the samples and asks for the
running time. -/
def printSummary : EStateM Stop Core Unit := do
  modify Core.printSummary
  if e.cfg.machineReadable then modify Core.printSamples
  else do
    let c ← get
    if c.results.service.size = 0 then throw noSamples
    else do
      let _ ← Core.runningTime
      pure ()

/-- The first half of `record_sample`: the sample of a measured request. -/
def addSample (comp : Completion) : EStateM Stop Core Unit := do
  modify (Core.addSample comp)
  let c ← get
  -- final measurement app-packet - record experiment time
  runIf (c.measureCount = e.plan.measureSamples) endMeasurements

/-- The second half: another response is there. -/
def countReceived : EStateM Stop Core Unit := do
  modify Core.received
  let c ← get
  runIf (e.plan.totalSamples ≤ c.rcvdCount) do
    e.printSummary
    throw .exit

def recordSample (measure : Bool) (comp : Completion) :
    EStateM Stop Core Unit := do
  runIf measure (e.addSample comp)
  -- conn->put(): request finished
  e.countReceived

/-- A response that arrives.  There is none when its request was not sent or
was answered before. -/
def complete (comp : Completion) : EStateM Stop Core Unit := do
  modify (Core.advance comp.took)
  let c ← get
  match c.pending.find? fun req => req.index = comp.index with
  | none => pure ()
  | some req => do
      modify (Core.completed req)
      e.recordSample req.measure comp

/-- The responses that arrive during a call of a connection. -/
def serve (s : Served) : EStateM Stop Core Unit := do
  runAll e.complete s.completions
  modify (Core.advance s.took)
  runIf s.fails (throw .connection)

/-! ## `send_request` -/

/-- in measure phase? (not warm up or down) -/
def measure (i : Nat) : Bool :=
  decide (e.plan.preSamples ≤ i) &&
    decide (i < e.plan.preSamples + e.plan.measureSamples)

/-- `send_request`. -/
def sendRequest : EStateM Stop Core Unit := do
  let c ← get
  runIf (c.sentCount = e.plan.preSamples) (modify Core.startMeasurements)
  let measure := e.measure c.sentCount
  modify (Core.enter ⟨c.sentCount, measure⟩)
  e.serve (e.net c.sentCount)
  modify Core.leave
  runIf measure (modify (Core.sentBytes (e.net c.sentCount).bytes))

/-! ## The timers -/

def onCore {α : Type} : EStateM Stop Core α → EStateM Stop Client α :=
  zoom Client.core fun t c => { c with core := t }

/-- `missed_threshold_`, which is built from an unsigned product. -/
def missedThreshold : Int :=
  (-e.cfg.missedWindowUs * 1000).toInt64.toInt

/-- `deadlines_[i]`. -/
def deadlineAt (i : Nat) : Int := (e.plan.deadlines[i]?).getD (e.beyond i)

/-- `deadlines_[sent_count_]`. -/
def readDeadline : EStateM Stop Client Int := do
  let c ← get
  modify fun c => { c with reads := c.reads ++ [c.core.sentCount] }
  pure (e.deadlineAt c.core.sentCount)

/-- `timer_arm`. -/
def timerArm (deadline : Int) : EStateM Stop Client Unit :=
  let tvSec := deadline / nsec
  modify fun c => { c with
    armed := some ⟨c.core.clock, tvSec, deadline - tvSec * nsec⟩ }

/-- A missed send is counted, if it is `checked`; `slack` is the time left to
the deadline. -/
def countMissed (slack : Int) (checked : Bool) : EStateM Stop Client Unit :=
  modify fun c => { c with
    missedSend := c.missedSend +
      if checked ∧ slack < e.missedThreshold then 1 else 0
    dues := c.dues ++ [⟨c.core.sentCount, -slack, checked⟩] }

/-- `send_request(); sent_count_++`. -/
def sendOne : EStateM Stop Core Unit := do
  e.sendRequest
  modify Core.sent

/-- The loop of `timer_handler`. -/
def timerLoop (nowRelative : Int) : Nat → Nat → EStateM Stop Client Unit
  | 0, _ => pure ()
  | fuel + 1, looped => do
      let deadline ← e.readDeadline
      let sleepDuration := deadline - nowRelative
      if 0 < sleepDuration then timerArm sleepDuration
      else do
        e.countMissed sleepDuration (0 < looped)
        onCore e.sendOne
        let c ← get
        if e.plan.totalSamples ≤ c.core.sentCount then pure ()
        else timerLoop nowRelative fuel (looped + 1)

def timerHandler : EStateM Stop Client Unit := do
  let c ← get
  e.timerLoop (c.core.clock - c.expStartTime)
    (e.plan.totalSamples - c.core.sentCount + 1) 0

/-- The loop of `busy_timer`. -/
def busyLoop (now : Int) : Nat → Int → EStateM Stop Client Unit
  | 0, _ => pure ()
  | fuel + 1, d => do
      let c ← get
      if d ≤ 0 ∧ c.core.sentCount < e.plan.totalSamples then do
        e.countMissed d true
        onCore e.sendOne
        let deadline ← e.readDeadline
        busyLoop now fuel (deadline + c.expStartTime - now)
      else pure ()

def busyTimer : EStateM Stop Client Unit := do
  let c ← get
  let deadline ← e.readDeadline
  e.busyLoop c.core.clock (e.plan.totalSamples - c.core.sentCount + 1)
    (deadline + c.expStartTime - c.core.clock)

/-! ## `run` -/

/-- `setup_experiment`, once the connections and the deadlines are there. -/
def setupExperiment : EStateM Stop Client Unit := do
  modify fun c => { c with expStartTime := c.core.clock }
  runIf (e.cfg.useBusyTimer = false) e.timerHandler

/-- What happens in the event loop: time passes, a connection has an event,
the timer expires, or the busy timer is called. -/
inductive Call
  | wait (ns : Nat)
  | runIo (s : Served)
  | timer
  | busy

/-- A call of the event loop.  There is a timer event only when the timer is
armed and has expired. -/
def call : Call → EStateM Stop Client Unit
  | .wait ns => onCore (modify (Core.advance ns))
  | .runIo s => onCore (e.serve s)
  | .timer => do
      let c ← get
      match c.armed with
      | none => pure ()
      | some alarm => runIf (alarm.expires ≤ c.core.clock) do
          modify fun c => { c with armed := none }
          runIf e.cfg.useBusyTimer
            (throw (.runtimeError "timer event when using busy timer"))
          e.timerHandler
  | .busy => runIf e.cfg.useBusyTimer e.busyTimer

/-- A client before its experiment. -/
def new (clock : Int) : Client := { core := { clock := clock } }

/-- `run`, as far as these calls. -/
def run (calls : List Call) : EStateM Stop Client Unit := do
  e.setupExperiment
  runAll e.call calls

end Experiment

end Mutated.Ports.Load
