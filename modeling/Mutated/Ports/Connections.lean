import Mutated.Ports.GeneratorClient
import Mutated.Ports.Lifetime
import Mutated.Ports.Memcache
import Mutated.Ports.SockOutput
import Mutated.Ports.SyntheticRuns

/-!
# The client and its generators

The client with its generators: their sockets, the two protocols, and the
reference counts.

* `record_sample` is the completion callback; what it does to the connection
  is to release one reference.  Its counters are left out, so a run may go on
  where the program ends.
* A generator that was deleted stays in the list as it was.
* The answers of the kernel are arguments of each call.  The server handles a
  request after it received all of it, and sends no reply where it was asked
  for none.
-/

namespace Mutated.Ports

open Relation (ReflTransGen)
open Lifetime (Cell)

/-! ## The generators -/

namespace Connections

/-- `record_sample`, as far as the connection is concerned. -/
def recordSample : RequestCB (Except Exn Cell) :=
  fun _ _ _ _ _ refs => refs >>= Cell.put .callback

/-- A generator: its options, the clock it reads, and its connection. -/
inductive Gen (R C : ℕ+)
  | synthetic (cfg : Synthetic.Config) (clk : Nat → Nat)
      (s : Conn UInt64 (Synthetic.State (Except Exn Cell)) R C)
  | memcache (cfg : Memcache.Config) (clk : Nat → Nat)
      (s : Conn MemcCmd (Memcache.State (Except Exn Cell)) R C)

/-- What a request is made with, and how the kernel answers. -/
structure Draw where
  service : UInt64
  low : Bool
  stack : Nat → Nat → UInt8
  wout : List WriteRes
  rin : List ReadRes

variable {R C : ℕ+}

namespace Gen

/-- `ref_cnt_`, and whether the generator was deleted. -/
def refs : Gen R C → Except Exn Cell
  | .synthetic _ _ s => s.world.client.client
  | .memcache _ _ s => s.world.client.client

def setRefs (c : Cell) : Gen R C → Gen R C
  | .synthetic cfg clk s => .synthetic cfg clk { s with world := { s.world with
      client := { s.world.client with client := .ok c } } }
  | .memcache cfg clk s => .memcache cfg clk { s with world := { s.world with
      client := { s.world.client with client := .ok c } } }

/-- `get` or `put`. -/
def onRefs (f : Cell → Except Exn Cell) (g : Gen R C) :
    Except Exn (Gen R C) := do
  let c ← g.refs
  let c ← f c
  pure (g.setRefs c)

/-- The bytes in `wbuf_`. -/
def wbuf : Gen R C → List UInt8
  | .synthetic _ _ s => s.wbuf.toList
  | .memcache _ _ s => s.wbuf.toList

/-- `delete` was called. -/
def Deleted (g : Gen R C) : Prop := ∃ c, g.refs = .ok c ∧ c.deleted ≠ []

/-- The state after a call that returned. -/
def outcome {ε σ α : Type} : EStateM.Result ε σ α → Except ε σ
  | .ok _ s => .ok s
  | .error e _ => .error e

/-- `_send_request`. -/
def _sendRequest (measure : Bool) (d : Draw) : Gen R C → Except Exn (Gen R C)
  | .synthetic cfg clk s => (outcome (Synthetic.sendRequest cfg clk d.service
      measure recordSample (d.stack 0) d.wout d.rin s)).map (.synthetic cfg clk)
  | .memcache cfg clk s => (outcome (Memcache.sendRequest cfg clk d.low
      measure recordSample d.stack d.wout d.rin s)).map (.memcache cfg clk)

/-- `send_request`. -/
def sendRequest (measure : Bool) (d : Draw) (g : Gen R C) :
    Except Exn (Gen R C) := do
  let g ← g.onRefs Cell.get
  let g ← g._sendRequest measure d
  g.onRefs (Cell.put .frame)

/-- `sock_.run_io`. -/
def sockRunIo (events : UInt32) (check : ConnCheck) (rin : List ReadRes)
    (wout : List WriteRes) : Gen R C → Except Exn (Gen R C)
  | .synthetic cfg clk s =>
      (outcome (Sock.runIo events check rin wout s)).map (.synthetic cfg clk)
  | .memcache cfg clk s =>
      (outcome (Sock.runIo events check rin wout s)).map (.memcache cfg clk)

/-- `run_io`. -/
def runIo (events : UInt32) (check : ConnCheck) (rin : List ReadRes)
    (wout : List WriteRes) (g : Gen R C) : Except Exn (Gen R C) := do
  let g ← g.onRefs Cell.get
  let g ← g.sockRunIo events check rin wout
  g.onRefs (Cell.put .frame)

end Gen

/-! ## The client -/

/-- The options of `Config` the client and its generators read. -/
structure Config where
  protocol : Protocol
  connMode : ConnMode
  connCnt : Nat
  sendOnly : Bool
  memcache : Memcache.Config

/-- Where a new generator lies, what its memory holds, the `seqid_` it starts
with, and the clock. -/
structure Memory where
  addr : Nat
  rmem : Nat → UInt8
  wmem : Nat → UInt8
  requestsAt : Nat
  seqid : UInt64
  clk : Nat → Nat

/-- The constructor of a generator. -/
def Gen.new (cfg : Config) (m : Memory) : Gen R C :=
  match cfg.protocol with
  | .synthetic => .synthetic ⟨cfg.sendOnly, m.requestsAt⟩ m.clk
      (Synthetic.start m.addr m.rmem m.wmem (.ok .new))
  | .memcache => .memcache cfg.memcache m.clk
      (Memcache.start m.addr m.rmem m.wmem m.seqid (.ok .new))

/-- All generators there ever were, `conns_`, and the `idx` of
`get_connection`. -/
structure Client (R C : ℕ+) where
  gens : List (Gen R C)
  conns : List Nat
  idx : BitVec 32

namespace Client

/-- A call of a generator. -/
def onGen (s : Client R C) (i : Nat) (f : Gen R C → Except Exn (Gen R C)) :
    Except Exn (Client R C) :=
  match s.gens[i]? with
  | none => .error (.undefinedBehaviour "Client: wild pointer")
  | some g => (f g).map fun g => { s with gens := s.gens.set i g }

/-- `new_connection`. -/
def newConnection (cfg : Config) (m : Memory) (s : Client R C) :
    Nat × Client R C :=
  (s.gens.length, { s with gens := s.gens ++ [Gen.new cfg m] })

/-- `setup_connections`, for the generators that are created. -/
def setupConnections (cfg : Config) (ms : List Memory) : Client R C :=
  match cfg.connMode with
  | .perRequest => ⟨[], [], 0⟩
  | _ => ⟨ms.map (Gen.new cfg), List.range ms.length, 0⟩

/-- A reference to a connection of the pool. -/
def pick (s : Client R C) (i : Nat) : Except Exn (Nat × Client R C) :=
  match s.conns[i]? with
  | none => .error Lifetime.System.emptyPool
  | some g => (s.onGen g (Gen.onRefs Cell.get)).map fun s => (g, s)

/-- `get_connection`, where `draw` is what `conn_dist_` draws and `m` is for a
new connection. -/
def getConnection (cfg : Config) (draw : Nat) (m : Memory)
    (s : Client R C) : Except Exn (Nat × Client R C) :=
  match cfg.connMode with
  | .perRequest => .ok (s.newConnection cfg m)
  | .roundRobin =>
      pick { s with idx := s.idx + 1 }
        ((s.idx.signExtend 64).toNat % s.conns.length)
  | .random => s.pick draw

end Client

/-- What the event loop does: it makes a request, or handles an event. -/
inductive Action
  | sendRequest (draw : Nat) (m : Memory) (measure : Bool) (d : Draw)
  | runIo (i : Nat) (events : UInt32) (check : ConnCheck)
      (rin : List ReadRes) (wout : List WriteRes)

namespace Action

def call (cfg : Config) : Action → Client R C → Except Exn (Client R C)
  | .sendRequest draw m measure d, s => do
      let (i, s) ← s.getConnection cfg draw m
      s.onGen i (Gen.sendRequest measure d)
  | .runIo i events check rin wout, s =>
      s.onGen i (Gen.runIo events check rin wout)

/-- Only a connection that is open has events. -/
def Enabled (s : Client R C) : Action → Prop
  | .sendRequest _ _ _ _ => True
  | .runIo i _ _ _ _ => ∀ g, s.gens[i]? = some g → ¬ g.Deleted

end Action

/-! ## The server -/

/-- A server answers a request after it received all of it; where no reply is
wanted it sends none. -/
def ServedBy {X K : Type} (reply : Bool) (len : X → Nat)
    (s : Conn X K R C) : Prop :=
  (reply = false → delivered s.trace = []) ∧
    ((s.world.sent.take (delivered s.trace).length).map
      fun x => len x.info).sum ≤ (accepted s.trace).length

def Gen.Served : Gen R C → Prop
  | .synthetic cfg _ s => ServedBy (!cfg.sendOnly)
      (fun _ => Synthetic.reqPktSize) s
  | .memcache cfg _ s => ServedBy true (Memcache.reqLen cfg) s

/-- One turn of the event loop. -/
def Step (cfg : Config) (s t : Client R C) : Prop :=
  ∃ a : Action, a.Enabled s ∧ a.call cfg s = .ok t ∧ ∀ g ∈ t.gens, g.Served

/-- The states of a client. -/
def Reachable (cfg : Config) (s : Client R C) : Prop :=
  ∃ ms : List Memory, ms.length = cfg.connCnt ∧
    ReflTransGen (Step cfg) (.setupConnections cfg ms) s

end Connections

end Mutated.Ports
