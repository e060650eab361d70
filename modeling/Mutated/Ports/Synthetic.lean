import Mutated.Verified.Endian
import Mutated.Ports.SockWrites
import Mutated.Ports.GeneratorLockstep

/-!
# The synthetic generator

`Synthetic` speaks a protocol of its own.  A request is a `req_pkt`: how many
delays there are, whether a reply is wanted, the address of the request as its
tag, and the delays.  A response is the tag alone.

* The service time is an argument: it is drawn from a distribution.
* Only the first delay is ever set.  Where the packet is built in the ring the
  others are whatever the ring holds, and where it is built on the stack they
  are `stack`, the memory from the packet on.
* The machine is little endian.
* `faked` is ghost state: it counts the responses that were faked.
-/

namespace Mutated.Ports

open Mutated.Verified.Circular
open Mutated.Verified.Endian
open Mutated.Verified.Exec

namespace Synthetic

/-! ## The protocol -/

/-- `sizeof(req_pkt)`. -/
def reqPktSize : Nat := 144

/-- `sizeof(resp_pkt)`. -/
def respPktSize : Nat := 8

/-- `sizeof(SynReq)`. -/
def synReqSize : Nat := 64

/-- `req_pkt`, as far as it is set. -/
structure ReqPkt where
  nr : UInt32
  noreply : UInt32
  tag : UInt64
  delay : UInt64
  deriving DecidableEq, Repr

/-- The object representation of what is set, at the front of the packet. -/
def ReqPkt.bytes (pkt : ReqPkt) : List UInt8 :=
  toLE 4 pkt.nr.toNat ++ toLE 4 pkt.noreply.toNat ++ toLE 8 pkt.tag.toNat ++
    toLE 8 pkt.delay.toNat

@[simp] theorem ReqPkt.length_bytes (pkt : ReqPkt) :
    pkt.bytes.length = 24 := by
  simp [ReqPkt.bytes]

/-! ## The generator -/

/-- The option of `Config` the generator reads, and the address of
`requests_`. -/
structure Config where
  sendOnly : Bool
  requestsAt : Nat

/-- What the completion callbacks work on. -/
structure State (K : Type) where
  client : K
  faked : Nat

/-- A completion callback does not see `faked`. -/
def onClient {K : Type} (cb : RequestCB K) : RequestCB (State K) :=
  fun queueUs serviceUs waitUs bytes measure g =>
    { g with client := cb queueUs serviceUs waitUs bytes measure g.client }

/-- `(uint64_t)&req` for the request in slot `p`. -/
def tagOf (cfg : Config) (p : Nat) : UInt64 :=
  .ofNat (cfg.requestsAt + p * synReqSize)

/-- The packet of the request in slot `p`. -/
def packet (cfg : Config) (p : Nat) (service : UInt64) : ReqPkt where
  nr := 1
  noreply := if cfg.sendOnly then 1 else 0
  tag := tagOf cfg p
  delay := service

/-- The first half of `_send_request`: the packet is built in the ring, or on
the stack when the ring ends inside of it.  Then the second copy starts at
`&pkt + n1`, which is `n1` whole packets after `pkt`. -/
def writePacket {W : Type} {R C : ℕ+} (pkt : ReqPkt)
    (stack : Nat → UInt8) : EStateM Exn (Sock W R C) Unit := do
  let n := reqPktSize
  let (p1, p2, n1) ← Sock.writePrepare n
  if n1 = n then
    -- contiguous
    Sock.onWbuf (modify fun b => { b with buf := blit b.buf p1 pkt.bytes })
    Sock.writeCommit n
  else
    -- fragmented
    match p2 with
    | none => throw (.undefinedBehaviour "_send_request: copy to null")
    | some p2 => do
        let t := blit stack 0 pkt.bytes
        Sock.onWbuf (modify fun b => { b with
          buf := blit (blit b.buf p1 (block t 0 n1)) p2
            (block t (n1 * n) (n - n1)) })
        Sock.writeCommit n

/-- A response is only a header, and the wait is what the service time leaves
of the time it took. -/
def proto : Proto UInt64 where
  name := "Synthetic"
  size := respPktSize
  respond := fun delay serviceUs _ => .ok (serviceUs - delay.toNat, 0)

section Model

variable {K : Type} {R C : ℕ+} (cfg : Config) (clk : Nat → Nat)

def sentRequest : TxCB (World UInt64 (State K) R) :=
  Mutated.Ports.sentRequest clk proto

def recvResponse : RxCB (World UInt64 (State K) R) :=
  Mutated.Ports.recvResponse clk proto

/-- `req.cb(this, 0, 0, 0, 0, measure)` for the request in slot `p`. -/
def fakeResponse (p : Nat) (measure : Bool) :
    EStateM Exn (World UInt64 (State K) R) Unit := do
  let g ← get
  match (g.requests.buf p).cb with
  | none => throw .badFunctionCall
  | some cb => modify fun g => { g with
      client := { cb 0 0 0 0 measure g.client with
        faked := g.client.faked + 1 } }

/-- `_send_request`. -/
def sendRequest (service : UInt64) (measure : Bool) (cb : RequestCB K)
    (stack : Nat → UInt8) (wout : List WriteRes) (rin : List ReadRes) :
    EStateM Exn (Conn UInt64 (State K) R C) Nat := do
  let p ← Sock.onWorld (World.enqueue service measure (onClient cb))
  writePacket (packet cfg p service) stack
  submit clk proto p wout rin
  -- fake response if send-only mode
  if cfg.sendOnly then Sock.onWorld (fakeResponse p measure) else pure ()
  pure reqPktSize

/-- A new connection. -/
def start (addr : Nat) (rmem wmem : Nat → UInt8) (client : K) :
    Conn UInt64 (State K) R C :=
  connect addr rmem wmem 0 ⟨client, 0⟩

end Model

/-- The calls of the client on one connection. -/
inductive Call (K : Type)
  | send (service : UInt64) (measure : Bool) (cb : RequestCB K)
      (stack : Nat → UInt8) (wout : List WriteRes) (rin : List ReadRes)
  | runIo (events : UInt32) (check : ConnCheck) (rin : List ReadRes)
      (wout : List WriteRes)

def Call.call {K : Type} {R C : ℕ+} (cfg : Config) (clk : Nat → Nat) :
    Call K → EStateM Exn (Conn UInt64 (State K) R C) Unit
  | .send service measure cb stack wout rin => do
      let _ ← sendRequest cfg clk service measure cb stack wout rin
      pure ()
  | .runIo events check rin wout => Sock.runIo events check rin wout

/-! ## What the calls do -/

section Packet

variable {W : Type} {R C : ℕ+} {pkt : ReqPkt} {stack : Nat → UInt8}

/-- What is stored behind `tail` for a packet. -/
def placed (C tail : Nat) (pkt : ReqPkt) (stack : Nat → UInt8) :
    List UInt8 :=
  if tail + reqPktSize ≤ C then pkt.bytes
  else block (blit stack 0 pkt.bytes) 0 (C - tail) ++
    block (blit stack 0 pkt.bytes) ((C - tail) * reqPktSize)
      (reqPktSize - (C - tail))

theorem length_placed_le {tail : Nat} :
    (placed C tail pkt stack).length ≤ reqPktSize := by
  unfold placed
  split
  · rw [ReqPkt.length_bytes]
    decide
  · rw [List.length_append, length_block, length_block]
    omega

theorem writePacket_ok {s : Sock W R C} (h : s.WF)
    (hfit : reqPktSize ≤ s.wbuf.space) :
    writePacket pkt stack s = .ok () { s with
      wbuf := (s.wbuf.stored (placed C s.wbuf.tail pkt stack)).committed
        reqPktSize } := by
  have hpos : 0 < reqPktSize := by decide
  have htail := h.wbuf.tail_lt
  refine (bind_of_ok (Sock.writePrepare_ok h hpos hfit)).trans ?_
  dsimp only
  have hcommit : ∀ xs : List UInt8, Sock.writeCommit reqPktSize
      ({ s with wbuf := s.wbuf.stored xs } : Sock W R C) = .ok ()
        { s with wbuf := (s.wbuf.stored xs).committed reqPktSize } :=
    fun xs => Sock.writeCommit_ok (s := { s with wbuf := s.wbuf.stored xs })
      ⟨h.rxCbs, h.rbuf, h.txCbs, h.wbuf.stored xs⟩ hpos hfit
  by_cases hcut : s.wbuf.tail + reqPktSize ≤ C
  · have hn1 : min reqPktSize (C - s.wbuf.tail) = reqPktSize := by omega
    have hstored : s.wbuf.stored pkt.bytes =
        { s.wbuf with buf := blit s.wbuf.buf s.wbuf.tail pkt.bytes } := by
      rw [Buffer.stored, scatter_of_le]
      rw [ReqPkt.length_bytes]
      simp only [reqPktSize] at hcut
      omega
    rw [if_pos hn1, placed, if_pos hcut]
    refine (bind_of_ok (zoom_of_ok (modify_apply _ _))).trans ?_
    rw [← hstored]
    exact hcommit _
  · have hn1 : min reqPktSize (C - s.wbuf.tail) = C - s.wbuf.tail := by omega
    have hblock :=
      length_block (blit stack 0 pkt.bytes) 0 (C - s.wbuf.tail)
    rw [hn1, if_neg (by omega), if_pos (by omega), placed, if_neg hcut]
    refine (bind_of_ok (zoom_of_ok (modify_apply _ _))).trans ?_
    rw [Sock.blit_two_parts _ hblock]
    exact hcommit _

theorem writePacket_throws {s : Sock W R C}
    (hfull : s.wbuf.space < reqPktSize) :
    ∃ e, writePacket pkt stack s = .error e s := by
  obtain ⟨e, hprep⟩ := Sock.writePrepare_throws (s := s) (.inr hfull)
  exact ⟨e, bind_of_error hprep⟩

theorem writePacket_appends :
    Appends reqPktSize
      (writePacket pkt stack : EStateM Exn (Sock W R C) Unit) :=
  appends_of_prepared
    (fun h _ hfit => ⟨_, length_placed_le, writePacket_ok h hfit⟩)
    fun hbad => writePacket_throws (hbad.resolve_left (by decide))

end Packet

end Synthetic

end Mutated.Ports
