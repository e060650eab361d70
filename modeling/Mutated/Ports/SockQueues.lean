import Mutated.Ports.Sock

/-!
# The socket as four queues

The abstract model of `Sock` forgets the rings: pending operations, received
bytes, callback points and bytes to be sent are lists.  All that is left of
the receive ring is the place of its first byte, which decides how a callback
sees its bytes split.

`RxStep` and `TxStep` say once what the receive and the transmit path can do
to these queues, one small step at a time.  A call of `rx` or `tx` on the
rings is a chain of such steps on the queues they stand for, so a property of
the socket is proved about the steps and carried over to the calls.
-/

namespace Mutated.Ports

open Mutated.Verified.Circular
open Mutated.Verified.Exec
open Relation (ReflTransGen)

/-! ## Operations, phase by phase -/

namespace IORx

variable {W : Type}

/-- The phase an operation is in: its header until that is done. -/
def phase (op : IORx W) : Phase := if 0 < op.hdrlen then .hdr else .body

/-- The bytes the current phase needs. -/
def need (op : IORx W) : Nat :=
  if 0 < op.hdrlen then op.hdrlen else op.bodylen

/-- The callback of the current phase. -/
def cb (op : IORx W) : Option (RxCB W) :=
  if 0 < op.hdrlen then op.hdrcb else op.bodycb

/-- The operation after `n` bytes of its current phase were skipped. -/
def skip (op : IORx W) (n : Nat) : IORx W :=
  if 0 < op.hdrlen then { op with hdrlen := op.hdrlen - n }
  else { op with bodylen := op.bodylen - n }

/-- The operation after the callback of its current phase returned `r`. -/
def fire (op : IORx W) (r : Nat) : IORx W :=
  if 0 < op.hdrlen then { op with hdrlen := 0, bodylen := r }
  else { op with bodylen := 0 }

@[simp] theorem skip_serial (op : IORx W) (n : Nat) :
    (op.skip n).serial = op.serial := by
  unfold skip
  split <;> rfl

@[simp] theorem skip_hdrcb (op : IORx W) (n : Nat) :
    (op.skip n).hdrcb = op.hdrcb := by
  unfold skip
  split <;> rfl

@[simp] theorem skip_bodycb (op : IORx W) (n : Nat) :
    (op.skip n).bodycb = op.bodycb := by
  unfold skip
  split <;> rfl

@[simp] theorem fire_serial (op : IORx W) (r : Nat) :
    (op.fire r).serial = op.serial := by
  unfold fire
  split <;> rfl

@[simp] theorem fire_hdrcb (op : IORx W) (r : Nat) :
    (op.fire r).hdrcb = op.hdrcb := by
  unfold fire
  split <;> rfl

@[simp] theorem fire_bodycb (op : IORx W) (r : Nat) :
    (op.fire r).bodycb = op.bodycb := by
  unfold fire
  split <;> rfl

end IORx

/-- The bytes `xs` as a callback sees them when the first one lies in slot
`head` of a ring of `C` bytes. -/
def segsAt (C head : Nat) (xs : List UInt8) : Segs :=
  if C < head + xs.length then (xs.take (C - head), some (xs.drop (C - head)))
  else (xs, none)

@[simp] theorem joinSegs_segsAt (C head : Nat) (xs : List UInt8) :
    Buffer.joinSegs (segsAt C head xs) = xs := by
  unfold segsAt Buffer.joinSegs
  split <;> simp

/-! ## The abstract model -/

/-- The queues of a socket.  `credit` is the number of accepted bytes that
the loop over the callback points has not accounted for yet, while that loop
runs. -/
structure Queues (W : Type) where
  rxCbs : List (IORx W)
  rhead : Nat
  rbuf : List UInt8
  txCbs : List (IOTx W)
  wbuf : List UInt8
  txOut : Nat
  credit : Option Nat
  world : W
  trace : List Event

namespace Queues

variable {W : Type}

/-- The receive queue without its first `n` bytes. -/
def eat (C : Nat) (q : Queues W) (n : Nat) : Queues W :=
  { q with rhead := (q.rhead + n) % C, rbuf := q.rbuf.drop n }

/-- Small steps of the receive path. -/
inductive RxStep (C addr : Nat) : Queues W → Queues W → Prop
  /-- The kernel hands over some bytes. -/
  | recvd (q : Queues W) (b : UInt8) (bs : List UInt8)
      (hfit : q.rbuf.length + (b :: bs).length ≤ C) :
      RxStep C addr q { q with
        rbuf := q.rbuf ++ b :: bs, trace := q.trace ++ [.recvd (b :: bs)] }
  /-- Bytes nobody asked to see are dropped. -/
  | skip (q : Queues W) (op : IORx W) (ops : List (IORx W)) (n : Nat)
      (hops : q.rxCbs = op :: ops) (hcb : op.cb = none)
      (hlen : n ≤ q.rbuf.length) (hneed : n ≤ op.need) :
      RxStep C addr q { q.eat C n with rxCbs := op.skip n :: ops }
  /-- A callback is handed its bytes. -/
  | fire (q : Queues W) (op : IORx W) (ops : List (IORx W)) (cb : RxCB W)
      (r : Nat) (w : W)
      (hops : q.rxCbs = op :: ops) (hcb : op.cb = some cb)
      (hpos : 0 < op.need) (hneed : op.need ≤ q.rbuf.length)
      (hcall : cb addr op.cbdata
        (segsAt C q.rhead (q.rbuf.take op.need)) 0 q.world = .ok r w) :
      RxStep C addr q { q.eat C op.need with
        rxCbs := op.fire r :: ops
        world := w
        trace := q.trace ++ [.rxcb op.serial op.phase
          (segsAt C q.rhead (q.rbuf.take op.need)) 0 r] }
  /-- An operation with nothing left to receive is removed. -/
  | finish (q : Queues W) (op : IORx W) (ops : List (IORx W))
      (hops : q.rxCbs = op :: ops) (hneed : op.need = 0) :
      RxStep C addr q { q with rxCbs := ops }

/-- A receive callback that throws, leaving the world as `w`. -/
def RxFault (C addr : Nat) (q : Queues W) (e : Exn) (w : W) : Prop :=
  ∃ op ops cb, q.rxCbs = op :: ops ∧ op.cb = some cb ∧ 0 < op.need ∧
    op.need ≤ q.rbuf.length ∧
    cb addr op.cbdata (segsAt C q.rhead (q.rbuf.take op.need)) 0 q.world =
      .error e w

/-- Small steps of the transmit path, for a ring of `R` callback points. -/
inductive TxStep (R addr : Nat) : Queues W → Queues W → Prop
  /-- The kernel accepts some of the bytes. -/
  | accepted (q : Queues W) (k : Nat) (hcredit : q.credit = none)
      (hbusy : q.wbuf ≠ []) (hk : k ≤ q.wbuf.length) :
      TxStep R addr q { q with
        wbuf := q.wbuf.drop k
        credit := some k
        trace := q.trace ++ [.accepted (q.wbuf.take k)] }
  /-- The accepted bytes reach the first point, whose callback is called. -/
  | fire (q : Queues W) (c : Nat) (pt : IOTx W) (pts : List (IOTx W))
      (f : TxCB W) (w : W) (hcredit : q.credit = some c)
      (hpts : q.txCbs = pt :: pts) (hroom : q.txCbs.length < R)
      (hlen : pt.len ≤ c) (hcb : pt.cb = some f)
      (hcall : f addr pt.cbdata 0 q.world = .ok () w) :
      TxStep R addr q { q with
        txCbs := pts
        txOut := Sock.sizeDiff q.txOut pt.len
        credit := some (c - pt.len)
        world := w
        trace := q.trace ++ [.txcb pt.serial 0, .sub q.txOut pt.len] }
  /-- The first point is beyond the accepted bytes, and moves closer. -/
  | pay (q : Queues W) (c : Nat) (pt : IOTx W) (pts : List (IOTx W))
      (hcredit : q.credit = some c) (hpts : q.txCbs = pt :: pts)
      (hroom : q.txCbs.length < R) (hlen : c < pt.len) :
      TxStep R addr q { q with
        txCbs := { pt with len := Sock.sizeDiff pt.len c } :: pts
        txOut := Sock.sizeDiff q.txOut c
        credit := none
        trace := q.trace ++ [.sub pt.len c, .sub q.txOut c] }
  /-- No point is left. -/
  | spent (q : Queues W) (c : Nat) (hcredit : q.credit = some c)
      (hpts : q.txCbs = []) : TxStep R addr q { q with credit := none }
  /-- The ring of points is full, and the range-for over it visits none. -/
  | overrun (q : Queues W) (c : Nat) (hcredit : q.credit = some c)
      (hfull : q.txCbs.length = R) : TxStep R addr q { q with credit := none }

/-- A transmit callback that is missing or throws, leaving the world as
`w`. -/
def TxFault (addr : Nat) (q : Queues W) (e : Exn) (w : W) : Prop :=
  ∃ c pt pts, q.credit = some c ∧ q.txCbs = pt :: pts ∧ pt.len ≤ c ∧
    ((pt.cb = none ∧ e = .badFunctionCall ∧ w = q.world) ∨
      ∃ f, pt.cb = some f ∧ f addr pt.cbdata 0 q.world = .error e w)

/-- The first operation needs more bytes than have been received. -/
def Settled (q : Queues W) : Prop :=
  ∀ op ∈ q.rxCbs.head?, q.rbuf.length < op.need

instance (q : Queues W) : Decidable q.Settled :=
  inferInstanceAs (Decidable (∀ op ∈ q.rxCbs.head?, q.rbuf.length < op.need))

end Queues

/-! ## From rings to queues -/

namespace Sock

variable {W : Type} {R C : ℕ+}

/-- All four rings are well formed. -/
structure WF (s : Sock W R C) : Prop where
  rxCbs : s.rxCbs.WF
  rbuf : s.rbuf.WF
  txCbs : s.txCbs.WF
  wbuf : s.wbuf.WF

/-- The queues a socket stands for. -/
def view (s : Sock W R C) : Queues W where
  rxCbs := s.rxCbs.toList
  rhead := s.rbuf.head
  rbuf := s.rbuf.toList
  txCbs := s.txCbs.toList
  wbuf := s.wbuf.toList
  txOut := s.txOut
  credit := none
  world := s.world
  trace := s.trace

/-- The queues inside the loop over `rx_cbs_`, whose finished operations are
still in the ring: `ops` are the ones still to be done. -/
def viewRx (s : Sock W R C) (ops : List (IORx W)) : Queues W :=
  { s.view with rxCbs := ops }

/-- The queues inside the loop over `tx_cbs_`: `pts` are the points still to
be visited, and `credit` is what is left of the accepted bytes. -/
def viewTx (s : Sock W R C) (pts : List (IOTx W)) (credit : Option Nat) :
    Queues W := { s.view with txCbs := pts, credit := credit }

theorem init_wf (addr : Nat) (rmem wmem : Nat → UInt8) (w : W) :
    (init addr rmem wmem w : Sock W R C).WF :=
  ⟨Buffer.init_wf _, Buffer.init_wf _, Buffer.init_wf _, Buffer.init_wf _⟩

/-- What receiving leaves alone: everything the transmit path works on. -/
def txSide (s : Sock W R C) :=
  (s.addr, s.connected, s.txRdy, s.txCbs, s.wbuf, s.txOut, s.npoint)

/-- What transmitting leaves alone. -/
def rxSide (s : Sock W R C) :=
  (s.addr, s.rxRdy, s.rxCbs, s.rbuf, s.nread)

end Sock

end Mutated.Ports
