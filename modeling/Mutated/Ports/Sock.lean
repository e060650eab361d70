import Mutated.Ports.BufferIter

/-!
# The asynchronous socket of `socket_buf.cc`

`Sock` keeps a ring of read operations with the ring of bytes received for
them, and a ring of write callbacks with the ring of bytes still to be sent.
This file is the translation of its member functions.

* The kernel is a list of answers, one for each `read()`/`readv()` or
  `write()`/`writev()` a call makes; when the list is used up the answer is
  `EAGAIN`.  `rx` and `tx` loop until they block, so the list bounds the loop.
* A callback is a call on a state `W` that is the rest of the program.  It
  cannot reach the socket, which is the assumption of the source that
  callbacks do not re-enter it.
* `void *` is `Option Nat`, and `this` is an address `addr`.
* `trace`, `nread`, `npoint` and the `serial` fields are ghost state: they
  record what happened and never influence it.

`fd_` is left out: it only names the socket to the kernel.
-/

namespace Mutated.Ports

open Mutated.Verified.Circular
open Mutated.Verified.Exec

/-! ## Limits -/

/-- Maximum number of outstanding read IO operations. -/
def maxOutstandingReqs : ℕ+ := ⟨1000000, by decide⟩

/-- Size of the TX and RX buffers. -/
def charbufSize : ℕ+ := ⟨200 * 1024 * 1024, by decide⟩

/-! ## Operations -/

/-- The bytes handed to a callback: first segment, and second one when its
pointer is not null. -/
abbrev Segs := List UInt8 × Option (List UInt8)

/-- `IORx::CB`: socket, `cbdata`, segments and status. -/
abbrev RxCB (W : Type) :=
  Nat → Option Nat → Segs → Int → EStateM Exn W Nat

/-- `IOTx::CB`: socket, `cbdata` and status. -/
abbrev TxCB (W : Type) := Nat → Option Nat → Int → EStateM Exn W Unit

/-- A RX IO operation.  `serial` counts the operations queued before it. -/
structure IORx (W : Type) where
  hdrlen : Nat
  hdrcb : Option (RxCB W)
  bodylen : Nat
  bodycb : Option (RxCB W)
  cbdata : Option Nat
  serial : Nat := 0

/-- A TX IO operation.  `serial` counts the points inserted before it. -/
structure IOTx (W : Type) where
  len : Nat
  cb : Option (TxCB W)
  cbdata : Option Nat
  serial : Nat := 0

/-- Which of its two callbacks an operation fired. -/
inductive Phase
  | hdr
  | body
  deriving DecidableEq, Repr

/-- What the trace records: bytes taken from and accepted by the kernel,
callbacks that returned, callback points that were inserted with the number
of bytes waiting in front of them, and the operands of each `size_t`
subtraction of the transmit bookkeeping whose result is stored. -/
inductive Event
  | recvd (bytes : List UInt8)
  | accepted (bytes : List UInt8)
  | rxcb (serial : Nat) (phase : Phase) (segs : Segs) (status : Int)
      (ret : Nat)
  | txcb (serial : Nat) (status : Int)
  | point (serial : Nat) (ahead : Nat)
  | sub (a b : Nat)
  deriving DecidableEq, Repr

/-- An answer of `read()` or `readv()`: at least one byte, end of file (with
the stale `errno` that is then reported), or an error. -/
inductive ReadRes
  | data (first : UInt8) (rest : List UInt8)
  | eof (errno : Errno)
  | error (errno : Errno)

/-- An answer of `write()` or `writev()`. -/
inductive WriteRes
  | accepted (n : Nat)
  | error (errno : Errno)

/-- What `getsockopt(SO_ERROR)` reports about a connect. -/
inductive ConnCheck
  | ok
  | failed (errno : Errno)
  | soError (valopt : Errno)

def EPOLLIN : UInt32 := 1
def EPOLLOUT : UInt32 := 4

/-- `Sock`, with `R` slots for operations and `C` bytes for each direction. -/
structure Sock (W : Type) (R C : ℕ+) where
  addr : Nat
  connected : Bool
  rxRdy : Bool
  txRdy : Bool
  rxCbs : Buffer (IORx W) R
  rbuf : Buffer UInt8 C
  txCbs : Buffer (IOTx W) R
  wbuf : Buffer UInt8 C
  txOut : Nat
  world : W
  trace : List Event
  nread : Nat
  npoint : Nat

namespace Sock

variable {W : Type} {R C : ℕ+}

/-- The constructor.  The byte buffers start with arbitrary contents. -/
def init (addr : Nat) (rmem wmem : Nat → UInt8) (world : W) : Sock W R C where
  addr := addr
  connected := false
  rxRdy := false
  txRdy := false
  rxCbs := .init fun _ => ⟨0, none, 0, none, none, 0⟩
  rbuf := .init rmem
  txCbs := .init fun _ => ⟨0, none, none, 0⟩
  wbuf := .init wmem
  txOut := 0
  world := world
  trace := []
  nread := 0
  npoint := 0

/-! ## Components -/

def onRxCbs {α : Type} (x : EStateM Exn (Buffer (IORx W) R) α) :
    EStateM Exn (Sock W R C) α :=
  zoom rxCbs (fun b s => { s with rxCbs := b }) x

def onRbuf {α : Type} (x : EStateM Exn (Buffer UInt8 C) α) :
    EStateM Exn (Sock W R C) α :=
  zoom rbuf (fun b s => { s with rbuf := b }) x

def onTxCbs {α : Type} (x : EStateM Exn (Buffer (IOTx W) R) α) :
    EStateM Exn (Sock W R C) α :=
  zoom txCbs (fun b s => { s with txCbs := b }) x

def onWbuf {α : Type} (x : EStateM Exn (Buffer UInt8 C) α) :
    EStateM Exn (Sock W R C) α :=
  zoom wbuf (fun b s => { s with wbuf := b }) x

def onWorld {α : Type} (x : EStateM Exn W α) : EStateM Exn (Sock W R C) α :=
  zoom world (fun w s => { s with world := w }) x

def emit (ev : Event) : EStateM Exn (Sock W R C) Unit :=
  modify fun s => { s with trace := s.trace ++ [ev] }

/-- Write through the reference to the operation in slot `p`. -/
def setRx (p : Nat) (op : IORx W) : EStateM Exn (Sock W R C) Unit :=
  onRxCbs (modify fun b => { b with buf := blit b.buf p [op] })

def setTx (p : Nat) (pt : IOTx W) : EStateM Exn (Sock W R C) Unit :=
  onTxCbs (modify fun b => { b with buf := blit b.buf p [pt] })

/-- `a - b` in `size_t`. -/
def sizeDiff (a b : Nat) : Nat :=
  if b ≤ a then a - b else 2 ^ 64 - (b - a)

/-! ## Receiving -/

/-- One phase of an operation, header or body: `len` bytes still to come, for
the callback `cb`.  The result is whether the phase is complete, the bytes it
still needs, and what the callback returned. -/
def consume (op : IORx W) (phase : Phase) (len : Nat)
    (cb : Option (RxCB W)) :
    EStateM Exn (Sock W R C) (Bool × Nat × Option Nat) := do
  let s ← get
  if len = 0 then
    pure (true, 0, none)
  else if s.rbuf.items < len then
    match cb with
    | none => do
        -- partial drop when no cb
        onRbuf (Buffer.drop s.rbuf.items)
        pure (false, len - s.rbuf.items, none)
    | some _ => pure (false, len, none)
  else
    match cb with
    | none => do
        onRbuf (Buffer.drop len)
        pure (true, 0, none)
    | some cb => do
        let (p1, p2, n1) ← onRbuf (Buffer.peek len)
        let segs := s.rbuf.segments p1 p2 n1 (len - n1)
        let ret ← onWorld (cb s.addr op.cbdata segs 0)
        emit (.rxcb op.serial phase segs 0 ret)
        onRbuf (Buffer.drop len)
        pure (true, 0, some ret)

/-- The body phase of `op`, the operation in slot `p`: whether it is done. -/
def rxBody (p : Nat) (op : IORx W) : EStateM Exn (Sock W R C) Bool := do
  let (done, bodylen, _) ← consume op .body op.bodylen op.bodycb
  setRx p { op with bodylen := bodylen }
  pure done

/-- The body of the loop over `rx_cbs_`, on the operation in slot `p`: `true`
to count it as done, `false` to break. -/
def rxOp (p : Nat) : EStateM Exn (Sock W R C) Bool := do
  let s ← get
  let op := s.rxCbs.buf p
  let (done, hdrlen, ret) ← consume op .hdr op.hdrlen op.hdrcb
  -- a header callback sets the body length
  let op := { op with hdrlen := hdrlen, bodylen := ret.getD op.bodylen }
  setRx p op
  if done then rxBody p op else pure false

/-- The loop over `rx_cbs_`, from the slots still to be visited and the
number of operations already done. -/
def rxLoop : List Nat → Nat → EStateM Exn (Sock W R C) Nat
  | [], drop => pure drop
  | p :: ps, drop => do
      if (← rxOp p) then rxLoop ps (drop + 1) else pure drop

/-- The `read()` of one round of `rx`; `false` when it would block. -/
def rxFill (r : ReadRes) : EStateM Exn (Sock W R C) Bool := do
  let s ← get
  let n := s.rbuf.space
  let (p1, p2, n1) ← onRbuf (Buffer.queuePrep n)
  match r with
  | .error errno =>
      if errno = EAGAIN then do
        modify fun s => { s with rxRdy := false }
        pure false
      else
        throw (.systemError errno "Sock::rx: readv error")
  | .eof errno => throw (.systemError errno "Sock::rx: readv error")
  | .data b bs =>
      if n < (b :: bs).length then
        throw (.runtimeError "Sock::rx: read returned more bytes than asked")
      else do
        onRbuf (modify (Buffer.fill p1 p2 n1 (b :: bs)))
        emit (.recvd (b :: bs))
        onRbuf (Buffer.queueCommit (b :: bs).length)
        pure true

/-- The rest of the round: the range-for over `rx_cbs_`, after which the
finished operations are dropped. -/
def rxDispatch : EStateM Exn (Sock W R C) Unit := do
  let s ← get
  let drop ← rxLoop s.rxCbs.visited 0
  onRxCbs (Buffer.drop drop)

/-- One round of the loop of `rx`; `false` when it returns. -/
def rxTurn (r : ReadRes) : EStateM Exn (Sock W R C) Bool := do
  let s ← get
  if s.rxCbs.items = 0 then
    pure false
  else do
    if (← rxFill r) then do
      rxDispatch
      pure true
    else
      pure false

/-- `rx`: receive segments from the wire. -/
def rx : List ReadRes → EStateM Exn (Sock W R C) Unit
  | [] => do
      let _ ← rxTurn (.error EAGAIN)
      pure ()
  | r :: rs => do
      if (← rxTurn r) then rx rs else pure ()

/-- `read`: enqueue an operation and read if the socket is ready. -/
def read (op : IORx W) (rin : List ReadRes) :
    EStateM Exn (Sock W R C) Unit := do
  let s ← get
  let (p, _) ← onRxCbs (Buffer.queue 1)
  setRx p { op with serial := s.nread }
  modify fun s => { s with nread := s.nread + 1 }
  if s.rxRdy then rx rin else pure ()

/-! ## Transmitting -/

/-- The loop over `tx_cbs_`, from the slots still to be visited, the accepted
bytes not yet accounted for and the number of points already fired. -/
def txLoop : List Nat → Nat → Nat → EStateM Exn (Sock W R C) Nat
  | [], _, drop => pure drop
  | p :: ps, nbytes, drop => do
      let s ← get
      let txcb := s.txCbs.buf p
      if nbytes < txcb.len then do
        setTx p { txcb with len := sizeDiff txcb.len nbytes }
        emit (.sub txcb.len nbytes)
        modify fun s => { s with txOut := sizeDiff s.txOut nbytes }
        emit (.sub s.txOut nbytes)
        pure drop
      else
        match txcb.cb with
        | none => throw .badFunctionCall
        | some cb => do
            onWorld (cb s.addr txcb.cbdata 0)
            emit (.txcb txcb.serial 0)
            modify fun s => { s with txOut := sizeDiff s.txOut txcb.len }
            emit (.sub s.txOut txcb.len)
            txLoop ps (nbytes - txcb.len) (drop + 1)

/-- The range-for over `tx_cbs_` for `k` bytes accepted, after which the fired
points are dropped. -/
def txDispatch (k : Nat) : EStateM Exn (Sock W R C) Unit := do
  let s ← get
  let drop ← txLoop s.txCbs.visited k 0
  onTxCbs (Buffer.drop drop)

/-- The `write()` of one round of `tx`, offering the `n` bytes `bytes`, and the
bookkeeping that follows; `false` when it would block. -/
def txSend (n : Nat) (bytes : List UInt8) :
    WriteRes → EStateM Exn (Sock W R C) Bool
  | .error errno =>
      if errno = EAGAIN then do
        modify fun s => { s with txRdy := false }
        pure false
      else
        throw (.systemError errno "Sock::tx: write error")
  | .accepted k =>
      if n < k then
        throw (.runtimeError "Sock::tx: write sent more bytes than asked")
      else do
        emit (.accepted (bytes.take k))
        onWbuf (Buffer.drop k)
        txDispatch k
        pure true

/-- One round of the loop of `tx`; `false` when it returns. -/
def txTurn (r : WriteRes) : EStateM Exn (Sock W R C) Bool := do
  let s ← get
  let n := s.wbuf.items
  if n = 0 then
    pure false
  else do
    let (p1, p2, n1) ← onWbuf (Buffer.peek n)
    txSend n (Buffer.joinSegs (s.wbuf.segments p1 p2 n1 (n - n1))) r

/-- `tx`: push pending writes to the wire. -/
def tx : List WriteRes → EStateM Exn (Sock W R C) Unit
  | [] => do
      let _ ← txTurn (.error EAGAIN)
      pure ()
  | r :: rs => do
      if (← txTurn r) then tx rs else pure ()

def writePrepare (len : Nat) :
    EStateM Exn (Sock W R C) (Nat × Option Nat × Nat) :=
  onWbuf (Buffer.queuePrep len)

def writeCommit (len : Nat) : EStateM Exn (Sock W R C) Unit :=
  onWbuf (Buffer.queueCommit len)

/-- `write`: copy `data` to the tx queue for transmission. -/
def write (data : List UInt8) : EStateM Exn (Sock W R C) Unit := do
  let (p1, p2, n1) ← writePrepare data.length
  onWbuf (modify (Buffer.fill p1 p2 n1 data))
  writeCommit data.length

/-- `write_emplace<T>`, with `obj` the object representation of the new `T`.
When the ring ends inside the object it is built on the stack first, and the
second copy starts at `&t + n1`, which is `n1` whole objects after `t`;
`stack` is the memory that follows `t` there. -/
def writeEmplace (obj : List UInt8) (stack : Nat → UInt8) :
    EStateM Exn (Sock W R C) Unit := do
  let n := obj.length
  let (p1, p2, n1) ← writePrepare n
  match p2 with
  | none => onWbuf (modify (Buffer.fill p1 none n1 obj))
  | some p2 =>
      let t := blit stack 0 obj
      onWbuf (modify fun b => { b with
        buf := blit (blit b.buf p1 (block t 0 n1)) p2
          (block t (n1 * n) (n - n1)) })
  writeCommit n

/-- `write_cb_point`: a callback to fire once all the data queued so far has
been sent. -/
def writeCbPoint (cb : Option (TxCB W)) (data : Option Nat) :
    EStateM Exn (Sock W R C) Unit := do
  let s ← get
  let len := s.wbuf.items
  if s.txCbs.items = 0 then do
    let _ ← onTxCbs (Buffer.queueEmplace ⟨len, cb, data, s.npoint⟩)
  else do
    let _ ← onTxCbs
      (Buffer.queueEmplace ⟨sizeDiff len s.txOut, cb, data, s.npoint⟩)
    emit (.sub len s.txOut)
  emit (.point s.npoint len)
  modify fun s => { s with txOut := len, npoint := s.npoint + 1 }

def tryTx (wout : List WriteRes) : EStateM Exn (Sock W R C) Unit := do
  let s ← get
  if s.txRdy then tx wout else pure ()

/-! ## Events -/

/-- `__socket_check_connected`. -/
def socketCheckConnected : ConnCheck → EStateM Exn (Sock W R C) Unit
  | .ok => pure ()
  | .failed errno => throw (.systemError errno
      "Sock::__socket_get_connect_error: getsockopt()")
  | .soError valopt => throw (.systemError valopt
      "Sock::run_io: socket failed to connect")

/-- The first output event also finishes the connect. -/
def finishConnect (check : ConnCheck) : EStateM Exn (Sock W R C) Unit := do
  let s ← get
  if s.connected then
    pure ()
  else do
    socketCheckConnected check
    modify fun s => { s with connected := true }

/-- The EPOLLOUT half of `run_io`. -/
def runOut (check : ConnCheck) (wout : List WriteRes) :
    EStateM Exn (Sock W R C) Unit := do
  finishConnect check
  modify fun s => { s with txRdy := true }
  tx wout

/-- The EPOLLIN half of `run_io`. -/
def runIn (rin : List ReadRes) : EStateM Exn (Sock W R C) Unit := do
  modify fun s => { s with rxRdy := true }
  rx rin

/-- `run_io`: handle an epoll event against the socket. -/
def runIo (events : UInt32) (check : ConnCheck) (rin : List ReadRes)
    (wout : List WriteRes) : EStateM Exn (Sock W R C) Unit := do
  if events &&& EPOLLIN ≠ 0 then runIn rin else pure ()
  if events &&& EPOLLOUT ≠ 0 then runOut check wout else pure ()

/-! ## Destruction -/

/-- Call one callback of a pending read with `- EIO`. -/
def cancelRx (op : IORx W) (phase : Phase) :
    Option (RxCB W) → EStateM Exn (Sock W R C) Unit
  | none => pure ()
  | some cb => do
      let s ← get
      let ret ← onWorld (cb s.addr op.cbdata ([], none) (- EIO))
      emit (.rxcb op.serial phase ([], none) (- EIO) ret)

/-- Cancel the pending reads in the given slots. -/
def cancelRxs : List Nat → EStateM Exn (Sock W R C) Unit
  | [] => pure ()
  | p :: ps => do
      let s ← get
      let op := s.rxCbs.buf p
      cancelRx op .hdr op.hdrcb
      cancelRx op .body op.bodycb
      cancelRxs ps

/-- Cancel the pending writes in the given slots. -/
def cancelTxs : List Nat → EStateM Exn (Sock W R C) Unit
  | [] => pure ()
  | p :: ps => do
      let s ← get
      let txcb := s.txCbs.buf p
      match txcb.cb with
      | none => pure ()
      | some cb => do
          onWorld (cb s.addr txcb.cbdata (- EIO))
          emit (.txcb txcb.serial (- EIO))
      cancelTxs ps

/-- `~Sock`.  It is `noexcept`: an exception out of it ends the program. -/
def destroy : EStateM Exn (Sock W R C) Unit := do
  let s ← get
  cancelRxs s.rxCbs.visited
  cancelTxs s.txCbs.visited
  modify fun s =>
    { s with connected := false, rxRdy := false, txRdy := false }
  onRxCbs Buffer.clear
  onTxCbs Buffer.clear
  modify fun s => { s with txOut := 0 }

end Sock

end Mutated.Ports
