import Mutated.Ports.Memcache

/-!
# The memcache loader

`MemcacheLoad` stores keys.  Most of its sets are quiet, so that the server
does not answer them; every `notify_`-th one is loud, and so is the last.  A
response to a loud set acknowledges `notify_` sets at once.  At most `batch_`
sets are on the wire.

* The loader is the world of its socket, because its callback counts.
* What the kernel does during a call is an argument of the call.
* `ids` is ghost state: the sequence numbers in the order they were sent.

`epollfd_` is left out.
-/

namespace Mutated.Ports

open Mutated.Verified.Circular
open Mutated.Verified.Exec
open Mutated.Verified.History
open Relation (ReflTransGen)

namespace MemcacheLoad

/-- The arguments of the constructor. -/
structure Config where
  toload : UInt64
  keysize : Nat
  valsize : Nat
  startid : UInt64
  batch : UInt64
  notifyWindow : UInt64

/-- `notify_`. -/
def Config.notify (cfg : Config) : UInt64 := min cfg.notifyWindow cfg.batch

/-- The counters of the loader; `sock` is its socket. -/
structure Loader where
  sock : Nat
  sent : UInt64
  recv : UInt64
  seqid : UInt64
  onwire : UInt64
  ids : List UInt64

section Model

variable {R C : ℕ+} (cfg : Config)

/-- The constructor. -/
def Loader.init (sock : Nat) : Loader :=
  ⟨sock, 0, 0, cfg.startid, 0, []⟩

/-- `next_key`. -/
def nextKey (seqid : UInt64) : List UInt8 :=
  formatKey cfg.keysize seqid.toNat

/-- `next_val`. -/
def nextVal : List UInt8 := List.replicate cfg.valsize 97

/-- `recv_response`. -/
def recvResponse : RxCB Loader := fun s _ segs status => do
  let l ← get
  if l.sock ≠ s then
    throw (.runtimeError
      "MemcacheLoad::recv_response: wrong socket in callback")
  else if status ≠ 0 then
    pure 0
  else if (Buffer.joinSegs segs).length ≠ MemcHeader.size then
    throw (.runtimeError
      "MemcacheLoad::recv_response: unexpected packet size")
  else do
    -- mark done
    modify fun l => { l with
      recv := l.recv + cfg.notify, onwire := l.onwire - cfg.notify }
    pure 0

/-- The header, extras, key and value of a set. -/
def writeSet (op : MemcCmd) (seqid : UInt64) (stack : Nat → Nat → UInt8) :
    EStateM Exn (Sock Loader R C) Unit := do
  Sock.writeEmplace (MemcHeader.make .request op 8
    (UInt16.ofNat cfg.keysize) (UInt32.ofNat cfg.valsize)).bytes (stack 0)
  Sock.writeEmplace memcExtrasSet (stack 1)
  Sock.write (nextKey cfg seqid)
  Sock.write (nextVal cfg)

/-- The operation that reads the response to a loud set. -/
def awaitsSet : IORx Loader :=
  ⟨MemcHeader.size, some (recvResponse cfg), 0, none, none, 0⟩

/-- `send_request`. -/
def sendRequest (seqid : UInt64) (quiet : Bool) (stack : Nat → Nat → UInt8)
    (wout : List WriteRes) (rin : List ReadRes) :
    EStateM Exn (Sock Loader R C) Unit := do
  writeSet cfg (if quiet then .setq else .set) seqid stack
  -- try transmission
  Sock.tryTx wout
  -- add response to read queue
  if quiet then pure () else Sock.read (awaitsSet cfg) rin

/-- A new loader. -/
def start (addr : Nat) (rmem wmem : Nat → UInt8) : Sock Loader R C :=
  .init addr rmem wmem (.init cfg addr)

end Model

/-- The calls that `run` makes: `send_request`, and `run_io` for the events of
the socket. -/
inductive Call
  | send (seqid : UInt64) (quiet : Bool) (stack : Nat → Nat → UInt8)
      (wout : List WriteRes) (rin : List ReadRes)
  | runIo (events : UInt32) (check : ConnCheck) (rin : List ReadRes)
      (wout : List WriteRes)

def Call.call {R C : ℕ+} (cfg : Config) :
    Call → EStateM Exn (Sock Loader R C) Unit
  | .send seqid quiet stack wout rin =>
      sendRequest cfg seqid quiet stack wout rin
  | .runIo events check rin wout => Sock.runIo events check rin wout

/-- The sequence number of the set that a call sends. -/
def Call.ids : Call → List UInt64
  | .send seqid _ _ _ _ => [seqid]
  | .runIo _ _ _ _ => []

/-! ## The callback -/

section Callback

variable {R C : ℕ+} {cfg : Config}

/-- The loader after `n` responses, when `sent` sets were sent. -/
def Loader.acked (cfg : Config) (l : Loader) (n : Nat) : Loader :=
  { l with
    recv := l.recv + cfg.notify * UInt64.ofNat n
    onwire := l.onwire - cfg.notify * UInt64.ofNat n }

theorem Loader.acked_zero (l : Loader) : l.acked cfg 0 = l := by
  simp [Loader.acked]

theorem Loader.acked_succ (l : Loader) (n : Nat) :
    l.acked cfg (n + 1) = { l.acked cfg n with
      recv := (l.acked cfg n).recv + cfg.notify
      onwire := (l.acked cfg n).onwire - cfg.notify } := by
  have hmul : cfg.notify * UInt64.ofNat (n + 1) =
      cfg.notify * UInt64.ofNat n + cfg.notify := by
    rw [UInt64.ofNat_add]
    grind
  simp only [Loader.acked, hmul, Loader.mk.injEq, true_and, and_true]
  constructor
  · grind
  · grind

/-- A response for this socket is counted. -/
theorem recvResponse_ok {l : Loader} {addr : Nat} (hsock : l.sock = addr)
    (data : Option Nat) {segs : Segs}
    (hsize : (Buffer.joinSegs segs).length = MemcHeader.size) :
    recvResponse cfg addr data segs 0 l = .ok 0 { l with
      recv := l.recv + cfg.notify, onwire := l.onwire - cfg.notify } := by
  have hunfold : recvResponse cfg addr data segs 0 l =
      (if l.sock ≠ addr then throw (.runtimeError
        "MemcacheLoad::recv_response: wrong socket in callback")
      else if (Buffer.joinSegs segs).length ≠ MemcHeader.size then
        throw (.runtimeError
          "MemcacheLoad::recv_response: unexpected packet size")
      else do
        modify fun l => { l with
          recv := l.recv + cfg.notify, onwire := l.onwire - cfg.notify }
        pure 0 : EStateM Exn Loader Nat) l := rfl
  rw [hunfold, if_neg (not_not_intro hsock), if_neg (not_not_intro hsize)]
  rfl

end Callback

/-! ## What the steps keep -/

/-- **The invariant of the loader** between and inside its calls: `l` are the
counters as they would be without any response, and `loud` is the number of
operations that were queued. -/
structure Loading (cfg : Config) (C : ℕ+) (addr : Nat) (l : Loader)
    (loud : Nat) (q : Queues Loader) : Prop where
  framed : Framed MemcHeader.size C q
  sock : l.sock = addr
  world : q.world = l.acked cfg q.answered
  ops : ∀ op ∈ unanswered q.rxCbs, op.hdrcb = some (recvResponse cfg)
  pending : (unanswered q.rxCbs).length + q.answered = loud
  points : q.txCbs = []
  returned : ∀ ret ∈ returns q.trace, ret = 0

namespace Loading

variable {R C : ℕ+} {cfg : Config} {addr loud : Nat} {l : Loader}
  {q q' : Queues Loader}

theorem congr (h : Loading cfg C addr l loud q)
    (hframed : Framed MemcHeader.size C q') (hworld : q'.world = q.world)
    (hdelivered : delivered q'.trace = delivered q.trace)
    (hreturns : returns q'.trace = returns q.trace)
    (hops : unanswered q'.rxCbs = unanswered q.rxCbs)
    (hpoints : q'.txCbs = q.txCbs) : Loading cfg C addr l loud q' := by
  have hanswered : q'.answered = q.answered := congrArg List.length hdelivered
  refine ⟨hframed, h.sock, ?_, ?_, ?_, ?_, ?_⟩
  · rw [hworld, hanswered]; exact h.world
  · rw [hops]; exact h.ops
  · rw [hops, hanswered]; exact h.pending
  · rw [hpoints]; exact h.points
  · rw [hreturns]; exact h.returned

/-- A new loader. -/
theorem init (rmem wmem : Nat → UInt8) :
    Loading cfg C addr (.init cfg addr) 0
      (start cfg addr rmem wmem : Sock Loader R C).view := by
  refine ⟨Framed.init rfl rfl rfl rfl, rfl, ?_, ?_, rfl, rfl, ?_⟩
  · exact (Loader.acked_zero _).symm
  · exact fun _ h => absurd h List.not_mem_nil
  · exact fun _ h => absurd h List.not_mem_nil

/-- A response that arrives is counted. -/
theorem answer (h : Loading cfg C addr l loud q) {op : IORx Loader}
    {ops : List (IORx Loader)} {cb : RxCB Loader} {r : Nat} {w : Loader}
    (hun : unanswered q.rxCbs = op :: ops) (hcb : op.hdrcb = some cb)
    (hlen : MemcHeader.size ≤ q.rbuf.length)
    (hcall : cb addr op.cbdata
      (segsAt C q.rhead (q.rbuf.take MemcHeader.size)) 0 q.world = .ok r w) :
    r = 0 ∧ w = l.acked cfg (q.answered + 1) := by
  have hrecv := h.ops op (by rw [hun]; exact List.mem_cons_self)
  cases hcb.symm.trans hrecv
  have hsize : (Buffer.joinSegs (segsAt C q.rhead
      (q.rbuf.take MemcHeader.size))).length = MemcHeader.size := by
    rw [joinSegs_segsAt, List.length_take]
    omega
  rw [recvResponse_ok (by rw [h.world]; exact h.sock) _ hsize] at hcall
  cases hcall
  rw [h.world, Loader.acked_succ]
  exact ⟨rfl, rfl⟩

/-- **Every small step of the receive path keeps the invariant.** -/
theorem step_rx (h : Loading cfg C addr l loud q)
    (hstep : Queues.RxStep C addr q q') : Loading cfg C addr l loud q' := by
  have hsize : 0 < MemcHeader.size := by decide
  have hframed := h.framed.step hsize hstep
  cases header_cases hsize h.framed.ops hstep with
  | recvd b bs =>
      exact h.congr hframed rfl (by simp [delivered]) (by simp [returns]) rfl
        rfl
  | pass n ops hfresh hops hskip hlen =>
      exact h.congr hframed rfl rfl rfl hops rfl
  | finish ops hfresh hops hskip =>
      exact h.congr hframed rfl rfl rfl hops rfl
  | answer op ops cb r w hops hun hcb hlen hcall =>
      obtain ⟨rfl, rfl⟩ := h.answer hun hcb hlen hcall
      have hnext : ∀ segs : Segs,
          (delivered (q.trace ++ [.rxcb op.serial .hdr segs 0 0])).length =
            q.answered + 1 := by
        intro segs
        rw [delivered_append, List.length_append]
        rfl
      have hpop : unanswered ({ op with hdrlen := 0, bodylen := 0 } :: ops) =
          ops := by simp [unanswered]
      have hpending := h.pending
      rw [hun, List.length_cons] at hpending
      refine ⟨hframed, h.sock, ?_, ?_, ?_, h.points, ?_⟩
      · exact congrArg (l.acked cfg) (hnext _).symm
      · rw [hpop]
        intro op' hop'
        exact h.ops op' (by rw [hun]; exact .tail _ hop')
      · rw [hpop]
        show ops.length + (delivered _).length = loud
        rw [hnext]
        omega
      · intro ret hret
        rw [returns_append] at hret
        rcases List.mem_append.mp hret with hold | hnew
        · exact h.returned ret hold
        · simpa [returns] using hnew

/-- **Transmitting keeps the invariant.** -/
theorem step_tx (h : Loading cfg C addr l loud q)
    (hstep : Queues.TxStep R addr q q') : Loading cfg C addr l loud q' := by
  have hframed := h.framed.step_tx hstep
  cases hstep with
  | accepted k hcredit hbusy hk =>
      exact h.congr hframed rfl (by simp [delivered]) (by simp [returns]) rfl
        rfl
  | fire c pt pts f w hcredit hpts hroom hlen hcb hcall =>
      cases hpts.symm.trans h.points
  | pay c pt pts hcredit hpts hroom hlen =>
      cases hpts.symm.trans h.points
  | spent c hcredit hpts => exact h.congr hframed rfl rfl rfl rfl rfl
  | overrun c hcredit hfull => exact h.congr hframed rfl rfl rfl rfl rfl

/-- The callbacks of the loader never throw. -/
theorem no_rx_fault (h : Loading cfg C addr l loud q) {e : Exn} {w : Loader} :
    ¬ Queues.RxFault C addr q e w := by
  rintro ⟨op, ops, cb, hops, hcb, hpos, hneed, hcall⟩
  have hbody := h.framed.ops.bodycb op (by rw [hops]; exact List.mem_cons_self)
  by_cases hhdr : 0 < op.hdrlen
  · have hun : unanswered q.rxCbs = op :: ops := by
      rw [hops, unanswered, if_neg (by omega)]
    have hmem : op ∈ unanswered q.rxCbs := by
      rw [hun]
      exact List.mem_cons_self
    have hlen := (h.framed.ops.fresh op hmem).hdrlen
    rw [IORx.cb, if_pos hhdr] at hcb
    rw [IORx.need, if_pos hhdr, hlen] at hneed hcall
    cases hcb.symm.trans (h.ops op hmem)
    have hsize : (Buffer.joinSegs (segsAt C q.rhead
        (q.rbuf.take MemcHeader.size))).length = MemcHeader.size := by
      rw [joinSegs_segsAt, List.length_take]
      omega
    rw [recvResponse_ok (by rw [h.world]; exact h.sock) _ hsize] at hcall
    cases hcall
  · rw [IORx.cb, if_neg hhdr, hbody] at hcb
    cases hcb

/-- The operation of a loud set is queued. -/
theorem await (h : Loading cfg C addr l loud q) :
    Loading cfg C addr l (loud + 1)
      (q.queued [{ awaitsSet cfg with serial := loud }]) := by
  have hsize : 0 < MemcHeader.size := by decide
  have hfresh : ({ awaitsSet cfg with serial := loud } :
      IORx Loader).Fresh MemcHeader.size := ⟨rfl, by simp [awaitsSet]⟩
  have hops : unanswered (q.queued
      [{ awaitsSet cfg with serial := loud }]).rxCbs =
      unanswered q.rxCbs ++ [{ awaitsSet cfg with serial := loud }] :=
    unanswered_concat hsize hfresh q.rxCbs
  have hpending := h.pending
  refine ⟨h.framed.queued hsize hfresh rfl ?_, h.sock, h.world, ?_, ?_,
    h.points, h.returned⟩
  · show loud = q.answered + _
    omega
  · rw [hops]
    intro op hop
    rcases List.mem_append.mp hop with hold | hnew
    · exact h.ops op hold
    · rw [List.mem_singleton.mp hnew]
      rfl
  · rw [hops, List.length_append, List.length_singleton]
    show _ + 1 + q.answered = loud + 1
    omega

/-- The bytes that wait are not part of the invariant. -/
theorem written (h : Loading cfg C addr l loud q) (bytes : List UInt8) :
    Loading cfg C addr l loud { q with wbuf := bytes } :=
  h.congr ⟨h.framed.ops, h.framed.eaten, h.framed.serials, h.framed.framed⟩
    rfl rfl rfl rfl rfl

theorem steady : Steady R C addr (Loading cfg C addr l loud) :=
  ⟨fun _ h hstep => h.step_rx hstep, fun h hstep => h.step_tx hstep⟩

end Loading

/-! ## What the calls keep -/

section Calls

variable {R C : ℕ+} {cfg : Config} {addr loud : Nat} {l : Loader}
  {s : Sock Loader R C}

/-- The loader between two calls. -/
structure Ready (cfg : Config) (addr : Nat) (l : Loader) (loud : Nat)
    (s : Sock Loader R C) : Prop
    extends Holds addr (Loading cfg C addr l loud) s where
  nread : s.nread = loud

theorem Ready.start (rmem wmem : Nat → UInt8) :
    Ready cfg addr (.init cfg addr) 0
      (start cfg addr rmem wmem : Sock Loader R C) :=
  ⟨⟨Sock.init_wf _ _ _ _, rfl, .init rmem wmem⟩, rfl⟩

theorem writeSet_writes (op : MemcCmd) (seqid : UInt64)
    (stack : Nat → Nat → UInt8) :
    Writes (writeSet cfg op seqid stack :
      EStateM Exn (Sock Loader R C) Unit) :=
  (Sock.writeEmplace_writes _ _).bind
    ((Sock.writeEmplace_writes _ _).bind
      ((Sock.write_writes _).bind (Sock.write_writes _)))

theorem writeSet_appends (op : MemcCmd) (seqid : UInt64)
    (stack : Nat → Nat → UInt8) :
    Appends (MemcHeader.size + (8 + (cfg.keysize + cfg.valsize)))
      (writeSet cfg op seqid stack : EStateM Exn (Sock Loader R C) Unit) := by
  have hkey : (nextKey cfg seqid).length = cfg.keysize :=
    length_formatKey _ _
  have hval : (nextVal cfg).length = cfg.valsize := List.length_replicate
  have hwrites := (Sock.write_appends (W := Loader) (R := R) (C := C)
    (nextKey cfg seqid)).bind (Sock.write_appends (nextVal cfg))
  rw [hkey, hval] at hwrites
  exact (Memcache.writeHeader_appends _ _).bind
    ((Sock.writeEmplace_appends memcExtrasSet _).bind hwrites)

/-- **`send_request`** keeps the invariant, and queues an operation for a loud
set. -/
theorem sendRequest_kept (h : Ready cfg addr l loud s) (seqid : UInt64)
    (quiet : Bool) (stack : Nat → Nat → UInt8) (wout : List WriteRes)
    (rin : List ReadRes) :
    (∃ s', sendRequest cfg seqid quiet stack wout rin s = .ok () s' ∧
      Ready cfg addr l (loud + if quiet then 0 else 1) s') ∨
    ∃ e s', sendRequest cfg seqid quiet stack wout rin s = .error e s' ∧
      ∃ loud', Stopped addr (Loading cfg C addr l loud') e s' := by
  have hwrites : Writes (writeSet cfg (if quiet then .setq else .set) seqid
      stack : EStateM Exn (Sock Loader R C) Unit) := writeSet_writes _ _ _
  cases hwrite : writeSet cfg (if quiet then .setq else .set) seqid stack s with
  | error e t =>
      exact .inr ⟨e, t, bind_of_error hwrite, loud,
        h.stopped_of_write hwrites hwrite⟩
  | ok _ t =>
      obtain ⟨b, bytes, rfl, hb, -, -⟩ :=
        writeSet_appends _ seqid stack _ _ h.wf hwrite
      have hholds : Holds addr (Loading cfg C addr l loud)
          ({ s with wbuf := b } : Sock Loader R C) :=
        ⟨⟨h.wf.rxCbs, h.wf.rbuf, h.wf.txCbs, hb⟩, h.addr,
          h.holds.written b.toList⟩
      rw [sendRequest, bind_of_ok hwrite]
      rcases tryTx_steady Loading.steady hholds wout with
        ⟨u, hrun, hran⟩ | ⟨e, u, hrun, hstop⟩
      · rw [bind_of_ok hrun]
        have hnread : u.nread = loud := hran.nread.trans h.nread
        cases quiet with
        | true => exact .inl ⟨u, rfl, hran.toHolds, hnread⟩
        | false =>
            have hop : Loading cfg C addr l loud u.view →
                Loading cfg C addr l (loud + 1) (u.view.queued
                  [{ awaitsSet cfg with serial := u.nread }]) := by
              rw [hnread]
              exact fun hq => hq.await
            rcases read_steady Loading.steady hran.toHolds hop rin with
              ⟨v, hread, hv, hv', -⟩ | ⟨e, v, hread, hstop | hstop⟩
            · exact .inl ⟨v, hread, hv, hv'.trans (congrArg (· + 1) hnread)⟩
            · exact .inr ⟨e, v, hread, loud, hstop⟩
            · exact .inr ⟨e, v, hread, loud + 1, hstop⟩
      · exact .inr ⟨e, u, bind_of_error hrun, loud, hstop⟩

/-- **An epoll event** keeps the invariant. -/
theorem runIo_kept (h : Ready cfg addr l loud s) (events : UInt32)
    (check : ConnCheck) (rin : List ReadRes) (wout : List WriteRes) :
    (∃ s', Sock.runIo events check rin wout s = .ok () s' ∧
      Ready cfg addr l loud s') ∨
    ∃ e s', Sock.runIo events check rin wout s = .error e s' ∧
      Stopped addr (Loading cfg C addr l loud) e s' := by
  rcases runIo_steady Loading.steady h.toHolds events check rin wout with
    ⟨s', hrun, hran⟩ | hstop
  · exact .inl ⟨s', hrun, hran.toHolds, hran.nread.trans h.nread⟩
  · exact .inr hstop

end Calls

end MemcacheLoad

end Mutated.Ports
