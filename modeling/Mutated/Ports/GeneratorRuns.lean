import Mutated.Ports.Generator
import Mutated.Ports.SockRuns

/-!
# The small steps of a connection

Between two calls of the generator a connection has as many operations to
read as requests were made and not answered.  Inside `_send_request` it is one
behind: the request is in `requests_` and its callback point in `tx_cbs_`, and
some of it may be on the wire, before its operation is queued.

A property `I sent lag q` of the queues speaks about the requests `sent` that
were made, and `lag` is one at that point.  `Carried` says that every small
step of a connection carries it on.  Then so do the calls, which is
`submit_kept` and `runIo_kept`;
a call that throws stops at queues of which the property still holds.
-/

namespace Mutated.Ports

open Mutated.Verified.Circular
open Mutated.Verified.Exec
open Mutated.Verified.History
open Relation (ReflTransGen)

variable {X K : Type} {R C : ℕ+}

/-! ## The steps of `_send_request` -/

/-- The generator after a request was added and its start was stamped. -/
def World.submitted (clk : Nat → Nat) (g : World X K R) (info : X)
    (measure : Bool) (cb : RequestCB K) : World X K R :=
  (g.enqueued info measure cb).stamped g.requests.tail
    { (g.enqueued info measure cb).requests.buf g.requests.tail with
      startTs := clk g.ticks }

/-- The queues after the bytes of a request were written and its callback
point was inserted. -/
def Queues.submitted (clk : Nat → Nat) (P : Proto X)
    (q : Queues (World X K R)) (info : X) (measure : Bool)
    (cb : RequestCB K) (bytes : List UInt8) (serial : Nat) :
    Queues (World X K R) :=
  { q with
    wbuf := q.wbuf ++ bytes
    txCbs := q.txCbs ++
      [⟨if q.txCbs.length = 0 then (q.wbuf ++ bytes).length
          else Sock.sizeDiff (q.wbuf ++ bytes).length q.txOut,
        some (sentRequest clk P), some q.world.requests.tail, serial⟩]
    txOut := (q.wbuf ++ bytes).length
    world := q.world.submitted clk info measure cb
    trace := q.trace ++
      (if q.txCbs.length = 0 then []
        else [.sub (q.wbuf ++ bytes).length q.txOut]) ++
      [.point serial (q.wbuf ++ bytes).length] }

/-- Making a request inserts a point. -/
theorem Queues.submitted_trace (clk : Nat → Nat) (P : Proto X)
    (q : Queues (World X K R)) (info : X) (measure : Bool)
    (cb : RequestCB K) (bytes : List UInt8) (serial : Nat) :
    ∃ es, (es = [] ∨ ∃ a b, es = [.sub a b]) ∧
      (q.submitted clk P info measure cb bytes serial).trace =
        q.trace ++ es ++ [.point serial (q.wbuf ++ bytes).length] := by
  refine ⟨_, ?_, rfl⟩
  split
  · exact .inl rfl
  · exact .inr ⟨_, _, rfl⟩

/-- The operation that reads the response to the request in slot `p`. -/
def awaits (K : Type) (R : ℕ+) (clk : Nat → Nat) (P : Proto X)
    (p serial : Nat) : IORx (World X K R) :=
  ⟨P.size, some (recvResponse clk P), 0, none, some p, serial⟩

/-- What the first half of `_send_request` does: the request is in
`requests_`, and its `n` bytes were written. -/
inductive Prepared (s : Conn X K R C) (info : X) (measure : Bool)
    (cb : RequestCB K) (n : Nat) : Conn X K R C → Prop
  | mk (b : Buffer UInt8 C) (bytes : List UInt8) (hwf : b.WF)
      (hroom : 0 < s.world.requests.space) (hlen : bytes.length = n)
      (hlist : b.toList = s.wbuf.toList ++ bytes) :
      Prepared s info measure cb n
        { s with wbuf := b, world := s.world.enqueued info measure cb }

/-! ## Properties that all steps keep -/

/-- Every small step carries the property `I` on.  `A` is what is known of the
queues and the completion callback when a request is made, and `len` how many
bytes the request has. -/
structure Carried (clk : Nat → Nat) (P : Proto X) (C : ℕ+) (addr : Nat)
    (len : X → Nat) (A : Queues (World X K R) → RequestCB K → Prop)
    (I : List (Sent X) → Nat → Queues (World X K R) → Prop) : Prop where
  wf : ∀ {sent lag q}, I sent lag q → q.world.requests.WF
  rx : ∀ {sent lag q q'}, q.credit = none → I sent lag q →
    Queues.RxStep C addr q q' → I sent lag q'
  tx : ∀ {sent lag q q'}, I sent lag q → Queues.TxStep R addr q q' →
    I sent lag q'
  submit : ∀ {sent q} {info : X} (measure : Bool) (cb : RequestCB K)
    {bytes : List UInt8}, q.credit = none → I sent 0 q → A q cb →
    0 < q.world.requests.space → q.txCbs.length < R →
    bytes.length = len info →
    I (sent ++ [⟨q.world.requests.tail, info, measure⟩]) 1
      (q.submitted clk P info measure cb bytes sent.length)
  await : ∀ {sent x q}, I (sent ++ [x]) 1 q →
    I (sent ++ [x]) 0 (q.queued [awaits K R clk P x.slot sent.length])

/-- Every small step keeps the property `I`, which does not speak of the
generator's own data. -/
structure Kept (clk : Nat → Nat) (P : Proto X) (C : ℕ+) (addr : Nat)
    (len : X → Nat) (A : Queues (World X K R) → RequestCB K → Prop)
    (I : List (Sent X) → Nat → Queues (World X K R) → Prop) : Prop
    extends Carried clk P C addr len A I where
  client : ∀ {sent lag q} (k : K), I sent lag q →
    I sent lag { q with world := { q.world with client := k } }

section Kept

variable {clk : Nat → Nat} {P : Proto X} {addr : Nat} {len : X → Nat}
  {A : Queues (World X K R) → RequestCB K → Prop}
  {I : List (Sent X) → Nat → Queues (World X K R) → Prop}

/-- A connection between two calls. -/
structure Between (addr : Nat)
    (I : List (Sent X) → Nat → Queues (World X K R) → Prop)
    (sent : List (Sent X)) (s : Conn X K R C) : Prop
    extends Holds addr (I sent 0) s where
  nread : s.nread = sent.length
  npoint : s.npoint = sent.length
  live : s.view.Live

theorem Carried.steady (hI : Carried clk P C addr len A I)
    (sent : List (Sent X)) (lag : Nat) : Steady R C addr (I sent lag) :=
  ⟨fun hcredit h hstep => hI.rx hcredit h hstep,
    fun h hstep => hI.tx h hstep⟩

/-- Two properties that are carried on are carried on together. -/
theorem Carried.and {B : Queues (World X K R) → RequestCB K → Prop}
    {J : List (Sent X) → Nat → Queues (World X K R) → Prop}
    (hI : Carried clk P C addr len A I) (hJ : Carried clk P C addr len B J) :
    Carried clk P C addr len (fun q cb => A q cb ∧ B q cb)
      (fun sent lag q => I sent lag q ∧ J sent lag q) where
  wf := fun h => hI.wf h.1
  rx := fun hcredit h hstep =>
    ⟨hI.rx hcredit h.1 hstep, hJ.rx hcredit h.2 hstep⟩
  tx := fun h hstep => ⟨hI.tx h.1 hstep, hJ.tx h.2 hstep⟩
  submit := fun measure cb _ hcredit h hA hspace hroom hlen =>
    ⟨hI.submit measure cb hcredit h.1 hA.1 hspace hroom hlen,
      hJ.submit measure cb hcredit h.2 hA.2 hspace hroom hlen⟩
  await := fun h => ⟨hI.await h.1, hJ.await h.2⟩

/-- The generator's own data may change at any time. -/
theorem Between.client (hI : Kept clk P C addr len A I)
    {sent : List (Sent X)} {s : Conn X K R C} (h : Between addr I sent s)
    (k : K) :
    Between addr I sent
      { s with world := { s.world with client := k } } :=
  ⟨⟨⟨h.wf.rxCbs, h.wf.rbuf, h.wf.txCbs, h.wf.wbuf⟩, h.addr,
    hI.client k h.holds⟩, h.nread, h.npoint, h.live⟩

/-- **An epoll event** keeps a property of the steps. -/
theorem runIo_kept (hI : Carried clk P C addr len A I)
    {sent : List (Sent X)} {s : Conn X K R C} (h : Between addr I sent s)
    (events : UInt32) (check : ConnCheck) (rin : List ReadRes)
    (wout : List WriteRes) :
    (∃ s', Sock.runIo events check rin wout s = .ok () s' ∧
      Between addr I sent s') ∨
    ∃ e s', Sock.runIo events check rin wout s = .error e s' ∧
      Stopped addr (I sent 0) e s' := by
  rcases runIo_steady (hI.steady sent 0) h.toHolds events check rin wout with
    ⟨s', hrun, hran⟩ | hstop
  · exact .inl ⟨s', hrun, hran.toHolds, hran.nread.trans h.nread,
      hran.npoint.trans h.npoint, hran.live h.live⟩
  · exact .inr hstop

/-! ## `_send_request` -/

/-- The connection after a request was written and its start stamped. -/
private def started (clk : Nat → Nat) (s : Conn X K R C)
    (b : Buffer UInt8 C) (info : X) (measure : Bool) (cb : RequestCB K) :
    Conn X K R C :=
  { s with wbuf := b, world := s.world.submitted clk info measure cb }

/-- Inserting the callback point completes one step of the queues. -/
private theorem started_pointed_view (clk : Nat → Nat) (P : Proto X)
    {s : Conn X K R C} (h : s.WF)
    {b : Buffer UInt8 C} (hb : b.WF) (hroom : 0 < s.txCbs.space)
    {bytes : List UInt8} (hbytes : b.toList = s.wbuf.toList ++ bytes)
    (info : X) (measure : Bool) (cb : RequestCB K) :
    ((started clk s b info measure cb).pointed
      (some (sentRequest clk P)) (some s.world.requests.tail)).view =
      s.view.submitted clk P info measure cb bytes s.npoint := by
  have hwf : (started clk s b info measure cb).WF :=
    ⟨h.rxCbs, h.rbuf, h.txCbs, hb⟩
  have hlist := Sock.pointed_toList hwf
    (show 0 < s.txCbs.space from hroom)
    (some (sentRequest clk P)) (some s.world.requests.tail)
  have hused : b.used = (s.wbuf.toList ++ bytes).length := by
    rw [← hbytes, Buffer.length_toList]
  simp only [Sock.view, Queues.submitted, Buffer.length_toList]
  rw [hlist]
  simp only [Sock.pointed, Sock.pointLen, started, hbytes, hused]

/-- Sending and awaiting the response, once the callback point is there. -/
private theorem Carried.transmit (hI : Carried clk P C addr len A I)
    (hsize : 0 < P.size) {sent : List (Sent X)} {x : Sent X}
    {s : Conn X K R C} (h : Holds addr (I (sent ++ [x]) 1) s)
    (hnread : s.nread = sent.length) (hnpoint : s.npoint = sent.length + 1)
    (hlive : s.view.Live) (wout : List WriteRes) (rin : List ReadRes) :
    (∃ s', (Sock.tryTx wout >>= fun _ => Sock.read
        ⟨P.size, some (recvResponse clk P), 0, none, some x.slot, 0⟩ rin) s =
        .ok () s' ∧ Between addr I (sent ++ [x]) s') ∨
    ∃ e s' lag, (Sock.tryTx wout >>= fun _ => Sock.read
        ⟨P.size, some (recvResponse clk P), 0, none, some x.slot, 0⟩ rin) s =
        .error e s' ∧ Stopped addr (I (sent ++ [x]) lag) e s' := by
  have hlen : (sent ++ [x]).length = sent.length + 1 := by simp
  rcases tryTx_steady (hI.steady _ 1) h wout with
    ⟨t, hrun, hran⟩ | ⟨e, t, hrun, hstop⟩
  · rw [bind_of_ok hrun]
    have hneed : 0 < (⟨P.size, some (recvResponse clk P), 0, none,
        some x.slot, 0⟩ : IORx (World X K R)).need := by
      rw [IORx.need, if_pos hsize]
      exact hsize
    have hawait : I (sent ++ [x]) 1 t.view → I (sent ++ [x]) 0
        (t.view.queued [{ (⟨P.size, some (recvResponse clk P), 0, none,
          some x.slot, 0⟩ : IORx (World X K R)) with serial := t.nread }]) := by
      intro hlag
      rw [hran.nread, hnread]
      exact hI.await hlag
    rcases read_steady (hI.steady _ 0) hran.toHolds hawait rin with
      ⟨u, hread, hu, hnread', hnpoint', hlive'⟩ | ⟨e, u, hread, hstop | hstop⟩
    · refine .inl ⟨u, hread, hu, ?_, ?_, hlive' hneed (hran.live hlive)⟩
      · rw [hnread', hran.nread, hnread, hlen]
      · rw [hnpoint', hran.npoint, hnpoint, hlen]
    · exact .inr ⟨e, u, 1, hread, hstop⟩
    · exact .inr ⟨e, u, 0, hread, hstop⟩
  · exact .inr ⟨e, t, 1, bind_of_error hrun, hstop⟩

/-- **The second half of `_send_request`** keeps a property of the steps. -/
theorem submit_kept (hI : Carried clk P C addr len A I) (hsize : 0 < P.size)
    {sent : List (Sent X)} {s s' : Conn X K R C}
    (h : Between addr I sent s) {info : X} {measure : Bool}
    {cb : RequestCB K} (hA : A s.view cb)
    (hprep : Prepared s info measure cb (len info) s')
    (wout : List WriteRes) (rin : List ReadRes) :
    (∃ t, submit clk P s.world.requests.tail wout rin s' = .ok () t ∧
      Between addr I
        (sent ++ [⟨s.world.requests.tail, info, measure⟩]) t) ∨
    ∃ e t, submit clk P s.world.requests.tail wout rin s' = .error e t ∧
      (Stopped addr (I sent 0) e t ∨ ∃ lag, Stopped addr
        (I (sent ++ [⟨s.world.requests.tail, info, measure⟩]) lag) e t) := by
  obtain ⟨b, bytes, hb, hspace, hbytes, hlist⟩ := hprep
  have hstart : Sock.onWorld (World.stampStart clk s.world.requests.tail)
      ({ s with wbuf := b, world := s.world.enqueued info measure cb } :
        Conn X K R C) = .ok () (started clk s b info measure cb) :=
    zoom_of_ok (World.stampStart_ok clk _ _)
  have hwf : (started clk s b info measure cb).WF :=
    ⟨h.wf.rxCbs, h.wf.rbuf, h.wf.txCbs, hb⟩
  rw [submit, bind_of_ok hstart]
  rcases Sock.writeCbPoint_cases hwf (some (sentRequest clk P))
      (some s.world.requests.tail) with ⟨hroom, hrun⟩ | ⟨e, hrun, hexn⟩
  · rw [bind_of_ok hrun]
    have hused : s.txCbs.space = R - s.txCbs.used := rfl
    have hroom' : 0 < s.txCbs.space := hroom
    have hview := started_pointed_view clk P h.wf hb hroom hlist info measure
      cb
    have hlag := hI.submit measure cb rfl h.holds hA hspace
      (show s.view.txCbs.length < R by
        simp only [Sock.view, Buffer.length_toList]
        omega) hbytes
    rw [h.npoint] at hview
    rw [← hview] at hlag
    rcases hI.transmit hsize ⟨hwf.pointed hroom _ _, h.addr, hlag⟩ h.nread
        (congrArg (· + 1) h.npoint) h.live wout rin with
      hok | ⟨e, t, lag, hthrow, hstop⟩
    · exact .inl hok
    · exact .inr ⟨e, t, hthrow, .inr ⟨lag, hstop⟩⟩
  · exact .inr ⟨e, _, bind_of_error hrun,
      .inl ⟨s.view, h.holds, rfl, .buffer hexn⟩⟩

end Kept

end Mutated.Ports
