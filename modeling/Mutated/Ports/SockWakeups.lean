import Mutated.Ports.SockProgress
import Mutated.Ports.SockWrites

/-!
# No lost wake-ups

The socket is watched edge-triggered: the kernel raises an event when bytes
arrive, when the connect completes, and when send space reappears after a
write that would have blocked, and it delivers each event once.  `rx_rdy_` and
`tx_rdy_` remember an event for which there was nothing to do.

`Kernel` is the kernel's side of the socket, with the events it has raised and
not delivered.  It may move at any time, also between two system calls of one
call of the socket.

## Main results

`no_lost_wakeup`: between the calls, a read operation waits for unread bytes,
and bytes wait for send space, only when the event is still to be delivered.
-/

namespace Mutated.Ports

open Mutated.Verified.Exec
open Relation (ReflTransGen)

/-! ## The kernel -/

/-- The received bytes that were not read, the send space, whether a write
would have blocked since there was send space, and the events raised and not
delivered. -/
structure Kernel where
  unread : List UInt8
  connected : Bool
  room : Nat
  blocked : Bool
  inEdge : Bool
  outEdge : Bool

namespace Kernel

/-- A socket that connects. -/
def init : Kernel := ⟨[], false, 0, false, false, false⟩

/-- What happens to the kernel's side by itself. -/
inductive Move : Kernel → Kernel → Prop
  | arrive (k : Kernel) (b : UInt8) (bs : List UInt8) :
      Move k { k with unread := k.unread ++ b :: bs, inEdge := true }
  | connect (k : Kernel) (n : Nat) (hnot : k.connected = false) :
      Move k { k with connected := true, room := n, outEdge := true }
  | space (k : Kernel) (n : Nat) (hconn : k.connected = true) :
      Move k { k with
        room := k.room + n, blocked := false
        outEdge := k.outEdge || k.blocked }

/-- `epoll_wait` delivers the events of a mask. -/
def delivered (k : Kernel) (events : UInt32) : Kernel :=
  { k with
    inEdge := k.inEdge && (events &&& EPOLLIN = 0)
    outEdge := k.outEdge && (events &&& EPOLLOUT = 0) }

variable {W : Type} {R C : ℕ+}

/-- The kernel answers the reads that `rx` makes on `s` with `rin`. -/
inductive Reads : Kernel → Sock W R C → List ReadRes → Kernel → Prop
  | idle {k : Kernel} {s : Sock W R C} (hops : s.rxCbs.items = 0) :
      Reads k s [] k
  | blocked {k k' : Kernel} {s : Sock W R C} (hops : s.rxCbs.items ≠ 0)
      (hmoves : ReflTransGen Move k k') (hempty : k'.unread = []) :
      Reads k s [.error EAGAIN] k'
  | data {k k₁ k' : Kernel} {s t : Sock W R C} {b : UInt8}
      {bs rest : List UInt8} {rin : List ReadRes}
      (hmoves : ReflTransGen Move k k₁)
      (hunread : k₁.unread = (b :: bs) ++ rest)
      (hturn : Sock.rxTurn (.data b bs) s = .ok true t)
      (hrest : Reads { k₁ with unread := rest } t rin k') :
      Reads k s (.data b bs :: rin) k'

/-- The kernel answers the writes that `tx` makes on `s` with `wout`. -/
inductive Writes : Kernel → Sock W R C → List WriteRes → Kernel → Prop
  | idle {k : Kernel} {s : Sock W R C} (hempty : s.wbuf.items = 0) :
      Writes k s [] k
  | blocked {k k' : Kernel} {s : Sock W R C} (hbusy : s.wbuf.items ≠ 0)
      (hmoves : ReflTransGen Move k k') (hfull : k'.room = 0) :
      Writes k s [.error EAGAIN] { k' with blocked := true }
  | accepted {k k₁ k' : Kernel} {s t : Sock W R C} {n : Nat}
      {wout : List WriteRes} (hmoves : ReflTransGen Move k k₁)
      (hroom : n ≤ k₁.room)
      (hturn : Sock.txTurn (.accepted n) s = .ok true t)
      (hrest : Writes { k₁ with room := k₁.room - n } t wout k') :
      Writes k s (.accepted n :: wout) k'

end Kernel

/-! ## The program -/

/-- The calls that write. -/
inductive WriteCall (W : Type)
  | write (data : List UInt8)
  | writeEmplace (obj : List UInt8) (stack : Nat → UInt8)
  | writePrepare (len : Nat)
  | fill (p1 : Nat) (p2 : Option Nat) (n1 : Nat) (data : List UInt8)
  | writeCommit (len : Nat)
  | writeCbPoint (cb : Option (TxCB W)) (data : Option Nat)

variable {W : Type} {R C : ℕ+}

def WriteCall.call : WriteCall W → EStateM Exn (Sock W R C) Unit
  | .write data => Sock.write data
  | .writeEmplace obj stack => Sock.writeEmplace obj stack
  | .writePrepare len => do
      let _ ← Sock.writePrepare len
      pure ()
  | .fill p1 p2 n1 data => Sock.onWbuf (modify (Buffer.fill p1 p2 n1 data))
  | .writeCommit len => Sock.writeCommit len
  | .writeCbPoint cb data => Sock.writeCbPoint cb data

/-- The socket with the kernel's side of it. -/
structure Watched (W : Type) (R C : ℕ+) where
  kernel : Kernel
  sock : Sock W R C

/-- A new socket. -/
def Watched.init (addr : Nat) (rmem wmem : Nat → UInt8) (w : W) :
    Watched W R C :=
  ⟨.init, .init addr rmem wmem w⟩

/-- The kernel moves, or the program makes a call that returns and that the
kernel answers. -/
inductive Watched.Step : Watched W R C → Watched W R C → Prop
  | move {k k' : Kernel} {s : Sock W R C} (hmove : Kernel.Move k k') :
      Step ⟨k, s⟩ ⟨k', s⟩
  | read {k k' : Kernel} {s s' : Sock W R C} {op : IORx W}
      {rin : List ReadRes} (hrun : Sock.read op rin s = .ok () s')
      (hserved : if s.rxRdy then Kernel.Reads k (s.enqueued op) rin k'
        else k' = k) : Step ⟨k, s⟩ ⟨k', s'⟩
  | write {k k' : Kernel} {s t s' : Sock W R C} {calls : List (WriteCall W)}
      {wout : List WriteRes} (hwrite : runAll WriteCall.call calls s = .ok () t)
      (hrun : Sock.tryTx wout t = .ok () s')
      (hserved : if t.txRdy then Kernel.Writes k t wout k' else k' = k) :
      Step ⟨k, s⟩ ⟨k', s'⟩
  | runIo {k k₁ k' : Kernel} {s t s' : Sock W R C} {events : UInt32}
      {check : ConnCheck} {rin : List ReadRes} {wout : List WriteRes}
      (hin : (if events &&& EPOLLIN ≠ 0 then Sock.runIn rin else pure () :
        EStateM Exn (Sock W R C) Unit) s = .ok () t)
      (hrun : Sock.runIo events check rin wout s = .ok () s')
      (hreads : if events &&& EPOLLIN ≠ 0 then
        Kernel.Reads (k.delivered events) { s with rxRdy := true } rin k₁
        else k₁ = k.delivered events)
      (hwrites : if events &&& EPOLLOUT ≠ 0 then
        Kernel.Writes k₁ { t with connected := true, txRdy := true } wout k'
        else k' = k₁) : Step ⟨k, s⟩ ⟨k', s'⟩

/-! ## The two flags -/

namespace Sock

/-- The flags that remember events. -/
def ready (s : Sock W R C) := (s.rxRdy, s.txRdy)

private theorem consume_ready (op : IORx W) (phase : Phase) (len : Nat)
    (cb : Option (RxCB W)) :
    Keeps ready (consume op phase len cb :
      EStateM Exn (Sock W R C) (Bool × Nat × Option Nat)) := by
  have hdrop : ∀ n, Keeps ready
      (onRbuf (Buffer.drop n) : EStateM Exn (Sock W R C) Unit) :=
    fun n => keeps_zoom (by exact fun _ _ => rfl) _
  refine keeps_bind (by exact fun _ => rfl) fun s => ?_
  by_cases hzero : len = 0
  · rw [if_pos hzero]
    exact keeps_pure _
  rw [if_neg hzero]
  by_cases hshort : s.rbuf.items < len
  · rw [if_pos hshort]
    cases cb with
    | none => exact keeps_bind (hdrop _) fun _ => keeps_pure _
    | some f => exact keeps_pure _
  · rw [if_neg hshort]
    cases cb with
    | none => exact keeps_bind (hdrop _) fun _ => keeps_pure _
    | some f =>
        refine keeps_bind (keeps_zoom (by exact fun _ _ => rfl) _) fun p => ?_
        refine keeps_bind (keeps_zoom (by exact fun _ _ => rfl) _) fun ret => ?_
        refine keeps_bind (by exact fun _ => rfl) fun _ => ?_
        exact keeps_bind (hdrop _) fun _ => keeps_pure _

private theorem rxOp_ready (p : Nat) :
    Keeps ready (rxOp p : EStateM Exn (Sock W R C) Bool) := by
  have hset : ∀ (p : Nat) (op : IORx W), Keeps ready
      (setRx p op : EStateM Exn (Sock W R C) Unit) := fun _ _ _ => rfl
  refine keeps_bind (by exact fun _ => rfl) fun s => ?_
  refine keeps_bind (consume_ready _ _ _ _) fun r => ?_
  refine keeps_bind (hset _ _) fun _ => ?_
  split
  · refine keeps_bind (consume_ready _ _ _ _) fun r => ?_
    exact keeps_bind (hset _ _) fun _ => keeps_pure _
  · exact keeps_pure _

private theorem rxLoop_ready (ps : List Nat) : ∀ d : Nat,
    Keeps ready (rxLoop ps d : EStateM Exn (Sock W R C) Nat) := by
  induction ps with
  | nil => exact fun d => keeps_pure d
  | cons p ps ih =>
      intro d
      refine keeps_bind (rxOp_ready p) fun go => ?_
      split
      · exact ih (d + 1)
      · exact keeps_pure d

/-- A read that returned data leaves the flags alone. -/
theorem rxTurn_ready (b : UInt8) (bs : List UInt8) :
    Keeps ready (rxTurn (.data b bs) : EStateM Exn (Sock W R C) Bool) := by
  refine keeps_bind (by exact fun _ => rfl) fun s => ?_
  split
  · exact keeps_pure _
  have hfill : Keeps ready
      (rxFill (.data b bs) : EStateM Exn (Sock W R C) Bool) := by
    refine keeps_bind (by exact fun _ => rfl) fun s => ?_
    refine keeps_bind (keeps_zoom (by exact fun _ _ => rfl) _) fun p => ?_
    dsimp only
    split
    · exact fun _ => rfl
    · refine keeps_bind (keeps_zoom (by exact fun _ _ => rfl) _) fun _ => ?_
      refine keeps_bind (by exact fun _ => rfl) fun _ => ?_
      exact keeps_bind (keeps_zoom (by exact fun _ _ => rfl) _)
        fun _ => keeps_pure _
  refine keeps_bind hfill fun go => ?_
  split
  · refine keeps_bind (keeps_bind (by exact fun _ => rfl) fun s => ?_)
      fun _ => keeps_pure _
    exact keeps_bind (rxLoop_ready _ 0) fun _ =>
      keeps_zoom (by exact fun _ _ => rfl) _
  · exact keeps_pure _

private theorem txLoop_ready (ps : List Nat) : ∀ nbytes d : Nat,
    Keeps ready (txLoop ps nbytes d : EStateM Exn (Sock W R C) Nat) := by
  induction ps with
  | nil => exact fun _ d => keeps_pure d
  | cons p ps ih =>
      intro nbytes d
      refine keeps_bind (by exact fun _ => rfl) fun s => ?_
      dsimp only
      split
      · exact fun _ => rfl
      · split
        · exact fun _ => rfl
        · refine keeps_bind (keeps_zoom (by exact fun _ _ => rfl) _)
            fun _ => ?_
          refine keeps_bind (by exact fun _ => rfl) fun _ => ?_
          refine keeps_bind (by exact fun _ => rfl) fun _ => ?_
          exact keeps_bind (by exact fun _ => rfl) fun _ => ih _ _

/-- A write that was accepted leaves the flags alone. -/
theorem txTurn_ready (n : Nat) :
    Keeps ready (txTurn (.accepted n) : EStateM Exn (Sock W R C) Bool) := by
  refine keeps_bind (by exact fun _ => rfl) fun s => ?_
  dsimp only
  split
  · exact keeps_pure _
  refine keeps_bind (keeps_zoom (by exact fun _ _ => rfl) _) fun p => ?_
  dsimp only [txSend]
  split
  · exact fun _ => rfl
  · refine keeps_bind (by exact fun _ => rfl) fun _ => ?_
    refine keeps_bind (keeps_zoom (by exact fun _ _ => rfl) _) fun _ => ?_
    refine keeps_bind (keeps_bind (by exact fun _ => rfl) fun s => ?_)
      fun _ => keeps_pure _
    exact keeps_bind (txLoop_ready _ n 0) fun _ =>
      keeps_zoom (by exact fun _ _ => rfl) _

end Sock

/-! ## The invariant -/

/-- The events that a socket with these flags relies on are still to be
delivered. -/
structure Kernel.Wakes (k : Kernel) (rxRdy txRdy : Bool) : Prop where
  unread : rxRdy = false → k.unread ≠ [] → k.inEdge = true
  room : txRdy = false → 0 < k.room → k.outEdge = true
  blocked : txRdy = false → k.connected = true → k.room = 0 →
    k.blocked = true ∨ k.outEdge = true
  connecting : k.connected = false → k.room = 0

/-- A flag that is set relies on no event. -/
theorem Kernel.Wakes.mono {k : Kernel} {rx rx' tx tx' : Bool}
    (h : k.Wakes rx tx) (hrx : rx' = false → rx = false)
    (htx : tx' = false → tx = false) : k.Wakes rx' tx' :=
  ⟨fun hrdy => h.unread (hrx hrdy), fun hrdy => h.room (htx hrdy),
    fun hrdy => h.blocked (htx hrdy), h.connecting⟩

theorem Kernel.Wakes.move {k k' : Kernel} {rx tx : Bool} (h : k.Wakes rx tx)
    (hmove : Kernel.Move k k') : k'.Wakes rx tx := by
  cases hmove with
  | arrive b bs => exact ⟨fun _ _ => rfl, h.room, h.blocked, h.connecting⟩
  | connect n hnot =>
      exact ⟨h.unread, fun _ _ => rfl, fun _ _ _ => .inr rfl, nofun⟩
  | space n hconn =>
      have hedge : ∀ edge : Bool, edge = true → (edge || k.blocked) = true := by
        rintro _ rfl
        rfl
      refine ⟨h.unread, fun hrdy hroom => ?_, fun hrdy _ hroom => .inr ?_,
        fun hnot => ?_⟩
      · rcases Nat.eq_zero_or_pos k.room with hzero | hpos
        · rcases h.blocked hrdy hconn hzero with hblocked | hraised
          · show (k.outEdge || k.blocked) = true
            rw [hblocked, Bool.or_true]
          · exact hedge _ hraised
        · exact hedge _ (h.room hrdy hpos)
      · have hzero : k.room = 0 := Nat.eq_zero_of_add_eq_zero_right hroom
        rcases h.blocked hrdy hconn hzero with hblocked | hraised
        · show (k.outEdge || k.blocked) = true
          rw [hblocked, Bool.or_true]
        · exact hedge _ hraised
      · exact absurd (hconn.symm.trans hnot) nofun

theorem Kernel.Wakes.moves {k k' : Kernel} {rx tx : Bool}
    (h : k.Wakes rx tx) (hmoves : ReflTransGen Kernel.Move k k') :
    k'.Wakes rx tx :=
  invariant_of_step (P := fun k => k.Wakes rx tx)
    (fun _ _ hmove hk => hk.move hmove) hmoves h

/-- **The invariant**: a socket that is ready has nothing left to do, and one
that is not will be told. -/
structure Watched.Awake (k : Kernel) (s : Sock W R C) : Prop where
  wf : s.WF
  wakes : k.Wakes s.rxRdy s.txRdy
  reading : s.rxRdy = true → s.rxCbs.used = 0
  writing : s.txRdy = true → s.wbuf.used = 0

/-- `rx` reads until nothing is pending or it would block.  `tx` is the flag
of the other direction, or `true` while its event is still to be handled. -/
theorem Kernel.Reads.awake {k k' : Kernel} {s : Sock W R C}
    {rin : List ReadRes} {tx : Bool} (hserved : Kernel.Reads k s rin k') :
    ∀ {s'}, s.WF → s.rxRdy = true → k.Wakes true tx →
    Sock.rx rin s = .ok () s' →
    s'.WF ∧ k'.Wakes s'.rxRdy tx ∧ (s'.rxRdy = true → s'.rxCbs.used = 0) ∧
      s'.txRdy = s.txRdy ∧ s'.wbuf = s.wbuf := by
  induction hserved with
  | idle hops =>
      intro s' h hrdy hwakes hrun
      rcases rx_turned h hrun with hturn | ⟨r, rs, t, hnil, -⟩
      · cases hturn with
        | idle r hempty =>
            rw [hrdy]
            exact ⟨h, hwakes, fun _ => hempty, rfl, rfl⟩
        | blocked hsome => exact absurd hops (Nat.ne_of_gt hsome)
      · cases hnil
  | blocked hops hmoves hempty =>
      intro s' h hrdy hwakes hrun
      rcases rx_turned h hrun with hturn | ⟨r, rs, t, hcons, hturn, -⟩
      · cases hturn with
        | idle r hnone => exact absurd hnone hops
        | blocked hsome =>
            have hk := hwakes.moves hmoves
            exact ⟨⟨h.rxCbs, h.rbuf, h.txCbs, h.wbuf⟩,
              ⟨fun _ hne => absurd hempty hne, hk.room, hk.blocked,
                hk.connecting⟩, nofun, rfl, rfl⟩
      · cases hcons
        cases hturn
  | data hmoves hunread hturn hrest ih =>
      intro s' h hrdy hwakes hrun
      have hready := (Sock.rxTurn_ready _ _).of_ok hturn
      have hk := hwakes.moves hmoves
      rcases Sock.rxTurn_cases h (.data _ _) with
        ⟨go, t', hturn', hran⟩ | ⟨e, t', hturn', -⟩
      · cases hturn'.symm.trans hturn
        obtain ⟨hwf, houter, -⟩ := hran.spec h
        have hbuf := congrArg (fun o => o.1.2.2.2.2.1) houter
        obtain ⟨hwf', hwakes', hreading, htx, hwbuf⟩ := ih hwf
          ((congrArg Prod.fst hready).trans hrdy)
          ⟨nofun, hk.room, hk.blocked, hk.connecting⟩
          ((bind_of_ok hturn).symm.trans hrun)
        exact ⟨hwf', hwakes', hreading,
          htx.trans (congrArg Prod.snd hready), hwbuf.trans hbuf⟩
      · cases hturn'.symm.trans hturn

/-- `tx` writes until nothing is left or it would block. -/
theorem Kernel.Writes.awake {k k' : Kernel} {s : Sock W R C}
    {wout : List WriteRes} (hserved : Kernel.Writes k s wout k') : ∀ {s'},
    s.WF → s.txRdy = true → k.Wakes s.rxRdy true →
    (s.rxRdy = true → s.rxCbs.used = 0) → Sock.tx wout s = .ok () s' →
    Watched.Awake k' s' := by
  induction hserved with
  | @idle k s hempty =>
      intro s' h hrdy hwakes hreading hrun
      obtain ⟨go, t, hturn, hrest⟩ := bind_eq_ok.mp hrun
      cases hrest
      rcases Sock.txTurn_cases h (.error EAGAIN) with
        ⟨go', u, hturn', hran⟩ | ⟨e, u, hturn', -⟩
      · cases hturn'.symm.trans hturn
        cases hran with
        | idle r hnone =>
            exact ⟨h, by rw [hrdy]; exact hwakes, hreading, fun _ => hnone⟩
        | blocked hbusy => exact absurd hempty (Nat.ne_of_gt hbusy)
      · cases hturn'.symm.trans hturn
  | @blocked k k' s hbusy hmoves hfull =>
      intro s' h hrdy hwakes hreading hrun
      obtain ⟨go, t, hturn, hrest⟩ := bind_eq_ok.mp hrun
      rcases Sock.txTurn_cases h (.error EAGAIN) with
        ⟨go', u, hturn', hran⟩ | ⟨e, u, hturn', -⟩
      · cases hturn'.symm.trans hturn
        cases hran with
        | idle r hnone => exact absurd hnone hbusy
        | blocked hsome =>
            cases hrest
            have hk := hwakes.moves hmoves
            refine ⟨⟨h.rxCbs, h.rbuf, h.txCbs, h.wbuf⟩,
              ⟨hk.unread, fun _ hroom => ?_, fun _ _ _ => .inl rfl,
                hk.connecting⟩, hreading, nofun⟩
            exact absurd hfull (Nat.ne_of_gt hroom)
      · cases hturn'.symm.trans hturn
  | @accepted k k₁ k' s t n wout hmoves hroom hturn hrest ih =>
      intro s' h hrdy hwakes hreading hrun
      have hready := (Sock.txTurn_ready n).of_ok hturn
      have hk := hwakes.moves hmoves
      rcases Sock.txTurn_cases h (.accepted n) with
        ⟨go, t', hturn', hran⟩ | ⟨e, t', hturn', -⟩
      · cases hturn'.symm.trans hturn
        obtain ⟨hwf, houter, -⟩ := hran.spec h
        have hrx := congrArg Prod.fst hready
        have hops := congrArg (fun o => o.1.2.2.1.used) houter
        refine ih hwf ((congrArg Prod.snd hready).trans hrdy)
          ⟨?_, nofun, nofun, ?_⟩ ?_ ((bind_of_ok hturn).symm.trans hrun)
        · intro hnot
          exact hk.unread (hrx.symm.trans hnot)
        · intro hnot
          show k₁.room - n = 0
          rw [hk.connecting hnot, Nat.zero_sub]
        · intro hrdy'
          exact hops.trans (hreading (hrx.symm.trans hrdy'))
      · cases hturn'.symm.trans hturn

/-! ## Writing -/

/-- The flags and the pending reads. -/
def Sock.watch (s : Sock W R C) := (s.ready, s.rxCbs)

/-- Writing touches neither the flags nor the pending reads. -/
theorem WriteCall.call_quiet (c : WriteCall W) {s s' : Sock W R C} (h : s.WF)
    (hrun : c.call s = .ok () s') : s'.WF ∧ s'.watch = s.watch := by
  have happended : ∀ {n : Nat} {x : EStateM Exn (Sock W R C) Unit},
      Appends n x → x s = .ok () s' → s'.WF ∧ s'.watch = s.watch := by
    intro n x hx hxs
    obtain ⟨b, bytes, rfl, hb, -⟩ := hx _ _ h hxs
    exact ⟨⟨h.rxCbs, h.rbuf, h.txCbs, hb⟩, rfl⟩
  cases c with
  | write data => exact happended (Sock.write_appends data) hrun
  | writeEmplace obj stack =>
      exact happended (Sock.writeEmplace_appends obj stack) hrun
  | writePrepare len =>
      obtain ⟨ps, t, hprep, hrest⟩ := bind_eq_ok.mp hrun
      cases hrest
      by_cases hfit : 0 < len ∧ len ≤ s.wbuf.space
      · cases (Sock.writePrepare_ok h hfit.1 hfit.2).symm.trans hprep
        exact ⟨h, rfl⟩
      · obtain ⟨e, hthrow⟩ := Sock.writePrepare_throws
          (show len = 0 ∨ s.wbuf.space < len by omega)
        cases hthrow.symm.trans hprep
  | fill p1 p2 n1 data =>
      cases hrun
      refine ⟨⟨h.rxCbs, h.rbuf, h.txCbs, ?_⟩, rfl⟩
      cases p2 with
      | none => exact ⟨h.wbuf.head_lt, h.wbuf.used_le, h.wbuf.tail_eq⟩
      | some p2 => exact ⟨h.wbuf.head_lt, h.wbuf.used_le, h.wbuf.tail_eq⟩
  | writeCommit len => exact happended (Sock.writeCommit_appends len) hrun
  | writeCbPoint cb data =>
      rcases Sock.writeCbPoint_cases h cb data with
        ⟨hroom, hok⟩ | ⟨e, hthrow, -⟩
      · cases hok.symm.trans hrun
        exact ⟨h.pointed hroom cb data, rfl⟩
      · cases hthrow.symm.trans hrun

/-- The writes before a `try_tx` are as quiet as each of them. -/
theorem WriteCall.calls_quiet (calls : List (WriteCall W)) {s s' : Sock W R C}
    (h : s.WF) (hrun : runAll WriteCall.call calls s = .ok () s') :
    s'.WF ∧ s'.watch = s.watch := by
  refine runAll_invariant (P := fun _ (t : Sock W R C) =>
    t.WF ∧ t.watch = s.watch) ?_ calls [] ⟨h, rfl⟩ hrun
  rintro past c t u ⟨ht, hwatch⟩ hcall
  obtain ⟨hu, hquiet⟩ := c.call_quiet ht hcall
  exact ⟨hu, hquiet.trans hwatch⟩

/-! ## The steps -/

namespace Watched

/-- What is left of the events that `epoll_wait` delivers, once the flags they
raise are set. -/
theorem wakes_delivered {k : Kernel} {rx tx : Bool} (h : k.Wakes rx tx)
    (events : UInt32) :
    (k.delivered events).Wakes (rx || !decide (events &&& EPOLLIN = 0))
      (tx || !decide (events &&& EPOLLOUT = 0)) := by
  have hlow : ∀ {rdy edge bit : Bool}, (rdy || !bit) = false →
      (rdy = false → edge = true) → (edge && bit) = true := by
    intro rdy edge bit hrdy hedge
    cases bit with
    | false => rw [Bool.not_false, Bool.or_true] at hrdy; cases hrdy
    | true =>
        rw [Bool.not_true, Bool.or_false] at hrdy
        rw [hedge hrdy, Bool.and_true]
  have hlower : ∀ {rdy bit : Bool}, (rdy || !bit) = false → rdy = false :=
    fun hrdy => (Bool.or_eq_false_iff.mp hrdy).1
  refine ⟨fun hrx hne => ?_, fun htx hroom => ?_, fun htx hconn hroom => ?_,
    h.connecting⟩
  · exact hlow hrx fun hrdy => h.unread hrdy hne
  · exact hlow htx fun hrdy => h.room hrdy hroom
  · rcases h.blocked (hlower htx) hconn hroom with hblocked | hraised
    · exact .inl hblocked
    · exact .inr (hlow htx fun _ => hraised)

/-- The input half of `run_io`, with the output event still to be handled. -/
private theorem Awake.input {k k₁ : Kernel} {s t : Sock W R C}
    (h : Awake k s) {events : UInt32} {rin : List ReadRes}
    (hin : (if events &&& EPOLLIN ≠ 0 then Sock.runIn rin else pure () :
      EStateM Exn (Sock W R C) Unit) s = .ok () t)
    (hreads : if events &&& EPOLLIN ≠ 0 then
      Kernel.Reads (k.delivered events) { s with rxRdy := true } rin k₁
      else k₁ = k.delivered events) :
    t.WF ∧
      k₁.Wakes t.rxRdy (s.txRdy || !decide (events &&& EPOLLOUT = 0)) ∧
      (t.rxRdy = true → t.rxCbs.used = 0) ∧
      t.txRdy = s.txRdy ∧ t.wbuf = s.wbuf := by
  have hwakes := wakes_delivered h.wakes events
  by_cases hbit : events &&& EPOLLIN = 0
  · simp only [hbit, ne_eq, not_true_eq_false, if_false] at hin hreads
    cases hin
    cases hreads
    simp only [hbit, decide_true, Bool.not_true, Bool.or_false] at hwakes
    exact ⟨h.wf, hwakes, h.reading, rfl, rfl⟩
  · simp only [hbit, ne_eq, not_false_eq_true, if_true] at hin hreads
    simp only [hbit, decide_false, Bool.not_false, Bool.or_true] at hwakes
    exact hreads.awake ⟨h.wf.rxCbs, h.wf.rbuf, h.wf.txCbs, h.wf.wbuf⟩
      rfl hwakes hin

/-- **`run_io`** keeps the invariant. -/
theorem Awake.runIo {k k₁ k' : Kernel} {s t s' : Sock W R C}
    (h : Awake k s) {events : UInt32} {check : ConnCheck}
    {rin : List ReadRes} {wout : List WriteRes}
    (hin : (if events &&& EPOLLIN ≠ 0 then Sock.runIn rin else pure () :
      EStateM Exn (Sock W R C) Unit) s = .ok () t)
    (hrun : Sock.runIo events check rin wout s = .ok () s')
    (hreads : if events &&& EPOLLIN ≠ 0 then
      Kernel.Reads (k.delivered events) { s with rxRdy := true } rin k₁
      else k₁ = k.delivered events)
    (hwrites : if events &&& EPOLLOUT ≠ 0 then
      Kernel.Writes k₁ { t with connected := true, txRdy := true } wout k'
      else k' = k₁) : Awake k' s' := by
  obtain ⟨ht, hwakes, hreading, htx, hwbuf⟩ := h.input hin hreads
  rw [Sock.runIo_eq, bind_of_ok hin] at hrun
  by_cases hbit : events &&& EPOLLOUT = 0
  · simp only [hbit, ne_eq, not_true_eq_false, if_false] at hrun hwrites
    cases hrun
    cases hwrites
    simp only [hbit, decide_true, Bool.not_true, Bool.or_false] at hwakes
    refine ⟨ht, ?_, hreading, ?_⟩
    · rw [htx]
      exact hwakes
    · rw [htx, hwbuf]
      exact h.writing
  · simp only [hbit, ne_eq, not_false_eq_true, if_true] at hrun hwrites
    simp only [hbit, decide_false, Bool.not_false, Bool.or_true] at hwakes
    rcases Sock.finishConnect_cases t check with hconn | ⟨e, hconn, -⟩
    · refine hwrites.awake ⟨ht.rxCbs, ht.rbuf, ht.txCbs, ht.wbuf⟩ rfl
        hwakes hreading ?_
      exact ((bind_of_ok hconn).trans
        (bind_of_ok (modify_apply _ _))).symm.trans hrun
    · cases (bind_of_error hconn).symm.trans hrun

/-- **`read`** keeps the invariant. -/
theorem Awake.read {k k' : Kernel} {s s' : Sock W R C} (h : Awake k s)
    {op : IORx W} {rin : List ReadRes}
    (hrun : Sock.read op rin s = .ok () s')
    (hserved : if s.rxRdy then Kernel.Reads k (s.enqueued op) rin k'
      else k' = k) : Awake k' s' := by
  rcases Nat.eq_zero_or_pos s.rxCbs.space with hfull | hroom
  · obtain ⟨e, hthrow, -⟩ := Sock.read_throws hfull op rin
    cases hthrow.symm.trans hrun
  rw [Sock.read_ok h.wf hroom] at hrun
  cases hrdy : s.rxRdy with
  | false =>
      simp only [hrdy, Bool.false_eq_true, if_false] at hrun hserved
      cases hrun
      cases hserved
      refine ⟨h.wf.enqueued hroom op, h.wakes, fun hset => ?_, h.writing⟩
      cases hrdy.symm.trans hset
  | true =>
      simp only [hrdy, if_true] at hrun hserved
      have hwakes := h.wakes
      rw [hrdy] at hwakes
      obtain ⟨hwf, hwakes', hreading, htx, hwbuf⟩ :=
        hserved.awake (h.wf.enqueued hroom op) hrdy hwakes hrun
      replace htx : s'.txRdy = s.txRdy := htx
      refine ⟨hwf, ?_, hreading, ?_⟩
      · rw [htx]
        exact hwakes'
      · rw [htx, hwbuf]
        exact h.writing

/-- **Writes and `try_tx`** keep the invariant. -/
theorem Awake.write {k k' : Kernel} {s t s' : Sock W R C} (h : Awake k s)
    {calls : List (WriteCall W)} {wout : List WriteRes}
    (hwrite : runAll WriteCall.call calls s = .ok () t)
    (hrun : Sock.tryTx wout t = .ok () s')
    (hserved : if t.txRdy then Kernel.Writes k t wout k' else k' = k) :
    Awake k' s' := by
  obtain ⟨ht, hwatch⟩ := WriteCall.calls_quiet calls h.wf hwrite
  have hrx : t.rxRdy = s.rxRdy := congrArg (·.1.1) hwatch
  have htx : t.txRdy = s.txRdy := congrArg (·.1.2) hwatch
  have hops : t.rxCbs = s.rxCbs := congrArg (·.2) hwatch
  have hwakes : k.Wakes t.rxRdy t.txRdy := by
    rw [hrx, htx]
    exact h.wakes
  have hreading : t.rxRdy = true → t.rxCbs.used = 0 := by
    rw [hrx, hops]
    exact h.reading
  replace hrun : (if t.txRdy then Sock.tx wout else pure ()) t =
    .ok () s' := hrun
  cases hrdy : t.txRdy with
  | false =>
      simp only [hrdy, Bool.false_eq_true, if_false] at hrun hserved
      cases hrun
      cases hserved
      refine ⟨ht, hwakes, hreading, fun hset => ?_⟩
      cases hrdy.symm.trans hset
  | true =>
      simp only [hrdy, if_true] at hrun hserved hwakes
      exact hserved.awake ht hrdy hwakes hreading hrun

/-- **Step lemma**: every move of the kernel and every call that returns keep
the invariant. -/
theorem Awake.step {w w' : Watched W R C} (h : Awake w.kernel w.sock)
    (hstep : Step w w') : Awake w'.kernel w'.sock := by
  cases hstep with
  | move hmove => exact ⟨h.wf, h.wakes.move hmove, h.reading, h.writing⟩
  | read hrun hserved => exact h.read hrun hserved
  | write hwrite hrun hserved => exact h.write hwrite hrun hserved
  | runIo hin hrun hreads hwrites => exact h.runIo hin hrun hreads hwrites

/-- **Run lemma**: the invariant holds between the calls. -/
theorem awake_reachable {addr : Nat} {rmem wmem : Nat → UInt8} {w₀ : W}
    {w : Watched W R C}
    (hreach : ReflTransGen Step (.init addr rmem wmem w₀) w) :
    Awake w.kernel w.sock := by
  refine invariant_of_step (P := fun w : Watched W R C =>
    Awake w.kernel w.sock) (fun _ _ hstep h => h.step hstep) hreach ?_
  exact ⟨⟨Buffer.init_wf _, Buffer.init_wf _, Buffer.init_wf _,
    Buffer.init_wf _⟩, ⟨nofun, nofun, nofun, fun _ => rfl⟩, nofun, nofun⟩

end Watched

/-- **No lost wake-ups**: between the calls, unread bytes that a read
operation waits for, and send space that bytes wait for, have an event that is
still to be delivered. -/
theorem no_lost_wakeup {addr : Nat} {rmem wmem : Nat → UInt8} {w₀ : W}
    {w : Watched W R C}
    (hreach : ReflTransGen Watched.Step (.init addr rmem wmem w₀) w) :
    (w.kernel.unread ≠ [] → w.sock.rxCbs.toList ≠ [] →
      w.kernel.inEdge = true) ∧
    (w.sock.wbuf.toList ≠ [] → 0 < w.kernel.room →
      w.kernel.outEdge = true) := by
  have h := Watched.awake_reachable hreach
  constructor
  · intro hunread hops
    refine h.wakes.unread (Bool.eq_false_iff.mpr fun hrdy => hops ?_) hunread
    exact Buffer.toList_eq_nil.mpr (h.reading hrdy)
  · intro hbusy hroom
    refine h.wakes.room (Bool.eq_false_iff.mpr fun hrdy => hbusy ?_) hroom
    exact Buffer.toList_eq_nil.mpr (h.writing hrdy)

/-- A socket connects with room for one byte, is given two, sends the first
and would block; then space appears, a byte arrives, and a read is queued. -/
theorem no_lost_wakeup_blocked : ∃ w : Watched Unit 4 16,
    ReflTransGen Watched.Step (.init 0 (fun _ => 0) (fun _ => 0) ()) w ∧
      w.kernel.unread = [7] ∧ w.kernel.inEdge = true ∧
      w.sock.wbuf.toList = [2] ∧ w.kernel.outEdge = true := by
  have hconnect : Watched.Step
      (.init 0 (fun _ => 0) (fun _ => 0) () : Watched Unit 4 16) _ :=
    .move (.connect .init 1 rfl)
  have hwrite := ReflTransGen.tail (.single hconnect)
    (.write (show runAll WriteCall.call [.write [1, 2]] _ = .ok () _ from rfl)
      (show Sock.tryTx [] _ = .ok () _ from rfl) rfl)
  have hevent := hwrite.tail (.runIo rfl
    (show Sock.runIo EPOLLOUT .ok [] _ _ = .ok () _ from rfl) rfl
    (.accepted .refl (Nat.le_refl 1) rfl
      (.blocked (by decide) .refl rfl)))
  have hspace := hevent.tail (.move (.space _ 3 rfl))
  have harrive := hspace.tail (.move (.arrive _ 7 []))
  have hread := harrive.tail
    (.read (show Sock.read ⟨1, none, 0, none, none, 0⟩ [] _ = .ok () _ from rfl)
      rfl)
  refine ⟨_, hread, rfl, ?_, rfl, ?_⟩
  · exact (no_lost_wakeup hread).1 (List.cons_ne_nil 7 [])
      (List.cons_ne_nil _ [])
  · exact (no_lost_wakeup hread).2 (List.cons_ne_nil 2 [])
      (Nat.succ_pos 2)

end Mutated.Ports
