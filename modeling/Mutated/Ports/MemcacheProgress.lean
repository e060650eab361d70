import Mutated.Ports.MemcachePrompt
import Mutated.Verified.Groups

/-!
# The progress of the loader

`run` sends sets while fewer than `batch_` are on the wire, and waits for
events otherwise.  A response acknowledges `notify_` sets, so `recv_` is
counted in groups: while sets are left only whole groups were acknowledged,
and the last group counts as a whole one.  `recv_` and `onwire_` wrap around.

* `Point` is where `run` stands.
* Responses are handled whenever a call of the socket receives them, also
  inside the `send_request` whose set they answer, before `sent_` and
  `onwire_` count it.
* A call that throws ends the run.  An `epoll_wait` that fails is left out.

`Progress` is the invariant: `n` sets were sent, and at most `batch_` of them
are not acknowledged.
-/

namespace Mutated.Ports

open Mutated.Verified.Exec
open Mutated.Verified.Groups
open Relation (ReflTransGen)

namespace MemcacheLoad

/-! ## The loop -/

section Model

variable {R C : ℕ+} (cfg : Config)

/-- `seqid_++`. -/
def nextSeqid : EStateM Exn Loader UInt64 := do
  let l ← get
  modify fun l => { l with seqid := l.seqid + 1, ids := l.ids ++ [l.seqid] }
  pure l.seqid

/-- The body of the inner loop of `run`. -/
def turn (stack : Nat → Nat → UInt8) (wout : List WriteRes)
    (rin : List ReadRes) : EStateM Exn (Sock Loader R C) Unit := do
  let s ← get
  let loud := decide ((s.world.sent + 1) % cfg.notify = 0 ∨
    s.world.sent = cfg.toload - 1)
  let seqid ← Sock.onWorld nextSeqid
  sendRequest cfg seqid (!loud) stack wout rin
  Sock.onWorld (modify fun l => { l with
    sent := l.sent + 1, onwire := l.onwire + 1 })

/-- The condition of the inner loop. -/
def Sends (s : Sock Loader R C) : Prop :=
  s.world.sent < cfg.toload ∧ s.world.onwire < cfg.batch

instance (s : Sock Loader R C) : Decidable (Sends cfg s) :=
  inferInstanceAs (Decidable (_ ∧ _))

/-- An event of the socket, with the kernel's answers. -/
structure IoEvent where
  events : UInt32
  check : ConnCheck
  rin : List ReadRes
  wout : List WriteRes

/-- `sock_->run_io`. -/
def IoEvent.call (ev : IoEvent) : EStateM Exn (Sock Loader R C) Unit :=
  Sock.runIo ev.events ev.check ev.rin ev.wout

end Model

/-- Where `run` stands: at the test of the inner loop, at the test that leaves
the outer one, in `epoll_wait`, behind both loops, or left by an exception. -/
inductive Point
  | sending
  | deciding
  | waiting
  | finished
  | failed (e : Exn)
  deriving DecidableEq, Repr

/-- `run`. -/
structure Running (R C : ℕ+) where
  point : Point
  sock : Sock Loader R C

variable {R C : ℕ+}

inductive Step (cfg : Config) : Running R C → Running R C → Prop
  | send {s s' : Sock Loader R C} (stack : Nat → Nat → UInt8)
      (wout : List WriteRes) (rin : List ReadRes) (hsends : Sends cfg s)
      (hrun : turn cfg stack wout rin s = .ok () s') :
      Step cfg ⟨.sending, s⟩ ⟨.sending, s'⟩
  | full {s : Sock Loader R C} (hfull : ¬ Sends cfg s) :
      Step cfg ⟨.sending, s⟩ ⟨.deciding, s⟩
  | finish {s : Sock Loader R C} (hrecv : cfg.toload ≤ s.world.recv) :
      Step cfg ⟨.deciding, s⟩ ⟨.finished, s⟩
  | block {s : Sock Loader R C} (hrecv : ¬ cfg.toload ≤ s.world.recv) :
      Step cfg ⟨.deciding, s⟩ ⟨.waiting, s⟩
  | wake {s s' : Sock Loader R C} (evs : List IoEvent)
      (hrun : runAll IoEvent.call evs s = .ok () s') :
      Step cfg ⟨.waiting, s⟩ ⟨.sending, s'⟩
  | failSend {s s' : Sock Loader R C} (stack : Nat → Nat → UInt8)
      (wout : List WriteRes) (rin : List ReadRes) (hsends : Sends cfg s)
      {e : Exn} (hrun : turn cfg stack wout rin s = .error e s') :
      Step cfg ⟨.sending, s⟩ ⟨.failed e, s'⟩
  | failWake {s s' : Sock Loader R C} (evs : List IoEvent) {e : Exn}
      (hrun : runAll IoEvent.call evs s = .error e s') :
      Step cfg ⟨.waiting, s⟩ ⟨.failed e, s'⟩

/-- The states of a run. -/
def Reachable (cfg : Config) (r : Running R C) : Prop :=
  ∃ addr rmem wmem,
    ReflTransGen (Step cfg) ⟨.sending, start cfg addr rmem wmem⟩ r

/-! ## The protocol -/

/-- The number of responses that were handled. -/
def answered (s : Sock Loader R C) : Nat := (delivered s.trace).length

/-- The number of loud sets among the first `n`. -/
def louds (cfg : Config) (n : Nat) : Nat :=
  closed cfg.notify.toNat cfg.toload.toNat n

/-- The ids of the first `n` sets. -/
def idsOf (cfg : Config) (n : Nat) : List UInt64 :=
  (List.range n).map fun i => cfg.startid + UInt64.ofNat i

/-- The exceptions of the socket: a ring without room, or the kernel's answer;
but none of the loader, and none of its callback. -/
inductive SockExn : Exn → Prop
  | buffer {e : Exn} (h : BufferExn e) : SockExn e
  | rx {e : Exn} (h : Sock.RxExn e) : SockExn e
  | tx {e : Exn} (h : Sock.TxExn e) : SockExn e
  | conn {e : Exn} (h : Sock.ConnExn e) : SockExn e

/-- **What `run` promises**, at each point of a run. -/
structure Follows (cfg : Config) (r : Running R C) : Prop where
  ids : (∀ e, r.point ≠ .failed e) → r.sock.world.sent ≤ cfg.toload ∧
    r.sock.world.ids = idsOf cfg r.sock.world.sent.toNat
  window : r.point = .sending → r.sock.world.sent < cfg.toload →
    r.sock.world.onwire = r.sock.world.sent - r.sock.world.recv ∧
      r.sock.world.sent.toNat - cfg.notify.toNat * answered r.sock ≤
        cfg.batch.toNat
  waits : r.point = .waiting →
    answered r.sock < louds cfg r.sock.world.sent.toNat
  decides : r.point = .deciding → (cfg.toload ≤ r.sock.world.recv ↔
    r.sock.world.sent = cfg.toload ∧
      answered r.sock = louds cfg cfg.toload.toNat)
  finishes : r.point = .finished → r.sock.world.sent = cfg.toload ∧
    answered r.sock = louds cfg cfg.toload.toNat
  fails : ∀ e, r.point = .failed e → SockExn e

/-! ## What the calls add to the trace -/

section Calls

variable {cfg : Config} {s s' : Sock Loader R C}

private theorem answered_le_of_prefix (h : s.trace <+: s'.trace) :
    answered s ≤ answered s' := (h.filter _).length_le

/-- Responses that were handled stay handled. -/
theorem sendRequest_answered (h : s.WF) {seqid : UInt64} {quiet : Bool}
    {stack : Nat → Nat → UInt8} {wout : List WriteRes} {rin : List ReadRes}
    (hrun : sendRequest cfg seqid quiet stack wout rin s = .ok () s') :
    answered s ≤ answered s' := by
  have hsteady := trace_steady (W := Loader) (R := R) (C := C) s.addr s.trace
  obtain ⟨⟨⟩, t, hwrite, hrest⟩ := bind_eq_ok.mp hrun
  obtain ⟨⟨⟩, u, htry, hread⟩ := bind_eq_ok.mp hrest
  obtain ⟨b, bytes, rfl, hb, -, -⟩ :=
    writeSet_appends _ seqid stack _ _ h hwrite
  have hholds : Holds s.addr (fun q => s.trace <+: q.trace)
      ({ s with wbuf := b } : Sock Loader R C) :=
    ⟨⟨h.rxCbs, h.rbuf, h.txCbs, hb⟩, rfl, List.prefix_refl _⟩
  rcases tryTx_steady hsteady hholds wout with
    ⟨u', hok, hran⟩ | ⟨e, u', hthrow, -⟩
  · cases hok.symm.trans htry
    cases quiet with
    | true =>
        cases hread
        exact answered_le_of_prefix hran.holds
    | false =>
        rcases read_steady hsteady hran.toHolds (fun hq => hq) rin with
          ⟨v, hok', hv, -⟩ | ⟨e, v, hthrow, -⟩
        · cases hok'.symm.trans hread
          exact answered_le_of_prefix hv.holds
        · cases hthrow.symm.trans hread
  · cases hthrow.symm.trans htry

theorem runIo_answered (h : s.WF) {ev : IoEvent}
    (hrun : ev.call s = .ok () s') : answered s ≤ answered s' := by
  have hsteady := trace_steady (W := Loader) (R := R) (C := C) s.addr s.trace
  rcases runIo_steady hsteady ⟨h, rfl, List.prefix_refl _⟩ ev.events ev.check
      ev.rin ev.wout with ⟨t, hok, hran⟩ | ⟨e, t, hthrow, -⟩
  · cases hok.symm.trans hrun
    exact answered_le_of_prefix hran.holds
  · cases hthrow.symm.trans hrun

/-- The loader throws nothing itself. -/
theorem Loading.sockExn {addr loud : Nat} {l : Loader} {e : Exn}
    (h : Stopped addr (Loading cfg C addr l loud) e s) : SockExn e := by
  obtain ⟨q, hq, -, hcause⟩ := h
  cases hcause with
  | buffer hexn => exact .buffer hexn
  | rx hexn => exact .rx hexn
  | tx hexn => exact .tx hexn
  | conn hexn => exact .conn hexn
  | rxFault hfault => exact absurd hfault hq.no_rx_fault
  | txFault hfault =>
      obtain ⟨c, pt, pts, -, hpts, -⟩ := hfault
      cases hpts.symm.trans hq.points

/-- The loader after `seqid_++`. -/
def numbered (s : Sock Loader R C) : Sock Loader R C :=
  { s with world := { s.world with
    seqid := s.world.seqid + 1, ids := s.world.ids ++ [s.world.seqid] } }

/-- The loader after the set was counted. -/
def counted (s : Sock Loader R C) : Sock Loader R C :=
  { s with world := { s.world with
    sent := s.world.sent + 1, onwire := s.world.onwire + 1 } }

/-- A turn is a `send_request` between the two. -/
theorem turn_eq (stack : Nat → Nat → UInt8) (wout : List WriteRes)
    (rin : List ReadRes) (s : Sock Loader R C) :
    turn cfg stack wout rin s = (sendRequest cfg s.world.seqid
      (!decide ((s.world.sent + 1) % cfg.notify = 0 ∨
        s.world.sent = cfg.toload - 1)) stack wout rin >>= fun _ =>
      modify counted) (numbered s) := rfl

/-- The counters change, as they would without any response. -/
theorem Ready.update {addr loud : Nat} {l : Loader}
    (h : Ready cfg addr l loud s) {f : Loader → Loader}
    (hsock : (f l).sock = l.sock)
    (hf : ∀ n, f (l.acked cfg n) = (f l).acked cfg n) :
    Ready cfg addr (f l) loud { s with world := f s.world } := by
  have hwf := h.wf
  have hold := h.holds
  have hworld : s.world = l.acked cfg s.view.answered := hold.world
  refine ⟨⟨⟨hwf.rxCbs, hwf.rbuf, hwf.txCbs, hwf.wbuf⟩, h.addr, ?_⟩, h.nread⟩
  refine ⟨⟨hold.framed.ops, hold.framed.eaten, hold.framed.serials,
    hold.framed.framed⟩, hsock.trans hold.sock, ?_, hold.ops, hold.pending,
    hold.points, hold.returned⟩
  show f s.world = (f l).acked cfg s.view.answered
  rw [hworld]
  exact hf _

end Calls

/-! ## The invariant -/

/-- The counters after `n` sets, without any response. -/
def issued (cfg : Config) (addr n : Nat) : Loader :=
  ⟨addr, .ofNat n, 0, cfg.startid + .ofNat n, .ofNat n, idsOf cfg n⟩

/-- **The invariant**: `n` sets were sent, and at most `batch_` of them are not
acknowledged. -/
structure Progress (cfg : Config) (addr n : Nat) (s : Sock Loader R C) : Prop
    extends Ready cfg addr (issued cfg addr n) (louds cfg n) s where
  sent_le : n ≤ cfg.toload.toNat
  unacked_le : n ≤ cfg.notify.toNat * answered s + cfg.batch.toNat

/-- `notify_` is one of the two, and at most `batch_`. -/
theorem notify_cases (cfg : Config) :
    (cfg.notify = cfg.notifyWindow ∨ cfg.notify = cfg.batch) ∧
      cfg.notify.toNat ≤ cfg.batch.toNat := by
  have hmin : cfg.notify = if cfg.notifyWindow ≤ cfg.batch
    then cfg.notifyWindow else cfg.batch := rfl
  rw [hmin]
  by_cases hle : cfg.notifyWindow ≤ cfg.batch
  · rw [if_pos hle]
    exact ⟨.inl rfl, UInt64.le_iff_toNat_le.mp hle⟩
  · rw [if_neg hle]
    exact ⟨.inr rfl, Nat.le_refl _⟩

theorem notify_ne_zero {cfg : Config} (hbatch : cfg.batch ≠ 0)
    (hwindow : cfg.notifyWindow ≠ 0) : cfg.notify ≠ 0 := by
  rcases (notify_cases cfg).1 with hmin | hmin
  · rw [hmin]
    exact hwindow
  · rw [hmin]
    exact hbatch

theorem notify_pos {cfg : Config} (hnotify : cfg.notify ≠ 0) :
    0 < cfg.notify.toNat := by
  rw [Nat.pos_iff_ne_zero]
  exact fun hzero => hnotify (UInt64.toNat_inj.mp hzero)

namespace Progress

variable {cfg : Config} {addr n : Nat} {s s' : Sock Loader R C}

theorem world_eq (h : Progress cfg addr n s) :
    s.world = (issued cfg addr n).acked cfg (answered s) := h.holds.world

theorem answered_le (h : Progress cfg addr n s) :
    answered s ≤ louds cfg n := by
  have hpending := h.holds.pending
  have hview : s.view.answered = answered s := rfl
  omega

/-- `sent_` as a number. -/
theorem sent_toNat (h : Progress cfg addr n s) : s.world.sent.toNat = n := by
  rw [h.world_eq]
  exact UInt64.toNat_ofNat_of_lt'
    (Nat.lt_of_le_of_lt h.sent_le cfg.toload.toNat_lt)

theorem sent_lt_iff (h : Progress cfg addr n s) :
    s.world.sent < cfg.toload ↔ n < cfg.toload.toNat := by
  rw [UInt64.lt_iff_toNat_lt, h.sent_toNat]

/-- What was acknowledged, as a number, while sets are left. -/
theorem acked_toNat (h : Progress cfg addr n s) (hnotify : cfg.notify ≠ 0)
    (hleft : n < cfg.toload.toNat) :
    (cfg.notify * UInt64.ofNat (answered s)).toNat =
      cfg.notify.toNat * answered s ∧
    cfg.notify.toNat * answered s ≤ n := by
  have hle := mul_le_of_lt hleft h.answered_le
  have hfits : cfg.notify.toNat * answered s < 2 ^ 64 :=
    Nat.lt_of_le_of_lt (hle.trans h.sent_le) cfg.toload.toNat_lt
  have hanswered : answered s < UInt64.size :=
    Nat.lt_of_le_of_lt (Nat.le_mul_of_pos_left _ (notify_pos hnotify)) hfits
  refine ⟨?_, hle⟩
  rw [UInt64.toNat_mul, UInt64.toNat_ofNat_of_lt' hanswered]
  exact Nat.mod_eq_of_lt hfits

/-- The sets on the wire, as a number, while sets are left. -/
theorem onwire_toNat (h : Progress cfg addr n s) (hnotify : cfg.notify ≠ 0)
    (hleft : n < cfg.toload.toNat) :
    s.world.onwire.toNat = n - cfg.notify.toNat * answered s := by
  obtain ⟨hacked, hle⟩ := h.acked_toNat hnotify hleft
  have hsent : (UInt64.ofNat n).toNat = n :=
    UInt64.toNat_ofNat_of_lt' (Nat.lt_trans hleft cfg.toload.toNat_lt)
  rw [h.world_eq]
  show (UInt64.ofNat n - cfg.notify * UInt64.ofNat (answered s)).toNat = _
  rw [UInt64.toNat_sub_of_le _ _ (UInt64.le_iff_toNat_le.mpr (by
    rw [hacked, hsent]
    exact hle)), hacked, hsent]

/-- Whether the next set is loud. -/
theorem loud_iff (h : Progress cfg addr n s) (hleft : n < cfg.toload.toNat) :
    ((s.world.sent + 1) % cfg.notify = 0 ∨ s.world.sent = cfg.toload - 1) ↔
      Closes cfg.notify.toNat cfg.toload.toNat n := by
  have hsent := h.sent_toNat
  have hlt := cfg.toload.toNat_lt
  have hnext : (s.world.sent + 1).toNat = n + 1 := by
    rw [UInt64.toNat_add, hsent]
    exact Nat.mod_eq_of_lt (show n + 1 < 2 ^ 64 by omega)
  have hone : (1 : UInt64) ≤ cfg.toload := UInt64.le_iff_toNat_le.mpr
    (show 1 ≤ cfg.toload.toNat by omega)
  have hlast : (cfg.toload - 1).toNat = cfg.toload.toNat - 1 :=
    UInt64.toNat_sub_of_le _ _ hone
  unfold Closes
  refine or_congr ?_ ?_
  · rw [← UInt64.toNat_inj, UInt64.toNat_mod, hnext]
    rfl
  · rw [← UInt64.toNat_inj, hsent, hlast]
    omega

/-- A new loader. -/
theorem init (rmem wmem : Nat → UInt8) :
    Progress cfg addr 0
      (start cfg addr rmem wmem : Sock Loader R C) :=
  have hissued : issued cfg addr 0 = .init cfg addr := by
    simp [issued, Loader.init, idsOf]
  ⟨hissued ▸ .start rmem wmem, Nat.zero_le _, Nat.zero_le _⟩

/-- One more set. -/
private theorem issued_succ (cfg : Config) (addr n : Nat) :
    issued cfg addr (n + 1) = { issued cfg addr n with
      seqid := (issued cfg addr n).seqid + 1
      ids := (issued cfg addr n).ids ++ [(issued cfg addr n).seqid]
      sent := (issued cfg addr n).sent + 1
      onwire := (issued cfg addr n).onwire + 1 } := by
  have hnext : UInt64.ofNat (n + 1) = .ofNat n + 1 := UInt64.ofNat_add n 1
  have hids : idsOf cfg (n + 1) =
      idsOf cfg n ++ [cfg.startid + UInt64.ofNat n] := by
    rw [idsOf, List.range_succ, List.map_append]
    rfl
  simp only [issued, hnext, hids, UInt64.add_assoc]

/-- The next set, before it is sent. -/
theorem numbered_ready (h : Progress cfg addr n s) :
    Ready cfg addr { issued cfg addr n with
      seqid := (issued cfg addr n).seqid + 1
      ids := (issued cfg addr n).ids ++ [(issued cfg addr n).seqid] }
      (louds cfg n) (numbered s) :=
  h.toReady.update (f := fun l => { l with
    seqid := l.seqid + 1, ids := l.ids ++ [l.seqid] }) rfl fun _ => rfl

/-- Whether the next set is loud, as the number of operations it queues. -/
theorem louds_succ (h : Progress cfg addr n s) (hleft : n < cfg.toload.toNat) :
    louds cfg (n + 1) = louds cfg n + if !decide
      ((s.world.sent + 1) % cfg.notify = 0 ∨ s.world.sent = cfg.toload - 1)
      then 0 else 1 := by
  have hloud := h.loud_iff hleft
  rw [louds, closed]
  by_cases hcloses : Closes cfg.notify.toNat cfg.toload.toNat n
  · rw [if_pos hcloses, decide_eq_true (hloud.mpr hcloses)]
    rfl
  · rw [if_neg hcloses, decide_eq_false (mt hloud.mp hcloses)]
    rfl

/-- **A turn of the inner loop** sends the next set. -/
theorem turn_kept (h : Progress cfg addr n s) (hnotify : cfg.notify ≠ 0)
    (hsends : Sends cfg s) {stack : Nat → Nat → UInt8}
    {wout : List WriteRes} {rin : List ReadRes}
    (hrun : turn cfg stack wout rin s = .ok () s') :
    Progress cfg addr (n + 1) s' := by
  have hleft := h.sent_lt_iff.mp hsends.1
  rw [turn_eq] at hrun
  obtain ⟨⟨⟩, t, hsend, hcount⟩ := bind_eq_ok.mp hrun
  cases hcount
  have hnumbered := h.numbered_ready
  have hanswered := sendRequest_answered hnumbered.wf hsend
  rcases sendRequest_kept hnumbered s.world.seqid _ stack wout rin with
    ⟨t', hok, ht⟩ | ⟨e, t', hthrow, -⟩
  · cases hok.symm.trans hsend
    have hcounted := ht.update
      (f := fun l => { l with sent := l.sent + 1, onwire := l.onwire + 1 })
      rfl fun k => by
        simp only [Loader.acked, Loader.mk.injEq, true_and, and_true]
        grind
    rw [← h.louds_succ hleft, ← issued_succ] at hcounted
    refine ⟨hcounted, hleft, ?_⟩
    have hcredit := h.onwire_toNat hnotify hleft
    have hbatch := UInt64.lt_iff_toNat_lt.mp hsends.2
    have hgroups : cfg.notify.toNat * answered s ≤
        cfg.notify.toNat * answered t :=
      Nat.mul_le_mul_left _ (show answered s ≤ answered t from hanswered)
    show n + 1 ≤ cfg.notify.toNat * answered t + cfg.batch.toNat
    omega
  · cases hthrow.symm.trans hsend

theorem turn_throws (h : Progress cfg addr n s)
    {stack : Nat → Nat → UInt8} {wout : List WriteRes} {rin : List ReadRes}
    {e : Exn} (hrun : turn cfg stack wout rin s = .error e s') :
    SockExn e := by
  rw [turn_eq] at hrun
  rcases bind_eq_error.mp hrun with hsend | ⟨_, t, hsend, hcount⟩
  · rcases sendRequest_kept h.numbered_ready s.world.seqid _ stack wout rin
      with ⟨t, hok, -⟩ | ⟨e', t, hthrow, loud, hstop⟩
    · cases hok.symm.trans hsend
    · cases hthrow.symm.trans hsend
      exact Loading.sockExn hstop
  · cases hcount

/-- **An event** acknowledges some of the sets. -/
theorem event_kept (h : Progress cfg addr n s) {ev : IoEvent}
    (hrun : ev.call s = .ok () s') : Progress cfg addr n s' := by
  have hanswered := runIo_answered h.wf hrun
  rcases runIo_kept h.toReady ev.events ev.check ev.rin ev.wout with
    ⟨t, hok, ht⟩ | ⟨e, t, hthrow, -⟩
  · cases hok.symm.trans hrun
    refine ⟨ht, h.sent_le, Nat.le_trans h.unacked_le ?_⟩
    exact Nat.add_le_add_right (Nat.mul_le_mul_left _ hanswered) _
  · cases hthrow.symm.trans hrun

theorem events_kept (h : Progress cfg addr n s) {evs : List IoEvent}
    (hrun : runAll IoEvent.call evs s = .ok () s') :
    Progress cfg addr n s' :=
  runAll_reaches (P := fun _ t => Progress cfg addr n t) h
    (fun _ _ _ _ _ _ _ ht hcall => ht.event_kept hcall) hrun

theorem events_throw (h : Progress cfg addr n s) {evs : List IoEvent}
    {e : Exn} (hrun : runAll IoEvent.call evs s = .error e s') :
    SockExn e := by
  obtain ⟨past, ev, rest, u, rfl, hpast, hthrow⟩ := runAll_error evs hrun
  have hu := h.events_kept hpast
  rcases runIo_kept hu.toReady ev.events ev.check ev.rin ev.wout with
    ⟨t, hok, -⟩ | ⟨e', t, hthrow', hstop⟩
  · cases hok.symm.trans hthrow
  · cases hthrow'.symm.trans hthrow
    exact Loading.sockExn hstop

/-- What was acknowledged, as a number, when all groups fit into 64 bits. -/
theorem recv_toNat (h : Progress cfg addr n s) (hnotify : cfg.notify ≠ 0)
    (hfits : cfg.notify.toNat * louds cfg cfg.toload.toNat < 2 ^ 64) :
    s.world.recv.toNat = cfg.notify.toNat * answered s := by
  have hrecv : s.world.recv = cfg.notify * UInt64.ofNat (answered s) := by
    rw [h.world_eq]
    exact UInt64.zero_add _
  rw [hrecv]
  rcases Nat.lt_or_eq_of_le h.sent_le with hleft | heq
  · exact (h.acked_toNat hnotify hleft).1
  · have hle : cfg.notify.toNat * answered s < 2 ^ 64 := by
      refine Nat.lt_of_le_of_lt (Nat.mul_le_mul_left _ ?_) hfits
      rw [← heq]
      exact h.answered_le
    have hanswered : answered s < UInt64.size :=
      Nat.lt_of_le_of_lt (Nat.le_mul_of_pos_left _ (notify_pos hnotify)) hle
    rw [UInt64.toNat_mul, UInt64.toNat_ofNat_of_lt' hanswered]
    exact Nat.mod_eq_of_lt hle

/-- **The test that leaves the loop** says whether all responses are there. -/
theorem recv_le_iff (h : Progress cfg addr n s) (hnotify : cfg.notify ≠ 0)
    (hfits : cfg.notify.toNat * louds cfg cfg.toload.toNat < 2 ^ 64) :
    cfg.toload ≤ s.world.recv ↔ s.world.sent = cfg.toload ∧
      answered s = louds cfg cfg.toload.toNat := by
  have hpos := notify_pos hnotify
  rw [UInt64.le_iff_toNat_le, h.recv_toNat hnotify hfits,
    ← UInt64.toNat_inj, h.sent_toNat]
  constructor
  · intro hall
    have heq : n = cfg.toload.toNat := by
      rcases Nat.lt_or_eq_of_le h.sent_le with hleft | heq
      · have hle := mul_le_of_lt hleft h.answered_le
        omega
      · exact heq
    have hanswered := h.answered_le
    rw [heq] at hanswered
    exact ⟨heq, Nat.le_antisymm hanswered ((closed_le_iff hpos).mpr hall)⟩
  · rintro ⟨-, hall⟩
    exact (closed_le_iff hpos).mp (Nat.le_of_eq hall.symm)

/-- **Nothing is waited for in vain**: when the loader can neither send nor
leave, a loud set is unanswered. -/
theorem unanswered (h : Progress cfg addr n s) (hnotify : cfg.notify ≠ 0)
    (hfits : cfg.notify.toNat * louds cfg cfg.toload.toNat < 2 ^ 64)
    (hfull : ¬ Sends cfg s) (hrecv : ¬ cfg.toload ≤ s.world.recv) :
    answered s < louds cfg n := by
  have hpos := notify_pos hnotify
  rcases Nat.lt_or_eq_of_le h.sent_le with hleft | heq
  · have hwire : cfg.batch ≤ s.world.onwire := UInt64.not_lt.mp fun hlt =>
      hfull ⟨h.sent_lt_iff.mpr hleft, hlt⟩
    rw [UInt64.le_iff_toNat_le, h.onwire_toNat hnotify hleft] at hwire
    exact lt_closed hpos hleft (Nat.le_trans (notify_cases cfg).2 hwire)
  · rw [UInt64.le_iff_toNat_le, h.recv_toNat hnotify hfits] at hrecv
    rw [heq]
    exact Nat.lt_of_not_le (mt (closed_le_iff hpos).mp hrecv)

end Progress

end MemcacheLoad

end Mutated.Ports
