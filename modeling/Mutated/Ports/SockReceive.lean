import Mutated.Ports.SockRx

/-!
# Receiving, as small steps

One round of `rx` and a whole call are chains of `RxStep`s, or end in an
exception of a callback or of the kernel, and so are the calls of the interface
that receive.

## Main results

`rxTurn_cases` says what one round does, with the two facts about its end
that progress depends on, and `rx_cases` says that a call is a chain of
steps.
-/

namespace Mutated.Ports

open Mutated.Verified.Circular
open Mutated.Verified.Exec
open Relation (ReflTransGen)

namespace Sock

variable {W : Type} {R C : ℕ+}

/-! ## One round of receiving -/

/-- The socket after `xs` arrived. -/
def received (s : Sock W R C) (xs : List UInt8) : Sock W R C :=
  { s with
    rbuf := (s.rbuf.stored xs).committed xs.length
    trace := s.trace ++ [.recvd xs] }

theorem WF.received {s : Sock W R C} (h : s.WF) {xs : List UInt8}
    (hfit : xs.length ≤ s.rbuf.space) : (s.received xs).WF :=
  ⟨h.rxCbs, (h.rbuf.stored xs).committed hfit, h.txCbs, h.wbuf⟩

theorem received_toList {s : Sock W R C} (h : s.WF) {xs : List UInt8}
    (hfit : xs.length ≤ s.rbuf.space) :
    (s.received xs).rbuf.toList = s.rbuf.toList ++ xs := by
  have happend := Buffer.stored_committed_toList h.rbuf hfit
    (Nat.le_refl xs.length)
  rwa [List.take_length] at happend

theorem received_step {s : Sock W R C} (h : s.WF) {b : UInt8}
    {bs : List UInt8} (hfit : (b :: bs).length ≤ s.rbuf.space) :
    Queues.RxStep C s.addr s.view (s.received (b :: bs)).view := by
  have hused := h.rbuf.used_le
  have hspace : s.rbuf.space = C - s.rbuf.used := rfl
  have hstep : Queues.RxStep C s.addr _ _ := .recvd s.view b bs
    (by simp only [view, Buffer.length_toList]; omega)
  have hlist := received_toList h hfit
  simp only [view] at hstep ⊢
  rw [hlist]
  exact hstep

theorem rxFill_data {s : Sock W R C} (h : s.WF) {b : UInt8}
    {bs : List UInt8} (hfit : (b :: bs).length ≤ s.rbuf.space) :
    rxFill (.data b bs) s = .ok true (s.received (b :: bs)) := by
  have hpos : 0 < s.rbuf.space := Nat.lt_of_lt_of_le (Nat.succ_pos _) hfit
  have hprep := Buffer.queuePrep_ok h.rbuf hpos (Nat.le_refl _)
  have hfill := Buffer.fill_eq_stored h.rbuf hfit
  have hcommit := Buffer.queueCommit_committed (h.rbuf.stored (b :: bs))
    (Nat.succ_pos bs.length) hfit
  refine (bind_of_ok (zoom_of_ok hprep)).trans ?_
  show (if s.rbuf.space < (b :: bs).length then _ else _ :
    EStateM Exn (Sock W R C) Bool) s = _
  rw [if_neg (Nat.not_lt.mpr hfit)]
  refine (bind_of_ok (zoom_of_ok (modify_apply _ _))).trans ?_
  rw [hfill]
  refine (bind_of_ok (modify_apply _ _)).trans ?_
  exact bind_of_ok (zoom_of_ok hcommit)

theorem rxFill_blocked {s : Sock W R C} (h : s.WF) (hpos : 0 < s.rbuf.space) :
    rxFill (.error EAGAIN) s = .ok false { s with rxRdy := false } := by
  have hprep := Buffer.queuePrep_ok h.rbuf hpos (Nat.le_refl _)
  exact (bind_of_ok (zoom_of_ok hprep)).trans rfl

/-- The exceptions of the receive path that come from the kernel's answer or
from a receive ring without room. -/
inductive RxExn : Exn → Prop
  | full : RxExn (.invalidArgument "buffer::queue_prep: len = 0")
  | wire (errno : Errno) :
      RxExn (.systemError errno "Sock::rx: readv error")
  | long :
      RxExn (.runtimeError "Sock::rx: read returned more bytes than asked")

/-- Everything else `rxFill` can do is throw, before anything happened. -/
theorem rxFill_throws {s : Sock W R C} (h : s.WF) {r : ReadRes}
    (hdata : ∀ b bs, r = .data b bs → s.rbuf.space < (b :: bs).length)
    (hblock : r = .error EAGAIN → s.rbuf.space = 0) :
    ∃ e, rxFill r s = .error e s ∧ RxExn e := by
  rcases Nat.eq_zero_or_pos s.rbuf.space with hzero | hpos
  · have hprep : Buffer.queuePrep s.rbuf.space s.rbuf =
        .error (.invalidArgument "buffer::queue_prep: len = 0") s.rbuf := by
      rw [hzero]
      rfl
    exact ⟨_, (bind_of_ok rfl).trans (bind_of_error (zoom_of_error hprep)),
      .full⟩
  have hprep := Buffer.queuePrep_ok h.rbuf hpos (Nat.le_refl _)
  cases r with
  | data b bs =>
      refine ⟨_, (bind_of_ok (zoom_of_ok hprep)).trans ?_, .long⟩
      show (if s.rbuf.space < (b :: bs).length then _ else _ :
        EStateM Exn (Sock W R C) Bool) s = _
      rw [if_pos (hdata b bs rfl)]
      rfl
  | eof errno =>
      exact ⟨_, (bind_of_ok (zoom_of_ok hprep)).trans rfl, .wire errno⟩
  | error errno =>
      have hother : errno ≠ EAGAIN := by
        rintro rfl
        have := hblock rfl
        omega
      refine ⟨_, (bind_of_ok (zoom_of_ok hprep)).trans ?_, .wire errno⟩
      show (if errno = EAGAIN then _ else _ :
        EStateM Exn (Sock W R C) Bool) s = _
      rw [if_neg hother]
      rfl

/-- What a call of the receive path leaves alone. -/
def rxOuter (s : Sock W R C) := (s.txSide, s.nread)

/-- The outcome of dispatching the received bytes. -/
structure Dispatched (s s' : Sock W R C) : Prop where
  wf : s'.WF
  outer : s'.rxOuter = s.rxOuter
  chain : ReflTransGen (Queues.RxStep C s.addr) s.view s'.view
  settled : s.rxCbs.used < R → s'.view.Settled
  full : s.rxCbs.used = R → s'.view = s.view

/-- **Dispatching** works through the queue of operations unless the ring
that holds it is full, when the range-for visits nothing. -/
theorem rxDispatch_cases {s : Sock W R C} (h : s.WF) :
    (∃ s', rxDispatch s = .ok () s' ∧ Dispatched s s') ∨
    (∃ e s', rxDispatch s = .error e s' ∧ RxThrew s.view s.addr e s') := by
  have hvisited := Buffer.visited_eq h.rxCbs
  have hused := h.rxCbs.used_le
  rcases Nat.lt_or_ge s.rxCbs.used R with hlt | hge
  · rw [if_neg (by omega), ← List.drop_zero (l := s.rxCbs.slots)] at hvisited
    have hunfold : rxDispatch s = (rxLoop (s.rxCbs.slots.drop 0) 0 >>= fun d =>
        onRxCbs (Buffer.drop d)) s := by
      rw [← hvisited]
      rfl
    rw [hunfold]
    rcases rxLoop_cases s.rxCbs.used h (Nat.zero_add _) with
      ⟨d, t, hrun, hran⟩ | ⟨e, t, hrun, hthrew⟩
    · have hdrop := Buffer.drop_dropped hran.wf.rxCbs hran.le
      have hview : ({ t with rxCbs := t.rxCbs.dropped d } :
          Sock W R C).view = t.viewRx (t.rxCbs.toList.drop d) := by
        simp only [view, viewRx, Buffer.dropped_toList hran.le]
      refine .inl ⟨_, (bind_of_ok hrun).trans (zoom_of_ok hdrop), ?_, ?_,
        ?_, ?_, ?_⟩
      · exact ⟨hran.wf.rxCbs.dropped hran.le, hran.wf.rbuf, hran.wf.txCbs,
          hran.wf.wbuf⟩
      · exact congrArg (fun f => (f.1, f.2.1)) hran.frame
      · rw [hview]
        exact hran.chain
      · intro _
        rw [hview]
        exact hran.settled
      · intro hfull
        omega
    · exact .inr ⟨e, t, bind_of_error hrun, hthrew⟩
  · rw [if_pos (by omega)] at hvisited
    have hunfold : rxDispatch s = (rxLoop [] 0 >>= fun d =>
        onRxCbs (Buffer.drop d)) s := by
      rw [← hvisited]
      rfl
    rw [hunfold]
    exact .inl ⟨s, rfl, h, rfl, .refl, fun hlt => absurd hlt (by omega),
      fun _ => rfl⟩

/-- The ways one round of `rx` can return. -/
inductive RxTurned (s : Sock W R C) : ReadRes → Bool → Sock W R C → Prop
  | idle (r : ReadRes) (hops : s.rxCbs.used = 0) : RxTurned s r false s
  | blocked (hops : 0 < s.rxCbs.used) :
      RxTurned s (.error EAGAIN) false { s with rxRdy := false }
  | ran (b : UInt8) (bs : List UInt8) (s' : Sock W R C)
      (hops : 0 < s.rxCbs.used) (hfit : (b :: bs).length ≤ s.rbuf.space)
      (hran : Dispatched (s.received (b :: bs)) s') :
      RxTurned s (.data b bs) true s'

/-- A call of the receive path that threw: a callback did, or the kernel's
answer made it. -/
def RxFailed (q : Queues W) (addr : Nat) (e : Exn) (s' : Sock W R C) : Prop :=
  RxThrew q addr e s' ∨
    ∃ c, ReflTransGen (Queues.RxStep C addr) q c ∧ RxExn e ∧
      s'.trace = c.trace ∧ s'.world = c.world

private theorem RxFailed.prepend {q q' : Queues W} {addr : Nat} {e : Exn}
    {s' : Sock W R C} (hchain : ReflTransGen (Queues.RxStep C addr) q q')
    (h : RxFailed q' addr e s') : RxFailed q addr e s' := by
  rcases h with hthrew | ⟨c, hrest, hexn⟩
  · exact .inl (hthrew.prepend hchain)
  · exact .inr ⟨c, hchain.trans hrest, hexn⟩

/-- **What one round of `rx` does.** -/
theorem rxTurn_cases {s : Sock W R C} (h : s.WF) (r : ReadRes) :
    (∃ go s', rxTurn r s = .ok go s' ∧ RxTurned s r go s') ∨
    (∃ e s', rxTurn r s = .error e s' ∧ RxFailed s.view s.addr e s') := by
  have hunfold : rxTurn r s = (if s.rxCbs.items = 0 then pure false else
      rxFill r >>= fun go => if go then (rxDispatch >>= fun _ => pure true)
        else pure false : EStateM Exn (Sock W R C) Bool) s := rfl
  by_cases hempty : s.rxCbs.items = 0
  · rw [hunfold, if_pos hempty]
    exact .inl ⟨false, s, rfl, .idle r hempty⟩
  rw [hunfold, if_neg hempty]
  have hops : 0 < s.rxCbs.used := Nat.pos_of_ne_zero hempty
  by_cases hdata : ∃ b bs, r = .data b bs ∧ (b :: bs).length ≤ s.rbuf.space
  · obtain ⟨b, bs, rfl, hfit⟩ := hdata
    have hstep := received_step h hfit
    have hgo := bind_of_ok (f := fun go => if go then
      (rxDispatch >>= fun _ => pure true) else pure false) (rxFill_data h hfit)
    rcases rxDispatch_cases (h.received hfit) with
      ⟨s', hrun, hran⟩ | ⟨e, s', hrun, hthrew⟩
    · exact .inl ⟨true, s', hgo.trans (bind_of_ok hrun),
        .ran b bs s' hops hfit hran⟩
    · exact .inr ⟨e, s', hgo.trans (bind_of_error hrun),
        .inl (hthrew.prepend (.single hstep))⟩
  by_cases hblock : r = .error EAGAIN ∧ 0 < s.rbuf.space
  · obtain ⟨rfl, hpos⟩ := hblock
    exact .inl ⟨false, _, (bind_of_ok (rxFill_blocked h hpos)).trans rfl,
      .blocked hops⟩
  obtain ⟨e, hfill, hexn⟩ := rxFill_throws h (r := r)
    (fun b bs hr => Nat.lt_of_not_le fun hfit => hdata ⟨b, bs, hr, hfit⟩)
    (fun hr => Nat.eq_zero_of_not_pos fun hpos => hblock ⟨hr, hpos⟩)
  exact .inr ⟨e, s, bind_of_error hfill, .inr ⟨_, .refl, hexn, rfl, rfl⟩⟩

/-! ## A whole call -/

/-- One round is a chain of small steps of the queues. -/
theorem RxTurned.spec {s s' : Sock W R C} {r : ReadRes} {go : Bool}
    (hturn : RxTurned s r go s') (h : s.WF) :
    s'.WF ∧ s'.rxOuter = s.rxOuter ∧
      ReflTransGen (Queues.RxStep C s.addr) s.view s'.view := by
  cases hturn with
  | idle r hops => exact ⟨h, rfl, .refl⟩
  | blocked hops => exact ⟨⟨h.rxCbs, h.rbuf, h.txCbs, h.wbuf⟩, rfl, .refl⟩
  | ran b bs s' hops hfit hran =>
      exact ⟨hran.wf, hran.outer,
        ReflTransGen.head (received_step h hfit) hran.chain⟩

theorem addr_eq_of_outer {s s' : Sock W R C} (h : s'.rxOuter = s.rxOuter) :
    s'.addr = s.addr := congrArg (fun t => t.1.1) h

/-- **Receiving is a chain of small steps**, up to the exception when there
is one. -/
theorem rx_cases (rin : List ReadRes) : ∀ {s : Sock W R C}, s.WF →
    (∃ s', rx rin s = .ok () s' ∧ s'.WF ∧ s'.rxOuter = s.rxOuter ∧
      ReflTransGen (Queues.RxStep C s.addr) s.view s'.view) ∨
    (∃ e s', rx rin s = .error e s' ∧ RxFailed s.view s.addr e s') := by
  induction rin with
  | nil =>
      intro s h
      rcases rxTurn_cases h (.error EAGAIN) with
        ⟨go, s', hrun, hturn⟩ | ⟨e, s', hrun, hfailed⟩
      · exact .inl ⟨s', (bind_of_ok hrun).trans rfl, hturn.spec h⟩
      · exact .inr ⟨e, s', bind_of_error hrun, hfailed⟩
  | cons r rs ih =>
      intro s h
      rcases rxTurn_cases h r with
        ⟨go, t, hrun, hturn⟩ | ⟨e, t, hrun, hfailed⟩
      · obtain ⟨hwf, houter, hchain⟩ := hturn.spec h
        have haddr := addr_eq_of_outer houter
        cases go with
        | false =>
            exact .inl ⟨t, (bind_of_ok hrun).trans rfl, hwf, houter, hchain⟩
        | true =>
            rcases ih hwf with
              ⟨s', hrest, hwf', houter', hchain'⟩ | ⟨e, s', hrest, hfailed⟩
            · rw [haddr] at hchain'
              exact .inl ⟨s', (bind_of_ok hrun).trans hrest, hwf',
                houter'.trans houter, hchain.trans hchain'⟩
            · rw [haddr] at hfailed
              exact .inr ⟨e, s', (bind_of_ok hrun).trans hrest,
                hfailed.prepend hchain⟩
      · exact .inr ⟨e, t, bind_of_error hrun, hfailed⟩

/-! ## The calls of the interface -/

/-- The socket after `op` was queued. -/
def enqueued (s : Sock W R C) (op : IORx W) : Sock W R C :=
  { s with
    rxCbs := (s.rxCbs.stored [{ op with serial := s.nread }]).committed 1
    nread := s.nread + 1 }

theorem WF.enqueued {s : Sock W R C} (h : s.WF) (hroom : 0 < s.rxCbs.space)
    (op : IORx W) : (s.enqueued op).WF :=
  ⟨(h.rxCbs.stored _).committed hroom, h.rbuf, h.txCbs, h.wbuf⟩

theorem enqueued_view {s : Sock W R C} (h : s.WF) (hroom : 0 < s.rxCbs.space)
    (op : IORx W) : (s.enqueued op).view = { s.view with
      rxCbs := s.rxCbs.toList ++ [{ op with serial := s.nread }] } := by
  have happend := Buffer.stored_committed_toList h.rxCbs
    (show [{ op with serial := s.nread }].length ≤ s.rxCbs.space from hroom)
    (Nat.le_refl 1)
  simp only [view, enqueued]
  rw [happend]
  rfl

/-- **`read`** queues the operation, and receives when the socket is ready. -/
theorem read_ok {s : Sock W R C} (h : s.WF) (hroom : 0 < s.rxCbs.space)
    (op : IORx W) (rin : List ReadRes) :
    read op rin s =
      (if s.rxRdy then rx rin else pure ()) (s.enqueued op) := by
  have htail := h.rxCbs.tail_lt
  have hlen : s.rxCbs.queueLen 1 = 1 := by
    unfold Buffer.queueLen
    omega
  have hqueue := Buffer.queue_ok h.rxCbs Nat.one_pos hroom
  have hblit : scatter R s.rxCbs.buf s.rxCbs.tail
      [{ op with serial := s.nread }] =
      blit s.rxCbs.buf s.rxCbs.tail [{ op with serial := s.nread }] :=
    scatter_of_le (by simp only [List.length_singleton]; omega)
  rw [hlen] at hqueue
  refine (bind_of_ok rfl).trans ((bind_of_ok (zoom_of_ok hqueue)).trans ?_)
  simp only [enqueued, Buffer.stored, Buffer.committed, hblit]
  rfl

/-- With no slot left `read` throws and changes nothing. -/
theorem read_throws {s : Sock W R C} (hfull : s.rxCbs.space = 0)
    (op : IORx W) (rin : List ReadRes) :
    ∃ e, read op rin s = .error e s ∧ BufferExn e := by
  obtain ⟨e, hqueue⟩ := Buffer.queue_throws
    (show 1 = 0 ∨ s.rxCbs.space = 0 from .inr hfull)
  exact ⟨e, (bind_of_ok rfl).trans (bind_of_error (zoom_of_error hqueue)),
    (Buffer.queue_throws_only 1).of_error hqueue⟩

/-- `run_io` handles the input bit first, and then the output bit. -/
theorem runIo_eq (events : UInt32) (check : ConnCheck) (rin : List ReadRes)
    (wout : List WriteRes) (s : Sock W R C) :
    runIo events check rin wout s =
      ((if events &&& EPOLLIN ≠ 0 then runIn rin else pure ()) >>=
        fun _ => if events &&& EPOLLOUT ≠ 0 then runOut check wout
          else pure () : EStateM Exn (Sock W R C) Unit) s := by
  unfold runIo
  split <;> rfl

/-- An input event makes the socket ready and receives. -/
theorem runIo_in (s : Sock W R C) (check : ConnCheck) (rin : List ReadRes)
    (wout : List WriteRes) :
    runIo EPOLLIN check rin wout s = rx rin { s with rxRdy := true } := by
  show (rx rin >>= fun _ => pure ()) { s with rxRdy := true } = _
  cases hrx : rx rin ({ s with rxRdy := true } : Sock W R C) with
  | ok _ t => exact bind_of_ok hrx
  | error e t => exact bind_of_error hrx

end Sock

end Mutated.Ports
