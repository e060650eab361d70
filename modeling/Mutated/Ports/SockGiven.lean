import Mutated.Ports.SockCounts

/-!
# What a callback is given

`Given` is the invariant: a header callback is given all bytes of its header,
or `- EIO`.  Between two calls of the interface the body callbacks of the
pending operations are `Unread` as well: none was called.
-/

namespace Mutated.Ports

open Mutated.Verified.Exec
open Relation (ReflTransGen)

variable {W : Type} {R C : ℕ+}

/-! ## What a callback is given -/

/-- A header callback is given the bytes of its header, or `- EIO`. -/
def Event.Proper (issued : List (IORx W)) : Event → Prop
  | .rxcb k .hdr segs status _ =>
      (status = 0 ∧ ∃ orig, issued[k]? = some orig ∧
        (Buffer.joinSegs segs).length = orig.hdrlen) ∨
      status = - EIO ∧ segs = ([], none)
  | _ => True

/-- Callbacks were given what they should, and the pending operations have
their whole header to come. -/
structure Given (issued : List (IORx W)) (q : Queues W) : Prop where
  whole : ∀ op ∈ q.rxCbs, 0 < op.hdrlen → op.hdrcb ≠ none →
    ∃ orig, issued[op.serial]? = some orig ∧ op.hdrlen = orig.hdrlen
  proper : ∀ e ∈ q.trace, e.Proper issued

namespace Given

variable {issued : List (IORx W)} {q q' : Queues W}

/-- What is told is told of operations that were issued. -/
theorem grow (h : Given issued q) (op : IORx W) :
    Given (issued ++ [op]) q := by
  have hold : ∀ {k : Nat} {orig : IORx W}, issued[k]? = some orig →
      (issued ++ [op])[k]? = some orig := by
    intro k orig horig
    have hk := (List.getElem?_eq_some_iff.mp horig).1
    rwa [List.getElem?_append_left hk]
  constructor
  · intro op' hop' hpos hcb
    obtain ⟨orig, horig, hlen⟩ := h.whole op' hop' hpos hcb
    exact ⟨orig, hold horig, hlen⟩
  · intro e he
    have hproper := h.proper e he
    cases e with
    | rxcb k phase segs status ret =>
        cases phase with
        | hdr =>
            rcases hproper with ⟨hok, orig, horig, hlen⟩ | hcancelled
            · exact .inl ⟨hok, orig, hold horig, hlen⟩
            · exact .inr hcancelled
        | body => trivial
    | _ => trivial

/-- Other events tell nothing. -/
theorem extend (h : Given issued q) {es : List Event}
    (hops : ∀ op ∈ q'.rxCbs, op ∈ q.rxCbs)
    (htrace : q'.trace = q.trace ++ es) (hes : ∀ e ∈ es, e.Proper issued) :
    Given issued q' := by
  refine ⟨fun op hop => h.whole op (hops op hop), ?_⟩
  rw [htrace]
  intro e he
  rcases List.mem_append.mp he with hold | hnew
  · exact h.proper e hold
  · exact hes e hnew

/-- The first operation is replaced by one that still waits for its whole
header, if at all. -/
private theorem replace (h : Given issued q) {op op' : IORx W}
    {ops : List (IORx W)} {es : List Event} (hops : q.rxCbs = op :: ops)
    (hops' : q'.rxCbs = op' :: ops)
    (hop' : 0 < op'.hdrlen → op'.hdrcb = none)
    (htrace : q'.trace = q.trace ++ es) (hes : ∀ e ∈ es, e.Proper issued) :
    Given issued q' := by
  constructor
  · rw [hops']
    intro op'' hop'' hpos hcb
    rcases List.mem_cons.mp hop'' with rfl | hold
    · exact absurd (hop' hpos) hcb
    · exact h.whole op'' (by rw [hops]; exact .tail _ hold) hpos hcb
  · rw [htrace]
    intro e he
    rcases List.mem_append.mp he with hold | hnew
    · exact h.proper e hold
    · exact hes e hnew

theorem step_rx {addr : Nat} (h : Given issued q)
    (hstep : Queues.RxStep C addr q q') : Given issued q' := by
  cases hstep with
  | recvd b bs hfit =>
      exact h.extend (fun _ hop => hop) rfl fun e he => by
        rw [List.mem_singleton.mp he]
        trivial
  | skip op ops n hops hcb hlen hneed =>
      refine h.replace hops rfl ?_ (List.append_nil _).symm
        fun e he => absurd he List.not_mem_nil
      intro hpos
      by_cases hhdr : 0 < op.hdrlen
      · rw [IORx.cb, if_pos hhdr] at hcb
        simp only [IORx.skip, if_pos hhdr]
        exact hcb
      · simp only [IORx.skip, if_neg hhdr] at hpos
        exact absurd hpos hhdr
  | fire op ops cb r w hops hcb hpos hneed hcall =>
      refine h.replace hops rfl ?_ rfl ?_
      · intro hpos'
        by_cases hhdr : 0 < op.hdrlen
        · simp only [IORx.fire, if_pos hhdr] at hpos'
          exact absurd hpos' (Nat.lt_irrefl 0)
        · simp only [IORx.fire, if_neg hhdr] at hpos'
          exact absurd hpos' hhdr
      · intro e he
        rw [List.mem_singleton.mp he]
        by_cases hhdr : 0 < op.hdrlen
        · have hsome : op.hdrcb ≠ none := by
            rw [IORx.cb, if_pos hhdr] at hcb
            rw [hcb]
            exact Option.some_ne_none cb
          obtain ⟨orig, horig, hwhole⟩ := h.whole op
            (by rw [hops]; exact List.mem_cons_self) hhdr hsome
          rw [IORx.need, if_pos hhdr] at hneed ⊢
          rw [IORx.phase, if_pos hhdr]
          refine .inl ⟨rfl, orig, horig, ?_⟩
          rw [joinSegs_segsAt, List.length_take, Nat.min_eq_left hneed,
            hwhole]
        · rw [IORx.phase, if_neg hhdr]
          trivial
  | finish op ops hops hneed =>
      exact h.extend (fun op' hop' => by
        rw [hops]
        exact .tail _ hop') (List.append_nil _).symm
        fun e he => absurd he List.not_mem_nil

theorem step_tx {addr : Nat} (h : Given issued q)
    (hstep : Queues.TxStep R addr q q') : Given issued q' := by
  cases hstep with
  | accepted k hcredit hbusy hk =>
      exact h.extend (fun _ hop => hop) rfl fun e he => by
        rw [List.mem_singleton.mp he]
        trivial
  | fire c pt pts f w hcredit hpts hroom hlen hcb hcall =>
      refine h.extend (fun _ hop => hop) rfl fun e he => ?_
      rcases List.mem_cons.mp he with rfl | hlast
      · trivial
      · rw [List.mem_singleton.mp hlast]
        trivial
  | pay c pt pts hcredit hpts hroom hlen =>
      refine h.extend (fun _ hop => hop) rfl fun e he => ?_
      rcases List.mem_cons.mp he with rfl | hlast
      · trivial
      · rw [List.mem_singleton.mp hlast]
        trivial
  | spent c hcredit hpts =>
      exact h.extend (fun _ hop => hop) (List.append_nil _).symm
        fun e he => absurd he List.not_mem_nil
  | overrun c hcredit hfull =>
      exact h.extend (fun _ hop => hop) (List.append_nil _).symm
        fun e he => absurd he List.not_mem_nil

theorem queued (h : Given issued q) (op : IORx W) :
    Given (issued ++ [op])
      (q.queued [{ op with serial := issued.length }]) := by
  refine ⟨?_, (h.grow op).proper⟩
  intro op' hop' hpos hcb
  rcases List.mem_append.mp hop' with hold | hnew
  · exact (h.grow op).whole op' hold hpos hcb
  · rw [List.mem_singleton.mp hnew]
    exact ⟨op, by simp, rfl⟩

theorem steady {addr : Nat} : Steady R C addr (Given (W := W) issued) :=
  ⟨fun _ h hstep => h.step_rx hstep, fun h hstep => h.step_tx hstep⟩

end Given

/-! ## Between two calls -/

/-- No pending operation called its body callback. -/
def Queues.Unread (q : Queues W) : Prop :=
  ∀ op ∈ q.rxCbs, timesCalled q.trace op.serial .body = 0

section Unread

variable {issued : List (IORx W)} {q q' : Queues W} {addr : Nat}

theorem Queues.Unread.congr (h : q.Unread) (hops : q'.rxCbs = q.rxCbs)
    (hfired : ∀ k phase,
      timesCalled q'.trace k phase = timesCalled q.trace k phase) :
    q'.Unread := by
  intro op hop
  rw [hops] at hop
  rw [hfired]
  exact h op hop

/-- An operation that called its body callback needs nothing more, so it is
not left in front. -/
theorem Counted.unread (h : Counted issued q) (hsettled : q.Settled) :
    q.Unread := by
  intro op hop
  cases hops : q.rxCbs with
  | nil =>
      rw [hops] at hop
      exact absurd hop List.not_mem_nil
  | cons first ops =>
      rw [hops] at hop
      rcases List.mem_cons.mp hop with rfl | hrest
      · have hneed := hsettled op (by rw [hops]; rfl)
        rcases h.head op (by rw [hops]; rfl) with hzero | ⟨-, hdone⟩
        · exact hzero
        · omega
      · exact h.rest op (by rw [hops]; exact hrest)

/-- **Receiving** leaves no operation pending that called its body
callback. -/
private theorem rx_unread (rin : List ReadRes) : ∀ {s s' : Sock W R C},
    s.WF → Counted issued s.view → s.view.Unread →
    Sock.rx rin s = .ok () s' → s'.view.Unread := by
  have hstop : ∀ {s s' : Sock W R C} {r : ReadRes},
      Sock.RxTurned s r false s' → s.view.Unread → s'.view.Unread := by
    intro s s' r hturn hunread
    cases hturn with
    | idle => exact hunread
    | blocked => exact hunread
  induction rin with
  | nil =>
      intro s s' h hcounted hunread hrun
      rcases rx_turned h hrun with hturn | ⟨r, rs, t, hnil, -⟩
      · exact hstop hturn hunread
      · cases hnil
  | cons r rs ih =>
      intro s s' h hcounted hunread hrun
      rcases rx_turned h hrun with hturn | ⟨r', rs', t, hcons, hturn, hrest⟩
      · exact hstop hturn hunread
      · cases hcons
        cases hturn with
        | ran b bs t hops hfit hran =>
            have hrecv : Counted issued (s.received (b :: bs)).view :=
              hcounted.step_rx (Sock.received_step h hfit)
            have hcounted' : Counted issued t.view :=
              ((Counted.steady (R := R)).rx_chain hran.chain rfl hrecv).2
            refine ih hran.wf hcounted' ?_ hrest
            rcases Nat.lt_or_ge s.rxCbs.used R with hroom | hfull
            · exact hcounted'.unread (hran.settled hroom)
            · have hused := h.rxCbs.used_le
              rw [hran.full (show s.rxCbs.used = R by omega)]
              exact hunread.congr rfl (by simp [Sock.received, Sock.view,
                timesCalled])

/-- Transmitting does not touch the operations, and calls none of their
callbacks. -/
private theorem tx_unread (hchain : ReflTransGen (Queues.TxStep R addr) q q')
    (h : q.Unread) : q'.Unread := by
  refine invariant_of_step (P := Queues.Unread) ?_ hchain h
  intro q q' hstep hq
  cases hstep with
  | accepted k hcredit hbusy hk => exact hq.congr rfl (by simp [timesCalled])
  | fire c pt pts f w hcredit hpts hroom hlen hcb hcall =>
      exact hq.congr rfl (by simp [timesCalled])
  | pay c pt pts hcredit hpts hroom hlen =>
      exact hq.congr rfl (by simp [timesCalled])
  | spent c hcredit hpts => exact hq
  | overrun c hcredit hfull => exact hq

private theorem runIo_unread {s s' : Sock W R C} (h : s.WF)
    (hcounted : Counted issued s.view) (hunread : s.view.Unread)
    {events : UInt32} {check : ConnCheck} {rin : List ReadRes}
    {wout : List WriteRes}
    (hrun : Sock.runIo events check rin wout s = .ok () s') :
    s'.view.Unread := by
  rw [Sock.runIo_eq] at hrun
  obtain ⟨⟨⟩, t, hin, hout⟩ := bind_eq_ok.mp hrun
  have ht : t.WF ∧ t.view.Unread := by
    by_cases hbit : events &&& EPOLLIN ≠ 0
    · rw [if_pos hbit] at hin
      have hwf : ({ s with rxRdy := true } : Sock W R C).WF :=
        ⟨h.rxCbs, h.rbuf, h.txCbs, h.wbuf⟩
      have hrx : Sock.rx rin { s with rxRdy := true } = .ok () t := hin
      refine ⟨?_, rx_unread rin hwf hcounted hunread hrx⟩
      rcases Sock.rx_cases rin hwf with ⟨u, hok, hu, -⟩ | ⟨e, u, hthrow, -⟩
      · cases hok.symm.trans hrx
        exact hu
      · cases hthrow.symm.trans hrx
    · rw [if_neg hbit] at hin
      cases hin
      exact ⟨h, hunread⟩
  by_cases hbit : events &&& EPOLLOUT ≠ 0
  · rw [if_pos hbit] at hout
    rcases Sock.runOut_cases ht.1 check wout with
      ⟨u, hok, hran⟩ | ⟨e, u, hthrow, -⟩
    · cases hok.symm.trans hout
      exact tx_unread hran.chain ht.2
    · cases hthrow.symm.trans hout
  · rw [if_neg hbit] at hout
    cases hout
    exact ht.2

/-- The socket between two calls, once the operations `issued` were queued. -/
structure Tallied (addr : Nat) (issued : List (IORx W)) (s : Sock W R C) :
    Prop extends Holds addr (Counted issued) s where
  nread : s.nread = issued.length
  unread : s.view.Unread
  given : Given issued s.view

theorem Tallied.init (addr : Nat) (rmem wmem : Nat → UInt8) (w : W) :
    Tallied addr [] (Sock.init addr rmem wmem w : Sock W R C) :=
  ⟨⟨Sock.init_wf _ _ _ _, rfl, .init rfl rfl⟩, rfl,
    fun _ h => absurd h List.not_mem_nil,
    fun _ h => absurd h List.not_mem_nil,
    fun _ h => absurd h List.not_mem_nil⟩

/-- Writing does not count. -/
private theorem Tallied.written {s s' : Sock W R C}
    (h : Tallied addr issued s) {n : Nat}
    {x : EStateM Exn (Sock W R C) Unit} (hx : Appends n x)
    (hrun : x s = .ok () s') : Tallied addr issued s' := by
  obtain ⟨b, bytes, rfl, hb, -, -⟩ := hx _ _ h.wf hrun
  exact ⟨⟨⟨h.wf.rxCbs, h.wf.rbuf, h.wf.txCbs, hb⟩, h.addr,
    h.holds.congr rfl fun _ _ => rfl⟩, h.nread,
    h.unread.congr rfl fun _ _ => rfl, h.given.whole, h.given.proper⟩

/-- Inserting a point does not count. -/
private theorem Tallied.pointed {s s' : Sock W R C}
    (h : Tallied addr issued s) {cb : Option (TxCB W)} {data : Option Nat}
    (hrun : Sock.writeCbPoint cb data s = .ok () s') :
    Tallied addr issued s' := by
  rcases Sock.writeCbPoint_cases h.wf cb data with
    ⟨hroom, hok⟩ | ⟨e, hthrow, -⟩
  · cases hok.symm.trans hrun
    have hfired : ∀ k phase, timesCalled (s.pointed cb data).trace k phase =
        timesCalled s.trace k phase := by
      intro k phase
      simp only [Sock.pointed, timesCalled_append]
      split <;> simp [timesCalled]
    refine ⟨⟨h.wf.pointed hroom cb data, h.addr, h.holds.congr rfl hfired⟩,
      h.nread, h.unread.congr rfl hfired, h.given.whole, ?_⟩
    intro e he
    have he : e ∈ (s.trace ++ if s.txCbs.used = 0 then []
        else [.sub s.wbuf.used s.txOut]) ++ [.point s.npoint s.wbuf.used] := he
    rcases List.mem_append.mp he with hold | hlast
    · rcases List.mem_append.mp hold with hold | hsub
      · exact h.given.proper e hold
      · split at hsub
        · exact absurd hsub List.not_mem_nil
        · rw [List.mem_singleton.mp hsub]
          trivial
    · rw [List.mem_singleton.mp hlast]
      trivial
  · cases hthrow.symm.trans hrun

/-- Queueing an operation counts. -/
private theorem Tallied.read {s s' : Sock W R C}
    (h : Tallied addr issued s) {op : IORx W} {rin : List ReadRes}
    (hrun : Sock.read op rin s = .ok () s') :
    Tallied addr (issued ++ [op]) s' := by
  have hop : Counted issued s.view → Counted (issued ++ [op])
      (s.view.queued [{ op with serial := s.nread }]) := by
    rw [h.nread]
    exact fun hq => hq.queued op
  rcases read_steady Counted.steady h.toHolds hop rin with
    ⟨t, hok, ht, hnread, -⟩ | ⟨e, t, hthrow, -⟩
  · cases hok.symm.trans hrun
    have hgiven : Given (issued ++ [op]) s'.view := by
      rcases read_steady Given.steady (⟨h.wf, h.addr, h.given⟩ :
          Holds addr (Given issued) s) (fun hq => by
            rw [h.nread]
            exact hq.queued op) rin with
        ⟨u, hok', hu, -⟩ | ⟨e, u, hthrow, -⟩
      · cases hok'.symm.trans hok
        exact hu.holds
      · cases hthrow.symm.trans hok
    refine ⟨ht, ?_, ?_, hgiven⟩
    · rw [hnread, h.nread, List.length_append, List.length_singleton]
    rcases Nat.eq_zero_or_pos s.rxCbs.space with hfull | hroom
    · obtain ⟨e, hthrow, -⟩ := Sock.read_throws hfull op rin
      cases hthrow.symm.trans hok
    have hview := Sock.enqueued_view h.wf hroom op
    have hunread : (s.enqueued op).view.Unread := by
      rw [hview]
      intro op' hop'
      rcases List.mem_append.mp hop' with hold | hnew
      · exact h.unread op' hold
      · rw [List.mem_singleton.mp hnew]
        exact h.holds.fresh _ _ (Nat.le_of_eq h.nread.symm)
    rw [Sock.read_ok h.wf hroom] at hok
    cases hrdy : s.rxRdy with
    | false =>
        rw [hrdy] at hok
        cases hok
        exact hunread
    | true =>
        rw [hrdy] at hok
        exact rx_unread rin (h.wf.enqueued hroom op)
          (by rw [hview]; exact hop h.holds) hunread hok
  · cases hthrow.symm.trans hrun

/-- **A call counts as it should.** -/
theorem Tallied.call {s s' : Sock W R C} (h : Tallied addr issued s)
    (c : SockCall W) (hrun : c.call s = .ok () s') :
    Tallied addr (issued ++ c.queues) s' := by
  have hsame : c.queues = [] → Tallied addr issued s' →
      Tallied addr (issued ++ c.queues) s' := by
    intro hnone ht
    rw [hnone, List.append_nil]
    exact ht
  cases c with
  | read op rin => exact h.read hrun
  | write data => exact hsame rfl (h.written (Sock.write_appends data) hrun)
  | writeEmplace obj stack =>
      exact hsame rfl (h.written (Sock.writeEmplace_appends obj stack) hrun)
  | writeRoom m n =>
      exact hsame rfl (h.written (Sock.prepareCommit_appends m n) hrun)
  | writeCbPoint cb data => exact hsame rfl (h.pointed hrun)
  | tryTx wout =>
      refine hsame rfl ?_
      rcases tryTx_steady Counted.steady h.toHolds wout with
        ⟨t, hok, ht⟩ | ⟨e, t, hthrow, -⟩
      · cases hok.symm.trans hrun
        rcases Sock.tryTx_cases h.wf wout with
          ⟨u, hok', hran⟩ | ⟨e, u, hthrow, -⟩
        · cases hok'.symm.trans hrun
          exact ⟨ht.toHolds, ht.nread.trans h.nread,
            tx_unread hran.chain h.unread,
            (Given.steady (C := C)).tx_chain hran.chain h.given⟩
        · cases hthrow.symm.trans hrun
      · cases hthrow.symm.trans hrun
  | runIo events check rin wout =>
      refine hsame rfl ?_
      rcases runIo_steady Counted.steady h.toHolds events check rin wout with
        ⟨t, hok, ht⟩ | ⟨e, t, hthrow, -⟩
      · cases hok.symm.trans hrun
        refine ⟨ht.toHolds, ht.nread.trans h.nread,
          runIo_unread h.wf h.holds h.unread hrun, ?_⟩
        rcases runIo_steady Given.steady (⟨h.wf, h.addr, h.given⟩ :
            Holds addr (Given issued) s) events check rin wout with
          ⟨u, hok', hu⟩ | ⟨e, u, hthrow, -⟩
        · cases hok'.symm.trans hok
          exact hu.holds
        · cases hthrow.symm.trans hok
      · cases hthrow.symm.trans hrun

/-- **A run counts as it should.** -/
theorem run_tallied (calls : List (SockCall W)) {s s' : Sock W R C}
    (h : Tallied addr [] s) (hrun : runAll SockCall.call calls s = .ok () s') :
    Tallied addr (calls.flatMap SockCall.queues) s' := by
  refine runAll_invariant (P := fun past t =>
    Tallied addr (past.flatMap SockCall.queues) t) ?_ calls [] h hrun
  intro past c u v hu hcall
  rw [List.flatMap_append, List.flatMap_singleton]
  exact hu.call c hcall

end Unread

end Mutated.Ports
