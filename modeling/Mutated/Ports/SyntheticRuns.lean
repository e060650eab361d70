import Mutated.Ports.Synthetic

/-!
# Runs of the synthetic generator

`_send_request` writes a packet, submits it, and in send-only mode reports the
completion at once.  What all small steps of a connection carry on, a run of
calls carries on; `A` is what must hold whenever a request is made.
-/

namespace Mutated.Ports.Synthetic

open Mutated.Verified.Circular
open Mutated.Verified.Exec

variable {K : Type} {R C : ℕ+} {cfg : Config} {clk : Nat → Nat}

/-! ## `_send_request` -/

/-- With one segment there is room for everything in it. -/
private theorem writePrepare_none {W : Type} {s t : Sock W R C}
    {len p1 n1 : Nat} (h : Sock.writePrepare len s = .ok (p1, none, n1) t) :
    n1 = len := by
  unfold Sock.writePrepare Sock.onWbuf zoom Buffer.queuePrep at h
  repeat' split at h
  all_goals grind

/-- A packet throws what a buffer throws: where the ring does not end inside
of it there is one segment. -/
theorem writePacket_writes {W : Type} (pkt : ReqPkt) (stack : Nat → UInt8) :
    Writes (writePacket pkt stack : EStateM Exn (Sock W R C) Unit) := by
  constructor
  · intro s t e h
    rcases bind_eq_error.mp h with hprep | ⟨⟨p1, p2, n1⟩, u, hprep, hrest⟩
    · have hthrows : Throws BufferExn (Sock.writePrepare reqPktSize :
          EStateM Exn (Sock W R C) _) :=
        throws_zoom (Buffer.queuePrep_throws_only _)
      exact hthrows.of_error hprep
    · dsimp only at hrest
      have hcommit : Throws BufferExn (Sock.writeCommit reqPktSize :
          EStateM Exn (Sock W R C) Unit) :=
        throws_zoom (Buffer.queueCommit_throws_only _)
      by_cases hwhole : n1 = reqPktSize
      · rw [if_pos hwhole] at hrest
        exact (throws_bind (throws_zoom (throws_modify _))
          fun _ => hcommit).of_error hrest
      · rw [if_neg hwhole] at hrest
        cases p2 with
        | some p2 =>
            exact (throws_bind (throws_zoom (throws_modify _))
              fun _ => hcommit).of_error hrest
        | none => exact absurd (writePrepare_none hprep) hwhole
  · refine keeps_bind (keeps_onWbuf _) ?_
    rintro ⟨p1, p2, n1⟩
    dsimp only
    by_cases hwhole : n1 = reqPktSize
    · rw [if_pos hwhole]
      exact keeps_bind (keeps_onWbuf _) fun _ => keeps_onWbuf _
    · rw [if_neg hwhole]
      cases p2 with
      | none => exact fun _ => rfl
      | some p2 => exact keeps_bind (keeps_onWbuf _) fun _ => keeps_onWbuf _

/-- **Faking a response** calls the callback of the request, and counts. -/
theorem fakeResponse_some {p : Nat} {cb : RequestCB (State K)}
    {s : Conn UInt64 (State K) R C}
    (hcb : (s.world.requests.buf p).cb = some cb) (measure : Bool) :
    Sock.onWorld (fakeResponse p measure) s =
      .ok () { s with world := { s.world with
        client := { cb 0 0 0 0 measure s.world.client with
          faked := s.world.client.faked + 1 } } } := by
  refine zoom_of_ok ((bind_of_ok rfl).trans ?_)
  dsimp only
  rw [hcb]
  rfl

theorem fakeResponse_ok {p : Nat} {measure : Bool}
    {s s' : Conn UInt64 (State K) R C}
    (hrun : Sock.onWorld (fakeResponse p measure) s = .ok () s') :
    ∃ cb, (s.world.requests.buf p).cb = some cb ∧
      s' = { s with world := { s.world with
        client := { cb 0 0 0 0 measure s.world.client with
          faked := s.world.client.faked + 1 } } } := by
  cases hcb : (s.world.requests.buf p).cb with
  | none =>
      have hthrow : fakeResponse p measure s.world =
          .error .badFunctionCall s.world := by
        refine (bind_of_ok rfl).trans ?_
        dsimp only
        rw [hcb]
        rfl
      cases (zoom_of_error hthrow).symm.trans hrun
  | some cb =>
      cases (fakeResponse_some hcb measure).symm.trans hrun
      exact ⟨cb, rfl, rfl⟩

/-- The end of `_send_request`. -/
def finish (cfg : Config) (p : Nat) (measure : Bool) :
    EStateM Exn (Conn UInt64 (State K) R C) Nat := do
  if cfg.sendOnly then Sock.onWorld (fakeResponse p measure) else pure ()
  pure reqPktSize

/-- What the requests are made with. -/
def made (sent : List (Sent UInt64)) : List (UInt64 × Bool) :=
  sent.map fun x => (x.info, x.measure)

/-- A connection after a call threw `e`: the property `I` held until then, for
the requests `reqs` or fewer. -/
def Halted (cfg : Config) (addr : Nat)
    (I : List (Sent UInt64) → Nat → Queues (World UInt64 (State K) R) → Prop)
    (reqs : List (UInt64 × Bool)) (e : Exn)
    (s : Conn UInt64 (State K) R C) : Prop :=
  ∃ sent lag q, made sent <+: reqs ∧ I sent lag q ∧ s.trace = q.trace ∧
    (Cause C addr q e ∨ cfg.sendOnly = true ∧ e = .badFunctionCall)

section Carried

variable {addr : Nat}
  {A : Queues (World UInt64 (State K) R) → RequestCB (State K) → Prop}
  {I : List (Sent UInt64) → Nat → Queues (World UInt64 (State K) R) → Prop}

private theorem Halted.of_stopped {sent : List (Sent UInt64)} {lag : Nat}
    {reqs : List (UInt64 × Bool)} {e : Exn} {s : Conn UInt64 (State K) R C}
    (hreqs : made sent <+: reqs) (h : Stopped addr (I sent lag) e s) :
    Halted cfg addr I reqs e s := by
  obtain ⟨q, hq, htrace, hcause⟩ := h
  exact ⟨sent, lag, q, hreqs, hq, htrace, .inl hcause⟩

/-- **`_send_request`**, up to its end. -/
theorem sendRequest_carried
    (hI : Carried clk proto C addr (fun _ => reqPktSize) A I)
    {sent : List (Sent UInt64)} {s : Conn UInt64 (State K) R C}
    (h : Between addr I sent s) (service : UInt64) (measure : Bool)
    (cb : RequestCB K) (hA : A s.view (onClient cb)) (stack : Nat → UInt8)
    (wout : List WriteRes) (rin : List ReadRes) :
    (∃ t, sendRequest cfg clk service measure cb stack wout rin s =
        finish cfg s.world.requests.tail measure t ∧
      Between addr I (sent ++ [⟨s.world.requests.tail, service, measure⟩])
        t) ∨
    ∃ e t, sendRequest cfg clk service measure cb stack wout rin s =
        .error e t ∧
      Halted cfg addr I (made sent ++ [(service, measure)]) e t := by
  have hbefore : made sent <+: made sent ++ [(service, measure)] :=
    List.prefix_append ..
  rw [sendRequest]
  rcases Nat.eq_zero_or_pos s.world.requests.space with hfull | hroom
  · obtain ⟨e, hthrow, hexn⟩ :=
      World.enqueue_throws hfull service measure (onClient cb)
    exact .inr ⟨e, _, bind_of_error (zoom_of_error hthrow), sent, 0, s.view,
      hbefore, h.holds, rfl, .inl (.buffer hexn)⟩
  have henqueue : Sock.onWorld
      (World.enqueue service measure (onClient cb)) s =
      .ok s.world.requests.tail
        { s with world := s.world.enqueued service measure (onClient cb) } :=
    zoom_of_ok (World.enqueue_ok (hI.wf h.holds) hroom _ _ _)
  have hwf : ({ s with
      world := s.world.enqueued service measure (onClient cb) } :
      Conn UInt64 (State K) R C).WF :=
    ⟨h.wf.rxCbs, h.wf.rbuf, h.wf.txCbs, h.wf.wbuf⟩
  rw [bind_of_ok henqueue]
  generalize packet cfg s.world.requests.tail service = pkt
  cases hwrite : writePacket pkt stack ({ s with
      world := s.world.enqueued service measure (onClient cb) } :
      Conn UInt64 (State K) R C) with
  | error e t =>
      have hwrites : Writes (writePacket pkt stack :
        EStateM Exn (Conn UInt64 (State K) R C) Unit) :=
        writePacket_writes _ _
      exact .inr ⟨e, t, bind_of_error hwrite, sent, 0, s.view, hbefore,
        h.holds, congrArg (·.2.2.2.1) (hwrites.quiet.of_error hwrite),
        .inl (.buffer (hwrites.throws.of_error hwrite))⟩
  | ok _ t =>
      obtain ⟨b, bytes, rfl, hb, hlen, hlist⟩ :=
        writePacket_appends _ _ hwf hwrite
      have hprep : Prepared s service measure (onClient cb) reqPktSize _ :=
        .mk b bytes hb hroom hlen hlist
      rw [bind_of_ok hwrite]
      rcases submit_kept hI (by decide) h hA hprep wout rin with
        ⟨u, hsubmit, hu⟩ | ⟨e, u, hsubmit, hstop | ⟨lag, hstop⟩⟩
      · exact .inl ⟨u, bind_of_ok hsubmit, hu⟩
      · exact .inr ⟨e, u, bind_of_error hsubmit, .of_stopped hbefore hstop⟩
      · refine .inr ⟨e, u, bind_of_error hsubmit, .of_stopped ?_ hstop⟩
        rw [made, List.map_append]
        exact List.prefix_refl _

/-- **A connection that is not ready** only queues a request. -/
theorem sendRequest_unready (clk : Nat → Nat)
    {s : Conn UInt64 (State K) R C} (h : s.WF)
    (hwf : s.world.requests.WF) (htx : s.txRdy = false)
    (hrx : s.rxRdy = false) (hrequests : 0 < s.world.requests.space)
    (hwbuf : reqPktSize ≤ s.wbuf.space) (htxCbs : 0 < s.txCbs.space)
    (hrxCbs : 0 < s.rxCbs.space) (service : UInt64) (measure : Bool)
    (cb : RequestCB K) (stack : Nat → UInt8) (wout : List WriteRes)
    (rin : List ReadRes) : ∃ t : Conn UInt64 (State K) R C,
      sendRequest cfg clk service measure cb stack wout rin s =
        finish cfg s.world.requests.tail measure t ∧
      t.wbuf.used = s.wbuf.used + reqPktSize ∧
      t.trace = s.trace ++
        (if s.txCbs.used = 0 then []
          else [.sub (s.wbuf.used + reqPktSize) s.txOut]) ++
        [.point s.npoint (s.wbuf.used + reqPktSize)] ∧
      t.world = s.world.submitted clk service measure (onClient cb) := by
  have henqueue : Sock.onWorld
      (World.enqueue service measure (onClient cb)) s =
      .ok s.world.requests.tail
        { s with world := s.world.enqueued service measure (onClient cb) } :=
    zoom_of_ok (World.enqueue_ok hwf hrequests _ _ _)
  generalize hp : s.world.requests.tail = p at henqueue
  generalize hpkt : packet cfg p service = pkt
  have hwrite : writePacket pkt stack { s with
      world := s.world.enqueued service measure (onClient cb) } = _ :=
    writePacket_ok ⟨h.rxCbs, h.rbuf, h.txCbs, h.wbuf⟩ hwbuf
  have hlen : (placed C s.wbuf.tail pkt stack).length ≤ reqPktSize :=
    length_placed_le
  obtain ⟨hb, -⟩ := stored_committed h.wbuf hlen hwbuf
  generalize hbuf : (s.wbuf.stored (placed C s.wbuf.tail pkt stack)).committed
    reqPktSize = b at hwrite hb
  have hused : b.used = s.wbuf.used + reqPktSize := by
    rw [← hbuf]
    rfl
  have hstarted : ({ s with
      wbuf := b
      world := s.world.submitted clk service measure (onClient cb) } :
      Conn UInt64 (State K) R C).WF := ⟨h.rxCbs, h.rbuf, h.txCbs, hb⟩
  have hpoint := Sock.writeCbPoint_ok hstarted htxCbs
    (some (sentRequest clk)) (some p)
  have hpointed := hstarted.pointed htxCbs (some (sentRequest clk)) (some p)
  generalize hu : Sock.pointed _ _ _ = u at hpoint hpointed
  have hquiet : u.txRdy = false ∧ u.rxRdy = false ∧ 0 < u.rxCbs.space := by
    rw [← hu]
    exact ⟨htx, hrx, hrxCbs⟩
  have htry : Sock.tryTx wout u = .ok () u := by
    show (if u.txRdy then Sock.tx wout else pure () :
      EStateM Exn (Conn UInt64 (State K) R C) Unit) u = _
    rw [hquiet.1]
    rfl
  have hread := Sock.read_ok hpointed hquiet.2.2
    ⟨respPktSize, some (recvResponse clk), 0, none, some p, 0⟩ rin
  rw [hquiet.2.1] at hread
  have hstamp : Sock.onWorld (World.stampStart clk p) ({ s with
      wbuf := b, world := s.world.enqueued service measure (onClient cb) } :
      Conn UInt64 (State K) R C) = .ok () { s with
        wbuf := b
        world := s.world.submitted clk service measure (onClient cb) } := by
    rw [← hp]
    exact zoom_of_ok (World.stampStart_ok clk _ _)
  rw [← hpkt] at hwrite
  refine ⟨_, (bind_of_ok henqueue).trans ((bind_of_ok hwrite).trans
    (bind_of_ok ((bind_of_ok hstamp).trans ((bind_of_ok hpoint).trans
      ((bind_of_ok htry).trans hread))))), ?_⟩
  rw [← hu, ← hused]
  exact ⟨rfl, rfl, rfl⟩

/-! ## Runs of a generator that awaits replies -/

/-- What the requests of a call are made with. -/
def Call.made : Call K → List (UInt64 × Bool)
  | .send service measure _ _ _ _ => [(service, measure)]
  | .runIo _ _ _ _ => []

/-- The completion callback of the request of a call. -/
def Call.callback : Call K → Option (RequestCB K)
  | .send _ _ cb _ _ _ => some cb
  | .runIo _ _ _ _ => none

/-- **A call** carries on what the steps carry on. -/
theorem call_carried (hreply : cfg.sendOnly = false)
    (hI : Carried clk proto C addr (fun _ => reqPktSize) A I)
    {sent : List (Sent UInt64)} {s : Conn UInt64 (State K) R C}
    (h : Between addr I sent s) (c : Call K)
    (hA : ∀ cb ∈ c.callback, A s.view (onClient cb)) :
    (∃ sent' s', c.call cfg clk s = .ok () s' ∧
      made sent' = made sent ++ c.made ∧ Between addr I sent' s') ∨
    ∃ e s', c.call cfg clk s = .error e s' ∧
      Halted cfg addr I (made sent ++ c.made) e s' := by
  cases c with
  | send service measure cb stack wout rin =>
      rcases sendRequest_carried hI h service measure cb (hA cb rfl)
          stack wout rin with
        ⟨t, hrun, ht⟩ | ⟨e, t, hrun, hhalted⟩
      · have hfinish : finish cfg s.world.requests.tail measure t =
            .ok reqPktSize t := by
          rw [finish, hreply]
          rfl
        exact .inl ⟨_, t, (bind_of_ok (hrun.trans hfinish)).trans rfl,
          by simp [made, Call.made], ht⟩
      · exact .inr ⟨e, t, bind_of_error hrun, hhalted⟩
  | runIo events check rin wout =>
      rcases runIo_kept hI h events check rin wout with
        ⟨s', hrun, hs'⟩ | ⟨e, s', hrun, hstop⟩
      · exact .inl ⟨sent, s', hrun, by simp [Call.made], hs'⟩
      · exact .inr ⟨e, s', hrun, .of_stopped (List.prefix_append ..) hstop⟩

/-- **A run** carries on what the steps carry on. -/
theorem run_carried (hreply : cfg.sendOnly = false)
    (hI : Carried clk proto C addr (fun _ => reqPktSize) A I)
    {s : Conn UInt64 (State K) R C} (h : Between addr I [] s)
    (calls : List (Call K))
    (hA : ∀ past c rest t, calls = past ++ c :: rest →
      runAll (Call.call cfg clk) past s = .ok () t →
      ∀ cb ∈ c.callback, A t.view (onClient cb)) :
    (∃ sent s', runAll (Call.call cfg clk) calls s = .ok () s' ∧
      made sent = calls.flatMap Call.made ∧ Between addr I sent s') ∨
    ∃ e s', runAll (Call.call cfg clk) calls s = .error e s' ∧
      Halted cfg addr I (calls.flatMap Call.made) e s' := by
  have hpast : ∀ {past later : List (Call K)}
      {t : Conn UInt64 (State K) R C}, calls = past ++ later →
      runAll (Call.call cfg clk) past s = .ok () t →
      ∃ sent, made sent = past.flatMap Call.made ∧ Between addr I sent t := by
    intro past later t hcalls hrun
    refine runAll_reaches (P := fun past t => ∃ sent,
      made sent = past.flatMap Call.made ∧ Between addr I sent t)
      ⟨[], rfl, h⟩ ?_ hrun
    rintro past' c rest u v rfl hrun' ⟨sent, hsent, hu⟩ hcall
    have hcA := hA past' c (rest ++ later) u
      (by rw [hcalls, List.append_assoc, List.cons_append]) hrun'
    rcases call_carried hreply hI hu c hcA with
      ⟨sent', v', hcall', hsent', hv⟩ | ⟨e, v', hcall', -⟩
    · cases hcall'.symm.trans hcall
      refine ⟨sent', ?_, hv⟩
      rw [hsent', hsent, List.flatMap_append, List.flatMap_singleton]
    · cases hcall'.symm.trans hcall
  cases hrun : runAll (Call.call cfg clk) calls s with
  | ok _ t =>
      obtain ⟨sent, hsent, ht⟩ := hpast (List.append_nil calls).symm hrun
      exact .inl ⟨sent, t, rfl, hsent, ht⟩
  | error e t =>
      obtain ⟨past, c, rest, u, hcalls, hok, hthrow⟩ := runAll_error calls hrun
      obtain ⟨sent, hsent, hu⟩ := hpast hcalls hok
      rcases call_carried hreply hI hu c (hA past c rest u hcalls hok) with
        ⟨sent', v, hcall, -⟩ | ⟨e', v, hcall, sent', lag, q, hpre, hrest⟩
      · cases hcall.symm.trans hthrow
      · cases hcall.symm.trans hthrow
        refine .inr ⟨e, t, rfl, sent', lag, q, hpre.trans ?_, hrest⟩
        rw [hsent, hcalls, List.flatMap_append, List.flatMap_cons,
          ← List.append_assoc]
        exact List.prefix_append ..

end Carried

end Mutated.Ports.Synthetic
