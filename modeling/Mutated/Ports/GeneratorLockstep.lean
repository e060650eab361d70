import Mutated.Ports.GeneratorRuns

/-!
# Three rings in lockstep

A request has a slot in `requests_`, and the address of that slot travels
through the ring of callback points and the ring of operations.  The three
rings advance at different events.  What links them is the number of a
request: request `k` lives in slot `k % R`, its operation and its point carry
that slot, and the `k`-th response takes the `k`-th request out.

`Lockstep` is this invariant, `lockstep_kept` shows that every small step of a
connection keeps it, whatever the server sends and whenever it sends it.  So
a sample is always recorded against the oldest request, and the check that
compares the two pointers cannot fail.
-/

namespace Mutated.Ports

open Mutated.Verified.Circular
open Mutated.Verified.Exec
open Mutated.Verified.History
open Relation (ReflTransGen)

variable {X K : Type} {R C : ℕ+}

/-! ## The invariant -/

/-- The number of requests that were answered. -/
def Queues.answered {W : Type} (q : Queues W) : Nat :=
  (delivered q.trace).length

/-- The request `req` in the ring is the `k`-th one, which was `x`. -/
structure Entry (x : Sent X) (k : Nat) (req : Request X K) : Prop where
  info : req.info = x.info
  measure : req.measure = x.measure
  cb : req.cb ≠ none
  serial : req.serial = k

/-- The sample `d` is the one of the `k`-th request `x`, for the response that
the callback `e` was given. -/
structure Recorded (P : Proto X) (x : Sent X) (k : Nat) (e : Event)
    (d : Sample) : Prop where
  slot : d.slot = x.slot
  serial : d.serial = k
  measure : d.measure = x.measure
  response : ∃ segs ret, e = .rxcb k .hdr segs 0 ret ∧
    d.bytes = P.size + ret ∧
    P.respond x.info d.serviceUs segs = .ok (d.waitUs, ret)

/-- **The invariant.** -/
structure Lockstep (clk : Nat → Nat) (P : Proto X) (C : ℕ+) (addr : Nat)
    (sent : List (Sent X)) (lag : Nat) (q : Queues (World X K R)) : Prop where
  framed : Framed P.size C q
  sock : q.world.sock = addr
  made : q.world.sent = sent
  wf : q.world.requests.WF
  head : q.world.requests.head = q.answered % R
  used : q.world.requests.used + q.answered = sent.length
  slots : ∀ (k : Nat) (x : Sent X), sent[k]? = some x → x.slot = k % R
  entries : ∀ (k : Nat) (x : Sent X), q.answered ≤ k → sent[k]? = some x →
    Entry x k (q.world.requests.buf (k % R))
  ops : ∀ (j : Nat) (op : IORx (World X K R)),
    (unanswered q.rxCbs)[j]? = some op →
    op.cbdata = some ((q.answered + j) % R) ∧
      op.hdrcb = some (recvResponse clk P)
  pending : (unanswered q.rxCbs).length + q.answered + lag = sent.length
  points : ∀ pt ∈ q.txCbs, pt.cb = some (sentRequest clk P) ∧
    pt.cbdata = some (pt.serial % R)
  reported : q.world.done.length = q.answered
  done : ∀ (k : Nat) (d : Sample), q.world.done[k]? = some d →
    ∃ x e, sent[k]? = some x ∧ (delivered q.trace)[k]? = some e ∧
      Recorded P x k e d

namespace Lockstep

variable {clk : Nat → Nat} {P : Proto X} {addr : Nat}
  {sent : List (Sent X)} {lag : Nat} {q q' : Queues (World X K R)}

/-- A new connection. -/
theorem init {s : Conn X K R C} (rmem wmem : Nat → UInt8) (info : X)
    (client : K) (hs : s = connect addr rmem wmem info client) :
    Lockstep clk P C addr [] 0 s.view := by
  subst hs
  have hnone : ∀ {α : Type} {k : Nat} {x : α}, ([] : List α)[k]? ≠ some x :=
    fun h => by cases h
  refine ⟨Framed.init rfl rfl rfl rfl, rfl, rfl, Buffer.init_wf _, rfl, rfl,
    fun _ _ h => absurd h hnone, fun _ _ _ h => absurd h hnone,
    fun _ _ h => absurd h hnone, rfl, fun _ h => absurd h List.not_mem_nil,
    rfl, fun _ _ h => absurd h hnone⟩

/-- The tail of `requests_` is where the next request goes. -/
theorem tail (h : Lockstep clk P C addr sent lag q) :
    q.world.requests.tail = sent.length % R := by
  rw [h.wf.tail_eq, h.head, Nat.mod_add_mod, ← h.used, Nat.add_comm]

/-- Nothing changes but what the kernel has seen and what is framed. -/
theorem congr (h : Lockstep clk P C addr sent lag q)
    (hframed : Framed P.size C q') (hworld : q'.world = q.world)
    (hdelivered : delivered q'.trace = delivered q.trace)
    (hops : unanswered q'.rxCbs = unanswered q.rxCbs)
    (hpoints : ∀ pt ∈ q'.txCbs, pt.cb = some (sentRequest clk P) ∧
      pt.cbdata = some (pt.serial % R)) :
    Lockstep clk P C addr sent lag q' := by
  have hanswered : q'.answered = q.answered := congrArg List.length hdelivered
  refine ⟨hframed, ?_, ?_, ?_, ?_, ?_, h.slots, ?_, ?_, ?_, hpoints, ?_, ?_⟩
  · rw [hworld]; exact h.sock
  · rw [hworld]; exact h.made
  · rw [hworld]; exact h.wf
  · rw [hworld, hanswered]; exact h.head
  · rw [hworld, hanswered]; exact h.used
  · rw [hworld, hanswered]; exact h.entries
  · rw [hops, hanswered]; exact h.ops
  · rw [hops, hanswered]; exact h.pending
  · rw [hworld, hanswered]; exact h.reported
  · rw [hworld, hdelivered]; exact h.done

/-- The generator's own data are not part of the invariant. -/
theorem client (h : Lockstep clk P C addr sent lag q) (k : K) :
    Lockstep clk P C addr sent lag
      { q with world := { q.world with client := k } } :=
  ⟨⟨h.framed.ops, h.framed.eaten, h.framed.serials, h.framed.framed⟩, h.sock,
    h.made, h.wf, h.head, h.used, h.slots, h.entries, h.ops, h.pending,
    h.points, h.reported, h.done⟩

/-! ## Transmitting -/

/-- A callback point stamps the request in its slot, and changes nothing else
about it. -/
theorem stamped (h : Lockstep clk P C addr sent lag q) {pts : List (IOTx _)}
    (hpts : ∀ pt ∈ pts, pt ∈ q.txCbs) (p t : Nat)
    (hframed : Framed P.size C q')
    (hq : q' = { q with
      txCbs := pts, txOut := q'.txOut, credit := q'.credit
      world := q.world.stamped p
        { q.world.requests.buf p with sentTs := t }
      trace := q'.trace })
    (hdelivered : delivered q'.trace = delivered q.trace) :
    Lockstep clk P C addr sent lag q' := by
  have hanswered : q'.answered = q.answered := congrArg List.length hdelivered
  have hworld : q'.world = q.world.stamped p
      { q.world.requests.buf p with sentTs := t } := by rw [hq]
  have hops : q'.rxCbs = q.rxCbs := by rw [hq]
  have hcbs : q'.txCbs = pts := by rw [hq]
  refine ⟨hframed, ?_, ?_, ?_, ?_, ?_, h.slots, ?_, ?_, ?_, ?_, ?_, ?_⟩
  · rw [hworld]; exact h.sock
  · rw [hworld]; exact h.made
  · rw [hworld]; exact ⟨h.wf.head_lt, h.wf.used_le, h.wf.tail_eq⟩
  · rw [hworld, hanswered]; exact h.head
  · rw [hworld, hanswered]; exact h.used
  · rw [hworld, hanswered]
    intro k x hk hx
    have hentry := h.entries k x hk hx
    simp only [World.stamped, blit_singleton]
    by_cases hp : k % R = p
    · rw [if_pos hp]
      subst hp
      exact ⟨hentry.info, hentry.measure, hentry.cb, hentry.serial⟩
    · rw [if_neg hp]
      exact hentry
  · rw [hops, hanswered]; exact h.ops
  · rw [hops, hanswered]; exact h.pending
  · rw [hcbs]; exact fun pt hpt => h.points pt (hpts pt hpt)
  · rw [hworld, hanswered]; exact h.reported
  · rw [hworld, hdelivered]; exact h.done

/-- **Every small step of the transmit path keeps the invariant.** -/
theorem step_tx (h : Lockstep clk P C addr sent lag q)
    (hstep : Queues.TxStep R addr q q') :
    Lockstep clk P C addr sent lag q' := by
  have hframed := h.framed.step_tx hstep
  cases hstep with
  | accepted k hcredit hbusy hk =>
      exact h.congr hframed rfl (by simp [delivered]) rfl h.points
  | fire c pt pts f w hcredit hpts hroom hlen hcb hcall =>
      have hmem : ∀ pt' ∈ pt :: pts, pt' ∈ q.txCbs := by
        rw [hpts]
        exact fun _ hpt => hpt
      obtain ⟨hf, hdata⟩ := h.points pt (hmem pt List.mem_cons_self)
      cases hcb.symm.trans hf
      rw [hdata, sentRequest_ok h.sock] at hcall
      cases hcall
      exact h.stamped (fun pt' hpt => hmem pt' (.tail _ hpt)) _ _ hframed rfl
        (by simp [delivered])
  | pay c pt pts hcredit hpts hroom hlen =>
      refine h.congr hframed rfl (by simp [delivered]) rfl ?_
      have hpoints := h.points
      rw [hpts] at hpoints
      intro pt' hpt'
      rcases List.mem_cons.mp hpt' with rfl | hold
      · exact hpoints pt List.mem_cons_self
      · exact hpoints pt' (.tail _ hold)
  | spent c hcredit hpts => exact h.congr hframed rfl rfl rfl h.points
  | overrun c hcredit hfull => exact h.congr hframed rfl rfl rfl h.points

/-! ## Receiving -/

/-- The callback of the oldest request is called with the oldest slot, so it
goes on to report. -/
theorem call_eq (h : Lockstep clk P C addr sent lag q)
    {op : IORx (World X K R)} {ops : List (IORx (World X K R))}
    {cb : RxCB (World X K R)} (hun : unanswered q.rxCbs = op :: ops)
    (hcb : op.hdrcb = some cb) (hlen : P.size ≤ q.rbuf.length) :
    ∃ x, sent[q.answered]? = some x ∧
      Entry x q.answered (q.world.requests.buf (q.answered % R)) ∧
      cb addr op.cbdata (segsAt C q.rhead (q.rbuf.take P.size)) 0 q.world =
        report P (q.answered % R) (q.world.requests.buf (q.answered % R))
          (segsAt C q.rhead (q.rbuf.take P.size)) (clk q.world.ticks)
          q.world.taken := by
  have hpending := h.pending
  have hused := h.used
  rw [hun, List.length_cons] at hpending
  obtain ⟨hdata, hrecv⟩ := h.ops 0 op (by rw [hun]; rfl)
  cases hcb.symm.trans hrecv
  have hsize : (Buffer.joinSegs (segsAt C q.rhead
      (q.rbuf.take P.size))).length = P.size := by
    rw [joinSegs_segsAt, List.length_take]
    omega
  have hx := List.getElem?_eq_getElem (show q.answered < sent.length by omega)
  refine ⟨_, hx, h.entries q.answered _ (Nat.le_refl _) hx, ?_⟩
  rw [hdata, Nat.add_zero, ← h.head]
  exact recvResponse_eq clk P h.sock h.wf (by omega) _ hsize

/-- The first response is handled: the oldest request is taken out and its
sample reported. -/
theorem answer (h : Lockstep clk P C addr sent lag q)
    {op : IORx (World X K R)} {ops : List (IORx (World X K R))}
    {cb : RxCB (World X K R)} {r : Nat} {w : World X K R}
    (hun : unanswered q.rxCbs = op :: ops) (hcb : op.hdrcb = some cb)
    (hlen : P.size ≤ q.rbuf.length)
    (hcall : cb addr op.cbdata
      (segsAt C q.rhead (q.rbuf.take P.size)) 0 q.world = .ok r w) :
    ∃ x req f waitUs, sent[q.answered]? = some x ∧
      req = q.world.requests.buf (q.answered % R) ∧
      Entry x q.answered req ∧
      req.startTs < req.sentTs ∧ req.startTs < clk q.world.ticks ∧
      P.respond x.info ((clk q.world.ticks - req.startTs) / 1000)
        (segsAt C q.rhead (q.rbuf.take P.size)) = .ok (waitUs, r) ∧
      w = q.world.taken.reported P (q.answered % R) req f
        ((req.sentTs - req.startTs) / 1000)
        ((clk q.world.ticks - req.startTs) / 1000) waitUs r := by
  obtain ⟨x, hx, hentry, heq⟩ := h.call_eq hun hcb hlen
  rw [heq, report_ok_iff] at hcall
  obtain ⟨hsent, hnow, waitUs, f, hrespond, -, rfl⟩ := hcall
  rw [hentry.info] at hrespond
  exact ⟨x, _, f, waitUs, hx, rfl, hentry, hsent, hnow, hrespond, rfl⟩

/-- **Why a response can throw**: only `report` does, for the oldest
request. -/
theorem rx_fault (h : Lockstep clk P C addr sent lag q) {e : Exn}
    {w : World X K R} (hfault : Queues.RxFault C addr q e w) :
    ∃ op ops x, unanswered q.rxCbs = op :: ops ∧ q.rxCbs = op :: ops ∧
      P.size ≤ q.rbuf.length ∧
      sent[q.answered]? = some x ∧
      Entry x q.answered (q.world.requests.buf (q.answered % R)) ∧
      ReportExn P (q.world.requests.buf (q.answered % R))
        (segsAt C q.rhead (q.rbuf.take P.size)) (clk q.world.ticks) e := by
  obtain ⟨op, ops, cb, hops, hcb, hpos, hneed, hcall⟩ := hfault
  have hbody := h.framed.ops.bodycb op (by rw [hops]; exact List.mem_cons_self)
  by_cases hhdr : 0 < op.hdrlen
  · have hun : unanswered q.rxCbs = op :: ops := by
      rw [hops, unanswered, if_neg (by omega)]
    have hlen := (h.framed.ops.fresh op (by
      rw [hun]
      exact List.mem_cons_self)).hdrlen
    rw [IORx.cb, if_pos hhdr] at hcb
    rw [IORx.need, if_pos hhdr, hlen] at hneed hcall
    obtain ⟨x, hx, hentry, heq⟩ := h.call_eq hun hcb hneed
    rw [heq] at hcall
    exact ⟨op, ops, x, hun, hops, hneed, hx, hentry, report_error hcall⟩
  · rw [IORx.cb, if_neg hhdr, hbody] at hcb
    cases hcb

/-- A callback point never throws. -/
theorem no_tx_fault (h : Lockstep clk P C addr sent lag q) {e : Exn}
    {w : World X K R} : ¬ Queues.TxFault addr q e w := by
  rintro ⟨c, pt, pts, -, hpts, -, hcall⟩
  obtain ⟨hcb, hdata⟩ := h.points pt (by rw [hpts]; exact List.mem_cons_self)
  rcases hcall with ⟨hnone, -⟩ | ⟨f, hsome, hcall⟩
  · cases hnone.symm.trans hcb
  · cases hsome.symm.trans hcb
    rw [hdata, sentRequest_ok h.sock] at hcall
    cases hcall

/-- The sample of the oldest request comes last. -/
private theorem recorded (h : Lockstep clk P C addr sent lag q) {x : Sent X}
    (hx : sent[q.answered]? = some x) {e : Event} {d : Sample}
    (hrecorded : Recorded P x q.answered e d) :
    ∀ (k : Nat) (d' : Sample), (q.world.done ++ [d])[k]? = some d' →
      ∃ x e', sent[k]? = some x ∧ (delivered q.trace ++ [e])[k]? = some e' ∧
        Recorded P x k e' d' := by
  intro k d' hd
  rcases getElem?_snoc hd with hold | ⟨hlast, rfl⟩
  · obtain ⟨y, e', hy, he, hrecorded'⟩ := h.done k d' hold
    have hlt := (List.getElem?_eq_some_iff.mp he).1
    exact ⟨y, e', hy, by rw [List.getElem?_append_left hlt]; exact he,
      hrecorded'⟩
  · have hk : k = q.answered := hlast.trans h.reported
    subst hk
    refine ⟨x, e, hx, ?_, hrecorded⟩
    exact List.getElem?_concat_length

/-- **Every small step of the receive path keeps the invariant.** -/
theorem step_rx (hsize : 0 < P.size)
    (h : Lockstep clk P C addr sent lag q)
    (hstep : Queues.RxStep C addr q q') :
    Lockstep clk P C addr sent lag q' := by
  have hframed := h.framed.step hsize hstep
  cases header_cases hsize h.framed.ops hstep with
  | recvd b bs =>
      exact h.congr hframed rfl (by simp [delivered]) rfl h.points
  | pass n ops hfresh hops hskip hlen =>
      exact h.congr hframed rfl rfl hops h.points
  | finish ops hfresh hops hskip =>
      exact h.congr hframed rfl rfl hops h.points
  | answer op ops cb r w hops hun hcb hlen hcall =>
      obtain ⟨x, req, f, waitUs, hx, hreq, hentry, -, -, hrespond, rfl⟩ :=
        h.answer hun hcb hlen hcall
      have hpending := h.pending
      have hused := h.used
      rw [hun, List.length_cons] at hpending
      have hserial : op.serial = q.answered := (h.framed.head_serials hun).1
      have hgrown : ∀ segs : Segs,
          delivered (q.trace ++ [.rxcb op.serial .hdr segs 0 r]) =
            delivered q.trace ++ [.rxcb op.serial .hdr segs 0 r] := by
        intro segs
        simp [delivered]
      have hnext : ∀ segs : Segs,
          (delivered (q.trace ++ [.rxcb op.serial .hdr segs 0 r])).length =
            q.answered + 1 := by
        intro segs
        rw [hgrown, List.length_append]
        rfl
      have hpop : unanswered ({ op with hdrlen := 0, bodylen := r } :: ops) =
          ops := by simp [unanswered]
      refine ⟨hframed, h.sock, h.made, h.wf.dropped (by omega), ?_, ?_,
        h.slots, ?_, ?_, ?_, h.points, ?_, ?_⟩
      · show (q.world.requests.head + 1) % R = (delivered _).length % R
        rw [hnext, h.head, Nat.mod_add_mod]
      · show q.world.requests.used - 1 + (delivered _).length = _
        rw [hnext]
        omega
      · intro k y hk hy
        replace hk : (delivered _).length ≤ k := hk
        rw [hnext] at hk
        exact h.entries k y (by omega) hy
      · intro j op' hop'
        rw [hpop] at hop'
        obtain ⟨hdata, hcb'⟩ := h.ops (j + 1) op' (by rw [hun]; exact hop')
        refine ⟨?_, hcb'⟩
        show op'.cbdata = some (((delivered _).length + j) % R)
        rw [hnext, hdata]
        congr 2
        omega
      · rw [hpop]
        show ops.length + (delivered _).length + lag = _
        rw [hnext]
        omega
      · show (q.world.done ++ [_]).length = (delivered _).length
        rw [hnext, List.length_append, h.reported, List.length_singleton]
      · intro k d hd
        show ∃ x e, sent[k]? = some x ∧ (delivered _)[k]? = some e ∧
          Recorded P x k e d
        rw [hgrown]
        refine h.recorded hx ⟨(h.slots _ x hx).symm, hentry.serial,
          hentry.measure, _, r, ?_, rfl, hrespond⟩ k d hd
        rw [hserial]

/-! ## Sending -/

/-- Adding a request changes the slot at the tail only. -/
theorem submitted_buf {g : World X K R} (h : g.requests.WF) (info : X)
    (measure : Bool) (cb : RequestCB K) (j : Nat) :
    (g.submitted clk info measure cb).requests.buf j =
      if j = g.requests.tail then
        ⟨info, measure, some cb, clk g.ticks, 0, g.sent.length⟩
      else g.requests.buf j := by
  have htail := h.tail_lt
  have hscatter : scatter R g.requests.buf g.requests.tail
      [(⟨info, measure, some cb, 0, 0, g.sent.length⟩ : Request X K)] =
      blit g.requests.buf g.requests.tail
        [⟨info, measure, some cb, 0, 0, g.sent.length⟩] :=
    scatter_of_le (by rw [List.length_singleton]; omega)
  simp only [World.submitted, World.stamped, World.enqueued,
    Buffer.committed_buf, Buffer.stored, hscatter, blit_singleton]
  by_cases hj : j = g.requests.tail
  · rw [if_pos hj, if_pos hj]
    simp only [if_true]
  · rw [if_neg hj, if_neg hj, if_neg hj]

/-- Writing a request and inserting its point leaves alone what was
received. -/
private theorem submitted_framed (h : Framed P.size C q) (info : X)
    (measure : Bool) (cb : RequestCB K) (bytes : List UInt8)
    (serial : Nat) :
    Framed P.size C (q.submitted clk P info measure cb bytes serial) ∧
      delivered (q.submitted clk P info measure cb bytes serial).trace =
        delivered q.trace := by
  obtain ⟨es, hes, htrace⟩ :=
    q.submitted_trace clk P info measure cb bytes serial
  have hquiet : received es = [] ∧ returns es = [] ∧ delivered es = [] ∧
      Always (AtFrame P.size C) (q.trace ++ es) := by
    rcases hes with rfl | ⟨a, b, rfl⟩
    · rw [List.append_nil]
      exact ⟨rfl, rfl, rfl, h.framed⟩
    · exact ⟨rfl, rfl, rfl, always_snoc.mpr ⟨h.framed, trivial⟩⟩
  obtain ⟨hreceived, hreturns, hdelivered, hframed⟩ := hquiet
  have hall : delivered (q.submitted clk P info measure cb bytes
      serial).trace = delivered q.trace := by
    rw [htrace, delivered_append, delivered_append, hdelivered,
      List.append_nil]
    exact List.append_nil _
  refine ⟨h.congr rfl rfl rfl ?_ ?_ hall ?_, hall⟩
  · rw [htrace, received_append, received_append, hreceived, List.append_nil]
    exact List.append_nil _
  · rw [htrace, returns_append, returns_append, hreturns, List.append_nil]
    exact List.append_nil _
  · rw [htrace]
    exact always_snoc.mpr ⟨hframed, trivial⟩

/-- **A request is made.** -/
theorem submit (h : Lockstep clk P C addr sent 0 q)
    (hroom : 0 < q.world.requests.space) (info : X) (measure : Bool)
    (cb : RequestCB K) (bytes : List UInt8) :
    Lockstep clk P C addr
      (sent ++ [⟨q.world.requests.tail, info, measure⟩]) 1
      (q.submitted clk P info measure cb bytes sent.length) := by
  obtain ⟨hframed, hdelivered⟩ := submitted_framed h.framed info
    measure cb bytes sent.length
  have hanswered : (q.submitted clk P info measure cb bytes
      sent.length).answered = q.answered := congrArg List.length hdelivered
  have hspace : q.world.requests.space = R - q.world.requests.used := rfl
  have hused := h.used
  have htail := h.tail
  have hlast : ∀ {k : Nat} {x : Sent X}, (sent ++
      [⟨q.world.requests.tail, info, measure⟩])[k]? = some x →
      sent[k]? = some x ∧ k < sent.length ∨ k = sent.length ∧
        x = ⟨q.world.requests.tail, info, measure⟩ := fun hx =>
    (getElem?_snoc hx).imp_left fun hold =>
      ⟨hold, (List.getElem?_eq_some_iff.mp hold).1⟩
  refine ⟨hframed, h.sock, ?_, ?_, ?_, ?_, ?_, ?_, ?_, ?_, ?_, ?_, ?_⟩
  · show q.world.sent ++ _ = _
    rw [h.made]
  · obtain ⟨hhead, hle, heq⟩ := (h.wf.stored
      [⟨info, measure, some cb, 0, 0, q.world.sent.length⟩]).committed
      (show 1 ≤ q.world.requests.space from hroom)
    exact ⟨hhead, hle, heq⟩
  · rw [hanswered]
    exact h.head
  · rw [hanswered, List.length_append, List.length_singleton]
    show q.world.requests.used + 1 + q.answered = _
    omega
  · intro k x hx
    rcases hlast hx with ⟨hold, -⟩ | ⟨rfl, rfl⟩
    · exact h.slots k x hold
    · exact htail
  · rw [hanswered]
    intro k x hk hx
    show Entry x k ((q.world.submitted clk info measure cb).requests.buf _)
    rw [submitted_buf h.wf]
    rcases hlast hx with ⟨hold, hlt⟩ | ⟨rfl, rfl⟩
    · -- the outstanding requests fill less than the ring
      have hne : k % R ≠ sent.length % R := mod_ne hlt (by omega)
      rw [if_neg (by rw [htail]; exact hne)]
      exact h.entries k x hk hold
    · rw [if_pos htail.symm]
      exact ⟨rfl, rfl, by simp, congrArg List.length h.made⟩
  · rw [hanswered]
    exact h.ops
  · rw [hanswered, List.length_append, List.length_singleton]
    have hpending := h.pending
    show (unanswered q.rxCbs).length + q.answered + 1 = _
    omega
  · intro pt hpt
    rcases List.mem_append.mp hpt with hold | hnew
    · exact h.points pt hold
    · rw [List.mem_singleton.mp hnew, ← htail]
      exact ⟨rfl, rfl⟩
  · rw [hanswered]
    exact h.reported
  · intro k d hd
    obtain ⟨x, e, hx, he, hrecorded⟩ := h.done k d hd
    have hlt := (List.getElem?_eq_some_iff.mp hx).1
    refine ⟨x, e, ?_, ?_, hrecorded⟩
    · rw [List.getElem?_append_left hlt]
      exact hx
    · rw [hdelivered]
      exact he

/-- **The operation of the request is queued.** -/
theorem await (hsize : 0 < P.size) {x : Sent X}
    (h : Lockstep clk P C addr (sent ++ [x]) 1 q) :
    Lockstep clk P C addr (sent ++ [x]) 0
      (q.queued [awaits K R clk P x.slot sent.length]) := by
  have hfresh : (awaits K R clk P x.slot sent.length).Fresh P.size :=
    ⟨rfl, by simp [awaits]⟩
  have hpending := h.pending
  rw [List.length_append, List.length_singleton] at hpending
  have hops : unanswered (q.queued [awaits K R clk P x.slot
      sent.length]).rxCbs = unanswered q.rxCbs ++
      [awaits K R clk P x.slot sent.length] :=
    unanswered_concat hsize hfresh q.rxCbs
  have hslot : x.slot = sent.length % R := h.slots sent.length x (by
    rw [List.getElem?_append_right (Nat.le_refl _), Nat.sub_self]
    rfl)
  refine ⟨h.framed.queued hsize hfresh rfl ?_, h.sock, h.made, h.wf, h.head,
    h.used, h.slots, h.entries, ?_, ?_, h.points, h.reported, h.done⟩
  · show sent.length = q.answered + _
    omega
  · intro j op hop
    rw [hops] at hop
    rcases getElem?_snoc hop with hold | ⟨hj, rfl⟩
    · exact h.ops j op hold
    · refine ⟨?_, rfl⟩
      show some x.slot = some ((q.answered + j) % R)
      rw [hslot]
      congr 2
      omega
  · rw [hops, List.length_append, List.length_append, List.length_singleton]
    show (unanswered q.rxCbs).length + 1 + q.answered + 0 = _
    rw [List.length_singleton]
    omega

end Lockstep

/-- **Every small step of a connection keeps the three rings in
lockstep.** -/
theorem lockstep_kept {clk : Nat → Nat} {P : Proto X} (hsize : 0 < P.size)
    (addr : Nat) (len : X → Nat) :
    Kept (R := R) (K := K) clk P C addr len (fun _ _ => True)
      (Lockstep clk P C addr) where
  wf := fun h => h.wf
  rx := fun _ h hstep => h.step_rx hsize hstep
  tx := fun h hstep => h.step_tx hstep
  submit := fun measure cb _ _ h _ hroom _ _ =>
    h.submit hroom _ measure cb _
  await := fun h => h.await hsize
  client := fun _ h => h.client _

end Mutated.Ports
