import Mutated.Ports.GeneratorLifecycle
import Mutated.Ports.SyntheticRuns

/-!
# Requests and responses of the synthetic generator

A response of the synthetic server is a header without a body.  So between two
calls every pending operation waits for its whole header, and the operations
are those of the requests in `requests_`, in the same order.

Each response is recorded against the oldest request.  Its tag is never read:
where the server answers in another order than it was asked, samples are
recorded against requests they do not belong to, and nothing notices.

## Main results

`run_lifecycle` follows every request of a run from its creation to its
sample.  `run_attributes_iff` says when the samples belong to the requests
they are recorded against.
-/

namespace Mutated.Ports.Synthetic

open Mutated.Verified.Circular
open Mutated.Verified.Endian
open Mutated.Verified.Exec
open Mutated.Verified.History

variable {K : Type} {R C : ℕ+} {clk : Nat → Nat} {addr : Nat}
  {sent : List (Sent UInt64)} {lag : Nat}
  {q q' : Queues (World UInt64 (State K) R)}

/-! ## The invariant -/

/-- A response has no body. -/
theorem no_body {delay : UInt64} {us wait r : Nat} {segs : Segs}
    (h : proto.respond delay us segs = .ok (wait, r)) :
    wait = us - delay.toNat ∧ r = 0 := by
  cases h
  exact ⟨rfl, rfl⟩

/-- No operation has a body to receive. -/
structure Bodyless (clk : Nat → Nat) (C : ℕ+) (addr : Nat)
    (sent : List (Sent UInt64)) (lag : Nat)
    (q : Queues (World UInt64 (State K) R)) : Prop
    extends Lockstep clk proto C addr sent lag q where
  bare : ∀ op ∈ q.rxCbs, op.bodylen = 0

namespace Bodyless

/-- Receiving gives no operation a body. -/
theorem step_rx (h : Bodyless clk C addr sent lag q)
    (hstep : Queues.RxStep C addr q q') :
    Bodyless clk C addr sent lag q' := by
  have hlock := h.toLockstep.step_rx (by decide) hstep
  refine ⟨hlock, ?_⟩
  have hold := h.bare
  cases hstep with
  | recvd b bs hfit => exact hold
  | skip op ops n hops hcb hlen hneed =>
      rw [hops] at hold
      intro op' hop'
      rcases List.mem_cons.mp hop' with rfl | hrest
      · have hbare := hold op List.mem_cons_self
        unfold IORx.skip
        split
        · exact hbare
        · show op.bodylen - n = 0
          omega
      · exact hold op' (.tail _ hrest)
  | fire op ops cb r w hops hcb hpos hneed hcall =>
      rw [hops] at hold
      intro op' hop'
      rcases List.mem_cons.mp hop' with rfl | hrest
      · by_cases hhdr : 0 < op.hdrlen
        · have hun : unanswered q.rxCbs = op :: ops := by
            rw [hops, unanswered, if_neg (by omega)]
          have hlen := (h.framed.ops.fresh op (by
            rw [hun]
            exact List.mem_cons_self)).hdrlen
          rw [IORx.cb, if_pos hhdr] at hcb
          rw [IORx.need, if_pos hhdr, hlen] at hneed hcall
          obtain ⟨x, req, f, waitUs, -, -, -, -, -, hrespond, -⟩ :=
            h.answer hun hcb hneed hcall
          rw [IORx.fire, if_pos hhdr]
          exact (no_body hrespond).2
        · rw [IORx.fire, if_neg hhdr]
      · exact hold op' (.tail _ hrest)
  | finish op ops hops hneed =>
      rw [hops] at hold
      exact fun op' hop' => hold op' (.tail _ hop')

theorem step_tx (h : Bodyless clk C addr sent lag q)
    (hstep : Queues.TxStep R addr q q') :
    Bodyless clk C addr sent lag q' := by
  refine ⟨h.toLockstep.step_tx hstep, ?_⟩
  cases hstep <;> exact h.bare

theorem await {x : Sent UInt64}
    (h : Bodyless clk C addr (sent ++ [x]) 1 q) :
    Bodyless clk C addr (sent ++ [x]) 0
      (q.queued [awaits (State K) R clk proto x.slot sent.length]) := by
  refine ⟨h.toLockstep.await (by decide), ?_⟩
  intro op hop
  rcases List.mem_append.mp hop with hold | hnew
  · exact h.bare op hold
  · rw [List.mem_singleton.mp hnew]
    rfl

/-- Between two calls every operation waits for its header. -/
theorem unanswered_eq {s : Conn UInt64 (State K) R C}
    (h : Bodyless clk C addr sent 0 s.view) (hlive : s.view.Live) :
    unanswered s.view.rxCbs = s.rxCbs.toList := by
  show _ = s.view.rxCbs
  cases hops : s.view.rxCbs with
  | nil => rfl
  | cons op ops =>
      have hneed := hlive op (by rw [hops]; rfl)
      have hbare := h.bare op (by rw [hops]; exact List.mem_cons_self)
      rw [unanswered, if_neg]
      intro hzero
      rw [IORx.need, if_neg (by omega)] at hneed
      omega

/-- **Requests and operations correspond**, between two calls. -/
theorem slots_eq {s : Conn UInt64 (State K) R C}
    (h : Bodyless clk C addr sent 0 s.view) (hlive : s.view.Live) :
    s.world.requests.slots.map some = s.rxCbs.toList.map IORx.cbdata := by
  have hall := h.unanswered_eq hlive
  have hpending := h.pending
  have hused := h.used
  have hops := h.ops
  have hhead := h.head
  rw [hall] at hpending hops
  have hworld : s.view.world = s.world := rfl
  rw [hworld] at hused hhead
  refine List.ext_getElem? fun j => ?_
  rw [Buffer.slots, cells, List.getElem?_map, List.getElem?_map,
    List.getElem?_map]
  rcases Nat.lt_or_ge j s.rxCbs.toList.length with hlt | hge
  · obtain ⟨hdata, -⟩ := hops j _ (List.getElem?_eq_getElem hlt)
    rw [List.getElem?_range (by omega), List.getElem?_eq_getElem hlt,
      Option.map_some, Option.map_some, Option.map_some, hdata, hhead,
      Nat.mod_add_mod]
  · rw [List.getElem?_eq_none (by rw [List.length_range]; omega),
      List.getElem?_eq_none hge]
    rfl

end Bodyless

/-- **Every small step** keeps the operations bodyless. -/
theorem bodyless_carried (clk : Nat → Nat) (addr : Nat) :
    Carried (R := R) (K := State K) clk proto C addr (fun _ => reqPktSize)
      (fun _ _ => True) (Bodyless clk C addr) where
  wf := fun h => h.wf
  rx := fun _ h hstep => h.step_rx hstep
  tx := fun h hstep => h.step_tx hstep
  submit := fun measure cb _ _ h _ hroom _ _ =>
    ⟨h.toLockstep.submit hroom _ measure cb _, h.bare⟩
  await := fun h => h.await

theorem Bodyless.init (clk : Nat → Nat) (addr : Nat)
    (rmem wmem : Nat → UInt8) (client : K) :
    Between addr (Bodyless clk C addr) []
      (start addr rmem wmem client : Conn UInt64 (State K) R C) :=
  ⟨⟨Sock.init_wf _ _ _ _, rfl, .init rmem wmem 0 ⟨client, 0⟩ rfl,
    fun _ h => absurd h List.not_mem_nil⟩, rfl, rfl, fun _ h => by cases h⟩

/-! ## Every request of a run -/

/-- The texts with which `recv_response` says that a response does not belong
to its request. -/
def Mismatch (e : Exn) : Prop :=
  e = .runtimeError
    "Synthetic::recv_response: wrong response-request packet match" ∨
  e = .runtimeError
    "Synthetic::recv_response: sent before it was generated" ∨
  e = .runtimeError
    "Synthetic::recv_response: arrived before it was sent"

/-- Only a receive callback says so. -/
private theorem rx_fault_of_mismatch {e : Exn} (hcause : Cause C addr q e)
    (htx : ∀ w, ¬ Queues.TxFault addr q e w) (he : Mismatch e) :
    ∃ w, Queues.RxFault C addr q e w := by
  cases hcause with
  | buffer hexn => cases hexn <;> simp [Mismatch] at he
  | rx hexn => cases hexn <;> simp [Mismatch] at he
  | tx hexn => cases hexn <;> simp [Mismatch] at he
  | conn hexn => cases hexn <;> simp [Mismatch] at he
  | rxFault hfault => exact ⟨_, hfault⟩
  | txFault hfault => exact absurd hfault (htx _)

/-- What became of the requests `reqs`: the first ones are answered, each was
reported once with its own flag, and the others are outstanding. -/
structure Completed (clk : Nat → Nat) (reqs : List (UInt64 × Bool))
    (s : Conn UInt64 (State K) R C) : Prop where
  count : s.world.done.length + s.world.requests.items = reqs.length
  answered : s.world.done.length = (delivered s.trace).length
  sample : ∀ (k : Nat) (d : Sample), s.world.done[k]? = some d →
    ∃ service measure, reqs[k]? = some (service, measure) ∧ d.slot = k % R ∧
      d.serial = k ∧ d.measure = measure ∧ d.bytes = respPktSize ∧
      Lived clk s.trace k d ∧ d.queueUs ≤ d.serviceUs ∧
      d.waitUs = d.serviceUs - service.toNat
  stage : ∀ k, s.world.done.length ≤ k → k < reqs.length →
    Stage clk s.trace k (s.world.requests.buf (k % R))

private theorem completed_of_lifecycle (hclk : StrictMono clk)
    {s : Conn UInt64 (State K) R C}
    (h : Lifecycle clk proto reqPktSize C addr sent 0 s.view) :
    Completed clk (made sent) s := by
  have hreported : s.world.done.length = s.view.answered := h.reported
  have hlen : (made sent).length = sent.length := List.length_map ..
  have hsent : ∀ {k : Nat} {x : Sent UInt64}, sent[k]? = some x →
      (made sent)[k]? = some (x.info, x.measure) := by
    intro k x hx
    rw [made, List.getElem?_map, hx]
    rfl
  refine ⟨?_, hreported, ?_, ?_⟩
  · have hused := h.used
    rw [hlen, hreported, Nat.add_comm]
    exact hused
  · intro k d hd
    obtain ⟨x, e, hx, he, hrecorded⟩ := h.done k d hd
    obtain ⟨segs, ret, -, hbytes, hrespond⟩ := hrecorded.response
    obtain ⟨hwait, hret⟩ := no_body hrespond
    have hlived := h.lived k d hd
    refine ⟨x.info, x.measure, hsent hx, ?_, hrecorded.serial,
      hrecorded.measure, ?_, hlived, hlived.queueUs_le hclk.monotone, hwait⟩
    · rw [hrecorded.slot]
      exact h.slots k x hx
    · rw [hbytes, hret]
      rfl
  · intro k hk hlt
    rw [hlen] at hlt
    exact h.stages k _ (hreported ▸ hk) (List.getElem?_eq_getElem hlt)

/-- **The life of every request.**  For a strictly increasing clock and a
server that answers a request after it received all of it, as long as fewer
requests are outstanding than the rings hold. -/
theorem run_lifecycle {cfg : Config} (hreply : cfg.sendOnly = false)
    (hclk : StrictMono clk) (addr : Nat) (rmem wmem : Nat → UInt8)
    (client : K) (calls : List (Call K))
    (hfew : ∀ past c rest (t : Conn UInt64 (State K) R C),
      calls = past ++ c :: rest →
      runAll (Call.call cfg clk) past (start addr rmem wmem client) =
        .ok () t →
      c.made ≠ [] → t.world.requests.items + 1 < R)
    {r : EStateM.Result Exn (Conn UInt64 (State K) R C) Unit}
    (hrun : runAll (Call.call cfg clk) calls (start addr rmem wmem client) = r)
    (hserver : Always (Answers reqPktSize respPktSize) (after r).trace) :
    (∀ s, r = .ok () s →
      s.world.requests.slots.map some = s.rxCbs.toList.map IORx.cbdata ∧
      Completed clk (calls.flatMap Call.made) s) ∧
    ∀ e s, r = .error e s → ¬ Mismatch e := by
  have hcarried := (lifecycle_carried (R := R) (K := State K) (C := C) clk
    proto (by decide) addr (show 0 < reqPktSize by decide)).and
    (bodyless_carried clk addr)
  have hbodyless := Bodyless.init (R := R) (C := C) clk addr rmem wmem client
  have hstart : Between addr (fun sent lag q =>
      Lifecycle clk proto reqPktSize C addr sent lag q ∧
        Bodyless clk C addr sent lag q) []
      (start addr rmem wmem client : Conn UInt64 (State K) R C) :=
    ⟨⟨hbodyless.wf, rfl, .init (by decide) rmem wmem 0 ⟨client, 0⟩ rfl,
      hbodyless.holds⟩, rfl, rfl, hbodyless.live⟩
  rcases run_carried hreply hcarried hstart calls
      (fun past c rest t hcalls hpast cb hcb => by
        refine ⟨hfew past c rest t hcalls hpast ?_, trivial⟩
        cases c with
        | send => exact List.cons_ne_nil _ _
        | runIo => cases hcb) with
    ⟨sent, s', hok, hmade, hs'⟩ | ⟨e, s', hthrow, hhalted⟩
  · cases hok.symm.trans hrun
    refine ⟨?_, ?_⟩
    · rintro s heq
      cases heq
      rw [← hmade]
      exact ⟨hs'.holds.2.slots_eq hs'.live,
        completed_of_lifecycle hclk hs'.holds.1⟩
    · rintro e s heq
      cases heq
  · cases hthrow.symm.trans hrun
    refine ⟨?_, ?_⟩
    · rintro s heq
      cases heq
    · rintro e s heq
      cases heq
      obtain ⟨sent, lag, q, -, ⟨hlife, -⟩, htrace, hcause | ⟨htrue, -⟩⟩ :=
        hhalted
      · have hcausal : Always (Answers reqPktSize respPktSize) q.trace := by
          rw [← htrace]
          exact hserver
        intro hmismatch
        obtain ⟨w, hfault⟩ :=
          rx_fault_of_mismatch hcause (fun _ => hlife.no_tx_fault) hmismatch
        exact hlife.no_rx_fault hclk (fun _ _ _ _ h => by cases h) hcausal
          hfault
      · rw [hreply] at htrue
        cases htrue

/-- Requests of five and seven microseconds, both sent before the first is
answered. -/
private def twoInFlight : List (Call Unit) :=
  [.send 5 true (fun _ _ _ _ _ k => k) (fun _ => 0) [] [],
    .send 7 false (fun _ _ _ _ _ k => k) (fun _ => 0) [] [],
    .runIo EPOLLOUT .ok [] [.accepted 288],
    .runIo EPOLLIN .ok [.data 0 (List.replicate 7 0), .error EAGAIN] []]

private def inFlightRun (calls : List (Call Unit)) : EStateM.Result Exn
    (Conn UInt64 (State Unit) maxOutstandingReqs charbufSize) Unit :=
  runAll (Call.call ⟨false, 0⟩ id) calls
    (start 0 (fun _ => 0) (fun _ => 0) ())

theorem run_lifecycle_twoInFlight :
    returned (inFlightRun twoInFlight) = true ∧
    (∀ s, inFlightRun twoInFlight = .ok () s →
      s.world.requests.slots.map some = s.rxCbs.toList.map IORx.cbdata ∧
      Completed id [(5, true), (7, false)] s) ∧
    ∀ e s, inFlightRun twoInFlight = .error e s → ¬ Mismatch e := by
  refine ⟨by decide +kernel, run_lifecycle rfl strictMono_id 0 (fun _ => 0)
    (fun _ => 0) () twoInFlight ?_ rfl (by decide +kernel)⟩
  intro past c rest t hcalls hpast hmade
  match past with
  | [] =>
      cases hpast
      exact show 0 + 1 < 1000000 by decide
  | [_] =>
      cases hcalls
      have hone : (after (inFlightRun
          (twoInFlight.take 1))).world.requests.items + 1 < 1000000 := by
        decide +kernel
      rwa [show inFlightRun (twoInFlight.take 1) = _ from hpast] at hone
  | [_, _] =>
      cases hcalls
      exact absurd rfl hmade
  | [_, _, _] =>
      cases hcalls
      exact absurd rfl hmade
  | _ :: _ :: _ :: _ :: past => simp [twoInFlight] at hcalls

/-! ## Which request a sample belongs to -/

/-- `resp_pkt::tag` of a response. -/
def tagIn (resp : List UInt8) : UInt64 := .ofNat (ofLE resp)

/-- The `k`-th response in the stream. -/
def responseAt (t : List Event) (k : Nat) : List UInt8 :=
  ((received t).drop (respPktSize * k)).take respPktSize

/-- Every sample was recorded against the request whose tag its response
carries. -/
def Attributed (cfg : Config) (s : Conn UInt64 (State K) R C) : Prop :=
  ∀ (k : Nat) (d : Sample) (segs : Segs) (ret : Nat),
    s.world.done[k]? = some d →
    (delivered s.trace)[k]? = some (.rxcb k .hdr segs 0 ret) →
    tagIn (Buffer.joinSegs segs) = tagOf cfg d.slot

/-- The responses handled so far came in the order of the requests. -/
def InOrder (cfg : Config) (s : Conn UInt64 (State K) R C) : Prop :=
  ∀ (k : Nat) (x : Sent UInt64), k < (delivered s.trace).length →
    s.world.sent[k]? = some x →
    tagIn (responseAt s.trace k) = tagOf cfg x.slot

/-- Without bodies, the `k`-th header is the `k`-th response. -/
private theorem frameAt_bare {H : Nat} {rets : List Nat}
    (h : ∀ r ∈ rets, r = 0) {k : Nat} (hk : k ≤ rets.length) :
    frameAt H rets k = H * k := by
  have hall : ∀ (rets : List Nat), (∀ r ∈ rets, r = 0) →
      (rets.map (H + ·)).sum = H * rets.length := by
    intro rets
    induction rets with
    | nil => exact fun _ => rfl
    | cons r rets ih =>
        intro hzero
        rw [List.map_cons, List.sum_cons,
          ih fun r' hr' => hzero r' (.tail _ hr'),
          hzero r List.mem_cons_self, List.length_cons, Nat.mul_add,
          Nat.mul_one, Nat.add_zero, Nat.add_comm]
  rw [frameAt, hall _ fun r hr => h r (List.mem_of_mem_take hr),
    List.length_take, Nat.min_eq_left hk]

/-- The bytes of the `k`-th callback are the `k`-th response. -/
private theorem delivered_response (h : Bodyless clk C addr sent 0 q)
    {k : Nat} {segs : Segs} {ret : Nat}
    (hk : (delivered q.trace)[k]? = some (.rxcb k .hdr segs 0 ret)) :
    Buffer.joinSegs segs = responseAt q.trace k := by
  have hzero : ∀ r ∈ returns q.trace, r = 0 := by
    intro r hr
    obtain ⟨j, hj⟩ := List.mem_iff_getElem?.mp hr
    have hlt := (List.getElem?_eq_some_iff.mp hj).1
    rw [length_returns] at hlt
    have hlen : q.world.done.length = (delivered q.trace).length := h.reported
    obtain ⟨x, e, -, he, hrecorded⟩ :=
      h.done j _ (List.getElem?_eq_getElem (by omega))
    obtain ⟨segs', ret', heq, -, hrespond⟩ := hrecorded.response
    obtain ⟨ret'', hret, -, hevent⟩ := delivered_of_framed _ h.framed.framed he
    cases heq.symm.trans hevent
    cases hret.symm.trans hj
    exact (no_body hrespond).2
  have hlt := (List.getElem?_eq_some_iff.mp hk).1
  obtain ⟨ret', -, -, hevent⟩ := delivered_of_framed _ h.framed.framed hk
  cases hevent
  rw [joinSegs_segsAt, frameAt_bare hzero (by rw [length_returns]; omega)]
  rfl

/-- **Tags are not read.**  The check of `recv_response` never fails, and the
samples belong to the requests they are recorded against exactly when the
responses come in the order of the requests. -/
theorem run_attributes_iff {cfg : Config} (hreply : cfg.sendOnly = false)
    (clk : Nat → Nat) (addr : Nat) (rmem wmem : Nat → UInt8) (client : K)
    (calls : List (Call K))
    {r : EStateM.Result Exn (Conn UInt64 (State K) R C) Unit}
    (hrun : runAll (Call.call cfg clk) calls (start addr rmem wmem client) =
      r) :
    (∀ s, r ≠ .error (.runtimeError
      "Synthetic::recv_response: wrong response-request packet match") s) ∧
    ∀ s, r = .ok () s → (Attributed cfg s ↔ InOrder cfg s) := by
  have hcarried := bodyless_carried (R := R) (C := C) (K := K) clk addr
  rcases run_carried hreply hcarried
      (Bodyless.init clk addr rmem wmem client) calls
      (fun _ _ _ _ _ _ _ _ => trivial) with
    ⟨sent, s', hok, -, hs'⟩ | ⟨e, s', hthrow, hhalted⟩
  · cases hok.symm.trans hrun
    refine ⟨fun _ heq => (by cases heq), ?_⟩
    rintro s heq
    cases heq
    have h := hs'.holds
    have hmade : s'.world.sent = sent := h.made
    have hlen : s'.world.done.length = (delivered s'.trace).length :=
      h.reported
    constructor
    · intro hall k x hk hx
      have hdone := List.getElem?_eq_getElem (l := s'.world.done)
        (show k < s'.world.done.length by omega)
      obtain ⟨y, e, hy, he, hrecorded⟩ := h.done k _ hdone
      obtain ⟨segs, ret, rfl, -⟩ := hrecorded.response
      rw [hmade] at hx
      cases hx.symm.trans hy
      have hsame := delivered_response h he
      have htag := hall k _ segs ret hdone he
      rw [hsame, hrecorded.slot] at htag
      exact htag
    · intro horder k d segs ret hd he
      obtain ⟨y, e, hy, he', hrecorded⟩ := h.done k d hd
      have hsame := delivered_response h he
      rw [hsame, hrecorded.slot]
      exact horder k y (List.getElem?_eq_some_iff.mp he).1
        (hmade ▸ hy)
  · cases hthrow.symm.trans hrun
    refine ⟨?_, fun _ heq => (by cases heq)⟩
    rintro s heq
    cases heq
    obtain ⟨sent, lag, q, -, h, -, hcause | ⟨htrue, -⟩⟩ := hhalted
    · obtain ⟨w, hfault⟩ := rx_fault_of_mismatch hcause
        (fun _ => h.no_tx_fault) (.inl rfl)
      obtain ⟨op, ops, x, -, -, -, -, hentry, hexn⟩ := h.rx_fault hfault
      generalize hwhat : Exn.runtimeError
        "Synthetic::recv_response: wrong response-request packet match" = e
        at hexn
      cases hexn with
      | notSent hsent => exact absurd hwhat (by decide)
      | early hnow => exact absurd hwhat (by decide)
      | unread hread => cases hread
      | noCallback hcb => exact hentry.cb hcb
    · rw [hreply] at htrue
      cases htrue

/-- The responses with the tags of the given slots, in this order. -/
private def twoRequests (first second : UInt8) : List (Call Unit) :=
  [.send 5 true (fun _ _ _ _ _ k => k) (fun _ => 0) [] [],
    .send 9 true (fun _ _ _ _ _ k => k) (fun _ => 0) [] [],
    .runIo EPOLLOUT .ok [] [.accepted 288],
    .runIo EPOLLIN .ok [.data first (List.replicate 7 0 ++
      second :: List.replicate 7 0)] []]

private def twoRequestsRun (first second : UInt8) : EStateM.Result Exn
    (Conn UInt64 (State Unit) maxOutstandingReqs charbufSize) Unit :=
  runAll (Call.call ⟨false, 0⟩ id) (twoRequests first second)
    (start 0 (fun _ => 0) (fun _ => 0) ())

theorem run_attributes_iff_inOrder :
    (∀ s, twoRequestsRun 0 64 ≠ .error (.runtimeError
      "Synthetic::recv_response: wrong response-request packet match") s) ∧
    ∀ s, twoRequestsRun 0 64 = .ok () s →
      (Attributed ⟨false, 0⟩ s ↔ InOrder ⟨false, 0⟩ s) :=
  run_attributes_iff rfl id 0 (fun _ => 0) (fun _ => 0) ()
    (twoRequests 0 64) rfl

/-- The second request is answered first, and its response is recorded against
the first one. -/
theorem not_attributed_reversed :
    returned (twoRequestsRun 64 0) ∧
      ¬ Attributed ⟨false, 0⟩ (after (twoRequestsRun 64 0)) := by
  refine ⟨by decide +kernel, fun hall => ?_⟩
  have hdone : (after (twoRequestsRun 64 0)).world.done[0]? =
      some ⟨0, 0, 0, 0, 0, 8, true⟩ := by decide +kernel
  have hresponse : (delivered (after (twoRequestsRun 64 0)).trace)[0]? =
      some (.rxcb 0 .hdr (64 :: List.replicate 7 0, none) 0 0) := by
    decide +kernel
  exact absurd (hall 0 _ _ _ hdone hresponse) (by decide)

end Mutated.Ports.Synthetic
