import Mutated.Ports.SyntheticLifecycle

/-!
# Send-only mode

In send-only mode no response is awaited: `_send_request` reports the
completion of a request itself, once it is submitted.  But the request stays
in `requests_` and its operation in `rx_cbs_`, and only a response takes them
out.  So the entries held are the requests ever made, and after as many as the
rings hold `_send_request` fails.
-/

namespace Mutated.Ports.Synthetic

open Mutated.Verified.Circular
open Mutated.Verified.Exec

variable {K : Type} {R C : ℕ+} {clk : Nat → Nat} {addr : Nat}
  {sent : List (Sent UInt64)} {lag : Nat}
  {q q' : Queues (World UInt64 (State K) R)}

/-! ## Faked responses -/

/-- While nothing was answered, `n` responses were faked. -/
structure Faked (clk : Nat → Nat) (C : ℕ+) (addr n : Nat)
    (sent : List (Sent UInt64)) (lag : Nat)
    (q : Queues (World UInt64 (State K) R)) : Prop
    extends Bodyless clk C addr sent lag q where
  faked : q.world.done = [] → q.world.client.faked = n

/-- **Every small step** leaves the count of faked responses alone, as long as
nothing is answered. -/
theorem faked_carried (addr n : Nat) :
    Carried (R := R) (K := State K) clk proto C addr (fun _ => reqPktSize)
      (fun _ _ => True) (Faked clk C addr n) where
  wf := fun h => h.wf
  rx := by
    intro sent lag q q' _ h hstep
    refine ⟨h.step_rx hstep, ?_⟩
    cases header_cases (by decide) h.framed.ops hstep with
    | recvd b bs => exact h.faked
    | pass m ops hfresh hops hskip hlen => exact h.faked
    | finish ops hfresh hops hskip => exact h.faked
    | answer op ops cb r w hops hun hcb hlen hcall =>
        obtain ⟨x, req, f, waitUs, -, -, -, -, -, -, rfl⟩ :=
          h.answer hun hcb hlen hcall
        intro hnone
        exact absurd hnone (List.append_ne_nil_of_right_ne_nil _
          (List.cons_ne_nil _ _))
  tx := by
    intro sent lag q q' h hstep
    refine ⟨h.step_tx hstep, ?_⟩
    cases hstep with
    | accepted k hcredit hbusy hk => exact h.faked
    | fire c pt pts f w hcredit hpts hroom hlen hcb hcall =>
        obtain ⟨hf, hdata⟩ := h.points pt
          (by rw [hpts]; exact List.mem_cons_self)
        cases hcb.symm.trans hf
        rw [hdata, sentRequest_ok h.sock] at hcall
        cases hcall
        exact h.faked
    | pay c pt pts hcredit hpts hroom hlen => exact h.faked
    | spent c hcredit hpts => exact h.faked
    | overrun c hcredit hfull => exact h.faked
  submit := fun measure cb _ hcredit h _ hroom hfew hlen =>
    ⟨(bodyless_carried clk addr).submit measure cb hcredit h.toBodyless trivial
      hroom hfew hlen, h.faked⟩
  await := fun h => ⟨h.toBodyless.await, h.faked⟩

/-- The connection between two calls. -/
abbrev SendOnly (addr : Nat) (clk : Nat → Nat) (sent : List (Sent UInt64))
    (s : Conn UInt64 (State K) R C) : Prop :=
  Between addr (Faked clk C addr sent.length) sent s

/-- **A call** in send-only mode. -/
theorem SendOnly.call {cfg : Config} (honly : cfg.sendOnly = true)
    {s s' : Conn UInt64 (State K) R C} (h : SendOnly addr clk sent s)
    (c : Call K) (hrun : c.call cfg clk s = .ok () s') :
    ∃ sent', made sent' = made sent ++ c.made ∧
      SendOnly addr clk sent' s' := by
  cases c with
  | send service measure cb stack wout rin =>
      obtain ⟨n, t, hsend, hend⟩ := bind_eq_ok.mp hrun
      cases hend
      rcases sendRequest_carried (faked_carried addr _)
          h service measure cb trivial stack wout rin with
        ⟨t, hfinish, ht⟩ | ⟨e, t, hthrow, -⟩
      · rw [hfinish, finish, honly] at hsend
        obtain ⟨⟨⟩, u, hfake, hend⟩ := bind_eq_ok.mp hsend
        cases hend
        obtain ⟨cb, -, rfl⟩ := fakeResponse_ok hfake
        refine ⟨sent ++ [⟨s.world.requests.tail, service, measure⟩],
          by simp [made, Call.made], ⟨⟨?_, ?_, ?_⟩, ?_, ?_, ?_⟩⟩
        · exact ⟨ht.wf.rxCbs, ht.wf.rbuf, ht.wf.txCbs, ht.wf.wbuf⟩
        · exact ht.addr
        · refine ⟨⟨ht.holds.toLockstep.client _, ht.holds.bare⟩, ?_⟩
          intro hnone
          rw [List.length_append, List.length_singleton]
          exact congrArg (· + 1) (ht.holds.faked hnone)
        · exact ht.nread
        · exact ht.npoint
        · exact ht.live
      · cases hthrow.symm.trans hsend
  | runIo events check rin wout =>
      rcases runIo_kept (faked_carried addr _) h events check rin wout with
        ⟨t, hok, ht⟩ | ⟨e, t, hthrow, -⟩
      · cases hok.symm.trans hrun
        exact ⟨sent, by simp [Call.made], ht⟩
      · cases hthrow.symm.trans hrun

/-- A run in send-only mode. -/
theorem run_sendOnly {cfg : Config} (honly : cfg.sendOnly = true)
    (rmem wmem : Nat → UInt8) (client : K) (calls : List (Call K))
    {s : Conn UInt64 (State K) R C}
    (hrun : runAll (Call.call cfg clk) calls (start addr rmem wmem client) =
      .ok () s) :
    ∃ sent, made sent = calls.flatMap Call.made ∧ SendOnly addr clk sent s := by
  have hstart := Bodyless.init (R := R) (C := C) clk addr rmem wmem client
  refine runAll_reaches (P := fun past t => ∃ sent,
    made sent = past.flatMap Call.made ∧ SendOnly addr clk sent t)
    ⟨[], rfl, ⟨hstart.wf, hstart.addr, hstart.holds, fun _ => rfl⟩, rfl, rfl,
      hstart.live⟩ ?_ hrun
  rintro past c rest u v - - ⟨sent, hsent, hu⟩ hcall
  obtain ⟨sent', hsent', hv⟩ := hu.call honly c hcall
  refine ⟨sent', ?_, hv⟩
  rw [hsent', hsent, List.flatMap_append, List.flatMap_singleton]

/-! ## The main result -/

/-- The requests whose completion has not been reported. -/
def unreported (reqs : List (UInt64 × Bool))
    (s : Conn UInt64 (State K) R C) : Nat :=
  reqs.length - (s.world.done.length + s.world.client.faked)

/-- No more entries are held than completions are outstanding. -/
def Tracked (reqs : List (UInt64 × Bool)) (s : Conn UInt64 (State K) R C) :
    Prop :=
  s.world.requests.items ≤ unreported reqs s ∧
    s.rxCbs.items ≤ unreported reqs s

instance (reqs : List (UInt64 × Bool)) (s : Conn UInt64 (State K) R C) :
    Decidable (Tracked reqs s) := inferInstanceAs (Decidable (_ ∧ _))

/-- **Send-only mode fills the rings.**  When no response ever arrives, the
entries held are the requests made, and all of them were reported; so no more
are held than are outstanding only as long as no request was made, and with
as many requests as the rings hold the next one fails. -/
theorem run_tracked_iff {cfg : Config} (honly : cfg.sendOnly = true)
    (clk : Nat → Nat) (addr : Nat) (rmem wmem : Nat → UInt8) (client : K)
    (calls : List (Call K)) {s : Conn UInt64 (State K) R C}
    (hrun : runAll (Call.call cfg clk) calls (start addr rmem wmem client) =
      .ok () s) (hnoreply : received s.trace = []) :
    (Tracked (calls.flatMap Call.made) s ↔ calls.flatMap Call.made = []) ∧
    (0 < s.world.requests.space ∧ 0 < s.rxCbs.space ↔
      (calls.flatMap Call.made).length < R) ∧
    ((calls.flatMap Call.made).length = R →
      ∀ service measure cb stack wout rin,
        sendRequest cfg clk service measure cb stack wout rin s = .error
          (.systemError ENOSPC "buffer::queue_prep: buffer full") s) := by
  obtain ⟨sent, hmade, h⟩ := run_sendOnly honly rmem wmem client calls hrun
  have hview := h.holds
  have hnone : delivered s.trace = [] := by
    refine List.eq_nil_iff_forall_not_mem.mpr fun e he => ?_
    obtain ⟨k, hk⟩ := List.mem_iff_getElem?.mp he
    obtain ⟨ret, -, hlen, -⟩ :=
      delivered_of_framed s.trace hview.framed.framed hk
    rw [hnoreply] at hlen
    exact absurd hlen (by simp [proto, respPktSize])
  have hanswered : s.view.answered = 0 := congrArg List.length hnone
  have hdone : s.world.done = [] := by
    have hreported : s.world.done.length = s.view.answered := hview.reported
    rw [hanswered] at hreported
    exact List.length_eq_zero_iff.mp hreported
  have hcount : (calls.flatMap Call.made).length = sent.length := by
    rw [← hmade]
    exact List.length_map ..
  have hfaked : s.world.client.faked = sent.length := hview.faked hdone
  have hrequests : s.world.requests.used = sent.length := by
    have hused := hview.used
    rw [hanswered] at hused
    exact hused
  have hops : s.rxCbs.used = sent.length := by
    have hpending := hview.pending
    have hall := hview.toBodyless.unanswered_eq h.live
    rw [hall, hanswered, Buffer.length_toList] at hpending
    omega
  have hnothing : unreported (calls.flatMap Call.made) s = 0 := by
    rw [unreported, hfaked, hcount, hdone]
    simp
  refine ⟨?_, ?_, ?_⟩
  · rw [Tracked, hnothing, ← List.length_eq_zero_iff, hcount]
    show s.world.requests.used ≤ 0 ∧ s.rxCbs.used ≤ 0 ↔ _
    omega
  · show 0 < R - s.world.requests.used ∧ 0 < R - s.rxCbs.used ↔ _
    omega
  · intro hfull service measure cb stack wout rin
    have hspace : s.world.requests.used = R := by omega
    have hthrow : World.enqueue service measure (onClient cb) s.world =
        .error (.systemError ENOSPC "buffer::queue_prep: buffer full")
          s.world :=
      (bind_of_ok rfl).trans (bind_of_error (zoom_of_error
        (Buffer.queueEmplace_full hspace _)))
    exact bind_of_error (zoom_of_error hthrow)

/-- Requests that are sent at once. -/
private def sends : Nat → List (Call Unit)
  | 0 => [.runIo EPOLLOUT .ok [] []]
  | n + 1 => sends n ++
      [.send 5 true (fun _ _ _ _ _ k => k) (fun _ => 0) [.accepted 144] []]

private def sendsRun (R : ℕ+) (n : Nat) :
    EStateM.Result Exn (Conn UInt64 (State Unit) R charbufSize) Unit :=
  runAll (Call.call ⟨true, 0⟩ id) (sends n)
    (start 0 (fun _ => 0) (fun _ => 0) ())

theorem run_tracked_iff_oneSend :
    (Tracked ((sends 1).flatMap Call.made)
        (after (sendsRun maxOutstandingReqs 1)) ↔
      (sends 1).flatMap Call.made = []) ∧
    (0 < (after (sendsRun maxOutstandingReqs 1)).world.requests.space ∧
        0 < (after (sendsRun maxOutstandingReqs 1)).rxCbs.space ↔
      ((sends 1).flatMap Call.made).length < maxOutstandingReqs) ∧
    (((sends 1).flatMap Call.made).length = maxOutstandingReqs →
      ∀ service measure cb stack wout rin,
        sendRequest ⟨true, 0⟩ id service measure cb stack wout rin
          (after (sendsRun maxOutstandingReqs 1)) =
          .error (.systemError ENOSPC "buffer::queue_prep: buffer full")
            (after (sendsRun maxOutstandingReqs 1))) :=
  run_tracked_iff rfl id 0 (fun _ => 0) (fun _ => 0) ()
    (sends 1) (eq_ok_of_returned (by decide +kernel)) (by decide +kernel)

/-- The kernel accepted the only request and its completion was reported, and
both rings still hold it. -/
theorem not_tracked_oneSend :
    returned (sendsRun maxOutstandingReqs 1) ∧
      received (after (sendsRun maxOutstandingReqs 1)).trace = [] ∧
      (after (sendsRun maxOutstandingReqs 1)).wbuf.items = 0 ∧
      (after (sendsRun maxOutstandingReqs 1)).world.client.faked = 1 ∧
      ¬ Tracked ((sends 1).flatMap Call.made)
        (after (sendsRun maxOutstandingReqs 1)) := by
  decide +kernel

end Mutated.Ports.Synthetic
