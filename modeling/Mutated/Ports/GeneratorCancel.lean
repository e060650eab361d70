import Mutated.Ports.Memcache
import Mutated.Ports.SockCancel

/-!
# Destroying a connection

A generator that is destroyed destroys its socket, which cancels the pending
operations: `recv_response` is called with `- EIO` for each of them and takes
the oldest request out of `requests_`.  An operation past its header took its
request out before, when its response arrived.  So the destructor asks for one
request more than there is when it finds such an operation, and throws where
it must not.
-/

namespace Mutated.Ports

open Mutated.Verified.Circular
open Mutated.Verified.Exec
open Relation (ReflTransGen)

variable {X K : Type} {R C : ℕ+} {clk : Nat → Nat} {P : Proto X}
  {addr : Nat} {sent : List (Sent X)} {lag : Nat}
  {q q' : Queues (World X K R)}

/-! ## The pending operations -/

/-- The three rings are in lockstep, and every pending operation, also one
past its header, has the callback of the generator. -/
structure Awaited (clk : Nat → Nat) (P : Proto X) (C : ℕ+) (addr : Nat)
    (sent : List (Sent X)) (lag : Nat) (q : Queues (World X K R)) : Prop
    extends Lockstep clk P C addr sent lag q where
  hdrcb : ∀ op ∈ q.rxCbs, op.hdrcb = some (recvResponse clk P)

/-- Receiving does not change the callbacks of an operation. -/
private theorem hdrcb_rx (h : ∀ op ∈ q.rxCbs,
    op.hdrcb = some (recvResponse clk P))
    (hstep : Queues.RxStep C addr q q') :
    ∀ op ∈ q'.rxCbs, op.hdrcb = some (recvResponse clk P) := by
  cases hstep with
  | recvd b bs hfit => exact h
  | skip op ops n hops hcb hlen hneed =>
      rw [hops] at h
      intro op' hop'
      rcases List.mem_cons.mp hop' with rfl | hold
      · rw [op.skip_hdrcb]
        exact h op List.mem_cons_self
      · exact h op' (.tail _ hold)
  | fire op ops cb r w hops hcb hpos hneed hcall =>
      rw [hops] at h
      intro op' hop'
      rcases List.mem_cons.mp hop' with rfl | hold
      · rw [op.fire_hdrcb]
        exact h op List.mem_cons_self
      · exact h op' (.tail _ hold)
  | finish op ops hops hneed =>
      rw [hops] at h
      exact fun op' hop' => h op' (.tail _ hop')

/-- **Every small step** keeps it. -/
theorem awaited_kept (hsize : 0 < P.size) (addr : Nat) (len : X → Nat) :
    Kept (R := R) (K := K) clk P C addr len (fun _ _ => True)
      (Awaited clk P C addr) where
  wf := fun h => h.wf
  rx := fun hcredit h hstep => ⟨h.step_rx hsize hstep, hdrcb_rx h.hdrcb hstep⟩
  tx := by
    intro sent lag q q' h hstep
    refine ⟨h.step_tx hstep, ?_⟩
    cases hstep <;> exact h.hdrcb
  submit := by
    intro sent q info measure cb bytes _ h _ hroom _ _
    exact ⟨h.submit hroom info measure cb bytes, h.hdrcb⟩
  await := by
    intro sent x q h
    refine ⟨h.toLockstep.await hsize, ?_⟩
    intro op hop
    rcases List.mem_append.mp hop with hold | hnew
    · exact h.hdrcb op hold
    · rw [List.mem_singleton.mp hnew]
      rfl
  client := fun k h => ⟨h.toLockstep.client k, h.hdrcb⟩

/-- A new connection. -/
theorem Awaited.init (addr : Nat) (rmem wmem : Nat → UInt8) (info : X)
    (client : K) :
    Between addr (Awaited clk P C addr) []
      (connect addr rmem wmem info client : Conn X K R C) :=
  ⟨⟨Sock.init_wf _ _ _ _, rfl, .init rmem wmem info client rfl,
    fun _ h => absurd h List.not_mem_nil⟩, rfl, rfl, fun _ h => by cases h⟩

/-! ## Cancelling them -/

/-- Cancelling the operations in some slots removes as many requests. -/
private theorem cancelRxs_returns (ps : List Nat) : ∀ {s : Conn X K R C},
    s.world.sock = s.addr → s.world.requests.WF →
    (∀ p ∈ ps, (s.rxCbs.buf p).hdrcb = some (recvResponse clk P) ∧
      (s.rxCbs.buf p).bodycb = none) →
    (ps.length ≤ s.world.requests.used → ∃ s',
      Sock.cancelRxs ps s = .ok () s' ∧ s'.addr = s.addr ∧
      s'.world.sock = s.world.sock ∧ s'.txCbs = s.txCbs ∧
      s'.rxCbs = s.rxCbs) ∧
    (s.world.requests.used < ps.length → ∃ e s',
      Sock.cancelRxs ps s = .error e s') := by
  induction ps with
  | nil =>
      intro s _ _ _
      exact ⟨fun _ => ⟨s, rfl, rfl, rfl, rfl, rfl⟩,
        fun hlt => absurd hlt (Nat.not_lt_zero _)⟩
  | cons p ps ih =>
      intro s hsock hwf hcbs
      obtain ⟨hhdr, hbody⟩ := hcbs p List.mem_cons_self
      have hunfold : Sock.cancelRxs (p :: ps) s =
          (Sock.cancelRx (s.rxCbs.buf p) .hdr (some (recvResponse clk P)) >>=
            fun _ => Sock.cancelRxs ps :
            EStateM Exn (Conn X K R C) Unit) s := by
        show (Sock.cancelRx (s.rxCbs.buf p) .hdr (s.rxCbs.buf p).hdrcb >>=
          fun _ => Sock.cancelRx (s.rxCbs.buf p) .body
            (s.rxCbs.buf p).bodycb >>= fun _ => Sock.cancelRxs ps :
          EStateM Exn (Conn X K R C) Unit) s = _
        rw [hhdr, hbody]
        rfl
      have hcall : recvResponse clk P s.addr (s.rxCbs.buf p).cbdata ([], none)
          (- EIO) s.world = _ :=
        recvResponse_cancelled hsock _ _ (by decide)
      have hcancel : Sock.cancelRx (s.rxCbs.buf p) .hdr
          (some (recvResponse clk P)) s =
          (Sock.onWorld (recvResponse clk P s.addr (s.rxCbs.buf p).cbdata
            ([], none) (- EIO)) >>= fun ret =>
            Sock.emit (.rxcb (s.rxCbs.buf p).serial .hdr ([], none) (- EIO)
              ret) : EStateM Exn (Conn X K R C) Unit) s := rfl
      rw [hunfold]
      rcases Nat.eq_zero_or_pos s.world.requests.used with hempty | hsome
      · refine ⟨fun hle => ?_, fun _ => ?_⟩
        · rw [List.length_cons] at hle
          omega
        · obtain ⟨e, hdrop⟩ := Buffer.drop_throws
            (show s.world.requests.used < 1 by omega)
          refine ⟨e, _, bind_of_error (hcancel.trans (bind_of_error
            (zoom_of_error (hcall.trans
              (bind_of_error (zoom_of_error hdrop))))))⟩
      · have hdrop := Buffer.drop_dropped hwf (show 1 ≤ s.world.requests.used
          from hsome)
        have hstep := hcancel.trans (bind_of_ok (zoom_of_ok (hcall.trans
          (bind_of_ok (zoom_of_ok hdrop)))))
        have hle : ps.length + 1 ≤ s.world.requests.used →
            ps.length ≤ s.world.requests.used - 1 := by omega
        have hlt : s.world.requests.used < ps.length + 1 →
            s.world.requests.used - 1 < ps.length := by omega
        obtain ⟨hok, hthrow⟩ := ih (s := { s with
            world := { s.world with requests := s.world.requests.dropped 1 }
            trace := s.trace ++ [.rxcb (s.rxCbs.buf p).serial .hdr ([], none)
              (- EIO) 0] })
          hsock (hwf.dropped (by omega))
          fun p' hp' => hcbs p' (.tail _ hp')
        rw [bind_of_ok hstep, List.length_cons]
        exact ⟨fun h => hok (hle h), fun h => hthrow (hlt h)⟩

/-- Cancelling the callback points does nothing. -/
private theorem cancelTxs_returns (ps : List Nat) : ∀ {s : Conn X K R C},
    s.world.sock = s.addr →
    (∀ p ∈ ps, (s.txCbs.buf p).cb = some (sentRequest clk P)) →
    ∃ s', Sock.cancelTxs ps s = .ok () s' ∧ s'.txCbs = s.txCbs ∧
      s'.rxCbs = s.rxCbs := by
  induction ps with
  | nil => exact fun _ _ => ⟨_, rfl, rfl, rfl⟩
  | cons p ps ih =>
      intro s hsock hcbs
      have hcall : sentRequest clk P s.addr (s.txCbs.buf p).cbdata (- EIO)
          s.world = .ok () s.world := by
        show (if s.world.sock ≠ s.addr then throw (.runtimeError
            (P.name ++ "::sent_request: wrong socket in callback"))
          else pure () : EStateM Exn (World X K R) Unit) s.world = _
        rw [if_neg (not_not_intro hsock)]
        rfl
      rw [Sock.cancelTxs_some (hcbs p List.mem_cons_self), Sock.onWorld,
        bind_of_ok (zoom_of_ok hcall)]
      exact ih hsock fun p' hp' => hcbs p' (.tail _ hp')

/-- The operations that are still pending, by whether the first one is past
its header. -/
private theorem length_pending (ops : List (IORx (World X K R))) :
    ops.length ≤ (unanswered ops).length ↔
      ∀ op ∈ ops.head?, 0 < op.hdrlen := by
  cases ops with
  | nil => exact iff_of_true (Nat.le_refl _) fun _ h => by cases h
  | cons op ops =>
      rw [unanswered, List.head?_cons]
      by_cases hzero : op.hdrlen = 0
      · rw [if_pos hzero]
        refine iff_of_false (by rw [List.length_cons]; omega) fun h => ?_
        have := h op rfl
        omega
      · rw [if_neg hzero]
        refine iff_of_true (Nat.le_refl _) fun op' hop' => ?_
        cases hop'
        omega

/-- A pending operation behind the first one waits for its header. -/
private theorem head_pending (hsize : 0 < P.size) {s : Conn X K R C}
    (h : Between addr (Awaited clk P C addr) sent s) :
    (∀ op ∈ s.rxCbs.toList, 0 < op.hdrlen) ↔
      ∀ op ∈ s.view.rxCbs.head?, 0 < op.hdrlen := by
  constructor
  · exact fun hall op hop => hall op (List.mem_of_mem_head? hop)
  · intro hfirst op hop
    cases hlist : s.view.rxCbs with
    | nil =>
        have hnil : s.rxCbs.toList = [] := hlist
        rw [hnil] at hop
        exact absurd hop List.not_mem_nil
    | cons first rest =>
        have hpos := hfirst first (by rw [hlist]; rfl)
        have hmem : op ∈ unanswered s.view.rxCbs := by
          rw [hlist, unanswered, if_neg (by omega), ← hlist]
          exact hop
        rw [(h.holds.framed.ops.fresh op hmem).hdrlen]
        exact hsize

/-- The destructor returns if there is a request for every operation that it
cancels. -/
private theorem destroy_returns {s : Conn X K R C}
    (h : Between addr (Awaited clk P C addr) sent s) :
    (∃ s', Sock.destroy s = .ok () s') ↔
      s.rxCbs.visited.length ≤ s.world.requests.used := by
  have hview := h.holds
  have hsock : s.world.sock = s.addr := hview.sock.trans h.addr.symm
  have hcbs : ∀ p ∈ s.rxCbs.visited,
      (s.rxCbs.buf p).hdrcb = some (recvResponse clk P) ∧
        (s.rxCbs.buf p).bodycb = none := by
    intro p hp
    have hmem := Buffer.buf_mem_of_visited h.wf.rxCbs hp
    exact ⟨hview.hdrcb _ hmem, hview.framed.ops.bodycb _ hmem⟩
  have hpts : ∀ p ∈ s.txCbs.visited,
      (s.txCbs.buf p).cb = some (sentRequest clk P) := fun p hp =>
    (hview.points _ (Buffer.buf_mem_of_visited h.wf.txCbs hp)).1
  have hcancel := cancelRxs_returns s.rxCbs.visited hsock hview.wf hcbs
  rw [Sock.destroy_eq]
  constructor
  · rintro ⟨s', hrun⟩
    by_contra hlt
    obtain ⟨e, t, hthrow⟩ := hcancel.2 (by omega)
    rw [bind_of_error hthrow] at hrun
    cases hrun
  · intro hle
    obtain ⟨t, hrx, haddr, hsame, htx, hrx'⟩ := hcancel.1 hle
    obtain ⟨u, htxs, htx', hrx''⟩ := cancelTxs_returns (P := P)
      s.txCbs.visited (s := t) (hsame.trans (hsock.trans haddr.symm)) (by
        rw [htx]
        exact hpts)
    have hrxwf : u.rxCbs.WF := by
      rw [hrx'', hrx']
      exact h.wf.rxCbs
    have htxwf : u.txCbs.WF := by
      rw [htx', htx]
      exact h.wf.txCbs
    rw [bind_of_ok hrx, bind_of_ok htxs]
    exact Sock.clearAll_returns hrxwf htxwf

/-- **When a connection can be destroyed**: when no pending operation is past
its header, or when the ring of operations is full. -/
theorem destroy_returns_iff (hsize : 0 < P.size) {s : Conn X K R C}
    (h : Between addr (Awaited clk P C addr) sent s) :
    (∃ s', Sock.destroy s = .ok () s') ↔
      s.rxCbs.items = R ∨ ∀ op ∈ s.rxCbs.toList, 0 < op.hdrlen := by
  have hused : s.world.requests.used = (unanswered s.view.rxCbs).length := by
    have hpending := h.holds.pending
    have hspent := h.holds.used
    have hworld : s.view.world = s.world := rfl
    rw [hworld] at hspent
    omega
  rw [destroy_returns h, hused, Buffer.visited_eq h.wf.rxCbs]
  by_cases hfull : s.rxCbs.used = R
  · rw [if_pos hfull]
    exact iff_of_true (Nat.zero_le _) (.inl hfull)
  · have hlen : s.rxCbs.slots.length = s.view.rxCbs.length := by
      show _ = s.rxCbs.toList.length
      rw [← Buffer.map_slots, List.length_map]
    rw [if_neg hfull, hlen, length_pending, head_pending hsize h]
    exact (or_iff_right hfull).symm

/-! ## The main result -/

/-- **Destroying a connection.**  Every operation has called its header
callback exactly once when those still pending were waiting for their header
(or, where the ring of operations is full, had called it), and the destructor
of a memcache connection returns when they were waiting for their header (or
the ring is full). -/
theorem destroyed_iff {R C : ℕ+} (addr : Nat) (rmem wmem : Nat → UInt8) :
    (∀ {W : Type} (w : W) (calls : List (SockCall W)) (s s' : Sock W R C),
      runAll SockCall.call calls (Sock.init addr rmem wmem w) = .ok () s →
      Sock.destroy s = .ok () s' →
      (ToldAll (calls.flatMap SockCall.queues) s'.trace ↔
        s.Cancellable (calls.flatMap SockCall.queues))) ∧
    ∀ {K : Type} (cfg : Memcache.Config) (clk : Nat → Nat)
      (seqid : UInt64) (client : K) (calls : List (Memcache.Call K))
      (s : Conn MemcCmd (Memcache.State K) R C),
      runAll (Memcache.Call.call cfg clk) calls
        (Memcache.start addr rmem wmem seqid client) = .ok () s →
      ((∃ s', Sock.destroy s = .ok () s') ↔
        s.rxCbs.items = R ∨ ∀ op ∈ s.rxCbs.toList, 0 < op.hdrlen) := by
  constructor
  · intro W w calls s s' hrun hdestroy
    exact (run_tallied calls (.init addr rmem wmem w) hrun).told_iff hdestroy
  · intro K cfg clk seqid client calls s hrun
    rcases Memcache.run_kept (awaited_kept (by decide) addr
        (Memcache.reqLen cfg)) (Awaited.init addr rmem wmem .get
          ⟨seqid, client⟩) calls with
      ⟨sent, s', hok, -, hs'⟩ | ⟨e, s', hthrow, -⟩
    · cases hok.symm.trans hrun
      exact destroy_returns_iff (by decide) hs'
    · cases hthrow.symm.trans hrun

/-- An operation for a header of two bytes and a body of five. -/
private def fiveBody (rin : List ReadRes) : List (SockCall Unit) :=
  [.read ⟨2, some fun _ _ _ _ => pure 5, 0, none, none, 0⟩ [],
    .runIo EPOLLIN .ok rin []]

private def fiveBodyRun (rin : List ReadRes) :
    EStateM.Result Exn (Sock Unit maxOutstandingReqs charbufSize) Unit :=
  runAll SockCall.call (fiveBody rin)
    (Sock.init 0 (fun _ => 0) (fun _ => 0) ())

/-- A get that was sent, with keys and values of one byte. -/
private def oneSent (rin : List ReadRes) : List (Memcache.Call Unit) :=
  [.send false true (fun _ _ _ _ _ k => k) (fun _ _ => 0) [] [],
    .runIo EPOLLOUT .ok [] [.accepted 25], .runIo EPOLLIN .ok rin []]

private def oneSentRun (rin : List ReadRes) : EStateM.Result Exn
    (Conn MemcCmd (Memcache.State Unit) maxOutstandingReqs charbufSize) Unit :=
  runAll (Memcache.Call.call ⟨1, 1, 1⟩ id) (oneSent rin)
    (Memcache.start 0 (fun _ => 0) (fun _ => 0) 0 ())

theorem destroyed_iff_waiting :
    (ToldAll ((fiveBody []).flatMap SockCall.queues)
        (after (Sock.destroy (after (fiveBodyRun [])))).trace ↔
      (after (fiveBodyRun [])).Cancellable
        ((fiveBody []).flatMap SockCall.queues)) ∧
    ((∃ s', Sock.destroy (after (oneSentRun [])) = .ok () s') ↔
      (after (oneSentRun [])).rxCbs.items = maxOutstandingReqs ∨
        ∀ op ∈ (after (oneSentRun [])).rxCbs.toList, 0 < op.hdrlen) :=
  ⟨(destroyed_iff 0 (fun _ => 0) (fun _ => 0)).1 () (fiveBody []) _ _
      (eq_ok_of_returned (by decide +kernel))
      (eq_ok_of_returned (by decide +kernel)),
    (destroyed_iff 0 (fun _ => 0) (fun _ => 0)).2 ⟨1, 1, 1⟩ id 0 ()
      (oneSent []) _ (eq_ok_of_returned (by decide +kernel))⟩

/-- The headers arrived and their bodies did not: the header callback is
called once more, and `requests_` is empty. -/
theorem not_told_bodyMissing :
    (returned (fiveBodyRun [.data 1 [2]]) ∧
      returned (Sock.destroy (after (fiveBodyRun [.data 1 [2]]))) ∧
      ¬ ToldAll ((fiveBody [.data 1 [2]]).flatMap SockCall.queues)
        (after (Sock.destroy (after (fiveBodyRun [.data 1 [2]])))).trace) ∧
    returned (oneSentRun [.data 0x81 ([0, 0, 0, 0, 0, 0, 0, 0, 0, 0, 5] ++
      List.replicate 12 0)]) ∧
    ¬ returned (Sock.destroy (after (oneSentRun [.data 0x81
      ([0, 0, 0, 0, 0, 0, 0, 0, 0, 0, 5] ++ List.replicate 12 0)]))) := by
  refine ⟨⟨by decide +kernel, by decide +kernel, fun hall => ?_⟩,
    by decide +kernel, by decide +kernel⟩
  have htwice : timesCalled (after (Sock.destroy
      (after (fiveBodyRun [.data 1 [2]])))).trace 0 .hdr = 2 := by
    decide +kernel
  have honce := (hall.told 0 _ rfl).hdr (by decide) (by simp)
  rw [htwice] at honce
  exact absurd honce (by decide)

end Mutated.Ports
